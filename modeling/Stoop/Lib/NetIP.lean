import Mathlib

/-!
# IP addresses and prefixes

Go's `net/netip`: addresses of either family, a sixth-version one with the zone it may have, and prefixes, which
have none and whose length their family bounds. A prefix contains addresses of its own family only; a
fourth-version address written in the sixth version (`::ffff:10.0.0.1`) is of the sixth until it is unmapped.

Numbers of a fixed count of digits (`digits`) are here as well, for an address is written in them.
-/

set_option autoImplicit false

namespace Stoop.Lib.NetIP

abbrev Text := List Char

/-! ## Digits -/

/-- The last digits of a number, and as many as are asked for, the first one first. -/
def digits (base : Nat) : Nat → Nat → List Nat
  | 0, _ => []
  | count + 1, n => digits base count (n / base) ++ [n % base]

def ofDigits (base : Nat) (ds : List Nat) : Nat := ds.foldl (fun n d => n * base + d) 0

@[simp] theorem length_digits (base count n : Nat) : (digits base count n).length = count := by
  induction count generalizing n with
  | zero => rfl
  | succ count ih => rw [digits, List.length_append, ih, List.length_singleton]

theorem ofDigits_append (base : Nat) (ds : List Nat) (d : Nat) :
    ofDigits base (ds ++ [d]) = ofDigits base ds * base + d := by
  rw [ofDigits, List.foldl_append]
  rfl

theorem ofDigits_digits {base count n : Nat} (h : n < base ^ count) :
    ofDigits base (digits base count n) = n := by
  induction count generalizing n with
  | zero => exact (Nat.lt_one_iff.mp h).symm
  | succ count ih =>
    have hrest : n / base < base ^ count := Nat.div_lt_of_lt_mul (by rwa [Nat.pow_succ'] at h)
    rw [digits, ofDigits_append, ih hrest, Nat.mul_comm]
    exact Nat.div_add_mod n base

theorem lt_of_mem_digits {base count n d : Nat} (hbase : 0 < base) (h : d ∈ digits base count n) : d < base := by
  induction count generalizing n with
  | zero => exact nomatch h
  | succ count ih =>
    obtain h | h := List.mem_append.mp h
    · exact ih h
    · rw [List.mem_singleton.mp h]
      exact Nat.mod_lt n hbase

/-! ## Addresses -/

inductive Addr
  | v4 (bits : BitVec 32)
  | v6 (bits : BitVec 128) (zone : Text)
  deriving DecidableEq, Repr

/-- An address of the fourth version in the sixth. -/
def mapped (bits : BitVec 32) : BitVec 128 := BitVec.ofNat 128 (0xffff * 2 ^ 32 + bits.toNat)

/-- Whether an address of the sixth version is one of the fourth (`Is4In6`). -/
def isMapped (bits : BitVec 128) : Bool := bits.toNat / 2 ^ 32 == 0xffff

theorem toNat_mapped (bits : BitVec 32) : (mapped bits).toNat = 0xffff * 2 ^ 32 + bits.toNat := by
  have hlt : 0xffff * 2 ^ 32 + bits.toNat < 2 ^ 48 := by
    have := bits.isLt
    omega
  rw [mapped, BitVec.toNat_ofNat, Nat.mod_eq_of_lt (Nat.lt_trans hlt (by decide))]

theorem mapped_setWidth {bits : BitVec 128} (h : isMapped bits = true) :
    mapped (BitVec.ofNat 32 bits.toNat) = bits := by
  have hhigh : bits.toNat / 2 ^ 32 = 0xffff := beq_iff_eq.mp h
  refine BitVec.eq_of_toNat_eq ?_
  rw [toNat_mapped, BitVec.toNat_ofNat]
  omega

theorem isMapped_mapped (bits : BitVec 32) : isMapped (mapped bits) = true := by
  have hlt := bits.isLt
  rw [isMapped, toNat_mapped, beq_iff_eq]
  omega

def Addr.unmap : Addr → Addr
  | .v4 bits => .v4 bits
  | .v6 bits zone => if isMapped bits then .v4 (BitVec.ofNat 32 bits.toNat) else .v6 bits zone

/-- `WithZone("")`. -/
def Addr.withoutZone : Addr → Addr
  | .v4 bits => .v4 bits
  | .v6 bits _ => .v6 bits []

/-! ## Prefixes -/

/-- A prefix; its length is no more than its family has bits. -/
inductive Prefix
  | v4 (addr : BitVec 32) (bits : Fin 33)
  | v6 (addr : BitVec 128) (bits : Fin 129)
  deriving DecidableEq, Repr

/-- The prefix that is one address (`PrefixFrom(addr, addr.BitLen())`), which drops the zone. -/
def Prefix.single : Addr → Prefix
  | .v4 addr => .v4 addr (Fin.last 32)
  | .v6 addr _ => .v6 addr (Fin.last 128)

def maskedBits {w : Nat} (addr : BitVec w) (bits : Nat) : BitVec w := (addr >>> (w - bits)) <<< (w - bits)

/-- Whether the first bits of two addresses are the same. -/
def sameBits {w : Nat} (a b : BitVec w) (bits : Nat) : Bool := (a ^^^ b) >>> (w - bits) == 0

def Prefix.masked : Prefix → Prefix
  | .v4 addr bits => .v4 (maskedBits addr bits) bits
  | .v6 addr bits => .v6 (maskedBits addr bits) bits

/-- An address with a zone is in no prefix, and none of the other family. -/
def Prefix.contains : Prefix → Addr → Bool
  | .v4 addr bits, .v4 a => sameBits a addr bits
  | .v6 addr bits, .v6 a zone => zone == [] && sameBits a addr bits
  | _, _ => false

def Prefix.isMapped : Prefix → Bool
  | .v4 _ _ => false
  | .v6 addr _ => NetIP.isMapped addr

theorem maskedBits_shiftRight {w : Nat} (addr : BitVec w) (bits : Nat) :
    maskedBits addr bits >>> (w - bits) = addr >>> (w - bits) := by
  apply BitVec.eq_of_getLsbD_eq
  intro i hi
  rw [maskedBits, BitVec.getLsbD_ushiftRight, BitVec.getLsbD_shiftLeft, BitVec.getLsbD_ushiftRight,
    BitVec.getLsbD_ushiftRight, Nat.add_sub_cancel_left]
  by_cases hlt : w - bits + i < w
  · simp [hlt]
  · simp [hlt, BitVec.getLsbD_of_ge _ _ (Nat.not_lt.mp hlt)]

/-- Masked, two addresses are the same where their first bits are. -/
theorem maskedBits_eq_iff {w : Nat} (a b : BitVec w) (bits : Nat) :
    maskedBits a bits = maskedBits b bits ↔ a >>> (w - bits) = b >>> (w - bits) := by
  constructor
  · intro h
    rw [← maskedBits_shiftRight a, h, maskedBits_shiftRight]
  · intro h
    rw [maskedBits, h, maskedBits]

theorem maskedBits_maskedBits {w : Nat} (addr : BitVec w) (bits : Nat) :
    maskedBits (maskedBits addr bits) bits = maskedBits addr bits := by
  rw [maskedBits, maskedBits_shiftRight, maskedBits]

theorem sameBits_maskedBits {w : Nat} (a addr : BitVec w) (bits : Nat) :
    sameBits a (maskedBits addr bits) bits = sameBits a addr bits := by
  rw [sameBits, BitVec.ushiftRight_xor_distrib, maskedBits_shiftRight, ← BitVec.ushiftRight_xor_distrib, sameBits]

/-- Two addresses have their first bits the same where they are the same number of blocks in. -/
theorem sameBits_iff {w : Nat} (a b : BitVec w) (bits : Nat) :
    sameBits a b bits = true ↔ a.toNat / 2 ^ (w - bits) = b.toNat / 2 ^ (w - bits) := by
  rw [sameBits, beq_iff_eq, BitVec.ushiftRight_xor_distrib]
  constructor
  · intro h
    have heq : a >>> (w - bits) = b >>> (w - bits) := by simpa using h
    simpa [BitVec.toNat_eq, Nat.shiftRight_eq_div_pow] using heq
  · intro h
    have heq : a >>> (w - bits) = b >>> (w - bits) := by
      simpa [BitVec.toNat_eq, Nat.shiftRight_eq_div_pow] using h
    simp [heq]

/-- A prefix contains what it did before its address was masked. -/
@[simp] theorem Prefix.masked_contains (p : Prefix) (a : Addr) : p.masked.contains a = p.contains a := by
  cases p <;> cases a <;> simp [masked, contains, sameBits_maskedBits]

@[simp] theorem Prefix.masked_masked (p : Prefix) : p.masked.masked = p.masked := by
  cases p <;> simp [masked, maskedBits_maskedBits]

theorem maskedBits_self {w : Nat} (addr : BitVec w) : maskedBits addr w = addr := by
  rw [maskedBits, Nat.sub_self, BitVec.ushiftRight_zero, BitVec.shiftLeft_zero]

/-- One address by itself has nothing masked. -/
@[simp] theorem Prefix.single_masked (a : Addr) : (Prefix.single a).masked = .single a := by
  cases a with
  | v4 addr => exact congrArg (Prefix.v4 · (Fin.last 32)) (maskedBits_self addr)
  | v6 addr zone => exact congrArg (Prefix.v6 · (Fin.last 128)) (maskedBits_self addr)

end Stoop.Lib.NetIP
