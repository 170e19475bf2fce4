import Mathlib
import Stoop.Lib.NetIPText

/-!
# Where the server lets itself be sent

Link previews and outgoing webhooks make the server request URLs somebody else chose. `Policy.Allows`
(`internal/netguard/netguard.go`) says which addresses it may reach, and a transport dials only what it checked
(`Transport`, `SOCKS5Transport`).

`Allows` is written over `netip`'s predicates, which look at octets and sixteen-bit groups; what they come to is a list of
ranges (`Barred`, `allows_iff`). An address with a zone is in no prefix, so the ranges that carry a fourth-version
address inside bar none that has one.
-/

set_option autoImplicit false

namespace Stoop.Netguard

open Stoop.Lib.NetIP

local instance neZero_bits : NeZero 129 := ⟨by decide⟩

/-! ## `netip`'s predicates -/

/-- The `i`th octet of an address of the fourth version. -/
def octet4 (bits : BitVec 32) (i : Nat) : Nat := bits.toNat / 256 ^ (3 - i) % 256

def octet6 (bits : BitVec 128) (i : Nat) : Nat := bits.toNat / 256 ^ (15 - i) % 256

/-- The `i`th group of sixteen bits of an address of the sixth version. -/
def group6 (bits : BitVec 128) (i : Nat) : Nat := bits.toNat / 65536 ^ (7 - i) % 65536

def isPrivate : Addr → Bool
  | .v4 b =>
    octet4 b 0 == 10 || (octet4 b 0 == 172 && octet4 b 1 &&& 0xf0 == 16) || (octet4 b 0 == 192 && octet4 b 1 == 168)
  | .v6 b _ => octet6 b 0 &&& 0xfe == 0xfc

def isLoopback : Addr → Bool
  | .v4 b => octet4 b 0 == 127
  | .v6 b _ => b == 1

def isMulticast : Addr → Bool
  | .v4 b => octet4 b 0 &&& 0xf0 == 0xe0
  | .v6 b _ => octet6 b 0 == 0xff

def isLinkLocalUnicast : Addr → Bool
  | .v4 b => octet4 b 0 == 169 && octet4 b 1 == 254
  | .v6 b _ => group6 b 0 &&& 0xffc0 == 0xfe80

/-- The unspecified address of either family; one with a zone is another address. -/
def isUnspecified (ip : Addr) : Bool := ip == .v4 0 || ip == .v6 0 []

def isGlobalUnicast (ip : Addr) : Bool :=
  !isUnspecified ip && ip != .v4 0xffffffff && !isLoopback ip && !isMulticast ip && !isLinkLocalUnicast ip

/-! ## The policy -/

structure Policy where
  allowPrivate : Bool
  deriving DecidableEq, Repr

/-- 100.64.0.0/10. -/
def cgnat : Prefix := .v4 0x64400000 10

/-- `::/96`, `64:ff9b::/96`, `64:ff9b:1::/48` and `2002::/16`. -/
def embedsIPv4 : List Prefix :=
  [.v6 0 96, .v6 0x0064ff9b000000000000000000000000 96, .v6 0x0064ff9b000100000000000000000000 48,
    .v6 0x20020000000000000000000000000000 16]

def isPublic (addr : Addr) : Bool :=
  let ip := addr.unmap
  !(embedsIPv4.any fun p => p.contains ip) &&
    (isGlobalUnicast ip && !isPrivate ip && !isLoopback ip && !isLinkLocalUnicast ip && !isMulticast ip &&
      !isUnspecified ip && !cgnat.contains ip)

def Policy.allows (p : Policy) (addr : Addr) : Bool :=
  let ip := addr.unmap
  if isPublic ip then true
  else if !p.allowPrivate then false
  else (isPrivate ip || isLoopback ip || cgnat.contains ip) && !isLinkLocalUnicast ip

/-! ## The ranges it comes to -/

/-- Unspecified, link-local, multicast and broadcast: nobody may be sent there. -/
def always : List Prefix :=
  [.v4 0 32, .v4 0xa9fe0000 16, .v4 0xe0000000 4, .v4 0xffffffff 32,
    .v6 0xfe800000000000000000000000000000 10, .v6 0xff000000000000000000000000000000 8]

/-- Private, carrier-grade NAT and loopback. -/
def privateRanges : List Prefix :=
  [.v4 0x0a000000 8, .v4 0xac100000 12, .v4 0xc0a80000 16, cgnat, .v4 0x7f000000 8,
    .v6 0xfc000000000000000000000000000000 7, .v6 1 128]

/-- Where the policy lets nobody be sent. -/
def Policy.bars (p : Policy) (addr : Addr) : Bool :=
  let ip := addr.unmap
  always.any (fun q => q.contains ip.withoutZone) ||
    (!p.allowPrivate && privateRanges.any fun q => q.contains ip.withoutZone) ||
      (embedsIPv4.any (fun q => q.contains ip) && !(p.allowPrivate && ip.withoutZone == .v6 1 []))

theorem unmap_unmap (ip : Addr) : ip.unmap.unmap = ip.unmap := by
  cases ip with
  | v4 bits => rfl
  | v6 bits zone =>
    by_cases h : isMapped bits = true
    · simp [Addr.unmap, h]
    · simp [Addr.unmap, h]

theorem contains_v4 (b addr : BitVec 32) (bits : Fin 33) :
    (Prefix.v4 addr bits).contains (.v4 b) = decide (b.toNat / 2 ^ (32 - bits.val) = addr.toNat / 2 ^ (32 - bits.val)) := by
  rw [Prefix.contains, Bool.eq_iff_iff, sameBits_iff, decide_eq_true_iff]

theorem contains_v6 (b addr : BitVec 128) (zone : Text) (bits : Fin 129) :
    (Prefix.v6 addr bits).contains (.v6 b zone) =
      (zone == [] && decide (b.toNat / 2 ^ (128 - bits.val) = addr.toNat / 2 ^ (128 - bits.val))) := by
  rw [Prefix.contains, Bool.eq_iff_iff, Bool.and_eq_true, Bool.and_eq_true, sameBits_iff, decide_eq_true_iff]

/-- Masking off the last bits of a number that has no others than the mask. -/
theorem and_mask {x w k : Nat} (h : x < 2 ^ (w + k)) : x &&& (2 ^ w - 1) * 2 ^ k = x / 2 ^ k * 2 ^ k := by
  rw [← Nat.shiftLeft_eq, ← Nat.shiftLeft_eq, ← Nat.shiftRight_eq_div_pow]
  refine Nat.eq_of_testBit_eq fun i => ?_
  rw [Nat.testBit_and, Nat.testBit_shiftLeft, Nat.testBit_shiftLeft, Nat.testBit_two_pow_sub_one,
    Nat.testBit_shiftRight]
  by_cases hk : k ≤ i
  · by_cases hw : i - k < w
    · simp [hk, hw, Nat.add_sub_cancel' hk]
    · have hhigh : x.testBit i = false :=
        Nat.testBit_lt_two_pow (Nat.lt_of_lt_of_le h (Nat.pow_le_pow_right (by decide) (by omega)))
      simp [hk, hw, Nat.add_sub_cancel' hk, hhigh]
  · simp [hk]

theorem and_f0 {x : Nat} (h : x < 256) : x &&& 0xf0 = x / 16 * 16 := @and_mask x 4 4 h

theorem and_fe {x : Nat} (h : x < 256) : x &&& 0xfe = x / 2 * 2 := @and_mask x 7 1 h

theorem and_ffc0 {x : Nat} (h : x < 65536) : x &&& 0xffc0 = x / 64 * 64 := @and_mask x 10 6 h

theorem octet4_lt (b : BitVec 32) (i : Nat) : octet4 b i < 256 := Nat.mod_lt _ (by decide)

theorem octet6_lt (b : BitVec 128) (i : Nat) : octet6 b i < 256 := Nat.mod_lt _ (by decide)

theorem group6_lt (b : BitVec 128) (i : Nat) : group6 b i < 65536 := Nat.mod_lt _ (by decide)

/-! ### The fourth version -/

section V4

variable (b : BitVec 32)

theorem octet4_zero : octet4 b 0 = b.toNat / 2 ^ 24 := Nat.mod_eq_of_lt (by have := b.isLt; omega)

theorem octet4_one : octet4 b 1 = b.toNat / 2 ^ 16 % 256 := rfl

theorem isPrivate_v4 : isPrivate (.v4 b) =
    decide (b.toNat / 2 ^ 24 = 10 ∨ b.toNat / 2 ^ 20 = 0xac1 ∨ b.toNat / 2 ^ 16 = 0xc0a8) := by
  rw [Bool.eq_iff_iff, isPrivate, and_f0 (octet4_lt b 1), octet4_zero, octet4_one]
  simp only [Bool.or_eq_true, Bool.and_eq_true, beq_iff_eq, decide_eq_true_iff]
  omega

theorem isLoopback_v4 : isLoopback (.v4 b) = decide (b.toNat / 2 ^ 24 = 127) := by
  rw [Bool.eq_iff_iff, isLoopback, octet4_zero, beq_iff_eq, decide_eq_true_iff]

theorem isMulticast_v4 : isMulticast (.v4 b) = decide (b.toNat / 2 ^ 28 = 14) := by
  rw [Bool.eq_iff_iff, isMulticast, and_f0 (octet4_lt b 0), octet4_zero, beq_iff_eq, decide_eq_true_iff]
  omega

theorem isLinkLocalUnicast_v4 : isLinkLocalUnicast (.v4 b) = decide (b.toNat / 2 ^ 16 = 0xa9fe) := by
  rw [Bool.eq_iff_iff, isLinkLocalUnicast, octet4_zero, octet4_one, Bool.and_eq_true, beq_iff_eq, beq_iff_eq,
    decide_eq_true_iff]
  omega

theorem beq_v4 (b' : BitVec 32) : (Addr.v4 b == .v4 b') = decide (b.toNat = b'.toNat) := by
  rw [Bool.eq_iff_iff, decide_eq_true_iff, ← BitVec.toNat_eq]
  exact beq_iff_eq.trans (by rw [Addr.v4.injEq])

theorem isUnspecified_v4 : isUnspecified (.v4 b) = decide (b.toNat = 0) := by
  have hother : (Addr.v4 b == .v6 0 []) = false := beq_eq_false_iff_ne.mpr nofun
  rw [isUnspecified, beq_v4, hother, Bool.or_false]
  rfl

theorem cgnat_v4 : cgnat.contains (.v4 b) = decide (b.toNat / 2 ^ 22 = 0x191) := contains_v4 b _ _

theorem contains_other (addr : BitVec 128) (bits : Fin 129) : (Prefix.v6 addr bits).contains (.v4 b) = false := rfl

theorem always_v4 : always.any (fun q => q.contains (.v4 b)) =
    decide (b.toNat = 0 ∨ b.toNat / 2 ^ 16 = 0xa9fe ∨ b.toNat / 2 ^ 28 = 14 ∨ b.toNat = 0xffffffff) := by
  rw [Bool.eq_iff_iff]
  simp [always, contains_v4, contains_other, Fin.coe_ofNat_eq_mod]

theorem privateRanges_v4 : privateRanges.any (fun q => q.contains (.v4 b)) =
    decide (b.toNat / 2 ^ 24 = 10 ∨ b.toNat / 2 ^ 20 = 0xac1 ∨ b.toNat / 2 ^ 16 = 0xc0a8 ∨ b.toNat / 2 ^ 22 = 0x191 ∨
      b.toNat / 2 ^ 24 = 127) := by
  rw [Bool.eq_iff_iff]
  simp [privateRanges, cgnat, contains_v4, contains_other, Fin.coe_ofNat_eq_mod]

theorem embedsIPv4_v4 : embedsIPv4.any (fun q => q.contains (.v4 b)) = false := rfl

/-- The predicates and the ranges agree on the fourth version. -/
theorem allows_v4 (p : Policy) : p.allows (.v4 b) = !p.bars (.v4 b) := by
  obtain ⟨allowPrivate⟩ := p
  simp only [Policy.allows, Policy.bars, isPublic, isGlobalUnicast, Addr.unmap, Addr.withoutZone, isPrivate_v4, isLoopback_v4,
    isMulticast_v4, isLinkLocalUnicast_v4, isUnspecified_v4, bne, beq_v4, cgnat_v4, always_v4, privateRanges_v4,
    embedsIPv4_v4]
  rw [Bool.eq_iff_iff]
  cases allowPrivate <;> simp <;> omega

end V4

/-! ### The sixth version -/

section V6

variable (b : BitVec 128) (zone : Text)

theorem octet6_zero : octet6 b 0 = b.toNat / 2 ^ 120 := Nat.mod_eq_of_lt (by have := b.isLt; omega)

theorem group6_zero : group6 b 0 = b.toNat / 2 ^ 112 := Nat.mod_eq_of_lt (by have := b.isLt; omega)

theorem isPrivate_v6 : isPrivate (.v6 b zone) = decide (b.toNat / 2 ^ 121 = 0x7e) := by
  rw [Bool.eq_iff_iff, isPrivate, and_fe (octet6_lt b 0), octet6_zero, beq_iff_eq, decide_eq_true_iff]
  omega

theorem isLoopback_v6 : isLoopback (.v6 b zone) = decide (b.toNat = 1) := by
  rw [Bool.eq_iff_iff, isLoopback, beq_iff_eq, decide_eq_true_iff, BitVec.toNat_eq]
  rfl

theorem isMulticast_v6 : isMulticast (.v6 b zone) = decide (b.toNat / 2 ^ 120 = 0xff) := by
  rw [Bool.eq_iff_iff, isMulticast, octet6_zero, beq_iff_eq, decide_eq_true_iff]

theorem isLinkLocalUnicast_v6 : isLinkLocalUnicast (.v6 b zone) = decide (b.toNat / 2 ^ 118 = 0x3fa) := by
  rw [Bool.eq_iff_iff, isLinkLocalUnicast, and_ffc0 (group6_lt b 0), group6_zero, beq_iff_eq, decide_eq_true_iff]
  omega

theorem beq_v6 (b' : BitVec 128) (zone' : Text) :
    (Addr.v6 b zone == .v6 b' zone') = (decide (b.toNat = b'.toNat) && zone == zone') := by
  rw [Bool.eq_iff_iff, Bool.and_eq_true, decide_eq_true_iff, ← BitVec.toNat_eq, beq_iff_eq, beq_iff_eq, Addr.v6.injEq]

theorem beq_v6_v4 (b' : BitVec 32) : (Addr.v6 b zone == .v4 b') = false := beq_eq_false_iff_ne.mpr nofun

theorem isUnspecified_v6 : isUnspecified (.v6 b zone) = (decide (b.toNat = 0) && zone == []) := by
  rw [isUnspecified, beq_v6, beq_v6_v4, Bool.false_or]
  rfl

theorem contains_other' (addr : BitVec 32) (bits : Fin 33) : (Prefix.v4 addr bits).contains (.v6 b zone) = false := rfl

theorem cgnat_v6 : cgnat.contains (.v6 b zone) = false := rfl

theorem always_v6 : always.any (fun q => q.contains (.v6 b [])) =
    decide (b.toNat / 2 ^ 118 = 0x3fa ∨ b.toNat / 2 ^ 120 = 0xff) := by
  rw [Bool.eq_iff_iff]
  simp [always, contains_v6, contains_other', Fin.coe_ofNat_eq_mod]

theorem privateRanges_v6 : privateRanges.any (fun q => q.contains (.v6 b [])) =
    decide (b.toNat / 2 ^ 121 = 0x7e ∨ b.toNat = 1) := by
  rw [Bool.eq_iff_iff]
  simp [privateRanges, cgnat, contains_v6, contains_other', Fin.coe_ofNat_eq_mod]

/-- Where an address of the sixth version carries one of the fourth. -/
def Embeds (n : Nat) : Prop :=
  n / 2 ^ 32 = 0 ∨ n / 2 ^ 32 = 0x0064ff9b0000000000000000 ∨ n / 2 ^ 80 = 0x0064ff9b0001 ∨ n / 2 ^ 112 = 0x2002

instance (n : Nat) : Decidable (Embeds n) := inferInstanceAs (Decidable (_ ∨ _ ∨ _ ∨ _))

theorem embedsIPv4_v6 : embedsIPv4.any (fun q => q.contains (.v6 b zone)) = (zone == [] && decide (Embeds b.toNat)) := by
  rw [Bool.eq_iff_iff]
  cases zone with
  | nil => simp [embedsIPv4, Embeds, contains_v6, Fin.coe_ofNat_eq_mod]
  | cons c zone => simp [embedsIPv4, contains_v6]

/-- The predicates and the ranges agree on the sixth version. -/
theorem allows_v6 (p : Policy) (hunmapped : isMapped b = false) : p.allows (.v6 b zone) = !p.bars (.v6 b zone) := by
  obtain ⟨allowPrivate⟩ := p
  simp only [Policy.allows, Policy.bars, isPublic, isGlobalUnicast, Addr.unmap, hunmapped, Bool.false_eq_true, if_false,
    Addr.withoutZone, isPrivate_v6, isLoopback_v6, isMulticast_v6, isLinkLocalUnicast_v6, isUnspecified_v6, bne, beq_v6_v4,
    beq_v6, cgnat_v6, always_v6, privateRanges_v6, embedsIPv4_v6]
  rw [Bool.eq_iff_iff]
  unfold Embeds
  cases allowPrivate <;> cases zone <;> simp <;> omega

end V6

/-- **What the policy allows**: every address but those in its ranges. -/
theorem allows_iff (p : Policy) (ip : Addr) : p.allows ip = true ↔ p.bars ip = false := by
  have hsame : p.allows ip.unmap = p.allows ip ∧ p.bars ip.unmap = p.bars ip := by
    simp only [Policy.allows, Policy.bars, isPublic, unmap_unmap, and_self]
  have heq : p.allows ip = !p.bars ip := by
    rw [← hsame.1, ← hsame.2]
    cases hip : ip.unmap with
    | v4 b => exact allows_v4 b p
    | v6 b zone =>
      refine allows_v6 b zone p ?_
      cases hmapped : isMapped b with
      | false => rfl
      | true =>
        -- what is unmapped has nothing left to unmap
        have hagain := unmap_unmap ip
        rw [hip, Addr.unmap, if_pos hmapped] at hagain
        exact nomatch hagain
  rw [heq, Bool.not_eq_true']

/-! ## Dialing -/

variable {Err : Type}

inductive DialError (Err : Type)
  | lookup (err : Err)
  | noAddresses (host : Text)
  | notPublic (host : Text) (ip : Addr)
  deriving DecidableEq, Repr

/-- A host resolved, every address it has checked, and the first of them dialed. -/
def Policy.dial (p : Policy) (resolve : Text → Except Err (List Addr)) (host port : Text) :
    Except (DialError Err) (Addr × Text) :=
  match resolve host with
  | .error err => .error (.lookup err)
  | .ok [] => .error (.noAddresses host)
  | .ok (ip :: ips) =>
    match (ip :: ips).find? fun ip => !p.allows ip with
    | some refused => .error (.notPublic host refused)
    | none => .ok (ip.unmap, port)

/-- `Transport`'s dial: `lookupNetIP` is the resolver's. -/
def Policy.transport (p : Policy) (lookupNetIP : Text → Except Err (List Addr)) (host port : Text) :
    Except (DialError Err) (Addr × Text) :=
  p.dial lookupNetIP host port

/-- `SOCKS5Transport`'s dial, which the proxy makes: an address in the URL is taken as it is written. -/
def Policy.socks5Transport (p : Policy) (resolveOverHTTPS : Text → Except Err (List Addr)) (host port : Text) :
    Except (DialError Err) (Addr × Text) :=
  p.dial (fun host => match parseAddr host with
    | some ip => .ok [ip]
    | none => resolveOverHTTPS host) host port

/-- **A dial goes only where every address of the host may.** Whatever the resolver answers, the connection is to one of
the addresses that were checked, and none of them is in the policy's ranges. -/
theorem dials_iff (p : Policy) (resolve : Text → Except Err (List Addr)) (host port : Text) (dialed : Addr × Text) :
    p.dial resolve host port = .ok dialed ↔
      ∃ ip ips, resolve host = .ok (ip :: ips) ∧ dialed = (ip.unmap, port) ∧ ∀ a ∈ ip :: ips, p.bars a = false := by
  unfold Policy.dial
  cases hresolve : resolve host with
  | error err =>
    refine ⟨fun h => (nomatch h), ?_⟩
    rintro ⟨_, _, h, -⟩
    exact nomatch h
  | ok answer =>
    cases answer with
    | nil =>
      refine ⟨fun h => (nomatch h), ?_⟩
      rintro ⟨_, _, h, -⟩
      exact nomatch h
    | cons ip ips =>
      dsimp only
      cases hfind : (ip :: ips).find? fun ip => !p.allows ip with
      | some refused =>
        refine ⟨fun h => (nomatch h), ?_⟩
        rintro ⟨_, _, h, -, hall⟩
        obtain ⟨rfl, rfl⟩ := List.cons.inj (Except.ok.inj h)
        have hallowed := (allows_iff p refused).mpr (hall refused (List.mem_of_find?_eq_some hfind))
        have hnot := List.find?_some hfind
        rw [hallowed] at hnot
        exact nomatch hnot
      | none =>
        constructor
        · intro h
          refine ⟨ip, ips, rfl, (Except.ok.inj h).symm, ?_⟩
          intro a ha
          have hnot := List.find?_eq_none.mp hfind a ha
          exact (allows_iff p a).mp (by simpa using hnot)
        · rintro ⟨_, _, h, rfl, -⟩
          obtain ⟨rfl, rfl⟩ := List.cons.inj (Except.ok.inj h)
          rfl

-- The ranges that carry a fourth-version address bar none with a zone, and through a proxy a URL can give one.
example :
    let resolver : Text → Except Unit (List Addr) := fun _ => .error ()
    (Policy.mk false).socks5Transport resolver "64:ff9b::7f00:1%1".toList "80".toList =
      .ok (.v6 0x0064ff9b00000000000000007f000001 ['1'], "80".toList) := by
  decide

end Stoop.Netguard
