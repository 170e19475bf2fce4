import Stoop.Lib.Uuid

/-!
# The retention sweep's cutoff

A message's id is a version 7 UUID: the milliseconds since 1970 it was made at in its first six bytes, greatest
byte first, then a version, a variant and random bits. The sweep takes the roots whose id sorts before
`cutoffID` of an instant, which is the smallest such UUID of the instant's millisecond. How a UUID is written is
the UUID package's (`string`), and relied on for the sixteen bytes of the cutoff.
-/

set_option autoImplicit false

namespace Stoop.Messages.Cutoff

open Stoop.Lib

/-! ## Instants and ids -/

/-- An instant: seconds since 1970 and nanoseconds within the second. -/
structure Time where
  sec : Int
  nsec : Nat
  nsec_lt : nsec < 1000000000

def Time.unixMilli (t : Time) : Int := t.sec * 1000 + (t.nsec / 1000000 : Nat)

/-- A version 7 UUID. -/
structure V7 where
  bytes : Bytes
  length_ok : bytes.length = 16
  version_ok : bytes[6] >>> 4 = 7
  variant_ok : bytes[8] >>> 6 = 2

namespace V7

/-- The millisecond field: the first 48 bits. -/
def millis (id : V7) : Nat := ByteOrder.big.toNat (id.bytes.take 6)

def text (id : V7) : List Char := canonical id.bytes

end V7

/-! ## The cutoff -/

/-- The bytes `cutoffID` puts together. -/
def cutoff (t : Time) : Bytes :=
  let ms := UInt64.ofInt t.unixMilli
  ByteOrder.big.number 2 (ms >>> 32).toUInt16.toNat ++ ByteOrder.big.number 4 ms.toUInt32.toNat ++
    [0x70, 0, 0x80, 0, 0, 0, 0, 0, 0, 0]

def cutoffID (string : Bytes → List Char) (t : Time) : List Char := string (cutoff t)

theorem length_cutoff (t : Time) : (cutoff t).length = 16 := by
  simp [cutoff]

/-- The cutoff's first six bytes are the instant's millisecond. -/
theorem toNat_cutoff {t : Time} {ms : Nat} (ht : t.unixMilli = ms) (hms : ms < 2 ^ 48) :
    ByteOrder.big.toNat ((cutoff t).take 6) = ms := by
  have hwide : (UInt64.ofInt t.unixMilli).toNat = ms := by
    rw [ht, UInt64.ofInt, UInt64.toNat_ofNat']
    omega
  have hhigh : (UInt64.ofInt t.unixMilli >>> 32).toUInt16.toNat = ms / 2 ^ 32 := by
    rw [UInt64.toNat_toUInt16, UInt64.toNat_shiftRight, hwide, Nat.shiftRight_eq_div_pow]
    have h32 : (32 : UInt64).toNat % 64 = 32 := by decide
    rw [h32]
    omega
  have hlow : (UInt64.ofInt t.unixMilli).toUInt32.toNat = ms % 2 ^ 32 := by
    rw [UInt64.toNat_toUInt32, hwide]
  have htake : (cutoff t).take 6 = ByteOrder.big.number 2 (ms / 2 ^ 32) ++ ByteOrder.big.number 4
    (ms % 2 ^ 32) := by
    rw [← hhigh, ← hlow]
    exact List.take_left' (by simp)
  rw [htake, ByteOrder.toNat_big_append, ByteOrder.length_number, ByteOrder.toNat_number (by omega),
    ByteOrder.toNat_number (by omega)]
  omega

/-- No id's bytes past the millisecond sort before the cutoff's. -/
theorem not_lt_cutoff (id : V7) (t : Time) : ¬id.bytes.drop 6 < (cutoff t).drop 6 := by
  have hlength := id.length_ok
  have hcutoff : (cutoff t).drop 6 = 0x70 :: 0 :: 0x80 :: List.replicate 7 0 := List.drop_left' (by simp)
  have hbytes : id.bytes.drop 6 = id.bytes[6] :: id.bytes[7] :: id.bytes[8] :: id.bytes.drop 9 := by
    rw [List.drop_eq_getElem_cons (by omega), List.drop_eq_getElem_cons (by omega),
      List.drop_eq_getElem_cons (by omega)]
  have hversion := congrArg UInt8.toNat id.version_ok
  have hvariant := congrArg UInt8.toNat id.variant_ok
  rw [UInt8.toNat_shiftRight, Nat.shiftRight_eq_div_pow] at hversion hvariant
  have hversioned : ¬id.bytes[6] < 0x70 := by
    rw [UInt8.lt_iff_toNat_lt]
    simp at hversion ⊢
    omega
  have hvaried : ¬id.bytes[8] < 0x80 := by
    rw [UInt8.lt_iff_toNat_lt]
    simp at hvariant ⊢
    omega
  have hfirst : ¬id.bytes[7] < 0 := UInt8.not_lt_zero
  have hrest : ¬id.bytes.drop 9 < List.replicate 7 0 := by
    have hzeros := not_lt_zeros (id.bytes.drop 9)
    rwa [List.length_drop, hlength] at hzeros
  rw [hcutoff, hbytes]
  simp only [List.cons_lt_cons_iff, hversioned, hfirst, hvaried, hrest, false_or, and_false, not_false_eq_true]

/-- An id sorts before the cutoff of an instant exactly when it was made in a millisecond before the instant's. -/
theorem cutoff_splits {string : Bytes → List Char} (hstring : ∀ uuid, uuid.length = 16 → string uuid =
    canonical uuid)
    {t : Time} (hfrom : 0 ≤ t.unixMilli) (hto : t.unixMilli < 2 ^ 48) (id : V7) :
    id.text < cutoffID string t ↔ (id.millis : Int) < t.unixMilli := by
  obtain ⟨ms, hms⟩ := Int.eq_ofNat_of_zero_le hfrom
  have hsmall : ms < 2 ^ 48 := by omega
  have hlength : id.bytes.length = (cutoff t).length := by rw [id.length_ok, length_cutoff]
  have htake : (id.bytes.take 6).length = ((cutoff t).take 6).length := by
    rw [List.length_take, List.length_take, hlength]
  calc id.text < cutoffID string t
      ↔ id.bytes < cutoff t := by
        rw [cutoffID, hstring _ (length_cutoff t), V7.text, canonical_lt_iff hlength]
    _ ↔ id.bytes.take 6 ++ id.bytes.drop 6 < (cutoff t).take 6 ++ (cutoff t).drop 6 := by
        rw [List.take_append_drop, List.take_append_drop]
    _ ↔ id.bytes.take 6 < (cutoff t).take 6 := by
        rw [append_lt_append_iff htake]
        exact or_iff_left fun h => not_lt_cutoff id t h.2
    _ ↔ id.millis < ms := by rw [ByteOrder.lt_iff_toNat_lt htake, toNat_cutoff hms hsmall, V7.millis]
    _ ↔ (id.millis : Int) < t.unixMilli := by rw [hms, Int.ofNat_lt]

/-- An id made five milliseconds into 1970, and the cutoff of the instant one more millisecond on. -/
def fifth : V7 where
  bytes := [0, 0, 0, 0, 0, 5, 0x7f, 0xff, 0xbf, 0xff, 0xff, 0xff, 0xff, 0xff, 0xff, 0xff]
  length_ok := rfl
  version_ok := by decide
  variant_ok := by decide

theorem fifth_before_sixth : fifth.text < cutoffID canonical ⟨0, 6500000, by decide⟩ :=
  (cutoff_splits (fun _ _ => rfl) (by decide) (by decide) fifth).mpr (by decide)

end Stoop.Messages.Cutoff
