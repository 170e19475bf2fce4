import Mathlib.Tactic.IntervalCases

/-!
# Base64

The standard encoding with padding (`encoding/base64`, `StdEncoding`), as functions between bytes and
characters, with the laws a format built on it uses: the round trip, the alphabet, the length and the
first character.
-/

set_option autoImplicit false

namespace Stoop.Lib.Base64

/-- The character of six bits. -/
def digit (n : Nat) : Char :=
  if n < 26 then Char.ofNat (65 + n)
  else if n < 52 then Char.ofNat (71 + n)
  else if n < 62 then Char.ofNat (n - 4)
  else if n = 62 then '+'
  else '/'

/-- The six bits of a character. -/
def value (c : Char) : Option Nat :=
  if 65 ≤ c.toNat ∧ c.toNat ≤ 90 then some (c.toNat - 65)
  else if 97 ≤ c.toNat ∧ c.toNat ≤ 122 then some (c.toNat - 71)
  else if 48 ≤ c.toNat ∧ c.toNat ≤ 57 then some (c.toNat + 4)
  else if c = '+' then some 62
  else if c = '/' then some 63
  else none

/-- `EncodeToString`. -/
def encode : List UInt8 → List Char
  | [] => []
  | [a] => [digit (a.toNat / 4), digit (a.toNat % 4 * 16), '=', '=']
  | [a, b] =>
    [digit (a.toNat / 4), digit (a.toNat % 4 * 16 + b.toNat / 16), digit (b.toNat % 16 * 4), '=']
  | a :: b :: c :: rest =>
    digit (a.toNat / 4) :: digit (a.toNat % 4 * 16 + b.toNat / 16) ::
      digit (b.toNat % 16 * 4 + c.toNat / 64) :: digit (c.toNat % 64) :: encode rest

/-- Groups of four characters, the last perhaps padded. -/
def decodeGroups : List Char → Option (List UInt8)
  | [] => some []
  | [w, x, '=', '='] => do
    let w ← value w
    let x ← value x
    return [UInt8.ofNat (w * 4 + x / 16)]
  | [w, x, y, '='] => do
    let w ← value w
    let x ← value x
    let y ← value y
    return [UInt8.ofNat (w * 4 + x / 16), UInt8.ofNat (x % 16 * 16 + y / 4)]
  | w :: x :: y :: z :: rest => do
    let w ← value w
    let x ← value x
    let y ← value y
    let z ← value z
    let bytes ← decodeGroups rest
    return UInt8.ofNat (w * 4 + x / 16) :: UInt8.ofNat (x % 16 * 16 + y / 4) ::
      UInt8.ofNat (y % 4 * 64 + z) :: bytes
  | _ => none

/-- `DecodeString`: line ends are passed over. -/
def decode (text : List Char) : Option (List UInt8) :=
  decodeGroups (text.filter fun c => c != '\r' && c != '\n')

/-! ## The alphabet -/

variable {n : Nat}

@[simp] theorem value_digit (h : n < 64) : value (digit n) = some n := by
  interval_cases n <;> decide

/-- What a digit is not, and that it is one byte. -/
theorem digit_spec (h : n < 64) :
    digit n ≠ ' ' ∧ digit n ≠ '\r' ∧ digit n ≠ '\n' ∧ digit n ≠ '=' ∧ (digit n).utf8Size = 1 := by
  interval_cases n <;> decide

/-- A character of the encoding: a digit, or the padding. -/
def Encodes (c : Char) : Prop := (∃ n < 64, c = digit n) ∨ c = '='

theorem Encodes.spec {c : Char} (h : Encodes c) :
    c ≠ ' ' ∧ c ≠ '\r' ∧ c ≠ '\n' ∧ c.utf8Size = 1 := by
  rcases h with ⟨n, hn, rfl⟩ | rfl
  · obtain ⟨hblank, hcr, hlf, _, hsize⟩ := digit_spec hn
    exact ⟨hblank, hcr, hlf, hsize⟩
  · decide

theorem encodes_digit (h : n < 64) : Encodes (digit n) := .inl ⟨n, h, rfl⟩

section
variable (a b c : UInt8)

theorem first_lt : a.toNat / 4 < 64 := by
  have := a.toNat_lt
  omega

theorem second_lt : a.toNat % 4 * 16 + b.toNat / 16 < 64 := by
  have := b.toNat_lt
  omega

theorem third_lt : b.toNat % 16 * 4 + c.toNat / 64 < 64 := by
  have := c.toNat_lt
  omega

end

/-- **Every character of an encoding is of the alphabet.** -/
theorem encodes_of_mem : ∀ {bytes : List UInt8} {c : Char}, c ∈ encode bytes → Encodes c
  | [], _, h => absurd h List.not_mem_nil
  | [a], c, h => by
    simp only [encode, List.mem_cons, List.not_mem_nil, or_false] at h
    rcases h with rfl | rfl | rfl | rfl
    · exact encodes_digit (first_lt a)
    · exact encodes_digit (by omega)
    · exact .inr rfl
    · exact .inr rfl
  | [a, b], c, h => by
    simp only [encode, List.mem_cons, List.not_mem_nil, or_false] at h
    rcases h with rfl | rfl | rfl | rfl
    · exact encodes_digit (first_lt a)
    · exact encodes_digit (second_lt a b)
    · exact encodes_digit (by omega)
    · exact .inr rfl
  | a :: b :: d :: rest, c, h => by
    simp only [encode, List.mem_cons] at h
    rcases h with rfl | rfl | rfl | rfl | h
    · exact encodes_digit (first_lt a)
    · exact encodes_digit (second_lt a b)
    · exact encodes_digit (third_lt b d)
    · exact encodes_digit (Nat.mod_lt _ (by decide))
    · exact encodes_of_mem h

/-- The first character holds the first byte's upper six bits. -/
theorem encode_cons (a : UInt8) (rest : List UInt8) :
    ∃ tail, encode (a :: rest) = digit (a.toNat / 4) :: tail := by
  match rest with
  | [] => exact ⟨_, rfl⟩
  | [_] => exact ⟨_, rfl⟩
  | _ :: _ :: _ => exact ⟨_, rfl⟩

/-- The length of an encoding is a multiple of four. -/
theorem four_dvd_length : ∀ bytes : List UInt8, 4 ∣ (encode bytes).length
  | [] => ⟨0, rfl⟩
  | [_] => ⟨1, rfl⟩
  | [_, _] => ⟨1, rfl⟩
  | a :: b :: c :: rest => by
    obtain ⟨k, hk⟩ := four_dvd_length rest
    refine ⟨k + 1, ?_⟩
    simp only [encode, List.length_cons, hk]
    omega

/-! ## The round trip -/

theorem byte_eq (a : UInt8) {m : Nat} (h : m = a.toNat) : UInt8.ofNat m = a := by
  rw [h, UInt8.ofNat_toNat]

theorem decodeGroups_encode : ∀ bytes : List UInt8, decodeGroups (encode bytes) = some bytes
  | [] => rfl
  | [a] => by
    have hx : a.toNat % 4 * 16 < 64 := by omega
    simp only [encode, decodeGroups, value_digit (first_lt a), value_digit hx, Option.bind_eq_bind,
      Option.bind_some, Option.pure_def]
    rw [byte_eq a (by omega)]
  | [a, b] => by
    have hy : b.toNat % 16 * 4 < 64 := by omega
    have hyne : digit (b.toNat % 16 * 4) ≠ '=' := (digit_spec hy).2.2.2.1
    have hb := b.toNat_lt
    rw [encode, decodeGroups]
    · simp only [value_digit (first_lt a), value_digit (second_lt a b), value_digit hy,
        Option.bind_eq_bind, Option.bind_some, Option.pure_def]
      rw [byte_eq a (by omega), byte_eq b (by omega)]
    · exact fun h => hyne h
  | a :: b :: c :: rest => by
    have hz : c.toNat % 64 < 64 := Nat.mod_lt _ (by decide)
    have hzne : digit (c.toNat % 64) ≠ '=' := (digit_spec hz).2.2.2.1
    have hb := b.toNat_lt
    have hc := c.toNat_lt
    rw [encode, decodeGroups]
    · simp only [value_digit (first_lt a), value_digit (second_lt a b), value_digit (third_lt b c),
        value_digit hz, decodeGroups_encode rest, Option.bind_eq_bind, Option.bind_some,
        Option.pure_def]
      rw [byte_eq a (by omega), byte_eq b (by omega), byte_eq c (by omega)]
    · exact fun _ h => absurd h hzne
    · exact fun h => absurd h hzne

/-- **Decoding an encoding gives the bytes back.** -/
theorem decode_encode (bytes : List UInt8) : decode (encode bytes) = some bytes := by
  have hkept : (encode bytes).filter (fun c => c != '\r' && c != '\n') = encode bytes := by
    refine List.filter_eq_self.mpr fun c hc => ?_
    obtain ⟨_, hcr, hlf, _⟩ := (encodes_of_mem hc).spec
    simp [hcr, hlf]
  rw [decode, hkept, decodeGroups_encode]

end Stoop.Lib.Base64
