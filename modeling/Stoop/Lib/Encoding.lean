import Mathlib.Data.List.Basic

/-!
# Encodings that leave ASCII alone

An encoding writes a character as some units: bytes in UTF-8, sixteen bits in UTF-16. In both an ASCII character
is one unit, its own code, and no unit of another character is such a code (`Encoding`). So a text can be read
unit by unit as if each were a character (`seen`), and what is found there that is ASCII is in the text and starts
where a character does (`prefix_of_seen`).

The characters of a text can be counted off its units: by decoding (`runeCount`, as Go counts them) and by its
surrogate pairs (`codePoints`, as JavaScript goes through a string).
-/

set_option autoImplicit false

namespace Stoop.Lib

def isASCII (c : Char) : Bool := decide (c.toNat < 128)

/-- How characters are written in units. -/
structure Encoding (α : Type) where
  units : Char → List α
  value : α → Nat
  value_inj : ∀ u v, value u = value v → u = v
  ascii_units : ∀ c, isASCII c = true → ∃ u, units c = [u] ∧ value u = c.toNat
  units_ne_nil : ∀ c, units c ≠ []
  le_value : ∀ c, isASCII c = false → ∀ u ∈ units c, 128 ≤ value u

namespace Encoding

variable {α : Type} (e : Encoding α)

/-- A text in units. -/
def encode (text : List Char) : List α := text.flatMap e.units

/-- The character a unit would be by itself; the null character where there is none. -/
def seenUnit (u : α) : Char := Char.ofNat (e.value u)

def seen (us : List α) : List Char := us.map e.seenUnit

@[simp] theorem encode_nil : e.encode [] = [] := rfl

@[simp] theorem encode_cons (c : Char) (text : List Char) : e.encode (c :: text) = e.units c ++ e.encode text :=
  List.flatMap_cons

@[simp] theorem encode_append (text text' : List Char) : e.encode (text ++ text') =
  e.encode text ++ e.encode text' :=
  List.flatMap_append

@[simp] theorem seen_nil : e.seen [] = [] := rfl

@[simp] theorem seen_cons (u : α) (us : List α) : e.seen (u :: us) = e.seenUnit u :: e.seen us := rfl

@[simp] theorem seen_append (us us' : List α) : e.seen (us ++ us') = e.seen us ++ e.seen us' := List.map_append

@[simp] theorem length_seen (us : List α) : (e.seen us).length = us.length := List.length_map _

/-- Whether a unit is a character's code. -/
def is (c : Char) (u : α) : Bool := decide (e.value u = c.toNat)

/-- Whether a unit is a code from one character's to another's. -/
def between (low high : Char) (u : α) : Bool := decide (low.toNat ≤ e.value u) && decide (e.value u ≤ high.toNat)

/-- A character looked for: ASCII, and not the null character. -/
def IsPlain (c : Char) : Prop := isASCII c = true ∧ c ≠ '\x00'

instance (c : Char) : Decidable (IsPlain c) := inferInstanceAs (Decidable (_ ∧ _))

theorem isPlain_iff {c : Char} : IsPlain c ↔ 0 < c.toNat ∧ c.toNat < 128 := by
  have hzero : c = '\x00' ↔ c.toNat = 0 := Char.toNat_inj.symm
  rw [IsPlain, isASCII, decide_eq_true_eq, ne_eq, hzero]
  omega

/-- What is between two plain characters is one. -/
theorem isPlain_between {low high c : Char} (hlow : 0 < low.toNat) (hhigh : high.toNat < 128) (h : low ≤ c)
    (h' : c ≤ high) : IsPlain c := by
  rw [Char.le_def, UInt32.le_iff_toNat_le] at h h'
  exact isPlain_iff.mpr ⟨Nat.lt_of_lt_of_le hlow h, Nat.lt_of_le_of_lt h' hhigh⟩

/-- What a text looked for is made of. -/
def Plain (text : List Char) : Prop := ∀ c ∈ text, IsPlain c

theorem toNat_seenUnit (u : α) :
    (e.seenUnit u).toNat = e.value u ∨ e.seenUnit u = '\x00' ∧ 0xD800 ≤ e.value u := by
  by_cases hvalid : (e.value u).isValidChar
  · left
    rw [seenUnit, Char.ofNat, dif_pos hvalid]
    rfl
  · refine .inr ⟨dif_neg hvalid, ?_⟩
    unfold Nat.isValidChar at hvalid
    omega

/-- A unit is a plain character's code exactly when it is seen as the character. -/
theorem is_eq {c : Char} (hc : IsPlain c) (u : α) : e.is c u = decide (e.seenUnit u = c) := by
  have hsmall : c.toNat < 128 := of_decide_eq_true hc.1
  refine decide_eq_decide.mpr ⟨fun h => ?_, ?_⟩
  · obtain hself | ⟨-, hwide⟩ := e.toNat_seenUnit u
    · exact Char.toNat_inj.mp (hself.trans h)
    · omega
  · rintro rfl
    obtain hself | ⟨hnull, -⟩ := e.toNat_seenUnit u
    · exact hself.symm
    · exact absurd hnull hc.2

theorem between_eq {low high : Char} (hlow : 0 < low.toNat) (hhigh : isASCII high = true) (u : α) :
    e.between low high u = (decide (low ≤ e.seenUnit u) && decide (e.seenUnit u ≤ high)) := by
  have hsmall : high.toNat < 128 := of_decide_eq_true hhigh
  have hle : ∀ c d : Char, c ≤ d ↔ c.toNat ≤ d.toNat := fun c d => Char.le_def.trans UInt32.le_iff_toNat_le
  rw [between, ← Bool.decide_and, ← Bool.decide_and, decide_eq_decide, hle, hle]
  obtain hself | ⟨hnull, hwide⟩ := e.toNat_seenUnit u
  · rw [hself]
  · have hzero : ('\x00' : Char).toNat = 0 := rfl
    rw [hnull, hzero]
    omega

theorem seen_units {c : Char} (h : isASCII c = true) : e.seen (e.units c) = [c] := by
  obtain ⟨u, hunits, hvalue⟩ := e.ascii_units c h
  rw [hunits, seen, List.map_singleton, seenUnit, hvalue, Char.ofNat_toNat]

theorem seen_encode {text : List Char} (h : Plain text) : e.seen (e.encode text) = text := by
  induction text with
  | nil => rfl
  | cons c text ih =>
    obtain ⟨hc, htext⟩ := List.forall_mem_cons.mp h
    rw [encode_cons, seen_append, e.seen_units hc.1, ih htext, List.singleton_append]

/-- Units that are seen as a plain text are the text's. -/
theorem encode_seen {us : List α} (h : Plain (e.seen us)) : e.encode (e.seen us) = us := by
  induction us with
  | nil => rfl
  | cons u us ih =>
    obtain ⟨hu, hus⟩ := List.forall_mem_cons.mp h
    obtain ⟨v, hunits, hvalue⟩ := e.ascii_units _ hu.1
    have hself := e.is_eq hu u
    rw [decide_eq_true rfl, is, decide_eq_true_eq] at hself
    rw [seen_cons, encode_cons, ih hus, hunits, e.value_inj _ _ (hvalue.trans hself.symm), List.singleton_append]

theorem length_encode {text : List Char} (h : Plain text) : (e.encode text).length = text.length := by
  rw [← e.length_seen, e.seen_encode h]

/-- No unit of a character that is not ASCII is seen as a plain one. -/
theorem seenUnit_ne {c d : Char} (hc : isASCII c = false) (hd : IsPlain d) {u : α} (hu : u ∈ e.units c) :
    e.seenUnit u ≠ d := by
  have hwide := e.le_value c hc u hu
  have hsmall : d.toNat < 128 := of_decide_eq_true hd.1
  rintro rfl
  obtain hself | ⟨hnull, -⟩ := e.toNat_seenUnit u
  · omega
  · exact hd.2 hnull

/-- Nor is a unit of any other character seen as a plain one. -/
theorem seenUnit_ne_of_ne {c d : Char} (hne : c ≠ d) (hd : IsPlain d) {u : α} (hu : u ∈ e.units c) :
    e.seenUnit u ≠ d := by
  by_cases hc : isASCII c = true
  · have hseen := e.seen_units hc
    obtain ⟨v, hunits, -⟩ := e.ascii_units c hc
    rw [hunits, seen_cons, seen_nil, List.cons.injEq] at hseen
    rw [hunits, List.mem_singleton] at hu
    rwa [hu, hseen.1]
  · exact e.seenUnit_ne (Bool.eq_false_iff.mpr hc) hd hu

/-- A plain text seen at the front of an encoded one is its front. -/
theorem prefix_of_seen {text t rest : List Char} (ht : Plain t) (h : e.seen (e.encode text) = t ++ rest) :
    ∃ after, text = t ++ after ∧ rest = e.seen (e.encode after) := by
  induction t generalizing text with
  | nil => exact ⟨text, rfl, h.symm⟩
  | cons d t ih =>
    obtain ⟨hd, hplain⟩ := List.forall_mem_cons.mp ht
    cases text with
    | nil => exact nomatch h
    | cons c text =>
      rw [encode_cons, seen_append] at h
      by_cases hc : isASCII c = true
      · rw [e.seen_units hc, List.singleton_append, List.cons_append, List.cons.injEq] at h
        obtain ⟨rfl, h⟩ := h
        obtain ⟨after, rfl, hrest⟩ := ih hplain h
        exact ⟨after, rfl, hrest⟩
      · obtain ⟨u, us, hunits⟩ := List.exists_cons_of_ne_nil (e.units_ne_nil c)
        rw [hunits, seen_cons, List.cons_append, List.cons_append, List.cons.injEq] at h
        exact absurd h.1 (e.seenUnit_ne (Bool.eq_false_iff.mpr hc) hd (hunits ▸ List.mem_cons_self))

end Encoding

/-! ## UTF-8 -/

theorem utf8_ascii {c : Char} (h : isASCII c = true) : String.utf8EncodeChar c = [UInt8.ofNat c.toNat] := by
  have hsmall : c.toNat < 128 := of_decide_eq_true h
  unfold String.utf8EncodeChar
  exact if_pos (Nat.le_of_lt_succ hsmall)

def utf8 : Encoding UInt8 where
  units := String.utf8EncodeChar
  value := UInt8.toNat
  value_inj := fun _ _ => UInt8.toNat_inj.mp
  ascii_units := by
    intro c h
    have hsmall : c.toNat < 128 := of_decide_eq_true h
    refine ⟨_, utf8_ascii h, ?_⟩
    rw [UInt8.toNat_ofNat']
    omega
  units_ne_nil := fun _ => String.utf8EncodeChar_ne_nil
  le_value := by
    intro c h u hu
    have hwide : ¬c.toNat < 128 := of_decide_eq_false h
    have hvalue : c.toNat = c.val.toNat := rfl
    unfold String.utf8EncodeChar at hu
    dsimp only at hu
    split at hu
    · omega
    · split at hu
      · simp only [List.mem_cons, List.not_mem_nil, or_false] at hu
        rcases hu with rfl | rfl <;> rw [UInt8.toNat_ofNat'] <;> omega
      · split at hu
        · simp only [List.mem_cons, List.not_mem_nil, or_false] at hu
          rcases hu with rfl | rfl | rfl <;> rw [UInt8.toNat_ofNat'] <;> omega
        · simp only [List.mem_cons, List.not_mem_nil, or_false] at hu
          rcases hu with rfl | rfl | rfl | rfl <;> rw [UInt8.toNat_ofNat'] <;> omega

/-- `utf8.RuneCountInString`: the characters a byte string decodes to, a byte that starts none counted by
itself. The first `skip` bytes belong to one counted already. -/
def runeCountFrom : (skip : Nat) → List UInt8 → Nat
  | _, [] => 0
  | skip + 1, _ :: rest => runeCountFrom skip rest
  | 0, b :: rest =>
    match (b :: rest).toByteArray.utf8DecodeChar? 0 with
    | some c => runeCountFrom (c.utf8Size - 1) rest + 1
    | none => runeCountFrom 0 rest + 1

def runeCount (bytes : List UInt8) : Nat := runeCountFrom 0 bytes

theorem runeCountFrom_skip (skipped rest : List UInt8) :
    runeCountFrom skipped.length (skipped ++ rest) = runeCountFrom 0 rest := by
  induction skipped with
  | nil => rfl
  | cons b skipped ih => exact ih

theorem runeCount_encode (text : List Char) : runeCount (utf8.encode text) = text.length := by
  induction text with
  | nil => rfl
  | cons c text ih =>
    have hlength : (utf8.units c).length = c.utf8Size := String.length_utf8EncodeChar c
    have hdecode : (utf8.units c ++ utf8.encode text).toByteArray.utf8DecodeChar? 0 = some c := by
      rw [List.toByteArray_append]
      exact ByteArray.utf8DecodeChar?_utf8EncodeChar_append
    obtain ⟨b, bs, hunits⟩ := List.exists_cons_of_ne_nil (utf8.units_ne_nil c)
    rw [hunits, List.length_cons] at hlength
    rw [hunits, List.cons_append] at hdecode
    rw [runeCount, Encoding.encode_cons, hunits, List.cons_append, runeCountFrom, hdecode]
    dsimp only
    rw [← hlength, Nat.add_sub_cancel, runeCountFrom_skip]
    exact congrArg Nat.succ ih

/-! ## UTF-16 -/

def isHighSurrogate (u : UInt16) : Bool := decide (0xD800 ≤ u) && decide (u < 0xDC00)

def isLowSurrogate (u : UInt16) : Bool := decide (0xDC00 ≤ u) && decide (u < 0xE000)

def utf16Units (c : Char) : List UInt16 :=
  if c.toNat < 0x10000 then [UInt16.ofNat c.toNat]
  else [UInt16.ofNat (0xD800 + (c.toNat - 0x10000) / 0x400), UInt16.ofNat (0xDC00 + (c.toNat - 0x10000) % 0x400)]

theorem toNat_lt_max (c : Char) : c.toNat < 0x110000 := by
  have hvalid : c.toNat.isValidChar := c.valid
  unfold Nat.isValidChar at hvalid
  omega

theorem toNat_not_surrogate (c : Char) : c.toNat < 0xD800 ∨ 0xE000 ≤ c.toNat := by
  have hvalid : c.toNat.isValidChar := c.valid
  unfold Nat.isValidChar at hvalid
  omega

def utf16 : Encoding UInt16 where
  units := utf16Units
  value := UInt16.toNat
  value_inj := fun _ _ => UInt16.toNat_inj.mp
  ascii_units := by
    intro c h
    have hsmall : c.toNat < 128 := of_decide_eq_true h
    refine ⟨_, if_pos (by omega), ?_⟩
    rw [UInt16.toNat_ofNat']
    omega
  units_ne_nil := by
    intro c
    unfold utf16Units
    split <;> exact List.cons_ne_nil _ _
  le_value := by
    intro c h u hu
    have hwide : ¬c.toNat < 128 := of_decide_eq_false h
    have hmost := toNat_lt_max c
    unfold utf16Units at hu
    split at hu
    · simp only [List.mem_cons, List.not_mem_nil, or_false] at hu
      rw [hu, UInt16.toNat_ofNat']
      omega
    · simp only [List.mem_cons, List.not_mem_nil, or_false] at hu
      rcases hu with rfl | rfl <;> rw [UInt16.toNat_ofNat'] <;> omega

/-- How many characters a string is gone through in: a surrogate pair is one, and so is any other unit. -/
def codePoints : List UInt16 → Nat
  | [] => 0
  | [_] => 1
  | u :: v :: rest =>
    if isHighSurrogate u && isLowSurrogate v then codePoints rest + 1 else codePoints (v :: rest) + 1

theorem codePoints_cons {u : UInt16} (h : isHighSurrogate u = false) (rest : List UInt16) :
    codePoints (u :: rest) = codePoints rest + 1 := by
  cases rest with
  | nil => rfl
  | cons v rest => rw [codePoints, h, Bool.false_and, if_neg Bool.false_ne_true]

theorem codePoints_encode (text : List Char) : codePoints (utf16.encode text) = text.length := by
  induction text with
  | nil => rfl
  | cons c text ih =>
    have hmost := toNat_lt_max c
    have hscalar := toNat_not_surrogate c
    have hunits : utf16.units c = utf16Units c := rfl
    rw [Encoding.encode_cons, hunits, utf16Units, List.length_cons, ← ih]
    by_cases hbasic : c.toNat < 0x10000
    · have hself : (UInt16.ofNat c.toNat).toNat = c.toNat := by
        rw [UInt16.toNat_ofNat']
        omega
      have hplain : isHighSurrogate (UInt16.ofNat c.toNat) = false := by
        simp only [isHighSurrogate, Bool.and_eq_false_iff, decide_eq_false_iff_not, UInt16.le_iff_toNat_le,
          UInt16.lt_iff_toNat_lt, hself, UInt16.reduceToNat]
        omega
      rw [if_pos hbasic, List.singleton_append, codePoints_cons hplain]
    · have hhigh : isHighSurrogate (UInt16.ofNat (0xD800 + (c.toNat - 0x10000) / 0x400)) = true := by
        simp only [isHighSurrogate, Bool.and_eq_true, decide_eq_true_eq, UInt16.le_iff_toNat_le,
          UInt16.lt_iff_toNat_lt, UInt16.toNat_ofNat', UInt16.reduceToNat]
        omega
      have hlow : isLowSurrogate (UInt16.ofNat (0xDC00 + (c.toNat - 0x10000) % 0x400)) = true := by
        simp only [isLowSurrogate, Bool.and_eq_true, decide_eq_true_eq, UInt16.le_iff_toNat_le,
          UInt16.lt_iff_toNat_lt, UInt16.toNat_ofNat', UInt16.reduceToNat]
        omega
      rw [if_neg hbasic, List.cons_append, List.cons_append, List.nil_append, codePoints, hhigh, hlow,
        Bool.and_self,
        if_pos rfl]

end Stoop.Lib
