import Mathlib.Data.List.Count

/-!
# Words between blanks, where a quoted blank does not count

A text is read item by item. A quote mark turns quoting on and off and stays in its word; a blank outside
quotes ends the word under way and is dropped; empty words are dropped too. An unclosed quote runs to the
end.

## The reading

`Reader`, `Reader.words`: an accumulator's reading, as a scanner does it in one pass.

## What a reading keeps

* `outside`: the items outside quotes.
* `words_eq_iff`: two readings part exactly where an item outside quotes is a blank to one and not to the
  other.
-/

set_option autoImplicit false

namespace Stoop.Lib.Quoted

variable {α : Type}

/-- A scanner under way: the words ended, the word under way, and whether it is inside quotes. -/
structure Reader (α : Type) where
  ended : List (List α) := []
  word : List α := []
  quoted : Bool := false

/-- The word under way ends, if there is one. -/
def Reader.flush (r : Reader α) : Reader α :=
  if r.word = [] then r else { r with ended := r.ended ++ [r.word], word := [] }

/-- What a scanner has read and kept. -/
def Reader.kept (r : Reader α) : List α := r.ended.flatten ++ r.word

theorem Reader.flatten_flush (r : Reader α) : r.flush.ended.flatten = r.kept := by
  unfold Reader.flush Reader.kept
  split
  next h => rw [h, List.append_nil]
  next => simp

theorem Reader.kept_flush (r : Reader α) : r.flush.kept = r.kept := by
  unfold Reader.flush Reader.kept
  split
  · rfl
  · simp

variable [DecidableEq α]

/-- One item read. -/
def Reader.read (quote : α) (blank : α → Bool) (r : Reader α) (c : α) : Reader α :=
  if c = quote then { r with word := r.word ++ [c], quoted := !r.quoted }
  else if !r.quoted && blank c then r.flush
  else { r with word := r.word ++ [c] }

/-- The words of a text. -/
def words (quote : α) (blank : α → Bool) (text : List α) : List (List α) :=
  (text.foldl (Reader.read quote blank) {}).flush.ended

/-- The items outside quotes, from a place that is inside them or not. -/
def outside (quote : α) : Bool → List α → List α
  | _, [] => []
  | quoted, c :: rest =>
    if c = quote then outside quote (!quoted) rest
    else if quoted then outside quote quoted rest
    else c :: outside quote quoted rest

/-! ## What a reading keeps -/

variable {quote : α} {blank blank' : α → Bool} {text : List α} {r : Reader α}

/-- An item is kept as often as it stands in the text, less its blanks outside quotes. -/
theorem count_kept (a : α) (text : List α) (r : Reader α) :
    (text.foldl (Reader.read quote blank) r).kept.count a +
        (if blank a then (outside quote r.quoted text).count a else 0) =
      r.kept.count a + text.count a := by
  induction text generalizing r with
  | nil => simp [outside]
  | cons c rest ih =>
    rw [List.foldl_cons]
    by_cases hquote : c = quote
    · have step : Reader.read quote blank r c =
          { r with word := r.word ++ [c], quoted := !r.quoted } := if_pos hquote
      rw [step, outside, if_pos hquote, ih]
      simp only [Reader.kept, ← List.append_assoc, List.count_append, List.count_cons, List.count_nil]
      omega
    · by_cases hblank : (!r.quoted && blank c) = true
      · have step : Reader.read quote blank r c = r.flush := by
          rw [Reader.read, if_neg hquote, if_pos hblank]
        have quoted : r.flush.quoted = r.quoted := by
          unfold Reader.flush
          split <;> rfl
        rw [Bool.and_eq_true, Bool.not_eq_true'] at hblank
        have rest := ih r.flush
        rw [Reader.kept_flush, quoted, hblank.1] at rest
        rw [step, hblank.1, outside, if_neg hquote, if_neg Bool.false_ne_true]
        simp only [List.count_cons]
        by_cases hca : c = a
        · subst hca
          simp only [hblank.2, if_true, beq_self_eq_true] at rest ⊢
          omega
        · simp only [beq_iff_eq, hca, if_false, Nat.add_zero]
          exact rest
      · have step : Reader.read quote blank r c = { r with word := r.word ++ [c] } := by
          rw [Reader.read, if_neg hquote, if_neg hblank]
        have rest := ih { r with word := r.word ++ [c] }
        rw [step, outside, if_neg hquote]
        cases hquoted : r.quoted with
        | true =>
          rw [if_pos rfl]
          simp only [hquoted, Reader.kept, ← List.append_assoc, List.count_append, List.count_cons,
            List.count_nil] at rest ⊢
          omega
        | false =>
          rw [hquoted, Bool.not_false, Bool.true_and] at hblank
          rw [if_neg Bool.false_ne_true]
          simp only [hquoted, Reader.kept, ← List.append_assoc, List.count_append, List.count_cons,
            List.count_nil] at rest ⊢
          by_cases hca : c = a
          · subst hca
            simp only [Bool.eq_false_iff.mpr hblank, Bool.false_eq_true, if_false] at rest ⊢
            omega
          · simp only [beq_iff_eq, hca, if_false, Nat.add_zero] at rest ⊢
            omega

theorem count_words (a : α) : (words quote blank text).flatten.count a +
    (if blank a then (outside quote false text).count a else 0) = text.count a := by
  rw [words, Reader.flatten_flush]
  have counted : (text.foldl (Reader.read quote blank) {}).kept.count a + _ = _ := count_kept a text {}
  simpa [Reader.kept] using counted

/-- Scanners that take the same items outside quotes for blanks go the same way. -/
theorem foldl_read_congr (r : Reader α) (h : ∀ c ∈ outside quote r.quoted text, blank c = blank' c) :
    text.foldl (Reader.read quote blank) r = text.foldl (Reader.read quote blank') r := by
  induction text generalizing r with
  | nil => rfl
  | cons c rest ih =>
    rw [List.foldl_cons, List.foldl_cons]
    by_cases hquote : c = quote
    · rw [outside, if_pos hquote] at h
      have step : ∀ blank : α → Bool, Reader.read quote blank r c =
          { r with word := r.word ++ [c], quoted := !r.quoted } := fun _ => if_pos hquote
      rw [step, step]
      exact ih _ h
    · rw [outside, if_neg hquote] at h
      cases hquoted : r.quoted with
      | true =>
        have step : ∀ blank : α → Bool, Reader.read quote blank r c = { r with word := r.word ++ [c] } := by
          intro blank
          rw [Reader.read, if_neg hquote, hquoted]
          rfl
        rw [hquoted, if_pos rfl] at h
        rw [step, step]
        exact ih _ (by rwa [hquoted])
      | false =>
        rw [hquoted, if_neg Bool.false_ne_true] at h
        have same : Reader.read quote blank r c = Reader.read quote blank' r c := by
          rw [Reader.read, Reader.read, h c List.mem_cons_self]
        have quoted : (Reader.read quote blank' r c).quoted = false := by
          rw [Reader.read, if_neg hquote]
          split
          · rw [Reader.flush]
            split <;> exact hquoted
          · exact hquoted
        rw [same]
        exact ih _ fun d hd => h d (List.mem_cons_of_mem _ (by rwa [quoted] at hd))

/-- **Two readings are one exactly where they take the same items outside quotes for blanks.** -/
theorem words_eq_iff : words quote blank text = words quote blank' text ↔
    ∀ c ∈ outside quote false text, blank c = blank' c := by
  constructor
  · intro h c hc
    have counted : (words quote blank text).flatten.count c + _ = text.count c := count_words c
    have counted' : (words quote blank' text).flatten.count c + _ = text.count c := count_words c
    rw [h] at counted
    have positive := List.count_pos_iff.mpr hc
    by_contra hne
    cases hb : blank c with
    | false =>
      have hb' : blank' c = true := eq_true_of_ne_false fun h' => hne (hb.trans h'.symm)
      rw [hb, if_neg Bool.false_ne_true] at counted
      rw [hb', if_pos rfl] at counted'
      omega
    | true =>
      have hb' : blank' c = false := Bool.eq_false_iff.mpr fun h' => hne (hb.trans h'.symm)
      rw [hb, if_pos rfl] at counted
      rw [hb', if_neg Bool.false_ne_true] at counted'
      omega
  · intro h
    rw [words, words, foldl_read_congr {} h]

end Stoop.Lib.Quoted
