import Mathlib.Data.List.Sort

/-!
# Lists sorted by a number

Lists put in the order of a number that each value has: what a page of them leaves behind, and that
the order is all there is to a list in which no two values have one number. And folds that do not mind
the order of what they take in.
-/

set_option autoImplicit false

namespace Stoop.Lib

variable {α : Type} {f : α → Nat}

theorem pairwise_sorted (f : α → Nat) (l : List α) :
    (l.insertionSort fun a b => f a ≤ f b).Pairwise fun a b => f a ≤ f b :=
  haveI : Std.Total fun a b => f a ≤ f b := ⟨fun _ _ => Nat.le_total _ _⟩
  haveI : IsTrans α fun a b => f a ≤ f b := ⟨fun _ _ _ => Nat.le_trans⟩
  List.pairwise_insertionSort _ l

theorem pairwise_sorted_desc (f : α → Nat) (l : List α) :
    (l.insertionSort fun a b => f b ≤ f a).Pairwise fun a b => f b ≤ f a :=
  haveI : Std.Total fun a b => f b ≤ f a := ⟨fun _ _ => Nat.le_total _ _⟩
  haveI : IsTrans α fun a b => f b ≤ f a := ⟨fun _ _ _ h h' => Nat.le_trans h' h⟩
  List.pairwise_insertionSort _ l

/-- What a sorted list leaves behind the last value taken is no lower. -/
theorem le_of_mem_drop {l : List α} (h : l.Pairwise fun a b => f a ≤ f b) {n : Nat} {a b : α}
    (ha : a ∈ l.take n) (hb : b ∈ l.drop n) : f a ≤ f b :=
  List.pairwise_append.mp (by rwa [List.take_append_drop]) |>.2.2 a ha b hb

/-- Where no two values have one number, the order is strict. -/
theorem pairwise_lt_of_nodup {l : List α} (h : l.Pairwise fun a b => f b ≤ f a)
    (hnodup : (l.map f).Nodup) : l.Pairwise fun a b => f b < f a := by
  have hne : l.Pairwise fun a b => f a ≠ f b := List.pairwise_map.mp hnodup
  exact (h.and hne).imp fun ⟨hle, hne⟩ => Nat.lt_of_le_of_ne hle (Ne.symm hne)

/-- Sorting finds the one list of the values that is in strict order. -/
theorem sorted_desc_eq {l l' : List α} (hperm : l'.Perm l) (h : l'.Pairwise fun a b => f b < f a) :
    (l.insertionSort fun a b => f b ≤ f a) = l' := by
  have hnodup : ((l.insertionSort fun a b => f b ≤ f a).map f).Nodup := by
    have hl' : (l'.map f).Nodup := List.pairwise_map.mpr (h.imp fun hlt => Nat.ne_of_gt hlt)
    exact ((((List.perm_insertionSort _ l).trans hperm.symm).map f).nodup_iff).mpr hl'
  have hstrict := pairwise_lt_of_nodup (pairwise_sorted_desc f l) hnodup
  refine List.Perm.eq_of_pairwise (fun a b _ _ hab hba => ?_) hstrict h
    ((List.perm_insertionSort _ l).trans hperm.symm)
  exact absurd hab (Nat.lt_asymm hba)

/-- Lists in strict order that hold the same values are one list. -/
theorem eq_of_strict_desc {l l' : List α} (h : l.Pairwise fun a b => f b < f a)
    (h' : l'.Pairwise fun a b => f b < f a) (hmem : ∀ a, a ∈ l ↔ a ∈ l') : l = l' := by
  have hnodup : ∀ {l : List α}, (l.Pairwise fun a b => f b < f a) → l.Nodup := by
    intro l h
    refine h.imp ?_
    rintro a b hlt rfl
    exact Nat.lt_irrefl _ hlt
  refine List.Perm.eq_of_pairwise (fun a b _ _ hab hba => absurd hab (Nat.lt_asymm hba)) h h' ?_
  exact (List.perm_ext_iff_of_nodup (hnodup h) (hnodup h')).mpr hmem

/-! ## Folds -/

/-- **A fold does not mind the order**, where any two values to come can be taken in either way round,
in every state the fold comes through: `fits` is what such a state and what is to come keep to. -/
theorem foldl_perm {β : Type} {g : β → α → β} {fits : β → List α → Prop}
    (perm : ∀ z {l l' : List α}, l.Perm l' → fits z l → fits z l')
    (step : ∀ z a l, fits z (a :: l) → fits (g z a) l)
    (comm : ∀ z a b l, fits z (a :: b :: l) → g (g z a) b = g (g z b) a)
    {l l' : List α} (h : l.Perm l') {z : β} (hfits : fits z l) : l.foldl g z = l'.foldl g z := by
  induction h generalizing z with
  | nil => rfl
  | cons a _ ih => exact ih (step z a _ hfits)
  | swap a b l =>
    rw [List.foldl_cons, List.foldl_cons, List.foldl_cons, List.foldl_cons, comm z b a l hfits]
  | trans h₁ _ ih₁ ih₂ => exact (ih₁ hfits).trans (ih₂ (perm z h₁ hfits))

end Stoop.Lib
