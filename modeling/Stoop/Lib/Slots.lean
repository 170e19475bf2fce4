import Mathlib.Data.List.Sort
import Mathlib.Data.List.Nodup

/-!
# Slots of a list, filled anew

`fill p l next` is `l` with the places of what satisfies `p` given, in turn, to the elements of `next`: what
does not keeps its place. And lists that are the only one of their elements in an order by a key.
-/

set_option autoImplicit false

namespace Stoop.Lib

variable {α β : Type} {p q : α → Bool} {l l' next : List α}

def fill (p : α → Bool) : List α → List α → List α
  | [], _ => []
  | a :: as, next =>
    if p a then
      match next with
      | [] => a :: as
      | b :: next => b :: fill p as next
    else a :: fill p as next

theorem fill_cons_pos {a b : α} (h : p a = true) : fill p (a :: l) (b :: next) = b :: fill p l next := if_pos h

theorem fill_cons_neg {a : α} (h : p a = false) : fill p (a :: l) next = a :: fill p l next :=
  if_neg (ne_true_of_eq_false h)

/-- Counting off a slot counts off what fills it. -/
theorem exists_cons_of_slot {a : α} (h : p a = true) (hcount : next.length = (a :: l).countP p) :
    ∃ b rest, next = b :: rest ∧ rest.length = l.countP p := by
  rw [List.countP_cons_of_pos h] at hcount
  obtain ⟨b, rest, rfl⟩ := List.exists_cons_of_length_eq_add_one hcount
  exact ⟨b, rest, rfl, Nat.succ.inj hcount⟩

/-- What satisfies `p` in the filled list is what it was filled with. -/
theorem filter_fill (hnext : ∀ b ∈ next, p b = true) (hcount : next.length = l.countP p) :
    (fill p l next).filter p = next := by
  induction l generalizing next with
  | nil => exact (List.eq_nil_of_length_eq_zero hcount).symm
  | cons a l ih =>
    cases h : p a with
    | true =>
      obtain ⟨b, rest, rfl, hrest⟩ := exists_cons_of_slot h hcount
      obtain ⟨hb, hnext'⟩ := List.forall_mem_cons.mp hnext
      rw [fill_cons_pos h, List.filter_cons_of_pos hb, ih hnext' hrest]
    | false =>
      have hno : ¬p a = true := ne_true_of_eq_false h
      rw [List.countP_cons_of_neg hno] at hcount
      rw [fill_cons_neg h, List.filter_cons_of_neg hno, ih hnext hcount]

/-- The filled list holds what kept its place and what took one. -/
theorem perm_fill (hcount : next.length = l.countP p) :
    (fill p l next).Perm (next ++ l.filter fun a => !p a) := by
  induction l generalizing next with
  | nil =>
    obtain rfl := List.eq_nil_of_length_eq_zero hcount
    exact .refl _
  | cons a l ih =>
    cases h : p a with
    | true =>
      obtain ⟨b, rest, rfl, hrest⟩ := exists_cons_of_slot h hcount
      rw [fill_cons_pos h, List.filter_cons_of_neg (by simp [h]), List.cons_append]
      exact (ih hrest).cons b
    | false =>
      rw [List.countP_cons_of_neg (ne_true_of_eq_false h)] at hcount
      rw [fill_cons_neg h, List.filter_cons_of_pos (by simp [h])]
      exact ((ih hcount).cons a).trans List.perm_middle.symm

/-- What does not satisfy `p` keeps its place. -/
theorem getElem?_fill {i : Nat} {a : α} (hplace : l[i]? = some a) (h : p a = false) :
    (fill p l next)[i]? = some a := by
  induction l generalizing next i with
  | nil => cases hplace
  | cons b l ih =>
    cases hb : p b with
    | true =>
      cases next with
      | nil => rwa [fill, if_pos hb]
      | cons c next =>
        rw [fill_cons_pos hb]
        cases i with
        | zero =>
          obtain rfl := Option.some.inj hplace
          exact absurd (h.symm.trans hb) Bool.false_ne_true
        | succ i => exact ih hplace
    | false =>
      rw [fill_cons_neg hb]
      cases i with
      | zero => exact hplace
      | succ i => exact ih hplace

/-- Slots within slots. -/
theorem fill_fill (himp : ∀ a ∈ l, p a = true → q a = true) (hcount : next.length = l.countP p) :
    fill q l (fill p (l.filter q) next) = fill p l next := by
  induction l generalizing next with
  | nil => rfl
  | cons a l ih =>
    obtain ⟨ha, himp'⟩ := List.forall_mem_cons.mp himp
    cases h : p a with
    | true =>
      obtain ⟨b, rest, rfl, hrest⟩ := exists_cons_of_slot h hcount
      rw [List.filter_cons_of_pos (ha h), fill_cons_pos h, fill_cons_pos (ha h), fill_cons_pos h,
        ih himp' hrest]
    | false =>
      rw [List.countP_cons_of_neg (ne_true_of_eq_false h)] at hcount
      cases hq : q a with
      | true =>
        rw [List.filter_cons_of_pos hq, fill_cons_neg h, fill_cons_pos hq, fill_cons_neg h, ih himp' hcount]
      | false =>
        rw [List.filter_cons_of_neg (ne_true_of_eq_false hq), fill_cons_neg hq, fill_cons_neg h, ih himp' hcount]

/-- A list in which the same elements as in another do not satisfy `p`, each at the same place, is the other
filled with the rest of it. -/
theorem eq_fill (hlength : l'.length = l.length)
    (h : ∀ (i : Nat) a, l[i]? = some a → p a = false → l'[i]? = some a)
    (h' : ∀ (i : Nat) a, l'[i]? = some a → p a = false → l[i]? = some a) : l' = fill p l (l'.filter p) := by
  induction l generalizing l' with
  | nil => exact List.eq_nil_of_length_eq_zero hlength
  | cons a l ih =>
    obtain ⟨b, rest, rfl⟩ := List.exists_cons_of_length_eq_add_one hlength
    have hrest := ih (Nat.succ.inj hlength) (fun i c => h (i + 1) c) (fun i c => h' (i + 1) c)
    cases ha : p a with
    | true =>
      have hb : p b = true := by
        by_contra hno
        have hsame := Option.some.inj (h' 0 b rfl (Bool.eq_false_iff.mpr hno))
        exact hno (hsame ▸ ha)
      rw [List.filter_cons_of_pos hb, fill_cons_pos ha, ← hrest]
    | false =>
      obtain rfl : b = a := Option.some.inj (h 0 a rfl ha)
      rw [List.filter_cons_of_neg (ne_true_of_eq_false ha), fill_cons_neg ha, ← hrest]

/-! ## Orders -/

section Index

variable [DecidableEq α]

theorem pairwise_idxOf (h : l.Nodup) : l.Pairwise fun a b => l.idxOf a < l.idxOf b := by
  rw [List.pairwise_iff_getElem]
  intro i j hi hj hij
  rwa [h.idxOf_getElem, h.idxOf_getElem]

/-- Two elements of a list without duplicates stand in one order. -/
theorem not_both_sublist {a b : α} (h : l.Nodup) (hab : [a, b].Sublist l) : ¬[b, a].Sublist l := by
  have hsorted : ∀ {a b : α}, [a, b].Sublist l → l.idxOf a < l.idxOf b :=
    List.pairwise_iff_forall_sublist.mp (pairwise_idxOf h)
  exact fun hba => Nat.lt_asymm (hsorted hab) (hsorted hba)

/-- The elements of a list, in the order of their places in it, are the list. -/
theorem eq_of_pairwise_idxOf (h : l.Nodup) (hperm : l'.Perm l)
    (hsorted : l'.Pairwise fun a b => l.idxOf a ≤ l.idxOf b) : l' = l := by
  refine List.Perm.eq_of_pairwise (fun a b ha hb hab hba => ?_) hsorted
    ((pairwise_idxOf h).imp fun hlt => Nat.le_of_lt hlt) hperm
  exact (List.idxOf_inj (hperm.mem_iff.mp ha)).mp (Nat.le_antisymm hab hba)

end Index

/-- Lists of the same elements with the same keys in turn are one list, where no two have one key. -/
theorem eq_of_map_eq {key : α → β} (hperm : l'.Perm l) (hnodup : (l.map key).Nodup)
    (hmap : l'.map key = l.map key) : l' = l := by
  refine List.ext_getElem hperm.length_eq fun i hi hi' => ?_
  have hkey : key l'[i] = key l[i] := by
    have hsome := congrArg (·[i]?) hmap
    simpa [hi, hi'] using hsome
  exact List.inj_on_of_nodup_map hnodup (hperm.mem_iff.mp (List.getElem_mem hi)) (List.getElem_mem hi') hkey

section Keys

variable [LinearOrder β] {key : α → β}

theorem exists_sorted (key : α → β) (l : List α) :
    ∃ l' : List α, l'.Perm l ∧ l'.Pairwise fun a b => key a ≤ key b :=
  haveI : Std.Total fun a b => key a ≤ key b := ⟨fun _ _ => le_total _ _⟩
  haveI : IsTrans α fun a b => key a ≤ key b := ⟨fun _ _ _ => le_trans⟩
  ⟨_, List.perm_insertionSort _ l, List.pairwise_insertionSort (fun a b => key a ≤ key b) l⟩

/-- A list in strict order is the only one of its elements in the order. -/
theorem eq_of_strict (h : l.Pairwise fun a b => key a < key b) (hperm : l'.Perm l)
    (hsorted : l'.Pairwise fun a b => key a ≤ key b) : l' = l := by
  have hnodup : (l.map key).Nodup := List.pairwise_map.mpr (h.imp fun hlt => ne_of_lt hlt)
  refine List.Perm.eq_of_pairwise (fun a b ha hb hab hba => ?_) hsorted (h.imp fun hlt => le_of_lt hlt) hperm
  exact List.inj_on_of_nodup_map hnodup (hperm.mem_iff.mp ha) hb (le_antisymm hab hba)

/-- And only such a list is. -/
theorem strict_of_eq [DecidableEq α] (hnodup : l.Nodup)
    (h : ∀ l' : List α, l'.Perm l → (l'.Pairwise fun a b => key a ≤ key b) → l' = l) :
    l.Pairwise fun a b => key a < key b := by
  let le : α → α → Bool := fun a b => decide (key a ≤ key b)
  have htrans : ∀ a b c, le a b = true → le b c = true → le a c = true := fun a b c hab hbc =>
    decide_eq_true (le_trans (of_decide_eq_true hab) (of_decide_eq_true hbc))
  have htotal : ∀ a b, (le a b || le b a) = true := fun a b => by simpa [le] using le_total (key a) (key b)
  have hsorts : ∀ l' : List α, l'.Perm l → l'.mergeSort le = l := by
    intro l' hl'
    refine h _ ((List.mergeSort_perm _ _).trans hl') ?_
    exact (List.pairwise_mergeSort htrans htotal l').imp fun hle => of_decide_eq_true hle
  rw [List.pairwise_iff_forall_sublist]
  intro a b hab
  by_contra hle
  -- sorted from the end, `b` would stand first
  have hreversed : [b, a].Sublist l.reverse := by simpa using hab.reverse
  have htie : le b a = true := decide_eq_true (not_lt.mp hle)
  have hbefore := List.pair_sublist_mergeSort htrans htotal htie hreversed
  rw [hsorts l.reverse (List.reverse_perm l)] at hbefore
  exact not_both_sublist hnodup hab hbefore

end Keys

end Stoop.Lib
