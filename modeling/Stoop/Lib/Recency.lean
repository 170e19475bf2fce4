import Mathlib.Data.List.Nodup

/-!
# Recency lists

The distinct values of a history, the newest first. A list kept to its first `n` needs only itself to
be moved on: the new value goes to the front, and out of wherever it stood (`touch_take_recency`). And
where a history is of records in order, its recency list is read off the newest record of each value
(`map_newest`).
-/

set_option autoImplicit false

namespace Stoop.Lib

variable {α β : Type} [DecidableEq α]

/-- The distinct values of a history that is newest first, in the order they were last seen. -/
def recency : List α → List α
  | [] => []
  | a :: history => a :: (recency history).filter (· ≠ a)

/-- A recency list of at most `n`, moved on by one value. -/
def touch (n : Nat) (a : α) (recent : List α) : List α := (a :: recent.filter (· ≠ a)).take n

@[simp] theorem mem_recency {a : α} {history : List α} : a ∈ recency history ↔ a ∈ history := by
  induction history with
  | nil => simp [recency]
  | cons b history ih =>
    simp only [recency, List.mem_cons, List.mem_filter, ih, ne_eq, decide_eq_true_eq]
    by_cases hab : a = b <;> simp [hab]

theorem nodup_recency (history : List α) : (recency history).Nodup := by
  induction history with
  | nil => exact List.nodup_nil
  | cons b history ih =>
    refine List.nodup_cons.mpr ⟨?_, ih.filter _⟩
    simp

/-- Without one value, the first `n` are among the first `n + 1`. -/
theorem take_filter_ne {l : List α} (h : l.Nodup) (a : α) (n : Nat) :
    ((l.take (n + 1)).filter (· ≠ a)).take n = (l.filter (· ≠ a)).take n := by
  induction l generalizing n with
  | nil => simp
  | cons b l ih =>
    obtain ⟨hb, hl⟩ := List.nodup_cons.mp h
    by_cases hba : b = a
    · -- the value stood here, and stands nowhere further on
      subst hba
      have hrest : ∀ k, (l.take k).filter (· ≠ b) = l.take k := fun k =>
        List.filter_eq_self.mpr fun c hc => decide_eq_true fun hcb =>
          hb (hcb ▸ List.mem_of_mem_take hc)
      have hall : l.filter (· ≠ b) = l := by
        rw [← List.take_length (l := l), hrest, List.take_length]
      rw [List.take_succ_cons, List.filter_cons_of_neg (by simp), List.filter_cons_of_neg (by simp),
        hrest, hall, List.take_take, Nat.min_self]
    · cases n with
      | zero => simp
      | succ n =>
        rw [List.take_succ_cons, List.filter_cons_of_pos (by simpa using hba),
          List.filter_cons_of_pos (by simpa using hba), List.take_succ_cons, List.take_succ_cons, ih hl]

/-- **A bounded recency list is kept from itself alone.** -/
theorem touch_take_recency (n : Nat) (a : α) (history : List α) :
    touch n a ((recency history).take n) = (recency (a :: history)).take n := by
  cases n with
  | zero => rfl
  | succ n =>
    rw [touch, recency, List.take_succ_cons, List.take_succ_cons,
      take_filter_ne (nodup_recency history)]

/-- Whether a record is the newest of its value. -/
def isNewest (value : β → α) (age : β → Nat) (records : List β) (x : β) : Bool :=
  records.all fun y => value y != value x || decide (age y ≤ age x)

/-- **The newest record of each value**, in order, gives the recency list. -/
theorem map_newest (value : β → α) (age : β → Nat) {records : List β}
    (h : records.Pairwise fun x y => age y < age x) :
    (records.filter (isNewest value age records)).map value = recency (records.map value) := by
  induction records with
  | nil => rfl
  | cons x records ih =>
    obtain ⟨hx, hrest⟩ := List.pairwise_cons.mp h
    have hnewest : isNewest value age (x :: records) x = true := by
      refine List.all_eq_true.mpr fun y hy => ?_
      rcases List.mem_cons.mp hy with rfl | hy
      · simp
      · simp [Nat.le_of_lt (hx y hy)]
    -- a later record is the newest of its value when it is so among the later ones, and not the first's
    have hlater : ∀ z ∈ records, isNewest value age (x :: records) z =
        (decide (value z ≠ value x) && isNewest value age records z) := by
      intro z hz
      have hnot : decide (age x ≤ age z) = false := decide_eq_false (Nat.not_le.mpr (hx z hz))
      rw [isNewest, List.all_cons, hnot, Bool.or_false]
      by_cases hv : value x = value z
      · simp [hv]
      · simp [hv, Ne.symm hv, isNewest]
    rw [List.filter_cons_of_pos hnewest, List.filter_congr hlater, List.map_cons, List.map_cons, recency,
      ← ih hrest, List.filter_map, List.filter_filter]
    rfl

end Stoop.Lib
