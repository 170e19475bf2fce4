import Mathlib.Data.List.Basic
import Mathlib.Data.List.GetD
import Mathlib.Logic.Function.Basic

/-!
# Arrays filled by counted loops

`forRange n body` runs a body for each number below `n`, and a body's fault ends it. Arrays are lists read and
written by index, faulting out of range; `cells n f` is the array of `n` cells that holds `f i` at `i`, and each
reading or writing of such an array is one of `f`. So a loop is known once the array is known after each turn
(`forRange_eq`).
-/

set_option autoImplicit false

namespace Stoop.Lib

/-- What an index out of its array, a division by zero or a sum past its word's end does. -/
inductive Trap
  | outOfRange
  | divideByZero
  | wrapped
  deriving DecidableEq, Repr

/-! ## Loops -/

section Loops

variable {ε σ : Type}

/-- `for i := range n { s = body(i, s) }`. -/
def forRange : Nat → (Nat → σ → Except ε σ) → σ → Except ε σ
  | 0, _, s => .ok s
  | n + 1, body, s => forRange n body s >>= body n

/-- A loop whose state is known before and after each turn. -/
theorem forRange_eq {n : Nat} {body : Nat → σ → Except ε σ} (st : Nat → σ)
    (step : ∀ i < n, body i (st i) = .ok (st (i + 1))) : forRange n body (st 0) = .ok (st n) := by
  induction n with
  | zero => rfl
  | succ n ih =>
    have hbefore : forRange n body (st 0) = .ok (st n) := ih fun i hi => step i (Nat.lt_succ_of_lt hi)
    rw [forRange, hbefore]
    exact step n (Nat.lt_succ_self n)

end Loops

/-! ## Arrays -/

section Arrays

variable {α : Type}

/-- `xs[i]`. -/
def load (xs : List α) (i : Nat) : Except Trap α :=
  match xs[i]? with
  | some a => .ok a
  | none => .error .outOfRange

/-- `xs[i] = a`. -/
def store (xs : List α) (i : Nat) (a : α) : Except Trap (List α) :=
  if i < xs.length then .ok (xs.set i a) else .error .outOfRange

/-- `xs[low:high]`. -/
def part (xs : List α) (low high : Nat) : Except Trap (List α) :=
  if low ≤ high ∧ high ≤ xs.length then .ok ((xs.drop low).take (high - low)) else .error .outOfRange

/-- `copy(xs[low:][:len(ys)], ys)`. -/
def blit (xs : List α) (low : Nat) (ys : List α) : Except Trap (List α) :=
  if low + ys.length ≤ xs.length then .ok (xs.take low ++ ys ++ xs.drop (low + ys.length))
  else .error .outOfRange

/-- `a / b`. -/
def divide (a b : Nat) : Except Trap Nat := if b = 0 then .error .divideByZero else .ok (a / b)

theorem divide_of_pos {a b : Nat} (h : 0 < b) : divide a b = .ok (a / b) := if_neg (Nat.ne_of_gt h)

def cells (n : Nat) (f : Nat → α) : List α := (List.range n).map f

variable {n m low high i : Nat} {f g : Nat → α}

@[simp] theorem length_cells : (cells n f).length = n := by
  rw [cells, List.length_map, List.length_range]

theorem getElem?_cells : (cells n f)[i]? = if i < n then some (f i) else none := by
  rw [cells, List.getElem?_map]
  split
  · rename_i h
    rw [List.getElem?_range h, Option.map_some]
  · rename_i h
    rw [List.getElem?_eq_none (by rw [List.length_range]; exact Nat.le_of_not_lt h), Option.map_none]

theorem cells_congr (h : ∀ i < n, f i = g i) : cells n f = cells n g :=
  List.map_congr_left fun i hi => h i (List.mem_range.mp hi)

/-- An array is known by its length and its cells. -/
theorem eq_cells {xs : List α} (hlength : xs.length = n) (h : ∀ i < n, xs[i]? = some (f i)) : xs = cells n f := by
  apply List.ext_getElem?
  intro i
  rw [getElem?_cells]
  split
  · rename_i hi
    exact h i hi
  · rename_i hi
    exact List.getElem?_eq_none (by omega)

theorem replicate_eq_cells (n : Nat) (a : α) : List.replicate n a = cells n fun _ => a := by
  apply eq_cells List.length_replicate
  intro i hi
  exact List.getElem?_replicate_of_lt hi

theorem load_cells (h : i < n) : load (cells n f) i = .ok (f i) := by
  rw [load, getElem?_cells, if_pos h]

theorem store_cells (h : i < n) (a : α) : store (cells n f) i a = .ok (cells n (Function.update f i a)) := by
  rw [store, length_cells, if_pos h]
  congr 1
  apply eq_cells (by rw [List.length_set, length_cells])
  intro k hk
  rw [List.getElem?_set, length_cells, getElem?_cells, if_pos hk, Function.update_apply]
  by_cases hik : i = k
  · rw [if_pos hik, if_pos (hik ▸ hk), if_pos hik.symm]
  · rw [if_neg hik, if_neg (Ne.symm hik)]

theorem take_drop_cells (h : low + m ≤ n) : ((cells n f).drop low).take m = cells m fun i => f (low + i) := by
  apply eq_cells (by rw [List.length_take, List.length_drop, length_cells]; omega)
  intro i hi
  rw [List.getElem?_take_of_lt hi, List.getElem?_drop, getElem?_cells, if_pos (by omega)]

theorem part_cells (hlow : low ≤ high) (hhigh : high ≤ n) :
    part (cells n f) low high = .ok (cells (high - low) fun i => f (low + i)) := by
  rw [part, length_cells, if_pos ⟨hlow, hhigh⟩, take_drop_cells (by omega)]

/-- Part of any array, as cells. -/
theorem take_drop_eq_cells {xs : List α} (h : low + m ≤ xs.length) (a : α) :
    (xs.drop low).take m = cells m fun i => xs.getD (low + i) a := by
  apply eq_cells (by rw [List.length_take, List.length_drop]; omega)
  intro i hi
  rw [List.getElem?_take_of_lt hi, List.getElem?_drop, List.getElem?_eq_getElem (by omega), List.getD_eq_getElem]

theorem blit_cells (h : low + m ≤ n) : blit (cells n f) low (cells m g) =
    .ok (cells n fun i => if low ≤ i ∧ i < low + m then g (i - low) else f i) := by
  rw [blit, length_cells, length_cells, if_pos h]
  congr 1
  have htake : ((cells n f).take low).length = low := by
    rw [List.length_take, length_cells]
    omega
  apply eq_cells
  · rw [List.length_append, List.length_append, htake, length_cells, List.length_drop, length_cells]
    omega
  intro i hi
  rw [List.append_assoc, List.getElem?_append, htake]
  split
  · rename_i hbefore
    rw [List.getElem?_take_of_lt hbefore, getElem?_cells, if_pos hi, if_neg (by omega)]
  · rename_i hfrom
    rw [List.getElem?_append, length_cells]
    split
    · rename_i hwithin
      rw [getElem?_cells, if_pos hwithin, if_pos (by omega)]
    · rename_i hafter
      rw [List.getElem?_drop, getElem?_cells, if_pos (by omega), if_neg (by omega)]
      congr 2
      omega

end Arrays

@[simp] theorem ok_then {ε α β : Type} (a : α) (f : α → Except ε β) : (Except.ok a >>= f) = f a := rfl

end Stoop.Lib
