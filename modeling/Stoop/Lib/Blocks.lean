import Mathlib.Algebra.BigOperators.Intervals
import Mathlib.Algebra.BigOperators.Ring.Finset
import Mathlib.Algebra.Order.BigOperators.Group.Finset
import Mathlib.Algebra.Order.Round
import Mathlib.Data.Rat.Floor

/-!
# Blocks of a grid

A grid of `dx` columns and `dy` rows, cut into blocks of `factor` a side from its first corner; those at the last
column and row may be partial (`block`). A sum over the grid taken row by row is known after each cell (`upTo`),
and one over a block is such a sum over the rows the block has (`sum_block`).
-/

set_option autoImplicit false

namespace Stoop.Lib

open Finset

section Rows

variable {f g : Nat → Nat → Nat} {width row rows column : Nat}

/-- A sum over a grid, row by row: the rows before one, and so many columns of it. -/
def upTo (g : Nat → Nat → Nat) (width row column : Nat) : Nat :=
  ∑ r ∈ range row, ∑ c ∈ range width, g r c + ∑ c ∈ range column, g row c

@[simp] theorem upTo_start : upTo g width 0 0 = 0 := rfl

theorem upTo_column : upTo g width row (column + 1) = upTo g width row column + g row column := by
  rw [upTo, sum_range_succ, ← Nat.add_assoc, upTo]

theorem upTo_row : upTo g width row width = upTo g width (row + 1) 0 := by
  rw [upTo, upTo, sum_range_succ, range_zero, sum_empty, Nat.add_zero]

theorem upTo_le_upTo (h : ∀ r c, f r c ≤ g r c) : upTo f width row column ≤ upTo g width row column := by
  apply Nat.add_le_add
  · exact sum_le_sum fun r _ => sum_le_sum fun c _ => h r c
  · exact sum_le_sum fun c _ => h row c

theorem upTo_mul (n : Nat) : upTo (fun r c => n * g r c) width row column = n * upTo g width row column := by
  simp only [upTo, Nat.mul_add, mul_sum]

/-- What is summed up so far is not more than the whole. -/
theorem upTo_le_rows (hrow : row < rows) (hcolumn : column ≤ width) :
    upTo g width row column ≤ upTo g width rows 0 := by
  have hline : upTo g width row column ≤ upTo g width (row + 1) 0 := by
    rw [← upTo_row]
    exact Nat.add_le_add_left (sum_le_sum_of_subset (range_mono hcolumn)) _
  have hrest : upTo g width (row + 1) 0 ≤ upTo g width rows 0 :=
    Nat.add_le_add_right (sum_le_sum_of_subset (range_mono hrow)) _
  exact Nat.le_trans hline hrest

end Rows

section Block

variable {dx dy factor cell outRow : Nat}

/-- The columns and rows of a block. -/
def block (dx dy factor cell outRow : Nat) : Finset (Nat × Nat) :=
  (range dx ×ˢ range dy).filter fun p => p.1 / factor = cell ∧ p.2 / factor = outRow

/-- How many rows a block has: fewer than it has columns where the grid ends first. -/
def blockRows (dy factor outRow : Nat) : Nat := min factor (dy - outRow * factor)

theorem rows_eq_Ico (h : 0 < factor) :
    (range dy).filter (fun y => y / factor = outRow) =
      Ico (outRow * factor) (outRow * factor + blockRows dy factor outRow) := by
  ext y
  rw [mem_filter, mem_range, mem_Ico, Nat.div_eq_iff h, blockRows]
  have hnext : (outRow + 1) * factor = outRow * factor + factor := Nat.succ_mul outRow factor
  omega

theorem card_columns_le (h : 0 < factor) : ((range dx).filter fun x => x / factor = cell).card ≤ factor := by
  rw [rows_eq_Ico h, Nat.card_Ico, Nat.add_sub_cancel_left]
  exact Nat.min_le_left _ _

theorem block_eq : block dx dy factor cell outRow =
    ((range dx).filter fun x => x / factor = cell) ×ˢ (range dy).filter fun y => y / factor = outRow :=
  filter_product (s := range dx) (t := range dy) (· / factor = cell) (· / factor = outRow)

/-- A block's sum, row by row. -/
theorem sum_block (h : 0 < factor) (f : Nat → Nat → Nat) :
    ∑ p ∈ block dx dy factor cell outRow, f p.2 p.1 =
      upTo (fun r c => if c / factor = cell then f (outRow * factor + r) c else 0) dx
        (blockRows dy factor outRow) 0 := by
  calc ∑ p ∈ block dx dy factor cell outRow, f p.2 p.1
      = ∑ x ∈ range dx with x / factor = cell, ∑ y ∈ range dy with y / factor = outRow, f y x := by
        rw [block_eq, sum_product]
    _ = ∑ x ∈ range dx with x / factor = cell,
          ∑ r ∈ range (blockRows dy factor outRow), f (outRow * factor + r) x := by
        rw [@rows_eq_Ico dy factor outRow h]
        refine sum_congr rfl fun x _ => ?_
        rw [sum_Ico_eq_sum_range, Nat.add_sub_cancel_left]
    _ = _ := by
        rw [sum_comm, upTo, range_zero, sum_empty, Nat.add_zero]
        exact sum_congr rfl fun r _ => sum_filter _ _

/-- A block's size, row by row. -/
theorem card_block (h : 0 < factor) : (block dx dy factor cell outRow).card =
    upTo (fun _ c => if c / factor = cell then 1 else 0) dx (blockRows dy factor outRow) 0 := by
  rw [card_eq_sum_ones]
  exact sum_block h fun _ _ => 1

theorem card_block_le (h : 0 < factor) : (block dx dy factor cell outRow).card ≤ factor * factor := by
  rw [block_eq, card_product]
  exact Nat.mul_le_mul (card_columns_le h) (card_columns_le h)

/-- A block within the grid has its first cell. -/
theorem block_nonempty (h : 0 < factor) (hcell : cell < (dx + factor - 1) / factor)
    (hrow : outRow < (dy + factor - 1) / factor) : (block dx dy factor cell outRow).Nonempty := by
  have hx : (cell + 1) * factor ≤ dx + factor - 1 := (Nat.le_div_iff_mul_le h).mp hcell
  have hy : (outRow + 1) * factor ≤ dy + factor - 1 := (Nat.le_div_iff_mul_le h).mp hrow
  rw [Nat.succ_mul] at hx hy
  refine ⟨(cell * factor, outRow * factor), ?_⟩
  rw [block, mem_filter, mem_product, mem_range, mem_range]
  exact ⟨⟨by omega, by omega⟩, Nat.mul_div_cancel cell h, Nat.mul_div_cancel outRow h⟩

/-- A cell of the grid is in a block within it. -/
theorem lt_blocks (h : 0 < factor) {x : Nat} (hx : x < dx) : x / factor < (dx + factor - 1) / factor := by
  have hle : x + factor ≤ dx + factor - 1 := by omega
  calc x / factor < x / factor + 1 := Nat.lt_succ_self _
    _ = (x + factor) / factor := (Nat.add_div_right x h).symm
    _ ≤ (dx + factor - 1) / factor := Nat.div_le_div_right hle

end Block

/-- A mean rounded, halves up, in whole numbers. -/
theorem round_div_natCast (total count : Nat) (h : 0 < count) :
    round ((total : ℚ) / count) = (((total + count / 2) / count : Nat) : Int) := by
  have hcount : (count : ℚ) ≠ 0 := Nat.cast_ne_zero.mpr (Nat.ne_of_gt h)
  have hhalf : (total : ℚ) / count + 1 / 2 = ((2 * total + count : Nat) : ℚ) / ((2 * count : Nat) : ℚ) := by
    push_cast
    field_simp
  have hwhole : (2 * total + count) / (2 * count) = (total + count / 2) / count := by
    rw [← Nat.div_div_eq_div_mul]
    congr 1
    omega
  rw [round_eq, hhalf, Rat.floor_natCast_div_natCast, ← hwhole]
  norm_cast

end Stoop.Lib
