import Mathlib.Data.Nat.Basic

/-!
# Passes repeated until one changes nothing

A loop that passes over a value again and again, and ends at the first value a pass leaves as it is. It
ends where something every changing pass lowers is bounded; what it ends at is settled, and keeps what
every pass keeps.

## The loop

`settle`

## Its laws

`settle_fixed`, `settle_keeps`, `settle_ends`
-/

set_option autoImplicit false

namespace Stoop.Lib

variable {α : Type} [DecidableEq α] {pass : α → α} {fuel : Nat} {x y : α}

/-- Passes until one changes nothing; `none` when there were not enough to see it. -/
def settle (pass : α → α) : Nat → α → Option α
  | 0, _ => none
  | fuel + 1, x => if pass x = x then some x else settle pass fuel (pass x)

/-- **What the loop ends at is settled.** -/
theorem settle_fixed (h : settle pass fuel x = some y) : pass y = y := by
  induction fuel generalizing x with
  | zero => cases h
  | succ fuel ih =>
    rw [settle] at h
    split at h
    next hfixed => exact Option.some.inj h ▸ hfixed
    next => exact ih h

/-- What every pass keeps, the loop keeps. -/
theorem settle_keeps {P : α → Prop} (hpass : ∀ x, P x → P (pass x)) (hx : P x)
    (h : settle pass fuel x = some y) : P y := by
  induction fuel generalizing x with
  | zero => cases h
  | succ fuel ih =>
    rw [settle] at h
    split at h
    next => exact Option.some.inj h ▸ hx
    next => exact ih (hpass x hx) h

/-- A settled value is what the loop ends at, at once. -/
theorem settle_of_fixed (h : pass x = x) : settle pass (fuel + 1) x = some x := by
  rw [settle, if_pos h]

/-- **The loop ends**: a measure that every changing pass lowers bounds its passes. -/
theorem settle_ends (measure : α → Nat) (hlower : ∀ x, pass x ≠ x → measure (pass x) < measure x)
    (hfuel : measure x < fuel) : ∃ y, settle pass fuel x = some y := by
  induction fuel generalizing x with
  | zero => exact absurd hfuel (Nat.not_lt_zero _)
  | succ fuel ih =>
    rw [settle]
    split
    next => exact ⟨x, rfl⟩
    next hmoves => exact ih (Nat.lt_of_lt_of_le (hlower x hmoves) (Nat.le_of_lt_succ hfuel))

end Stoop.Lib
