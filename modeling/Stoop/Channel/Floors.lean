import Stoop.Channel.Views

/-!
# Retention floors one after the other

Each answer carries the floor as the server had it, and answers come in any order
(`web/src/core/channelLog/floor.ts`). A floor takes a root below it and the replies under that root at once,
so what it leaves holds no reply that the root's going has spared: the next floor judges what is left as it
would have judged the whole (`belowFloor_withFloor`), and two floors are the later of them
(`withFloor_withFloor`).

## Floors

`laterFloor_eq_max`, `withFloor_floor`

## What a floor leaves

`belowFloor_withFloor`, `rows_withFloor_withFloor`, `threads_withFloor_withFloor`

## The law

`floors_compose`
-/

set_option autoImplicit false

namespace Stoop.Channel

open Stoop.Lib

/-- No thread hangs off a reply. -/
def RootsPlain (rows : Rows) : Prop :=
  ∀ row ∈ rows.values, ∀ root ∈ row.threadRootId, ∀ held ∈ rows.get? root, held.threadRootId = none

/-- What no floor takes: a pinned root, or a reply of a pinned root that is held. -/
def Spared (rows : Rows) (row : Message) : Prop :=
  row ∈ rows.values ∧
    match row.threadRootId with
    | none => row.pinned = true
    | some root => ∃ held, rows.get? root = some held ∧ held.pinned = true

/-! ## Floors -/

variable {log : ChannelLog} {rows : Rows} {row : Message} {a b floor floor' : Option Nat} {f f' : Nat}

theorem laterFloor_eq_max (a b : Option Nat) : laterFloor a b = max a b := by
  cases a with
  | none => cases b <;> rfl
  | some a =>
    cases b with
    | none => rfl
    | some b =>
      refine congrArg some ?_
      split
      next h => exact (max_eq_left h.le).symm
      next h => exact (max_eq_right (le_of_not_gt h)).symm

/-- The rows a floor takes. -/
def goneBelow (rows : Rows) (floor : Nat) : List Nat :=
  (rows.values.filter fun row => belowFloor rows row floor).map (·.id)

theorem withFloor_none (h : max a log.floor = none) : withFloor log a = log := by
  rw [withFloor, laterFloor_eq_max, h]

theorem withFloor_some (h : max a log.floor = some f) :
    withFloor log a = { log with
      floor := some f
      rows := withoutRows log.rows (goneBelow log.rows f)
      threads := log.threads.filter fun thread => !(goneBelow log.rows f).contains thread.1 } := by
  rw [withFloor, laterFloor_eq_max, h]
  rfl

@[simp] theorem withFloor_floor : (withFloor log a).floor = max a log.floor := by
  cases h : max a log.floor with
  | none =>
    rw [withFloor_none h]
    exact (Option.max_eq_none_iff.mp h).2
  | some f => rw [withFloor_some h]

theorem mem_goneBelow {id : Nat} :
    id ∈ goneBelow rows f ↔ ∃ row, rows.get? id = some row ∧ belowFloor rows row f = true := by
  simp only [goneBelow, List.mem_map, List.mem_filter]
  constructor
  · rintro ⟨row, ⟨hrow, hbelow⟩, rfl⟩
    exact ⟨row, Keyed.mem_values.mp hrow, hbelow⟩
  · rintro ⟨row, hrow, hbelow⟩
    obtain rfl := Keyed.key_of_get? hrow
    exact ⟨row, ⟨Keyed.mem_values.mpr hrow, hbelow⟩, rfl⟩

/-- What is left under an id: the row that was there, unless the floor takes it. -/
theorem get?_withoutRows_goneBelow {id : Nat} :
    (withoutRows rows (goneBelow rows f)).get? id = some row ↔
      rows.get? id = some row ∧ belowFloor rows row f = false := by
  rw [get?_withoutRows]
  split
  next hgone =>
    obtain ⟨held, hheld, hbelow⟩ := mem_goneBelow.mp hgone
    refine iff_of_false (by rintro ⟨⟩) ?_
    rintro ⟨hrow, hnot⟩
    obtain rfl := Option.some.inj (hheld.symm.trans hrow)
    rw [hbelow] at hnot
    cases hnot
  next hkept =>
    refine ⟨fun hrow => ⟨hrow, ?_⟩, And.left⟩
    by_contra hbelow
    exact hkept (mem_goneBelow.mpr ⟨row, hrow, Bool.eq_true_of_not_eq_false hbelow⟩)

/-! ## What a floor leaves -/

/-- A later floor takes what an earlier one does. -/
theorem belowFloor_mono (h : f ≤ f') (hbelow : belowFloor rows row f = true) :
    belowFloor rows row f' = true := by
  unfold belowFloor at hbelow ⊢
  split at hbelow <;>
    simp only [Bool.and_eq_true, decide_eq_true_eq] at hbelow ⊢ <;>
    exact ⟨hbelow.1.trans_le h, hbelow.2⟩

/-- A floor judges a row that an earlier one has left as it would have before: the reply of a root that the
earlier took is not among them. -/
theorem belowFloor_withFloor (hplain : RootsPlain rows) (hrow : row ∈ rows.values)
    (hleft : belowFloor rows row f = false) :
    belowFloor (withoutRows rows (goneBelow rows f)) row f' = belowFloor rows row f' := by
  cases hroot : row.threadRootId with
  | none => simp only [belowFloor, hroot]
  | some root =>
    simp only [belowFloor, hroot]
    cases hheld : rows.get? root with
    | none =>
      have hgone : (withoutRows rows (goneBelow rows f)).get? root = none := by
        rw [get?_withoutRows, hheld, ite_self]
      rw [hgone]
    | some held =>
      by_cases hbelow : belowFloor rows held f = true
      · -- the root goes below the earlier floor, and the reply would have gone with it
        have plain : held.threadRootId = none := hplain row hrow root hroot held hheld
        simp only [belowFloor, plain, Bool.and_eq_true, Keyed.key_of_get? hheld] at hbelow
        simp only [belowFloor, hroot, hheld, Option.map_some, Option.getD_some, hbelow.1, hbelow.2,
          Bool.and_self, Bool.true_eq_false] at hleft
      · have hstays := get?_withoutRows_goneBelow.mpr ⟨hheld, Bool.eq_false_iff.mpr hbelow⟩
        rw [hstays]

/-- What two floors take, an earlier and then a later, is what the later takes. -/
theorem mem_goneBelow_later (hplain : RootsPlain rows) (h : f ≤ f') {id : Nat} :
    id ∈ goneBelow rows f' ↔
      id ∈ goneBelow rows f ∨ id ∈ goneBelow (withoutRows rows (goneBelow rows f)) f' := by
  constructor
  · intro hgone
    obtain ⟨row, hrow, hbelow⟩ := mem_goneBelow.mp hgone
    obtain rfl := Keyed.key_of_get? hrow
    by_cases hearlier : belowFloor rows row f = true
    · exact .inl (mem_goneBelow.mpr ⟨row, hrow, hearlier⟩)
    · have hleft := Bool.eq_false_iff.mpr hearlier
      refine .inr (mem_goneBelow.mpr ⟨row, get?_withoutRows_goneBelow.mpr ⟨hrow, hleft⟩, ?_⟩)
      rw [belowFloor_withFloor hplain (Keyed.mem_values.mpr hrow) hleft]
      exact hbelow
  · rintro (hgone | hgone)
    · obtain ⟨row, hrow, hbelow⟩ := mem_goneBelow.mp hgone
      exact mem_goneBelow.mpr ⟨row, hrow, belowFloor_mono h hbelow⟩
    · obtain ⟨row, hstays, hbelow⟩ := mem_goneBelow.mp hgone
      obtain ⟨hrow, hleft⟩ := get?_withoutRows_goneBelow.mp hstays
      obtain rfl := Keyed.key_of_get? hrow
      rw [belowFloor_withFloor hplain (Keyed.mem_values.mpr hrow) hleft] at hbelow
      exact mem_goneBelow.mpr ⟨row, hrow, hbelow⟩

/-- Two filters, where a third keeps what both do. -/
theorem filter_filter_contains {α : Type} {key : α → Nat} (m : Keyed key) {ids ids' later : List Nat}
    (h : ∀ id, id ∈ later ↔ id ∈ ids ∨ id ∈ ids') :
    ((m.filter fun v => !ids.contains (key v)).filter fun v => !ids'.contains (key v)) =
      m.filter fun v => !later.contains (key v) := by
  refine Keyed.eq_of_list ?_
  simp only [Keyed.filter, List.filter_filter]
  refine List.filter_congr fun v _ => ?_
  rw [Bool.eq_iff_iff]
  simp only [Bool.and_eq_true, Bool.not_eq_true', List.contains_eq_mem, decide_eq_false_iff_not, h,
    not_or]
  exact and_comm

/-- **Two floors are the later of them.** -/
theorem withFloor_withFloor (hplain : RootsPlain log.rows) :
    withFloor (withFloor log a) b = withFloor log (max a b) := by
  have floors : max b (max a log.floor) = max (max a b) log.floor := by
    cases a <;> cases b <;> cases log.floor <;> simp [max_comm, max_left_comm]
  cases hf : max a log.floor with
  | none =>
    rw [withFloor_none hf, (Option.max_eq_none_iff.mp hf).1, Option.max_none_left]
  | some f =>
    have later : ∃ f', max b (some f) = some f' ∧ f ≤ f' := by
      cases b with
      | none => exact ⟨f, rfl, le_rfl⟩
      | some b => exact ⟨max b f, rfl, le_max_right _ _⟩
    obtain ⟨f', hf', hle⟩ := later
    have both : max (max a b) log.floor = some f' := by rw [← floors, hf, hf']
    rw [withFloor_some both, withFloor_some (by rw [withFloor_floor, hf, hf']), withFloor_some hf]
    have rows := filter_filter_contains log.rows fun _ => mem_goneBelow_later hplain hle
    have threads := filter_filter_contains log.threads fun _ => mem_goneBelow_later hplain hle
    exact congrArg₂ (fun rows threads =>
      { log with floor := some f', rows := rows, threads := threads }) rows threads

theorem withFloor_rows_sub (hrow : row ∈ (withFloor log a).rows.values) : row ∈ log.rows.values := by
  cases hf : max a log.floor with
  | none => rwa [withFloor_none hf] at hrow
  | some f =>
    rw [withFloor_some hf] at hrow
    exact List.mem_of_mem_filter hrow

theorem RootsPlain.withFloor (hplain : RootsPlain log.rows) : RootsPlain (withFloor log a).rows := by
  intro row hrow root hroot held hheld
  have hmem := withFloor_rows_sub (Keyed.mem_values.mpr (Keyed.key_of_get? hheld ▸ hheld))
  exact hplain row (withFloor_rows_sub hrow) root hroot held
    (Keyed.key_of_get? hheld ▸ Keyed.mem_values.mp hmem)

/-- What no floor takes is there after one, as it was. -/
theorem Spared.withFloor (hplain : RootsPlain log.rows) (h : Spared log.rows row) :
    Spared (withFloor log a).rows row := by
  cases hf : max a log.floor with
  | none => rwa [withFloor_none hf]
  | some f =>
    rw [withFloor_some hf]
    have stays : ∀ held, log.rows.get? held.id = some held → held.threadRootId = none →
        held.pinned = true →
          (withoutRows log.rows (goneBelow log.rows f)).get? held.id = some held := by
      intro held hheld hroot hpinned
      refine get?_withoutRows_goneBelow.mpr ⟨hheld, ?_⟩
      simp only [belowFloor, hroot, hpinned, Bool.not_true, Bool.and_false]
    obtain ⟨hrow, hspared⟩ := h
    cases hroot : row.threadRootId with
    | none =>
      rw [hroot] at hspared
      have hstays := stays row (Keyed.mem_values.mp hrow) hroot hspared
      refine ⟨Keyed.mem_values.mpr hstays, ?_⟩
      rw [hroot]
      exact hspared
    | some root =>
      rw [hroot] at hspared
      obtain ⟨held, hheld, hpinned⟩ := hspared
      have plain := hplain row hrow root hroot held hheld
      obtain rfl := Keyed.key_of_get? hheld
      have hleft : belowFloor log.rows row f = false := by
        simp only [belowFloor, hroot, hheld, hpinned, Option.map_some, Option.getD_some, Bool.not_true,
          Bool.and_false]
      refine ⟨Keyed.mem_values.mpr (get?_withoutRows_goneBelow.mpr ⟨Keyed.mem_values.mp hrow, hleft⟩), ?_⟩
      rw [hroot]
      exact ⟨held, stays held hheld plain hpinned, hpinned⟩

theorem Spared.withFloors (hplain : RootsPlain log.rows) (h : Spared log.rows row)
    (floors : List (Option Nat)) : Spared (floors.foldl Channel.withFloor log).rows row := by
  induction floors generalizing log with
  | nil => exact h
  | cons floor floors ih => exact ih hplain.withFloor (h.withFloor hplain)

/-! ## The law -/

/-- **Retention floors compose**: one twice is one, the floor never moves back, two in either order leave
what the later leaves, and no floor after another takes a pinned root or a reply of one that is held. -/
theorem floors_compose (hplain : RootsPlain log.rows) (a b : Option Nat) :
    withFloor (withFloor log a) a = withFloor log a ∧
      max log.floor (withFloor log a).floor = (withFloor log a).floor ∧
      withFloor (withFloor log a) b = withFloor log (max a b) ∧
      withFloor (withFloor log b) a = withFloor log (max a b) ∧
      ∀ (floors : List (Option Nat)) (row : Message), Spared log.rows row →
        row ∈ (floors.foldl withFloor log).rows.values := by
  refine ⟨?_, ?_, withFloor_withFloor hplain, ?_, fun floors row h => (h.withFloors hplain floors).1⟩
  · rw [withFloor_withFloor hplain]
    cases a <;> simp
  · rw [withFloor_floor]
    cases a <;> cases log.floor <;> simp
  · rw [withFloor_withFloor hplain]
    cases a <;> cases b <;> simp [max_comm]

/-- Two roots, the second pinned, each with a reply. -/
def twoThreads : ChannelLog :=
  { emptyLog "general" with
    rows := Keyed.empty.setAll
      [{ id := 1, channelId := "general" }, { id := 2, channelId := "general", threadRootId := some 1 },
        { id := 3, channelId := "general", pinned := true },
        { id := 4, channelId := "general", threadRootId := some 3 }] }

/-- Floors in either order leave the pinned thread, and it alone. -/
theorem twoThreads_floors :
    withFloor (withFloor twoThreads (some 2)) (some 5) = withFloor (withFloor twoThreads (some 5)) (some 2) ∧
      (withFloor twoThreads (some 5)).rows.values.map (·.id) = [3, 4] := by
  have plain : RootsPlain twoThreads.rows := by
    unfold RootsPlain
    decide
  obtain ⟨-, -, forth, back, -⟩ := floors_compose plain (some 2) (some 5)
  exact ⟨forth.trans back.symm, by decide⟩

end Stoop.Channel
