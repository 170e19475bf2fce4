import Stoop.Channel.Quotes

/-!
# How many rows a view shows

What a view shows is counted by ids: `length_shownRows_le` bounds it by any list of ids that has them all.
Pruning brings a view down to the cap (`pruned_capped`), and a row placed in a view moves its range or leaves
it as it was (`View.Le`).

## Counting

`shownIn`, `length_shownRows_le`, `length_shownRows_thins`

## Pruning

`sortedIds`, `narrowed`, `pruned_capped`

## A range that moves

`View.Le`, `le_extended`
-/

set_option autoImplicit false

namespace Stoop.Channel

open Stoop.Lib

/-! ## Counting -/

/-- Whether a view shows a row that is held. -/
def shownIn (view : View) (rootId : Option Nat) (row : Message) : Bool :=
  belongs row rootId && inRange view row.id && isShown row

variable {log log' : ChannelLog} {rootId rootId' : Option Nat} {view view' : View}

/-- What a view shows has as many rows as ids, each once. -/
theorem length_shownRows_le {ids : List Nat}
    (h : ∀ view ∈ viewOf log rootId, ∀ row ∈ log.rows.values, shownIn view rootId row = true →
      row.id ∈ ids) :
    (shownRows log rootId).length ≤ ids.length := by
  have nodup : ((shownRows log rootId).map (·.id)).Nodup :=
    log.rows.nodup.sublist (List.filter_sublist.map _)
  rw [← List.length_map (·.id)]
  refine (List.subperm_of_subset nodup fun id hid => ?_).length_le
  obtain ⟨row, hrow, rfl⟩ := List.mem_map.mp hid
  obtain ⟨hmem, hshown⟩ := List.mem_filter.mp hrow
  cases hview : viewOf log rootId with
  | some view =>
    rw [hview] at hshown
    exact h view hview row hmem hshown
  | none =>
    -- a view that is not there shows nothing
    rw [hview] at hshown
    simp [inRange, emptyView] at hshown

theorem mem_shownRows (hview : viewOf log rootId = some view) {row : Message} :
    row ∈ shownRows log rootId ↔ row ∈ log.rows.values ∧ shownIn view rootId row = true := by
  rw [shownRows, hview]
  exact List.mem_filter

theorem shownIn_of_versioned {row row' : Message} (h : row'.versioned = row.versioned) :
    shownIn view rootId row' = shownIn view rootId row := by
  rw [shownIn, shownIn, isShown_of_versioned h, belongs_of_versioned h, id_of_versioned h]

/-- A step that thins the rows, and leaves a view or takes it away, shows no more there. -/
theorem length_shownRows_thins (hrows : Thins log.rows log'.rows)
    (hview : ∀ view ∈ viewOf log' rootId, viewOf log rootId = some view) :
    (shownRows log' rootId).length ≤ (shownRows log rootId).length := by
  rw [show (shownRows log rootId).length = ((shownRows log rootId).map (·.id)).length from
    List.length_map _ |>.symm]
  refine length_shownRows_le fun view hv row hrow hshown => ?_
  obtain ⟨before, hbefore, heq⟩ := hrows row.id row (Keyed.mem_values.mp hrow)
  rw [← Keyed.key_of_get? hbefore]
  refine List.mem_map_of_mem ((mem_shownRows (hview view hv)).mpr ⟨mem_values_of_get? hbefore, ?_⟩)
  rw [← shownIn_of_versioned heq]
  exact hshown

/-! ## Pruning -/

theorem viewOf_pruned (h : rootId' ≠ rootId) (drop : Drop) :
    viewOf (pruned log rootId drop) rootId' = viewOf log rootId' := by
  unfold pruned
  split
  next => rfl
  next view hview =>
    simp only
    split
    next => rfl
    next =>
      have hrows : ∀ (l : ChannelLog) (rows : Rows), viewOf { l with rows := rows } rootId' = viewOf l rootId' :=
        fun _ _ => by cases rootId' <;> rfl
      rw [hrows, viewOf_withView, if_neg h]

theorem thins_pruned (drop : Drop) : Thins log.rows (pruned log rootId drop).rows := by
  unfold pruned
  split
  next => exact .refl _
  next =>
    simp only
    split
    next => exact .refl _
    next =>
      rw [rows_withView]
      exact thins_withoutRows _ _

/-- What a view lets go of is no row more of another. -/
theorem length_shownRows_pruned (h : rootId' ≠ rootId) (drop : Drop) :
    (shownRows (pruned log rootId drop) rootId').length ≤ (shownRows log rootId').length :=
  length_shownRows_thins (thins_pruned drop) fun view hview => by rwa [viewOf_pruned h] at hview

/-- Of ids in order, those up to one are as many as stand before it, and those from one on as many as stand
after it. -/
theorem mem_take_of_le {ids : List Nat} (hsorted : ids.Pairwise (· < ·)) {n : Nat} {last id : Nat}
    (hlast : (ids.take n).getLast? = some last) (hid : id ∈ ids) (hle : id ≤ last) : id ∈ ids.take n := by
  have hmem : last ∈ ids.take n := List.mem_of_getLast? hlast
  rw [← List.take_append_drop n ids] at hid hsorted
  rcases List.mem_append.mp hid with hid | hid
  · exact hid
  · exact absurd ((List.pairwise_append.mp hsorted).2.2 last hmem id hid) (not_lt_of_ge hle)

theorem mem_drop_of_ge {ids : List Nat} (hsorted : ids.Pairwise (· < ·)) {n : Nat} {first id : Nat}
    (hfirst : (ids.drop n).head? = some first) (hid : id ∈ ids) (hge : first ≤ id) : id ∈ ids.drop n := by
  have hmem : first ∈ ids.drop n := List.mem_of_head? hfirst
  rw [← List.take_append_drop n ids] at hid hsorted
  rcases List.mem_append.mp hid with hid | hid
  · exact absurd ((List.pairwise_append.mp hsorted).2.2 id hid first hmem) (not_lt_of_ge hge)
  · exact hid

theorem inRange_iff {id : Nat} : inRange view id = true ↔
    (∃ oldest ∈ view.oldestId, oldest ≤ id) ∧ ∃ newest ∈ view.newestId, id ≤ newest := by
  unfold inRange
  cases view.oldestId <;> cases view.newestId <;> simp

/-- The ids a view shows, in order. -/
def sortedIds (log : ChannelLog) (rootId : Option Nat) : List Nat :=
  ((shownRows log rootId).map (·.id)).insertionSort (· ≤ ·)

theorem sortedIds_pairwise : (sortedIds log rootId).Pairwise (· < ·) := by
  have nodup : (sortedIds log rootId).Nodup :=
    (List.perm_insertionSort _ _).nodup_iff.mpr (log.rows.nodup.sublist (List.filter_sublist.map _))
  exact ((pairwise_sorted id _).and nodup).imp fun ⟨hle, hne⟩ => lt_of_le_of_ne hle hne

theorem length_sortedIds : (sortedIds log rootId).length = (shownRows log rootId).length := by
  rw [sortedIds, List.length_insertionSort, List.length_map]

theorem mem_sortedIds (hview : viewOf log rootId = some view) {id : Nat} :
    id ∈ sortedIds log rootId ↔ ∃ row ∈ log.rows.values, shownIn view rootId row = true ∧ row.id = id := by
  simp only [sortedIds, List.mem_insertionSort, List.mem_map, mem_shownRows hview, and_assoc]

theorem inRange_of_mem_sortedIds (hview : viewOf log rootId = some view) {id : Nat}
    (h : id ∈ sortedIds log rootId) : inRange view id = true := by
  obtain ⟨row, -, hshown, rfl⟩ := (mem_sortedIds hview).mp h
  simp only [shownIn, Bool.and_eq_true] at hshown
  exact hshown.1.2

/-- A view narrowed to some of the ids it shows, those of its range that are among them, shows them
alone. -/
theorem narrowed_capped (hview : viewOf log rootId = some view) {kept : List Nat} (rows : Rows)
    (hrows : ∀ row ∈ rows.values, row ∈ log.rows.values)
    (hinside : ∀ id, inRange view' id = true → inRange view id = true)
    (hkept : ∀ id ∈ sortedIds log rootId, inRange view' id = true → id ∈ kept) :
    (shownRows { withView log rootId view' with rows := rows } rootId).length ≤ kept.length := by
  refine length_shownRows_le fun v hv row hrow hshown => ?_
  have same : viewOf { withView log rootId view' with rows := rows } rootId =
      viewOf (withView log rootId view') rootId := by cases rootId <;> rfl
  rw [same, viewOf_withView, if_pos rfl] at hv
  obtain rfl := Option.some.inj hv
  simp only [shownIn, Bool.and_eq_true] at hshown
  refine hkept row.id ((mem_sortedIds hview).mpr ⟨row, hrows row hrow, ?_, rfl⟩) hshown.1.2
  simp only [shownIn, Bool.and_eq_true]
  exact ⟨⟨hshown.1.1, hinside row.id hshown.1.2⟩, hshown.2⟩

/-- A view over the cap, less the end that goes. -/
def narrowed (view : View) (ids : List Nat) : Drop → View
  | .newest => { view with newestId := (ids.take LOG_CAP).getLast?, hasNewer := true }
  | .oldest => { view with oldestId := (ids.drop (ids.length - LOG_CAP)).head?, hasOlder := true }

theorem pruned_over (hview : viewOf log rootId = some view)
    (hover : ¬(shownRows log rootId).length ≤ LOG_CAP) (drop : Drop) :
    ∃ gone, pruned log rootId drop =
      { withView log rootId (narrowed view (sortedIds log rootId) drop) with
        rows := withoutRows (withView log rootId (narrowed view (sortedIds log rootId) drop)).rows gone } := by
  unfold pruned
  rw [hview]
  simp only [if_neg hover]
  cases drop <;> exact ⟨_, rfl⟩

/-- The ids a view keeps. -/
def keptIds (ids : List Nat) : Drop → List Nat
  | .newest => ids.take LOG_CAP
  | .oldest => ids.drop (ids.length - LOG_CAP)

theorem length_keptIds (ids : List Nat) (drop : Drop) : (keptIds ids drop).length ≤ LOG_CAP := by
  cases drop with
  | newest => exact List.length_take_le _ _
  | oldest =>
    rw [keptIds, List.length_drop]
    omega

/-- A narrowed view lies inside the one before. -/
theorem inRange_of_narrowed (hview : viewOf log rootId = some view) {drop : Drop} {id : Nat}
    (h : inRange (narrowed view (sortedIds log rootId) drop) id = true) : inRange view id = true := by
  obtain ⟨⟨first, hfirst, hge⟩, last, hlast, hle⟩ := inRange_iff.mp h
  cases drop with
  | newest =>
    simp only [narrowed, Option.mem_def] at hlast
    have shown := inRange_of_mem_sortedIds hview (List.mem_of_mem_take (List.mem_of_getLast? hlast))
    obtain ⟨-, newest, hnewest, hnewer⟩ := inRange_iff.mp shown
    exact inRange_iff.mpr ⟨⟨first, hfirst, hge⟩, newest, hnewest, hle.trans hnewer⟩
  | oldest =>
    simp only [narrowed, Option.mem_def] at hfirst hlast
    have shown := inRange_of_mem_sortedIds hview (List.mem_of_mem_drop (List.mem_of_head? hfirst))
    obtain ⟨⟨oldest, holdest, holder⟩, -⟩ := inRange_iff.mp shown
    exact inRange_iff.mpr ⟨⟨oldest, holdest, holder.trans hge⟩, last, hlast, hle⟩

theorem mem_keptIds {drop : Drop} {id : Nat} (hid : id ∈ sortedIds log rootId)
    (h : inRange (narrowed view (sortedIds log rootId) drop) id = true) :
    id ∈ keptIds (sortedIds log rootId) drop := by
  obtain ⟨⟨first, hfirst, hge⟩, last, hlast, hle⟩ := inRange_iff.mp h
  cases drop with
  | newest =>
    simp only [narrowed, Option.mem_def] at hlast
    exact mem_take_of_le sortedIds_pairwise hlast hid hle
  | oldest =>
    simp only [narrowed, Option.mem_def] at hfirst
    exact mem_drop_of_ge sortedIds_pairwise hfirst hid hge

/-- **A view that is pruned shows at most as many rows as the cap.** -/
theorem pruned_capped (log : ChannelLog) (rootId : Option Nat) (drop : Drop) :
    (shownRows (pruned log rootId drop) rootId).length ≤ LOG_CAP := by
  cases hview : viewOf log rootId with
  | none =>
    have unseen : (shownRows log rootId).length ≤ ([] : List Nat).length :=
      length_shownRows_le fun view hv => by rw [hview] at hv; cases hv
    rw [pruned, hview]
    exact unseen.trans (Nat.zero_le _)
  | some view =>
    by_cases hover : (shownRows log rootId).length ≤ LOG_CAP
    · rw [pruned, hview]
      simp only [if_pos hover]
      exact hover
    · obtain ⟨gone, heq⟩ := pruned_over hview hover drop
      rw [heq, rows_withView]
      have left : ∀ row ∈ (withoutRows log.rows gone).values, row ∈ log.rows.values :=
        fun row hrow => List.mem_of_mem_filter hrow
      exact (narrowed_capped hview _ left (fun _ => inRange_of_narrowed hview)
        fun _ => mem_keptIds).trans (length_keptIds _ drop)

/-! ## A range that moves -/

/-- A view that goes no less far than another, and has counted no fewer. -/
structure View.Le (view view' : View) : Prop where
  oldest : ∀ id ∈ view.oldestId, ∃ id' ∈ view'.oldestId, id' ≤ id
  newest : ∀ id ∈ view.newestId, ∃ id' ∈ view'.newestId, id ≤ id'
  pending : view.pendingNewer ≤ view'.pendingNewer
  flags : view'.hasOlder = view.hasOlder ∧ view'.hasNewer = view.hasNewer ∧
    view'.generation = view.generation

theorem View.Le.refl (view : View) : view.Le view :=
  ⟨fun id h => ⟨id, h, le_rfl⟩, fun id h => ⟨id, h, le_rfl⟩, le_rfl, rfl, rfl, rfl⟩

theorem View.Le.trans {a b c : View} (h : a.Le b) (h' : b.Le c) : a.Le c where
  oldest := by
    intro id hid
    obtain ⟨id', hid', hle⟩ := h.oldest id hid
    obtain ⟨id'', hid'', hle'⟩ := h'.oldest id' hid'
    exact ⟨id'', hid'', hle'.trans hle⟩
  newest := by
    intro id hid
    obtain ⟨id', hid', hle⟩ := h.newest id hid
    obtain ⟨id'', hid'', hle'⟩ := h'.newest id' hid'
    exact ⟨id'', hid'', hle.trans hle'⟩
  pending := h.pending.trans h'.pending
  flags := ⟨h'.flags.1.trans h.flags.1, h'.flags.2.1.trans h.flags.2.1, h'.flags.2.2.trans h.flags.2.2⟩

/-- Edges that each go no less far than the other are one. -/
theorem edge_antisymm {r : Nat → Nat → Prop} (hr : ∀ a b, r a b → r b a → a = b) {a b : Option Nat}
    (h : ∀ x ∈ a, ∃ y ∈ b, r x y) (h' : ∀ y ∈ b, ∃ x ∈ a, r y x) : a = b := by
  cases a with
  | none =>
    cases b with
    | none => rfl
    | some y =>
      obtain ⟨x, hx, -⟩ := h' y rfl
      cases hx
  | some x =>
    obtain ⟨y, rfl, hxy⟩ := h x rfl
    obtain ⟨x', hx', hyx⟩ := h' y rfl
    obtain rfl := Option.some.inj hx'
    exact congrArg some (hr x y hxy hyx)

theorem View.Le.antisymm (h : view.Le view') (h' : view'.Le view) : view = view' := by
  have oldest := edge_antisymm (fun a b hab hba => Nat.le_antisymm hba hab) h.oldest h'.oldest
  have newest := edge_antisymm (fun a b hab hba => Nat.le_antisymm hab hba) h.newest h'.newest
  have pending := Nat.le_antisymm h.pending h'.pending
  obtain ⟨hasOlder, hasNewer, generation⟩ := h.flags
  cases view
  cases view'
  simp_all

theorem le_extended (view : View) (id : Nat) : view.Le (extended view id) := by
  unfold extended
  split
  next => exact .refl view
  next hout =>
    split
    next hnewer =>
      split
      next => exact ⟨fun id h => ⟨id, h, le_rfl⟩, fun id h => ⟨id, h, le_rfl⟩, Nat.le_succ _, rfl, rfl, rfl⟩
      next =>
        refine ⟨fun oldest h => ⟨oldest, ?_, le_rfl⟩, fun newest h => ⟨id, rfl, ?_⟩, le_rfl, rfl, rfl, rfl⟩
        · rw [Option.mem_def.mp h, Option.getD_some]
          exact rfl
        · rw [Option.mem_def.mp h] at hnewer
          exact (of_decide_eq_true hnewer).le
    next hnewer =>
      split
      next =>
        refine ⟨fun oldest h => ⟨id, rfl, ?_⟩, fun newest h => ⟨newest, h, le_rfl⟩, le_rfl, rfl, rfl, rfl⟩
        cases hnewest : view.newestId with
        | none =>
          rw [hnewest] at hnewer
          exact absurd rfl hnewer
        | some newest =>
          -- outside the range and not beyond its newest end: below its oldest
          have within : id ≤ newest := by
            rw [hnewest, Option.map_some, Option.getD_some, decide_eq_true_eq] at hnewer
            exact le_of_not_gt hnewer
          by_contra hle
          exact hout (inRange_iff.mpr ⟨⟨oldest, h, le_of_not_ge hle⟩, newest, hnewest, within⟩)
      next => exact .refl view

end Stoop.Channel
