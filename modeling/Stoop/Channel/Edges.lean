import Stoop.Channel.Capped

/-!
# The edges of a view

A view's two edges are there or not there together and in order, and a view that reaches the newest row has
nothing counted beyond it (`View.Formed`). Each rule that moves an edge keeps that, and moves the newest edge of a
view back only where the view stops short after it (`View.Keeps`); so a row that a live view spans stays spanned.

## Views

`View.Formed`, `View.Spans`, `View.Keeps`, `keeps_extended`, `keeps_narrowed`

## Logs

`Kept`, `Formed`: what a rule that brings no row keeps

## Arrivals and stretches

`spans_placed`, `stretched_view`
-/

set_option autoImplicit false

namespace Stoop.Channel

open Stoop.Lib

variable {log log' : ChannelLog} {rootId rootId' : Option Nat} {view view' : View}
  {incoming : List Message} {source : Source}

/-! ## Views -/

/-- The edges are both there or both not, and in order; a view that reaches the newest row counts none beyond. -/
structure View.Formed (view : View) : Prop where
  null : view.oldestId = none ↔ view.newestId = none
  ordered : ∀ oldest ∈ view.oldestId, ∀ newest ∈ view.newestId, oldest ≤ newest
  pending : view.hasNewer = false → view.pendingNewer = 0

/-- No later than the newest edge. -/
def View.Spans (view : View) (id : Nat) : Prop := ∃ newest ∈ view.newestId, id ≤ newest

theorem View.Formed.edges (h : view.Formed) : view.oldestId = none ∧ view.newestId = none ∨
    ∃ oldest newest, view.oldestId = some oldest ∧ view.newestId = some newest ∧ oldest ≤ newest := by
  cases holdest : view.oldestId with
  | none => exact .inl ⟨rfl, h.null.mp holdest⟩
  | some oldest =>
    cases hnewest : view.newestId with
    | none =>
      rw [h.null.mpr hnewest] at holdest
      cases holdest
    | some newest => exact .inr ⟨oldest, newest, rfl, rfl, h.ordered oldest holdest newest hnewest⟩

/-- What a formed view spans is in its range, if it is newer than its oldest edge. -/
theorem View.Formed.inRange (h : view.Formed) {id : Nat} (hspans : view.Spans id)
    (hnewer : ∀ oldest ∈ view.oldestId, oldest < id) : Channel.inRange view id = true := by
  obtain ⟨newest, hnewest, hle⟩ := hspans
  rcases h.edges with ⟨-, hnone⟩ | ⟨oldest, -, holdest, -, -⟩
  · rw [hnone] at hnewest
    cases hnewest
  · exact inRange_iff.mpr ⟨⟨oldest, holdest, (hnewer oldest holdest).le⟩, newest, hnewest, hle⟩

theorem spans_of_inRange {id : Nat} (h : inRange view id = true) : view.Spans id := (inRange_iff.mp h).2

/-- A view moved on: still formed, with edges where it had them, and, if it is live, live before and reaching no
less far. -/
structure View.Keeps (view view' : View) : Prop where
  formed : view.Formed → view'.Formed
  spans : view'.hasNewer = false → view.hasNewer = false ∧ ∀ id, view.Spans id → view'.Spans id
  edged : view.oldestId.isSome = true → view'.oldestId.isSome = true
  generation : view'.generation = view.generation

theorem View.Keeps.refl (view : View) : view.Keeps view :=
  ⟨fun h => h, fun h => ⟨h, fun _ h => h⟩, fun h => h, rfl⟩

theorem View.Keeps.trans {a b c : View} (h : a.Keeps b) (h' : b.Keeps c) : a.Keeps c where
  formed ha := h'.formed (h.formed ha)
  spans hlive := by
    obtain ⟨hb, hspans'⟩ := h'.spans hlive
    obtain ⟨ha, hspans⟩ := h.spans hb
    exact ⟨ha, fun id hid => hspans' id (hspans id hid)⟩
  edged ha := h'.edged (h.edged ha)
  generation := h'.generation.trans h.generation

/-- Edges that go no less far, in a view that is as live as it was. -/
theorem View.Le.keeps (h : view.Le view') (hformed : view.Formed → view'.Formed) : view.Keeps view' where
  formed := hformed
  spans hlive := by
    refine ⟨by rw [← h.flags.2.1, hlive], ?_⟩
    rintro id ⟨newest, hnewest, hle⟩
    obtain ⟨newest', hnewest', hle'⟩ := h.newest newest hnewest
    exact ⟨newest', hnewest', hle.trans hle'⟩
  edged hsome := by
    obtain ⟨oldest, holdest⟩ := Option.isSome_iff_exists.mp hsome
    obtain ⟨oldest', holdest', -⟩ := h.oldest oldest holdest
    exact Option.isSome_iff_exists.mpr ⟨oldest', holdest'⟩
  generation := h.flags.2.2

theorem formed_extended (h : view.Formed) (id : Nat) : (extended view id).Formed := by
  have hpending := h.pending
  unfold extended
  split
  next => exact h
  next hout =>
    split
    next hbeyond =>
      split
      next hnewer => exact ⟨h.null, h.ordered, fun hlive => by rw [hnewer] at hlive; cases hlive⟩
      next =>
        refine ⟨by simp, fun oldest holdest newest hnewest => ?_, hpending⟩
        obtain rfl := Option.some.inj hnewest
        obtain rfl := Option.some.inj holdest
        rcases h.edges with ⟨holdest, -⟩ | ⟨oldest, newest, holdest, hnewest, hle⟩
        · rw [holdest]
          exact le_rfl
        · rw [holdest, Option.getD_some]
          rw [hnewest, Option.map_some, Option.getD_some, decide_eq_true_eq] at hbeyond
          omega
    next hbeyond =>
      split
      next =>
        rcases h.edges with ⟨-, hnewest⟩ | ⟨oldest, newest, holdest, hnewest, hle⟩
        · rw [hnewest] at hbeyond
          exact absurd rfl hbeyond
        · refine ⟨by simp [hnewest], fun oldest' holdest' newest' hnewest' => ?_, hpending⟩
          obtain rfl := Option.some.inj holdest'
          obtain rfl := Option.some.inj (hnewest.symm.trans hnewest')
          rw [hnewest, Option.map_some, Option.getD_some, decide_eq_true_eq] at hbeyond
          exact Nat.le_of_not_lt hbeyond
      next => exact h

theorem keeps_extended (view : View) (id : Nat) : view.Keeps (extended view id) :=
  (le_extended view id).keeps fun h => formed_extended h id

/-- A live view reaches what has come. -/
theorem spans_extended (hlive : view.hasNewer = false) (id : Nat) : (extended view id).Spans id := by
  unfold extended
  split
  next hin => exact spans_of_inRange hin
  next =>
    split
    next => exact ⟨id, by simp [hlive]⟩
    next hbeyond =>
      cases hnewest : view.newestId with
      | none =>
        rw [hnewest] at hbeyond
        exact absurd rfl hbeyond
      | some newest =>
        rw [hnewest, Option.map_some, Option.getD_some, decide_eq_true_eq] at hbeyond
        refine ⟨newest, ?_, Nat.le_of_not_lt hbeyond⟩
        split
        · rfl
        · exact hnewest

theorem keeps_placedView (row : Message) : view.Keeps (placedView rootId row view) := by
  unfold placedView
  split
  · exact keeps_extended view row.id
  · exact .refl view

theorem keptIds_ne_nil (hover : ¬(shownRows log rootId).length ≤ LOG_CAP) (drop : Drop) :
    keptIds (sortedIds log rootId) drop ≠ [] := by
  have hcap : 0 < LOG_CAP := by decide
  have hlength : LOG_CAP < (sortedIds log rootId).length := by
    rw [length_sortedIds]
    omega
  cases drop with
  | oldest =>
    rw [keptIds, Ne, List.drop_eq_nil_iff]
    omega
  | newest =>
    rw [keptIds, Ne, List.take_eq_nil_iff]
    rintro (hzero | hnil)
    · omega
    · rw [hnil] at hlength
      exact absurd hlength (Nat.not_lt_zero _)

/-- A narrowed view's edges are its old ones and an end of the ids it keeps, which lay in its range. -/
theorem keeps_narrowed (hview : viewOf log rootId = some view)
    (hover : ¬(shownRows log rootId).length ≤ LOG_CAP) (drop : Drop) :
    view.Keeps (narrowed view (sortedIds log rootId) drop) := by
  have hkept := keptIds_ne_nil hover drop
  generalize hids : sortedIds log rootId = ids at hkept ⊢
  have hin : ∀ id ∈ ids, inRange view id = true := fun id hid => inRange_of_mem_sortedIds hview (hids ▸ hid)
  cases drop with
  | oldest =>
    rw [keptIds] at hkept
    obtain ⟨first, hfirst⟩ := Option.isSome_iff_exists.mp (List.isSome_head?.mpr hkept)
    have holdest : (narrowed view ids .oldest).oldestId = some first := by rw [narrowed, hfirst]
    obtain ⟨-, newest, hnewest, hle⟩ := inRange_iff.mp
      (hin first (List.mem_of_mem_drop (List.mem_of_head? hfirst)))
    have hsame : (narrowed view ids .oldest).newestId = some newest := by
      rw [narrowed]
      exact hnewest
    have hlive : (narrowed view ids .oldest).hasNewer = view.hasNewer := by rw [narrowed]
    have hpending : (narrowed view ids .oldest).pendingNewer = view.pendingNewer := by rw [narrowed]
    refine ⟨fun h => ⟨by simp [holdest, hsame], ?_, by rw [hlive, hpending]; exact h.pending⟩, fun h => ⟨?_, ?_⟩,
      fun _ => by rw [holdest, Option.isSome_some], by rw [narrowed]⟩
    · simpa [holdest, hsame] using hle
    · rwa [hlive] at h
    · intro id hspans
      rwa [View.Spans, hsame, ← Option.mem_def.mp hnewest]
  | newest =>
    rw [keptIds] at hkept
    obtain ⟨last, hlast⟩ := Option.isSome_iff_exists.mp (List.getLast?_isSome.mpr hkept)
    have hnewest : (narrowed view ids .newest).newestId = some last := by rw [narrowed, hlast]
    obtain ⟨⟨oldest, holdest, hle⟩, -⟩ := inRange_iff.mp
      (hin last (List.mem_of_mem_take (List.mem_of_getLast? hlast)))
    have hsame : (narrowed view ids .newest).oldestId = some oldest := by
      rw [narrowed]
      exact holdest
    refine ⟨fun _ => ⟨by simp [hnewest, hsame], ?_, by rintro ⟨⟩⟩, by rintro ⟨⟩, fun h => h, rfl⟩
    simpa [hnewest, hsame] using hle

/-! ## Logs -/

/-- Views moved on, and rows thinned out. -/
structure Kept (log log' : ChannelLog) : Prop where
  view : ∀ rootId view', viewOf log' rootId = some view' →
    ∃ view, viewOf log rootId = some view ∧ view.Keeps view'
  rows : Thins log.rows log'.rows

theorem Kept.refl (log : ChannelLog) : Kept log log := ⟨fun _ view h => ⟨view, h, .refl view⟩, .refl _⟩

theorem Kept.trans {a b c : ChannelLog} (h : Kept a b) (h' : Kept b c) : Kept a c where
  view rootId view'' hview'' := by
    obtain ⟨view', hview', hkeeps'⟩ := h'.view rootId view'' hview''
    obtain ⟨view, hview, hkeeps⟩ := h.view rootId view' hview'
    exact ⟨view, hview, hkeeps.trans hkeeps'⟩
  rows := h.rows.trans h'.rows

/-- Views that are as they were, or gone. -/
theorem Kept.of_same (hrows : Thins log.rows log'.rows)
    (hviews : ∀ rootId view, viewOf log' rootId = some view → viewOf log rootId = some view) : Kept log log' :=
  ⟨fun rootId view h => ⟨view, hviews rootId view h, .refl view⟩, hrows⟩

theorem kept_withFloor (log : ChannelLog) (floorId : Option Nat) : Kept log (withFloor log floorId) :=
  .of_same (floors_withFloor log floorId).thins fun _ _ => viewOf_withFloor

theorem kept_pruned (log : ChannelLog) (rootId : Option Nat) (drop : Drop) :
    Kept log (pruned log rootId drop) where
  view rootId' view' hview' := by
    rcases eq_or_ne rootId' rootId with rfl | hne
    · cases hview : viewOf log rootId' with
      | none =>
        rw [pruned, hview] at hview'
        rw [hview] at hview'
        cases hview'
      | some view =>
        by_cases hover : (shownRows log rootId').length ≤ LOG_CAP
        · rw [pruned, hview] at hview'
          simp only [if_pos hover] at hview'
          obtain rfl := Option.some.inj (hview.symm.trans hview')
          exact ⟨view, rfl, .refl view⟩
        · obtain ⟨gone, heq⟩ := pruned_over hview hover drop
          rw [heq, viewOf_withRows, viewOf_withView, if_pos rfl] at hview'
          obtain rfl := Option.some.inj hview'
          exact ⟨view, rfl, keeps_narrowed hview hover drop⟩
    · rw [viewOf_pruned hne] at hview'
      exact ⟨view', hview', .refl view'⟩
  rows := thins_pruned drop

theorem kept_closedThread (log : ChannelLog) (rootId : Nat) : Kept log (closedThread log rootId) := by
  unfold closedThread
  split
  next =>
    refine .of_same (thins_withoutRows _ _) fun rootId' view hview => ?_
    cases rootId' with
    | none => exact hview
    | some root =>
      obtain ⟨thread, hthread, rfl⟩ := Option.map_eq_some_iff.mp hview
      rw [withoutView, Keyed.get?_filter_ne] at hthread
      split at hthread
      · cases hthread
      · rw [viewOf, hthread, Option.map_some]
  next => exact .refl log

/-- Whether a view lists a row, range aside, and shows it. -/
def listed (row : Message) (rootId : Option Nat) : Bool := belongs row rootId && isShown row

theorem listed_of_versioned {row row' : Message} (h : row'.versioned = row.versioned) :
    listed row' rootId = listed row rootId := by
  rw [listed, listed, isShown_of_versioned h, belongs_of_versioned h]

/-- Every view is formed, and a live one reaches every row of it that is held. -/
structure Formed (log : ChannelLog) : Prop where
  view : ∀ rootId view, viewOf log rootId = some view → view.Formed
  spans : ∀ rootId view, viewOf log rootId = some view → view.hasNewer = false →
    ∀ row ∈ log.rows.values, listed row rootId = true → view.Spans row.id

/-- **What a rule that brings no row keeps.** -/
theorem Kept.formed (h : Kept log log') (inv : Formed log) : Formed log' where
  view rootId view' hview' := by
    obtain ⟨view, hview, hkeeps⟩ := h.view rootId view' hview'
    exact hkeeps.formed (inv.view rootId view hview)
  spans rootId view' hview' hlive row' hrow' hlisted := by
    obtain ⟨view, hview, hkeeps⟩ := h.view rootId view' hview'
    obtain ⟨hwas, hspans⟩ := hkeeps.spans hlive
    obtain ⟨row, hrow, heq⟩ := h.rows row'.id row' (Keyed.mem_values.mp hrow')
    rw [listed_of_versioned heq] at hlisted
    have := hspans row.id (inv.spans rootId view hview hwas row (mem_values_of_get? hrow) hlisted)
    rwa [Keyed.key_of_get? hrow] at this

/-! ## Arrivals -/

/-- A view that goes through a merge reaches what is held after it, if it reaches what the merge took. -/
theorem spans_merged (inv : Formed log) (hrows : Thins (mergeRows log.rows incoming source) log'.rows)
    (hview : viewOf log rootId = some view) (hkeeps : view.Keeps view') (hlive : view'.hasNewer = false)
    (htaken : ∀ row ∈ incoming, takes log.rows source row = true → listed row rootId = true →
      view'.Spans row.id) :
    ∀ row ∈ log'.rows.values, listed row rootId = true → view'.Spans row.id := by
  intro row' hrow' hlisted
  obtain ⟨hwas, hspans⟩ := hkeeps.spans hlive
  obtain ⟨row, hrow, heq⟩ := hrows row'.id row' (Keyed.mem_values.mp hrow')
  rw [listed_of_versioned heq] at hlisted
  rcases mergeRows_cases hrow with ⟨hheld, -⟩ | ⟨copy, hcopy, htakes, hid, rfl⟩
  · have := hspans row.id (inv.spans rootId view hview hwas row (mem_values_of_get? hheld) hlisted)
    rwa [Keyed.key_of_get? hheld] at this
  · rw [listed_of_versioned (taken_versioned log.rows source copy)] at hlisted
    rw [← hid]
    exact htaken copy hcopy htakes hlisted

theorem kept_arrived {rows : Rows} (next : ChannelLog × List Nat) (row : Message) :
    Kept next.1 (arrived log rows incoming source next row).1 where
  view rootId view' hview' := by
    rw [viewOf_arrived] at hview'
    obtain ⟨view, hview, rfl⟩ := Option.map_eq_some_iff.mp hview'
    refine ⟨view, hview, ?_⟩
    split
    · exact keeps_placedView row
    · exact .refl view
  rows := (reshapes_arrived next row).rows

theorem kept_foldl_arrived (rows : Rows) (rest : List Message) (next : ChannelLog × List Nat) :
    Kept next.1 (rest.foldl (arrived log rows incoming source) next).1 := by
  induction rest generalizing next with
  | nil => exact .refl _
  | cons row rest ih => exact (kept_arrived next row).trans (ih _)

/-- A row that is placed is reached by each live view that lists it, whatever comes after it. -/
theorem spans_placed (rows : Rows) {rest : List Message} {next : ChannelLog × List Nat} {row : Message}
    (hrow : row ∈ rest) (hplaced : isPlaced log incoming source row = true) (hbelongs : belongs row rootId = true)
    (hview : viewOf (rest.foldl (arrived log rows incoming source) next).1 rootId = some view)
    (hlive : view.hasNewer = false) : view.Spans row.id := by
  induction rest generalizing next with
  | nil => cases hrow
  | cons first rest ih =>
    rcases List.mem_cons.mp hrow with rfl | hrest
    · obtain ⟨mid, hmid, hkeeps⟩ := (kept_foldl_arrived rows rest _).view rootId view hview
      obtain ⟨hwas, hspans⟩ := hkeeps.spans hlive
      rw [viewOf_arrived] at hmid
      obtain ⟨before, -, rfl⟩ := Option.map_eq_some_iff.mp hmid
      rw [if_pos hplaced, placedView, if_pos hbelongs] at hwas hspans
      have hlive' : before.hasNewer = false := ((keeps_extended before row.id).spans hwas).1
      exact hspans row.id (spans_extended hlive' row.id)
    · exact ih hrest hview

theorem kept_prunedIfGrown (log next : ChannelLog) (rootId : Option Nat) :
    Kept next (prunedIfGrown log next rootId) := by
  unfold prunedIfGrown
  split
  · exact .refl _
  · exact kept_pruned _ _ _

theorem kept_foldl_prunedIfGrown (log : ChannelLog) (roots : List Nat) (next : ChannelLog) :
    Kept next (roots.foldl (fun next root => prunedIfGrown log next (some root)) next) := by
  induction roots generalizing next with
  | nil => exact .refl _
  | cons root roots ih => exact (kept_prunedIfGrown _ _ _).trans (ih _)

/-- A row an arrival takes another copy of is one that each live view listing it has reached. -/
def HeldReached (log : ChannelLog) (incoming : List Message) (source : Source) : Prop :=
  ∀ rootId view, viewOf log rootId = some view → view.hasNewer = false → ∀ row ∈ incoming,
    takes log.rows source row = true → log.rows.has row.id = true → listed row rootId = true → view.Spans row.id

/-- The views an arrival leaves, and that they reach what it placed. -/
theorem withArrivals_views (log : ChannelLog) (incoming : List Message) (source : Source) :
    Kept { log with rows := mergeRows log.rows incoming source } (withArrivals log incoming source) ∧
      ∀ rootId view, viewOf (withArrivals log incoming source) rootId = some view → view.hasNewer = false →
        ∀ row ∈ incoming, isPlaced log incoming source row = true → belongs row rootId = true →
          view.Spans row.id := by
  unfold withArrivals
  split
  next =>
    let reached := incoming.foldl (arrived log (mergeRows log.rows incoming source) incoming source)
      ({ log with rows := mergeRows log.rows incoming source }, [])
    have hpruned := (kept_prunedIfGrown log reached.1 none).trans (kept_foldl_prunedIfGrown log reached.2 _)
    refine ⟨(kept_foldl_arrived _ incoming _).trans hpruned,
      fun rootId view hview hlive row hrow hplaced hbelongs => ?_⟩
    obtain ⟨mid, hmid, hkeeps⟩ := hpruned.view rootId view hview
    obtain ⟨hwas, hspans⟩ := hkeeps.spans hlive
    exact hspans row.id (spans_placed _ hrow hplaced hbelongs hmid hwas)
  next hnone =>
    rw [Bool.not_eq_true] at hnone
    refine ⟨by rw [mergeRows_of_takes_none hnone]; exact .refl _, fun _ _ _ _ row hrow hplaced => ?_⟩
    -- nothing was taken, so nothing was placed
    rw [isPlaced, Bool.and_eq_true] at hplaced
    obtain ⟨copy, hcopy, -, htakes⟩ := changed_iff.mp hplaced.1
    rw [List.any_eq_true.mpr ⟨copy, hcopy, htakes⟩] at hnone
    cases hnone

/-- **An arrival of rows that are new, or that live views have reached, keeps every view's edges.** -/
theorem formed_withArrivals (inv : Formed log) (h : HeldReached log incoming source) :
    Formed (withArrivals log incoming source) := by
  obtain ⟨hkept, hplaced⟩ := withArrivals_views log incoming source
  refine ⟨fun rootId view' hview' => ?_, fun rootId view' hview' hlive => ?_⟩
  · obtain ⟨view, hview, hkeeps⟩ := hkept.view rootId view' hview'
    rw [viewOf_withRows] at hview
    exact hkeeps.formed (inv.view rootId view hview)
  · obtain ⟨view, hview, hkeeps⟩ := hkept.view rootId view' hview'
    rw [viewOf_withRows] at hview
    refine spans_merged inv hkept.rows hview hkeeps hlive fun row hrow htakes hlisted => ?_
    by_cases hheld : log.rows.has row.id = true
    · obtain ⟨hwas, hspans⟩ := hkeeps.spans hlive
      exact hspans row.id (h rootId view hview hwas row hrow htakes hheld hlisted)
    · rw [listed, Bool.and_eq_true] at hlisted
      refine hplaced rootId view' hview' hlive row hrow ?_ hlisted.1
      rw [isPlaced, changed_iff.mpr ⟨row, hrow, rfl, htakes⟩, Bool.eq_false_iff.mpr hheld, hlisted.2]
      rfl

/-! ## Stretches -/

/-- Edges gone over rows held beyond them: one the server has rows beyond is where it was, and the other reaches
them all. -/
structure Stretch (view : View) (beyond : List Message) (edges edges' : Option Nat × Option Nat) : Prop where
  oldest : ∀ oldest ∈ edges.1, ∃ oldest' ∈ edges'.1, oldest' ≤ oldest
  newest : ∀ newest ∈ edges.2, ∃ newest' ∈ edges'.2, newest ≤ newest'
  keptOldest : view.hasOlder = true → edges'.1 = edges.1
  keptNewest : view.hasNewer = true → edges'.2 = edges.2
  toOldest : view.hasOlder = false → ∀ row ∈ beyond, ∃ oldest' ∈ edges'.1, oldest' ≤ row.id
  toNewest : view.hasNewer = false → ∀ row ∈ beyond, ∃ newest' ∈ edges'.2, row.id ≤ newest'
  still : beyond = [] → edges' = edges

/-- One row of a stretch. -/
def stretchOver (view : View) (edges : Option Nat × Option Nat) (row : Message) : Option Nat × Option Nat :=
  let newestId :=
    if !view.hasNewer && (edges.2.map fun newest => decide (newest < row.id)).getD true then some row.id
    else edges.2
  let oldestId :=
    if !view.hasOlder && (edges.1.map fun oldest => decide (row.id < oldest)).getD true then some row.id
    else edges.1
  (oldestId, newestId)

/-- An edge moved to a row that lies further, where it may move. -/
theorem edge_over {r : Nat → Nat → Prop} [DecidableRel r] (hrefl : ∀ n, r n n) (htotal : ∀ a b, ¬r a b → r b a)
    (stays : Bool) (edge : Option Nat) (id : Nat) :
    let edge' := if !stays && (edge.map fun e => !decide (r e id)).getD true then some id else edge
    (∀ e ∈ edge, ∃ e' ∈ edge', r e' e) ∧ (stays = true → edge' = edge) ∧
      (stays = false → ∃ e' ∈ edge', r e' id) := by
  cases edge with
  | none => cases stays <;> simp [hrefl]
  | some e =>
    by_cases hr : r e id
    · cases stays <;> simp [hr, hrefl]
    · cases stays <;> simp [hr, hrefl, htotal]

theorem stretch_over (view : View) (edges : Option Nat × Option Nat) (row : Message) :
    Stretch view [row] edges (stretchOver view edges row) := by
  have htotal : ∀ a b : Nat, ¬ a ≤ b → b ≤ a := fun _ _ h => Nat.le_of_not_le h
  have holdest := edge_over (r := (· ≤ ·)) Nat.le_refl htotal view.hasOlder edges.1 row.id
  have hnewest := edge_over (r := (· ≥ ·)) Nat.le_refl (fun a b => htotal b a) view.hasNewer edges.2 row.id
  simp only [← Nat.not_lt, ge_iff_le, decide_not, Bool.not_not] at holdest hnewest
  simp only [Nat.not_lt] at holdest hnewest
  exact {
    oldest := holdest.1
    newest := hnewest.1
    keptOldest := holdest.2.1
    keptNewest := hnewest.2.1
    toOldest := fun h row' hrow' => List.mem_singleton.mp hrow' ▸ holdest.2.2 h
    toNewest := fun h row' hrow' => List.mem_singleton.mp hrow' ▸ hnewest.2.2 h
    still := fun h => absurd h (List.cons_ne_nil row []) }

theorem stretch_foldl (view : View) (beyond : List Message) (edges : Option Nat × Option Nat) :
    Stretch view beyond edges (beyond.foldl (stretchOver view) edges) := by
  induction beyond generalizing edges with
  | nil =>
    rw [List.foldl_nil]
    exact {
      oldest := fun o ho => ⟨o, ho, Nat.le_refl o⟩
      newest := fun n hn => ⟨n, hn, Nat.le_refl n⟩
      keptOldest := fun _ => rfl
      keptNewest := fun _ => rfl
      toOldest := fun _ row hrow => absurd hrow List.not_mem_nil
      toNewest := fun _ row hrow => absurd hrow List.not_mem_nil
      still := fun _ => rfl }
  | cons row beyond ih =>
    rw [List.foldl_cons]
    have first := stretch_over view edges row
    have rest := ih (stretchOver view edges row)
    have older : ∀ id, (∃ o ∈ (stretchOver view edges row).1, o ≤ id) →
        ∃ o ∈ (beyond.foldl (stretchOver view) (stretchOver view edges row)).1, o ≤ id := by
      rintro id ⟨o, ho, hle⟩
      obtain ⟨o', ho', hle'⟩ := rest.oldest o ho
      exact ⟨o', ho', hle'.trans hle⟩
    have newer : ∀ id, (∃ n ∈ (stretchOver view edges row).2, id ≤ n) →
        ∃ n ∈ (beyond.foldl (stretchOver view) (stretchOver view edges row)).2, id ≤ n := by
      rintro id ⟨n, hn, hle⟩
      obtain ⟨n', hn', hle'⟩ := rest.newest n hn
      exact ⟨n', hn', hle.trans hle'⟩
    refine ⟨fun o ho => older o (first.oldest o ho), fun n hn => newer n (first.newest n hn),
      fun h => (rest.keptOldest h).trans (first.keptOldest h),
      fun h => (rest.keptNewest h).trans (first.keptNewest h),
      fun h row' hrow' => ?_, fun h row' hrow' => ?_, fun h => absurd h (List.cons_ne_nil row beyond)⟩
    · rcases List.mem_cons.mp hrow' with rfl | hrest
      · exact older row'.id (first.toOldest h row' (List.mem_singleton_self _))
      · exact rest.toOldest h row' hrest
    · rcases List.mem_cons.mp hrow' with rfl | hrest
      · exact newer row'.id (first.toNewest h row' (List.mem_singleton_self _))
      · exact rest.toNewest h row' hrest

/-- The rows of a view held out of its range. -/
def heldBeyond (log : ChannelLog) (rootId : Option Nat) (view : View) : List Message :=
  log.rows.values.filter fun row => belongs row rootId && isShown row && !inRange view row.id

theorem stretched_view (hview : viewOf log rootId = some view) :
    ∃ edges, viewOf (stretched log rootId) rootId =
        some { view with oldestId := edges.1, newestId := edges.2 } ∧
      Stretch view (heldBeyond log rootId view) (view.oldestId, view.newestId) edges := by
  have hfold := stretch_foldl view (heldBeyond log rootId view) (view.oldestId, view.newestId)
  refine ⟨_, ?_, hfold⟩
  unfold stretched
  rw [hview]
  simp only
  split
  next hboth =>
    rw [Bool.and_eq_true] at hboth
    rw [hfold.keptOldest hboth.2, hfold.keptNewest hboth.1]
    exact hview
  next => exact (viewOf_withView _ _ _ _).trans (if_pos rfl)

/-- A view with edges, or without and nothing held of it beyond one edge alone, is formed once it is stretched,
and reaches what is held of it if it is live. -/
theorem stretched_formed (hview : viewOf log rootId = some view) (hformed : view.Formed)
    (hedges : view.oldestId.isSome = true ∨ view.hasOlder = view.hasNewer ∨ heldBeyond log rootId view = []) :
    ∃ view', viewOf (stretched log rootId) rootId = some view' ∧ view.Keeps view' ∧
      (view'.hasNewer = false → ∀ row ∈ log.rows.values, listed row rootId = true → view'.Spans row.id) := by
  obtain ⟨edges, hview', hstretch⟩ := stretched_view hview
  have hnull : edges.1 = none ↔ edges.2 = none := by
    rcases hformed.edges with ⟨holdest, hnewest⟩ | ⟨oldest, newest, holdest, hnewest, -⟩
    · rcases hedges with hsome | hsame | hnone
      · rw [holdest] at hsome
        cases hsome
      · cases holder : view.hasOlder with
        | true =>
          rw [hstretch.keptOldest holder, hstretch.keptNewest (hsame ▸ holder)]
          exact hformed.null
        | false =>
          cases hbeyond : heldBeyond log rootId view with
          | nil =>
            rw [hstretch.still hbeyond]
            exact hformed.null
          | cons row rest =>
            have hrow : row ∈ heldBeyond log rootId view := hbeyond ▸ List.mem_cons_self
            obtain ⟨o, ho, -⟩ := hstretch.toOldest holder row hrow
            obtain ⟨n, hn, -⟩ := hstretch.toNewest (hsame ▸ holder) row hrow
            rw [Option.mem_def.mp ho, Option.mem_def.mp hn]
            exact ⟨nofun, nofun⟩
      · rw [hstretch.still hnone]
        exact hformed.null
    · obtain ⟨o, ho, -⟩ := hstretch.oldest oldest holdest
      obtain ⟨n, hn, -⟩ := hstretch.newest newest hnewest
      rw [Option.mem_def.mp ho, Option.mem_def.mp hn]
      exact ⟨nofun, nofun⟩
  have hordered : ∀ o ∈ edges.1, ∀ n ∈ edges.2, o ≤ n := by
    intro o ho n hn
    rcases hformed.edges with ⟨holdest, hnewest⟩ | ⟨oldest, newest, holdest, hnewest, hle⟩
    · -- an edge that was not there lies at a row held beyond it, which the other has reached too
      cases hbeyond : heldBeyond log rootId view with
      | nil =>
        have hsame := hstretch.still hbeyond
        rw [hsame, holdest] at ho
        cases ho
      | cons row rest =>
        have hrow : row ∈ heldBeyond log rootId view := hbeyond ▸ List.mem_cons_self
        cases holder : view.hasOlder with
        | true =>
          rw [hstretch.keptOldest holder, holdest] at ho
          cases ho
        | false =>
          cases hnewer : view.hasNewer with
          | true =>
            rw [hstretch.keptNewest hnewer, hnewest] at hn
            cases hn
          | false =>
            obtain ⟨o', ho', hle⟩ := hstretch.toOldest holder row hrow
            obtain ⟨n', hn', hle'⟩ := hstretch.toNewest hnewer row hrow
            rw [Option.mem_unique ho ho', Option.mem_unique hn hn']
            exact hle.trans hle'
    · obtain ⟨o', ho', hle'⟩ := hstretch.oldest oldest holdest
      obtain ⟨n', hn', hle''⟩ := hstretch.newest newest hnewest
      rw [Option.mem_unique ho ho', Option.mem_unique hn hn']
      exact hle'.trans (hle.trans hle'')
  have hspans : ∀ id, view.Spans id → ∃ n ∈ edges.2, id ≤ n := by
    rintro id ⟨newest, hnewest, hle⟩
    obtain ⟨n, hn, hle'⟩ := hstretch.newest newest hnewest
    exact ⟨n, hn, hle.trans hle'⟩
  refine ⟨_, hview', ⟨fun h => ⟨hnull, hordered, h.pending⟩, fun hlive => ⟨hlive, hspans⟩, fun hsome => ?_, rfl⟩,
    fun hlive row hrow hlisted => ?_⟩
  · obtain ⟨oldest, holdest⟩ := Option.isSome_iff_exists.mp hsome
    obtain ⟨o, ho, -⟩ := hstretch.oldest oldest holdest
    exact Option.isSome_iff_exists.mpr ⟨o, ho⟩
  · by_cases hin : inRange view row.id = true
    · exact hspans row.id (spans_of_inRange hin)
    · refine hstretch.toNewest hlive row (List.mem_filter.mpr ⟨hrow, ?_⟩)
      rw [listed] at hlisted
      rw [hlisted, Bool.eq_false_iff.mpr hin]
      rfl

end Stoop.Channel
