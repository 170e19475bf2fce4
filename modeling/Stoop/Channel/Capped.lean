import Stoop.Channel.Shown

/-!
# The cap on what a view shows

A view holds at most `LOG_CAP` shown rows, so a log's memory stays bounded
(`web/src/core/channelLog/prune.ts`). What prunes it is a row or a page that moves its range: a row that
comes to be shown inside a range left as it was is not looked at, nor is a range that is replaced.

The inputs are those of `Input`; the rows need not be ones a server sent.

## Main results

* `pruned_capped`: pruning brings a view down to the cap.
* `views_capped`: over every run of inputs, no view shows more than `LOG_CAP` rows, as long as each input is
  one a view has room for (`HasRoom`).
* `late_row_over_cap`: a row whose event comes after those of two thousand later and earlier ones, and whose
  id lies between theirs, is shown beside them.

## How a view is left under the cap

What is shown after a step was shown before it or is a row the step brings (`length_shownRows_le`), where the
step leaves the range; where a row moves the range the view is pruned, and a range once moved does not come
back to what it was (`View.Le`).
-/

set_option autoImplicit false

namespace Stoop.Channel

open Stoop.Lib

/-! ## What an input brings a view -/

/-- The rows a merge takes that a range shows, and that it did not show before. -/
def revealed (rows : Rows) (incoming : List Message) (source : Source) (rootId : Option Nat)
    (view : View) : List Message :=
  incoming.filter fun row => takes rows source row && shownIn view rootId row &&
    !(rows.get? row.id).any (shownIn view rootId)

/-- A range has room for the rows that come to be shown inside it. -/
def RoomInside (log : ChannelLog) (incoming : List Message) (source : Source) (rootId : Option Nat) :
    Prop :=
  ∀ view ∈ viewOf log rootId, (shownRows log rootId).length +
    (revealed log.rows incoming source rootId view).length ≤ LOG_CAP

/-- A row new to the log moves the range: it lies beyond an end that it extends, or is counted there. -/
def Moves (log : ChannelLog) (incoming : List Message) (rootId : Option Nat) : Prop :=
  ∃ view ∈ viewOf log rootId, ∃ row ∈ incoming, log.rows.has row.id = false ∧ isShown row = true ∧
    belongs row rootId = true ∧ extended view row.id ≠ view

/-- What arrives moves a range, which is pruned for it, or finds room inside it. -/
def ArrivesWithin (log : ChannelLog) (incoming : List Message) (source : Source) : Prop :=
  ∀ rootId, Moves log incoming rootId ∨ RoomInside log incoming source rootId

/-- The rows an event hands to the log. -/
def brought (log : ChannelLog) : ServerEvent → List Message
  | .messageCreated row | .messageUpdated row => [row]
  | .reactionsChanged _ messageId reactions seq =>
    ((log.rows.get? messageId).map fun held => { held with reactions := reactions, seq := seq }).toList
  | .messagePinned _ messageId pinned seq =>
    ((log.rows.get? messageId).map fun held => { held with pinned := pinned, seq := seq }).toList
  | .threadChanged _ rootMessageId thread seq =>
    ((log.rows.get? rootMessageId).map fun held =>
      { held with thread := withViewerHalf thread held.thread, seq := seq }).toList
  | .messageDeleted deletion => [tombstoneOf (log.rows.get? deletion.messageId) deletion]

/-- Whether a page opened for a view reaches a row: no further than an edge the server has rows beyond. -/
def reaches (res : ListMessagesResponse) (id : Nat) : Bool :=
  (!res.hasOlder || res.messages.head?.any fun first => decide (first.id ≤ id)) &&
    (!res.hasNewer || res.messages.getLast?.any fun last => decide (id ≤ last.id))

/-- The rows held beside a page that the range it opens takes in. -/
def heldBeside (log : ChannelLog) (answer : PageAnswer) : List Message :=
  log.rows.values.filter fun row => belongs row answer.rootId && isShown row &&
    reaches answer.res row.id && !answer.res.messages.any (·.id == row.id)

/-- A range that is opened has room for the page and what is held beside it. -/
def OpensWithin (log : ChannelLog) (answer : PageAnswer) : Prop :=
  (heldBeside log answer).length + answer.res.messages.length ≤ LOG_CAP

/-- **The inputs every view has room for.** A page that no longer answers its view, and an event that is
known, bring nothing. -/
def HasRoom (log : ChannelLog) : Input → Prop
  | .event event =>
    (changeOf event).channelId = log.channelId → log.knows (changeOf event).seq = false →
      ArrivesWithin log (brought log event) fromEvent
  | .answered row => ArrivesWithin log [row] fromAnswer
  | .refreshed res => ArrivesWithin log res.messages fromPage
  | .changes res => ArrivesWithin log res.messages fromPage
  | .opened answer =>
    answer.stands log = true →
      OpensWithin log answer ∧
        ∀ rootId ≠ answer.rootId, RoomInside log answer.res.messages fromPage rootId
  | .paged _ answer =>
    (viewOf log answer.rootId).isSome = true → answer.stands log = true →
      ∀ rootId ≠ answer.rootId, RoomInside log answer.res.messages fromPage rootId
  | .patched .. | .overlaid .. | .reconnected | .threadClosed _ => True

/-- Every view shows at most as many rows as the cap. -/
def Capped (log : ChannelLog) : Prop := ∀ rootId, (shownRows log rootId).length ≤ LOG_CAP

variable {log log' : ChannelLog} {rootId rootId' : Option Nat} {view view' : View}
  {incoming : List Message} {source : Source}

/-! ## Arrivals -/

/-- A view once a row new to the log has come, if it lists the row. -/
def placedView (rootId : Option Nat) (row : Message) (view : View) : View :=
  if belongs row rootId then extended view row.id else view

theorem le_placedView (row : Message) : view.Le (placedView rootId row view) := by
  unfold placedView
  split
  · exact le_extended view row.id
  · exact .refl view

theorem viewOf_placedIn (id : Nat) : viewOf (placedIn log rootId id) rootId' =
    (viewOf log rootId').map fun view => if rootId' = rootId then extended view id else view := by
  unfold placedIn
  by_cases h : rootId' = rootId
  · subst h
    cases hview : viewOf log rootId' with
    | none => simp [hview]
    | some view => simp [viewOf_withView]
  · cases viewOf log rootId with
    | none => simp [h]
    | some view => simp [viewOf_withView, h]

theorem viewOf_placed (row : Message) :
    viewOf (placed log row) rootId = (viewOf log rootId).map (placedView rootId row) := by
  have channel : viewOf (if showsInChannel row then placedIn log none row.id else log) rootId =
      (viewOf log rootId).map fun view =>
        if rootId = none then if showsInChannel row then extended view row.id else view else view := by
    by_cases hshows : showsInChannel row = true
    · simp [hshows, viewOf_placedIn]
    · simp [hshows]
  unfold placed
  cases hroot : row.threadRootId with
  | none =>
    rw [channel]
    refine congrArg (Option.map · (viewOf log rootId)) (funext fun view => ?_)
    cases rootId with
    | none => rfl
    | some root => simp [placedView, belongs, hroot]
  | some root =>
    simp only
    rw [viewOf_placedIn, channel, Option.map_map]
    refine congrArg (Option.map · (viewOf log rootId)) (funext fun view => ?_)
    cases rootId with
    | none => rfl
    | some root' => simp [placedView, belongs, hroot, eq_comm (a := root)]

/-- Whether a row of an arrival is placed: new to the log, and shown. -/
def isPlaced (log : ChannelLog) (incoming : List Message) (source : Source) (row : Message) : Bool :=
  changed log.rows incoming source row.id && !(log.rows.has row.id || !isShown row)

theorem viewOf_arrived {rows : Rows} (next : ChannelLog × List Nat) (row : Message) :
    viewOf (arrived log rows incoming source next row).1 rootId =
      (viewOf next.1 rootId).map fun view =>
        if isPlaced log incoming source row then placedView rootId row view else view := by
  have sameRows : ∀ (l : ChannelLog) (rows : Rows), viewOf { l with rows := rows } rootId = viewOf l rootId :=
    fun _ _ => by cases rootId <;> rfl
  have blanked : viewOf (if (rows.get? row.id).any (·.deleted) then
      { next.1 with rows := withQuotesBlanked next.1.rows row.id } else next.1) rootId =
        viewOf next.1 rootId := by
    split
    · exact sameRows _ _
    · rfl
  unfold arrived isPlaced
  by_cases hchanged : changed log.rows incoming source row.id = true
  · rw [if_pos hchanged, hchanged, Bool.true_and]
    simp only
    by_cases hheld : (log.rows.has row.id || !isShown row) = true
    · rw [if_pos hheld, hheld, blanked]
      simp
    · rw [if_neg hheld, Bool.eq_false_iff.mpr hheld, viewOf_placed, blanked]
      simp
  · rw [if_neg hchanged, Bool.eq_false_iff.mpr hchanged]
    simp

/-- The threads whose view a row was placed in are among those to prune. -/
theorem arrived_roots {rows : Rows} {next : ChannelLog × List Nat} {row : Message} {root : Nat}
    (h : root ∈ next.2 ∨ isPlaced log incoming source row = true ∧ row.threadRootId = some root) :
    root ∈ (arrived log rows incoming source next row).2 := by
  unfold arrived
  by_cases hchanged : changed log.rows incoming source row.id = true
  · rw [if_pos hchanged]
    simp only
    by_cases hheld : (log.rows.has row.id || !isShown row) = true
    · rw [if_pos hheld]
      refine h.resolve_right ?_
      rintro ⟨hplaced, -⟩
      rw [isPlaced, hheld, Bool.not_true, Bool.and_false] at hplaced
      cases hplaced
    · rw [if_neg hheld]
      rcases h with h | ⟨-, h⟩
      · exact List.mem_append_left _ h
      · exact List.mem_append_right _ (Option.mem_toList.mpr h)
  · rw [if_neg hchanged]
    refine h.resolve_right ?_
    rintro ⟨hplaced, -⟩
    rw [isPlaced, Bool.eq_false_iff.mpr hchanged, Bool.false_and] at hplaced
    cases hplaced

/-- Once the rows of an arrival were gone through: a view goes no less far, and where it is as it was no row
that was placed moves it. -/
theorem viewOf_foldl_arrived (rows : Rows) (rest : List Message) (next : ChannelLog × List Nat) :
    ∃ f : View → View,
      viewOf (rest.foldl (arrived log rows incoming source) next).1 rootId = (viewOf next.1 rootId).map f ∧
        ∀ view, view.Le (f view) ∧ (f view = view → ∀ row ∈ rest,
          isPlaced log incoming source row = true → placedView rootId row view = view) := by
  induction rest generalizing next with
  | nil =>
    refine ⟨id, (Option.map_id_apply).symm, fun view => ⟨.refl view, ?_⟩⟩
    exact fun _ row hrow => absurd hrow List.not_mem_nil
  | cons row rest ih =>
    obtain ⟨f, hview, hf⟩ := ih (arrived log rows incoming source next row)
    refine ⟨fun view => f (if isPlaced log incoming source row then placedView rootId row view else view), ?_, ?_⟩
    · rw [List.foldl_cons, hview, viewOf_arrived, Option.map_map]
      rfl
    · intro view
      have first : view.Le (if isPlaced log incoming source row then placedView rootId row view else view) := by
        split
        · exact le_placedView row
        · exact .refl view
      refine ⟨first.trans (hf _).1, fun (hsame : f (if _ then _ else _) = view) => ?_⟩
      -- a view that comes back to what it was was never elsewhere
      have back := (hf (if isPlaced log incoming source row then placedView rootId row view else view)).1
      rw [hsame] at back
      have still := first.antisymm back
      rw [← still] at hsame
      intro other hother hplaced
      rcases List.mem_cons.mp hother with rfl | hrest
      · rw [if_pos hplaced] at still
        exact still.symm
      · exact (hf view).2 hsame other hrest hplaced

/-- A thread's view that is not among those to prune is as it was. -/
theorem viewOf_foldl_arrived_thread (rows : Rows) (rest : List Message) (next : ChannelLog × List Nat)
    {root : Nat} : root ∉ (rest.foldl (arrived log rows incoming source) next).2 →
      root ∉ next.2 ∧
        viewOf (rest.foldl (arrived log rows incoming source) next).1 (some root) = viewOf next.1 (some root) := by
  induction rest generalizing next with
  | nil => exact fun h => ⟨h, rfl⟩
  | cons row rest ih =>
    intro h
    obtain ⟨hroot, hview⟩ := ih _ h
    refine ⟨fun hmem => hroot (arrived_roots (.inl hmem)), ?_⟩
    rw [List.foldl_cons, hview, viewOf_arrived]
    refine (Option.map_congr fun view _ => ?_).trans Option.map_id_apply
    by_cases hplaced : isPlaced log incoming source row = true
    · rw [if_pos hplaced, placedView, if_neg]
      · rfl
      · intro hbelongs
        exact hroot (arrived_roots (.inr ⟨hplaced, eq_of_beq hbelongs⟩))
    · rw [if_neg hplaced]
      rfl

/-- What a range shows of rows merged: rows it showed, and rows that come to be shown. -/
theorem shown_of_merged (hview : viewOf log rootId = some view) {id : Nat} {row : Message}
    (hrow : (mergeRows log.rows incoming source).get? id = some row) (hshown : shownIn view rootId row = true) :
    id ∈ (shownRows log rootId).map (·.id) ++ (revealed log.rows incoming source rootId view).map (·.id) := by
  rcases mergeRows_cases hrow with ⟨hheld, -⟩ | ⟨copy, hcopy, htakes, rfl, rfl⟩
  · rw [← Keyed.key_of_get? hheld]
    exact List.mem_append_left _ (List.mem_map_of_mem
      ((mem_shownRows hview).mpr ⟨mem_values_of_get? hheld, hshown⟩))
  · rw [shownIn_of_versioned (taken_versioned log.rows source copy)] at hshown
    by_cases hbefore : (log.rows.get? copy.id).any (shownIn view rootId) = true
    · obtain ⟨held, hheld, hshown⟩ := (Option.any_eq_true _ _).mp hbefore
      rw [← Keyed.key_of_get? hheld]
      exact List.mem_append_left _ (List.mem_map_of_mem
        ((mem_shownRows hview).mpr ⟨mem_values_of_get? hheld, hshown⟩))
    · refine List.mem_append_right _ (List.mem_map_of_mem (List.mem_filter.mpr ⟨hcopy, ?_⟩))
      rw [htakes, hshown, Bool.eq_false_iff.mpr hbefore]
      rfl

/-- A range left as it was, over rows that were merged, shows no more than it has room for. -/
theorem capped_inside (hroom : RoomInside log incoming source rootId)
    (hrows : Thins (mergeRows log.rows incoming source) log'.rows)
    (hview : ∀ view ∈ viewOf log' rootId, viewOf log rootId = some view) :
    (shownRows log' rootId).length ≤ LOG_CAP := by
  cases hlog : viewOf log' rootId with
  | none =>
    have unseen : (shownRows log' rootId).length ≤ ([] : List Nat).length :=
      length_shownRows_le fun view hv => by rw [hlog] at hv; cases hv
    exact unseen.trans (Nat.zero_le _)
  | some view =>
    have before := hview view hlog
    have counted : (shownRows log' rootId).length ≤ ((shownRows log rootId).map (·.id) ++
        (revealed log.rows incoming source rootId view).map (·.id)).length := by
      refine length_shownRows_le fun view' hview' row hrow hshown => ?_
      obtain rfl := Option.some.inj (hlog.symm.trans hview')
      obtain ⟨merged, hmerged, heq⟩ := hrows row.id row (Keyed.mem_values.mp hrow)
      rw [shownIn_of_versioned heq] at hshown
      exact shown_of_merged before hmerged hshown
    rw [List.length_append, List.length_map, List.length_map] at counted
    exact counted.trans (hroom view before)

theorem thins_prunedIfGrown (next : ChannelLog) : Thins next.rows (prunedIfGrown log next rootId).rows := by
  unfold prunedIfGrown
  split
  · exact .refl _
  · exact thins_pruned _

theorem viewOf_prunedIfGrown (h : rootId' ≠ rootId) (next : ChannelLog) :
    viewOf (prunedIfGrown log next rootId) rootId' = viewOf next rootId' := by
  unfold prunedIfGrown
  split
  · rfl
  · exact viewOf_pruned h _

/-- Pruning a view that has grown leaves each view that is under the cap there. -/
theorem prunedIfGrown_capped {next : ChannelLog} (h : (shownRows next rootId').length ≤ LOG_CAP) :
    (shownRows (prunedIfGrown log next rootId) rootId').length ≤ LOG_CAP := by
  unfold prunedIfGrown
  split
  · exact h
  · rcases eq_or_ne rootId' rootId with rfl | hne
    · exact pruned_capped _ _ _
    · exact (length_shownRows_pruned hne _).trans h

theorem prunedIfGrown_of_grown {next : ChannelLog} (h : viewOf next rootId ≠ viewOf log rootId) :
    (shownRows (prunedIfGrown log next rootId) rootId).length ≤ LOG_CAP := by
  rw [prunedIfGrown, if_neg h]
  exact pruned_capped _ _ _

/-- The threads pruned one after the other: a view is under the cap afterwards if it was before, or has
grown and is one of them. -/
theorem foldl_prunedIfGrown_capped (roots : List Nat) (next : ChannelLog)
    (h : (shownRows next rootId).length ≤ LOG_CAP ∨
      viewOf next rootId ≠ viewOf log rootId ∧ ∃ root ∈ roots, rootId = some root) :
    (shownRows (roots.foldl (fun next root => prunedIfGrown log next (some root)) next) rootId).length ≤
      LOG_CAP := by
  induction roots generalizing next with
  | nil => exact h.resolve_right fun ⟨_, _, hroot, _⟩ => nomatch hroot
  | cons root roots ih =>
    refine ih _ ?_
    rcases h with h | ⟨hgrown, root', hroot, rfl⟩
    · exact .inl (prunedIfGrown_capped h)
    · rcases eq_or_ne root' root with rfl | hne
      · exact .inl (prunedIfGrown_of_grown hgrown)
      · have hne' : some root' ≠ some root := fun h => hne (Option.some.inj h)
        refine .inr ⟨?_, root', (List.mem_cons.mp hroot).resolve_left hne, rfl⟩
        rw [viewOf_prunedIfGrown hne']
        exact hgrown

theorem thins_foldl_arrived (rows : Rows) (rest : List Message) (next : ChannelLog × List Nat) :
    Thins next.1.rows (rest.foldl (arrived log rows incoming source) next).1.rows := by
  induction rest generalizing next with
  | nil => exact .refl _
  | cons row rest ih => exact (reshapes_arrived next row).rows.trans (ih _)

/-- **An arrival every view has room for leaves each under the cap.** -/
theorem withArrivals_capped (inv : Capped log) (harrives : ArrivesWithin log incoming source) :
    Capped (withArrivals log incoming source) := by
  intro rootId
  unfold withArrivals
  split
  next hany =>
    let placed := incoming.foldl (arrived log (mergeRows log.rows incoming source) incoming source)
      ({ log with rows := mergeRows log.rows incoming source }, [])
    have start : viewOf { log with rows := mergeRows log.rows incoming source } rootId = viewOf log rootId := by
      cases rootId <;> rfl
    obtain ⟨f, hview, hf⟩ := @viewOf_foldl_arrived log rootId incoming source
      (mergeRows log.rows incoming source) incoming ({ log with rows := mergeRows log.rows incoming source }, [])
    rw [start] at hview
    refine foldl_prunedIfGrown_capped placed.2 (prunedIfGrown log placed.1 none) ?_
    by_cases hsame : viewOf placed.1 rootId = viewOf log rootId
    · -- the range is as it was: no row moved it, and what came has room inside it
      have still : ¬Moves log incoming rootId := by
        rintro ⟨view, hv, row, hrow, hnew, hshown, hbelongs, hmoves⟩
        rw [hview, Option.mem_def.mp hv, Option.map_some, Option.some.injEq] at hsame
        have taken : takes log.rows source row = true := by
          rw [Keyed.has, Option.isSome_eq_false_iff, Option.isNone_iff_eq_none] at hnew
          rw [takes, hnew]
        have placed : isPlaced log incoming source row = true := by
          rw [isPlaced, changed_iff.mpr ⟨row, hrow, rfl, taken⟩, hnew, hshown]
          rfl
        have unmoved := (hf view).2 hsame row hrow placed
        rw [placedView, if_pos hbelongs] at unmoved
        exact hmoves unmoved
      have inside : (shownRows placed.1 rootId).length ≤ LOG_CAP :=
        capped_inside ((harrives rootId).resolve_left still) (thins_foldl_arrived _ _ _)
          fun view hv => by rwa [hsame] at hv
      exact .inl (prunedIfGrown_capped inside)
    · cases rootId with
      | none => exact .inl (prunedIfGrown_of_grown hsame)
      | some root =>
        refine .inr ⟨?_, root, ?_, rfl⟩
        · rw [viewOf_prunedIfGrown (Option.some_ne_none root)]
          exact hsame
        · by_contra hroot
          exact hsame ((viewOf_foldl_arrived_thread _ incoming _ hroot).2.trans start)
  next => exact inv rootId

/-! ## The other inputs -/

theorem viewOf_withFloor {floorId : Option Nat} (hview : viewOf (withFloor log floorId) rootId = some view) :
    viewOf log rootId = some view := by
  have floors := floors_withFloor log floorId
  cases rootId with
  | none => exact (congrArg some floors.channel).symm.trans hview
  | some root =>
    rcases floors.thread root with hsame | ⟨hgone, -⟩
    · exact hsame.symm.trans hview
    · rw [hgone] at hview
      cases hview

theorem withFloor_capped (inv : Capped log) (floorId : Option Nat) : Capped (withFloor log floorId) :=
  fun rootId => (length_shownRows_thins (floors_withFloor log floorId).thins
    fun _ hview => viewOf_withFloor hview).trans (inv rootId)

/-- What a log shows is its rows' and its views' alone. -/
theorem Capped.of_same (inv : Capped log) (hrows : Thins log.rows log'.rows)
    (hviews : ∀ rootId view, viewOf log' rootId = some view → viewOf log rootId = some view) : Capped log' :=
  fun rootId => (length_shownRows_thins hrows fun view hview => hviews rootId view hview).trans (inv rootId)

/-- An event's change is the arrival of what it brings. -/
theorem apply_changeOf (log : ChannelLog) (event : ServerEvent) :
    (changeOf event).apply log = withArrivals log (brought log event) fromEvent := by
  have nothing : withArrivals log [] fromEvent = log := rfl
  cases event with
  | messageCreated row => rfl
  | messageUpdated row => rfl
  | messageDeleted deletion => rfl
  | reactionsChanged channelId messageId reactions seq =>
    simp only [changeOf, patched, brought]
    cases log.rows.get? messageId with
    | none => exact nothing.symm
    | some held => rfl
  | messagePinned channelId messageId pinned seq =>
    simp only [changeOf, patched, brought]
    cases log.rows.get? messageId with
    | none => exact nothing.symm
    | some held => rfl
  | threadChanged channelId rootMessageId thread seq =>
    simp only [changeOf, patched, brought]
    cases log.rows.get? rootMessageId with
    | none => exact nothing.symm
    | some held => rfl

theorem withEvent_capped (inv : Capped log) {event : ServerEvent} (h : HasRoom log (.event event)) :
    Capped (withEvent log event) := by
  unfold withEvent
  simp only
  split
  next => exact inv
  next hchannel =>
    have here : (changeOf event).channelId = log.channelId := by simpa using hchannel
    split
    next => exact inv
    next hknown =>
      have applied : Capped ((changeOf event).apply log) := by
        rw [apply_changeOf]
        exact withArrivals_capped inv (h here (Bool.eq_false_iff.mpr hknown))
      have moved : ∀ log' : ChannelLog, log'.rows = ((changeOf event).apply log).rows →
          log'.channel = ((changeOf event).apply log).channel →
            log'.threads = ((changeOf event).apply log).threads → Capped log' := by
        intro log' hrows hchannel hthreads
        refine applied.of_same (hrows ▸ .refl _) fun rootId view hview => ?_
        cases rootId with
        | none => rwa [viewOf, ← hchannel]
        | some root => rwa [viewOf, ← hthreads]
      split
      · exact moved _ rfl rfl rfl
      · split <;> exact moved _ rfl rfl rfl

/-- A view's edges after a stretch: one that the server has rows beyond is where it was. -/
theorem viewOf_stretched (hview : viewOf (stretched log rootId) rootId = some view) :
    ∃ before, viewOf log rootId = some before ∧
      (before.hasOlder = true → view.oldestId = before.oldestId) ∧
      (before.hasNewer = true → view.newestId = before.newestId) := by
  unfold stretched at hview
  split at hview
  next hnone =>
    rw [hnone] at hview
    cases hview
  next before hbefore =>
    refine ⟨before, hbefore, ?_⟩
    split at hview
    next =>
      obtain rfl := Option.some.inj (hbefore.symm.trans hview)
      exact ⟨fun _ => rfl, fun _ => rfl⟩
    next =>
      rw [viewOf_withView, if_pos rfl] at hview
      obtain rfl := Option.some.inj hview
      constructor
      · intro holder
        refine List.foldlRecOn (motive := fun edges : Option Nat × Option Nat => edges.1 = before.oldestId)
          _ _ rfl fun edges hedges row _ => ?_
        simp [holder, hedges]
      · intro hnewer
        refine List.foldlRecOn (motive := fun edges : Option Nat × Option Nat => edges.2 = before.newestId)
          _ _ rfl fun edges hedges row _ => ?_
        simp [hnewer, hedges]

theorem viewOf_stretched_ne (h : rootId' ≠ rootId) :
    viewOf (stretched log rootId) rootId' = viewOf log rootId' := by
  unfold stretched
  split
  · rfl
  · split
    · rfl
    · rw [viewOf_withView, if_neg h]

theorem rows_stretched_thins : Thins log.rows (stretched log rootId).rows :=
  (reshapes_stretched log rootId).rows

/-- What a page opened for a view shows there is the page's or was held beside it. -/
theorem opened_within {answer : PageAnswer} (hroom : OpensWithin log answer) {next : ChannelLog}
    (hrows : Thins (mergeRows log.rows answer.res.messages fromPage) next.rows)
    (hview : ∀ view ∈ viewOf next answer.rootId,
      (answer.res.hasOlder = true → view.oldestId = answer.res.messages.head?.map (·.id)) ∧
        (answer.res.hasNewer = true → view.newestId = answer.res.messages.getLast?.map (·.id))) :
    (shownRows next answer.rootId).length ≤ LOG_CAP := by
  have counted : (shownRows next answer.rootId).length ≤
      ((heldBeside log answer).map (·.id) ++ answer.res.messages.map (·.id)).length := by
    refine length_shownRows_le fun view hv row hrow hshown => ?_
    obtain ⟨merged, hmerged, heq⟩ := hrows row.id row (Keyed.mem_values.mp hrow)
    rw [shownIn_of_versioned heq] at hshown
    rcases mergeRows_cases hmerged with ⟨hheld, -⟩ | ⟨copy, hcopy, -, hid, -⟩
    · by_cases hpage : ∃ copy ∈ answer.res.messages, copy.id = row.id
      · obtain ⟨copy, hcopy, hid⟩ := hpage
        exact List.mem_append_right _ (List.mem_map.mpr ⟨copy, hcopy, hid⟩)
      · refine List.mem_append_left _ (List.mem_map.mpr
          ⟨merged, List.mem_filter.mpr ⟨mem_values_of_get? hheld, ?_⟩, Keyed.key_of_get? hheld⟩)
        rw [Keyed.key_of_get? hmerged]
        simp only [shownIn, Bool.and_eq_true] at hshown
        obtain ⟨⟨hbelongs, hinside⟩, hshows⟩ := hshown
        rw [Keyed.key_of_get? hmerged] at hinside
        obtain ⟨⟨oldest, holdest, hge⟩, newest, hnewest, hle⟩ := inRange_iff.mp hinside
        have away : answer.res.messages.any (·.id == row.id) = false := by
          rw [List.any_eq_false]
          exact fun copy hcopy hid => hpage ⟨copy, hcopy, eq_of_beq hid⟩
        have reached : reaches answer.res row.id = true := by
          simp only [reaches, Bool.and_eq_true, Bool.or_eq_true, Bool.not_eq_true', Option.any_eq_true,
            decide_eq_true_eq]
          constructor
          · rcases Bool.eq_false_or_eq_true answer.res.hasOlder with holder | holder
            · rw [(hview view hv).1 holder] at holdest
              obtain ⟨first, hfirst, rfl⟩ := Option.map_eq_some_iff.mp holdest
              exact .inr ⟨first, hfirst, hge⟩
            · exact .inl holder
          · rcases Bool.eq_false_or_eq_true answer.res.hasNewer with hnewer | hnewer
            · rw [(hview view hv).2 hnewer] at hnewest
              obtain ⟨last, hlast, rfl⟩ := Option.map_eq_some_iff.mp hnewest
              exact .inr ⟨last, hlast, hle⟩
            · exact .inl hnewer
        rw [hbelongs, hshows, reached, away]
        rfl
    · exact List.mem_append_right _ (List.mem_map.mpr ⟨copy, hcopy, hid⟩)
  rw [List.length_append, List.length_map, List.length_map] at counted
  exact counted.trans hroom

theorem viewOf_positioned (seq : Nat) : viewOf (positioned log seq) rootId = viewOf log rootId := by
  cases rootId <;> rfl

theorem viewOf_withRows (rows : Rows) : viewOf { log with rows := rows } rootId = viewOf log rootId := by
  cases rootId <;> rfl

theorem opened_capped (inv : Capped log) {answer : PageAnswer} (h : HasRoom log (.opened answer)) :
    Capped (opened log answer) := by
  by_cases hstands : answer.stands log = true
  · obtain ⟨within, others⟩ := h hstands
    have hgen : ((viewOf log answer.rootId).getD emptyView).generation = answer.generation :=
      eq_of_beq hstands
    simp only [opened, hgen, bne_self_eq_false, Bool.false_eq_true, if_false]
    generalize hnext : (if hasPage log then
      { log with rows := mergeRows log.rows answer.res.messages fromPage } else
        positioned { log with rows := mergeRows log.rows answer.res.messages fromPage }
          answer.res.channelSeq) = next
    have views : ∀ rootId, viewOf next rootId = viewOf log rootId := by
      intro rootId
      rw [← hnext]
      split
      · exact viewOf_withRows _
      · exact (viewOf_positioned _).trans (viewOf_withRows _)
    have merged : next.rows = mergeRows log.rows answer.res.messages fromPage := by
      rw [← hnext]
      split <;> rfl
    generalize hreplaced : View.mk _ _ _ _ _ _ = replaced
    have thins : Thins (mergeRows log.rows answer.res.messages fromPage) (stretched
        (withFloor (withView next answer.rootId replaced) answer.res.retentionFloorId) answer.rootId).rows := by
      refine Thins.trans ?_ rows_stretched_thins
      refine Thins.trans ?_ (floors_withFloor _ _).thins
      rw [rows_withView, merged]
      exact .refl _
    intro rootId
    rcases eq_or_ne rootId answer.rootId with rfl | hne
    · refine opened_within within thins fun view hview => ?_
      obtain ⟨before, hbefore, holder, hnewer⟩ := viewOf_stretched hview
      have replaces := viewOf_withFloor hbefore
      rw [viewOf_withView, if_pos rfl] at replaces
      obtain rfl := Option.some.inj replaces
      rw [← hreplaced] at holder hnewer
      exact ⟨holder, hnewer⟩
    · refine capped_inside (others rootId hne) thins fun view hview => ?_
      rw [Option.mem_def, viewOf_stretched_ne hne] at hview
      have left := viewOf_withFloor hview
      rwa [viewOf_withView, if_neg hne, views] at left
  · rw [opened_stale fun hgen => hstands (beq_iff_eq.mpr hgen)]
    exact inv

theorem paged_capped (inv : Capped log) {direction : Direction} {answer : PageAnswer}
    (h : HasRoom log (.paged direction answer)) : Capped (paged log direction answer) := by
  unfold paged
  split
  next => exact inv
  next view hview =>
    split
    next => exact inv
    next hgen =>
      have stands : answer.stands log = true := by
        rw [PageAnswer.stands, hview, Option.getD_some]
        exact Bool.not_eq_false _ |>.mp fun h => hgen (by rw [bne, h]; rfl)
      have others := h (by rw [hview, Option.isSome_some]) stands
      intro rootId
      rcases eq_or_ne rootId answer.rootId with rfl | hne
      · exact pruned_capped _ _ _
      · refine (length_shownRows_pruned hne _).trans (capped_inside (others rootId hne) ?_ fun view hv => ?_)
        · refine Thins.trans ?_ rows_stretched_thins
          refine Thins.trans ?_ (floors_withFloor _ _).thins
          rw [rows_withView]
          exact .refl _
        · rw [Option.mem_def, viewOf_stretched_ne hne] at hv
          have left := viewOf_withFloor hv
          rwa [viewOf_withView, if_neg hne, viewOf_withRows] at left

/-- A held row changed to one that shows no more shows no more. -/
theorem Capped.set (inv : Capped log) {held row : Message} (hheld : log.rows.get? row.id = some held)
    (h : ∀ rootId view, shownIn view rootId row = true → shownIn view rootId held = true) :
    Capped { log with rows := log.rows.set row } := by
  intro rootId
  refine le_trans ?_ (inv rootId)
  rw [show (shownRows log rootId).length = ((shownRows log rootId).map (·.id)).length from
    (List.length_map _).symm]
  refine length_shownRows_le fun view hview other hother hshown => ?_
  rw [viewOf_withRows, Option.mem_def] at hview
  rcases Keyed.get?_set_cases (Keyed.mem_values.mp hother) with ⟨-, rfl⟩ | ⟨-, hkept⟩
  · rw [← Keyed.key_of_get? hheld]
    exact List.mem_map_of_mem ((mem_shownRows hview).mpr
      ⟨mem_values_of_get? hheld, h rootId view hshown⟩)
  · exact List.mem_map_of_mem ((mem_shownRows hview).mpr ⟨mem_values_of_get? hkept, hshown⟩)

/-- What the reader changes in a row does not bring it to be shown. -/
theorem shownIn_of_change (change : OwnChange) {held : Message}
    (h : shownIn view rootId { change.change held with id := held.id, seq := held.seq } = true) :
    shownIn view rootId held = true := by
  cases change with
  | reacted standing reactions | pinned standing pinned =>
    simp only [OwnChange.change] at h
    split at h <;> exact h
  | removed =>
    simp only [shownIn, OwnChange.change, isShown, Bool.and_eq_true, Bool.not_true, Bool.false_or] at h ⊢
    exact ⟨h.1, (Bool.or_eq_true _ _).mpr (.inr h.2)⟩
  | threadRemoved =>
    simp [shownIn, OwnChange.change, isShown] at h
  | deleted =>
    simp only [OwnChange.change] at h
    split at h
    next => exact h
    next hlive =>
      simp only [shownIn, isShown, Bool.and_eq_true] at h ⊢
      refine ⟨h.1, ?_⟩
      simp only [Bool.or_eq_true, not_or, Bool.not_eq_true] at hlive
      rw [hlive.1]
      rfl

theorem withPatch_capped (inv : Capped log) (id : Nat) (change : OwnChange) :
    Capped (withPatch log id change.change) := by
  unfold withPatch
  cases hheld : log.rows.get? id with
  | none => exact inv
  | some held =>
    obtain rfl := Keyed.key_of_get? hheld
    exact inv.set hheld fun _ _ h => shownIn_of_change change h

theorem withThreadOverlay_capped (inv : Capped log) (rootId : Nat) (patch : ThreadOverlay) :
    Capped (withThreadOverlay log rootId patch) := by
  unfold withThreadOverlay
  cases hheld : log.rows.get? rootId with
  | none => exact inv
  | some held =>
    obtain rfl := Keyed.key_of_get? hheld
    simp only
    split
    next => exact inv
    next thread hthread =>
      refine @Capped.set log inv held { held with thread := _ } hheld fun _ _ h => ?_
      simp only [shownIn, isShown, hthread] at h ⊢
      exact h

theorem closedThread_capped (inv : Capped log) (rootId : Nat) : Capped (closedThread log rootId) := by
  unfold closedThread
  split
  next =>
    refine inv.of_same (thins_withoutRows _ _) fun rootId' view hview => ?_
    cases rootId' with
    | none => exact hview
    | some root =>
      obtain ⟨thread, hthread, rfl⟩ := Option.map_eq_some_iff.mp hview
      rw [withoutView, Keyed.get?_filter_ne] at hthread
      split at hthread
      · cases hthread
      · rw [viewOf, hthread, Option.map_some]
  next => exact inv

/-- **The step lemma.** -/
theorem Capped.hand (inv : Capped log) {input : Input} (h : HasRoom log input) :
    Capped (log.hand input) := by
  cases input with
  | event event => exact withEvent_capped inv h
  | opened answer => exact opened_capped inv h
  | paged direction answer => exact paged_capped inv h
  | refreshed res => exact withFloor_capped (withArrivals_capped inv h) _
  | changes res =>
    simp only [ChannelLog.hand, caughtUp]
    have floored := withFloor_capped (withArrivals_capped inv h) res.retentionFloorId
    split
    · exact floored
    · exact floored.of_same (.refl _) fun rootId view hview => by rwa [viewOf_positioned] at hview
  | answered row => exact withArrivals_capped inv h
  | patched id change => exact withPatch_capped inv id change
  | overlaid rootId patch => exact withThreadOverlay_capped inv rootId patch
  | reconnected => exact inv.of_same (.refl _) fun rootId _ hview => by cases rootId <;> exact hview
  | threadClosed rootId => exact closedThread_capped inv rootId

theorem emptyLog_capped (channelId : String) : Capped (emptyLog channelId) :=
  fun _ => Nat.zero_le _

/-- **No view shows more than the cap**, in a run whose inputs every view has room for. -/
theorem views_capped {channelId : String} {log : ChannelLog}
    (h : Runs hand HasRoom (emptyLog channelId) log) (rootId : Option Nat) :
    (shownRows log rootId).length ≤ LOG_CAP := by
  refine @Runs.keeps _ _ _ _ _ _ (fun log : ChannelLog => Capped log) (emptyLog_capped channelId) ?_ h rootId
  intro log input log' inv hinput hstep
  obtain rfl := Option.some.inj hstep
  exact inv.hand hinput

/-! ## A row that comes late -/

/-- The rows of a channel as they were written, each after the last. -/
def written (k : Nat) : Message := { id := 2 * k + 2, channelId := "general", seq := k + 1 }

/-- A row made after the first, whose event comes after those of that many. -/
def late (k : Nat) : Message := { id := 3, channelId := "general", seq := k + 1 }

/-- The page of a channel nobody has written in. -/
def blankPage : PageAnswer :=
  { rootId := none, generation := 0
    res := { messages := [], hasOlder := false, hasNewer := false, channelSeq := 0
             retentionFloorId := none } }

/-- The rows written first. -/
def writtenRows (k : Nat) : Rows := Keyed.empty.setAll ((List.range k).map written)

/-- The log once that many rows have come. -/
def liveLog (k : Nat) : ChannelLog :=
  { emptyLog "general" with
    seq := k, seenSeq := k, rows := writtenRows k
    channel :=
      { oldestId := if k = 0 then none else some 2, newestId := if k = 0 then none else some (2 * k)
        hasOlder := false, hasNewer := false, pendingNewer := 0, generation := 1 } }

theorem writtenRows_succ (k : Nat) : writtenRows (k + 1) = (writtenRows k).set (written k) := by
  rw [writtenRows, writtenRows, List.range_succ, List.map_append, Keyed.setAll, List.foldl_append]
  rfl

theorem get?_writtenRows (k id : Nat) (h : ∀ i < k, id ≠ 2 * i + 2) : (writtenRows k).get? id = none := by
  rw [writtenRows, Keyed.get?_setAll, List.find?_eq_none.mpr]
  · rfl
  · intro row hrow hid
    obtain ⟨i, hi, rfl⟩ := List.mem_map.mp (List.mem_reverse.mp hrow)
    exact h i (List.mem_range.mp hi) (eq_of_beq hid).symm

theorem values_writtenRows (k : Nat) : (writtenRows k).values = (List.range k).map written := by
  induction k with
  | zero => rfl
  | succ k ih =>
    rw [writtenRows_succ, Keyed.values_set_new, ih, List.range_succ, List.map_append]
    · rfl
    · exact get?_writtenRows k _ fun i hi heq => by
        simp only [written] at heq
        omega

/-- A row of the channel that is new to its log is placed in its view, which is pruned. -/
theorem withArrivals_new {row : Message} (hnew : log.rows.get? row.id = none) (hlive : row.deleted = false)
    (hroot : row.threadRootId = none) : withArrivals log [row] fromEvent =
      prunedIfGrown log { log with rows := log.rows.set row, channel := extended log.channel row.id } none := by
  have takes : takes log.rows fromEvent row = true := by rw [takes, hnew]
  have kept : taken log.rows fromEvent row = row := by rw [taken, hnew]
  have placedRow : arrived log (log.rows.set row) [row] fromEvent ({ log with rows := log.rows.set row }, []) row =
      ({ log with rows := log.rows.set row, channel := extended log.channel row.id }, []) := by
    simp [arrived, changed, takes, hlive, hroot, hnew, Keyed.has, isShown, placed, placedIn, viewOf,
      withView, showsInChannel]
  rw [withArrivals, if_pos (by rw [List.any_cons, takes, Bool.true_or])]
  simp only [mergeRows, List.foldl_cons, List.foldl_nil, takes, if_true, kept, placedRow]

/-- An event that is the next is covered. -/
theorem withEvent_next {row : Message} (hchannel : row.channelId = log.channelId)
    (hpage : hasPage log = true) (hseq : row.seq = log.seq + 1) :
    withEvent log (.messageCreated row) =
      { withArrivals log [row] fromEvent with seq := log.seq + 1, seenSeq := max (log.seq + 1) log.seenSeq } := by
  have unknown : log.knows (log.seq + 1) = false := by
    rw [ChannelLog.knows]
    simp
  have seen : (withArrivals log [row] fromEvent).seenSeq = log.seenSeq :=
    (reshapes_withArrivals log [row] fromEvent).seenSeq
  simp [withEvent, changeOf, hchannel, unknown, hpage, hseq, seen]

/-- A view that is as it was is not pruned. -/
theorem prunedIfGrown_withRows (log : ChannelLog) (rows : Rows) :
    prunedIfGrown log { log with rows := rows } none = { log with rows := rows } := by
  rw [prunedIfGrown, if_pos (viewOf_withRows rows)]

/-- A view with room for all the rows there are is not pruned. -/
theorem prunedIfGrown_of_few {next : ChannelLog} (h : next.rows.values.length ≤ LOG_CAP) :
    prunedIfGrown log next none = next := by
  have few : (shownRows next none).length ≤ LOG_CAP := (List.length_filter_le _ _).trans h
  rw [prunedIfGrown]
  split
  · rfl
  · simp only [pruned, viewOf, if_pos few]

theorem inRange_liveLog {k id : Nat} :
    inRange (liveLog k).channel id = true ↔ 0 < k ∧ 2 ≤ id ∧ id ≤ 2 * k := by
  cases k with
  | zero => simp [inRange, liveLog]
  | succ k => simp [inRange, liveLog]

theorem hasPage_liveLog (k : Nat) : hasPage (liveLog k) = true := rfl

/-- Each row written extends the view. -/
theorem withEvent_liveLog {k : Nat} (h : k < LOG_CAP) :
    withEvent (liveLog k) (.messageCreated (written k)) = liveLog (k + 1) := by
  have new : (liveLog k).rows.get? (written k).id = none := get?_writtenRows k _ fun i hi heq => by
    simp only [written] at heq
    omega
  have view : extended (liveLog k).channel (written k).id = (liveLog (k + 1)).channel := by
    cases k with
    | zero => rfl
    | succ k =>
      have beyond : inRange (liveLog (k + 1)).channel (written (k + 1)).id = false := by
        refine Bool.eq_false_iff.mpr fun hinside => ?_
        obtain ⟨-, -, hle⟩ := inRange_liveLog.mp hinside
        simp only [written] at hle
        omega
      rw [extended, beyond]
      simp [liveLog, written]
      omega
  have few : ((liveLog k).rows.set (written k)).values.length ≤ LOG_CAP := by
    rw [Keyed.values_set_new new, show (liveLog k).rows = writtenRows k from rfl, values_writtenRows]
    simpa using Nat.succ_le_of_lt h
  rw [withEvent_next rfl (hasPage_liveLog k) rfl, withArrivals_new new rfl rfl, prunedIfGrown_of_few few, view,
    show (liveLog k).rows = writtenRows k from rfl, ← writtenRows_succ]
  simp [liveLog]

theorem opened_blankPage : opened (emptyLog "general") blankPage = liveLog 0 := rfl

theorem runs_liveLog {k : Nat} (h : k ≤ LOG_CAP) : Runs hand Always (emptyLog "general") (liveLog k) := by
  induction k with
  | zero =>
    have first : hand (emptyLog "general") (.opened blankPage) = some (liveLog 0) :=
      congrArg some opened_blankPage
    exact .tail .refl trivial first
  | succ k ih =>
    have next : hand (liveLog k) (.event (.messageCreated (written k))) = some (liveLog (k + 1)) :=
      congrArg some (withEvent_liveLog h)
    exact .tail (ih (Nat.le_of_succ_le h)) trivial next

/-- A first page and a first row. -/
def firstRow : List Input := [.opened blankPage, .event (.messageCreated (written 0))]

theorem firstRow_hasRoom : EachStep hand HasRoom (emptyLog "general") firstRow := by
  have unseen : ∀ {log : ChannelLog} {incoming : List Message} {source : Source} {rootId : Option Nat},
      log.threads = Keyed.empty → rootId ≠ none → RoomInside log incoming source rootId := by
    intro log incoming source rootId hthreads hroot view hview
    cases rootId with
    | none => exact absurd rfl hroot
    | some root =>
      rw [viewOf, hthreads] at hview
      cases hview
  refine ⟨fun _ => ⟨Nat.zero_le _, fun rootId hroot => unseen rfl hroot⟩, fun log hlog => ⟨fun _ _ rootId => ?_,
    fun _ _ => trivial⟩⟩
  obtain rfl := Option.some.inj hlog
  cases rootId with
  | none => exact .inl ⟨_, rfl, written 0, List.mem_singleton_self _, rfl, rfl, rfl, by decide⟩
  | some root => exact .inr (unseen rfl (Option.some_ne_none root))

theorem firstRow_capped : ∃ log, runList hand (emptyLog "general") firstRow = some log ∧
    (shownRows log none).map (·.id) = [2] ∧ (shownRows log none).length ≤ LOG_CAP :=
  ⟨_, rfl, by decide, views_capped (Runs.ofList firstRow firstRow_hasRoom rfl) none⟩

theorem get?_late (k : Nat) : (writtenRows k).get? (late k).id = none :=
  get?_writtenRows k _ fun i _ heq => by
    simp only [late] at heq
    omega

/-- A row whose id lies inside the range leaves the view as it was, and so unpruned. -/
theorem withEvent_late {k : Nat} (h : 1 < k) : withEvent (liveLog k) (.messageCreated (late k)) =
    { liveLog k with rows := (writtenRows k).set (late k), seq := k + 1, seenSeq := k + 1 } := by
  have inside : extended (liveLog k).channel (late k).id = (liveLog k).channel := by
    rw [extended, if_pos]
    refine inRange_liveLog.mpr ⟨Nat.zero_lt_of_lt h, ?_⟩
    simp only [late]
    omega
  rw [withEvent_next rfl (hasPage_liveLog k) rfl, withArrivals_new (get?_late k) rfl rfl, inside,
    prunedIfGrown_withRows]
  simp [liveLog]

theorem late_row_shown {k : Nat} (h : 1 < k) :
    (shownRows (withEvent (liveLog k) (.messageCreated (late k))) none).length = k + 1 := by
  rw [withEvent_late h, shownRows, Keyed.values_set_new (get?_late k), values_writtenRows,
    List.filter_eq_self.mpr]
  · simp
  · intro row hrow
    have shown : ∀ row : Message, row.threadRootId = none → row.deleted = false → 2 ≤ row.id →
        row.id ≤ 2 * k → (belongs row none && inRange (liveLog k).channel row.id && isShown row) = true := by
      intro row hroot hlive hge hle
      rw [inRange_liveLog.mpr ⟨Nat.zero_lt_of_lt h, hge, hle⟩]
      simp [belongs, showsInChannel, isShown, hroot, hlive]
    rcases List.mem_append.mp hrow with hrow | hrow
    · obtain ⟨i, hi, rfl⟩ := List.mem_map.mp hrow
      have := List.mem_range.mp hi
      exact shown _ rfl rfl (Nat.le_add_left _ _) (by simp only [written]; omega)
    · obtain rfl := List.mem_singleton.mp hrow
      exact shown _ rfl rfl (by simp only [late]; omega) (by simp only [late]; omega)

/-- **A row that comes late is shown past the cap**: its id lies inside the range, which stays as it was. -/
theorem late_row_over_cap :
    ¬ ∀ channelId log, Runs hand Always (emptyLog channelId) log →
      ∀ rootId, (shownRows log rootId).length ≤ LOG_CAP := by
  intro claim
  have next : hand (liveLog LOG_CAP) (.event (.messageCreated (late LOG_CAP))) =
      some (withEvent (liveLog LOG_CAP) (.messageCreated (late LOG_CAP))) := rfl
  have within := claim _ _ (.tail (runs_liveLog le_rfl) trivial next) none
  rw [late_row_shown (by decide)] at within
  exact absurd within (Nat.not_succ_le_self _)

end Stoop.Channel
