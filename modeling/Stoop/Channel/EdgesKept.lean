import Stoop.Channel.Edges

/-!
# A reader's log, and its view edges in every run

The rules that change a log, in any order (`web/src/core/channelLog`), beside the pages a reader has asked for
from an edge of a view and that are still out (`api/channelLog.ts`: `loadPage`). Each answer comes under the generation
it was asked under, and a thread that is closed takes its pages' answers with it.

A page's rows are merged and set the range of the view it was asked for alone. A row it brings that another, live
view lists is not placed there, as an arriving row would be: so that view's edges are right only where it has
reached the row already (`Fits`).

## Main results

* `edges_well_formed`: in every run of fitting steps, each view's edges are formed and a live view shows every row
  held of it that is newer than its oldest edge.
* `page_hides_reply`: a channel's page brings an open thread a reply that the thread's live view does not show.
-/

set_option autoImplicit false

namespace Stoop.Channel

open Stoop.Lib

/-! ## Steps -/

/-- A page out, beyond one edge of a view. -/
structure Asked where
  rootId : Option Nat
  direction : Direction
  generation : Nat
  deriving DecidableEq, Repr

structure Reader where
  log : ChannelLog
  out : List Asked

def Reader.start (channelId : String) : Reader := ⟨emptyLog channelId, []⟩

inductive Step
  | opened (answer : PageAnswer)
  | asked (rootId : Option Nat) (direction : Direction)
  | paged (page : Asked) (res : ListMessagesResponse)
  | arrived (incoming : List Message) (source : Source)
  | event (event : ServerEvent)
  | caughtUp (res : ListChangesResponse)
  | refreshed (res : ListMessagesResponse)
  | pruned (rootId : Option Nat) (drop : Drop)
  | closedThread (rootId : Nat)

/-- The edge a page is asked from. -/
def View.edge (view : View) : Direction → Option Nat
  | .older => view.oldestId
  | .newer => view.newestId

def Asked.answer (page : Asked) (res : ListMessagesResponse) : PageAnswer := ⟨page.rootId, page.generation, res⟩

def Reader.step (r : Reader) : Step → Option Reader
  | .opened answer => some { r with log := opened r.log answer }
  | .asked rootId direction =>
    match viewOf r.log rootId with
    | none => none
    | some view =>
      if (view.edge direction).isSome then some { r with out := ⟨rootId, direction, view.generation⟩ :: r.out }
      else none
  | .paged page res =>
    if page ∈ r.out then some ⟨paged r.log page.direction (page.answer res), r.out.erase page⟩ else none
  | .arrived incoming source => some { r with log := withArrivals r.log incoming source }
  | .event event => some { r with log := withEvent r.log event }
  | .caughtUp res => some { r with log := caughtUp r.log res }
  | .refreshed res => some { r with log := refreshed r.log res }
  | .pruned rootId drop => some { r with log := pruned r.log rootId drop }
  | .closedThread rootId =>
    some ⟨closedThread r.log rootId, r.out.filter fun page => page.rootId != some rootId⟩

/-! ## What a step may bring -/

/-- A page's rows are ones each other live view that lists them has reached. -/
def BesideReached (log : ChannelLog) (rootId : Option Nat) (messages : List Message) : Prop :=
  ∀ rootId' ≠ rootId, ∀ view, viewOf log rootId' = some view → view.hasNewer = false → ∀ row ∈ messages,
    takes log.rows fromPage row = true → listed row rootId' = true → view.Spans row.id

/-- A page that opens a range: its first row is no later than its last, and one without a row has rows beyond both
its ends or neither, if anything is held of the view. -/
def OpensRange (log : ChannelLog) (answer : PageAnswer) : Prop :=
  (∀ first ∈ answer.res.messages.head?, ∀ last ∈ answer.res.messages.getLast?, first.id ≤ last.id) ∧
    (answer.res.messages = [] → answer.res.hasOlder = answer.res.hasNewer ∨
      ∀ row ∈ log.rows.values, listed row answer.rootId = false)

/-- **The steps that keep every view's edges.** A page that no longer answers its view brings nothing; one that
opens a thread anew finds none of the thread's pages still out from before its view was taken. -/
def Fits (r : Reader) : Step → Prop
  | .opened answer => answer.stands r.log = true →
      OpensRange r.log answer ∧ BesideReached r.log answer.rootId answer.res.messages ∧
        (viewOf r.log answer.rootId = none → ∀ page ∈ r.out, page.rootId ≠ answer.rootId)
  | .paged page res =>
      ∀ view, viewOf r.log page.rootId = some view → view.generation = page.generation →
        BesideReached r.log page.rootId res.messages
  | .arrived incoming source => HeldReached r.log incoming source
  | .event event =>
      (changeOf event).channelId = r.log.channelId → r.log.knows (changeOf event).seq = false →
        HeldReached r.log (brought r.log event) fromEvent
  | .caughtUp res => HeldReached r.log res.messages fromPage
  | .refreshed res => HeldReached r.log res.messages fromPage
  | .asked .. | .pruned .. | .closedThread _ => True

/-- A page is out from a view that has had edges ever since. -/
def Outstanding (r : Reader) : Prop := ∀ page ∈ r.out, ∀ view, viewOf r.log page.rootId = some view →
  page.generation ≤ view.generation ∧ (page.generation = view.generation → view.oldestId.isSome = true)

variable {log : ChannelLog} {rootId : Option Nat} {view : View} {r r' : Reader}

theorem Outstanding.kept (h : Outstanding r) {log : ChannelLog} (hkept : ∀ rootId view',
      viewOf log rootId = some view' → ∃ view, viewOf r.log rootId = some view ∧ view.Keeps view')
    {out : List Asked} (hout : ∀ page ∈ out, page ∈ r.out) : Outstanding ⟨log, out⟩ := by
  intro page hpage view' hview'
  obtain ⟨view, hview, hkeeps⟩ := hkept page.rootId view' hview'
  obtain ⟨hle, hedged⟩ := h page (hout page hpage) view hview
  rw [hkeeps.generation]
  exact ⟨hle, fun hgen => hkeeps.edged (hedged hgen)⟩

/-! ## Pages -/

section Page

variable {next : ChannelLog} {replaced : View} {messages : List Message} {floorId : Option Nat}

/-- The log once a page's rows are merged and its view set. -/
def pageTaken (next : ChannelLog) (rootId : Option Nat) (replaced : View) (floorId : Option Nat) : ChannelLog :=
  stretched (withFloor (withView next rootId replaced) floorId) rootId

/-- The views after a page: the one it was for moved on, and the others as they were or gone. -/
theorem views_pageTaken (hviews : ∀ rootId, viewOf next rootId = viewOf log rootId) (hformed : replaced.Formed)
    (hedges : replaced.oldestId.isSome = true ∨ replaced.hasOlder = replaced.hasNewer ∨
      ∀ row ∈ next.rows.values, listed row rootId = false) {rootId' : Option Nat} {view' : View}
    (hview' : viewOf (pageTaken next rootId replaced floorId) rootId' = some view') :
    (rootId' = rootId ∧ replaced.Keeps view' ∧ (view'.hasNewer = false →
      ∀ row ∈ (pageTaken next rootId replaced floorId).rows.values, listed row rootId = true →
        view'.Spans row.id)) ∨
      rootId' ≠ rootId ∧ viewOf log rootId' = some view' := by
  rcases eq_or_ne rootId' rootId with rfl | hne
  · refine .inl ⟨rfl, ?_⟩
    cases hfloored : viewOf (withFloor (withView next rootId' replaced) floorId) rootId' with
    | none =>
      rw [pageTaken, stretched, hfloored] at hview'
      rw [hfloored] at hview'
      cases hview'
    | some view =>
      have hsame := viewOf_withFloor hfloored
      rw [viewOf_withView, if_pos rfl] at hsame
      obtain rfl := Option.some.inj hsame
      have hbeyond : replaced.oldestId.isSome = true ∨ replaced.hasOlder = replaced.hasNewer ∨
          heldBeyond (withFloor (withView next rootId' replaced) floorId) rootId' replaced = [] := by
        refine hedges.imp_right (Or.imp_right fun hnone => ?_)
        refine List.filter_eq_nil_iff.mpr fun row hrow => ?_
        have hheld := (floors_withFloor (withView next rootId' replaced) floorId).rows row.id row
          (Keyed.mem_values.mp hrow)
        rw [rows_withView] at hheld
        have := hnone row (Keyed.mem_values.mpr hheld)
        rw [listed] at this
        simp [this]
      obtain ⟨stretchedView, hview, hkeeps, hspans⟩ := stretched_formed hfloored hformed hbeyond
      obtain rfl := Option.some.inj (hview.symm.trans hview')
      refine ⟨hkeeps, fun hlive row hrow hlisted => ?_⟩
      obtain ⟨held, hheld, heq⟩ := rows_stretched_thins row.id row (Keyed.mem_values.mp hrow)
      rw [listed_of_versioned heq] at hlisted
      have := hspans hlive held (mem_values_of_get? hheld) hlisted
      rwa [Keyed.key_of_get? hheld] at this
  · rw [pageTaken, viewOf_stretched_ne hne] at hview'
    have hsame := viewOf_withFloor hview'
    rw [viewOf_withView, if_neg hne, hviews] at hsame
    exact .inr ⟨hne, hsame⟩

theorem thins_pageTaken : Thins next.rows (pageTaken next rootId replaced floorId).rows := by
  refine Thins.trans ?_ rows_stretched_thins
  refine Thins.trans ?_ (floors_withFloor _ _).thins
  rw [rows_withView]
  exact .refl _

/-- **A page keeps every view's edges**, where its own view's new range is formed and the other live views have
reached what it brings. -/
theorem formed_pageTaken (inv : Formed log) (hviews : ∀ rootId, viewOf next rootId = viewOf log rootId)
    (hrows : next.rows = mergeRows log.rows messages fromPage) (hformed : replaced.Formed)
    (hedges : replaced.oldestId.isSome = true ∨ replaced.hasOlder = replaced.hasNewer ∨
      ∀ row ∈ next.rows.values, listed row rootId = false)
    (hbeside : BesideReached log rootId messages) : Formed (pageTaken next rootId replaced floorId) where
  view rootId' view' hview' := by
    rcases views_pageTaken hviews hformed hedges hview' with ⟨rfl, hkeeps, -⟩ | ⟨-, hsame⟩
    · exact hkeeps.formed hformed
    · exact inv.view rootId' view' hsame
  spans rootId' view' hview' hlive := by
    rcases views_pageTaken hviews hformed hedges hview' with ⟨rfl, -, hspans⟩ | ⟨hne, hsame⟩
    · exact hspans hlive
    · exact spans_merged inv (hrows ▸ thins_pageTaken) hsame (.refl view') hlive fun row hrow htakes hlisted =>
        hbeside rootId' hne view' hsame hlive row hrow htakes hlisted

end Page

/-- The range a page opens. -/
def openedView (log : ChannelLog) (answer : PageAnswer) : View where
  oldestId := answer.res.messages.head?.map (·.id)
  newestId := answer.res.messages.getLast?.map (·.id)
  hasOlder := answer.res.hasOlder
  hasNewer := answer.res.hasNewer
  pendingNewer := 0
  generation := ((viewOf log answer.rootId).getD emptyView).generation + 1

theorem opened_eq {answer : PageAnswer} (hstands : answer.stands log = true) : ∃ next : ChannelLog,
    (∀ rootId, viewOf next rootId = viewOf log rootId) ∧
      next.rows = mergeRows log.rows answer.res.messages fromPage ∧
      opened log answer = pageTaken next answer.rootId (openedView log answer) answer.res.retentionFloorId := by
  have hgen : ((viewOf log answer.rootId).getD emptyView).generation = answer.generation := eq_of_beq hstands
  refine ⟨if hasPage log then { log with rows := mergeRows log.rows answer.res.messages fromPage } else
    positioned { log with rows := mergeRows log.rows answer.res.messages fromPage } answer.res.channelSeq,
    fun rootId => ?_, ?_, ?_⟩
  · split
    · exact viewOf_withRows _
    · exact (viewOf_positioned _).trans (viewOf_withRows _)
  · split <;> rfl
  · simp only [opened, hgen, bne_self_eq_false, Bool.false_eq_true, if_false, pageTaken, openedView]

theorem formed_openedView {answer : PageAnswer} (h : OpensRange log answer) : (openedView log answer).Formed where
  null := by
    simp only [openedView, Option.map_eq_none_iff, List.head?_eq_none_iff, List.getLast?_eq_none_iff]
  ordered oldest holdest newest hnewest := by
    obtain ⟨first, hfirst, rfl⟩ := Option.map_eq_some_iff.mp holdest
    obtain ⟨last, hlast, rfl⟩ := Option.map_eq_some_iff.mp hnewest
    exact h.1 first hfirst last hlast
  pending _ := rfl

theorem edges_openedView {answer : PageAnswer} (h : OpensRange log answer) {rows : Rows}
    (hrows : rows = mergeRows log.rows answer.res.messages fromPage) :
    (openedView log answer).oldestId.isSome = true ∨
      (openedView log answer).hasOlder = (openedView log answer).hasNewer ∨
      ∀ row ∈ rows.values, listed row answer.rootId = false := by
  cases hmessages : answer.res.messages with
  | nil =>
    refine .inr ((h.2 hmessages).imp_right fun hnone => ?_)
    rw [hrows, hmessages]
    exact hnone
  | cons row rest =>
    refine .inl ?_
    rw [openedView, hmessages]
    rfl

theorem step_opened (inv : Formed r.log) (hout : Outstanding r) {answer : PageAnswer}
    (h : Fits r (.opened answer)) :
    Formed (opened r.log answer) ∧ Outstanding { r with log := opened r.log answer } := by
  by_cases hstands : answer.stands r.log = true
  · obtain ⟨hopens, hbeside, hanew⟩ := h hstands
    obtain ⟨next, hviews, hrows, heq⟩ := opened_eq hstands
    have hformed := formed_openedView hopens
    have hedges := edges_openedView hopens hrows
    rw [heq]
    refine ⟨formed_pageTaken inv hviews hrows hformed hedges hbeside, fun page hpage view' hview' => ?_⟩
    rcases views_pageTaken hviews hformed hedges hview' with ⟨hown, hkeeps, -⟩ | ⟨-, hsame⟩
    · -- the range is of a later generation than any page out for the view
      cases hview : viewOf r.log answer.rootId with
      | none => exact absurd hown (hanew hview page hpage)
      | some view =>
        have hgen : view'.generation = view.generation + 1 := by
          rw [hkeeps.generation, openedView, hview, Option.getD_some]
        have hle := (hout page hpage view (hown ▸ hview)).1
        exact ⟨by omega, fun heq => absurd heq (by omega)⟩
    · exact hout page hpage view' hsame
  · rw [opened_stale fun hgen => hstands (beq_iff_eq.mpr hgen)]
    exact ⟨inv, hout⟩

theorem formed_grown (hformed : view.Formed) (hedged : view.oldestId.isSome = true) (direction : Direction)
    (res : ListMessagesResponse) :
    (grown view direction res).Formed ∧ (grown view direction res).oldestId.isSome = true := by
  rcases hformed.edges with ⟨hnone, -⟩ | ⟨oldest, newest, holdest, hnewest, hle⟩
  · rw [hnone] at hedged
    cases hedged
  cases direction with
  | older =>
    obtain ⟨oldest', holdest', hle'⟩ : ∃ oldest', (grown view .older res).oldestId = some oldest' ∧
        oldest' ≤ oldest := by
      rw [grown, holdest]
      cases res.messages.head? with
      | none => exact ⟨oldest, rfl, le_rfl⟩
      | some first =>
        refine ⟨_, rfl, ?_⟩
        split <;> omega
    have hnewest' : (grown view .older res).newestId = some newest := hnewest
    refine ⟨⟨by rw [holdest', hnewest']; exact ⟨nofun, nofun⟩, fun o ho n hn => ?_, hformed.pending⟩,
      by rw [holdest', Option.isSome_some]⟩
    obtain rfl := Option.some.inj (holdest'.symm.trans ho)
    obtain rfl := Option.some.inj (hnewest'.symm.trans hn)
    exact hle'.trans hle
  | newer =>
    obtain ⟨newest', hnewest', hle'⟩ : ∃ newest', (grown view .newer res).newestId = some newest' ∧
        newest ≤ newest' := by
      rw [grown, hnewest]
      cases res.messages.getLast? with
      | none => exact ⟨newest, rfl, le_rfl⟩
      | some last =>
        refine ⟨_, rfl, ?_⟩
        split <;> omega
    have holdest' : (grown view .newer res).oldestId = some oldest := holdest
    refine ⟨⟨by rw [holdest', hnewest']; exact ⟨nofun, nofun⟩, fun o ho n hn => ?_, fun hlive => if_neg ?_⟩,
      by rw [holdest', Option.isSome_some]⟩
    · obtain rfl := Option.some.inj (holdest'.symm.trans ho)
      obtain rfl := Option.some.inj (hnewest'.symm.trans hn)
      exact hle.trans hle'
    · exact Bool.eq_false_iff.mp hlive

theorem step_paged (inv : Formed r.log) (hout : Outstanding r) {page : Asked} (hpage : page ∈ r.out)
    {res : ListMessagesResponse} (h : Fits r (.paged page res)) :
    Formed (paged r.log page.direction (page.answer res)) ∧
      Outstanding ⟨paged r.log page.direction (page.answer res), r.out.erase page⟩ := by
  have hless : ∀ other ∈ r.out.erase page, other ∈ r.out := fun other => List.mem_of_mem_erase
  have hstale : Formed r.log ∧ Outstanding ⟨r.log, r.out.erase page⟩ :=
    ⟨inv, hout.kept (Kept.refl r.log).view hless⟩
  cases hview : viewOf r.log page.rootId with
  | none =>
    rw [paged, Asked.answer, hview]
    exact hstale
  | some view =>
    by_cases hgen : view.generation = page.generation
    · have hbeside := h view hview hgen
      obtain ⟨hformed, hedged⟩ := formed_grown (inv.view _ view hview) ((hout page hpage view hview).2 hgen.symm)
        page.direction res
      let next : ChannelLog := { r.log with rows := mergeRows r.log.rows res.messages fromPage }
      have hviews : ∀ rootId, viewOf next rootId = viewOf r.log rootId := fun rootId => viewOf_withRows _
      have heq : paged r.log page.direction (page.answer res) =
          pruned (pageTaken next page.rootId (grown view page.direction res) res.retentionFloorId) page.rootId
            page.direction.farEnd := by
        simp only [paged, Asked.answer, hview, hgen, bne_self_eq_false, Bool.false_eq_true, if_false,
          pageTaken, next]
      have hkept := kept_pruned (pageTaken next page.rootId (grown view page.direction res) res.retentionFloorId)
        page.rootId page.direction.farEnd
      rw [heq]
      refine ⟨hkept.formed (formed_pageTaken inv hviews rfl hformed (.inl hedged) hbeside),
        Outstanding.kept (r := ⟨_, r.out⟩) (fun other hother view' hview' => ?_) hkept.view hless⟩
      rcases views_pageTaken hviews hformed (.inl hedged) hview' with ⟨hown, hkeeps, -⟩ | ⟨-, hsame⟩
      · have hgrown : (grown view page.direction res).generation = view.generation := by
          cases page.direction <;> rfl
        rw [hkeeps.generation, hgrown]
        exact ⟨(hout other hother view (hown ▸ hview)).1, fun _ => hkeeps.edged hedged⟩
      · exact hout other hother view' hsame
    · have hne : (view.generation != page.generation) = true := by simpa using hgen
      simp only [paged, Asked.answer, hview, hne, if_true]
      exact hstale

/-! ## The other steps -/

theorem step_arrived (inv : Formed r.log) (hout : Outstanding r) {incoming : List Message} {source : Source}
    (h : HeldReached r.log incoming source) :
    Formed (withArrivals r.log incoming source) ∧
      Outstanding { r with log := withArrivals r.log incoming source } := by
  refine ⟨formed_withArrivals inv h, hout.kept (fun rootId view' hview' => ?_) fun _ h => h⟩
  obtain ⟨view, hview, hkeeps⟩ := (withArrivals_views r.log incoming source).1.view rootId view' hview'
  exact ⟨view, by rwa [viewOf_withRows] at hview, hkeeps⟩

theorem step_kept (inv : Formed r.log) (hout : Outstanding r) {log : ChannelLog} (hkept : Kept r.log log)
    {out : List Asked} (hless : ∀ page ∈ out, page ∈ r.out) : Formed log ∧ Outstanding ⟨log, out⟩ :=
  ⟨hkept.formed inv, hout.kept hkept.view hless⟩

theorem kept_positioned (log : ChannelLog) (seq : Nat) : Kept log (positioned log seq) :=
  .of_same (.refl _) fun rootId view hview => by rwa [viewOf_positioned] at hview

/-- An event that is not known already is the arrival of what it brings, and moves the log's position. -/
theorem kept_withEvent (log : ChannelLog) (event : ServerEvent) :
    withEvent log event = log ∨ ((changeOf event).channelId = log.channelId ∧
      log.knows (changeOf event).seq = false ∧
        Kept (withArrivals log (brought log event) fromEvent) (withEvent log event)) := by
  unfold withEvent
  simp only
  split
  next => exact .inl rfl
  next hchannel =>
    have here : (changeOf event).channelId = log.channelId := by simpa using hchannel
    split
    next => exact .inl rfl
    next hknown =>
      refine .inr ⟨here, Bool.eq_false_iff.mpr hknown, ?_⟩
      rw [← apply_changeOf]
      have moved : ∀ log' : ChannelLog, log'.rows = ((changeOf event).apply log).rows →
          log'.channel = ((changeOf event).apply log).channel →
            log'.threads = ((changeOf event).apply log).threads → Kept ((changeOf event).apply log) log' := by
        intro log' hrows hchannel hthreads
        refine .of_same (hrows ▸ .refl _) fun rootId view hview => ?_
        cases rootId with
        | none => rwa [viewOf, ← hchannel]
        | some root => rwa [viewOf, ← hthreads]
      split
      · exact moved _ rfl rfl rfl
      · split <;> exact moved _ rfl rfl rfl

/-- **The step lemma.** -/
theorem step_formed (inv : Formed r.log ∧ Outstanding r) {step : Step} (h : Fits r step)
    (hstep : r.step step = some r') : Formed r'.log ∧ Outstanding r' := by
  obtain ⟨hformed, hout⟩ := inv
  cases step with
  | opened answer =>
    obtain rfl := Option.some.inj hstep
    exact step_opened hformed hout h
  | asked rootId direction =>
    rw [Reader.step] at hstep
    split at hstep
    next => cases hstep
    next view hview =>
      obtain ⟨hedge, ⟨⟩⟩ := Option.ite_none_right_eq_some.mp hstep
      refine ⟨hformed, fun page hpage view' hview' => ?_⟩
      rcases List.mem_cons.mp hpage with rfl | hpage
      · obtain rfl := Option.some.inj (hview.symm.trans hview')
        refine ⟨le_rfl, fun _ => ?_⟩
        -- an edge is there with the other
        rcases (hformed.view rootId view hview).edges with ⟨holdest, hnewest⟩ | ⟨oldest, newest, holdest, -, -⟩
        · cases direction <;> simp [View.edge, holdest, hnewest] at hedge
        · rw [holdest, Option.isSome_some]
      · exact hout page hpage view' hview'
  | paged page res =>
    obtain ⟨hpage, ⟨⟩⟩ := Option.ite_none_right_eq_some.mp hstep
    exact step_paged hformed hout hpage h
  | arrived incoming source =>
    obtain rfl := Option.some.inj hstep
    exact step_arrived hformed hout h
  | event event =>
    obtain rfl := Option.some.inj hstep
    rcases kept_withEvent r.log event with heq | ⟨hchannel, hknown, hkept⟩
    · simp only [heq]
      exact ⟨hformed, hout⟩
    · obtain ⟨harrived, houtArrived⟩ := step_arrived hformed hout (h hchannel hknown)
      exact step_kept harrived houtArrived hkept fun _ h => h
  | caughtUp res =>
    obtain rfl := Option.some.inj hstep
    obtain ⟨harrived, houtArrived⟩ := step_arrived hformed hout h
    refine step_kept harrived houtArrived (Kept.trans (kept_withFloor _ res.retentionFloorId) ?_) fun _ h => h
    rw [caughtUp]
    split
    · exact .refl _
    · exact kept_positioned _ _
  | refreshed res =>
    obtain rfl := Option.some.inj hstep
    obtain ⟨harrived, houtArrived⟩ := step_arrived hformed hout h
    exact step_kept harrived houtArrived (kept_withFloor _ res.retentionFloorId) fun _ h => h
  | pruned rootId drop =>
    obtain rfl := Option.some.inj hstep
    exact step_kept hformed hout (kept_pruned r.log rootId drop) fun _ h => h
  | closedThread rootId =>
    obtain rfl := Option.some.inj hstep
    exact step_kept hformed hout (kept_closedThread r.log rootId) fun _ => List.mem_of_mem_filter

theorem formed_start (channelId : String) : Formed (Reader.start channelId).log where
  view rootId view hview := by
    cases rootId with
    | none =>
      obtain rfl := Option.some.inj hview
      exact ⟨⟨fun _ => rfl, fun _ => rfl⟩, nofun, nofun⟩
    | some root => cases hview
  spans _ _ _ _ row hrow := nomatch hrow

/-- A view's edges are both there or both not, and in order; a live view has nothing counted beyond it, and shows
each row held of it that is newer than its oldest edge. -/
structure EdgesRight (log : ChannelLog) (rootId : Option Nat) (view : View) : Prop where
  null : view.oldestId = none ↔ view.newestId = none
  ordered : ∀ oldest ∈ view.oldestId, ∀ newest ∈ view.newestId, oldest ≤ newest
  pending : view.hasNewer = false → view.pendingNewer = 0
  live : view.hasNewer = false → ∀ row ∈ log.rows.values, belongs row rootId = true → isShown row = true →
    (∀ oldest ∈ view.oldestId, oldest < row.id) → row ∈ shownRows log rootId

/-- **View edges are well formed** in every run of steps that fit. -/
theorem edges_well_formed {channelId : String} (h : Runs Reader.step Fits (Reader.start channelId) r)
    (hview : viewOf r.log rootId = some view) : EdgesRight r.log rootId view := by
  have inv : Formed r.log ∧ Outstanding r := by
    refine @Runs.keeps _ _ _ _ _ _ (fun r => Formed r.log ∧ Outstanding r) ?_
      (fun r step r' inv hfits hstep => ?_) h
    · exact ⟨formed_start channelId, nofun⟩
    · exact step_formed inv hfits hstep
  have hformed := inv.1.view rootId view hview
  refine ⟨hformed.null, hformed.ordered, hformed.pending, fun hlive row hrow hbelongs hshown hnewer => ?_⟩
  have hspans := inv.1.spans rootId view hview hlive row hrow (by rw [listed, hbelongs, hshown]; rfl)
  refine (mem_shownRows hview).mpr ⟨hrow, ?_⟩
  rw [shownIn, hbelongs, hformed.inRange hspans hnewer, hshown]
  rfl

/-! ## Runs -/

/-- A first page with no rows, and a first row. -/
def firstArrival : List Step := [.opened blankPage, .event (.messageCreated (written 0))]

theorem firstArrival_fits : EachStep Reader.step Fits (Reader.start "general") firstArrival := by
  refine ⟨fun _ => ⟨⟨fun first hfirst => ?_, fun _ => .inl rfl⟩, fun rootId' _ view _ _ row hrow => ?_,
    fun hview => ?_⟩, fun r hr => ⟨fun _ _ => ?_, fun _ _ => trivial⟩⟩
  · cases Option.mem_def.mp hfirst
  · cases hrow
  · cases hview
  obtain rfl := Option.some.inj hr
  intro rootId view _ _ row hrow _ hheld
  obtain rfl := List.mem_singleton.mp hrow
  cases hheld

theorem firstArrival_edges : ∃ r, runList Reader.step (Reader.start "general") firstArrival = some r ∧
    EdgesRight r.log none { oldestId := some 2, newestId := some 2, hasOlder := false, hasNewer := false,
                            pendingNewer := 0, generation := 1 } :=
  ⟨_, rfl, edges_well_formed (Runs.ofList firstArrival firstArrival_fits rfl) rfl⟩

/-- A root, its first reply, and a later reply that is also sent to the channel. -/
def threadRoot (seq : Nat) : Message :=
  { id := 1, channelId := "general", seq := seq, thread := some { replyCount := 1 } }
def firstReply : Message := { id := 2, channelId := "general", seq := 2, threadRootId := some 1 }
def sentReply : Message :=
  { id := 3, channelId := "general", seq := 4, threadRootId := some 1, inChannel := true }

/-- The thread's page, read before the later reply, and the channel's, read after it. -/
def threadPage : PageAnswer :=
  { rootId := some 1, generation := 0
    res := { messages := [firstReply], hasOlder := false, hasNewer := false, channelSeq := 3
             retentionFloorId := none } }
def channelPage : PageAnswer :=
  { rootId := none, generation := 0
    res := { messages := [threadRoot 5, sentReply], hasOlder := false, hasNewer := false, channelSeq := 5
             retentionFloorId := none } }

/-- The reply comes with the channel's page, and then by its event. -/
def pageBeforeEvent : List Step :=
  [.opened threadPage, .opened channelPage, .event (.messageCreated sentReply)]

/-- **A page hides a reply**: the thread's view is live and its edges are both at the first reply, and the later
one is held, by the channel's page, and not shown, by its event. -/
theorem page_hides_reply : ¬ ∀ channelId r rootId view,
    Runs Reader.step Always (Reader.start channelId) r → viewOf r.log rootId = some view →
      EdgesRight r.log rootId view := by
  intro claim
  have hhides : ((runList Reader.step (Reader.start "general") pageBeforeEvent).any fun r =>
      decide (sentReply ∈ r.log.rows.values ∧ sentReply ∉ shownRows r.log (some 1)) &&
        (viewOf r.log (some 1)).any fun view => view.oldestId == some 2 && !view.hasNewer) = true := by
    decide
  obtain ⟨r, hrun, hr⟩ := Option.any_eq_true _ _ |>.mp hhides
  obtain ⟨hheld, hview⟩ := Bool.and_eq_true _ _ |>.mp hr
  obtain ⟨view, hview, hedges⟩ := Option.any_eq_true _ _ |>.mp hview
  obtain ⟨holdest, hlive⟩ := Bool.and_eq_true _ _ |>.mp hedges
  obtain ⟨hrow, hhidden⟩ := of_decide_eq_true hheld
  have right := claim _ r (some 1) view (Runs.ofList pageBeforeEvent (EachStep.always _ _) hrun) hview
  refine hhidden (right.live (Bool.not_eq_true' _ |>.mp hlive) sentReply hrow rfl rfl fun oldest hmem => ?_)
  rw [beq_iff_eq.mp holdest] at hmem
  obtain rfl := Option.some.inj hmem
  decide

end Stoop.Channel
