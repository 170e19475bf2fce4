import Stoop.Lib.Machine
import Stoop.Channel.Timeline

/-!
# A channel's log and its server, step by step

A `World` is one channel held by the web loader: the server's history, the socket with the events on
their way, the requests that are out, the catch-up's passes, and the log. Requests and events race:
an answer is read at any moments between its asking and its coming, an event can come in any order
or never, and any number of pages and passes can be out at once.

`missed`, `everHeld` and the moments at which a request was asked are there to state what holds; no
step reads them, but for an answer's moments not lying before its asking. What a step hands the log is
`World.brings`.
-/

set_option autoImplicit false

namespace Stoop.Channel

open Stoop.Lib

/-- The loader's page size, and the catch-up's. -/
def HISTORY_PAGE : Nat := 50
def CATCH_UP_PAGE : Nat := 200

/-- What an answer is for. A jump to a thread's root asks for what follows the root, and knows that
nothing lies before it. -/
inductive Use
  | opened
  | jumped (atRoot : Bool)
  | paged (direction : Direction)
  | refreshed
  deriving DecidableEq, Repr

/-- A `ListMessages` that is out, under the generation its view had, since moment `asked`. -/
structure Ask where
  rootId : Option Nat
  paging : Paging
  limit : Nat
  use : Use
  generation : Nat
  asked : Nat
  deriving DecidableEq, Repr

/-- One channel of the web loader, and its server. `flight` is the seqs whose events are on their
way, `missed` those whose events were never sent or were lost with the socket, and `everHeld` each
copy of a row the log ever held. -/
structure World where
  server : Server
  log : ChannelLog
  socket : Bool
  flight : List Nat
  missed : List Nat
  asks : List Ask
  passes : List Pass
  everHeld : List (Nat × Nat)

/-- A channel with no writes, its log empty and the socket up. -/
def World.empty (channelId : String) : World :=
  { server := ⟨channelId, []⟩, log := emptyLog channelId, socket := true, flight := [], missed := [],
    asks := [], passes := [], everHeld := [] }

/-- The view's generation now, for a request to answer under. -/
def World.generationOf (w : World) (rootId : Option Nat) : Nat :=
  ((viewOf w.log rootId).map (·.generation)).getD 0

/-- A request sent for a view. -/
def World.request (w : World) (rootId : Option Nat) (paging : Paging) (limit : Nat) (use : Use)
    (generation : Nat) : World :=
  { w with asks := w.asks ++
      [{ rootId := rootId, paging := paging, limit := limit, use := use, generation := generation
         asked := w.server.seq }] }

/-- The log once something was handed to it, and what it has held by then. -/
def World.handed (w : World) (log : ChannelLog) : World :=
  { w with log := log, everHeld := w.everHeld ++ log.rows.values.map (·.stamp) }

/-- An answer into the log, by what it is for. -/
def Ask.settle (ask : Ask) (log : ChannelLog) (res : ListMessagesResponse) : ChannelLog :=
  let answer : PageAnswer := { rootId := ask.rootId, generation := ask.generation, res := res }
  match ask.use with
  | .opened | .jumped false => opened log answer
  | .jumped true => jumped log { answer with res := { res with hasOlder := false } }
  | .paged direction => paged log direction answer
  | .refreshed => refreshed log res

/-- Whether an answer is still what its view asked for. -/
def Ask.stands (ask : Ask) (log : ChannelLog) : Bool :=
  match ask.use with
  | .opened | .jumped _ => ((viewOf log ask.rootId).getD emptyView).generation == ask.generation
  | .paged _ => (viewOf log ask.rootId).any (·.generation == ask.generation)
  | .refreshed => true

/-- Whether an answer sets the log's position. -/
def Ask.isFirst (ask : Ask) (log : ChannelLog) : Bool :=
  !hasPage log && match ask.use with
    | .opened | .jumped _ => true
    | .paged _ | .refreshed => false

/-- Where the page beyond one edge is asked for, if there is one to ask for. -/
def pageFrom (view : View) : Direction → Option Paging
  | .older => if view.hasOlder then view.oldestId.map Paging.before else none
  | .newer => if view.hasNewer then view.newestId.map Paging.after else none

/-- Whether a jump finds its message held and shown inside the range, so no page is asked for. -/
def jumpFinds (log : ChannelLog) (rootId : Option Nat) (messageId : Nat) : Bool :=
  match viewOf log rootId, log.rows.get? messageId with
  | some view, some row =>
    isShown row &&
      if rootId == some messageId then !view.hasOlder
      else inRange view messageId && belongs row rootId
  | _, _ => false

/-- One atomic action. -/
inductive Label
  | commit (write : Write)
  | drop
  | ready
  | lose (seq : Nat)
  | deliver (seq : Nat) (hydration : Hydration)
  | openView (rootId : Option Nat)
  | loadPage (rootId : Option Nat) (direction : Direction)
  | jumpTo (rootId : Option Nat) (messageId : Nat)
  | jumpToLatest (rootId : Option Nat)
  | refreshPage (rootId : Option Nat)
  | refreshRoot (rootId : Nat)
  | answer (i : Nat) (reading : Reading)
  | fail (i : Nat)
  | catchUp
  | changes (i : Nat) (limit : Nat) (reading : Reading)
  | giveUp (i : Nat)
  | closeThread (rootId : Nat)

/-- One step. -/
def World.step (w : World) : Label → Option World
  | .commit write =>
    if write.Legal w.server.channelId (rowsAfter w.server.history) then
      let seq := w.server.seq + 1
      some { w with
        server := { w.server with history := write :: w.server.history }
        flight := if w.socket then w.flight ++ [seq] else w.flight
        missed := if w.socket then w.missed else w.missed ++ [seq] }
    else none
  | .drop => some { w with socket := false }
  | .ready =>
    if w.socket then none else some { w with socket := true, log := reconnected w.log }
  | .lose seq =>
    if seq ∈ w.flight ∧ w.socket = false then
      some { w with flight := w.flight.erase seq, missed := w.missed ++ [seq] }
    else none
  | .deliver seq hydration =>
    if seq ∈ w.flight then
      (w.server.event? seq hydration).map fun event =>
        { w.handed (withEvent w.log event) with flight := w.flight.erase seq }
    else none
  | .openView rootId =>
    some (w.request rootId .newest HISTORY_PAGE .opened (w.generationOf rootId))
  | .loadPage rootId direction =>
    match viewOf w.log rootId with
    | none => none
    | some view =>
      match pageFrom view direction with
      | none => none
      | some paging =>
        -- one page per view per direction at a time
        if w.asks.any fun ask => ask.rootId == rootId && ask.use == .paged direction then none
        else some (w.request rootId paging HISTORY_PAGE (.paged direction) view.generation)
  | .jumpTo rootId messageId =>
    if jumpFinds w.log rootId messageId then none
    else
      let atRoot := rootId == some messageId
      some (w.request rootId (if atRoot then .after messageId else .around messageId) HISTORY_PAGE
        (.jumped atRoot) (w.generationOf rootId))
  | .jumpToLatest rootId =>
    if (viewOf w.log rootId).any fun view => !view.hasNewer then none
    else some (w.request rootId .newest HISTORY_PAGE (.jumped false) (w.generationOf rootId))
  | .refreshPage rootId =>
    -- only a view that has had its first page is asked for again
    if 0 < w.generationOf rootId then some (w.request rootId .newest HISTORY_PAGE .refreshed 0)
    else none
  | .refreshRoot rootId =>
    if 0 < w.generationOf (some rootId) then
      some (w.request none (.around rootId) 1 .refreshed 0)
    else none
  | .answer i reading =>
    match w.asks[i]? with
    | none => none
    | some ask =>
      if reading.Between ask.asked w.server.seq then
        (listMessages w.server ask.rootId ask.paging ask.limit reading).map fun res =>
          { w.handed (ask.settle w.log res) with asks := w.asks.eraseIdx i }
      else none
  | .fail i => if i < w.asks.length then some { w with asks := w.asks.eraseIdx i } else none
  | .catchUp =>
    -- before the first page there is no position to start from
    if hasPage w.log then
      some { w with passes := w.passes ++ [⟨w.log.seq, w.log.seq, w.server.seq⟩] }
    else none
  | .changes i limit reading =>
    match w.passes[i]? with
    | none => none
    | some pass =>
      if reading.Between pass.asked w.server.seq then
        let res := listChanges w.server pass.since limit reading
        some { w.handed (caughtUp w.log res) with
          passes :=
            if res.hasMore then
              w.passes.set i
                { pass with since := nextSince pass.since res, asked := w.server.seq }
            else w.passes.eraseIdx i }
      else none
  | .giveUp i =>
    if i < w.passes.length then some { w with passes := w.passes.eraseIdx i } else none
  | .closeThread rootId =>
    -- a page still out for the thread answers to nobody; a refresh answers to the channel
    some { w with
      log := closedThread w.log rootId
      asks := w.asks.filter fun ask =>
        !(ask.rootId == some rootId && ask.use != .refreshed) }

/-- The copies a step hands the log to merge: none of an event of what is known already, nor of a page
that no longer stands. -/
def World.brings (w : World) : Label → List (Nat × Nat)
  | .deliver seq hydration =>
    if w.log.knows seq then []
    else ((w.server.event? seq hydration).map ServerEvent.brings).getD []
  | .answer i reading =>
    match w.asks[i]? with
    | none => []
    | some ask =>
      if ask.stands w.log then
        ((listMessages w.server ask.rootId ask.paging ask.limit reading).map
          fun res => res.messages.map (·.stamp)).getD []
      else []
  | .changes i limit reading =>
    match w.passes[i]? with
    | none => []
    | some pass => (listChanges w.server pass.since limit reading).messages.map (·.stamp)
  | _ => []

/-- The actions that send a `ListMessages`. -/
def Label.isRequest : Label → Bool
  | .openView _ | .loadPage _ _ | .jumpTo _ _ | .jumpToLatest _ | .refreshPage _ | .refreshRoot _ =>
    true
  | _ => false

/-- A request sent changes nothing but what is out. -/
theorem step_request {w w' : World} {a : Label} (h : w.step a = some w')
    (ha : a.isRequest = true) :
    ∃ ask, w' = { w with asks := w.asks ++ [ask] } ∧ ask.asked = w.server.seq := by
  cases a with
  | openView rootId =>
    obtain rfl := Option.some.inj h
    exact ⟨_, rfl, rfl⟩
  | loadPage rootId direction =>
    simp only [World.step] at h
    split at h
    · cases h
    · split at h
      · cases h
      · split at h
        · cases h
        · obtain rfl := Option.some.inj h
          exact ⟨_, rfl, rfl⟩
  | jumpTo rootId messageId | jumpToLatest rootId =>
    simp only [World.step] at h
    split at h
    · cases h
    · obtain rfl := Option.some.inj h
      exact ⟨_, rfl, rfl⟩
  | refreshPage rootId | refreshRoot rootId =>
    simp only [World.step] at h
    split at h
    · obtain rfl := Option.some.inj h
      exact ⟨_, rfl, rfl⟩
    · cases h
  | _ => cases ha

/-- What each action takes to be taken, and what it then does. -/
inductive Stepped (w : World) : Label → World → Prop
  | commit {write : Write} (legal : write.Legal w.server.channelId (rowsAfter w.server.history)) :
    Stepped w (.commit write) { w with
      server := { w.server with history := write :: w.server.history }
      flight := if w.socket then w.flight ++ [w.server.seq + 1] else w.flight
      missed := if w.socket then w.missed else w.missed ++ [w.server.seq + 1] }
  | drop : Stepped w .drop { w with socket := false }
  | ready (down : w.socket = false) :
    Stepped w .ready { w with socket := true, log := reconnected w.log }
  | lose {seq : Nat} (out : seq ∈ w.flight) (down : w.socket = false) :
    Stepped w (.lose seq) { w with flight := w.flight.erase seq, missed := w.missed ++ [seq] }
  | deliver {seq : Nat} {hydration : Hydration} {event : ServerEvent} (out : seq ∈ w.flight)
      (sent : w.server.event? seq hydration = some event) :
    Stepped w (.deliver seq hydration)
      { w.handed (withEvent w.log event) with flight := w.flight.erase seq }
  | request {a : Label} {ask : Ask} (sends : a.isRequest = true)
      (asked : ask.asked = w.server.seq) : Stepped w a { w with asks := w.asks ++ [ask] }
  | answer {i : Nat} {reading : Reading} {ask : Ask} {res : ListMessagesResponse}
      (out : w.asks[i]? = some ask) (between : reading.Between ask.asked w.server.seq)
      (read : listMessages w.server ask.rootId ask.paging ask.limit reading = some res) :
    Stepped w (.answer i reading)
      { w.handed (ask.settle w.log res) with asks := w.asks.eraseIdx i }
  | fail {i : Nat} : Stepped w (.fail i) { w with asks := w.asks.eraseIdx i }
  | catchUp (page : hasPage w.log = true) :
    Stepped w .catchUp
      { w with passes := w.passes ++ [⟨w.log.seq, w.log.seq, w.server.seq⟩] }
  | changes {i limit : Nat} {reading : Reading} {pass : Pass} (out : w.passes[i]? = some pass)
      (between : reading.Between pass.asked w.server.seq) {res : ListChangesResponse}
      (read : listChanges w.server pass.since limit reading = res) :
    Stepped w (.changes i limit reading)
      { w.handed (caughtUp w.log res) with
        passes :=
          if res.hasMore then
            w.passes.set i { pass with since := nextSince pass.since res, asked := w.server.seq }
          else w.passes.eraseIdx i }
  | giveUp {i : Nat} : Stepped w (.giveUp i) { w with passes := w.passes.eraseIdx i }
  | closeThread {rootId : Nat} : Stepped w (.closeThread rootId)
      { w with
        log := closedThread w.log rootId
        asks := w.asks.filter fun ask =>
          !(ask.rootId == some rootId && ask.use != .refreshed) }

/-- **A step did one of these.** -/
theorem stepped {w w' : World} {a : Label} (h : w.step a = some w') : Stepped w a w' := by
  cases a with
  | openView _ | loadPage _ _ | jumpTo _ _ | jumpToLatest _ | refreshPage _ | refreshRoot _ =>
    obtain ⟨ask, rfl, hasked⟩ := step_request h rfl
    exact .request rfl hasked
  | drop =>
    obtain rfl := Option.some.inj h
    exact .drop
  | closeThread rootId =>
    obtain rfl := Option.some.inj h
    exact .closeThread
  | commit write =>
    simp only [World.step] at h
    split at h
    next hlegal =>
      obtain rfl := Option.some.inj h
      exact .commit hlegal
    next => cases h
  | ready =>
    simp only [World.step] at h
    split at h
    next => cases h
    next hdown =>
      obtain rfl := Option.some.inj h
      exact .ready (Bool.not_eq_true _ ▸ hdown)
  | lose seq =>
    simp only [World.step] at h
    split at h
    next hout =>
      obtain rfl := Option.some.inj h
      exact .lose hout.1 hout.2
    next => cases h
  | deliver seq hydration =>
    simp only [World.step] at h
    split at h
    next hout =>
      obtain ⟨event, hevent, rfl⟩ := Option.map_eq_some_iff.mp h
      exact .deliver hout hevent
    next => cases h
  | answer i reading =>
    simp only [World.step] at h
    split at h
    next => cases h
    next ask hask =>
      split at h
      next hbetween =>
        obtain ⟨res, hres, rfl⟩ := Option.map_eq_some_iff.mp h
        exact .answer hask hbetween hres
      next => cases h
  | catchUp =>
    simp only [World.step] at h
    split at h
    next hpage =>
      obtain rfl := Option.some.inj h
      exact .catchUp hpage
    next => cases h
  | changes i limit reading =>
    simp only [World.step] at h
    split at h
    next => cases h
    next pass hpass =>
      split at h
      next hbetween =>
        obtain rfl := Option.some.inj h
        exact .changes hpass hbetween rfl
      next => cases h
  | fail i =>
    simp only [World.step] at h
    split at h
    next =>
      obtain rfl := Option.some.inj h
      exact .fail
    next => cases h
  | giveUp i =>
    simp only [World.step] at h
    split at h
    next =>
      obtain rfl := Option.some.inj h
      exact .giveUp
    next => cases h

end Stoop.Channel
