import Stoop.Channel.Views

/-!
# The rules that change a log: arrivals, pages, catch-ups

`withArrivals` takes rows in by something other than a page; `opened` and `paged` take a page of
`ListMessages`, whose rows set the range; `caughtUp` takes a page of `ListChanges`, the last of which
moves the position. `reconnected` and `refreshed` are the socket's return.
-/

set_option autoImplicit false

namespace Stoop.Channel

open Stoop.Lib

/-! ## Arrivals -/

/-- Whether the merge of `incoming` took a copy of a row. -/
def changed (rows : Rows) (incoming : List Message) (source : Source) (id : Nat) : Bool :=
  incoming.any fun row => row.id == id && takes rows source row

/-- One row of an arrival, once the rows are merged: a tombstone blanks the quotes of it, and a row
new to the log that is shown takes its place in the views that list it. -/
def arrived (log : ChannelLog) (rows : Rows) (incoming : List Message) (source : Source)
    (next : ChannelLog × List Nat) (row : Message) : ChannelLog × List Nat :=
  if changed log.rows incoming source row.id then
    let log' :=
      if (rows.get? row.id).any (·.deleted) then
        { next.1 with rows := withQuotesBlanked next.1.rows row.id }
      else next.1
    if log.rows.has row.id || !isShown row then (log', next.2)
    else (placed log' row, next.2 ++ row.threadRootId.toList)
  else next

/-- Only a range that grew can be over the cap. -/
def prunedIfGrown (log : ChannelLog) (next : ChannelLog) (rootId : Option Nat) : ChannelLog :=
  if viewOf next rootId = viewOf log rootId then next else pruned next rootId .oldest

/-- Rows arriving by something other than a page: each is merged by seq, and one new to the log
takes its place in the views that list it. -/
def withArrivals (log : ChannelLog) (incoming : List Message) (source : Source) : ChannelLog :=
  if incoming.any (takes log.rows source) then
    let rows := mergeRows log.rows incoming source
    let placed := incoming.foldl (arrived log rows incoming source) ({ log with rows := rows }, [])
    placed.2.foldl (fun next root => prunedIfGrown log next (some root))
      (prunedIfGrown log placed.1 none)
  else log

/-! ## Pages -/

/-- A page of `ListMessages`, oldest first. -/
structure ListMessagesResponse where
  messages : List Message
  hasOlder : Bool
  hasNewer : Bool
  channelSeq : Nat
  retentionFloorId : Option Nat

/-- A page for a view, under the view's generation when it was asked for. -/
structure PageAnswer where
  rootId : Option Nat
  generation : Nat
  res : ListMessagesResponse

/-- Whether a page has set the log's position: opened and jumped move the generation of the view
they fill. -/
def hasPage (log : ChannelLog) : Bool :=
  decide (0 < log.channel.generation) || log.threads.values.any fun thread =>
    decide (0 < thread.2.generation)

/-- The log at a position a load set. The server reads the seq before the rows, so an event seen
above it landed after that read and the load did not cover it: the catch-up is still owed. -/
def positioned (log : ChannelLog) (seq : Nat) : ChannelLog :=
  { log with seq := seq, needsCatchUp := decide (seq < log.seenSeq) }

/-- A new range for the view: the page's rows, edge to edge. The first page a log sees sets its
seq. -/
def opened (log : ChannelLog) (answer : PageAnswer) : ChannelLog :=
  let view := (viewOf log answer.rootId).getD emptyView
  if view.generation != answer.generation then log
  else
    let rows := answer.res.messages
    let replaced : View :=
      { oldestId := rows.head?.map (·.id)
        newestId := rows.getLast?.map (·.id)
        hasOlder := answer.res.hasOlder
        hasNewer := answer.res.hasNewer
        pendingNewer := 0
        generation := view.generation + 1 }
    let merged := { log with rows := mergeRows log.rows rows fromPage }
    let next := withView (if hasPage log then merged else positioned merged answer.res.channelSeq)
      answer.rootId replaced
    stretched (withFloor next answer.res.retentionFloorId) answer.rootId

/-- A page around a message replaces the range the same way. -/
abbrev jumped := opened

/-- The ways a view is paged. -/
inductive Direction
  | older
  | newer
  deriving DecidableEq, Repr

/-- The end away from the reader, which goes when a view paged this way is over the cap. -/
def Direction.farEnd : Direction → Drop
  | .older => .newest
  | .newer => .oldest

def lower (held id : Option Nat) : Option Nat :=
  match id, held with
  | none, held => held
  | some id, none => some id
  | some id, some held => some (if id < held then id else held)

def higher (held id : Option Nat) : Option Nat :=
  match id, held with
  | none, held => held
  | some id, none => some id
  | some id, some held => some (if held < id then id else held)

/-- A view once the page beyond one end of it has come: the range grows over it, and the edge's flag
is the page's. -/
def grown (view : View) (direction : Direction) (res : ListMessagesResponse) : View :=
  match direction with
  | .older =>
    { view with
      oldestId := lower view.oldestId (res.messages.head?.map (·.id))
      hasOlder := res.hasOlder }
  | .newer =>
    { view with
      newestId := higher view.newestId (res.messages.getLast?.map (·.id))
      hasNewer := res.hasNewer
      pendingNewer := if res.hasNewer then view.pendingNewer else 0 }

/-- The page beyond one end of the range; past the cap the far end is pruned. -/
def paged (log : ChannelLog) (direction : Direction) (answer : PageAnswer) : ChannelLog :=
  match viewOf log answer.rootId with
  | none => log
  | some view =>
    if view.generation != answer.generation then log
    else
      let merged := { log with rows := mergeRows log.rows answer.res.messages fromPage }
      let next := withView merged answer.rootId (grown view direction answer.res)
      let next := stretched (withFloor next answer.res.retentionFloorId) answer.rootId
      pruned next answer.rootId direction.farEnd

/-! ## Catching up -/

/-- A page of `ListChanges`, in seq order. -/
structure ListChangesResponse where
  messages : List Message
  channelSeq : Nat
  hasMore : Bool
  retentionFloorId : Option Nat

/-- The highest position a `ListChanges` page speaks for: the channel's seq, or the highest row's. -/
def ListChangesResponse.top (res : ListChangesResponse) : Nat :=
  res.messages.foldl (fun top row => max top row.seq) res.channelSeq

/-- A `ListChanges` page. The position moves only on the last page, so a failure midway still owes
the whole catch-up. -/
def caughtUp (log : ChannelLog) (res : ListChangesResponse) : ChannelLog :=
  let next := withFloor (withArrivals log res.messages fromPage) res.retentionFloorId
  if res.hasMore then next else positioned next (max next.seq res.top)

/-- The seq the next `ListChanges` page is asked from. -/
def nextSince (since : Nat) (res : ListChangesResponse) : Nat :=
  match res.messages.getLast? with
  | some last => max since last.seq
  | none => since

/-- The socket is back: whatever was missed is owed. -/
def reconnected (log : ChannelLog) : ChannelLog := { log with needsCatchUp := true }

/-- A view's newest page asked for again after the reconnect's catch-up: every row merged with the
server winning a tie; the range and the position left alone. -/
def refreshed (log : ChannelLog) (res : ListMessagesResponse) : ChannelLog :=
  withFloor (withArrivals log res.messages fromPage) res.retentionFloorId

end Stoop.Channel
