import Mathlib.Data.List.Sort
import Stoop.Lib.Replica
import Stoop.Channel.Events

/-!
# The server's side of a channel log

Every write that changes how a message renders takes the channel's next seq and stamps the one row
with it. A channel's `history` is its committed writes, newest first, and a moment is how many of
them had committed: the seq the channel stood at. The list RPCs read the channel's seq with the
channel's row and the messages after it, so an answer (`Reading`) is made at moments in that order.

## Writes

`Write`, `Write.run`, `Write.Legal`, `rowsAfter`, `rowsAt`, `eventOf`

## The list RPCs

`listMessages`, `listChanges`

## The rows through time

`timeline`
-/

set_option autoImplicit false

namespace Stoop.Channel

open Stoop.Lib

/-! ## Writes -/

/-- A committed write. `whole` sends a message, edits it, gives it a link preview or keeps it as a
placeholder; the rest change one thing about a row. -/
inductive Write
  | whole (row : Message)
  | reactions (id : Nat) (reactions : List Reaction)
  | pinned (id : Nat) (pinned : Bool)
  | thread (id : Nat) (thread : Option ThreadSummary)
  | deleted (id : Nat)
  deriving DecidableEq, Repr

/-- The row a write stamps. -/
def Write.target : Write → Nat
  | .whole row => row.id
  | .reactions id _ | .pinned id _ | .thread id _ | .deleted id => id

/-- A row as `tombstoneRow` and `hideRoot` leave it: no text and nothing hanging off it, no pin and
no thread summary. -/
def tombstoned (row : Message) : Message :=
  { row with
    deleted := true, content := "", mentionUserIds := [], mentionsEntireChannel := false,
    mentionsHere := false, editedAt := none, reactions := [], attachments := [],
    linkPreviews := [], pinned := false, thread := none }

/-- What a write makes of the row it finds, less its stamp. -/
def Write.change : Write → Message → Message
  | .whole row, _ => row
  | .reactions _ list, held => { held with reactions := list }
  | .pinned _ isPinned, held => { held with pinned := isPinned }
  | .thread _ summary, held => { held with thread := summary }
  | .deleted _, held => tombstoned held

/-- The row a write leaves: a message sent needs none to be there. -/
def Write.row? (rows : Rows) : Write → Option Message
  | .whole row => some row
  | write => (rows.get? write.target).map write.change

/-- The rows after a write that took `seq`. -/
def Write.run (seq : Nat) (rows : Rows) (write : Write) : Rows :=
  match write.row? rows with
  | some row => rows.set (row.withSeq seq)
  | none => rows

/-- What a channel's writes keep to. A row that is shown to nobody is not written again
(`liveMessage`, `GetMessage`); a row keeps its place, a top-level one in the channel and a reply in
its thread, under an id drawn after its root's; only a deletion hides a row, and no deletion is taken
back; and only a top-level row has a summary. -/
def Write.Legal (channelId : String) (rows : Rows) (write : Write) : Prop :=
  match write with
  | .whole row =>
    isShown row = true ∧ row.channelId = channelId ∧
      (∀ held ∈ rows.get? row.id, isShown held = true ∧
        row.threadRootId = held.threadRootId ∧ row.inChannel = held.inChannel ∧
        (held.deleted = true → row.deleted = true)) ∧
      (row.threadRootId = none → row.inChannel = true) ∧
      ∀ root ∈ row.threadRootId, row.thread = none ∧ root < row.id
  | .reactions id _ | .pinned id _ | .deleted id => ∃ held ∈ rows.get? id, isShown held = true
  | .thread id summary =>
    ∃ held ∈ rows.get? id, isShown held = true ∧ held.threadRootId = none ∧
      isShown { held with thread := summary } = true

instance (channelId : String) (rows : Rows) : (write : Write) →
    Decidable (write.Legal channelId rows)
  | .whole _ => inferInstanceAs (Decidable (_ ∧ _ ∧ _ ∧ _ ∧ _))
  | .reactions _ _ | .pinned _ _ | .deleted _ | .thread _ _ =>
    inferInstanceAs (Decidable (∃ held, held ∈ (_ : Option Message) ∧ _))

/-- The rows after a history, newest write first: each write takes the next seq. -/
def rowsAfter : List Write → Rows
  | [] => Keyed.empty
  | write :: past => write.run (past.length + 1) (rowsAfter past)

/-- A history as it stood when the channel was at seq `k`. -/
def moment (history : List Write) (k : Nat) : List Write := history.drop (history.length - k)

/-- The rows when the channel stood at seq `k`. -/
def rowsAt (history : List Write) (k : Nat) : Rows := rowsAfter (moment history k)

/-- The server: a channel and its committed writes, newest first. -/
structure Server where
  channelId : String
  history : List Write
  deriving DecidableEq, Repr

/-- The seq the channel stands at. -/
def Server.seq (server : Server) : Nat := server.history.length

/-- The row of an id when the channel stood at seq `k`. -/
def Server.rowAt (server : Server) (k : Nat) (id : Nat) : Option Message :=
  (rowsAt server.history k).get? id

/-- How the server fills in what no seq governs as it reads a row: quotes, and the reader's half of
a thread summary. -/
structure Hydration where
  fill : Message → Message
  versioned : ∀ row, (fill row).versioned = row.versioned

/-- Rows as they are stored, with nothing filled in. -/
def Hydration.none : Hydration := ⟨id, fun _ => rfl⟩

/-- The event of a write to a row, as it left the row. -/
def eventOf (channelId : String) (seq : Nat) (write : Write) (fresh : Bool) (row : Message) :
    ServerEvent :=
  match write with
  | .whole _ => if fresh then .messageCreated row else .messageUpdated row
  | .reactions id list => .reactionsChanged channelId id list seq
  | .pinned id isPinned => .messagePinned channelId id isPinned seq
  | .thread id summary => .threadChanged channelId id summary seq
  | .deleted id =>
    .messageDeleted
      { messageId := id, channelId := channelId, threadRootId := row.threadRootId, seq := seq }

/-- The event of the write that took `seq`, if there was one. -/
def Server.event? (server : Server) (seq : Nat) (hydration : Hydration) : Option ServerEvent :=
  match moment server.history seq with
  | [] => Option.none
  | write :: past =>
    if past.length + 1 = seq then
      (server.rowAt seq write.target).map fun row =>
        eventOf server.channelId seq write (!(rowsAfter past).has write.target)
          (hydration.fill row)
    else Option.none

/-! ## The list RPCs -/

/-- The page size asked for, or the fallback, and never more than the maximum. -/
def clampPageSize (requested fallback maximum : Nat) : Nat :=
  if requested = 0 then fallback else min requested maximum

def defaultPageSize : Nat := 50
def maxPageSize : Nat := 100
def defaultChangesPageSize : Nat := 100
def maxChangesPageSize : Nat := 200

/-- Where a page is asked for. -/
inductive Paging
  | newest
  | before (id : Nat)
  | after (id : Nat)
  | around (id : Nat)
  deriving DecidableEq, Repr

/-- The moments an answer is read at: the channel's seq with the channel's row, the messages after
it, and those at and after a centre in a query of their own. `swept` is what the retention sweep had
taken by then, and `floorId` the floor the answer carries. -/
structure Reading where
  seqAt : Nat
  rowsAt : Nat
  afterAt : Nat
  swept : List Nat
  floorId : Option Nat
  hydration : Hydration

/-- The moments are in the order the server reads in, between the asking and now; and the sweep takes
nothing at or above the floor. -/
structure Reading.Between (reading : Reading) (asked now : Nat) : Prop where
  asked_le : asked ≤ reading.seqAt
  seq_rows : reading.seqAt ≤ reading.rowsAt
  rows_after : reading.rowsAt ≤ reading.afterAt
  after_now : reading.afterAt ≤ now

instance (reading : Reading) (asked now : Nat) : Decidable (reading.Between asked now) :=
  decidable_of_iff
    (asked ≤ reading.seqAt ∧ reading.seqAt ≤ reading.rowsAt ∧ reading.rowsAt ≤ reading.afterAt ∧
      reading.afterAt ≤ now)
    ⟨fun ⟨h₁, h₂, h₃, h₄⟩ => ⟨h₁, h₂, h₃, h₄⟩, fun ⟨h₁, h₂, h₃, h₄⟩ => ⟨h₁, h₂, h₃, h₄⟩⟩

/-- A message the retention floor is judged by: a reply goes by its root's age. -/
def Message.age (row : Message) : Nat := row.threadRootId.getD row.id

/-- The rows a reading finds at a moment: the sweep has taken some, all of them below the floor it
carries. -/
def Reading.found (reading : Reading) (rows : Rows) : Rows :=
  rows.filter fun row =>
    !(reading.swept.contains row.id &&
      (reading.floorId.map fun floorId => decide (row.age < floorId)).getD false)

/-- Whether a timeline's queries list a row: the channel's list rows that are shown in it, a thread's
its replies that are no tombstones. -/
def lists (rootId : Option Nat) (row : Message) : Bool :=
  match rootId with
  | none => row.inChannel && isShown row
  | some root => row.threadRootId == some root && !row.deleted

/-- A timeline's rows, oldest first. -/
def timelineRows (rows : Rows) (rootId : Option Nat) : List Message :=
  (rows.values.filter (lists rootId)).insertionSort fun a b => a.id ≤ b.id

/-- `ListMessagesBefore` and `ListThreadBefore`, turned oldest first. -/
def pageBefore (rows : Rows) (rootId beforeId : Option Nat) (limit : Nat) : List Message :=
  let older := (timelineRows rows rootId).filter fun row =>
    (beforeId.map fun beforeId => decide (row.id < beforeId)).getD true
  older.drop (older.length - limit)

/-- `ListMessagesAfter` and `ListThreadAfter`. -/
def pageAfter (rows : Rows) (rootId : Option Nat) (afterId : Nat) (inclusive : Bool) (limit : Nat) :
    List Message :=
  ((timelineRows rows rootId).filter fun row =>
    decide (afterId < row.id) || inclusive && row.id == afterId).take limit

/-- `GetMessage`: a message a reader is shown. -/
def getMessage (rows : Rows) (id : Nat) : Option Message := (rows.get? id).filter isShown

/-- Whether a timeline holds a row. -/
def timelineHolds (rootId : Option Nat) (row : Message) : Bool :=
  match rootId with
  | none => row.inChannel
  | some root => row.threadRootId == some root

/-- Whether there is a timeline to page: a root that is not a top-level message shown in the channel
is not found. -/
def pagerFor (rows : Rows) (rootId : Option Nat) : Bool :=
  (rootId.map fun root => (getMessage rows root).any (·.threadRootId.isNone)).getD true

/-- What a window is centred on: a reply that shows only in its thread centres the channel on its
root. -/
def centreOf (rows : Rows) (rootId : Option Nat) (aroundId : Nat) : Option Nat :=
  match getMessage rows aroundId with
  | none => none
  | some target =>
    if timelineHolds rootId target then some aroundId
    else if rootId.isNone then target.threadRootId
    else none

/-- A page's rows, and whether there may be older and newer ones. `rows` is the table as the first
query finds it, and `rowsAfter` as the one at and after a centre does. -/
def pageOf (rows rowsAfter : Rows) (rootId : Option Nat) (paging : Paging) (limit : Nat) :
    Option (List Message × Bool × Bool) :=
  match paging with
  | .newest =>
    let page := pageBefore rows rootId none limit
    some (page, page.length == limit, false)
  | .before id =>
    let page := pageBefore rows rootId (some id) limit
    some (page, page.length == limit, true)
  | .after id =>
    let page := pageAfter rows rootId id false limit
    some (page, true, page.length == limit)
  | .around id =>
    (centreOf rows rootId id).map fun centre =>
      let older := limit / 2
      let newer := limit - older
      let before := pageBefore rows rootId (some centre) older
      let after := pageAfter rowsAfter rootId centre true newer
      (before ++ after, before.length == older, after.length == newer)

/-- A page of a channel's timeline, or of a thread's; nothing when it, or the centre, is not
found. -/
def listMessages (server : Server) (rootId : Option Nat) (paging : Paging) (limit : Nat)
    (reading : Reading) : Option ListMessagesResponse :=
  let rows := reading.found (rowsAt server.history reading.rowsAt)
  let rowsAfter := reading.found (rowsAt server.history reading.afterAt)
  if pagerFor rows rootId then
    (pageOf rows rowsAfter rootId paging (clampPageSize limit defaultPageSize maxPageSize)).map
      fun page =>
        { messages := page.1.map reading.hydration.fill, hasOlder := page.2.1, hasNewer := page.2.2
          channelSeq := reading.seqAt, retentionFloorId := reading.floorId }
  else none

/-- A page of the changes stamped above `sinceSeq`, in seq order. -/
def listChanges (server : Server) (sinceSeq : Nat) (limit : Nat) (reading : Reading) :
    ListChangesResponse :=
  let limit := clampPageSize limit defaultChangesPageSize maxChangesPageSize
  let rows := reading.found (rowsAt server.history reading.rowsAt)
  let page := ((rows.values.filter fun row => decide (sinceSeq < row.seq)).insertionSort
    fun a b => a.seq ≤ b.seq).take limit
  { messages := page.map reading.hydration.fill, channelSeq := reading.seqAt
    hasMore := page.length == limit, retentionFloorId := reading.floorId }

end Stoop.Channel
