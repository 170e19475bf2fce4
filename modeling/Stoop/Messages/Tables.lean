import Mathlib.Data.List.Sort
import Stoop.Lib.Keyed
import Stoop.Lib.Recency

/-!
# A channel's tables

The rows the chat module keeps of a channel, and the statements its transactions run on them
(`internal/db/queries/chat`). The rows that hang off a message and go with it (attachments, links,
reactions, mentions, its pin) are fields of it.

An id is a UUIDv7 and a person, a file and a moment are only ever compared: numbers here. What a
statement returns for an event alone is left out, and so are the cached cards of link previews, which
are a URL's and no message's.
-/

set_option autoImplicit false

namespace Stoop.Messages

open Stoop.Lib

/-- A URL in a message, and whether its card was dismissed. -/
structure MessageLink where
  url : String
  dismissed : Bool
  deriving DecidableEq, Repr

/-- A row of `messages`, with what hangs off it. -/
structure MessageRow where
  id : Nat
  authorId : Nat
  content : String
  createdAt : Nat
  editedAt : Option Nat := none
  mentionsEntireChannel : Bool := false
  mentionsHere : Bool := false
  replyToMessageId : Option Nat := none
  threadRootId : Option Nat := none
  inChannel : Bool := true
  deletedAt : Option Nat := none
  seq : Nat
  attachments : List Nat := []
  links : List MessageLink := []
  reactions : List (Nat × String) := []
  mentions : List Nat := []
  pinnedBy : Option Nat := none
  deriving DecidableEq, Repr

/-- A row of `threads`: what the line under a root shows. -/
structure Thread where
  rootMessageId : Nat
  replyCount : Nat
  lastReplyId : Option Nat
  lastReplyAt : Option Nat
  recentAuthorIds : List Nat
  deriving DecidableEq, Repr

/-- A channel: its row's log position and newest message, its messages and their threads. -/
structure Channel where
  seq : Nat
  lastMessageId : Option Nat
  messages : Keyed MessageRow.id
  threads : Keyed Thread.rootMessageId

/-- A channel with nothing in it yet. -/
def emptyChannel : Channel := ⟨0, none, Keyed.empty, Keyed.empty⟩

/-- Why a transaction is rolled back. -/
inductive Refusal
  | messageGone
  | placeholder
  | unchanged
  | noRow
  deriving DecidableEq, Repr

def maxChannelPins : Nat := 50

/-- How many recent authors a thread's row names. -/
def recentAuthors : Nat := 3

/-! ## Reading -/

/-- Whether a reader is shown a row: a live message, or a root whose thread has live replies. -/
def Channel.shows (c : Channel) (row : MessageRow) : Bool := row.deletedAt.isNone || c.threads.has row.id

/-- `GetMessage`. -/
def Channel.getMessage (c : Channel) (id : Nat) : Option MessageRow :=
  (c.messages.get? id).filter c.shows

/-- `liveMessage`: a write's target, read again under the channel row. -/
def Channel.liveMessage (c : Channel) (id : Nat) : Except Refusal MessageRow :=
  match c.getMessage id with
  | none => .error .messageGone
  | some row => if row.deletedAt.isSome then .error .placeholder else .ok row

/-- `LockThread`: the replies a root's row counts, none without one. -/
def Channel.lockThread (c : Channel) (rootId : Nat) : Nat :=
  ((c.threads.get? rootId).map (·.replyCount)).getD 0

/-- What a thread's summary is counted from. -/
structure Reply where
  id : Nat
  authorId : Nat
  createdAt : Nat
  deriving DecidableEq, Repr

/-- A row as a live reply under a root. -/
def MessageRow.replyTo (row : MessageRow) (rootId : Nat) : Option Reply :=
  if row.threadRootId = some rootId ∧ row.deletedAt = none then
    some ⟨row.id, row.authorId, row.createdAt⟩
  else none

/-- The live replies under a root. -/
def Channel.replies (c : Channel) (rootId : Nat) : List Reply :=
  c.messages.values.filterMap (·.replyTo rootId)

/-- `ORDER BY id DESC`. -/
def newestFirst (replies : List Reply) : List Reply := replies.insertionSort fun x y => y.id ≤ x.id

/-! ## Stamps and tombstones -/

/-- A row written where it stands. -/
def Channel.setRow (c : Channel) (row : MessageRow) : Channel :=
  { c with messages := c.messages.set row }

/-- A row at a log position. -/
def MessageRow.withSeq (row : MessageRow) (seq : Nat) : MessageRow := { row with seq := seq }

@[simp] theorem MessageRow.withSeq_id (row : MessageRow) (seq : Nat) : (row.withSeq seq).id = row.id := rfl
@[simp] theorem MessageRow.withSeq_seq (row : MessageRow) (seq : Nat) : (row.withSeq seq).seq = seq := rfl

/-- `NextChannelSeq` and `StampMessageSeq`: a row written at the channel's next position. -/
def Channel.stamped (c : Channel) (row : MessageRow) : Channel :=
  { c.setRow (row.withSeq (c.seq + 1)) with seq := c.seq + 1 }

/-- `stampMessage`. -/
def Channel.stampMessage (c : Channel) (id : Nat) : Except Refusal Channel :=
  match c.messages.get? id with
  | none => .error .messageGone
  | some row => .ok (c.stamped row)

/-- A row as `TombstoneMessage` leaves it. -/
def MessageRow.tombstoned (row : MessageRow) (now : Nat) : MessageRow :=
  { row with
    content := "", mentionsEntireChannel := false, mentionsHere := false, editedAt := none
    deletedAt := some now, attachments := [], links := [], reactions := [], mentions := []
    pinnedBy := none }

/-- `tombstoneRow`: a row that is a tombstone already is not found. -/
def Channel.tombstoneRow (c : Channel) (now id : Nat) : Except Refusal Channel :=
  match c.messages.get? id with
  | none => .error .messageGone
  | some row =>
    if row.deletedAt.isSome then .error .messageGone
    else (c.setRow (row.tombstoned now)).stampMessage id

/-- `UnpinMessage`, and whether a pin went. -/
def Channel.unpinMessage (c : Channel) (id : Nat) : Channel × Bool :=
  match c.messages.get? id with
  | none => (c, false)
  | some row => (c.setRow { row with pinnedBy := none }, row.pinnedBy.isSome)

/-- `RecomputeChannelLastMessage`. -/
def Channel.recomputeLastMessage (c : Channel) : Channel :=
  { c with
    lastMessageId := ((c.messages.values.filter fun row => row.inChannel && c.shows row).map (·.id)).max? }

/-! ## Thread summaries -/

/-- `RecordThreadReply`. -/
def Channel.recordThreadReply (c : Channel) (rootId : Nat) (reply : Reply) : Channel :=
  { c with threads := c.threads.set <|
      match c.threads.get? rootId with
      | none => ⟨rootId, 1, some reply.id, some reply.createdAt, [reply.authorId]⟩
      | some thread =>
        { thread with
          replyCount := thread.replyCount + 1, lastReplyId := some reply.id
          lastReplyAt := some reply.createdAt
          recentAuthorIds := touch recentAuthors reply.authorId thread.recentAuthorIds } }

/-- The summary `RecomputeThread` counts from a root's live replies. -/
def recounted (rootId : Nat) (replies : List Reply) : Thread :=
  let latest := (newestFirst replies).head?
  -- DISTINCT ON (author_id): each author's newest reply
  let authors := newestFirst (replies.filter (isNewest (·.authorId) (·.id) replies))
  ⟨rootId, replies.length, latest.map (·.id), latest.map (·.createdAt),
    (authors.take recentAuthors).map (·.authorId)⟩

/-- `RecomputeThread`: a root without a row has none to update. -/
def Channel.recomputeThread (c : Channel) (rootId : Nat) : Channel × Option Thread :=
  if c.threads.has rootId then
    let thread := recounted rootId (c.replies rootId)
    ({ c with threads := c.threads.set thread }, some thread)
  else (c, none)

/-- `DeleteThreadSummary`. -/
def Channel.deleteThreadSummary (c : Channel) (rootId : Nat) : Channel :=
  { c with threads := c.threads.filter fun thread => thread.rootMessageId != rootId }

end Stoop.Messages
