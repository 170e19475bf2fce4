import Stoop.Lib.Keyed

/-!
# The channel log's data: rows, views, the log

One log per channel: every row known by id, the position through which every change is known, and
the views that range over it. The rules that change one are in the modules beside this one.

An id is a UUIDv7, which sorts in the order it was made and is only ever compared: a number here, as
a seq is.

A rule of the source hands back the object it was given when nothing changed. A value has no
identity, so the tests that only keep the object are left out here, save where a later test reads
the identity (`withArrivals`).
-/

set_option autoImplicit false

namespace Stoop.Channel

open Stoop.Lib

/-! ## Rows -/

/-- Who wrote a row: the log hands the snapshot on and reads nothing of it but its presence. -/
abbrev MessageAuthor := String

/-- A snapshot of a message quoted or answered. -/
structure ReplyRef where
  messageId : Nat
  author : Option MessageAuthor := none
  preview : String := ""
  deriving DecidableEq, Repr

/-- One emoji on a message and everyone who added it. -/
structure Reaction where
  emoji : String
  userIds : List String
  deriving DecidableEq, Repr

/-- What the line under a thread's root shows. The last three fields are the reader's own half,
which the server fills in for each request and never sends in an event. -/
structure ThreadSummary where
  replyCount : Nat := 0
  lastReplyAt : Option Nat := none
  recentAuthors : List MessageAuthor := []
  participating : Bool := false
  muted : Bool := false
  unreadCount : Nat := 0
  deriving DecidableEq, Repr

/-- A message row. Attachments, previews and mentions are named by their ids alone. -/
structure Message where
  id : Nat
  channelId : String
  author : Option MessageAuthor := none
  content : String := ""
  mentionUserIds : List String := []
  mentionsEntireChannel : Bool := false
  replyTo : Option ReplyRef := none
  mentionsHere : Bool := false
  editedAt : Option Nat := none
  reactions : List Reaction := []
  attachments : List String := []
  linkPreviews : List String := []
  pinned : Bool := false
  threadRootId : Option Nat := none
  thread : Option ThreadSummary := none
  deleted : Bool := false
  inChannel : Bool := false
  threadRoot : Option ReplyRef := none
  seq : Nat := 0
  deriving DecidableEq, Repr

/-- A row at a seq. -/
def Message.withSeq (row : Message) (seq : Nat) : Message := { row with seq := seq }

@[simp] theorem Message.withSeq_seq (row : Message) (seq : Nat) : (row.withSeq seq).seq = seq := rfl
@[simp] theorem Message.withSeq_id (row : Message) (seq : Nat) : (row.withSeq seq).id = row.id := rfl

/-- Rows by id, in the order they came. -/
abbrev Rows := Keyed Message.id

/-! ## Views -/

/-- How many shown rows a view holds before its far end is pruned. -/
def LOG_CAP : Nat := 2000

/-- A contiguous range of the log a list shows: two ids, and whether the server has rows beyond
either. `generation` moves when the range is replaced, so a page asked for the old range is dropped
when it answers. -/
structure View where
  oldestId : Option Nat
  newestId : Option Nat
  hasOlder : Bool
  hasNewer : Bool
  pendingNewer : Nat
  generation : Nat
  deriving DecidableEq, Repr

/-- A view before its first page: nothing shown, and not live until a page says so. -/
def emptyView : View :=
  { oldestId := none, newestId := none, hasOlder := false, hasNewer := true, pendingNewer := 0,
    generation := 0 }

/-- One view per open thread, by its root's id. -/
abbrev Threads := Keyed (Prod.fst : Nat × View → Nat)

/-! ## The log -/

/-- A channel's log. `seq` is the position through which every change is known, 0 before the first
page; `seenSeq` the highest seq an event has carried, applied or not; `floor` the retention floor's
id, if retention is on; `needsCatchUp` says that a `ListChanges` from `seq` is owed. -/
structure ChannelLog where
  channelId : String
  seq : Nat
  seenSeq : Nat
  rows : Rows
  channel : View
  threads : Threads
  floor : Option Nat
  needsCatchUp : Bool

/-- A channel's log before anything is known. -/
def emptyLog (channelId : String) : ChannelLog :=
  { channelId := channelId, seq := 0, seenSeq := 0, rows := Keyed.empty, channel := emptyView,
    threads := Keyed.empty, floor := none, needsCatchUp := false }

end Stoop.Channel
