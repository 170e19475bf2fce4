import Mathlib.Data.List.MinMax
import Stoop.Lib.Machine
import Stoop.Lib.Commits

/-!
# Activity items and read markers in the database

The rows a person's alerts are made of (`activity_items`), the markers that read them (`channel_reads`,
`thread_reads`), and the transactions that write either: a send with its author's markers, the two calls
that mark read, the deletions, and the writing of a message's activity once its send has committed.

A statement sees what was committed when it began (`Tables.run`), and what it writes stays its
transaction's until that commits (`Change.apply`). There the rows it chose are looked at again, as a
row somebody else has changed meanwhile is: a marking reads an item only if it is still about the message
it was about, a deletion likewise, and a refresh only an entry still under the id it had. Of its own
transaction's writes a statement here would see only items that an earlier one of them has read, which are
read again to no effect, so `run` leaves them out.

Nothing is lost by a commit's being one step: a row is held from its write to its commit, and who waits for
it goes by what it is then. The channel's row and the lock on its activity are held from the start (`Lock`).

Ids are UUIDv7s, compared only: numbers here, with one count to mint them from (`rowid.New`). An item's
`row` is the id it was created under, which stays when a refresh gives it another.
-/

set_option autoImplicit false

namespace Stoop.Alerts

open Stoop.Lib

/-! ## The tables -/

/-- `activity_items.kind`. -/
inductive AlertKind
  | mention | reply | dm | threadReply
  deriving DecidableEq, Repr

/-- Whether alerts of the kind share one unread entry (`alert.coalesce`). -/
def AlertKind.coalesces : AlertKind → Bool
  | .mention | .reply => false
  | .dm | .threadReply => true

/-- A row of `messages`, as far as activity looks at it. -/
structure Message where
  id : Nat
  channelId : Nat
  threadRootId : Option Nat
  inChannel : Bool
  deleted : Bool
  deriving DecidableEq, Repr

/-- What a marker is in: a row of `channel_reads`, or one of `thread_reads`. -/
inductive Place
  | channel (id : Nat)
  | thread (root : Nat)
  deriving DecidableEq, Repr

/-- Whether a marker in a place passes a message by, for an alert of a kind: a channel's what it shows,
threads' entries apart, a thread's its replies. -/
def Place.covers (kind : AlertKind) (m : Message) : Place → Bool
  | .channel id => kind != .threadReply && m.inChannel && m.channelId == id
  | .thread root => m.threadRootId == some root

structure ReadMarker where
  userId : Nat
  place : Place
  lastRead : Nat
  deriving DecidableEq, Repr

def ReadMarker.key (r : ReadMarker) : Nat × Place := (r.userId, r.place)

/-- A row of `activity_items`. -/
structure ActivityItem where
  row : Nat
  id : Nat
  userId : Nat
  kind : AlertKind
  channelId : Nat
  messageId : Nat
  read : Bool
  deriving DecidableEq, Repr

structure Tables where
  messages : Keyed Message.id
  reads : Keyed ReadMarker.key
  items : Keyed ActivityItem.row

namespace Tables

variable (t : Tables)

/-- Whether a person's marker in a place is at a message or after it. -/
def reached (userId : Nat) (place : Place) (messageId : Nat) : Bool :=
  (t.reads.get? (userId, place)).any fun r => decide (messageId ≤ r.lastRead)

/-- Whether an item is born read: the recipient's marker has passed its message already. -/
def bornRead (kind : AlertKind) (userId : Nat) (m : Message) : Bool :=
  (kind != .threadReply && m.inChannel && t.reached userId (.channel m.channelId) m.id) ||
    m.threadRootId.any fun root => t.reached userId (.thread root) m.id

/-- A message that is no tombstone (the `live` of both activity statements). -/
def live (messageId : Nat) : Option Message := (t.messages.get? messageId).filter fun m => !m.deleted

/-- The thread an item's message is in. -/
def threadOf (a : ActivityItem) : Option Nat := (t.messages.get? a.messageId).bind (·.threadRootId)

/-- Where a marker ends up: it never moves back (`GREATEST`). -/
def moved (userId : Nat) (place : Place) (target : Nat) : Nat :=
  ((t.reads.get? (userId, place)).map (·.lastRead)).elim target (max target)

/-- A thread's replies that are no tombstones, which are what its summary counts. -/
def liveReplies (root : Nat) : List Nat :=
  (t.messages.values.filter fun m => m.threadRootId == some root && !m.deleted).map (·.id)

end Tables

/-! ## What a transaction writes -/

/-- An item inserted or, `refreshes` naming a row and the id it was found under, put in the place of one. -/
structure ItemWrite where
  refreshes : Option (Nat × Nat)
  item : ActivityItem
  about : Message
  deriving DecidableEq, Repr

inductive Change
  | message (m : Message)
  /-- A marker moved, and the items it passes, each with its message. -/
  | read (userId : Nat) (place : Place) (target : Nat) (passed : List (Nat × Nat))
  | item (write : ItemWrite)
  /-- A message made a tombstone, and the items about it. -/
  | tombstone (messageId : Nat) (rows : List Nat)
  | viewersGone (root : Nat)
  deriving DecidableEq, Repr

/-- An item that a marking has passed. -/
def ActivityItem.readIf (passed : List (Nat × Nat)) (a : ActivityItem) : ActivityItem :=
  if !a.read && passed.contains (a.row, a.messageId) then { a with read := true } else a

def Message.tombstoneIf (id : Nat) (m : Message) : Message := if m.id = id then { m with deleted := true } else m

/-- What a change does to what is committed by then. -/
def Change.apply (t : Tables) : Change → Tables
  | .message m => { t with messages := t.messages.set m }
  | .read userId place target passed =>
    { t with
      reads := t.reads.set ⟨userId, place, t.moved userId place target⟩
      items := t.items.map (·.readIf passed) fun a => by
        simp only [ActivityItem.readIf]
        split <;> rfl }
  | .item write =>
    match write.refreshes with
    | none => { t with items := t.items.set write.item }
    | some (row, id) =>
      if (t.items.get? row).any (·.id == id) then { t with items := t.items.set write.item } else t
  | .tombstone id rows =>
    { t with
      items := t.items.filter fun a => !(rows.contains a.row && a.messageId == id)
      messages := t.messages.map (·.tombstoneIf id) fun m => by
        simp only [Message.tombstoneIf]
        split <;> rfl }
  | .viewersGone root => { t with reads := t.reads.filter fun r => r.place != .thread root }

/-! ## Statements -/

/-- One whom an alert goes to, and the id minted for their item. -/
structure Recipient where
  id : Nat
  userId : Nat
  deriving DecidableEq, Repr

inductive Statement
  /-- A marker's write and then the reading of what it has passed, if the credential covers that. -/
  | markRead (userId channelId : Nat) (place : Place) (target : Nat) (covers : Bool)
  | tombstoneMessage (messageId : Nat)
  | deleteThreadViewerRows (root : Nat)
  | createActivityItems (kind : AlertKind) (channelId messageId : Nat) (recipients : List Recipient)
  | upsertUnreadActivityItems (kind : AlertKind) (channelId messageId : Nat) (threadRootId : Option Nat)
      (recipients : List Recipient)
  deriving DecidableEq, Repr

/-- `markChannelRead`: `UpsertChannelRead`, then `MarkChannelActivityRead`. -/
def markChannelRead (userId channelId messageId : Nat) (covers : Bool) : Statement :=
  .markRead userId channelId (.channel channelId) messageId covers

/-- `markThreadRead`: `MarkThreadRead`, then `MarkThreadActivityRead`. -/
def markThreadRead (userId channelId root replyId : Nat) (covers : Bool) : Statement :=
  .markRead userId channelId (.thread root) replyId covers

namespace Tables

variable (t : Tables)

/-- What `MarkChannelActivityRead` and `MarkThreadActivityRead` choose: a person's unread items in the
channel about messages of the place at or before the stored marker. -/
def passedItems (userId channelId : Nat) (place : Place) (target : Nat) : List (Nat × Nat) :=
  (t.items.values.filter fun a =>
    a.userId == userId && a.channelId == channelId && !a.read && decide (a.messageId ≤ t.moved userId place target) &&
      (t.messages.get? a.messageId).any fun m =>
        match place with
        | .channel _ => a.kind != .threadReply && m.inChannel
        | .thread root => m.threadRootId == some root).map fun a => (a.row, a.messageId)

/-- A recipient's newest unread item of a kind in a channel, or in a thread of it. -/
def unread (kind : AlertKind) (channelId : Nat) (threadRootId : Option Nat) (userId : Nat) : Option ActivityItem :=
  (t.items.values.filter fun a =>
    a.userId == userId && a.channelId == channelId && a.kind == kind && !a.read &&
      threadRootId.all fun root => t.threadOf a == some root).argmax (·.id)

/-- A new item for a recipient. -/
def created (kind : AlertKind) (channelId : Nat) (m : Message) (r : Recipient) : ItemWrite where
  refreshes := none
  item := ⟨r.id, r.id, r.userId, kind, channelId, m.id, t.bornRead kind r.userId m⟩
  about := m

/-- A recipient's unread item pointed at a new message, under a fresh id. -/
def refreshed (kind : AlertKind) (m : Message) (r : Recipient) (a : ActivityItem) : ItemWrite where
  refreshes := some (a.row, a.id)
  item := { a with id := r.id, messageId := m.id, read := t.bornRead kind r.userId m }
  about := m

/-- What a statement writes, by what is committed as it begins. -/
def run : Statement → List Change
  | .markRead userId channelId place target covers =>
    [.read userId place target (if covers then t.passedItems userId channelId place target else [])]
  | .tombstoneMessage id => [.tombstone id ((t.items.values.filter fun a => a.messageId == id).map (·.row))]
  | .deleteThreadViewerRows root => [.viewersGone root]
  | .createActivityItems kind channelId messageId recipients =>
    (t.live messageId).elim [] fun m => recipients.map fun r => .item (t.created kind channelId m r)
  | .upsertUnreadActivityItems kind channelId messageId threadRootId recipients =>
    (t.live messageId).elim [] fun m => recipients.map fun r =>
      .item ((t.unread kind channelId threadRootId r.userId).elim (t.created kind channelId m r) (t.refreshed kind m r))

end Tables

/-! ## Calls -/

/-- What a transaction holds from its start: the channel's row, as a send or a deletion takes it or as a
marking shares it, or the lock on the channel's coalescing writes (`LockActivityPlace`). -/
inductive Lock
  | free
  | exclusive (channelId : Nat)
  | shared (channelId : Nat)
  | activity (channelId : Nat)
  deriving DecidableEq, Repr

def Lock.conflicts : Lock → Lock → Bool
  | .exclusive c, .exclusive d | .exclusive c, .shared d | .shared c, .exclusive d
  | .activity c, .activity d => c == d
  | _, _ => false

structure Call where
  id : Nat
  lock : Lock
  todo : List Statement
  written : List Change
  deriving DecidableEq, Repr

inductive Request
  | send (userId channelId : Nat) (threadRoot : Option Nat) (alsoSend covers : Bool)
  | markChannelRead (userId channelId target : Nat) (covers : Bool)
  | markThreadRead (userId root target : Nat) (covers : Bool)
  /-- One alert about a message sent (`notify`). -/
  | notify (kind : AlertKind) (messageId : Nat) (recipients : List Nat)
  | deleteMessage (messageId : Nat)
  | deleteThread (root : Nat)
  deriving DecidableEq, Repr

structure World where
  tables : Tables
  calls : Keyed Call.id
  minted : Nat

/-- What a request's transaction holds, does, has written as it starts, and how many ids it takes. -/
structure Plan where
  lock : Lock
  todo : List Statement
  written : List Change
  mints : Nat

namespace Tables

variable (t : Tables)

/-- Whether a message can have a reply: `threadRootFor`, and `liveMessage` once the channel's row is held. -/
def threadRootFor (channelId root : Nat) : Bool :=
  (t.live root).any fun m => m.channelId == channelId && m.threadRootId.isNone

/-- `tombstoneTopLevel` and `tombstoneReply`: the message goes, and a root nobody is shown any more takes
its thread's markers with it (`hideRoot`). -/
def tombstoneMessage (m : Message) : List Statement :=
  match m.threadRootId with
  | none =>
    .tombstoneMessage m.id :: if (t.liveReplies m.id).isEmpty then [.deleteThreadViewerRows m.id] else []
  | some root =>
    .tombstoneMessage m.id ::
      if ((t.liveReplies root).filter (· != m.id)).isEmpty && (t.live root).isNone then
        [.deleteThreadViewerRows root]
      else []

/-- `tombstoneThread`: the live replies, the root unless it is a placeholder, and its viewers' rows. -/
def tombstoneThread (root : Message) : List Statement :=
  (t.liveReplies root.id).map .tombstoneMessage ++
    ((if root.deleted then [] else [.tombstoneMessage root.id]) ++ [.deleteThreadViewerRows root.id])

/-- What a request's transaction does, with the ids that `minted` gives it. A send's message goes in before
any of its statements looks at anything. The recipients of an alert, whom `recordActivity` picks, are left
open, but nobody is picked twice for an entry they keep one of: a thread's participants and a conversation's
are sets. With nobody to tell there is no transaction. -/
def plan (minted : Nat) : Request → Option Plan
  | .send userId channelId threadRoot alsoSend covers =>
    if (alsoSend && threadRoot.isNone) || !threadRoot.all (t.threadRootFor channelId) then none
    else
      let m : Message := ⟨minted, channelId, threadRoot, threadRoot.isNone || alsoSend, false⟩
      some ⟨.exclusive channelId,
        (threadRoot.toList.map fun root => Alerts.markThreadRead userId channelId root m.id covers) ++
          (if m.inChannel then [Alerts.markChannelRead userId channelId m.id covers] else []),
        [.message m], 1⟩
  | .markChannelRead userId channelId target covers =>
    some ⟨.shared channelId, [Alerts.markChannelRead userId channelId target covers], [], 0⟩
  | .markThreadRead userId root target covers =>
    (t.messages.get? root).bind fun m =>
      if m.threadRootId.isNone && (t.messages.get? target).any (·.threadRootId == some root) then
        some ⟨.shared m.channelId, [Alerts.markThreadRead userId m.channelId root target covers], [], 0⟩
      else none
  | .notify kind messageId recipients =>
    if recipients = [] then none
    else (t.messages.get? messageId).bind fun m =>
      let told := (List.range' minted recipients.length).zipWith Recipient.mk recipients
      if kind.coalesces then
        if recipients.Nodup ∧ (kind = .threadReply → m.threadRootId.isSome) then
          let threadRootId := if kind = .threadReply then m.threadRootId else none
          some ⟨.activity m.channelId, [.upsertUnreadActivityItems kind m.channelId messageId threadRootId told],
            [], recipients.length⟩
        else none
      else some ⟨.free, [.createActivityItems kind m.channelId messageId told], [], recipients.length⟩
  | .deleteMessage messageId =>
    (t.live messageId).map fun m => ⟨.exclusive m.channelId, t.tombstoneMessage m, [], 0⟩
  | .deleteThread root =>
    (t.messages.get? root).bind fun m =>
      if m.threadRootId.isNone then some ⟨.exclusive m.channelId, t.tombstoneThread m, [], 0⟩ else none

end Tables

inductive Label
  | ask (call : Nat) (request : Request)
  | proceed (call : Nat)
  | commit (call : Nat)
  | rollback (call : Nat)
  deriving DecidableEq, Repr

/-- Changes applied one after the other. -/
def Tables.applyAll (t : Tables) (cs : List Change) : Tables := cs.foldl Change.apply t

namespace World

/-- Nothing has been sent. -/
def start : World := ⟨⟨.empty, .empty, .empty⟩, .empty, 0⟩

/-- A call starts once nobody holds what it must, runs its statements one at a time, and commits what they
wrote, or gives it up. -/
def step (w : World) : Label → Option World
  | .ask call request =>
    if w.calls.has call then none
    else
      (w.tables.plan w.minted request).bind fun plan =>
        if w.calls.values.any fun c => c.lock.conflicts plan.lock then none
        else some ⟨w.tables, w.calls.set ⟨call, plan.lock, plan.todo, plan.written⟩, w.minted + plan.mints⟩
  | .proceed call =>
    (w.calls.get? call).bind fun c =>
      match c.todo with
      | [] => none
      | s :: rest =>
        some { w with calls := w.calls.set { c with todo := rest, written := c.written ++ w.tables.run s } }
  | .commit call =>
    (w.calls.get? call).bind fun c =>
      if c.todo = [] then
        some { w with tables := w.tables.applyAll c.written, calls := w.calls.filter fun d => d.id != call }
      else none
  | .rollback call =>
    if w.calls.has call then some { w with calls := w.calls.filter fun d => d.id != call } else none

/-- Where a list of labels leads. -/
def after (labels : List Label) : World := (runList step start labels).getD start

end World

end Stoop.Alerts
