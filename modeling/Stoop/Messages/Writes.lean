import Stoop.Messages.Tables

/-!
# The transactions that write messages

`internal/chat`: `messages.go`, `tombstones.go`, `threads.go`, `pins.go`, `reactions.go`, `links.go`.
Each takes the channel's row before anything else (`NextChannelSeq`, or `LockChannel` where more than
one row is written), so it runs alone among them: a function of the channel as the row's holder finds
it, which commits what it returns and rolls back when it refuses.

A handler reads a message and checks it before its transaction begins. What it read is an argument
here (`Write.reads`), with the checks it made (`Write.admitted`): by the time the transaction holds
the channel's row the message may have changed.
-/

set_option autoImplicit false

namespace Stoop.Messages

open Stoop.Lib

/-- A message to send, under the id drawn for it. -/
structure Sent where
  id : Nat
  authorId : Nat
  content : String
  createdAt : Nat
  mentionsEntireChannel : Bool := false
  mentionsHere : Bool := false
  replyToMessageId : Option Nat := none
  threadRoot : Option MessageRow := none
  alsoSend : Bool := false
  attachments : List Nat := []
  links : List String := []
  mentions : List Nat := []
  deriving DecidableEq, Repr

/-- The row `CreateMessage` inserts, with what is recorded beside it, less its position. -/
def Sent.row (sent : Sent) : MessageRow where
  id := sent.id
  authorId := sent.authorId
  content := sent.content
  createdAt := sent.createdAt
  mentionsEntireChannel := sent.mentionsEntireChannel
  mentionsHere := sent.mentionsHere
  replyToMessageId := sent.replyToMessageId
  threadRootId := sent.threadRoot.map (·.id)
  inChannel := sent.threadRoot.isNone || sent.alsoSend
  seq := 0
  attachments := sent.attachments
  links := sent.links.map fun url => ⟨url, false⟩
  mentions := sent.mentions

/-- A message sent, as its thread counts it. -/
def Sent.reply (sent : Sent) : Reply := ⟨sent.id, sent.authorId, sent.createdAt⟩

/-- `SendMessage`'s transaction. -/
def Channel.sendMessage (c : Channel) (sent : Sent) : Except Refusal Channel :=
  let created := c.stamped sent.row
  match sent.threadRoot with
  | none => .ok { created with lastMessageId := some sent.id }
  | some root => do
    -- a delete that committed since would have the reply recreate its thread
    let _ ← c.liveMessage root.id
    let c ← (created.recordThreadReply root.id sent.reply).stampMessage root.id
    return if sent.alsoSend then { c with lastMessageId := some sent.id } else c

/-- `recordLinks`: a card dismissed before stays dismissed. -/
def recordLinks (held : List MessageLink) (urls : List String) : List MessageLink :=
  urls.map fun url => ⟨url, held.any fun link => link.url == url && link.dismissed⟩

/-- `dropRemovedLinks`. -/
def dropRemovedLinks (held : List MessageLink) (urls : List String) : List MessageLink :=
  held.filter fun link => urls.contains link.url

/-- What a stamped row becomes, or why the stamp is rolled back. -/
def Channel.stampThen (c : Channel) (id : Nat) (change : MessageRow → Except Refusal MessageRow) :
    Except Refusal Channel :=
  match c.messages.get? id with
  | none => .error .messageGone
  | some row => do
    let row ← change row
    return c.stamped { row with id := id }

/-- `EditMessage`'s transaction: `UpdateMessageContent` never writes onto a placeholder. -/
def Channel.editMessage (c : Channel) (now : Nat) (msg : MessageRow) (content : String)
    (urls : List String) (previewing : Bool) : Except Refusal Channel :=
  c.stampThen msg.id fun row =>
    if row.deletedAt.isSome then .error .placeholder
    else .ok { row with
      content := content, editedAt := some now
      links := if previewing then recordLinks row.links urls else dropRemovedLinks row.links urls }

/-- `ToggleReaction`'s: added when absent, removed when there; a placeholder has none. -/
def Channel.toggleReaction (c : Channel) (msg : MessageRow) (userId : Nat) (emoji : String) :
    Except Refusal Channel :=
  c.stampThen msg.id fun row =>
    if row.deletedAt.isNone && !row.reactions.contains (userId, emoji) then
      .ok { row with reactions := row.reactions ++ [(userId, emoji)] }
    else if row.reactions.contains (userId, emoji) then
      .ok { row with reactions := row.reactions.filter (· != (userId, emoji)) }
    else .error .placeholder

/-- The pins of a channel. -/
def Channel.pins (c : Channel) : Nat := c.messages.values.countP (·.pinnedBy.isSome)

/-- `pin`: `PinMessage` inserts nothing for a pinned message or in a full channel. -/
def Channel.pin (c : Channel) (msg : MessageRow) (userId : Nat) : Except Refusal Channel :=
  c.stampThen msg.id fun row =>
    match c.liveMessage msg.id with
    | .error refusal => .error refusal
    | .ok _ =>
      if c.pins < maxChannelPins && row.pinnedBy.isNone then .ok { row with pinnedBy := some userId }
      else .error .noRow

/-- `unpin`. -/
def Channel.unpin (c : Channel) (msg : MessageRow) : Except Refusal Channel :=
  c.stampThen msg.id fun row =>
    if row.pinnedBy.isSome then .ok { row with pinnedBy := none } else .error .unchanged

/-- `DismissLinkPreview`'s. -/
def Channel.dismissLinkPreview (c : Channel) (msg : MessageRow) (url : String) :
    Except Refusal Channel :=
  c.stampThen msg.id fun row =>
    if row.links.any (·.url == url) then
      .ok { row with
        links := row.links.map fun link => if link.url = url then { link with dismissed := true } else link }
    else .error .unchanged

/-- `stampPreviewed`: previews mean nothing on a tombstone. -/
def Channel.stampPreviewed (c : Channel) (messageId : Nat) : Except Refusal Channel :=
  c.stampThen messageId fun row => if row.deletedAt.isSome then .error .messageGone else .ok row

/-! ## Deleting -/

/-- `hideRoot`: what follows a top-level tombstone nobody is shown any more. -/
def Channel.hideRoot (c : Channel) (rootId : Nat) : Channel :=
  (c.unpinMessage rootId).1.recomputeLastMessage

/-- `tombstoneTopLevel`: a root whose thread has live replies is kept as a placeholder. -/
def Channel.tombstoneTopLevel (c : Channel) (now messageId : Nat) : Except Refusal Channel := do
  let replies := c.lockThread messageId
  let c ← c.tombstoneRow now messageId
  return if 0 < replies then c else c.hideRoot messageId

/-- `tombstoneReply`. -/
def Channel.tombstoneReply (c : Channel) (now : Nat) (msg : MessageRow) (rootId : Nat) :
    Except Refusal Channel :=
  match c.getMessage rootId with
  | none => .error .noRow
  | some root => do
    let c ← c.tombstoneRow now msg.id
    let c := if msg.inChannel then c.recomputeLastMessage else c
    let (c, recounted) := c.recomputeThread rootId
    if 0 < (recounted.map (·.replyCount)).getD 0 then c.stampMessage rootId
    else
      let c ← (c.deleteThreadSummary rootId).stampMessage rootId
      return if root.deletedAt.isNone then c else c.hideRoot rootId

/-- `tombstoneMessage`'s transaction. -/
def Channel.tombstoneMessage (c : Channel) (now : Nat) (msg : MessageRow) : Except Refusal Channel :=
  match msg.threadRootId with
  | none => c.tombstoneTopLevel now msg.id
  | some rootId => c.tombstoneReply now msg rootId

/-- Rows tombstoned one after the other. -/
def Channel.tombstoneAll (c : Channel) (now : Nat) : List Nat → Except Refusal Channel
  | [] => .ok c
  | id :: ids => do
    let c ← c.tombstoneRow now id
    c.tombstoneAll now ids

/-- `tombstoneThread`: every live reply, and then the root; a placeholder is only stamped. -/
def Channel.tombstoneThread (c : Channel) (now : Nat) (root : MessageRow) : Except Refusal Channel := do
  let c ← c.tombstoneAll now (((c.replies root.id).map (·.id)).insertionSort (· ≤ ·))
  let c ← (if root.deletedAt.isNone then c.tombstoneRow now root.id else c.stampMessage root.id :
    Except Refusal Channel)
  return (c.deleteThreadSummary root.id).hideRoot root.id

/-! ## Writes -/

/-- A write to a channel's messages, with what its handler read. -/
inductive Write
  | send (sent : Sent)
  | edit (msg : MessageRow) (now : Nat) (content : String) (urls : List String) (previewing : Bool)
  | delete (msg : MessageRow) (now : Nat)
  | deleteThread (root : MessageRow) (now : Nat)
  | react (msg : MessageRow) (userId : Nat) (emoji : String)
  | pin (msg : MessageRow) (userId : Nat)
  | unpin (msg : MessageRow)
  | dismiss (msg : MessageRow) (url : String)
  | previewed (messageId : Nat)
  deriving DecidableEq, Repr

/-- A write's transaction. -/
def Write.run (c : Channel) : Write → Except Refusal Channel
  | .send sent => c.sendMessage sent
  | .edit msg now content urls previewing => c.editMessage now msg content urls previewing
  | .delete msg now => c.tombstoneMessage now msg
  | .deleteThread root now => c.tombstoneThread now root
  | .react msg userId emoji => c.toggleReaction msg userId emoji
  | .pin msg userId => c.pin msg userId
  | .unpin msg => c.unpin msg
  | .dismiss msg url => c.dismissLinkPreview msg url
  | .previewed messageId => c.stampPreviewed messageId

/-- The message a handler read before its write. -/
def Write.reads : Write → Option MessageRow
  | .send sent => sent.threadRoot
  | .edit msg _ _ _ _ | .delete msg _ | .deleteThread msg _ | .react msg _ _ | .pin msg _
  | .unpin msg | .dismiss msg _ => some msg
  | .previewed _ => none

/-- What a handler asks of the message it read. -/
def Write.admitted : Write → Bool
  | .send sent => sent.threadRoot.all fun root => root.threadRootId.isNone && root.deletedAt.isNone
  | .edit msg _ _ _ _ | .delete msg _ | .react msg _ _ => msg.deletedAt.isNone
  | .deleteThread root _ => root.threadRootId.isNone
  | .pin msg _ => msg.threadRootId.isNone && msg.deletedAt.isNone
  | .unpin _ | .dismiss _ _ | .previewed _ => true

/-- The id a write draws: `rowid.New`, under the channel's row. -/
def Write.draws : Write → Option Nat
  | .send sent => some sent.id
  | _ => none

/-- The message a write pins. -/
def Write.pins : Write → Option Nat
  | .pin msg _ => some msg.id
  | _ => none

end Stoop.Messages
