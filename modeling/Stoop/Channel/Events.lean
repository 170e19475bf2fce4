import Stoop.Channel.Log

/-!
# Events: what a realtime event about a message does to its channel's log

Each kind yields a row at the event's seq, merged by seq like any other arrival, and every kind moves
`seenSeq`. Then the position: the next seq is applied and known; one further on is applied too but
marks a gap; one at or below what is known is ignored. A partial event about a row that isn't held
covers nothing of its seq.
-/

set_option autoImplicit false

namespace Stoop.Channel

open Stoop.Lib

/-- What the server tells of a write. -/
inductive ServerEvent
  | messageCreated (row : Message)
  | messageUpdated (row : Message)
  | reactionsChanged (channelId : String) (messageId : Nat) (reactions : List Reaction) (seq : Nat)
  | messagePinned (channelId : String) (messageId : Nat) (pinned : Bool) (seq : Nat)
  | threadChanged (channelId : String) (rootMessageId : Nat) (thread : Option ThreadSummary)
      (seq : Nat)
  | messageDeleted (deletion : MessageDeleted)

/-- A copy by its row and its seq. -/
def Message.stamp (row : Message) : Nat × Nat := (row.id, row.seq)

/-- The copies an event brings: a partial one brings none. -/
def ServerEvent.brings : ServerEvent → List (Nat × Nat)
  | .messageCreated row | .messageUpdated row => [row.stamp]
  | .messageDeleted deletion => [(deletion.messageId, deletion.seq)]
  | .reactionsChanged .. | .messagePinned .. | .threadChanged .. => []

/-- An event as a change to a log: for a partial event, `patches` is the row it changes, which the
event covers only when held. -/
structure Change where
  channelId : String
  seq : Nat
  patches : Option Nat
  apply : ChannelLog → ChannelLog

/-- The held row with the change, at the event's seq. A row that isn't held has nothing to patch. -/
def patched (log : ChannelLog) (id : Nat) (seq : Nat) (change : Message → Message) : ChannelLog :=
  match log.rows.get? id with
  | none => log
  | some held => withArrivals log [(change held).withSeq seq] fromEvent

def changeOf : ServerEvent → Change
  | .messageCreated row | .messageUpdated row =>
    { channelId := row.channelId, seq := row.seq, patches := none
      apply := fun log => withArrivals log [row] fromEvent }
  | .reactionsChanged channelId messageId reactions seq =>
    { channelId := channelId, seq := seq, patches := some messageId
      apply := fun log => patched log messageId seq fun held => { held with reactions := reactions } }
  | .messagePinned channelId messageId pinned seq =>
    { channelId := channelId, seq := seq, patches := some messageId
      apply := fun log => patched log messageId seq fun held => { held with pinned := pinned } }
  | .threadChanged channelId rootMessageId thread seq =>
    { channelId := channelId, seq := seq, patches := some rootMessageId
      apply := fun log => patched log rootMessageId seq fun held =>
        { held with thread := withViewerHalf thread held.thread } }
  | .messageDeleted deletion =>
    { channelId := deletion.channelId, seq := deletion.seq, patches := none
      apply := fun log => withArrivals log
        [tombstoneOf (log.rows.get? deletion.messageId) deletion] fromEvent }

/-- Whether what took a seq is known already: its event is ignored. -/
def ChannelLog.knows (log : ChannelLog) (seq : Nat) : Bool := hasPage log && decide (seq ≤ log.seq)

/-- The log once an event has come. -/
def withEvent (log : ChannelLog) (event : ServerEvent) : ChannelLog :=
  let change := changeOf event
  if change.channelId != log.channelId then log
  else
    let positioned := hasPage log
    if log.knows change.seq then log
    else
      let next := change.apply log
      let next := { next with seenSeq := max change.seq next.seenSeq }
      if !positioned then next
      else
        let covered := change.patches.all log.rows.has
        if covered && change.seq == log.seq + 1 then { next with seq := change.seq }
        else { next with needsCatchUp := true }

end Stoop.Channel
