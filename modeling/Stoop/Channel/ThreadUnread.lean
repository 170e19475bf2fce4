import Stoop.Channel.Quotes

/-!
# The reader's half of a thread's summary

The server fills the reader's half in for each request; between requests the app moves it on as the shared
half changes (`web/src/core/threadUnread.ts`, `channelScreen.ts`): a reply by someone else adds to the count
of a thread the reader is in and hasn't muted, and reading it clears it.

The half travels with no seq. A copy of the root that the server reads out carries the summary as one query
found it and the reader's count as a later one did (`addThreadViewerStates`).

## The screen

`viewerHalfAfter`, `withThreadChanged`, `screenReducer`

## The thread on the server

`Thread`, `ThreadReading`, `Thread.unreadAt`
-/

set_option autoImplicit false

namespace Stoop.Channel

open Stoop.Lib

/-! ## The reader's half -/

/-- Whether a reply names the reader, which counts them in to its thread when its `ThreadChanged` lands. -/
def namesMe (message : Message) (me : Option String) : Bool :=
  message.threadRootId.isSome && me.any fun me => me != "" && !message.mentionsEntireChannel &&
    !message.mentionsHere && message.mentionUserIds.contains me

/-- A root's summary before its first reply: the root says whether the reader started it or was named in
it. -/
def summaryBefore (root : Message) (me : Option String) : ThreadSummary :=
  { participating := root.author == me || (!root.mentionsEntireChannel && !root.mentionsHere &&
      me.any fun me => me != "" && root.mentionUserIds.contains me) }

/-- The reader's half after a new shared summary for the held root. -/
def viewerHalfAfter (root : Message) (next : ThreadSummary) (me : Option String) (namedIn : Bool) :
    ThreadOverlay :=
  let previous := root.thread.getD (summaryBefore root me)
  let added : Int := next.replyCount - previous.replyCount
  let byMe := next.recentAuthors.head? == me
  let participating := previous.participating || decide (0 < added) && byMe || namedIn
  let counts := participating && !previous.muted
  { participating := some participating
    muted := some previous.muted
    unreadCount := some (min next.replyCount
      (previous.unreadCount + if counts && decide (0 < added) && !byMe then added.toNat else 0)) }

/-- The reader's half once they mute or unmute the thread: a muted thread counts nothing. -/
def mutedOverlay (muted : Bool) : ThreadOverlay :=
  if muted then { muted := some muted, unreadCount := some 0 } else { muted := some muted }

/-! ## The screen -/

/-- A channel screen: its log, the reader as the header names them, and the threads a reply has named the
reader in since its summary last moved. -/
structure ChannelScreen where
  log : ChannelLog
  myUserId : Option String := none
  namedIn : List Nat := []

def emptyScreen (channelId : String) : ChannelScreen := { log := emptyLog channelId }

/-- What moves a summary or the reader's half of one. A read or a mute is the reader's own, here or on
another device. -/
inductive ScreenAction
  | header (myUserId : Option String)
  | threadChanged (channelId : String) (rootMessageId : Nat) (thread : Option ThreadSummary) (seq : Nat)
  | messageCreated (row : Message)
  | threadRead (rootId : Nat)
  | threadMuted (rootId : Nat) (muted : Bool)
  | caughtUp (res : ListChangesResponse)
  | refreshed (res : ListMessagesResponse)
  | opened (answer : PageAnswer)
  | paged (direction : Direction) (answer : PageAnswer)

/-- A new shared summary for a root: the log takes it at the event's seq, keeping the reader's half, then
that half moves on. An event the log did not apply moves nothing on. -/
def withThreadChanged (state : ChannelScreen) (channelId : String) (rootId : Nat)
    (next : Option ThreadSummary) (seq : Nat) : ChannelScreen :=
  let root := state.log.rows.get? rootId
  let log := withEvent state.log (.threadChanged channelId rootId next seq)
  let log :=
    match root, log.rows.get? rootId, next with
    | some root, some after, some next =>
      if after = root then log
      else withThreadOverlay log rootId
        (viewerHalfAfter root next state.myUserId (state.namedIn.contains rootId))
    | _, _, _ => log
  { state with log := log, namedIn := state.namedIn.filter (· != rootId) }

def screenReducer (state : ChannelScreen) : ScreenAction → ChannelScreen
  | .header myUserId => { state with myUserId := myUserId }
  | .threadChanged channelId rootId next seq => withThreadChanged state channelId rootId next seq
  | .messageCreated row =>
    { state with
      log := withEvent state.log (.messageCreated row)
      namedIn :=
        if row.channelId = state.log.channelId ∧ namesMe row state.myUserId = true then
          row.threadRootId.toList ++ state.namedIn
        else state.namedIn }
  | .threadRead rootId =>
    { state with log := withThreadOverlay state.log rootId { unreadCount := some 0 } }
  | .threadMuted rootId muted => { state with log := withThreadOverlay state.log rootId (mutedOverlay muted) }
  | .caughtUp res => { state with log := Channel.caughtUp state.log res }
  | .refreshed res => { state with log := Channel.refreshed state.log res }
  | .opened answer => { state with log := Channel.opened state.log answer }
  | .paged direction answer => { state with log := Channel.paged state.log direction answer }

/-! ## The thread on the server -/

/-- A reply: the seq its root took as it was counted, and the one it took as it was counted out again. -/
structure Reply where
  id : Nat
  author : String
  sentAt : Nat
  removedAt : Option Nat := none
  deriving DecidableEq, Repr

/-- A root's replies, over all time. -/
structure Thread where
  rootId : Nat
  replies : List Reply
  nodup : (replies.map (·.id)).Nodup

/-- Whether a reply stands when the channel is at a seq. -/
def Reply.liveAt (reply : Reply) (seq : Nat) : Bool :=
  decide (reply.sentAt ≤ seq) && reply.removedAt.all fun removed => decide (seq < removed)

/-- How many replies the summary counts at a seq. -/
def Thread.countAt (thread : Thread) (seq : Nat) : Nat := (thread.replies.filter (·.liveAt seq)).length

/-- The replies sent after one seq and by another. -/
def Thread.sentIn (thread : Thread) (since through : Nat) : List Nat :=
  (thread.replies.filter fun reply => decide (since < reply.sentAt) && decide (reply.sentAt ≤ through)).map (·.id)

/-- When the server worked out the reader's half of the summaries in an answer, and the reader's marker
then. -/
structure ThreadReading where
  moment : Nat
  marker : Nat

/-- `ThreadViewerStates`: the replies by others that stand after the reader's marker. -/
def Thread.unreadAt (thread : Thread) (user : String) (reading : ThreadReading) : List Nat :=
  (thread.replies.filter fun reply => reply.author != user && reply.liveAt reading.moment &&
    decide (reading.marker < reply.id)).map (·.id)

/-- `addThreadViewerStates`: the replies a summary's unread count is made of. -/
def Thread.counted (thread : Thread) (user : String) (reading : ThreadReading) (summary : ThreadSummary) :
    List Nat :=
  if summary.participating && !summary.muted then thread.unreadAt user reading else []

end Stoop.Channel
