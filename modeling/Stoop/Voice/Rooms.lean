import Stoop.Lib.Machine

/-!
# Ending somebody's call

Who may be in a voice channel's room is asked once, when `JoinVoiceChannel` mints a token; the sidecar admits a token
until it expires and never asks again. So losing a place in a channel, or the channel going, is said to the sidecar as
well: a room call is made once the change has committed, and once more when the last token that could have been minted
before it is dead (`do`, `repeatOnceTokensExpire`).

The machine here is the server's clock, its rows, its join handlers and room calls, and the sidecar's room, as
`docs/architecture/voice.md` has it. Time is in seconds. The sidecar's clock may be behind: it admits a token until `lag`
seconds past its expiry.
-/

set_option autoImplicit false

namespace Stoop.Voice

open Stoop.Lib

def TokenTTL : Nat := 90

def repeatMargin : Nat := 15

def repeatDelay : Nat := TokenTTL + repeatMargin

/-- A person in a channel's room: its name is the channel's id, theirs the user's. -/
structure Place where
  channel : Nat
  user : Nat
  deriving DecidableEq, Repr

/-- A room call, kept whole so that it can be repeated. -/
inductive RoomCall
  | removeParticipant (place : Place)
  | closeRoom (channel : Nat)
  deriving DecidableEq, Repr

/-- Whom the sidecar disconnects on a call. -/
def RoomCall.disconnects : RoomCall → Place → Bool
  | .removeParticipant place, other => place == other
  | .closeRoom channel, other => channel == other.channel

structure Token where
  place : Place
  expiresAt : Nat
  deriving DecidableEq, Repr

/-- A `JoinVoiceChannel` past its membership check, which was at `since`, and past its check of the channel's kind or not. -/
structure Joining where
  place : Place
  since : Nat
  isVoice : Bool
  deriving DecidableEq, Repr

structure Repeat where
  call : RoomCall
  due : Nat
  deriving DecidableEq, Repr

structure World where
  now : Nat
  /-- Who may read which channel: `IsChannelMember`. -/
  members : List Place
  /-- The voice channels of spaces with voice on: `IsVoiceChannel`. -/
  voice : List Nat
  joining : List Joining
  tokens : List Token
  /-- The sidecar's participants. -/
  room : List Place
  /-- Calls for changes that have committed, not made yet. -/
  owed : List RoomCall
  /-- Calls made, waiting to be made again. -/
  repeats : List Repeat
  /-- Calls on their way to the sidecar for the second time. -/
  repeating : List Repeat
  deriving DecidableEq, Repr

inductive Label
  | tick (seconds : Nat)
  | addMember (place : Place)
  /-- Somebody is out of channels: they left or were kicked, banned, taken out of a private channel, or deleted. -/
  | removeMember (user : Nat) (channels : List Nat)
  /-- Voice channels are made, or their space turns voice on. -/
  | openVoice (channels : List Nat)
  /-- Voice channels are deleted, or their space turns voice off. -/
  | closeVoice (channels : List Nat)
  | isChannelMember (place : Place)
  | isVoiceChannel (joining : Joining)
  | mintToken (joining : Joining)
  | connect (token : Token)
  | hangUp (place : Place)
  /-- A call is made; it fails when the sidecar can't be reached in time. -/
  | callRoom (call : RoomCall) (ok : Bool)
  /-- A repeat's timer fires, and it asks whether its room is in use again. -/
  | fire (rep : Repeat)
  | repeatCall (rep : Repeat) (ok : Bool)
  /-- A call is not made: the space's voice channels could not be listed. -/
  | drop (call : RoomCall)
  /-- The server stops, and abandons the calls it owes. -/
  | stop
  deriving DecidableEq, Repr

namespace World

def start : World := ⟨0, [], [], [], [], [], [], [], []⟩

/-- What the sidecar makes of a call that reaches it. -/
def disconnect (w : World) (call : RoomCall) (ok : Bool) : List Place :=
  if ok then w.room.filter fun place => !call.disconnects place else w.room

/-- `reopened`: a closed room is in use again, so the repeat must not happen. A removal always repeats. -/
def reopened (w : World) : RoomCall → Bool
  | .removeParticipant _ => false
  | .closeRoom channel => channel ∈ w.voice

def step (lag : Nat) (w : World) : Label → Option World
  | .tick seconds => some { w with now := w.now + seconds }
  | .addMember place => some { w with members := place :: w.members }
  | .removeMember user channels =>
    some { w with
      members := w.members.filter fun place => !(place.user == user && channels.contains place.channel)
      owed := w.owed ++ channels.map fun channel => .removeParticipant ⟨channel, user⟩ }
  | .openVoice channels => some { w with voice := channels ++ w.voice }
  | .closeVoice channels =>
    some { w with
      voice := w.voice.filter fun channel => !channels.contains channel
      owed := w.owed ++ channels.map .closeRoom }
  | .isChannelMember place =>
    if place ∈ w.members then some { w with joining := ⟨place, w.now, false⟩ :: w.joining } else none
  | .isVoiceChannel joining =>
    if joining ∈ w.joining then
      let rest := w.joining.erase joining
      if joining.place.channel ∈ w.voice then some { w with joining := { joining with isVoice := true } :: rest }
      else some { w with joining := rest }
    else none
  | .mintToken joining =>
    if joining ∈ w.joining ∧ joining.isVoice = true then
      some { w with
        joining := w.joining.erase joining
        tokens := ⟨joining.place, w.now + TokenTTL⟩ :: w.tokens }
    else none
  | .connect token =>
    if token ∈ w.tokens ∧ w.now < token.expiresAt + lag then some { w with room := token.place :: w.room } else none
  | .hangUp place => some { w with room := w.room.erase place }
  | .callRoom call ok =>
    if call ∈ w.owed then
      some { w with
        owed := w.owed.erase call
        room := w.disconnect call ok
        repeats := ⟨call, w.now + repeatDelay⟩ :: w.repeats }
    else none
  | .fire rep =>
    if rep ∈ w.repeats ∧ rep.due ≤ w.now then
      let repeats := w.repeats.erase rep
      if w.reopened rep.call then some { w with repeats } else some { w with repeats, repeating := rep :: w.repeating }
    else none
  | .repeatCall rep ok =>
    if rep ∈ w.repeating then
      some { w with repeating := w.repeating.erase rep, room := w.disconnect rep.call ok }
    else none
  | .drop call => if call ∈ w.owed then some { w with owed := w.owed.erase call } else none
  | .stop => some { w with owed := [], repeats := [], repeating := [], joining := [] }

end World

end Stoop.Voice
