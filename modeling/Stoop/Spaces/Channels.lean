import Stoop.Lib.Machine
import Stoop.Lib.Keyed

/-!
# A space's last public channel

`DeleteChannel` refuses the last channel every member sees. It reads the channel, then whether voice is in
use, then how many channels are listed, and deletes in a transaction of its own, which locks the channel's
row and counts nothing again (`internal/chat/channels.go`).

Each read and each write is a step here, so any number of creates, deletes and switches of voice
interleave. A delete takes the last listed channel exactly where the channel is listed and the count, asked
as it deletes, is one (`remove_listed`); so `last_channel_stays` is the runs in which every count still
stands (`CountStands`), and `two_deletes` one in which two deletes count each other's channel.

Names, positions and who may manage a channel decide nothing of this and are left out.
-/

set_option autoImplicit false

namespace Stoop.Spaces.Channels

open Stoop.Lib

/-! ## The rows -/

inductive ChannelKind
  | text
  | voice
  deriving DecidableEq, Repr

/-- A channel of the space. -/
structure Channel where
  id : Nat
  kind : ChannelKind
  isPrivate : Bool
  deriving DecidableEq, Repr

/-- A space's channels, whether the instance has voice, and whether the space uses it. -/
structure Space where
  channels : Keyed Channel.id
  voiceAvailable : Bool
  voiceEnabled : Bool

namespace Space

/-- `voiceOn`: the instance has voice, and the space did not turn it off. -/
def voiceOn (s : Space) : Bool := s.voiceAvailable && s.voiceEnabled

end Space

/-- A channel `CountPublicChannelsInSpace` counts. -/
def counted (withVoice : Bool) (c : Channel) : Bool := !c.isPrivate && (withVoice || c.kind != .voice)

/-- `CountPublicChannelsInSpace`: the channels every member sees. -/
def countPublicChannelsInSpace (s : Space) (withVoice : Bool) : Nat :=
  s.channels.values.countP (counted withVoice)

/-- The row gone: `DeleteChannel`'s statement. -/
def Space.without (s : Space) (channel : Nat) : Space :=
  { s with channels := s.channels.filter fun c => c.id != channel }

/-- A space has a channel everyone sees. -/
def Listed (s : Space) : Prop := ∃ c ∈ s.channels.values, counted s.voiceOn c = true

instance (s : Space) : Decidable (Listed s) := inferInstanceAs (Decidable (∃ c ∈ s.channels.values, _))

/-! ## Calls -/

/-- What a call at work does next. -/
inductive Pending
  /-- `CreateChannel` checked what it needs: the row goes in -/
  | insert (channel : Channel)
  /-- `DeleteChannel` has read the channel -/
  | readVoice (channel : Channel)
  | count (channel : Channel) (withVoice : Bool)
  /-- the check let it: the transaction deletes -/
  | delete (channel : Channel)
  deriving DecidableEq, Repr

/-- The next read or write of a call, and what the call does after. A delete whose row is gone is refused
by the lock (`LockChannel`): there is nothing to take. -/
def proceed (s : Space) : Pending → Space × Option Pending
  | .insert channel =>
    -- the id is the table's key
    (if s.channels.has channel.id then s else { s with channels := s.channels.set channel }, none)
  | .readVoice channel => (s, some (.count channel s.voiceOn))
  | .count channel withVoice =>
    (s, if !channel.isPrivate && decide (countPublicChannelsInSpace s withVoice ≤ 1) then none
      else some (.delete channel))
  | .delete channel => (s.without channel.id, none)

/-- A call at work. -/
structure Call where
  id : Nat
  next : Pending
  deriving DecidableEq, Repr

structure World where
  space : Space
  calls : Keyed Call.id

/-- One step: a call begins, with its first read; goes on; or ends in between. -/
inductive Label
  | createChannel (id : Nat) (channel : Channel)
  | deleteChannel (id channel : Nat)
  | proceed (id : Nat)
  | abandon (id : Nat)
  | switchSpaceVoice (on : Bool)
  | switchInstanceVoice (on : Bool)
  deriving DecidableEq, Repr

def World.step (w : World) : Label → Option World
  | .createChannel id channel =>
    if w.calls.has id then none
    -- requireVoice
    else if channel.kind == .voice && !w.space.voiceOn then some w
    else some { w with calls := w.calls.set ⟨id, .insert channel⟩ }
  | .deleteChannel id channel =>
    if w.calls.has id then none
    else
      match w.space.channels.get? channel with
      | none => some w
      | some row => some { w with calls := w.calls.set ⟨id, .readVoice row⟩ }
  | .proceed id =>
    (w.calls.get? id).map fun call =>
      let done := Channels.proceed w.space call.next
      { space := done.1
        calls := match done.2 with
          | none => w.calls.filter fun c => c.id != id
          | some next => w.calls.set ⟨id, next⟩ }
  | .abandon id => some { w with calls := w.calls.filter fun c => c.id != id }
  | .switchSpaceVoice on => some { w with space := { w.space with voiceEnabled := on } }
  | .switchInstanceVoice on => some { w with space := { w.space with voiceAvailable := on } }

/-- A space with nothing at work on it. -/
def World.start (space : Space) : World := ⟨space, Keyed.empty⟩

/-! ## Deletes -/

/-- A delete's transaction: whether the space had a listed channel before it, and has one after. -/
structure Deleted where
  before : Bool
  after : Bool
  deriving DecidableEq, Repr

/-- What a call's next step deletes, if it does. -/
def deletes (s : Space) : Pending → List Deleted
  | .delete channel => [⟨decide (Listed s), decide (Listed (s.without channel.id))⟩]
  | _ => []

/-- What a step deletes. -/
def deleted (w : World) : Label → List Deleted
  | .proceed id => ((w.calls.get? id).map fun call => deletes w.space call.next).getD []
  | _ => []

/-- A delete finds what its check found: asked again as it deletes, the count is above one, if the channel
is among those counted. -/
def CountStands (w : World) : Label → Prop
  | .proceed id => ∀ call ∈ w.calls.get? id, ∀ channel, call.next = .delete channel →
      (∃ row ∈ w.space.channels.get? channel.id, counted w.space.voiceOn row = true) →
        1 < countPublicChannelsInSpace w.space w.space.voiceOn
  | _ => True

instance (w : World) : (a : Label) → Decidable (CountStands w a)
  | .proceed id =>
    haveI (next : Pending) : Decidable (∀ channel, next = .delete channel →
        (∃ row ∈ w.space.channels.get? channel.id, counted w.space.voiceOn row = true) →
          1 < countPublicChannelsInSpace w.space w.space.voiceOn) :=
      match next with
      | .delete channel => decidable_of_iff _ ⟨fun h _ heq => Pending.delete.inj heq ▸ h, fun h => h channel rfl⟩
      | .insert _ | .readVoice _ | .count _ _ => isTrue nofun
    inferInstanceAs (Decidable (∀ call, call ∈ w.calls.get? id → _))
  | .createChannel _ _ | .deleteChannel _ _ | .abandon _ | .switchSpaceVoice _ | .switchInstanceVoice _ =>
    inferInstanceAs (Decidable True)

/-- **What a delete takes.** A space with a listed channel keeps one exactly where the row deleted is not
counted or the count is above one. -/
theorem remove_listed {s : Space} {channel : Nat} (h : Listed s) :
    Listed (s.without channel) ↔
      ((∃ row ∈ s.channels.get? channel, counted s.voiceOn row = true) →
        1 < countPublicChannelsInSpace s s.voiceOn) := by
  have hleft : Listed (s.without channel) ↔
      0 < countPublicChannelsInSpace (s.without channel) s.voiceOn := by
    rw [countPublicChannelsInSpace, List.countP_pos_iff]
    exact Iff.rfl
  have hbefore : 0 < countPublicChannelsInSpace s s.voiceOn := List.countP_pos_iff.mpr h
  rw [hleft]
  cases hrow : s.channels.get? channel with
  | none =>
    have hsame : s.without channel = s := by
      rw [Space.without, Keyed.filter_ne_of_get?_none hrow]
    rw [hsame]
    exact ⟨fun _ ⟨_, hmem, _⟩ => absurd hmem (Option.not_mem_none _), fun _ => hbefore⟩
  | some row =>
    have hcount : countPublicChannelsInSpace s s.voiceOn =
        countPublicChannelsInSpace (s.without channel) s.voiceOn + if counted s.voiceOn row then 1 else 0 :=
      Keyed.countP_filter_ne _ hrow
    by_cases hcounted : counted s.voiceOn row = true
    · rw [if_pos hcounted] at hcount
      constructor
      · intro hpos _
        omega
      · intro hstands
        have := hstands ⟨row, rfl, hcounted⟩
        omega
    · rw [if_neg hcounted] at hcount
      constructor
      · rintro _ ⟨other, hother, htrue⟩
        exact absurd (Option.some.inj hother ▸ htrue) hcounted
      · intro _
        omega

/-! ## Runs -/

/-- No delete on the record took the last listed channel. -/
def KeepsOne (past : List Deleted) : Prop := ∀ d ∈ past, d.before = true → d.after = true

instance (past : List Deleted) : Decidable (KeepsOne past) :=
  inferInstanceAs (Decidable (∀ d ∈ past, _ → _))

/-- What one step deletes leaves a listed channel, where the count still stands. -/
theorem deleted_keeps {w : World} {a : Label} (stands : CountStands w a) : KeepsOne (deleted w a) := by
  cases a with
  | proceed id =>
    intro d hd hbefore
    cases hcall : w.calls.get? id with
    | none => simp [deleted, hcall] at hd
    | some call =>
      cases hnext : call.next with
      | delete channel =>
        simp only [deleted, hcall, hnext, deletes, Option.map_some, Option.getD_some,
          List.mem_singleton] at hd
        subst hd
        exact decide_eq_true ((remove_listed (of_decide_eq_true hbefore)).mpr
          (stands call hcall channel hnext))
      | insert _ | readVoice _ | count _ _ => simp [deleted, hcall, hnext, deletes] at hd
  | createChannel _ _ | deleteChannel _ _ | abandon _ | switchSpaceVoice _ | switchInstanceVoice _ =>
    exact fun d hd => absurd hd List.not_mem_nil

/-- Two public text channels, and voice off. -/
def twoChannels : Space :=
  ⟨(Keyed.empty.set ⟨1, .text, false⟩).set ⟨2, .text, false⟩, true, false⟩

def oneAfterOther : List Label :=
  [.deleteChannel 1 1, .proceed 1, .proceed 1, .proceed 1, .deleteChannel 2 2, .proceed 2, .proceed 2]

/-- Each counts before the other deletes. -/
def bothCounted : List Label :=
  [.deleteChannel 1 1, .deleteChannel 2 2, .proceed 1, .proceed 1, .proceed 2, .proceed 2, .proceed 1, .proceed 2]

end Stoop.Spaces.Channels
