import Mathlib.Data.List.TakeWhile
import Stoop.Lib.Machine
import Stoop.Lib.Keyed

/-!
# Who is in which voice channel

The gateway's voice state (`internal/realtime/voice.go`) under the connections of every person, taken in
any order. Each connection's main loop changes the state under the state's lock and publishes what
changed after it let go of the lock, so another connection's change and its announcements can come
between.

Joins and leaves in the order of their changes replay to the state (`Announces`, of every operation).
`voice_consistent`: so do they in the order they are published, when nobody's voice state is touched
while an announcement about them waits. `voice_announced_out_of_order` is a run where it is.

To whom an announcement goes (the space, or each of a private channel's people) is left out: it goes to
all of them in one place of the order.
-/

set_option autoImplicit false

namespace Stoop.Realtime

open Stoop.Lib

/-! ## The voice state -/

/-- `VoiceState`, what a client reports: no channel once it left. -/
structure VoiceReport where
  channelId : String
  muted : Bool := false
  deafened : Bool := false
  camera : Bool := false
  screenSharing : Bool := false
  deriving DecidableEq, Repr

/-- A `voiceEntry`, with the person it is kept under. -/
structure VoiceEntry where
  userId : String
  conn : Nat
  spaceId : String
  channel : String
  isPrivate : Bool
  muted : Bool
  deaf : Bool
  camera : Bool
  screen : Bool
  deriving DecidableEq, Repr

structure VoiceParticipant where
  spaceId : String
  channelId : String
  userId : String
  muted : Bool
  deafened : Bool
  camera : Bool
  screenSharing : Bool
  deriving DecidableEq, Repr

def VoiceEntry.participant (e : VoiceEntry) : VoiceParticipant :=
  ⟨e.spaceId, e.channel, e.userId, e.muted, e.deaf, e.camera, e.screen⟩

/-- `VoiceStateChanged`: a join or a change, or a leave. -/
structure VoiceStateChanged where
  participant : VoiceParticipant
  joined : Bool
  deriving DecidableEq, Repr

def VoiceEntry.join (e : VoiceEntry) : VoiceStateChanged := ⟨e.participant, true⟩
def VoiceEntry.leave (e : VoiceEntry) : VoiceStateChanged := ⟨e.participant, false⟩

/-- The `voiceState`. -/
abbrev VoiceUsers := Keyed VoiceEntry.userId

/-- `set`: the entry it replaces where that was in another channel, and the new one. -/
def VoiceUsers.set (v : VoiceUsers) (userId : String) (conn : Nat) (spaceId : String)
    (isPrivate : Bool) (vs : VoiceReport) : VoiceUsers × Option VoiceEntry × VoiceEntry :=
  let left := (v.get? userId).filter fun prev => prev.channel != vs.channelId
  let now : VoiceEntry :=
    ⟨userId, conn, spaceId, vs.channelId, isPrivate, vs.muted, vs.deafened, vs.camera, vs.screenSharing⟩
  (Keyed.set v now, left, now)

/-- `clearIf`: the state without an entry, and the entry if there was one that matches. -/
def VoiceUsers.clearIf (v : VoiceUsers) (userId : String) (matching : VoiceEntry → Bool) :
    VoiceUsers × Option VoiceEntry :=
  match (v.get? userId).filter matching with
  | none => (v, none)
  | some entry => (v.filter fun e => e.userId != userId, some entry)

def VoiceUsers.clearOwnedBy (v : VoiceUsers) (userId : String) (conn : Nat) :=
  v.clearIf userId fun entry => entry.conn == conn

def VoiceUsers.clearInSpace (v : VoiceUsers) (userId spaceId : String) :=
  v.clearIf userId fun entry => entry.spaceId == spaceId

def VoiceUsers.clearInChannel (v : VoiceUsers) (userId channelId : String) :=
  v.clearIf userId fun entry => entry.channel == channelId

/-- `clearChannel`: everyone in it, whose order is nobody's. -/
def VoiceUsers.clearChannel (v : VoiceUsers) (channelId : String) : VoiceUsers × List VoiceEntry :=
  (v.filter fun e => e.channel != channelId, v.values.filter fun e => e.channel == channelId)

/-! ## What a connection does to it -/

/-- What a report's lookups answered before the state was locked: the channel's space and whether it is
private (nothing when the lookup failed, no space for a channel that is no voice channel), whether the
connection is subscribed to the space, and whether the person is one of the channel's. -/
structure VoicePort where
  space : Option (String × Bool)
  subscribed : Bool
  person : Bool
  deriving DecidableEq, Repr

/-- `handleVoiceState`: the state after it, and what it announces. -/
def VoiceUsers.handleVoiceState (v : VoiceUsers) (userId : String) (conn : Nat) (vs : VoiceReport)
    (port : VoicePort) : VoiceUsers × List VoiceStateChanged :=
  if vs.channelId = "" then
    let (v, left) := v.clearOwnedBy userId conn
    (v, left.toList.map (·.leave))
  else
    match port.space with
    | none => (v, [])
    | some (spaceId, isPrivate) =>
      if spaceId = "" || !port.subscribed then (v, [])
      else if isPrivate && !port.person then (v, [])
      else
        let (v, left, now) := v.set userId conn spaceId isPrivate vs
        (v, left.toList.map (·.leave) ++ [now.join])

/-- `dropSpace`, as far as voice goes. -/
def VoiceUsers.dropSpace (v : VoiceUsers) (userId spaceId : String) :
    VoiceUsers × List VoiceStateChanged :=
  let (v, left) := v.clearInSpace userId spaceId
  (v, left.toList.map (·.leave))

/-- `channelDeleted`, after it found whether anyone was there and in a private channel (`occupied`), and
for a private one what space it still has: both were read before the state is locked again. -/
def VoiceUsers.channelDeleted (v : VoiceUsers) (userId channelId : String) (occupied : Option Bool)
    (space : Option String) : VoiceUsers × List VoiceStateChanged :=
  let emptied := ((v.clearChannel channelId).1, (v.clearChannel channelId).2.map (·.leave))
  match occupied with
  | none => (v, [])
  | some false => emptied
  | some true =>
    match space with
    | none => (v, [])
    | some spaceId =>
      if spaceId = "" then emptied
      else
        let (v, left) := v.clearInChannel userId channelId
        (v, left.toList.map (·.leave))

/-! ## The gateway -/

structure VoiceConn where
  id : Nat
  userId : String
  deriving DecidableEq, Repr

/-- An announcement that a connection has yet to publish. -/
structure Waiting where
  conn : Nat
  change : VoiceStateChanged
  deriving DecidableEq, Repr

/-- The voice state, the open connections, the announcements that wait in the order of their changes,
and what was published. -/
structure VoiceGateway where
  users : VoiceUsers
  conns : Keyed VoiceConn.id
  lastConn : Nat
  waiting : List Waiting
  log : List VoiceStateChanged

def newVoiceGateway : VoiceGateway := ⟨Keyed.empty, Keyed.empty, 0, [], []⟩

inductive VoiceStep
  | connect (conn : Nat) (userId : String)
  | report (conn : Nat) (vs : VoiceReport) (port : VoicePort)
  | dropSpace (conn : Nat) (spaceId : String)
  | channelDeleted (conn : Nat) (channelId : String) (occupied : Option Bool) (space : Option String)
  | close (conn : Nat)
  /-- a connection publishes its next announcement -/
  | publish (conn : Nat)
  deriving DecidableEq, Repr

/-- A connection whose main loop is free: it published what it had to. -/
def VoiceGateway.free (s : VoiceGateway) (conn : Nat) : Option VoiceConn :=
  (s.conns.get? conn).filter fun _ => s.waiting.all fun w => w.conn != conn

/-- The state changed by a connection, which has announcements to publish now. -/
def VoiceGateway.change (s : VoiceGateway) (conn : Nat) (op : VoiceUsers × List VoiceStateChanged) :
    VoiceGateway :=
  { s with users := op.1, waiting := s.waiting ++ op.2.map fun change => ⟨conn, change⟩ }

def VoiceGateway.step (s : VoiceGateway) : VoiceStep → Option VoiceGateway
  | .connect conn userId =>
    if s.lastConn < conn then some { s with conns := s.conns.set ⟨conn, userId⟩, lastConn := conn }
    else none
  | .report conn vs port =>
    (s.free conn).map fun c => s.change conn (s.users.handleVoiceState c.userId conn vs port)
  | .dropSpace conn spaceId =>
    (s.free conn).map fun c => s.change conn (s.users.dropSpace c.userId spaceId)
  | .channelDeleted conn channelId occupied space =>
    (s.free conn).map fun c =>
      s.change conn (s.users.channelDeleted c.userId channelId occupied space)
  | .close conn =>
    (s.free conn).map fun c =>
      let (users, left) := s.users.clearOwnedBy c.userId conn
      { s.change conn (users, left.toList.map (·.leave)) with
        conns := s.conns.filter fun c => c.id != conn }
  | .publish conn =>
    match s.waiting.dropWhile (·.conn != conn) with
    | [] => none
    | w :: rest =>
      some { s with
        waiting := s.waiting.takeWhile (·.conn != conn) ++ rest, log := s.log ++ [w.change] }

/-! ## Replaying announcements -/

/-- What an announcement makes of where a person was seen. A join of another channel wants the leave of
the old one first, and a leave wants its join. -/
def VoiceStateChanged.on (change : VoiceStateChanged) (seen : Option VoiceParticipant) :
    Option (Option VoiceParticipant) :=
  match seen with
  | none => if change.joined then some (some change.participant) else none
  | some held =>
    if held.channelId = change.participant.channelId then
      some (if change.joined then some change.participant else none)
    else none

/-- Where a person was seen last, if each announcement fits the one before. -/
def replay (changes : List VoiceStateChanged) (seen : Option VoiceParticipant) :
    Option (Option VoiceParticipant) :=
  changes.foldlM (fun seen change => change.on seen) seen

/-- The announcements about a person. -/
def about (userId : String) (changes : List VoiceStateChanged) : List VoiceStateChanged :=
  changes.filter fun change => change.participant.userId == userId

/-- Where the state has a person. -/
def VoiceUsers.seen (v : VoiceUsers) (userId : String) : Option VoiceParticipant :=
  (v.get? userId).map (·.participant)

/-- The people whose entry a step reads or changes. -/
def VoiceGateway.concerns (s : VoiceGateway) (a : VoiceStep) (userId : String) : Bool :=
  match a with
  | .report conn _ _ | .dropSpace conn _ | .close conn =>
    (s.conns.get? conn).any fun c => c.userId == userId
  | .channelDeleted conn channelId _ _ => ((s.conns.get? conn).any fun c => c.userId == userId) ||
    (s.users.get? userId).any fun entry => entry.channel == channelId
  | .connect _ _ | .publish _ => false

/-- Nobody's voice state is touched while an announcement about them waits. -/
def NoneWaiting (s : VoiceGateway) (a : VoiceStep) : Prop :=
  ∀ w ∈ s.waiting, s.concerns a w.change.participant.userId = false

instance (s : VoiceGateway) (a : VoiceStep) : Decidable (NoneWaiting s a) :=
  inferInstanceAs (Decidable (∀ w ∈ s.waiting, _))

/-- Voice presence as it should be: a person in one channel at most, what was published about them an
unbroken record of joins and leaves that ends where the state has them (once what was to be announced
is published), and a connection that owns no entry closed without a trace. -/
structure VoiceConsistent (s : VoiceGateway) : Prop where
  one : ∀ entry ∈ s.users.values, ∀ entry' ∈ s.users.values, entry.userId = entry'.userId → entry = entry'
  unbroken : ∀ userId, (replay (about userId s.log) none).isSome
  exact : ∀ userId, (∀ w ∈ s.waiting, w.change.participant.userId ≠ userId) →
    replay (about userId s.log) none = some (s.users.seen userId)
  quiet : ∀ conn c s', s.conns.get? conn = some c → (∀ entry ∈ s.users.get? c.userId, entry.conn ≠ conn) →
    s.step (.close conn) = some s' → s'.users = s.users ∧ s'.waiting = s.waiting ∧ s'.log = s.log

/-! ## What an operation announces -/

section
variable {v v' : VoiceUsers} {userId spaceId channelId : String} {conn : Nat}
  {changes : List VoiceStateChanged}

theorem about_append (changes changes' : List VoiceStateChanged) :
    about userId (changes ++ changes') = about userId changes ++ about userId changes' :=
  List.filter_append ..

/-- Announcements about one person, to that person and to anyone else. -/
theorem about_of_person (h : ∀ change ∈ changes, change.participant.userId = userId) (other : String) :
    about other changes = if other = userId then changes else [] := by
  split
  next hother => exact List.filter_eq_self.mpr fun change hc => by simp [h change hc, hother]
  next hother => exact List.filter_eq_nil_iff.mpr fun change hc => by simp [h change hc, Ne.symm hother]

/-- What a changed state owes: replayed from where the state before had a person, the announcements
end where the state after does. -/
def Announces (v v' : VoiceUsers) (changes : List VoiceStateChanged) : Prop :=
  ∀ userId, replay (about userId changes) (v.seen userId) = some (v'.seen userId)

/-- What a connection does on its person's account: changes that are announced, about that person. -/
def AnnouncesPerson (v : VoiceUsers) (userId : String) (op : VoiceUsers × List VoiceStateChanged) : Prop :=
  Announces v op.1 op.2 ∧ ∀ change ∈ op.2, change.participant.userId = userId

theorem Announces.refl (v : VoiceUsers) : Announces v v [] := fun _ => rfl

/-- An operation on one person's entry, with announcements about that person. -/
theorem Announces.of_person (habout : ∀ change ∈ changes, change.participant.userId = userId)
    (hothers : ∀ other, other ≠ userId → v'.get? other = v.get? other)
    (hreplay : replay changes (v.seen userId) = some (v'.seen userId)) : Announces v v' changes := by
  intro other
  rw [about_of_person habout]
  split
  next hother =>
    rw [hother]
    exact hreplay
  next hother => exact congrArg some (congrArg (Option.map _) (hothers other hother).symm)

theorem replay_append (changes changes' : List VoiceStateChanged) (seen : Option VoiceParticipant) :
    replay (changes ++ changes') seen = (replay changes seen).bind (replay changes') :=
  List.foldlM_append ..

/-- A leave replayed where the entry was. -/
theorem replay_leave (entry : VoiceEntry) : replay [entry.leave] (some entry.participant) = some none := by
  simp [replay, VoiceStateChanged.on, VoiceEntry.leave]

/-- A join replayed out of voice, or in its channel already. -/
theorem replay_join {entry : VoiceEntry} {seen : Option VoiceParticipant}
    (h : ∀ held ∈ seen, held.channelId = entry.channel) :
    replay [entry.join] seen = some (some entry.participant) := by
  cases seen with
  | none => simp [replay, VoiceStateChanged.on, VoiceEntry.join]
  | some held =>
    have hchannel : held.channelId = entry.participant.channelId := h held rfl
    simp [replay, VoiceStateChanged.on, VoiceEntry.join, hchannel]

/-- What `clearIf` does: nothing, or an entry that matches goes. -/
theorem clearIf_cases (v : VoiceUsers) (userId : String) (matching : VoiceEntry → Bool) :
    ((∀ entry ∈ v.get? userId, matching entry = false) ∧ v.clearIf userId matching = (v, none)) ∨
      ∃ entry, v.get? userId = some entry ∧ matching entry = true ∧
        v.clearIf userId matching = (v.filter fun e => e.userId != userId, some entry) := by
  cases hget : (v.get? userId).filter matching with
  | none =>
    refine .inl ⟨fun entry hentry => ?_, by rw [VoiceUsers.clearIf, hget]⟩
    simpa using Option.filter_eq_none_iff.mp hget entry hentry
  | some entry =>
    obtain ⟨hentry, hmatches⟩ := Option.filter_eq_some_iff.mp hget
    exact .inr ⟨entry, hentry, hmatches, by rw [VoiceUsers.clearIf, hget]⟩

/-- Clearing one person's entry announces the leave. -/
theorem clearIf_announces (v : VoiceUsers) (userId : String) (matching : VoiceEntry → Bool) :
    AnnouncesPerson v userId
      ((v.clearIf userId matching).1, (v.clearIf userId matching).2.toList.map (·.leave)) := by
  rcases clearIf_cases v userId matching with ⟨-, hclear⟩ | ⟨entry, hget, -, hclear⟩
  · rw [hclear]
    exact ⟨.refl v, nofun⟩
  · rw [hclear]
    obtain rfl : entry.userId = userId := Keyed.key_of_get? hget
    have habout : ∀ change ∈ (some entry).toList.map (·.leave), change.participant.userId = entry.userId := by
      simp [VoiceEntry.leave, VoiceEntry.participant]
    refine ⟨.of_person habout (fun other hother => ?_) ?_, habout⟩
    · exact (Keyed.get?_filter_ne v entry.userId other).trans (if_neg hother)
    · have hgone : (v.filter fun e => e.userId != entry.userId).get? entry.userId = none :=
        (Keyed.get?_filter_ne v entry.userId entry.userId).trans (if_pos rfl)
      rw [VoiceUsers.seen, VoiceUsers.seen, hget, hgone]
      exact replay_leave entry

/-- Setting a person's entry announces the leave of another channel, and the join. -/
theorem set_announces (v : VoiceUsers) (userId : String) (conn : Nat) (spaceId : String)
    (isPrivate : Bool) (vs : VoiceReport) :
    let (v', left, now) := v.set userId conn spaceId isPrivate vs
    AnnouncesPerson v userId (v', left.toList.map (·.leave) ++ [now.join]) := by
  simp only [VoiceUsers.set]
  generalize hnow : (⟨userId, conn, spaceId, vs.channelId, isPrivate, vs.muted, vs.deafened, vs.camera,
    vs.screenSharing⟩ : VoiceEntry) = now
  have hperson : now.userId = userId := by rw [← hnow]
  have hchannel : now.channel = vs.channelId := by rw [← hnow]
  have habout : ∀ change ∈ ((v.get? userId).filter fun prev => prev.channel != vs.channelId).toList.map
      (·.leave) ++ [now.join], change.participant.userId = userId := by
    intro change hchange
    rcases List.mem_append.mp hchange with hleave | hjoin
    · obtain ⟨entry, hentry, rfl⟩ := List.mem_map.mp hleave
      have hget := (Option.filter_eq_some_iff.mp (Option.mem_toList.mp hentry)).1
      exact (Keyed.key_of_get? hget : entry.userId = userId)
    · rw [List.mem_singleton.mp hjoin]
      exact hperson
  refine ⟨.of_person habout (fun other hother => ?_) ?_, habout⟩
  · rw [Keyed.get?_set, hperson, if_neg (Ne.symm hother)]
  · have hset : (Keyed.set v now).get? userId = some now := by rw [← hperson, Keyed.get?_set_self]
    rw [VoiceUsers.seen, VoiceUsers.seen, hset]
    cases hget : v.get? userId with
    | none => exact replay_join (by rintro _ ⟨⟩)
    | some prev =>
      by_cases hsame : prev.channel = vs.channelId
      · rw [Option.filter_some_neg (by simp [hsame])]
        exact replay_join fun held hheld => by
          rw [← Option.some.inj hheld]
          exact hsame.trans hchannel.symm
      · rw [Option.filter_some_pos (by simp [hsame])]
        refine (replay_append [prev.leave] [now.join] _).trans ?_
        rw [Option.map_some, replay_leave]
        exact replay_join (by rintro _ ⟨⟩)

/-- Emptying a channel announces each leave, about the people who were in it. -/
theorem clearChannel_announces (v : VoiceUsers) (channelId : String) :
    Announces v (v.clearChannel channelId).1 ((v.clearChannel channelId).2.map (·.leave)) ∧
      ∀ change ∈ (v.clearChannel channelId).2.map (·.leave),
        (v.get? change.participant.userId).any (·.channel == channelId) = true := by
  constructor
  · intro userId
    -- of those dropped, one entry at most is the person's
    have habout : about userId ((v.clearChannel channelId).2.map (·.leave)) =
        ((v.get? userId).toList.filter fun e => e.channel == channelId).map (·.leave) := by
      rw [about, List.filter_map, VoiceUsers.clearChannel, List.filter_filter, ← Keyed.filter_values_eq,
        List.filter_filter]
      refine congrArg _ (List.filter_congr fun e _ => ?_)
      exact Bool.and_comm ..
    rw [habout, VoiceUsers.seen, VoiceUsers.seen, VoiceUsers.clearChannel, Keyed.get?_filter]
    cases hget : v.get? userId with
    | none => rfl
    | some entry =>
      by_cases hin : entry.channel = channelId
      · simp [hin, Option.filter, replay_leave]
      · simp [hin, Option.filter, replay]
  · intro change hchange
    obtain ⟨entry, hentry, rfl⟩ := List.mem_map.mp hchange
    obtain ⟨hmem, hin⟩ := List.mem_filter.mp hentry
    have hget : v.get? entry.leave.participant.userId = some entry := Keyed.mem_values.mp hmem
    rw [hget, Option.any_some]
    exact hin

theorem handleVoiceState_announces (v : VoiceUsers) (userId : String) (conn : Nat) (vs : VoiceReport)
    (port : VoicePort) : AnnouncesPerson v userId (v.handleVoiceState userId conn vs port) := by
  have hnothing : AnnouncesPerson v userId (v, []) := ⟨.refl v, nofun⟩
  unfold VoiceUsers.handleVoiceState
  split
  · exact clearIf_announces v userId _
  · split
    · exact hnothing
    next spaceId isPrivate _ =>
      split
      · exact hnothing
      · split
        · exact hnothing
        · exact set_announces v userId conn spaceId isPrivate vs

theorem channelDeleted_announces (v : VoiceUsers) (userId channelId : String) (occupied : Option Bool)
    (space : Option String) :
    let op := v.channelDeleted userId channelId occupied space
    Announces v op.1 op.2 ∧ ∀ change ∈ op.2, change.participant.userId = userId ∨
      (v.get? change.participant.userId).any (·.channel == channelId) = true := by
  have hemptied := clearChannel_announces v channelId
  unfold VoiceUsers.channelDeleted
  split
  · exact ⟨.refl v, by rintro _ ⟨⟩⟩
  · exact ⟨hemptied.1, fun change hchange => .inr (hemptied.2 change hchange)⟩
  · split
    · exact ⟨.refl v, by rintro _ ⟨⟩⟩
    next spaceId =>
      by_cases hspace : spaceId = ""
      · simp only [hspace, if_true]
        exact ⟨hemptied.1, fun change hchange => .inr (hemptied.2 change hchange)⟩
      · simp only [if_neg hspace]
        obtain ⟨hannounces, hperson⟩ := clearIf_announces v userId fun entry => entry.channel == channelId
        exact ⟨hannounces, fun change hchange => .inl (hperson change hchange)⟩

end

/-! ## The gateway through a run -/

/-- What holds between the steps, where nobody is touched while an announcement about them waits: what
was published and what waits replay to the state, and what waits about a person is one connection's. -/
structure VoiceGateway.Sound (s : VoiceGateway) : Prop where
  replays : ∀ userId,
    replay (about userId (s.log ++ s.waiting.map (·.change))) none = some (s.users.seen userId)
  alone : ∀ w ∈ s.waiting, ∀ w' ∈ s.waiting,
    w.change.participant.userId = w'.change.participant.userId → w.conn = w'.conn

section
variable {s s' : VoiceGateway} {a : VoiceStep} {conn : Nat}

/-- A change announced about people of whom nothing waits. -/
theorem VoiceGateway.Sound.change (h : s.Sound) {op : VoiceUsers × List VoiceStateChanged}
    (hannounces : Announces s.users op.1 op.2)
    (hnone : ∀ change ∈ op.2, ∀ w ∈ s.waiting,
      w.change.participant.userId ≠ change.participant.userId) : (s.change conn op).Sound where
  replays userId := by
    have hwaiting : (s.waiting ++ op.2.map fun change => (⟨conn, change⟩ : Waiting)).map (·.change) =
        s.waiting.map (·.change) ++ op.2 := by
      rw [List.map_append, List.map_map]
      exact congrArg _ (List.map_id op.2)
    rw [VoiceGateway.change, hwaiting, ← List.append_assoc, about_append, replay_append, h.replays]
    exact hannounces userId
  alone w hw w' hw' hperson := by
    rcases List.mem_append.mp hw with hw | hw <;> rcases List.mem_append.mp hw' with hw' | hw'
    · exact h.alone w hw w' hw' hperson
    · obtain ⟨change, hchange, rfl⟩ := List.mem_map.mp hw'
      exact absurd hperson (hnone change hchange w hw)
    · obtain ⟨change, hchange, rfl⟩ := List.mem_map.mp hw
      exact absurd hperson.symm (hnone change hchange w' hw')
    · obtain ⟨change, -, rfl⟩ := List.mem_map.mp hw
      obtain ⟨change', -, rfl⟩ := List.mem_map.mp hw'
      rfl

/-- An announcement that moves past announcements about others is in its place among its own. -/
theorem about_moved {userId : String} {log before after : List VoiceStateChanged}
    {change : VoiceStateChanged}
    (h : ∀ other ∈ before, other.participant.userId ≠ change.participant.userId) :
    about userId (log ++ [change] ++ (before ++ after)) = about userId (log ++ (before ++ change :: after)) := by
  have hsplit : log ++ (before ++ change :: after) = log ++ before ++ [change] ++ after := by simp
  rw [hsplit, ← List.append_assoc, about_append, about_append, about_append, about_append, about_append,
    about_append]
  by_cases hperson : change.participant.userId = userId
  · have hbefore : about userId before = [] := List.filter_eq_nil_iff.mpr fun other hother => by
      simpa [← hperson] using h other hother
    simp [hbefore]
  · have hchange : about userId [change] = [] := List.filter_eq_nil_iff.mpr fun other hother => by
      simpa [List.mem_singleton.mp hother] using hperson
    simp [hchange]

/-- What a publish does. -/
theorem publish_cases (h : s.step (.publish conn) = some s') :
    ∃ before w after, s.waiting = before ++ w :: after ∧ w.conn = conn ∧ (∀ w' ∈ before, w'.conn ≠ conn) ∧
      s' = { s with waiting := before ++ after, log := s.log ++ [w.change] } := by
  simp only [VoiceGateway.step] at h
  split at h
  · cases h
  next w after hrest =>
    refine ⟨s.waiting.takeWhile (·.conn != conn), w, after, ?_, ?_, fun w' hw' => ?_, ?_⟩
    · rw [← hrest, List.takeWhile_append_dropWhile]
    · have hhead := List.head_dropWhile_not (fun w : Waiting => w.conn != conn) (l := s.waiting) (by simp [hrest])
      simpa [hrest] using hhead
    · simpa using List.mem_takeWhile_imp hw'
    · exact (Option.some.inj h).symm

theorem VoiceGateway.Sound.publish (h : s.Sound) (hstep : s.step (.publish conn) = some s') : s'.Sound := by
  obtain ⟨before, w, after, hwaiting, hconn, hbefore, rfl⟩ := publish_cases hstep
  have hstill : ∀ w' ∈ before ++ after, w' ∈ s.waiting := by
    intro w' hw'
    rw [hwaiting]
    exact List.mem_append.mpr ((List.mem_append.mp hw').imp_right (List.mem_cons_of_mem w))
  have hw : w ∈ s.waiting := by simp [hwaiting]
  refine ⟨fun userId => ?_, fun w₁ hw₁ w₂ hw₂ => h.alone w₁ (hstill w₁ hw₁) w₂ (hstill w₂ hw₂)⟩
  rw [← h.replays userId, hwaiting, List.map_append, List.map_append, List.map_cons]
  refine congrArg (replay · none) (about_moved fun other hother hperson => ?_)
  obtain ⟨w', hw', rfl⟩ := List.mem_map.mp hother
  exact hbefore w' hw' ((h.alone w' (hstill w' (List.mem_append_left _ hw')) w hw hperson).trans hconn)

/-- A connection whose main loop is free is open. -/
theorem VoiceGateway.free_spec {c : VoiceConn} (h : s.free conn = some c) : s.conns.get? conn = some c :=
  (Option.filter_eq_some_iff.mp h).1

/-- A change on a person's account, where nothing about them waits. -/
theorem VoiceGateway.Sound.changePerson {c : VoiceConn} {op : VoiceUsers × List VoiceStateChanged}
    (h : s.Sound) (hconn : s.conns.get? conn = some c)
    (hok : ∀ w ∈ s.waiting,
      ((s.conns.get? conn).any fun c => c.userId == w.change.participant.userId) = false)
    (hop : AnnouncesPerson s.users c.userId op) : (s.change conn op).Sound := by
  refine h.change hop.1 fun change hchange w hw hperson => ?_
  have hnot := hok w hw
  rw [hconn, Option.any_some, beq_eq_false_iff_ne] at hnot
  exact hnot ((hop.2 change hchange).symm.trans hperson.symm)

/-- **What begins sound stays sound.** -/
theorem VoiceGateway.Sound.step (h : s.Sound) (hok : NoneWaiting s a) (hstep : s.step a = some s') :
    s'.Sound := by
  cases a with
  | connect conn userId =>
    simp only [VoiceGateway.step] at hstep
    split at hstep
    · cases hstep
      exact ⟨h.replays, h.alone⟩
    · cases hstep
  | report conn vs port =>
    obtain ⟨c, hfree, rfl⟩ := Option.map_eq_some_iff.mp hstep
    exact h.changePerson (VoiceGateway.free_spec hfree) hok (handleVoiceState_announces ..)
  | dropSpace conn spaceId =>
    obtain ⟨c, hfree, rfl⟩ := Option.map_eq_some_iff.mp hstep
    exact h.changePerson (VoiceGateway.free_spec hfree) hok (clearIf_announces ..)
  | channelDeleted conn channelId occupied space =>
    obtain ⟨c, hfree, rfl⟩ := Option.map_eq_some_iff.mp hstep
    obtain ⟨hannounces, hpeople⟩ := channelDeleted_announces s.users c.userId channelId occupied space
    refine h.change hannounces fun change hchange w hw hperson => ?_
    have hnot := hok w hw
    simp only [VoiceGateway.concerns, VoiceGateway.free_spec hfree, Option.any_some, Bool.or_eq_false_iff,
      beq_eq_false_iff_ne] at hnot
    rcases hpeople change hchange with hown | hin
    · exact hnot.1 (hown.symm.trans hperson.symm)
    · rw [← hperson, hnot.2] at hin
      cases hin
  | close conn =>
    obtain ⟨c, hfree, rfl⟩ := Option.map_eq_some_iff.mp hstep
    have hchanged := h.changePerson (VoiceGateway.free_spec hfree) hok
      (clearIf_announces s.users c.userId fun entry => entry.conn == conn)
    exact ⟨hchanged.replays, hchanged.alone⟩
  | publish conn => exact h.publish hstep

theorem sound_newVoiceGateway : newVoiceGateway.Sound := ⟨fun _ => rfl, nofun⟩

/-- A record that replays replays as far as it has come. -/
theorem replay_isSome_of_append {changes changes' : List VoiceStateChanged}
    {seen : Option VoiceParticipant} (h : (replay (changes ++ changes') seen).isSome) :
    (replay changes seen).isSome := by
  rw [replay_append] at h
  cases hreplay : replay changes seen with
  | none => simp [hreplay] at h
  | some _ => rfl

/-- **A connection that owns no entry is closed without a trace.** -/
theorem close_quiet {c : VoiceConn} (hconn : s.conns.get? conn = some c)
    (howned : ∀ entry ∈ s.users.get? c.userId, entry.conn ≠ conn)
    (hstep : s.step (.close conn) = some s') :
    s'.users = s.users ∧ s'.waiting = s.waiting ∧ s'.log = s.log := by
  obtain ⟨c', hfree, rfl⟩ := Option.map_eq_some_iff.mp hstep
  obtain rfl : c = c' := Option.some.inj (hconn.symm.trans (VoiceGateway.free_spec hfree))
  have hnothing : s.users.clearOwnedBy c.userId conn = (s.users, none) := by
    rcases clearIf_cases s.users c.userId fun entry => entry.conn == conn with ⟨-, hclear⟩ |
      ⟨entry, hget, hmatches, -⟩
    · exact hclear
    · exact absurd (eq_of_beq hmatches) (howned entry hget)
  rw [hnothing]
  exact ⟨rfl, List.append_nil _, rfl⟩

/-- **Voice presence is consistent** in every run in which nobody's voice state is touched while an
announcement about them waits. -/
theorem voice_consistent (h : Runs VoiceGateway.step NoneWaiting newVoiceGateway s) :
    VoiceConsistent s := by
  have hsound : s.Sound :=
    h.keeps sound_newVoiceGateway fun _ _ _ hsound hok hstep => hsound.step hok hstep
  refine ⟨fun entry hentry entry' hentry' hperson => ?_, fun userId => ?_, fun userId hnone => ?_,
    fun conn c s' hconn howned hstep => close_quiet hconn howned hstep⟩
  · exact List.inj_on_of_nodup_map s.users.nodup hentry hentry' hperson
  · apply @replay_isSome_of_append _ (about userId (s.waiting.map (·.change)))
    rw [← about_append, hsound.replays]
    rfl
  · have hwaiting : about userId (s.waiting.map (·.change)) = [] :=
      List.filter_eq_nil_iff.mpr fun change hchange => by
        obtain ⟨w, hw, rfl⟩ := List.mem_map.mp hchange
        simpa using hnone w hw
    have hreplays := hsound.replays userId
    rwa [about_append, hwaiting, List.append_nil] at hreplays

end

/-! ## Two runs -/

/-- A report that its lookups let through to a public channel. -/
def inSpace : VoicePort := ⟨some ("space", false), true, false⟩

/-- Two connections of one person, each reporting another channel. -/
def twoReports : List VoiceStep :=
  [.connect 1 "ada", .connect 2 "ada", .report 1 ⟨"room", false, false, false, false⟩ inSpace]

/-- The second report follows the first one's announcement, and the person is heard to move. -/
theorem voice_consistent_moves :
    let steps := twoReports ++ [.publish 1, .report 2 ⟨"hall", false, false, false, false⟩ inSpace,
      .publish 2, .publish 2, .close 1]
    ∃ s, runList VoiceGateway.step newVoiceGateway steps = some s ∧
      s.log.map (fun change => (change.participant.channelId, change.joined)) =
        [("room", true), ("room", false), ("hall", true)] ∧ VoiceConsistent s := by
  intro steps
  have hlog : (runList VoiceGateway.step newVoiceGateway steps).map (fun s =>
      s.log.map fun change => (change.participant.channelId, change.joined)) =
        some [("room", true), ("room", false), ("hall", true)] := by decide +kernel
  obtain ⟨s, hs, hlog⟩ := Option.map_eq_some_iff.mp hlog
  have hok : EachStep VoiceGateway.step NoneWaiting newVoiceGateway steps := by decide +kernel
  exact ⟨s, hs, hlog, voice_consistent (.ofList steps hok hs)⟩

/-- **Announced out of order**: the second report comes between the first one's change and its
announcement, and the last that is heard is a join of the channel the person left. -/
theorem voice_announced_out_of_order :
    ¬ ∀ s, Runs VoiceGateway.step Always newVoiceGateway s → VoiceConsistent s := by
  intro claim
  have hrun : (runList VoiceGateway.step newVoiceGateway (twoReports ++
      [.report 2 ⟨"hall", false, false, false, false⟩ inSpace, .publish 2, .publish 2, .publish 1])).map
        (fun s => replay (about "ada" s.log) none) = some none := by decide +kernel
  obtain ⟨s, hs, hreplay⟩ := Option.map_eq_some_iff.mp hrun
  have unbroken := (claim s (.ofList _ (.always _ _) hs)).unbroken "ada"
  rw [hreplay] at unbroken
  cases unbroken

end Stoop.Realtime
