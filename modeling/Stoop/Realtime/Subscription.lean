import Mathlib.Data.List.Basic
import Stoop.Lib.Machine

/-!
# What a connection is subscribed to

A person's memberships, the changes to them that are committed and still to be published, and one
connection of theirs: `ListSpaceIDs`, then `Subscribe`, and then the events its subscription receives,
taken one after the other and applied before they are forwarded (`internal/realtime/gateway.go`, and
`InProcBus` in `internal/events/bus.go`).

A join is published to the person's own topic, a removal to the space's. Neither the list and the
subscription nor a commit and its publish are one step, so events can pass a connection by.
`hears_own_spaces` says when none does, and `removal_missed` is a run where one does.
-/

set_option autoImplicit false

namespace Stoop.Realtime

open Stoop.Lib

/-! ## The bus, for one subscription -/

/-- `SpaceTopic` and `UserTopic`. -/
inductive Topic
  | user (id : String)
  | space (id : String)
  deriving DecidableEq, Repr

/-- The events a connection's subscription changes by, and any other. -/
inductive Event
  | spaceJoined (spaceId : String)
  | memberRemoved (spaceId userId : String)
  | spaceDeleted (spaceId : String)
  | other
  deriving DecidableEq, Repr

def subscriptionBuffer : Nat := 256

/-- A `Subscription`: the topics the bus has it under, and its channel. -/
structure Subscription where
  topics : List Topic
  queue : List Event
  closed : Bool
  deriving DecidableEq, Repr

/-- `Publish`, as one subscription is concerned: one that is full is dropped. -/
def Subscription.publish (sub : Subscription) (topic : Topic) (ev : Event) : Subscription :=
  if sub.topics.contains topic then
    if sub.queue.length < subscriptionBuffer then { sub with queue := sub.queue ++ [ev] }
    else { sub with topics := [], closed := true }
  else sub

/-- `Subscribe`. -/
def subscribe (topics : List Topic) : Subscription := ⟨topics, [], false⟩

/-- `Add`. -/
def Subscription.add (sub : Subscription) (topic : Topic) : Subscription :=
  if sub.closed || sub.topics.contains topic then sub else { sub with topics := topic :: sub.topics }

/-- `Remove`. -/
def Subscription.remove (sub : Subscription) (topic : Topic) : Subscription :=
  if sub.closed then sub else { sub with topics := sub.topics.filter fun t => t != topic }

/-! ## The gateway -/

/-- The space that an event takes a person into, or out of. -/
def Event.moves (userId : String) : Event → Option (String × Bool)
  | .spaceJoined spaceId => some (spaceId, true)
  | .memberRemoved spaceId removed => if removed = userId then some (spaceId, false) else none
  | .spaceDeleted spaceId => some (spaceId, false)
  | .other => none

/-- `applyControlEvent`, on the subscription. -/
def Subscription.applyControlEvent (sub : Subscription) (userId : String) (ev : Event) : Subscription :=
  match ev.moves userId with
  | some (spaceId, true) => sub.add (.space spaceId)
  | some (spaceId, false) => sub.remove (.space spaceId)
  | none => sub

/-- The topic a change of a person's memberships is published to. -/
def Event.topic (userId : String) : Event → Topic
  | .spaceJoined _ | .other => .user userId
  | .memberRemoved spaceId _ | .spaceDeleted spaceId => .space spaceId

/-- How far a connection has come: not begun or over, its spaces listed, or subscribed, with the event
it has taken and not applied. -/
inductive Connection
  | away
  | listed (spaceIds : List String)
  | live (sub : Subscription) (taken : Option Event)
  deriving DecidableEq, Repr

/-- A person: the spaces they are a member of, the changes committed and not yet published (in the order
of their commits), and a connection. -/
structure Person where
  userId : String
  members : List String
  unpublished : List Event
  conn : Connection
  deriving DecidableEq, Repr

def newPerson (userId : String) : Person := ⟨userId, [], [], .away⟩

inductive PersonStep
  | commit (change : Event)
  /-- a change that was committed, whichever -/
  | publish (index : Nat)
  | publishOther (topic : Topic) (ev : Event)
  | list
  | subscribe
  | take
  | apply
  | close
  deriving DecidableEq, Repr

/-- The memberships after a change. -/
def moved (members : List String) (spaceId : String) (joined : Bool) : List String :=
  if joined then spaceId :: members.filter fun x => x != spaceId
  else members.filter fun x => x != spaceId

/-- A connection after something was published. -/
def Connection.publish (conn : Connection) (topic : Topic) (ev : Event) : Connection :=
  match conn with
  | .live sub taken => .live (sub.publish topic ev) taken
  | conn => conn

def Person.step (s : Person) : PersonStep → Option Person
  | .commit change =>
    (change.moves s.userId).map fun (spaceId, joined) =>
      { s with members := moved s.members spaceId joined, unpublished := s.unpublished ++ [change] }
  | .publish index =>
    match s.unpublished.drop index with
    | [] => none
    | change :: rest => some { s with
        unpublished := s.unpublished.take index ++ rest
        conn := s.conn.publish (change.topic s.userId) change }
  | .publishOther topic ev =>
    if (ev.moves s.userId).isNone then some { s with conn := s.conn.publish topic ev } else none
  | .list => if s.conn = .away then some { s with conn := .listed s.members } else none
  | .subscribe =>
    match s.conn with
    | .listed spaceIds =>
      some { s with conn := .live (Realtime.subscribe (.user s.userId :: spaceIds.map .space)) none }
    | _ => none
  | .take =>
    match s.conn with
    | .live ⟨topics, ev :: queue, closed⟩ none =>
      some { s with conn := .live ⟨topics, queue, closed⟩ (some ev) }
    | _ => none
  | .apply =>
    match s.conn with
    | .live sub (some ev) => some { s with conn := .live (sub.applyControlEvent s.userId ev) none }
    | _ => none
  | .close => some { s with conn := .away }

/-! ## What passes a connection by -/

/-- What an event does to a person's membership of one space. -/
def Event.move (userId x : String) (ev : Event) : Option Bool :=
  (ev.moves userId).bind fun (spaceId, joined) => if spaceId = x then some joined else none

/-- The last that is done to a membership. -/
def lastMove (userId x : String) (events : List Event) : Option Bool :=
  events.reverse.findSome? (Event.move userId x)

/-- Whether a connection is where a change of a membership, published now, comes to it or is no news: the
list it is to subscribe from shows the change, or it is subscribed to the topic, or (a removal) it is not
subscribed to the space and has no join of it to apply. -/
def Connection.hears (userId x : String) (joined : Bool) : Connection → Bool
  | .away => true
  | .listed spaceIds => spaceIds.contains x == joined
  | .live sub taken => joined || sub.closed || sub.topics.contains (.space x) ||
      (taken.toList ++ sub.queue).all fun ev => ev.move userId x != some true

/-- Changes of one space are published in the order of their commits, and where the connection hears of
them. -/
def Person.publishes (s : Person) : PersonStep → Bool
  | .publish index =>
    match s.unpublished.drop index with
    | [] => true
    | change :: _ => (change.moves s.userId).all fun (x, joined) =>
        ((s.unpublished.take index).all fun ev => (ev.move s.userId x).isNone) &&
          s.conn.hears s.userId x joined
  | _ => true

def HeardInOrder (s : Person) (a : PersonStep) : Prop := s.publishes a = true

instance (s : Person) (a : PersonStep) : Decidable (HeardInOrder s a) :=
  inferInstanceAs (Decidable (_ = true))

/-- A connection that is subscribed and has applied everything published. -/
def Person.caughtUp (s : Person) (sub : Subscription) : Prop :=
  s.conn = .live sub none ∧ sub.closed = false ∧ sub.queue = [] ∧ s.unpublished = []

/-- A connection hears its member's spaces and no other: once it caught up it is subscribed to a space's
topic exactly where the person is a member, and nothing published in another space reaches it. -/
structure HearsOwnSpaces (s : Person) : Prop where
  topics : ∀ sub, s.caughtUp sub → ∀ x, Topic.space x ∈ sub.topics ↔ x ∈ s.members
  silent : ∀ sub, s.caughtUp sub → ∀ x, x ∉ s.members → ∀ ev s',
    s.step (.publishOther (.space x) ev) = some s' → s'.conn = s.conn

/-! ## Where a subscription will be -/

section
variable {userId x y : String} {events events' : List Event} {ev : Event}

theorem lastMove_append (events events' : List Event) :
    lastMove userId x (events ++ events') = (lastMove userId x events').or (lastMove userId x events) := by
  rw [lastMove, List.reverse_append, List.findSome?_append]
  rfl

theorem lastMove_singleton (ev : Event) : lastMove userId x [ev] = ev.move userId x := by
  simp [lastMove]

theorem lastMove_cons (ev : Event) (events : List Event) :
    lastMove userId x (ev :: events) = (lastMove userId x events).or (ev.move userId x) := by
  rw [← lastMove_singleton ev]
  exact lastMove_append [ev] events

theorem lastMove_eq_none : lastMove userId x events = none ↔ ∀ ev ∈ events, ev.move userId x = none := by
  simp [lastMove]

theorem move_of_moves {joined : Bool} (h : ev.moves userId = some (y, joined)) :
    ev.move userId x = if y = x then some joined else none := by
  rw [Event.move, h, Option.bind_some]

theorem move_of_none (h : ev.moves userId = none) : ev.move userId x = none := by
  rw [Event.move, h, Option.bind_none]

theorem mem_moved {members : List String} {joined : Bool} :
    x ∈ moved members y joined ↔ if y = x then joined = true else x ∈ members := by
  unfold moved
  by_cases hyx : y = x
  · subst hyx
    cases joined <;> simp
  · cases joined <;> simp [hyx, Ne.symm hyx]

/-- Where a connection's subscription to a space will be, when all it received is applied; one that is not
subscribed to anything, or was dropped, will be nowhere. -/
def Connection.will (userId x : String) : Connection → Option Bool
  | .away => none
  | .listed spaceIds => some (spaceIds.contains x)
  | .live sub taken => if sub.closed then none else
      some ((lastMove userId x (taken.toList ++ sub.queue)).getD (sub.topics.contains (.space x)))

theorem add_topics (sub : Subscription) (topic topic' : Topic) (h : sub.closed = false) :
    (sub.add topic).topics.contains topic' = (topic == topic' || sub.topics.contains topic') := by
  rw [Bool.eq_iff_iff, Bool.or_eq_true, beq_iff_eq, List.contains_iff_mem, List.contains_iff_mem]
  unfold Subscription.add
  split
  next hin =>
    have hin : topic ∈ sub.topics := by simpa [h] using hin
    exact ⟨.inr, fun hor => hor.elim (fun heq => heq ▸ hin) id⟩
  next => exact List.mem_cons.trans (or_congr_left eq_comm)

theorem remove_topics (sub : Subscription) (topic topic' : Topic) (h : sub.closed = false) :
    (sub.remove topic).topics.contains topic' = (topic != topic' && sub.topics.contains topic') := by
  rw [Bool.eq_iff_iff, Bool.and_eq_true, bne_iff_ne, List.contains_iff_mem, List.contains_iff_mem,
    Subscription.remove, h]
  exact List.mem_filter.trans (and_comm.trans (and_congr_left' (bne_iff_ne.trans ne_comm)))

/-- What applying an event does: the space's topic comes or goes, and nothing else. -/
theorem applyControlEvent_spec (sub : Subscription) (userId : String) (ev : Event) :
    (sub.applyControlEvent userId ev).closed = sub.closed ∧
      (sub.applyControlEvent userId ev).queue = sub.queue ∧
      (sub.closed = false → ∀ x, (sub.applyControlEvent userId ev).topics.contains (.space x) =
        (ev.move userId x).getD (sub.topics.contains (.space x))) ∧
      (sub.closed = false → ∀ id, (sub.applyControlEvent userId ev).topics.contains (.user id) =
        sub.topics.contains (.user id)) := by
  unfold Subscription.applyControlEvent
  split
  next spaceId hmoves =>
    refine ⟨?_, ?_, fun h x => ?_, fun h id => ?_⟩
    · unfold Subscription.add
      split <;> rfl
    · unfold Subscription.add
      split <;> rfl
    · rw [add_topics _ _ _ h, move_of_moves hmoves]
      by_cases hx : spaceId = x <;> simp [hx]
    · rw [add_topics _ _ _ h]
      rfl
  next spaceId hmoves =>
    refine ⟨?_, ?_, fun h x => ?_, fun h id => ?_⟩
    · unfold Subscription.remove
      split <;> rfl
    · unfold Subscription.remove
      split <;> rfl
    · rw [remove_topics _ _ _ h, move_of_moves hmoves]
      by_cases hx : spaceId = x <;> simp [hx]
    · rw [remove_topics _ _ _ h]
      rfl
  next hmoves =>
    refine ⟨rfl, rfl, fun _ x => ?_, fun _ _ => rfl⟩
    rw [move_of_none hmoves, Option.getD_none]

/-- Applying an event leaves a subscription where it was to be. -/
theorem will_apply (sub : Subscription) (ev : Event) :
    (Connection.live (sub.applyControlEvent userId ev) none).will userId x =
      (Connection.live sub (some ev)).will userId x := by
  obtain ⟨hclosed, hqueue, htopics, -⟩ := applyControlEvent_spec sub userId ev
  simp only [Connection.will, hclosed, hqueue]
  cases hdropped : sub.closed with
  | true => rfl
  | false =>
    rw [htopics hdropped, Option.toList_some, List.singleton_append, lastMove_cons, Option.toList_none,
      List.nil_append]
    cases lastMove userId x sub.queue <;> rfl

/-- A publish passes a subscription by, comes last in its queue, or drops it. -/
theorem Subscription.publish_cases (sub : Subscription) (topic : Topic) (ev : Event) :
    (sub.topics.contains topic = false ∧ sub.publish topic ev = sub) ∨
      sub.publish topic ev = { sub with queue := sub.queue ++ [ev] } ∨
      (sub.publish topic ev).closed = true := by
  unfold Subscription.publish
  split
  · split
    · exact .inr (.inl rfl)
    · exact .inr (.inr rfl)
  next hnot => exact .inl ⟨by simpa using hnot, rfl⟩

/-- Where an event's topic has a change go: a join to the person, a removal to the space. -/
theorem topic_of_moves {joined : Bool} (h : ev.moves userId = some (x, joined)) :
    ev.topic userId = if joined then .user userId else .space x := by
  cases ev with
  | spaceJoined spaceId =>
    cases h
    rfl
  | memberRemoved spaceId removed =>
    simp only [Event.moves] at h
    split at h
    · cases h
      rfl
    · cases h
  | spaceDeleted spaceId =>
    cases h
    rfl
  | other => cases h

/-- An event that moves a membership of another space, or none, leaves a subscription where it was to be,
if it is not dropped. -/
theorem will_publish {conn : Connection} {topic : Topic} {b : Bool} (hmove : ev.move userId x = none)
    (h : (conn.publish topic ev).will userId x = some b) : conn.will userId x = some b := by
  cases conn with
  | away => exact h
  | listed spaceIds => exact h
  | live sub taken =>
    simp only [Connection.publish, Connection.will] at h ⊢
    rcases sub.publish_cases topic ev with ⟨-, hsame⟩ | hlast | hclosed
    · rwa [hsame] at h
    · rw [hlast] at h
      simp only at h
      rwa [← List.append_assoc, lastMove_append, lastMove_singleton, hmove, Option.none_or] at h
    · rw [if_pos hclosed] at h
      cases h

end

/-! ## The person through a run -/

/-- What holds between the steps: a membership is as its last unpublished change has it, or, with none,
as the connection will have it; and a connection that is live has its person's own topic. -/
structure Person.Sound (s : Person) : Prop where
  settled : ∀ x b, (lastMove s.userId x s.unpublished).or (s.conn.will s.userId x) = some b →
    (x ∈ s.members ↔ b = true)
  own : ∀ sub taken, s.conn = .live sub taken → sub.closed = false →
    sub.topics.contains (.user s.userId) = true

section
variable {s s' : Person} {a : PersonStep}

/-- A live connection that something was published to, and that was not dropped. -/
theorem own_publish {conn : Connection} {topic : Topic} {ev : Event} {userId : String}
    (h : ∀ sub taken, conn = .live sub taken → sub.closed = false →
      sub.topics.contains (.user userId) = true) {sub : Subscription} {taken : Option Event}
    (hconn : conn.publish topic ev = .live sub taken) (hopen : sub.closed = false) :
    sub.topics.contains (.user userId) = true := by
  cases conn with
  | away => cases hconn
  | listed spaceIds => cases hconn
  | live found was =>
    cases hconn
    rcases found.publish_cases topic ev with ⟨-, hsame⟩ | hlast | hclosed
    · rw [hsame] at hopen ⊢
      exact h found _ rfl hopen
    · rw [hlast] at hopen ⊢
      exact h found _ rfl hopen
    · exact absurd (hclosed.symm.trans hopen) nofun

/-- **A change that is heard of settles its space**: published where the connection hears of it, it leaves
the subscription where the change has it, if not dropped. -/
theorem will_of_hears {conn : Connection} {userId x : String} {change : Event} {joined b : Bool}
    (hown : ∀ sub taken, conn = .live sub taken → sub.closed = false →
      sub.topics.contains (.user userId) = true)
    (hmoves : change.moves userId = some (x, joined)) (hhears : conn.hears userId x joined = true)
    (hwill : (conn.publish (change.topic userId) change).will userId x = some b) : b = joined := by
  have hmove : change.move userId x = some joined := by rw [move_of_moves hmoves, if_pos rfl]
  cases conn with
  | away => cases hwill
  | listed spaceIds =>
    simp only [Connection.hears, beq_iff_eq] at hhears
    exact (Option.some.inj hwill).symm.trans hhears
  | live sub taken =>
    simp only [Connection.publish, Connection.will] at hwill
    split at hwill
    next => cases hwill
    next hopen =>
      rcases sub.publish_cases (change.topic userId) change with ⟨hnot, hsame⟩ | hlast | hclosed
      · rw [hsame, Bool.not_eq_true] at hopen
        rw [hsame] at hwill
        rw [topic_of_moves hmoves] at hnot
        cases joined with
        | true =>
          -- a join goes to the person's own topic, which is always subscribed
          exact absurd (hnot.symm.trans (hown sub taken rfl hopen)) (by rintro ⟨⟩)
        | false =>
          rw [if_neg (by rintro ⟨⟩)] at hnot
          rw [hnot] at hwill
          simp only [Connection.hears, hopen, hnot, Bool.false_or, List.all_eq_true, bne_iff_ne] at hhears
          -- not subscribed, with nothing but removals to apply
          cases hfound : lastMove userId x (taken.toList ++ sub.queue) with
          | none =>
            rw [hfound] at hwill
            exact (Option.some.inj hwill).symm
          | some last =>
            rw [hfound] at hwill
            obtain rfl : last = b := Option.some.inj hwill
            obtain ⟨ev, hev, hlast⟩ := List.exists_of_findSome?_eq_some hfound
            cases last with
            | false => rfl
            | true => exact absurd hlast (hhears ev (List.mem_reverse.mp hev))
      · rw [hlast] at hwill
        simp only at hwill
        rw [← List.append_assoc, lastMove_append, lastMove_singleton, hmove, Option.some_or] at hwill
        exact (Option.some.inj hwill).symm
      · exact absurd hclosed hopen

/-- An event that is of one space moves that space's membership. -/
theorem moves_of_move {userId x : String} {ev : Event} {joined : Bool}
    (h : ev.move userId x = some joined) : ev.moves userId = some (x, joined) := by
  obtain ⟨⟨y, joined'⟩, hmoves, hif⟩ := Option.bind_eq_some_iff.mp h
  simp only at hif
  split at hif
  next hy =>
    cases hif
    rw [hmoves, hy]
  next => cases hif

/-- **Publishing a change keeps what holds**: published in its order and heard of, it is what the
connection will have of its space; of the other spaces it changes nothing. -/
theorem Person.Sound.publish (h : s.Sound) {index : Nat} (hok : HeardInOrder s (.publish index))
    (hstep : s.step (.publish index) = some s') : s'.Sound := by
  simp only [Person.step] at hstep
  split at hstep
  · cases hstep
  next change rest hdrop =>
    cases hstep
    have hsplit : s.unpublished = s.unpublished.take index ++ change :: rest := by
      rw [← hdrop, List.take_append_drop]
    refine ⟨fun x b hb => ?_, fun sub taken hconn hopen => own_publish h.own hconn hopen⟩
    simp only at hb
    refine h.settled x b ?_
    rw [hsplit, lastMove_append, lastMove_cons]
    rw [lastMove_append, Option.or_assoc] at hb
    rw [Option.or_assoc, Option.or_assoc]
    rcases Option.or_eq_some_iff.mp hb with hrest | ⟨hrest, hb⟩
    · rw [hrest, Option.some_or]
    rw [hrest, Option.none_or]
    cases hmove : change.move s.userId x with
    | none =>
      rw [Option.none_or]
      rcases Option.or_eq_some_iff.mp hb with hbefore | ⟨hbefore, hwill⟩
      · rw [hbefore, Option.some_or]
      · rw [hbefore, Option.none_or, will_publish hmove hwill]
    | some joined =>
      -- the change of this space: none was committed before it, and the connection hears of it
      have hmoves := moves_of_move hmove
      simp only [HeardInOrder, Person.publishes, hdrop, hmoves, Option.all_some, Bool.and_eq_true,
        List.all_eq_true, Option.isNone_iff_eq_none] at hok
      rw [lastMove_eq_none.mpr hok.1, Option.none_or] at hb
      rw [will_of_hears h.own hmoves hok.2 hb, Option.some_or]

/-- **What begins sound stays sound**, where changes are published in order and heard of. -/
theorem Person.Sound.step (h : s.Sound) (hok : HeardInOrder s a) (hstep : s.step a = some s') :
    s'.Sound := by
  cases a with
  | commit change =>
    obtain ⟨⟨spaceId, joined⟩, hmoves, rfl⟩ := Option.map_eq_some_iff.mp hstep
    refine ⟨fun x b hb => ?_, h.own⟩
    simp only [lastMove_append, lastMove_singleton, move_of_moves hmoves] at hb
    rw [mem_moved]
    split at hb
    next hx =>
      rw [if_pos hx]
      cases hb
      exact Iff.rfl
    next hx =>
      rw [if_neg hx]
      exact h.settled x b hb
  | publish index => exact h.publish hok hstep
  | publishOther topic ev =>
    simp only [Person.step] at hstep
    split at hstep
    next hother =>
      cases hstep
      refine ⟨fun x b hb => h.settled x b ?_, fun sub taken hconn hopen => own_publish h.own hconn hopen⟩
      rcases Option.or_eq_some_iff.mp hb with hlast | ⟨hlast, hwill⟩
      · rw [show lastMove s.userId x s.unpublished = some b from hlast, Option.some_or]
      · rw [show lastMove s.userId x s.unpublished = none from hlast, Option.none_or]
        exact will_publish (move_of_none (Option.isNone_iff_eq_none.mp hother)) hwill
    next => cases hstep
  | list =>
    simp only [Person.step] at hstep
    split at hstep
    next =>
      cases hstep
      refine ⟨fun x b hb => ?_, nofun⟩
      rcases Option.or_eq_some_iff.mp hb with hlast | ⟨-, hlisted⟩
      · exact h.settled x b (Option.or_eq_some_iff.mpr (.inl hlast))
      · rw [← Option.some.inj hlisted, List.contains_iff_mem]
    next => cases hstep
  | subscribe =>
    simp only [Person.step] at hstep
    split at hstep
    next spaceIds hconn =>
      cases hstep
      refine ⟨fun x b hb => h.settled x b ?_, fun sub taken hconn hopen => ?_⟩
      · rw [← hb, hconn]
        simp [Connection.will, Realtime.subscribe, lastMove]
      · cases hconn
        simp [Realtime.subscribe]
    next => cases hstep
  | take =>
    simp only [Person.step] at hstep
    split at hstep
    next topics ev queue closed hconn =>
      cases hstep
      refine ⟨fun x b hb => h.settled x b ?_, fun sub taken hlive hopen => ?_⟩
      · rw [← hb, hconn]
        rfl
      · cases hlive
        exact h.own ⟨topics, ev :: queue, closed⟩ none hconn hopen
    next => cases hstep
  | apply =>
    simp only [Person.step] at hstep
    split at hstep
    next sub ev hconn =>
      cases hstep
      refine ⟨fun x b hb => h.settled x b ?_, fun found taken hlive hopen => ?_⟩
      · rw [← hb, hconn, will_apply]
      · cases hlive
        obtain ⟨hclosed, -, -, huser⟩ := applyControlEvent_spec sub s.userId ev
        have hopen' : sub.closed = false := hclosed.symm.trans hopen
        rw [huser hopen']
        exact h.own _ _ hconn hopen'
    next => cases hstep
  | close =>
    cases hstep
    refine ⟨fun x b hb => h.settled x b ?_, nofun⟩
    simp only [Connection.will, Option.or_none] at hb
    rw [hb, Option.some_or]

theorem sound_newPerson (userId : String) : (newPerson userId).Sound :=
  ⟨nofun, nofun⟩

/-- **A connection hears its member's spaces and no other**, in every run whose changes are published in
the order of their commits and where the connection hears of them. -/
theorem hears_own_spaces {userId : String} (h : Runs Person.step HeardInOrder (newPerson userId) s) :
    HearsOwnSpaces s := by
  have hsound : s.Sound :=
    h.keeps (sound_newPerson userId) fun _ _ _ hsound hok hstep => hsound.step hok hstep
  have htopics : ∀ sub, s.caughtUp sub → ∀ x, Topic.space x ∈ sub.topics ↔ x ∈ s.members := by
    rintro sub ⟨hconn, hopen, hqueue, hpublished⟩ x
    have hsettled := hsound.settled x (sub.topics.contains (.space x)) (by
      simp [hconn, hpublished, Connection.will, hopen, hqueue, lastMove])
    exact (List.contains_iff_mem.symm).trans hsettled.symm
  refine ⟨htopics, fun sub hcaught x hout ev s' hstep => ?_⟩
  have hconn := hcaught.1
  simp only [Person.step] at hstep
  split at hstep
  next =>
    cases hstep
    have hnot : sub.topics.contains (.space x) = false := by
      simpa using fun hin => hout ((htopics sub hcaught x).mp hin)
    simp only [hconn, Connection.publish, Subscription.publish, hnot]
    rfl
  next => cases hstep

end

/-! ## Two runs -/

/-- A member of a space, whose connection lists it. -/
def listedMember : List PersonStep := [.commit (.spaceJoined "a"), .publish 0, .list]

/-- The connection hears the removal, and a join of another space after it. -/
theorem hears_own_spaces_moves :
    let steps := listedMember ++ [.subscribe, .commit (.memberRemoved "a" "ada"), .publish 0, .take, .apply,
      .commit (.spaceJoined "b"), .publish 0, .take, .apply]
    ∃ s, runList Person.step (newPerson "ada") steps = some s ∧
      s.conn = .live ⟨[.space "b", .user "ada"], [], false⟩ none ∧ HearsOwnSpaces s := by
  intro steps
  have hconn : (runList Person.step (newPerson "ada") steps).map (·.conn) =
      some (.live ⟨[.space "b", .user "ada"], [], false⟩ none) := by decide +kernel
  obtain ⟨s, hs, hconn⟩ := Option.map_eq_some_iff.mp hconn
  have hok : EachStep Person.step HeardInOrder (newPerson "ada") steps := by decide +kernel
  exact ⟨s, hs, hconn, hears_own_spaces (.ofList steps hok hs)⟩

/-- **A removal that is missed**: it commits and is published after the connection listed the space and
before it subscribed, and the connection goes on hearing the space. -/
theorem removal_missed :
    ¬ ∀ userId s, Runs Person.step Always (newPerson userId) s → HearsOwnSpaces s := by
  intro claim
  have hrun : runList Person.step (newPerson "ada")
      (listedMember ++ [.commit (.memberRemoved "a" "ada"), .publish 0, .subscribe]) =
        some ⟨"ada", [], [], .live ⟨[.user "ada", .space "a"], [], false⟩ none⟩ := by decide +kernel
  have heard := (claim "ada" _ (.ofList _ (.always _ _) hrun)).topics _ ⟨rfl, rfl, rfl, rfl⟩ "a"
  exact absurd (heard.mp (by simp)) List.not_mem_nil

/-- A removal right behind a join is missed too: it goes to the space's topic, and the join that would
subscribe the connection to it is still to be applied. -/
example : (runList Person.step (newPerson "ada") [.list, .subscribe, .commit (.spaceJoined "a"), .publish 0,
    .commit (.memberRemoved "a" "ada"), .publish 0, .take, .apply]).map (fun s => (s.members, s.conn)) =
      some ([], .live ⟨[.space "a", .user "ada"], [], false⟩ none) := by decide +kernel

end Stoop.Realtime
