import Mathlib.Data.List.Basic
import Stoop.Lib.Machine
import Stoop.Lib.Keyed

/-!
# The event bus

`InProcBus` (`internal/events/bus.go`) and all its subscriptions. Each subscription has the set of its topics,
and the bus has a set of subscriptions for each topic; a topic without subscriptions has no set. A call holds
the bus's lock and is one step, and taking an event off a subscription's channel is another. `Publish` walks
the subscriptions of its topic in the order the runtime chose, and drops on the way those whose buffer is full.

Sending on a closed channel stops the program, and so does closing one twice: the calls answer a `Panic` there.
-/

set_option autoImplicit false

namespace Stoop.Events

open Stoop.Lib

variable {τ ε : Type}

/-! ## Channels and subscriptions -/

/-- A channel: what is in its buffer, and whether it is closed. -/
structure Chan (ε : Type) where
  buffer : List ε
  closed : Bool
  deriving DecidableEq, Repr

/-- What stops the program. -/
inductive Panic
  | sendOnClosed
  | closeOfClosed
  deriving DecidableEq, Repr

def subscriptionBuffer : Nat := 256

/-- A send with a default: the channel after, or none where it is full. -/
def Chan.offer (ch : Chan ε) (ev : ε) : Except Panic (Option (Chan ε)) :=
  if ch.closed then .error .sendOnClosed
  else if ch.buffer.length < subscriptionBuffer then .ok (some { ch with buffer := ch.buffer ++ [ev] })
  else .ok none

def Chan.close (ch : Chan ε) : Except Panic (Chan ε) :=
  if ch.closed then .error .closeOfClosed else .ok { ch with closed := true }

/-- `Subscription`, with the pointer it is known by. -/
structure Subscription (τ ε : Type) where
  id : Nat
  topics : List τ
  closed : Bool
  ch : Chan ε
  deriving DecidableEq, Repr

/-- `Subscribe` makes it, before it has a topic. -/
def newSubscription (id : Nat) : Subscription τ ε := ⟨id, [], false, ⟨[], false⟩⟩

/-- The subscriptions of a topic. -/
structure TopicSet (τ : Type) where
  topic : τ
  subs : List Nat
  deriving DecidableEq, Repr

abbrev Topics (τ : Type) := Keyed (@TopicSet.topic τ)

abbrev Subscriptions (τ ε : Type) := Keyed (@Subscription.id τ ε)

/-- `InProcBus`, and the subscriptions made on it. -/
structure InProcBus (τ ε : Type) where
  topics : Topics τ
  subs : Subscriptions τ ε

/-- `NewInProcBus`. -/
def newInProcBus : InProcBus τ ε := ⟨Keyed.empty, Keyed.empty⟩

section Calls

variable [DecidableEq τ]

/-- `b.topics[topic]`: a topic without a set has no subscriptions. -/
def listed (topics : Topics τ) (topic : τ) : List Nat :=
  match topics.get? topic with
  | none => []
  | some set => set.subs

/-- `set[sub] = struct{}{}`, in a new set where the topic had none. -/
def list (topics : Topics τ) (id : Nat) (topic : τ) : Topics τ :=
  topics.set ⟨topic, (listed topics topic).insert id⟩

/-- `delete(b.topics[topic], sub)`, and the set with it when it is left empty. -/
def unlist (id : Nat) (topics : Topics τ) (topic : τ) : Topics τ :=
  let left := (listed topics topic).filter fun other => other != id
  if left.isEmpty then topics.filter fun set => set.topic != topic else topics.set ⟨topic, left⟩

/-- `addLocked`. -/
def addLocked (id : Nat) (b : InProcBus τ ε) (topic : τ) : InProcBus τ ε :=
  match b.subs.get? id with
  | none => b
  | some sub =>
    if sub.closed then b
    else ⟨list b.topics id topic, b.subs.set { sub with topics := sub.topics.insert topic }⟩

/-- `removeTopic`. -/
def removeTopic (id : Nat) (b : InProcBus τ ε) (topic : τ) : InProcBus τ ε :=
  match b.subs.get? id with
  | none => b
  | some sub =>
    if sub.closed then b
    else ⟨unlist id b.topics topic, b.subs.set { sub with topics := sub.topics.filter fun t => t != topic }⟩

/-- `removeLocked`: the subscription's own topics stay, and `Has` no longer looks at them. -/
def removeLocked (id : Nat) (b : InProcBus τ ε) : Except Panic (InProcBus τ ε) :=
  match b.subs.get? id with
  | none => .ok b
  | some sub =>
    if sub.closed then .ok b
    else match sub.ch.close with
      | .error panic => .error panic
      | .ok ch => .ok ⟨sub.topics.foldl (unlist id) b.topics, b.subs.set { sub with closed := true, ch := ch }⟩

/-- One turn of `Publish`: a slow consumer is dropped rather than wait for. -/
def deliver (ev : ε) (id : Nat) (b : InProcBus τ ε) : Except Panic (InProcBus τ ε) :=
  match b.subs.get? id with
  | none => .ok b
  | some sub =>
    match sub.ch.offer ev with
    | .error panic => .error panic
    | .ok (some ch) => .ok { b with subs := b.subs.set { sub with ch := ch } }
    | .ok none => removeLocked id b

/-- `Publish`, over what is still to be walked: a subscription gone from the set meanwhile is not met. -/
def publish (topic : τ) (ev : ε) : List Nat → InProcBus τ ε → Except Panic (InProcBus τ ε)
  | [], b => .ok b
  | id :: walk, b =>
    if id ∈ listed b.topics topic then
      match deliver ev id b with
      | .error panic => .error panic
      | .ok b' => publish topic ev walk b'
    else publish topic ev walk b

/-- `Subscribe`, at a new pointer. -/
def subscribe (id : Nat) (topics : List τ) (b : InProcBus τ ε) : InProcBus τ ε :=
  topics.foldl (addLocked id) { b with subs := b.subs.set (newSubscription id) }

/-- `Has`. -/
def has (b : InProcBus τ ε) (id : Nat) (topic : τ) : Bool :=
  match b.subs.get? id with
  | none => false
  | some sub => if sub.closed then false else decide (topic ∈ sub.topics)

/-- One event is taken off a subscription's channel. -/
def receive (id : Nat) (b : InProcBus τ ε) : InProcBus τ ε :=
  match b.subs.get? id with
  | none => b
  | some sub => { b with subs := b.subs.set { sub with ch := { sub.ch with buffer := sub.ch.buffer.tail } } }

/-! ## Steps -/

inductive Call (τ ε : Type)
  | subscribe (id : Nat) (topics : List τ)
  | add (id : Nat) (topic : τ)
  | remove (id : Nat) (topic : τ)
  | close (id : Nat)
  | publish (topic : τ) (ev : ε) (walk : List Nat)
  | receive (id : Nat)
  deriving DecidableEq, Repr

/-- What a call can be: of a subscription there is, or a new one; a walk meets each subscription of the topic
once; an event is taken where there is one. -/
def Possible (b : InProcBus τ ε) : Call τ ε → Prop
  | .subscribe id _ => b.subs.get? id = none
  | .add id _ => (b.subs.get? id).isSome
  | .remove id _ => (b.subs.get? id).isSome
  | .close id => (b.subs.get? id).isSome
  | .publish topic _ walk =>
    walk.Nodup ∧ (∀ id ∈ walk, id ∈ listed b.topics topic) ∧ ∀ id ∈ listed b.topics topic, id ∈ walk
  | .receive id => (b.subs.get? id).any (fun sub => !sub.ch.buffer.isEmpty) = true

instance (b : InProcBus τ ε) : (c : Call τ ε) → Decidable (Possible b c)
  | .subscribe _ _ => inferInstanceAs (Decidable (_ = none))
  | .add _ _ | .remove _ _ | .close _ | .receive _ => inferInstanceAs (Decidable (_ = true))
  | .publish _ _ _ => inferInstanceAs (Decidable (_ ∧ _))

def call (b : InProcBus τ ε) : Call τ ε → Except Panic (InProcBus τ ε)
  | .subscribe id topics => .ok (subscribe id topics b)
  | .add id topic => .ok (addLocked id b topic)
  | .remove id topic => .ok (removeTopic id b topic)
  | .close id => removeLocked id b
  | .publish topic ev walk => publish topic ev walk b
  | .receive id => .ok (receive id b)

def step (b : InProcBus τ ε) (c : Call τ ε) : Option (InProcBus τ ε) :=
  if Possible b c then (call b c).toOption else none

end Calls

/-! ## One subscription -/

namespace Subscription

variable {sub : Subscription τ ε} {topic t : τ}

def close (sub : Subscription τ ε) : Subscription τ ε :=
  if sub.closed then sub else { sub with closed := true, ch := { sub.ch with closed := true } }

@[simp] theorem close_id : sub.close.id = sub.id := by unfold close; split <;> rfl

@[simp] theorem close_closed : sub.close.closed = true := by
  unfold close
  split
  · assumption
  · rfl

@[simp] theorem close_buffer : sub.close.ch.buffer = sub.ch.buffer := by unfold close; split <;> rfl

variable [DecidableEq τ]

def add (topic : τ) (sub : Subscription τ ε) : Subscription τ ε :=
  if sub.closed then sub else { sub with topics := sub.topics.insert topic }

def remove (topic : τ) (sub : Subscription τ ε) : Subscription τ ε :=
  if sub.closed then sub else { sub with topics := sub.topics.filter fun t => t != topic }

@[simp] theorem add_id : (sub.add topic).id = sub.id := by unfold add; split <;> rfl

@[simp] theorem add_closed : (sub.add topic).closed = sub.closed := by unfold add; split <;> rfl

@[simp] theorem add_ch : (sub.add topic).ch = sub.ch := by unfold add; split <;> rfl

theorem mem_add (hopen : sub.closed = false) : t ∈ (sub.add topic).topics ↔ t = topic ∨ t ∈ sub.topics := by
  simp [add, hopen]

@[simp] theorem remove_id : (sub.remove topic).id = sub.id := by unfold remove; split <;> rfl

@[simp] theorem remove_closed : (sub.remove topic).closed = sub.closed := by unfold remove; split <;> rfl

@[simp] theorem remove_ch : (sub.remove topic).ch = sub.ch := by unfold remove; split <;> rfl

theorem mem_remove (hopen : sub.closed = false) :
    t ∈ (sub.remove topic).topics ↔ t ∈ sub.topics ∧ t ≠ topic := by
  simp [remove, hopen]

/-- Topics added one after the other. -/
def addAll (own : List τ) (sub : Subscription τ ε) : Subscription τ ε := own.foldl (fun sub t => sub.add t) sub

theorem addAll_spec (own : List τ) (hopen : sub.closed = false) :
    (sub.addAll own).id = sub.id ∧ (sub.addAll own).closed = false ∧ (sub.addAll own).ch = sub.ch ∧
      ∀ t, t ∈ (sub.addAll own).topics ↔ t ∈ own ∨ t ∈ sub.topics := by
  induction own generalizing sub with
  | nil => exact ⟨rfl, hopen, rfl, fun t => (or_iff_right List.not_mem_nil).symm⟩
  | cons topic own ih =>
    obtain ⟨hid, hclosed, hch, htopics⟩ := ih (add_closed.trans hopen)
    refine ⟨hid.trans add_id, hclosed, hch.trans add_ch, fun t => ?_⟩
    rw [addAll, List.foldl_cons, ← addAll, htopics, mem_add hopen, List.mem_cons, or_left_comm, or_assoc]

/-- Whether the next event is one too many. -/
def full (sub : Subscription τ ε) : Bool := decide (subscriptionBuffer ≤ sub.ch.buffer.length)

def offer (ev : ε) (sub : Subscription τ ε) : Subscription τ ε :=
  if sub.full then sub.close else { sub with ch := { sub.ch with buffer := sub.ch.buffer ++ [ev] } }

def receive (sub : Subscription τ ε) : Subscription τ ε :=
  { sub with ch := { sub.ch with buffer := sub.ch.buffer.tail } }

/-- A call, as one subscription is concerned. -/
def after (sub : Subscription τ ε) : Call τ ε → Subscription τ ε
  | .subscribe _ _ => sub
  | .add id topic => if id = sub.id then sub.add topic else sub
  | .remove id topic => if id = sub.id then sub.remove topic else sub
  | .close id => if id = sub.id then sub.close else sub
  | .publish _ ev walk => if sub.id ∈ walk then sub.offer ev else sub
  | .receive id => if id = sub.id then sub.receive else sub

end Subscription

end Stoop.Events
