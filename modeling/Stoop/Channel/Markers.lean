import Mathlib.Data.List.MinMax
import Mathlib.Logic.Function.Basic
import Mathlib.Order.Lattice
import Mathlib.Order.Nat
import Stoop.Lib.Machine

/-!
# Read markers

One person's marker in one channel: what the server stores, and what each of their devices shows
(`internal/chat/channels.go`, `web/src/api/unreads.ts`, `ws.ts`). A call is asked, commits, publishes its
event and is answered, each in its own time and any number beside one another; a device has what is
published in the order it was published.

The server stores the newest of the targets and announces the one asked for. A device takes its own answer
forward only, and an event as it comes. `markers_forward` is the runs in which no event is older than what
it meets (`Forward`, `Newest`); `announced_back` one in which an event is.

## The markers of a run

A marker comes to rest at the server's: one that is behind has an event of the server's marker to come
(`World.Sound.covered`); one that is ahead is at a message shown read as it landed, which the server has
still to be told of (`Device.Sound.marker`).
-/

set_option autoImplicit false

namespace Stoop.Channel.Markers

open Stoop.Lib

/-! ## The device -/

/-- Message ids are ordered by time; `0` is none. -/
abbrev Id := Nat

/-- A channel's record, as far as its unread state goes. -/
structure Record where
  lastMessageId : Id
  lastReadMessageId : Id
  unreadCount : Nat
  deriving DecidableEq, Repr

/-- What moves a marker, or makes a channel unread. -/
inductive Event
  | channelRead (lastReadMessageId : Id)
  | messageCreated (id : Id) (mine : Bool)
  deriving DecidableEq, Repr

/-- A device: its record, the message it has still to tell the server of, what is published and has not
come, and, which only the laws read, the messages it was shown. -/
structure Device where
  channel : Record
  readOnArrival : Id
  queue : List Event
  shown : List Id
  deriving DecidableEq, Repr

def isUnread (c : Record) : Bool := c.lastMessageId != 0 && decide (c.lastReadMessageId < c.lastMessageId)

namespace Device

def marker (d : Device) : Id := d.channel.lastReadMessageId

/-- The message still to be told of, if the record still shows it as the one read. -/
def readOnArrivalTarget (d : Device) : Id :=
  if d.readOnArrival = d.channel.lastReadMessageId then d.readOnArrival else 0

def clearReadOnArrival (d : Device) (messageId : Id) : Device :=
  if d.readOnArrival ≤ messageId then { d with readOnArrival := 0 } else d

/-- `markChannelRead`, once its call is answered. -/
def answered (d : Device) (messageId : Id) : Device :=
  let d := d.clearReadOnArrival messageId
  if messageId ≤ d.channel.lastReadMessageId then d
  else { d with channel := { d.channel with lastReadMessageId := messageId, unreadCount := 0 } }

/-- An event comes; `reading` is whether the channel is on screen with the window attended to. -/
def received (d : Device) (reading : Bool) : Event → Device
  | .channelRead id => { d with channel := { d.channel with lastReadMessageId := id, unreadCount := 0 } }
  | .messageCreated id mine =>
    { d with
      channel :=
        if mine || reading then ⟨id, id, 0⟩
        else { d.channel with lastMessageId := id, unreadCount := d.channel.unreadCount + 1 }
      readOnArrival := if !mine && reading then id else d.readOnArrival
      shown := id :: d.shown }

end Device

/-! ## The server and the wire -/

/-- A call that has not committed, and the message it is to mark read up to. -/
structure Call where
  device : Nat
  messageId : Id
  target : Id
  deriving DecidableEq, Repr

/-- Committed, and still to be published, with the call it answers. -/
structure Publication where
  event : Event
  answer : Option (Nat × Id)
  deriving DecidableEq, Repr

structure World where
  newest : Id
  stored : Id
  calls : List Call
  outbox : List Publication
  answers : List (Nat × Id)
  devices : Nat → Device

/-- Every device has loaded the channel. -/
def World.start (messages : List Id) (read : Id) : World :=
  let newest := messages.foldr max 0
  let channel : Record := ⟨newest, read, messages.countP (read < ·)⟩
  ⟨newest, read, [], [], [], fun _ => ⟨channel, 0, [], messages⟩⟩

/-- A call asked, committed, published, answered; a message sent; an event received. -/
inductive Label
  | markChannelRead (device : Nat) (messageId : Id)
  | commit (i : Nat)
  | sendMessage (id : Id) (mine : Bool)
  | publish (i : Nat)
  | answer (i : Nat)
  | receive (device : Nat) (reading : Bool)
  deriving DecidableEq, Repr

/-- What a call is to mark read up to: the channel's newest message where it names none. -/
def World.target (w : World) (messageId : Id) : Id := if messageId = 0 then w.newest else messageId

def World.step (w : World) : Label → Option World
  | .markChannelRead device messageId =>
    -- nothing to read yet
    if w.target messageId = 0 then some w
    else some { w with calls := w.calls ++ [⟨device, messageId, w.target messageId⟩] }
  | .commit i =>
    w.calls[i]?.map fun call =>
      { w with
        calls := w.calls.eraseIdx i
        stored := max w.stored call.target
        outbox := w.outbox ++ [⟨.channelRead call.target, some (call.device, call.messageId)⟩] }
  | .sendMessage id mine =>
    if id = 0 then none
    else some
      { w with
        newest := id
        stored := if mine then max w.stored id else w.stored
        outbox := w.outbox ++ [⟨.messageCreated id mine, none⟩] }
  | .publish i =>
    w.outbox[i]?.map fun publication =>
      { w with
        outbox := w.outbox.eraseIdx i
        answers := w.answers ++ publication.answer.toList
        devices := fun n => { w.devices n with queue := (w.devices n).queue ++ [publication.event] } }
  | .answer i =>
    w.answers[i]?.map fun (device, messageId) =>
      { w with
        answers := w.answers.eraseIdx i
        devices := Function.update w.devices device ((w.devices device).answered messageId) }
  | .receive device reading =>
    match (w.devices device).queue with
    | [] => none
    | event :: rest =>
      some { w with
        devices := Function.update w.devices device
          ({ w.devices device with queue := rest }.received reading event) }

/-! ## What is to hold -/

/-- Every event has come to a device, and it has no message left to tell of. -/
def World.Arrived (w : World) (n : Nat) : Prop :=
  w.outbox = [] ∧ (w.devices n).queue = [] ∧ (w.devices n).readOnArrivalTarget = 0

/-- No device's marker is moved to an older message. -/
def World.Onward (w w' : World) : Prop := ∀ n, (w.devices n).marker ≤ (w'.devices n).marker

/-- Once every event has arrived a marker is the server's, and a channel is shown read exactly when no
message shown is newer than its marker. -/
structure World.Settled (w : World) : Prop where
  stored : ∀ n, w.Arrived n → (w.devices n).marker = w.stored
  read : ∀ n, isUnread (w.devices n).channel = false ↔
    ∀ id ∈ (w.devices n).shown, id ≤ (w.devices n).marker

/-- **Where a marker goes forward**: an event that moves the marker names a message that is not older. -/
def Forward (w : World) : Label → Prop
  | .receive device reading =>
    match (w.devices device).queue with
    | .channelRead id :: _ => (w.devices device).marker ≤ id
    | .messageCreated id mine :: _ => (mine || reading) = true → (w.devices device).marker ≤ id
    | [] => True
  | _ => True

/-- Where a message that comes is not older than the newest there. -/
def Newest (w : World) : Label → Prop
  | .receive device _ =>
    match (w.devices device).queue with
    | .messageCreated id _ :: _ => (w.devices device).channel.lastMessageId ≤ id
    | _ => True
  | _ => True

def InOrder (w : World) (label : Label) : Prop := Forward w label ∧ Newest w label

/-! ## One device -/

/-- The marker an event has the server store: none for another's message. -/
def Event.read : Event → Id
  | .channelRead id => id
  | .messageCreated id mine => if mine then id else 0

/-- An event of a message, or of a marker, the server has. -/
structure Event.Told (stored : Id) (event : Event) : Prop where
  read : event.read ≤ stored
  message : ∀ id mine, event = .messageCreated id mine → id ≠ 0

namespace Device

/-- What is true of a device at every step: its marker was stored, or is still to be told of; its newest
message is the newest it was shown. -/
structure Sound (stored : Id) (d : Device) : Prop where
  marker : d.marker ≤ stored ∨ d.readOnArrivalTarget ≠ 0
  queue : ∀ event ∈ d.queue, event.Told stored
  shown : ∀ id ∈ d.shown, id ≤ d.channel.lastMessageId
  newest : d.channel.lastMessageId = 0 ∨ d.channel.lastMessageId ∈ d.shown

variable {stored stored' messageId : Id} {d : Device} {event : Event} {reading : Bool}

@[simp] theorem clearReadOnArrival_channel : (d.clearReadOnArrival messageId).channel = d.channel := by
  unfold clearReadOnArrival
  split <;> rfl

@[simp] theorem clearReadOnArrival_queue : (d.clearReadOnArrival messageId).queue = d.queue := by
  unfold clearReadOnArrival
  split <;> rfl

@[simp] theorem clearReadOnArrival_shown : (d.clearReadOnArrival messageId).shown = d.shown := by
  unfold clearReadOnArrival
  split <;> rfl

/-- An answer moves the marker to the later of the two. -/
theorem answered_marker : (d.answered messageId).marker = max d.marker messageId := by
  unfold answered marker
  simp only [clearReadOnArrival_channel]
  split
  next h => rw [clearReadOnArrival_channel, max_eq_left h]
  next h => exact (max_eq_right (le_of_not_ge h)).symm

theorem answered_queue : (d.answered messageId).queue = d.queue := by
  unfold answered
  simp only [clearReadOnArrival_channel]
  split <;> exact clearReadOnArrival_queue

theorem answered_shown : (d.answered messageId).shown = d.shown := by
  unfold answered
  simp only [clearReadOnArrival_channel]
  split <;> exact clearReadOnArrival_shown

theorem answered_lastMessageId : (d.answered messageId).channel.lastMessageId = d.channel.lastMessageId := by
  unfold answered
  simp only [clearReadOnArrival_channel]
  split
  · rw [clearReadOnArrival_channel]
  · rfl

/-- What an answer does not clear is a message later than the one answered for. -/
theorem answered_readOnArrivalTarget (h : messageId ≤ d.marker) (ht : d.readOnArrivalTarget ≠ 0) :
    d.marker ≤ messageId ∨ (d.answered messageId).readOnArrivalTarget ≠ 0 := by
  have same : d.answered messageId = d.clearReadOnArrival messageId := by
    unfold answered
    simp only [clearReadOnArrival_channel]
    exact if_pos h
  have pending : d.readOnArrival = d.marker := by
    by_contra hne
    exact ht (if_neg hne)
  by_cases hle : d.readOnArrival ≤ messageId
  · exact .inl (pending ▸ hle)
  · right
    rw [same, clearReadOnArrival, if_neg hle]
    exact ht

theorem received_queue : (d.received reading event).queue = d.queue := by
  cases event <;> rfl

/-- More stored is still stored. -/
theorem Sound.mono (inv : d.Sound stored) (h : stored ≤ stored') : d.Sound stored' where
  marker := inv.marker.imp_left fun hs => hs.trans h
  queue := fun event he => ⟨(inv.queue event he).read.trans h, (inv.queue event he).message⟩
  shown := inv.shown
  newest := inv.newest

theorem Sound.queued (inv : d.Sound stored) (h : event.Told stored) :
    ({ d with queue := d.queue ++ [event] } : Device).Sound stored where
  marker := inv.marker
  queue := by
    intro event' he
    rcases List.mem_append.mp he with he | he
    · exact inv.queue event' he
    · exact List.mem_singleton.mp he ▸ h
  shown := inv.shown
  newest := inv.newest

theorem Sound.answered (inv : d.Sound stored) (h : messageId ≤ stored) :
    (d.answered messageId).Sound stored where
  marker := by
    rw [answered_marker]
    rcases inv.marker with hs | ht
    · exact .inl (max_le hs h)
    · rcases le_total d.marker messageId with hle | hle
      · exact .inl (max_le (hle.trans h) h)
      · rw [max_eq_left hle]
        exact (answered_readOnArrivalTarget hle ht).imp_left fun hm => hm.trans h
  queue := answered_queue (d := d) ▸ inv.queue
  shown := by
    rw [answered_shown, answered_lastMessageId]
    exact inv.shown
  newest := by
    rw [answered_shown, answered_lastMessageId]
    exact inv.newest

/-- An event comes that was published: the newest message stays the newest where the event's is not older. -/
theorem Sound.received (inv : d.Sound stored) (h : event.Told stored)
    (newest : ∀ id mine, event = .messageCreated id mine → d.channel.lastMessageId ≤ id) :
    (d.received reading event).Sound stored := by
  cases event with
  | channelRead id => exact ⟨.inl h.read, inv.queue, inv.shown, inv.newest⟩
  | messageCreated id mine =>
    have later : ∀ m ∈ d.shown, m ≤ id := fun m hm => (inv.shown m hm).trans (newest id mine rfl)
    have last : (d.received reading (.messageCreated id mine)).channel.lastMessageId = id := by
      simp only [received]
      split <;> rfl
    refine ⟨?_, inv.queue, ?_, .inr (by rw [last]; exact List.mem_cons_self)⟩
    · cases mine with
      | true => exact .inl h.read
      | false =>
        cases reading with
        | true =>
          right
          simpa [received, readOnArrivalTarget] using h.message id false rfl
        | false => exact inv.marker
    · intro m hm
      rw [last]
      rcases List.mem_cons.mp hm with rfl | hm
      · exact le_rfl
      · exact later m hm

/-- **The channel is shown read** exactly when no message shown is newer than the marker. -/
theorem Sound.isUnread_iff (inv : d.Sound stored) :
    isUnread d.channel = false ↔ ∀ id ∈ d.shown, id ≤ d.marker := by
  have unread : isUnread d.channel = false ↔
      d.channel.lastMessageId = 0 ∨ d.channel.lastMessageId ≤ d.marker := by
    simp [isUnread, Device.marker, Decidable.or_iff_not_imp_left]
  rw [unread]
  constructor
  · rintro (hz | hle) id hid
    · exact (inv.shown id hid).trans (hz ▸ Nat.zero_le _)
    · exact (inv.shown id hid).trans hle
  · intro h
    exact inv.newest.imp_right fun hmem => h _ hmem

end Device

/-! ## Every run -/

/-- **What holds of every run whose events come in order.** What is published and what is answered was
stored; and a device whose marker is behind the server's has an event of it to come. -/
structure World.Sound (w : World) : Prop where
  devices : ∀ n, (w.devices n).Sound w.stored
  calls : ∀ call ∈ w.calls, call.messageId ≤ call.target
  outbox : ∀ publication ∈ w.outbox,
    publication.event.Told w.stored ∧ ∀ a ∈ publication.answer, a.2 ≤ w.stored
  answers : ∀ a ∈ w.answers, a.2 ≤ w.stored
  covered : ∀ n, w.stored ≤ (w.devices n).marker ∨
    (∃ publication ∈ w.outbox, publication.event.read = w.stored) ∨
    ∃ event ∈ (w.devices n).queue, event.read = w.stored

namespace World

variable {w w' : World} {label : Label} {messages : List Id} {read : Id}

theorem foldr_max_mem : messages.foldr max 0 = 0 ∨ messages.foldr max 0 ∈ messages := by
  rcases eq_or_ne messages [] with rfl | hne
  · exact .inl rfl
  · exact .inr (List.maximum_mem (List.foldr_max_of_ne_nil hne).symm)

theorem le_target {messageId : Id} : messageId ≤ w.target messageId := by
  unfold target
  split
  next hz => exact hz ▸ Nat.zero_le _
  next => exact le_rfl

theorem Sound.start : (World.start messages read).Sound where
  devices := fun _ => ⟨.inl le_rfl, nofun, fun _ hid => List.le_max_of_le hid le_rfl, foldr_max_mem⟩
  calls := nofun
  outbox := nofun
  answers := nofun
  covered := fun _ => .inl le_rfl

/-- A commit and a message sent do one thing here: store the marker, and leave its event to publish. -/
theorem Sound.announced (inv : w.Sound) (publication : Publication)
    (message : ∀ id mine, publication.event = .messageCreated id mine → id ≠ 0)
    (answer : ∀ a ∈ publication.answer, a.2 ≤ publication.event.read) :
    ({ w with
      stored := max w.stored publication.event.read
      outbox := w.outbox ++ [publication] } : World).Sound := by
  have grown : w.stored ≤ max w.stored publication.event.read := le_max_left _ _
  have announced : publication.event.read ≤ max w.stored publication.event.read := le_max_right _ _
  refine ⟨fun n => (inv.devices n).mono grown, inv.calls, ?_, fun a ha => (inv.answers a ha).trans grown, ?_⟩
  · intro other hother
    rcases List.mem_append.mp hother with hother | hother
    · obtain ⟨told, answered⟩ := inv.outbox other hother
      exact ⟨⟨told.read.trans grown, told.message⟩, fun a ha => (answered a ha).trans grown⟩
    · obtain rfl := List.mem_singleton.mp hother
      exact ⟨⟨announced, message⟩, fun a ha => (answer a ha).trans announced⟩
  · intro n
    rcases le_total w.stored publication.event.read with hle | hle
    · exact .inr (.inl ⟨publication, List.mem_append_right _ List.mem_cons_self, (max_eq_right hle).symm⟩)
    · rw [max_eq_left hle]
      refine (inv.covered n).imp_right (.imp_left ?_)
      rintro ⟨other, hother, hread⟩
      exact ⟨other, List.mem_append_left _ hother, hread⟩

theorem mem_eraseIdx_or_eq {α : Type} {l : List α} {i : Nat} {a b : α} (hi : l[i]? = some a) (hb : b ∈ l) :
    b ∈ l.eraseIdx i ∨ b = a := by
  obtain ⟨j, hj⟩ := List.mem_iff_getElem?.mp hb
  by_cases hji : j = i
  · subst hji
    exact .inr (Option.some.inj (hj.symm.trans hi))
  · exact .inl (List.mem_eraseIdx_iff_getElem?.mpr ⟨j, hji, hj⟩)

theorem Sound.published (inv : w.Sound) {i : Nat} {publication : Publication}
    (hi : w.outbox[i]? = some publication) :
    ({ w with
      outbox := w.outbox.eraseIdx i
      answers := w.answers ++ publication.answer.toList
      devices := fun n =>
        { w.devices n with queue := (w.devices n).queue ++ [publication.event] } } : World).Sound := by
  obtain ⟨told, answered⟩ := inv.outbox publication (List.mem_of_getElem? hi)
  refine ⟨fun n => (inv.devices n).queued told, inv.calls,
    fun other hother => inv.outbox other (List.mem_of_mem_eraseIdx hother), ?_, ?_⟩
  · intro a ha
    rcases List.mem_append.mp ha with ha | ha
    · exact inv.answers a ha
    · exact answered a (Option.mem_toList.mp ha)
  · intro n
    rcases inv.covered n with hle | ⟨other, hother, hread⟩ | ⟨event, he, hread⟩
    · exact .inl hle
    · rcases mem_eraseIdx_or_eq hi hother with hother | rfl
      · exact .inr (.inl ⟨other, hother, hread⟩)
      · exact .inr (.inr ⟨other.event, List.mem_append_right _ List.mem_cons_self, hread⟩)
    · exact .inr (.inr ⟨event, List.mem_append_left _ he, hread⟩)

/-- One device moves: the rest is as it was, and so it is left to say that its marker is covered. -/
theorem Sound.moved (inv : w.Sound) {n : Nat} {d : Device} {answers : List (Nat × Id)}
    (hanswers : ∀ a ∈ answers, a ∈ w.answers) (hd : d.Sound w.stored)
    (covered : w.stored ≤ d.marker ∨ (∃ publication ∈ w.outbox, publication.event.read = w.stored) ∨
      ∃ event ∈ d.queue, event.read = w.stored) :
    ({ w with answers := answers, devices := Function.update w.devices n d } : World).Sound := by
  refine ⟨?_, inv.calls, inv.outbox, fun a ha => inv.answers a (hanswers a ha), ?_⟩
  · intro m
    rcases eq_or_ne m n with rfl | hne
    · simpa only [Function.update_self] using hd
    · simpa only [Function.update_of_ne hne] using inv.devices m
  · intro m
    rcases eq_or_ne m n with rfl | hne
    · simpa only [Function.update_self] using covered
    · simpa only [Function.update_of_ne hne] using inv.covered m

/-- The event that comes is the one that was to bring the marker to the server's, or that is still to come. -/
theorem Sound.covered_received (inv : w.Sound) {n : Nat} {event : Event} {rest : List Event} {reading : Bool}
    (hqueue : (w.devices n).queue = event :: rest)
    (onward : (w.devices n).marker ≤
      (({ w.devices n with queue := rest } : Device).received reading event).marker) :
    w.stored ≤ (({ w.devices n with queue := rest } : Device).received reading event).marker ∨
      (∃ publication ∈ w.outbox, publication.event.read = w.stored) ∨
      ∃ event' ∈ (({ w.devices n with queue := rest } : Device).received reading event).queue,
        event'.read = w.stored := by
  rw [Device.received_queue]
  rcases inv.covered n with hle | hout | ⟨event', he, hread⟩
  · exact .inl (hle.trans onward)
  · exact .inr (.inl hout)
  · rw [hqueue] at he
    rcases List.mem_cons.mp he with rfl | he
    · left
      rw [← hread]
      cases event' with
      | channelRead id => exact le_rfl
      | messageCreated id mine =>
        cases mine with
        | true => exact le_rfl
        | false => exact Nat.zero_le _
    · exact .inr (.inr ⟨event', he, hread⟩)

/-- What a step that comes to one device does to its marker is what the step does to the markers. -/
theorem onward_iff_moved {n : Nat} {d : Device} (h : w'.devices = Function.update w.devices n d) :
    w.Onward w' ↔ (w.devices n).marker ≤ d.marker := by
  constructor
  · intro onward
    simpa only [h, Function.update_self] using onward n
  · intro hle m
    rw [h]
    rcases eq_or_ne m n with rfl | hne
    · simpa only [Function.update_self] using hle
    · rw [Function.update_of_ne hne]

/-- **A step takes no marker back** exactly where the event that comes, if one does, names no message older
than the marker it moves: an answer never does. -/
theorem onward_iff (h : w.step label = some w') : w.Onward w' ↔ Forward w label := by
  cases label with
  | markChannelRead n messageId =>
    refine iff_of_true (fun m => ?_) trivial
    simp only [step] at h
    split at h
    all_goals
      obtain rfl := Option.some.inj h
      exact le_rfl
  | commit i =>
    obtain ⟨call, -, rfl⟩ := Option.map_eq_some_iff.mp h
    exact iff_of_true (fun m => le_rfl) trivial
  | sendMessage id mine =>
    simp only [step] at h
    split at h
    next => cases h
    next =>
      obtain rfl := Option.some.inj h
      exact iff_of_true (fun m => le_rfl) trivial
  | publish i =>
    obtain ⟨publication, -, rfl⟩ := Option.map_eq_some_iff.mp h
    exact iff_of_true (fun m => le_rfl) trivial
  | answer i =>
    obtain ⟨⟨n, messageId⟩, -, rfl⟩ := Option.map_eq_some_iff.mp h
    refine iff_of_true ((onward_iff_moved rfl).mpr ?_) trivial
    rw [Device.answered_marker]
    exact le_max_left _ _
  | receive n reading =>
    simp only [step] at h
    split at h
    next => cases h
    next event rest hqueue =>
      obtain rfl := Option.some.inj h
      rw [onward_iff_moved rfl]
      cases event with
      | channelRead id => simp only [Forward, hqueue]; exact Iff.rfl
      | messageCreated id mine =>
        simp only [Forward, hqueue]
        simp only [Device.marker, Device.received]
        split
        next hm => exact ⟨fun hle _ => hle, fun hle => hle hm⟩
        next hm => exact iff_of_true le_rfl fun hm' => absurd hm' hm

theorem Sound.step (inv : w.Sound) (ok : InOrder w label) (h : w.step label = some w') : w'.Sound := by
  have onward := (onward_iff h).mpr ok.1
  cases label with
  | markChannelRead n messageId =>
    simp only [World.step] at h
    split at h
    all_goals obtain rfl := Option.some.inj h
    next => exact inv
    next =>
      refine { inv with calls := ?_ }
      intro call hcall
      rcases List.mem_append.mp hcall with hcall | hcall
      · exact inv.calls call hcall
      · obtain rfl := List.mem_singleton.mp hcall
        exact le_target
  | commit i =>
    obtain ⟨call, hcall, rfl⟩ := Option.map_eq_some_iff.mp h
    have named := inv.calls call (List.mem_of_getElem? hcall)
    have announced := inv.announced ⟨.channelRead call.target, some (call.device, call.messageId)⟩ nofun
      (fun a ha => Option.some.inj ha ▸ named)
    exact { announced with calls := fun other hother => inv.calls other (List.mem_of_mem_eraseIdx hother) }
  | sendMessage id mine =>
    simp only [World.step] at h
    split at h
    next => cases h
    next hid =>
      obtain rfl := Option.some.inj h
      have announced := inv.announced ⟨.messageCreated id mine, none⟩
        (fun id' mine' he => (Event.messageCreated.inj he).1 ▸ hid) nofun
      have hstored : (if mine then max w.stored id else w.stored) =
          max w.stored (Event.messageCreated id mine).read := by
        cases mine
        · exact (Nat.max_zero _).symm
        · rfl
      rw [hstored]
      exact { announced with }
  | publish i =>
    obtain ⟨publication, hi, rfl⟩ := Option.map_eq_some_iff.mp h
    exact inv.published hi
  | answer i =>
    obtain ⟨⟨n, messageId⟩, hi, rfl⟩ := Option.map_eq_some_iff.mp h
    refine inv.moved (fun a ha => List.mem_of_mem_eraseIdx ha)
      ((inv.devices n).answered (inv.answers _ (List.mem_of_getElem? hi))) ?_
    rw [Device.answered_marker, Device.answered_queue]
    exact (inv.covered n).imp_left fun hle => hle.trans (le_max_left _ _)
  | receive n reading =>
    simp only [World.step] at h
    split at h
    next => cases h
    next event rest hqueue =>
      obtain rfl := Option.some.inj h
      have told := (inv.devices n).queue event (hqueue ▸ List.mem_cons_self)
      have dequeued : ({ w.devices n with queue := rest } : Device).Sound w.stored :=
        { inv.devices n with
          queue := fun e he => (inv.devices n).queue e (hqueue ▸ List.mem_cons_of_mem _ he) }
      refine inv.moved (fun a ha => ha) (dequeued.received told ?_)
        (inv.covered_received hqueue ((onward_iff_moved rfl).mp onward))
      rintro id mine rfl
      have newest := ok.2
      simp only [Newest, hqueue] at newest
      exact newest

theorem Sound.settled (inv : w.Sound) : w.Settled where
  stored := by
    rintro n ⟨hout, hqueue, htold⟩
    refine le_antisymm ((inv.devices n).marker.resolve_right (not_not_intro htold)) ?_
    rcases inv.covered n with hle | ⟨publication, hp, -⟩ | ⟨event, he, -⟩
    · exact hle
    · rw [hout] at hp
      cases hp
    · rw [hqueue] at he
      cases he
  read := fun n => (inv.devices n).isUnread_iff

end World

/-- **Read markers, where no event is older than what it meets**: a further step takes no device's marker
back exactly when it is such a step too, once every event has arrived the marker is the server's stored one,
and the channel is shown read exactly when no message shown is newer. -/
theorem markers_forward {messages : List Id} {read : Id} {w : World}
    (h : Runs World.step InOrder (World.start messages read) w) :
    (∀ label w', w.step label = some w' → (w.Onward w' ↔ Forward w label)) ∧ w.Settled := by
  have sound : w.Sound := h.keeps .start fun _ _ _ inv ok hstep => inv.step ok hstep
  exact ⟨fun _ _ => World.onward_iff, sound.settled⟩

/-- Two devices mark an earlier and a later message, and hear of them in that order. -/
theorem marked_forward : ∃ w, Runs World.step InOrder (World.start [3, 5] 0) w ∧ w.Arrived 0 ∧
    (w.devices 0).marker = 5 ∧ w.Settled := by
  have run : Runs World.step InOrder (World.start [3, 5] 0) _ := Runs.ofList
    [.markChannelRead 0 3, .markChannelRead 1 0, .commit 0, .commit 0, .publish 0, .publish 0,
      .receive 0 false, .receive 0 false]
    (by simp [EachStep, World.step, World.start, World.target, InOrder, Forward, Newest,
      Device.received, Device.marker]) rfl
  exact ⟨_, run, ⟨rfl, rfl, rfl⟩, rfl, (markers_forward run).2⟩

/-- **A marker that goes back**: one device marks the later of two messages and another the earlier, and the
event of the earlier, which moved nothing at the server, comes second: the first device's marker goes back
to it, and stays there. -/
theorem announced_back : ∃ w w', Runs World.step Always (World.start [3, 5] 0) w ∧
    w.step (.receive 0 false) = some w' ∧ ¬ w.Onward w' ∧
    w'.Arrived 0 ∧ (w'.devices 0).marker = 3 ∧ w'.stored = 5 ∧ isUnread (w'.devices 0).channel = true := by
  have run : Runs World.step Always (World.start [3, 5] 0) _ := Runs.ofList
    [.markChannelRead 0 5, .markChannelRead 1 3, .commit 0, .commit 0, .publish 0, .publish 0,
      .receive 0 false]
    (.always _ _) rfl
  exact ⟨_, _, run, rfl, fun onward => absurd (onward 0) (by decide), ⟨rfl, rfl, rfl⟩, rfl, rfl, rfl⟩

end Stoop.Channel.Markers
