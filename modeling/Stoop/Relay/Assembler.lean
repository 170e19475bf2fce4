import Mathlib.Data.List.Induction
import Stoop.Relay.Payloads

/-!
# The event relay's assembler

`internal/eventrelay/relay.go` and `listener.go`: the pieces of an event arrive one after another, and
the assembler holds at most one batch open; any other payload drops it.

`relay_round_trip` says what the relay is for. The payloads of an event, read in order after any
stream, give that event once, on the last of them. And whatever the stream, an event given is a whole
payload's own, or was put together from pieces of one batch.
-/

set_option autoImplicit false

namespace Stoop.Relay

open Stoop.Lib

variable {Event : Type}

/-- `assembly`: the pieces of one event as they arrive. -/
structure Assembly where
  batch : Text
  pieces : List Text
  received : Nat
  deriving DecidableEq, Repr

/-- `assembler`: the batch that is open, if one is. -/
structure Assembler where
  opened : Option Assembly
  deriving DecidableEq, Repr

def newAssembler : Assembler := ⟨none⟩

/-- What `add` returns: the event completed, if one is, and the batch dropped unfinished. -/
structure Added (Event : Type) where
  event : Except EventError (Option Event)
  abandoned : Text

/-- A batch that is open when a part of another arrives will never finish. -/
def Assembler.abandon (a : Assembler) (batch : Text) : Option Assembly × Text :=
  match a.opened with
  | some current => if current.batch ≠ batch then (none, current.batch) else (some current, [])
  | none => (none, [])

/-- A piece put in its place. -/
def Assembly.put (current : Assembly) (p : Part) : Assembly :=
  { current with
    pieces := current.pieces.set p.index p.encoded
    received :=
      if current.pieces[p.index]? = some [] then current.received + 1 else current.received }

/-- `add`. -/
def Assembler.add (proto : Proto Event) (a : Assembler) (p : Part) : Assembler × Added Event :=
  let (opened, abandoned) := a.abandon p.batch
  if p.batch = [] then (⟨opened⟩, ⟨(decodeEvent proto p.encoded).map some, abandoned⟩)
  else
    let current := opened.getD ⟨p.batch, List.replicate p.count [], 0⟩
    if current.pieces.length ≠ p.count then
      (⟨none⟩, ⟨.error (.wrongCount p.index p.count current.pieces.length), abandoned⟩)
    else
      let current := current.put p
      if current.received < p.count then (⟨some current⟩, ⟨.ok none, abandoned⟩)
      else (⟨none⟩, ⟨(decodeEvent proto current.pieces.flatten).map some, abandoned⟩)

/-- What the listener publishes. -/
abbrev Published (Event : Type) := Text × Event

/-- The body of `runOnce`'s loop: one notification read, and what is published on it. -/
def receive (proto : Proto Event) (a : Assembler) (payload : Text) :
    Assembler × Option (Published Event) :=
  match decodePayload payload with
  | .error _ => (a, none)
  | .ok p =>
    let (a, added) := a.add proto p
    match added.event with
    | .ok (some ev) => (a, some (p.topic, ev))
    | _ => (a, none)

/-- `receive` for one payload after another. -/
def relay (proto : Proto Event) : Assembler → List Text → Assembler × List (Option (Published Event))
  | a, [] => (a, [])
  | a, payload :: payloads =>
    let (a, published) := receive proto a payload
    let (a, rest) := relay proto a payloads
    (a, published :: rest)

/-- What reaches the listener: a notification, or a new connection, with a new assembler. -/
inductive Input
  | notification (payload : Text)
  | reconnected
  deriving DecidableEq, Repr

def Input.take (proto : Proto Event) (a : Assembler) : Input → Assembler
  | .notification payload => (receive proto a payload).1
  | .reconnected => newAssembler

/-- The assembler after a stream. -/
def after (proto : Proto Event) (stream : List Input) : Assembler :=
  stream.foldl (Input.take proto) newAssembler

/-! ## What is open was collected -/

/-- A part that arrived in a stream. -/
def Arrived (stream : List Input) (p : Part) : Prop :=
  ∃ payload, .notification payload ∈ stream ∧ decodePayload payload = .ok p

/-- The pieces of a batch, each empty or from a part of the batch with that place. -/
def Collected (stream : List Input) (batch : Text) (pieces : List Text) : Prop :=
  ∀ index text, pieces[index]? = some text → text = [] ∨ ∃ p, Arrived stream p ∧
    p.batch = batch ∧ p.index = index ∧ p.count = pieces.length ∧ p.encoded = text

/-- The batch open is named, was begun by a part of it, and its pieces were collected. -/
structure Assembly.Sound (stream : List Input) (current : Assembly) : Prop where
  named : current.batch ≠ []
  begun : ∃ p, Arrived stream p ∧ p.batch = current.batch
  collected : Collected stream current.batch current.pieces

def Assembler.Sound (stream : List Input) (a : Assembler) : Prop :=
  ∀ current, a.opened = some current → current.Sound stream

section
variable {stream more : List Input} {p : Part} {current : Assembly}

theorem Arrived.mono (hsub : ∀ i ∈ stream, i ∈ more) (h : Arrived stream p) : Arrived more p := by
  obtain ⟨payload, hmem, hdecode⟩ := h
  exact ⟨payload, hsub _ hmem, hdecode⟩

theorem Collected.mono {batch : Text} {pieces : List Text} (hsub : ∀ i ∈ stream, i ∈ more)
    (h : Collected stream batch pieces) : Collected more batch pieces := by
  intro index text htext
  refine (h index text htext).imp_right ?_
  rintro ⟨p, harrived, hp⟩
  exact ⟨p, harrived.mono hsub, hp⟩

theorem Assembly.Sound.mono (hsub : ∀ i ∈ stream, i ∈ more) (h : current.Sound stream) :
    current.Sound more := by
  obtain ⟨p, harrived, hp⟩ := h.begun
  exact ⟨h.named, ⟨p, harrived.mono hsub, hp⟩, h.collected.mono hsub⟩

/-- A new assembly has collected nothing. -/
theorem collected_replicate (batch : Text) (count : Nat) :
    Collected stream batch (List.replicate count []) := by
  intro index text htext
  rw [List.getElem?_replicate] at htext
  split at htext
  · exact .inl (Option.some.inj htext).symm
  · exact absurd htext nofun

/-- A part of the batch, put in its place, is collected. -/
theorem Collected.put (harrived : Arrived stream p) (hcount : current.pieces.length = p.count)
    (h : Collected stream p.batch current.pieces) :
    Collected stream p.batch (current.put p).pieces := by
  intro index text htext
  have hlength : (current.put p).pieces.length = current.pieces.length := List.length_set
  rw [hlength]
  rw [Assembly.put, List.getElem?_set] at htext
  split at htext
  next heq =>
    split at htext
    · exact .inr ⟨p, harrived, rfl, heq, hcount.symm, Option.some.inj htext⟩
    · exact absurd htext nofun
  next => exact h index text htext

/-- What stays open when a part arrives: the batch that was, if the part is of it. -/
theorem abandon_eq_some {a : Assembler} {batch : Text} (h : (a.abandon batch).1 = some current) :
    a.opened = some current ∧ current.batch = batch := by
  unfold Assembler.abandon at h
  split at h
  next current' hopened =>
    split at h
    · exact absurd h nofun
    next hbatch =>
      obtain rfl : current' = current := Option.some.inj h
      exact ⟨hopened, not_not.mp hbatch⟩
  next => exact absurd h nofun

variable {proto : Proto Event} {a a' : Assembler} {added : Added Event}

/-- **What `add` leaves open and what it gives.** The batch left open is sound, and an event given is
the part's own, or is read from pieces of the part's batch. -/
theorem add_sound (harrived : Arrived stream p) (hsound : a.Sound stream)
    (h : a.add proto p = (a', added)) :
    a'.Sound stream ∧ ∀ ev, added.event = .ok (some ev) →
      (p.batch = [] ∧ decodeEvent proto p.encoded = .ok ev) ∨
        (p.batch ≠ [] ∧ ∃ pieces, Collected stream p.batch pieces ∧ pieces.length = p.count ∧
          decodeEvent proto pieces.flatten = .ok ev) := by
  have hstays : ∀ current, (a.abandon p.batch).1 = some current →
      current.Sound stream ∧ current.batch = p.batch := fun current hc =>
    ⟨hsound current (abandon_eq_some hc).1, (abandon_eq_some hc).2⟩
  have hgiven : ∀ {encoded : Text} {ev : Event},
      (decodeEvent proto encoded).map some = .ok (some ev) → decodeEvent proto encoded = .ok ev := by
    intro encoded ev hev
    cases hdecode : decodeEvent proto encoded with
    | error err => simp [hdecode, Except.map] at hev
    | ok ev' => simpa [hdecode, Except.map] using hev
  simp only [Assembler.add] at h
  split at h
  next hwhole =>
    obtain ⟨rfl, rfl⟩ := Prod.mk.inj h
    exact ⟨fun current hc => (hstays current hc).1, fun ev hev => .inl ⟨hwhole, hgiven hev⟩⟩
  next hpiece =>
    -- the assembly the piece goes to: the one open, or a new one
    generalize hcurrent : (a.abandon p.batch).1.getD ⟨p.batch, List.replicate p.count [], 0⟩ = current
      at h
    have hcollected : Collected stream p.batch current.pieces ∧ current.batch = p.batch := by
      cases hopen : (a.abandon p.batch).1 with
      | none =>
        rw [hopen, Option.getD_none] at hcurrent
        subst hcurrent
        exact ⟨collected_replicate p.batch p.count, rfl⟩
      | some opened =>
        rw [hopen, Option.getD_some] at hcurrent
        subst hcurrent
        obtain ⟨hs, hbatch⟩ := hstays _ hopen
        exact ⟨hbatch ▸ hs.collected, hbatch⟩
    split at h
    · obtain ⟨rfl, rfl⟩ := Prod.mk.inj h
      exact ⟨nofun, nofun⟩
    next hcount =>
      have hput : Collected stream p.batch (current.put p).pieces :=
        hcollected.1.put harrived (not_not.mp hcount)
      split at h
      · obtain ⟨rfl, rfl⟩ := Prod.mk.inj h
        refine ⟨fun opened hopened => ?_, nofun⟩
        obtain rfl : current.put p = opened := Option.some.inj hopened
        have hbatch : (current.put p).batch = p.batch := hcollected.2
        exact ⟨hbatch ▸ hpiece, ⟨p, harrived, hbatch.symm⟩, hbatch ▸ hput⟩
      · obtain ⟨rfl, rfl⟩ := Prod.mk.inj h
        have hlength : (current.put p).pieces.length = p.count :=
          List.length_set.trans (not_not.mp hcount)
        exact ⟨nofun, fun ev hev => .inr ⟨hpiece, _, hput, hlength, hgiven hev⟩⟩

/-- **An event the listener publishes** on a payload is that payload's own, or was put together from
pieces of one batch, the payload one of them. -/
theorem receive_sound {payload : Text} {published : Option (Published Event)}
    (hsound : a.Sound stream) (h : receive proto a payload = (a', published)) :
    a'.Sound (stream ++ [.notification payload]) ∧ ∀ topic ev, published = some (topic, ev) →
      ∃ p, decodePayload payload = .ok p ∧ topic = p.topic ∧
        ((p.batch = [] ∧ decodeEvent proto p.encoded = .ok ev) ∨
          (p.batch ≠ [] ∧ ∃ pieces, Collected (stream ++ [.notification payload]) p.batch pieces ∧
            pieces.length = p.count ∧ decodeEvent proto pieces.flatten = .ok ev)) := by
  have hlater : a.Sound (stream ++ [.notification payload]) := fun current hc =>
    (hsound current hc).mono fun i hi => List.mem_append_left _ hi
  unfold receive at h
  cases hdecode : decodePayload payload with
  | error err =>
    simp only [hdecode] at h
    obtain ⟨rfl, rfl⟩ := Prod.mk.inj h
    exact ⟨hlater, nofun⟩
  | ok p =>
    have harrived : Arrived (stream ++ [.notification payload]) p := ⟨payload, by simp, hdecode⟩
    obtain ⟨a'', added, hadd⟩ : ∃ a'' added, a.add proto p = (a'', added) := ⟨_, _, rfl⟩
    obtain ⟨hopen, hgiven⟩ := add_sound harrived hlater hadd
    simp only [hdecode, hadd] at h
    split at h
    next ev hev =>
      obtain ⟨rfl, rfl⟩ := Prod.mk.inj h
      refine ⟨hopen, fun topic ev' heq => ?_⟩
      obtain ⟨rfl, rfl⟩ := Prod.mk.inj (Option.some.inj heq)
      exact ⟨p, rfl, rfl, hgiven _ hev⟩
    · obtain ⟨rfl, rfl⟩ := Prod.mk.inj h
      exact ⟨hopen, nofun⟩

/-- **What is open after any stream was collected from it.** -/
theorem after_sound (proto : Proto Event) (stream : List Input) : (after proto stream).Sound stream := by
  induction stream using List.reverseRecOn with
  | nil => exact nofun
  | append_singleton stream input ih =>
    rw [after, List.foldl_append]
    cases input with
    | reconnected => exact nofun
    | notification payload => exact (receive_sound ih rfl).1

end

/-! ## An event's own payloads -/

section
variable {proto : Proto Event} {topic batch encoded : Text} {room count k : Nat}

/-- The assembly of an event's pieces, the first `k` of them in. -/
def begun (batch encoded : Text) (room count k : Nat) : Assembly :=
  ⟨batch, (List.range k).map (slice encoded room) ++ List.replicate (count - k) [], k⟩

/-- The slices up to a piece are the encoding up to it. -/
theorem flatten_slices (encoded : Text) (room k : Nat) :
    ((List.range k).map (slice encoded room)).flatten = encoded.take (k * room) := by
  induction k with
  | zero => simp
  | succ k ih =>
    rw [List.range_succ, List.map_append, List.flatten_append, ih, Nat.add_mul, Nat.one_mul,
      List.take_add]
    simp [slice]

theorem length_begun (h : k ≤ count) : (begun batch encoded room count k).pieces.length = count := by
  simp only [begun, List.length_append, List.length_map, List.length_range, List.length_replicate]
  omega

/-- The next piece put in its place. -/
theorem put_begun {p : Part} (hindex : p.index = k) (hencoded : p.encoded = slice encoded room k)
    (h : k < count) :
    (begun batch encoded room count k).put p = begun batch encoded room count (k + 1) := by
  obtain ⟨n, rfl⟩ : ∃ n, count = k + 1 + n := ⟨count - (k + 1), by omega⟩
  have hlength : ((List.range k).map (slice encoded room)).length = k := by simp
  have hrest : k + 1 + n - k = n + 1 := by omega
  have hslot : (begun batch encoded room (k + 1 + n) k).pieces[k]? = some [] := by
    rw [begun, List.getElem?_append_right (by rw [hlength]), hlength, hrest]
    simp
  have hset : (begun batch encoded room (k + 1 + n) k).pieces.set k (slice encoded room k) =
      (begun batch encoded room (k + 1 + n) (k + 1)).pieces := by
    rw [begun, begun, List.set_append_right _ _ (by rw [hlength]), hlength, hrest, Nat.sub_self,
      List.replicate_succ, List.set_cons_zero, List.range_succ, List.map_append,
      Nat.add_sub_cancel_left, List.append_assoc]
    rfl
  rw [Assembly.put, hindex, hencoded, if_pos hslot, hset]
  rfl

/-- Where an event's next piece finds the assembler. -/
def Awaits (a : Assembler) (batch encoded : Text) (room count k : Nat) : Prop :=
  (a.abandon batch).1.getD ⟨batch, List.replicate count [], 0⟩ = begun batch encoded room count k

/-- A piece that is not the last leaves the assembler awaiting the next. -/
theorem awaits_begun : Awaits ⟨some (begun batch encoded room count k)⟩ batch encoded room count k := by
  simp [Awaits, Assembler.abandon, begun]

/-- An assembler with another batch open awaits the first piece of this one. -/
theorem awaits_first {a : Assembler} (h : ∀ current, a.opened = some current → current.batch ≠ batch) :
    Awaits a batch encoded room count 0 := by
  have hnone : (a.abandon batch).1 = none := by
    unfold Assembler.abandon
    split
    next current hc => rw [if_pos (h current hc)]
    next => rfl
  simp [Awaits, hnone, begun]

/-- **One piece of an event, read.** -/
theorem receive_piece (htopic : IsTopic topic) (hbatch : IsId batch) (hcount : count ≤ 8)
    (hk : k < count) {a : Assembler} (ha : Awaits a batch encoded (Relay.room topic batch) count k) :
    receive proto a (piece topic batch encoded count k) =
      if k + 1 < count then (⟨some (begun batch encoded (Relay.room topic batch) count (k + 1))⟩, none)
      else match decodeEvent proto (encoded.take (count * Relay.room topic batch)) with
        | .ok ev => (newAssembler, some (topic, ev))
        | .error _ => (newAssembler, none) := by
  have hne : batch ≠ [] := by
    rintro rfl
    exact absurd hbatch.1 (by decide)
  simp only [receive, decodePayload_piece htopic hbatch hcount hk, Assembler.add, if_neg hne]
  have hput := @put_begun batch encoded (Relay.room topic batch) count k
    ⟨topic, batch, k, count, slice encoded (Relay.room topic batch) k⟩ rfl rfl hk
  rw [Awaits] at ha
  rw [ha, if_neg (not_not.mpr (length_begun hk.le)), hput]
  by_cases hlast : k + 1 < count
  · rw [if_pos hlast, if_pos (show (begun batch encoded _ count (k + 1)).received < count from hlast)]
  · obtain rfl : count = k + 1 := by omega
    have hpieces : (begun batch encoded (Relay.room topic batch) (k + 1) (k + 1)).pieces.flatten =
        encoded.take ((k + 1) * Relay.room topic batch) := by
      rw [← flatten_slices, begun, Nat.sub_self, List.replicate_zero, List.append_nil]
    rw [if_neg hlast, if_neg (show ¬(begun batch encoded _ (k + 1) (k + 1)).received < k + 1 from hlast),
      hpieces]
    cases decodeEvent proto (encoded.take ((k + 1) * Relay.room topic batch)) <;> rfl

/-- **An event's pieces, read in order**, from any of them on. -/
theorem relay_pieces (htopic : IsTopic topic) (hbatch : IsId batch) (hcount : count ≤ 8) {ev : Event}
    (hwhole : encoded.take (count * Relay.room topic batch) = encoded)
    (hdecode : decodeEvent proto encoded = .ok ev) :
    ∀ (rest k : Nat) (a : Assembler), k + rest + 1 = count →
      Awaits a batch encoded (Relay.room topic batch) count k →
      relay proto a ((List.range' k (rest + 1)).map (piece topic batch encoded count)) =
        (newAssembler, List.replicate rest none ++ [some (topic, ev)]) := by
  intro rest
  induction rest with
  | zero =>
    intro k a hk ha
    have hlast : receive proto a (piece topic batch encoded count k) =
        (newAssembler, some (topic, ev)) := by
      rw [receive_piece htopic hbatch hcount (by omega) ha, if_neg (by omega), hwhole, hdecode]
    simp [relay, List.range'_succ, hlast]
  | succ rest ih =>
    intro k a hk ha
    have hnext : receive proto a (piece topic batch encoded count k) =
        (⟨some (begun batch encoded (Relay.room topic batch) count (k + 1))⟩, none) := by
      rw [receive_piece htopic hbatch hcount (by omega) ha, if_pos (by omega)]
    rw [List.range'_succ, List.map_cons, relay, hnext]
    simp only
    rw [ih (k + 1) _ (by omega) awaits_begun]
    rfl

end

/-! ## The relay -/

section
variable {proto : Proto Event} {topic batch : Text} {ev : Event}

theorem len_encode (bytes : List UInt8) : len (Base64.encode bytes) = (Base64.encode bytes).length :=
  len_eq_length fun _ hc => (Base64.encodes_of_mem hc).spec.2.2.2

/-- The payloads of an event: itself whole, or its pieces, which between them hold all of it. -/
theorem encode_eq_ok {payloads : List Text} (htopic : IsTopic topic) (hbatch : IsId batch)
    (h : encode proto batch topic ev = .ok payloads) :
    ∃ bytes, proto.marshal ev = .ok bytes ∧
      ((payloads = [topic ++ ' ' :: Base64.encode bytes] ∧
          len (topic ++ ' ' :: Base64.encode bytes) ≤ maxPayload) ∨
        ∃ rest, rest + 1 ≤ 8 ∧ (Base64.encode bytes).length ≤ (rest + 1) * room topic batch ∧
          payloads = (List.range (rest + 1)).map
            (piece topic batch (Base64.encode bytes) (rest + 1))) := by
  unfold encode at h
  cases hmarshal : proto.marshal ev with
  | error err => simp [hmarshal] at h
  | ok bytes =>
    refine ⟨bytes, rfl, ?_⟩
    simp only [hmarshal] at h
    split at h
    next hfits => exact .inl ⟨(Except.ok.inj h).symm, hfits⟩
    next hlong =>
      split at h
      · exact absurd h nofun
      next hcount =>
        generalize hceil : (len (Base64.encode bytes) + room topic batch - 1) / room topic batch = count
          at h hcount
        rw [len_encode] at hceil
        have hroom := room_eq htopic hbatch
        have hsize : len (topic ++ ' ' :: Base64.encode bytes) =
            len topic + (1 + (Base64.encode bytes).length) := by
          rw [len_append, len_cons, len_encode]
          rfl
        have hmax : maxPayload = 8000 := rfl
        have hparts : maxParts = 8 := rfl
        have hpos : 0 < room topic batch := by rcases htopic.spec.1 with ht | ht <;> omega
        have hall : (Base64.encode bytes).length ≤ count * room topic batch := by
          have hlt := Nat.lt_div_mul_add hpos (a := (Base64.encode bytes).length + room topic batch - 1)
          rw [hceil] at hlt
          omega
        obtain ⟨rest, rfl⟩ : ∃ rest, count = rest + 1 := by
          refine ⟨count - 1, ?_⟩
          have hne : count ≠ 0 := by
            rintro rfl
            omega
          omega
        exact .inr ⟨rest, by omega, hall, (Except.ok.inj h).symm⟩

/-- **What `encode` does not send.** It refuses an event it cannot marshal, and one that is more than
eight pieces' room. -/
theorem encode_eq_error {err : EncodeError} (htopic : IsTopic topic) (hbatch : IsId batch)
    (h : encode proto batch topic ev = .error err) :
    (∃ text, proto.marshal ev = .error text) ∨
      ∃ bytes, proto.marshal ev = .ok bytes ∧ 8 * room topic batch < (Base64.encode bytes).length := by
  unfold encode at h
  cases hmarshal : proto.marshal ev with
  | error text => exact .inl ⟨text, rfl⟩
  | ok bytes =>
    refine .inr ⟨bytes, rfl, ?_⟩
    simp only [hmarshal] at h
    split at h
    · exact absurd h nofun
    · split at h
      next hmany =>
        rw [len_encode] at hmany
        have hroom := room_eq htopic hbatch
        have hpos : 0 < room topic batch := by rcases htopic.spec.1 with ht | ht <;> omega
        have hparts : maxParts = 8 := rfl
        have hnine : 9 ≤ ((Base64.encode bytes).length + room topic batch - 1) / room topic batch := by
          omega
        have hle := (Nat.le_div_iff_mul_le hpos).mp hnine
        omega
      · exact absurd h nofun

/-- The batch of an event to come: no part of it has arrived. -/
def Fresh (batch : Text) (stream : List Input) : Prop := ∀ p, Arrived stream p → p.batch ≠ batch

/-- **An event's payloads, read after any stream.** -/
theorem relay_encode {payloads : List Text} (htopic : IsTopic topic) (hbatch : IsId batch)
    (hstamped : proto.Stamped ev) (h : encode proto batch topic ev = .ok payloads)
    {stream : List Input} (hfresh : Fresh batch stream) :
    relay proto (after proto stream) payloads =
      (newAssembler, List.replicate (payloads.length - 1) none ++ [some (topic, ev)]) := by
  have hsound := after_sound proto stream
  obtain ⟨bytes, hmarshal, hpayloads⟩ := encode_eq_ok htopic hbatch h
  have hdecode : decodeEvent proto (Base64.encode bytes) = .ok ev := by
    simp only [decodeEvent, Base64.decode_encode, proto.unmarshal_marshal ev bytes hmarshal]
  rcases hpayloads with ⟨rfl, -⟩ | ⟨rest, hrest, hall, rfl⟩
  · have hdrop : ((after proto stream).abandon []).1 = none := by
      cases hopen : ((after proto stream).abandon []).1 with
      | none => rfl
      | some current =>
        obtain ⟨hopened, hnil⟩ := abandon_eq_some hopen
        exact absurd hnil (hsound current hopened).named
    have hread : receive proto (after proto stream) (topic ++ ' ' :: Base64.encode bytes) =
        (newAssembler, some (topic, ev)) := by
      simp only [receive, decodePayload_whole htopic (proto.marshal_stamped ev bytes hstamped hmarshal),
        Assembler.add, if_pos, hdecode, hdrop]
      rfl
    simp [relay, hread]
  · have hother : ∀ current, (after proto stream).opened = some current → current.batch ≠ batch := by
      intro current hopened
      obtain ⟨p, harrived, hp⟩ := (hsound current hopened).begun
      exact hp ▸ hfresh p harrived
    rw [List.range_eq_range', relay_pieces htopic hbatch hrest (List.take_of_length_le hall) hdecode rest 0
      _ (by omega) (awaits_first hother)]
    simp

/-- **Every payload is under the limit of a notification.** -/
theorem len_payload_lt {payloads : List Text} (htopic : IsTopic topic) (hbatch : IsId batch)
    (h : encode proto batch topic ev = .ok payloads) : ∀ payload ∈ payloads, len payload < 8000 := by
  intro payload hmem
  obtain ⟨bytes, -, ⟨rfl, hfits⟩ | ⟨rest, hrest, -, rfl⟩⟩ := encode_eq_ok htopic hbatch h
  · rw [List.mem_singleton.mp hmem]
    exact len_whole_lt htopic hfits
  · obtain ⟨index, hindex, rfl⟩ := List.mem_map.mp hmem
    exact len_piece_lt htopic hbatch (fun c hc => (Base64.encodes_of_mem hc).spec.2.2.2) hrest
      (List.mem_range.mp hindex)

end

/-- Events that are their own bytes. -/
def rawProto : Proto (List UInt8) where
  marshal := .ok
  unmarshal := .ok
  Stamped ev := ∃ rest, ev = 0x0A :: rest
  unmarshal_marshal ev bytes h := by rw [Except.ok.inj h]
  marshal_stamped ev bytes hstamped h := by rwa [← Except.ok.inj h]

end Stoop.Relay
