import Mathlib.Data.Nat.Digits.Defs
import Stoop.Lib.Base64

/-!
# The event relay's payloads

`internal/eventrelay/relay.go`: an event published in a `stoop jobs` process crosses to the server as
the payloads of Postgres notifications, one for an event that fits and several for one that does not.
`encode` writes them, `decodePayload` splits one into its fields, and an assembler rebuilds an event
from its pieces as they arrive.

Protobuf is a parameter (`Proto`). A topic, an id and a payload are texts, one character a byte where
`encode` measures them.
-/

set_option autoImplicit false

namespace Stoop.Relay

open Stoop.Lib

/-- A payload, a topic, an id. -/
abbrev Text := List Char

/-- `len`: a text's bytes. -/
def len (s : Text) : Nat := (s.map Char.utf8Size).sum

/-- What one NOTIFY is taken to accept, and how many pieces an event is sent in. -/
def maxPayload : Nat := 8000

def maxParts : Nat := 8

/-- What tells a piece from a whole event. -/
def partMarker : Char := '+'

/-- Protobuf, as the relay uses it: what was marshalled unmarshals, and an event that `Stamp` gave an
id begins with that id's tag (field 1, of wire type 2). -/
structure Proto (Event : Type) where
  marshal : Event → Except String (List UInt8)
  unmarshal : List UInt8 → Except String Event
  Stamped : Event → Prop
  unmarshal_marshal : ∀ ev bytes, marshal ev = .ok bytes → unmarshal bytes = .ok ev
  marshal_stamped : ∀ ev bytes, Stamped ev → marshal ev = .ok bytes → ∃ rest, bytes = 0x0A :: rest

/-! ## Encoding -/

/-- Why an event is not relayed. -/
inductive EncodeError
  | marshalEvent (err : String)
  | eventTooLarge (bytes : Nat)
  deriving DecidableEq, Repr

/-- `strconv.Itoa` of a count. -/
def itoa (n : Nat) : Text := Nat.toDigits 10 n

/-- What a piece begins with, up to its index. -/
def head (topic batch : Text) : Text := topic ++ ' ' :: partMarker :: (batch ++ [' '])

/-- The characters a piece has room for. -/
def room (topic batch : Text) : Nat :=
  maxPayload - len (head topic batch) - len [' ', '0', '0', ' ', '0', '0']

/-- `encoded[index*room : min((index+1)*room, len(encoded))]`. -/
def slice (encoded : Text) (room index : Nat) : Text := (encoded.drop (index * room)).take room

/-- One piece of an event sent in `count`. -/
def piece (topic batch encoded : Text) (count index : Nat) : Text :=
  head topic batch ++ itoa index ++ ' ' :: (itoa count ++ ' ' :: slice encoded (room topic batch) index)

variable {Event : Type}

/-- `encode`: the payloads to notify. The batch id is drawn fresh (`rowid.New`). -/
def encode (proto : Proto Event) (batch topic : Text) (ev : Event) : Except EncodeError (List Text) :=
  match proto.marshal ev with
  | .error err => .error (.marshalEvent err)
  | .ok marshalled =>
    let encoded := Base64.encode marshalled
    let whole := topic ++ ' ' :: encoded
    if len whole ≤ maxPayload then .ok [whole]
    else
      let room := room topic batch
      let count := (len encoded + room - 1) / room
      if count > maxParts then .error (.eventTooLarge (len encoded))
      else .ok ((List.range count).map (piece topic batch encoded count))

/-! ## Decoding -/

/-- `strings.Cut(s, " ")`. -/
def cut (s : Text) : Option (Text × Text) :=
  if ' ' ∈ s then some (s.takeWhile (· != ' '), (s.dropWhile (· != ' ')).tail) else none

/-- `strings.SplitN(s, " ", n)`. -/
def splitN : Nat → Text → List Text
  | 0, _ => []
  | 1, s => [s]
  | n + 1, s =>
    match cut s with
    | none => [s]
    | some (field, rest) => field :: splitN n rest

/-- What a run of decimal digits comes to. -/
def digitsValue (digits : Text) : Nat := digits.foldl (fun n c => n * 10 + (c.toNat - 48)) 0

/-- `strconv.Atoi`: a sign, digits, and the range of an `int`. -/
def atoi (s : Text) : Option Int :=
  let (negative, digits) :=
    match s with
    | '-' :: digits => (true, digits)
    | '+' :: digits => (false, digits)
    | digits => (false, digits)
  if digits.isEmpty || !digits.all Char.isDigit then none
  else
    let n := digitsValue digits
    if negative then if n ≤ 2 ^ 63 then some (-n) else none
    else if n < 2 ^ 63 then some n else none

/-- Why a payload is not a part. -/
inductive PayloadError
  | noTopic
  | tooFewFields
  | pieceIndex (text : Text)
  | pieceCount (text : Text)
  | outOfRange (index count : Int)
  deriving DecidableEq, Repr

/-- One decoded payload: a whole event, or a piece with its place in the batch. -/
structure Part where
  topic : Text
  batch : Text
  index : Nat
  count : Nat
  encoded : Text
  deriving DecidableEq, Repr

/-- The fields of a piece. -/
def decodePiece (topic rest : Text) : Except PayloadError Part :=
  match splitN 4 rest with
  | [batch, indexText, countText, encoded] =>
    match atoi indexText with
    | none => .error (.pieceIndex indexText)
    | some index =>
      match atoi countText with
      | none => .error (.pieceCount countText)
      | some count =>
        if count < 1 ∨ count > maxParts ∨ index < 0 ∨ index ≥ count then
          .error (.outOfRange index count)
        else .ok ⟨topic, batch, index.toNat, count.toNat, encoded⟩
  | _ => .error .tooFewFields

/-- `decodePayload`. -/
def decodePayload (payload : Text) : Except PayloadError Part :=
  match cut payload with
  | none => .error .noTopic
  | some (topic, rest) =>
    if topic.isEmpty then .error .noTopic
    else
      match rest with
      | '+' :: rest => decodePiece topic rest
      | _ => .ok ⟨topic, [], 0, 1, rest⟩

/-- Why a text is not an event. -/
inductive EventError
  | decodeEvent
  | unmarshalEvent (err : String)
  | wrongCount (index count pieces : Nat)
  deriving DecidableEq, Repr

/-- `decodeEvent`. -/
def decodeEvent (proto : Proto Event) (encoded : Text) : Except EventError Event :=
  match Base64.decode encoded with
  | none => .error .decodeEvent
  | some marshalled =>
    match proto.unmarshal marshalled with
    | .error err => .error (.unmarshalEvent err)
    | .ok ev => .ok ev

/-! ## The bytes of a payload -/

theorem len_append (s t : Text) : len (s ++ t) = len s + len t := by
  simp [len]

theorem len_cons (c : Char) (s : Text) : len (c :: s) = c.utf8Size + len s := by
  simp [len]

/-- A text of one-byte characters is as long as it has characters. -/
theorem len_eq_length {s : Text} (h : ∀ c ∈ s, c.utf8Size = 1) : len s = s.length := by
  induction s with
  | nil => rfl
  | cons c s ih =>
    rw [List.forall_mem_cons] at h
    rw [len_cons, h.1, ih h.2, List.length_cons, Nat.add_comm]

/-- An id: 36 one-byte characters, none of them a blank. -/
def IsId (id : Text) : Prop := id.length = 36 ∧ ∀ c ∈ id, c.utf8Size = 1 ∧ c ≠ ' '

instance (id : Text) : Decidable (IsId id) :=
  have : Decidable (∀ c ∈ id, c.utf8Size = 1 ∧ c ≠ ' ') := List.decidableBAll _ id
  inferInstanceAs (Decidable (_ ∧ _))

theorem IsId.len_eq {id : Text} (h : IsId id) : len id = 36 :=
  (len_eq_length fun c hc => (h.2 c hc).1).trans h.1

theorem IsId.no_blank {id : Text} (h : IsId id) : ' ' ∉ id := fun hc => (h.2 _ hc).2 rfl

/-- `SpaceTopic` and `UserTopic`. -/
def spaceTopic (spaceId : Text) : Text := ['s', 'p', 'a', 'c', 'e', ':'] ++ spaceId

def userTopic (userId : Text) : Text := ['u', 's', 'e', 'r', ':'] ++ userId

/-- The topic of a space or a person. -/
def IsTopic (topic : Text) : Prop := ∃ id, IsId id ∧ (topic = spaceTopic id ∨ topic = userTopic id)

/-- A topic's length, and that a cut at the first blank gives it whole. -/
theorem IsTopic.spec {topic : Text} (h : IsTopic topic) :
    (len topic = 41 ∨ len topic = 42) ∧ ' ' ∉ topic ∧ topic.isEmpty = false := by
  obtain ⟨id, hid, rfl | rfl⟩ := h
  · refine ⟨.inr ?_, ?_, rfl⟩
    · rw [spaceTopic, len_append, hid.len_eq]
      rfl
    · simp [spaceTopic, hid.no_blank]
  · refine ⟨.inl ?_, ?_, rfl⟩
    · rw [userTopic, len_append, hid.len_eq]
      rfl
    · simp [userTopic, hid.no_blank]

section
variable {topic batch encoded : Text}

theorem len_head (hbatch : IsId batch) : len (head topic batch) = len topic + 39 := by
  rw [head, len_append, len_cons, len_cons, len_append, hbatch.len_eq]
  rfl

/-- The room a piece has, for a topic of either length. -/
theorem room_eq (htopic : IsTopic topic) (hbatch : IsId batch) :
    len topic + room topic batch = 7955 := by
  have hroom : room topic batch = maxPayload - (len topic + 39) - 6 := by
    rw [room, len_head hbatch]
    rfl
  have hmax : maxPayload = 8000 := rfl
  rcases htopic.spec.1 with h | h <;> omega

theorem len_slice_le (hencoded : ∀ c ∈ encoded, c.utf8Size = 1) (index : Nat) :
    len (slice encoded (room topic batch) index) ≤ room topic batch := by
  have hlen : len (slice encoded (room topic batch) index) =
      (slice encoded (room topic batch) index).length :=
    len_eq_length fun c hc => hencoded c (List.mem_of_mem_drop (List.mem_of_mem_take hc))
  rw [hlen]
  exact List.length_take_le _ _

theorem len_itoa {n : Nat} (h : n ≤ 8) : len (itoa n) = 1 := by
  interval_cases n <;> decide

/-- A whole event that passes the test is under the limit: no payload is of 8,000 bytes exactly, the
encoding coming in fours. -/
theorem len_whole_lt (htopic : IsTopic topic) {bytes : List UInt8}
    (h : len (topic ++ ' ' :: Base64.encode bytes) ≤ maxPayload) :
    len (topic ++ ' ' :: Base64.encode bytes) < 8000 := by
  obtain ⟨k, hk⟩ := Base64.four_dvd_length bytes
  have hlen : len (Base64.encode bytes) = 4 * k :=
    (len_eq_length fun c hc => (Base64.encodes_of_mem hc).spec.2.2.2).trans hk
  have hblank : len (' ' :: Base64.encode bytes) = 1 + 4 * k := by
    rw [len_cons, hlen]
    rfl
  rw [len_append, hblank] at h ⊢
  have hmax : maxPayload = 8000 := rfl
  rcases htopic.spec.1 with ht | ht <;> omega

/-- **A piece is under the limit.** -/
theorem len_piece_lt (htopic : IsTopic topic) (hbatch : IsId batch)
    (hencoded : ∀ c ∈ encoded, c.utf8Size = 1) {count index : Nat} (hcount : count ≤ 8)
    (hindex : index < count) : len (piece topic batch encoded count index) < 8000 := by
  have hslice : len (slice encoded (room topic batch) index) ≤ room topic batch :=
    len_slice_le hencoded index
  have hroom := room_eq htopic hbatch
  have hpiece : len (piece topic batch encoded count index) =
      len topic + 43 + len (slice encoded (room topic batch) index) := by
    rw [piece, len_append, len_append, len_cons, len_append, len_cons, len_head hbatch,
      len_itoa hcount, len_itoa (by omega : index ≤ 8)]
    have hblank : Char.utf8Size ' ' = 1 := rfl
    omega
  omega

end

/-! ## A payload read back -/

/-- A text cut at its first blank. -/
theorem cut_append {field : Text} (h : ' ' ∉ field) (rest : Text) :
    cut (field ++ ' ' :: rest) = some (field, rest) := by
  have hall : ∀ c ∈ field, (c != ' ') = true := fun c hc =>
    bne_iff_ne.mpr fun heq => h (heq ▸ hc)
  have htake : (field ++ ' ' :: rest).takeWhile (· != ' ') = field := by
    rw [List.takeWhile_append_of_pos hall]
    simp
  have hdrop : (field ++ ' ' :: rest).dropWhile (· != ' ') = ' ' :: rest := by
    rw [List.dropWhile_append_of_pos hall]
    simp
  rw [cut, if_pos (by simp), htake, hdrop, List.tail_cons]

/-- A whole event's payload: its topic and its encoding. -/
theorem decodePayload_whole {topic : Text} (htopic : IsTopic topic) {bytes : List UInt8}
    (hstamped : ∃ rest, bytes = 0x0A :: rest) :
    decodePayload (topic ++ ' ' :: Base64.encode bytes) =
      .ok ⟨topic, [], 0, 1, Base64.encode bytes⟩ := by
  obtain ⟨rest, rfl⟩ := hstamped
  obtain ⟨tail, htail⟩ := Base64.encode_cons 0x0A rest
  obtain ⟨_, hblank, hne⟩ := htopic.spec
  have hfirst : Base64.digit ((0x0A : UInt8).toNat / 4) = 'C' := by decide
  rw [decodePayload, cut_append hblank, htail, hfirst]
  simp [hne]

theorem atoi_itoa {n : Nat} (h : n ≤ 8) : atoi (itoa n) = some (n : Int) := by
  interval_cases n <;> rfl

theorem itoa_no_blank {n : Nat} (h : n ≤ 8) : ' ' ∉ itoa n := by
  interval_cases n <;> decide

/-- **A piece's payload**: its topic, batch and place, and its slice. -/
theorem decodePayload_piece {topic batch encoded : Text} (htopic : IsTopic topic) (hbatch : IsId batch)
    {count index : Nat} (hcount : count ≤ 8) (hindex : index < count) :
    decodePayload (piece topic batch encoded count index) =
      .ok ⟨topic, batch, index, count, slice encoded (room topic batch) index⟩ := by
  obtain ⟨_, hblank, hne⟩ := htopic.spec
  have hshape : piece topic batch encoded count index = topic ++ ' ' :: '+' ::
      (batch ++ ' ' :: (itoa index ++ ' ' ::
        (itoa count ++ ' ' :: slice encoded (room topic batch) index))) := by
    simp [piece, head, partMarker]
  have hi := @itoa_no_blank index (by omega)
  have hsplit : splitN 4 (batch ++ ' ' :: (itoa index ++ ' ' ::
      (itoa count ++ ' ' :: slice encoded (room topic batch) index))) =
      [batch, itoa index, itoa count, slice encoded (room topic batch) index] := by
    rw [splitN, cut_append hbatch.no_blank]
    · simp only
      rw [splitN, cut_append hi]
      · simp only
        rw [splitN, cut_append (itoa_no_blank hcount)]
        · rfl
        · exact nofun
      · exact nofun
    · exact nofun
  rw [hshape, decodePayload, cut_append hblank]
  simp only [hne, Bool.false_eq_true, if_false]
  rw [decodePiece, hsplit]
  simp only [atoi_itoa hcount, @atoi_itoa index (by omega)]
  have hmax : (maxParts : Int) = 8 := rfl
  rw [if_neg (by omega)]
  rfl

end Stoop.Relay
