import Mathlib.Data.Prod.Lex
import Stoop.Lib.Keyed
import Stoop.Lib.Slots

/-!
# The order of a space's channels

`ReorderChannels` reads the channels Space settings lists, fills their places as the request asks
(`reorderedIDs`, `internal/chat/channels.go`), and numbers them from 0 (`SetChannelPosition`). The list leaves
voice channels out while voice is off (`allChannels`), so their numbers stay what they were: the call orders the
channels that are listed, and where a hidden one then stands among them is decided by its old number.

Who may reorder, and what members are told, is left out.
-/

set_option autoImplicit false

namespace Stoop.Spaces.Reorder

open Stoop.Lib

/-! ## The rows -/

inductive ChannelKind
  | text
  | voice
  deriving DecidableEq, Repr

structure Channel (ι : Type) where
  id : ι
  kind : ChannelKind
  position : Int
  createdAt : Nat
  isPrivate : Bool
  deriving DecidableEq, Repr

variable {ι υ : Type}

def Channel.isVoice (c : Channel ι) : Bool := c.kind == .voice

/-- What channels are listed by: position, then creation. -/
def Channel.order (c : Channel ι) : Int ×ₗ Nat := toLex (c.position, c.createdAt)

/-- A row of `ListAllChannelsBySpace`. -/
structure ChannelRow (ι : Type) where
  channel : Channel ι
  joined : Bool

/-- A space's channels, and who is in its private ones. -/
structure Space (ι υ : Type) where
  channels : Keyed (Channel.id : Channel ι → ι)
  channelMembers : List (ι × υ)

def ids (rows : List (ChannelRow ι)) : List ι := rows.map (·.channel.id)

/-- `allChannels`, of the rows listed: voice channels are left out while voice is off. -/
def allChannels (rows : List (ChannelRow ι)) (voiceOn : Bool) : List (ChannelRow ι) :=
  if voiceOn then rows else rows.filter fun row => !row.channel.isVoice

/-- What a reorder fails with: `errList`, or an index out of range. -/
inductive ReorderError
  | invalidArgument (text : String)
  | outOfRange
  deriving DecidableEq, Repr

def errList : ReorderError :=
  .invalidArgument "channel_ids must list every channel in the space exactly once"

section Calls

variable [DecidableEq ι]

/-- The loop over the request: each id is known, and named once. -/
def nameEach (known : List ι) : List ι → List ι → Except ReorderError (List ι)
  | named, [] => .ok named
  | named, id :: requested =>
    if id ∉ known ∨ id ∈ named then .error errList else nameEach known (id :: named) requested

/-- The loop over the rows: a named row's place goes to the next id of the request. -/
def placeEach (named : List ι) : List (ChannelRow ι) → List ι → Except ReorderError (List ι)
  | [], _ => .ok []
  | row :: rows, requested =>
    if row.channel.id ∉ named then
      -- only a private channel the caller is not in may be left out
      if row.joined then .error errList
      else (row.channel.id :: ·) <$> placeEach named rows requested
    else
      match requested with
      | [] => .error .outOfRange
      | id :: requested => (id :: ·) <$> placeEach named rows requested

def reorderedIDs (rows : List (ChannelRow ι)) (requested : List ι) : Except ReorderError (List ι) := do
  let named ← nameEach (ids rows) [] requested
  placeEach named rows requested

namespace Space

variable (s : Space ι υ)

/-- Whether the caller is in a channel. -/
def joined [DecidableEq υ] (user : υ) (c : Channel ι) : Bool :=
  !c.isPrivate || decide ((c.id, user) ∈ s.channelMembers)

/-- `SetChannelPosition`. -/
def setChannelPosition (id : ι) (position : Int) : Space ι υ :=
  { s with
    channels := s.channels.map (fun c => if c.id = id then { c with position := position } else c) fun c => by
      split <;> rfl }

/-- The positions of an order, numbered from an index. -/
def setPositions (s : Space ι υ) : Nat → List ι → Space ι υ
  | _, [] => s
  | index, id :: order => (s.setChannelPosition id index).setPositions (index + 1) order

/-- `ReorderChannels`, given what the query answered. -/
def reorderChannels (rows : List (ChannelRow ι)) (voiceOn : Bool) (requested : List ι) :
    Except ReorderError (Space ι υ) := do
  let order ← reorderedIDs (allChannels rows voiceOn) requested
  .ok (s.setPositions 0 order)

/-- An answer of `ListAllChannelsBySpace`: every channel, by position and then creation. Which of two that tie
comes first is the database's to say. -/
structure Lists [DecidableEq υ] (s : Space ι υ) (user : υ) (rows : List (ChannelRow ι)) : Prop where
  all : (rows.map (·.channel)).Perm s.channels.values
  sorted : rows.Pairwise fun a b => a.channel.order ≤ b.channel.order
  joined : ∀ row ∈ rows, row.joined = s.joined user row.channel

end Space

end Calls

/-! ## What is asked for -/

/-- Known ids, none twice, and every channel the caller has joined. -/
structure Acceptable (rows : List (ChannelRow ι)) (requested : List ι) : Prop where
  known : ∀ id ∈ requested, id ∈ ids rows
  once : requested.Nodup
  joined : ∀ row ∈ rows, row.joined = true → row.channel.id ∈ requested

section Asked

variable [DecidableEq ι]

/-- Whether a request names a channel. -/
def names (requested : List ι) (id : ι) : Bool := decide (id ∈ requested)

/-- The list with the places of the named given to them in the order asked. -/
def asked (listed requested : List ι) : List ι := fill (names requested) listed requested

instance (rows : List (ChannelRow ι)) (requested : List ι) : Decidable (Acceptable rows requested) :=
  decidable_of_iff ((∀ id ∈ requested, id ∈ ids rows) ∧ requested.Nodup ∧
      ∀ row ∈ rows, row.joined = true → row.channel.id ∈ requested)
    ⟨fun ⟨known, once, joined⟩ => ⟨known, once, joined⟩, fun h => ⟨h.known, h.once, h.joined⟩⟩

/-- Whether a channel is listed. -/
def shown (voiceOn : Bool) (c : Channel ι) : Bool := voiceOn || !c.isVoice

/-- A list with its listed channels numbered from an index, in turn. -/
def numbered (shown : Channel ι → Bool) : Nat → List (Channel ι) → List (Channel ι)
  | _, [] => []
  | index, c :: rest =>
    if shown c then { c with position := index } :: numbered shown (index + 1) rest
    else c :: numbered shown index rest

/-- The whole list asked for, as the table has its channels. -/
def Space.channelsAsked (s : Space ι υ) (rows : List (ChannelRow ι)) (requested : List ι) : List (Channel ι) :=
  (asked (ids rows) requested).filterMap s.channels.get?

/-- The numbers hidden channels have fit the whole list asked for: with the listed ones numbered from 0, it is in
strict order. -/
def Fits (s : Space ι υ) (rows : List (ChannelRow ι)) (voiceOn : Bool) (requested : List ι) : Prop :=
  (numbered (shown voiceOn) 0 (s.channelsAsked rows requested)).Pairwise fun a b => a.order < b.order

end Asked

end Stoop.Spaces.Reorder
