import Mathlib.Data.Char
import Mathlib.Data.List.Lex
import Mathlib.Data.List.Sort
import Stoop.Lib.Keyed
import Stoop.Lib.Machine
import Stoop.Lib.Uuid

/-!
# Opening a conversation

`internal/chat/dms.go` and `dms.sql`: who may be written to (`dmTargets`, `checkNoBlocks`), the key a conversation is
known by (`dmKey`), and the transaction that finds it or makes it.

The key is made of the ids as the request wrote them, and Postgres reads an id however it is written
(`Uuid.read`). `OpenDMChannel` inserts under the key or, where it is taken, updates the row that has it: either way
it holds the key to the end of its transaction, and waits where another does. A step is one statement, so every
interleaving of any number of openings is a run.
-/

set_option autoImplicit false

namespace Stoop.Direct

open Stoop.Lib

abbrev Text := List Char

abbrev UserId := Uuid

/-- A row's id, compared only. -/
abbrev ChannelId := Nat

abbrev SpaceId := Nat

abbrev Time := Int

def maxDMParticipants : Nat := 10

/-- `dmKey`. -/
def dmKey (ids : List Text) : Text := [':'].intercalate (ids.insertionSort (· ≤ ·))

/-! ## Who may be written to -/

inductive Kind
  | person
  | bot
  deriving DecidableEq, Repr

structure User where
  id : UserId
  kind : Kind

/-- What the checks read before the transaction. -/
structure View where
  users : Keyed User.id
  /-- `space_members`. -/
  spaceMembers : List (SpaceId × UserId)
  /-- `user_blocks`: who blocks whom. -/
  blocks : List (UserId × UserId)

inductive Code
  | invalidArgument
  | failedPrecondition
  | notFound
  | permissionDenied
  | internal
  deriving DecidableEq, Repr

inductive Refusal
  | callerIsBot
  | emptyId
  | yourself
  | required
  | tooMany
  /-- The lookup failed: an id that is none. -/
  | lookUp
  | unknownUser
  | bots
  | unreachable
  | blocked
  | blockedGroup
  deriving DecidableEq, Repr

namespace Refusal

def code : Refusal → Code
  | .emptyId | .yourself | .required => .invalidArgument
  | .tooMany => .failedPrecondition
  | .unknownUser => .notFound
  | .callerIsBot | .bots | .unreachable | .blocked | .blockedGroup => .permissionDenied
  | .lookUp => .internal

def text : Refusal → String
  | .callerIsBot => "bots can't open direct messages"
  | .emptyId => "user_ids holds an empty id"
  | .yourself => "you can't message yourself"
  | .required => "user_ids is required"
  | .tooMany => s!"a conversation holds {maxDMParticipants} people; make a space for anything bigger"
  | .lookUp => "look up users"
  | .unknownUser => "user not found"
  | .bots => "bots can't be messaged directly"
  | .unreachable => "you can only message people you share a space with"
  | .blocked => "you can't message this person"
  | .blockedGroup => "you can't start a conversation with these people"

end Refusal

/-- `usersByID`. -/
def usersByID (view : View) (ids : List Text) : Except Refusal (List User) :=
  if ids.all fun id => (Uuid.read id).isSome then
    .ok (view.users.values.filter fun user => (ids.filterMap Uuid.read).contains user.id)
  else .error .lookUp

/-- `SharesSpaceAmong`. -/
def sharesSpaceAmong (view : View) (me : UserId) (ids : List UserId) : List UserId :=
  ((view.spaceMembers.filter (·.2 == me)).flatMap fun a =>
    (view.spaceMembers.filter fun b => b.1 == a.1 && ids.contains b.2).map (·.2)).dedup

/-- Each once, in the order they come; `me` is seen already. -/
def distinctIds (me : Text) : List Text → List Text → Except Refusal (List Text)
  | _, [] => .ok []
  | seen, id :: ids =>
    if id = [] then .error .emptyId
    else if id = me then .error .yourself
    else if id ∈ seen then distinctIds me seen ids
    else (distinctIds me (id :: seen) ids).map (id :: ·)

/-- `dmTargets`. -/
def dmTargets (view : View) (reachAnyone : Bool) (me : UserId) (ids : List Text) : Except Refusal (List Text) := do
  let out ← distinctIds me.text [me.text] ids
  if out = [] then .error .required
  else if maxDMParticipants ≤ out.length then .error .tooMany
  else
    let users ← usersByID view out
    if users.length ≠ out.length then .error .unknownUser
    else if users.any (·.kind == .bot) then .error .bots
    else if !reachAnyone ∧ (sharesSpaceAmong view me (out.filterMap Uuid.read)).length ≠ out.length then
      .error .unreachable
    else .ok out

/-- `BlockedAmong`, of which only whether there are any is asked. -/
def blockedAmong (view : View) (id : UserId) (ids : List UserId) : Bool :=
  view.blocks.any fun block => (block.1 == id && ids.contains block.2) || (block.2 == id && ids.contains block.1)

/-- `blockRefusal`. -/
def blockRefusal (participants : Nat) : Refusal := if 2 < participants then .blockedGroup else .blocked

/-- `checkNoBlocks`. -/
def checkNoBlocks (view : View) (everyone : List Text) : Except Refusal Unit :=
  let people := everyone.filterMap Uuid.read
  if people.zipIdx.any fun (id, i) => blockedAmong view id (people.eraseIdx i) then
    .error (blockRefusal everyone.length)
  else .ok ()

/-- Who asks: `authctx`. -/
structure Caller where
  id : UserId
  kind : Kind
  /-- `DMsReachAnyone`. -/
  reachAnyone : Bool

/-- `OpenDirectMessage`, to its transaction. -/
def participantsOf (view : View) (caller : Caller) (ids : List Text) : Except Refusal (List Text) := do
  if caller.kind = .bot then .error .callerIsBot
  else
    let others ← dmTargets view caller.reachAnyone caller.id ids
    checkNoBlocks view (caller.id.text :: others)
    .ok (caller.id.text :: others)

/-! ## Rows -/

/-- A row of `channels`, of the third kind. -/
structure Channel where
  id : ChannelId
  dmKey : Text
  deriving DecidableEq, Repr

/-- A row of `dm_members`. -/
structure Member where
  channelId : ChannelId
  userId : UserId
  closedAt : Option Time
  deriving DecidableEq, Repr

def Member.key (m : Member) : ChannelId × UserId := (m.channelId, m.userId)

/-! ## The machine -/

/-- What `OpenDMChannel` came to: a channel, and whether it made it. -/
structure Opened where
  channel : Channel
  created : Bool
  deriving DecidableEq, Repr

structure Tx where
  id : Nat
  me : UserId
  participants : List Text
  opened : Option Opened
  /-- Who is still to be added. -/
  rest : List Text
  added : List Member
  /-- `SetDMClosed` is done. -/
  reopened : Bool

/-- A reply: who asked, for whom, and which conversation it was. -/
structure Reply where
  me : UserId
  participants : List Text
  channel : ChannelId

/-- The rows committed, the openings at work and every channel id drawn; the replies, and the channels announced to
their people (ghosts). -/
structure World where
  channels : Keyed Channel.id
  members : Keyed Member.key
  txs : Keyed Tx.id
  drawn : List ChannelId
  replies : List Reply
  announced : List ChannelId

def World.empty : World := ⟨.empty, .empty, .empty, [], [], []⟩

inductive Label
  | openDirectMessage (tx : Nat) (view : View) (caller : Caller) (ids : List Text)
  | openDMChannel (tx : Nat) (id : ChannelId)
  | addDMMember (tx : Nat)
  /-- `SetDMClosed`, in the transaction. -/
  | reopen (tx : Nat)
  | commit (tx : Nat)
  | rollback (tx : Nat)
  | setDirectMessageClosed (me : UserId) (channel : ChannelId) (closed : Option Time)
  | reopenDM (channel : ChannelId)

namespace World

def advance (s : World) (t : Tx) : World := { s with txs := s.txs.set t }

/-- Whether an open transaction holds a key. -/
def heldKey (s : World) (key : Text) : Bool := s.txs.values.any fun t => t.opened.any (·.channel.dmKey == key)

/-- Whether an open transaction has reopened a row. -/
def heldRow (s : World) (row : ChannelId × UserId) : Bool :=
  s.txs.values.any fun t => t.reopened && t.me == row.2 && t.opened.any (·.channel.id == row.1)

/-- Rows closed or reopened. -/
def setClosed (members : Keyed Member.key) (p : Member → Bool) (closed : Option Time) : Keyed Member.key :=
  members.map (fun m => if p m then { m with closedAt := closed } else m) fun m => by
    by_cases h : p m <;> simp [h, Member.key]

def step (s : World) : Label → Option World
  | .openDirectMessage tx view caller ids =>
    match participantsOf view caller ids with
    | .error _ => some s
    | .ok participants =>
      if s.txs.has tx then none else some (s.advance ⟨tx, caller.id, participants, none, participants, [], false⟩)
  | .openDMChannel tx id =>
    (s.txs.get? tx).bind fun t =>
      if t.opened.isSome ∨ s.heldKey (dmKey t.participants) then none
      else
        match s.channels.values.find? (·.dmKey == dmKey t.participants) with
        | some channel => some (s.advance { t with opened := some ⟨channel, false⟩ })
        | none =>
          if id ∈ s.drawn then none
          else some
            { s.advance { t with opened := some ⟨⟨id, dmKey t.participants⟩, true⟩ } with drawn := s.drawn ++ [id] }
  | .addDMMember tx =>
    (s.txs.get? tx).bind fun t => t.opened.bind fun o =>
      match t.rest with
      | [] => none
      | id :: rest =>
        (Uuid.read id).map fun user =>
          -- a row that is there is left as it is
          if s.members.has (o.channel.id, user) ∨ (o.channel.id, user) ∈ t.added.map Member.key then
            s.advance { t with rest := rest }
          else s.advance { t with rest := rest, added := t.added ++ [⟨o.channel.id, user, none⟩] }
  | .reopen tx =>
    (s.txs.get? tx).bind fun t =>
      if t.opened.isSome ∧ t.rest = [] then some (s.advance { t with reopened := true }) else none
  | .commit tx =>
    (s.txs.get? tx).bind fun t => t.opened.bind fun o =>
      if t.rest = [] ∧ t.reopened then
        some
          { s with
            channels := if o.created then s.channels.set o.channel else s.channels
            members := setClosed (s.members.setAll t.added) (·.key == (o.channel.id, t.me)) none
            txs := s.txs.filter (·.id != tx)
            replies := s.replies ++ [⟨t.me, t.participants, o.channel.id⟩]
            announced := s.announced ++ if o.created then [o.channel.id] else [] }
      else none
  | .rollback tx => some { s with txs := s.txs.filter (·.id != tx) }
  | .setDirectMessageClosed me channel closed =>
    if s.heldRow (channel, me) then none
    else some { s with members := setClosed s.members (·.key == (channel, me)) closed }
  | .reopenDM channel =>
    if s.members.values.any fun m => m.channelId == channel && m.closedAt.isSome && s.heldRow m.key then none
    else some { s with members := setClosed s.members (fun m => m.channelId == channel && m.closedAt.isSome) none }

end World

/-- The people of a conversation. -/
def World.people (s : World) (c : Channel) (u : UserId) : Prop := s.members.has (c.id, u) = true

/-- Ids as an opening has them: two to ten, each written once, and each an id. -/
structure Proper (ids : List Text) : Prop where
  nodup : ids.Nodup
  read : ∀ id ∈ ids, (Uuid.read id).isSome
  atLeast : 2 ≤ ids.length
  atMost : ids.length ≤ maxDMParticipants

/-- Who is meant by ids. -/
def Meant (ids : List Text) (u : UserId) : Prop := ∃ id ∈ ids, Uuid.read id = some u

/-- A key of people's ids as they are written. -/
def Channel.Plain (c : Channel) : Prop := ∃ us : List UserId, us ≠ [] ∧ c.dmKey = Direct.dmKey (us.map Uuid.text)

/-- One conversation for the same ids. -/
structure Conversations (s : World) : Prop where
  /-- Its people are those its key names, whoever opened it. -/
  people : ∀ c ∈ s.channels.values, ∃ ids, Proper ids ∧ c.dmKey = dmKey ids ∧ ∀ u, s.people c u ↔ Meant ids u
  /-- Two with the same people are one, if their keys are of ids as they are written. -/
  one : ∀ c ∈ s.channels.values, ∀ d ∈ s.channels.values, c.Plain → d.Plain → (∀ u, s.people c u ↔ s.people d u) → c = d
  /-- Whoever opens one is in it, and has everyone asked for in it. -/
  answered : ∀ r ∈ s.replies, ∃ c ∈ s.channels.values, c.id = r.channel ∧ s.people c r.me ∧
    ∀ u, s.people c u ↔ Meant r.participants u
  /-- Two openings come to one conversation exactly if they are for the same ids. -/
  together : ∀ r ∈ s.replies, ∀ q ∈ s.replies, r.channel = q.channel ↔ r.participants.Perm q.participants
  /-- Each is announced once. -/
  announced : s.announced.Nodup ∧ ∀ id, id ∈ s.announced ↔ s.channels.has id = true

end Stoop.Direct
