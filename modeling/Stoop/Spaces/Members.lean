import Stoop.Lib.Machine
import Stoop.Lib.Indexed

/-!
# The members of spaces, and the calls that change who they are

The rows of `spaces`, `space_members` and `space_bans` (`internal/chat`), and the calls that read and write
them: roles, kicks, bans, leaving, the hand-over of a space, the ways of joining one, and what an account
that is deleted leaves behind. Each read made outside a transaction is a step, and so is each transaction:
what a call was told by a read is what it goes by, however much has changed since.

A space has one owner at most, by the index of the table (`space_members_one_owner_idx`); that it has one,
and which, is a matter of the runs (`Spaces.Owners`), as is that someone banned is no member
(`Spaces.Bans`).
-/

set_option autoImplicit false

namespace Stoop.Spaces

open Stoop.Lib

/-! ## The tables -/

inductive SpaceRole
  | owner | admin | member
  deriving DecidableEq, Repr

def SpaceRole.rank : SpaceRole → Nat
  | .member => 1
  | .admin => 2
  | .owner => 3

def SpaceRole.atLeast (r least : SpaceRole) : Bool := least.rank ≤ r.rank

structure Space where
  id : Nat
  owner : Nat
  deriving DecidableEq, Repr

/-- `UpdateSpaceOwner`, of one row. -/
def Space.handTo (space owner : Nat) (s : Space) : Space := if s.id = space then { s with owner := owner } else s

theorem Space.id_handTo (space owner : Nat) (s : Space) : (s.handTo space owner).id = s.id := by
  simp only [Space.handTo]
  split <;> rfl

/-- A row of `space_members`. -/
structure Member where
  space : Nat
  user : Nat
  role : SpaceRole
  deriving DecidableEq, Repr

def Member.key (m : Member) : Nat × Nat := (m.space, m.user)

/-- What the one-owner index is over: the space, in its owner's row. -/
def Member.owned (m : Member) : Option Nat := if m.role = .owner then some m.space else none

/-- The members, oldest first in each space. -/
abbrev Members := Indexed Member.key Member.owned

/-- A row of `space_bans`; and, which no step reads, the calls that wrote it since it was inserted, and
whether one of them has finished. -/
structure Ban where
  space : Nat
  user : Nat
  callers : List Nat
  settled : Bool
  deriving DecidableEq, Repr

def Ban.key (b : Ban) : Nat × Nat := (b.space, b.user)

/-- A ban a call has finished, if it is one of those that wrote it. -/
def Ban.settle (space user call : Nat) (b : Ban) : Ban :=
  if b.key = (space, user) ∧ call ∈ b.callers then { b with settled := true } else b

theorem Ban.key_settle (space user call : Nat) (b : Ban) : (b.settle space user call).key = b.key := by
  simp only [Ban.settle]
  split <;> rfl

namespace Members

/-- `SetSpaceMemberRole`: nothing where there is no row, and refused where the index forbids it. -/
def setSpaceMemberRole (t : Members) (space user : Nat) (role : SpaceRole) : Option Members :=
  match t.get? (space, user) with
  | none => some t
  | some m => t.put { m with role := role }

/-- `CreateSpaceMember`: nothing where it conflicts, on the key or the index. -/
def createSpaceMember (t : Members) (space user : Nat) (role : SpaceRole) : Members :=
  if t.has (space, user) then t else (t.put ⟨space, user, role⟩).getD t

def deleteSpaceMember (t : Members) (space user : Nat) : Members := t.filter fun m => m.key != (space, user)

/-- Whether a person's row is the owner's. -/
def owns (t : Members) (space user : Nat) : Bool := (t.get? (space, user)).any (·.role == .owner)

/-- `LongestServingAdmin`. -/
def longestServingAdmin (t : Members) (space : Nat) : Option Nat :=
  (t.rows.values.find? fun m => m.space == space && m.role == .admin).map (·.user)

end Members

/-! ## What the checks allow -/

/-- The caller as seen by a space. -/
structure Actor where
  role : Option SpaceRole
  member : Bool
  instanceAdmin : Bool
  deriving DecidableEq, Repr

/-- `actorForUser`: an instance admin inherits admin. -/
def actorForUser (t : Members) (space user : Nat) (instanceAdmin : Bool) : Actor :=
  let role := (t.get? (space, user)).map (·.role)
  { role := if instanceAdmin && !role.any (·.atLeast .admin) then some .admin else role
    member := role.isSome
    instanceAdmin := instanceAdmin }

/-- The identity gate of `requirePermission`, for the least role that holds the action. -/
def Actor.allowed (a : Actor) (least : SpaceRole) : Bool :=
  (a.member || a.instanceAdmin) && a.role.any (·.atLeast least)

/-- Never the owner; the owner and instance admins anyone else; everyone else only those below them. -/
def canActOn (a : Actor) (target : SpaceRole) : Bool :=
  if target = .owner then false
  else if a.role = some .owner ∨ a.instanceAdmin then true
  else a.role.any fun r => target.rank < r.rank

/-- `grantableRole`. -/
def grantable (a : Actor) (requested : SpaceRole) : Bool :=
  requested != .owner && a.role.any (·.atLeast requested)

/-! ## Calls -/

/-- What is asked of one member, by a caller. -/
inductive Act
  | setMemberRole (role : SpaceRole)
  | kickMember
  | banMember
  | unbanMember
  | transferOwnership
  | addMember
  deriving DecidableEq, Repr

/-- The least role that holds the action. -/
def Act.least : Act → SpaceRole
  | .transferOwnership => .owner
  | _ => .admin

/-- A call about a member. -/
structure Ask where
  me : Nat
  instanceAdmin : Bool
  space : Nat
  target : Nat
  act : Act
  deriving DecidableEq, Repr

/-- The next step of a call. -/
inductive NextStep
  | requirePermission (ask : Ask)
  | actorFor (ask : Ask)
  | getSpaceMember (ask : Ask) (a : Actor)
  | setSpaceMemberRole (space user : Nat) (role : SpaceRole)
  /-- `removeMember`, which is a ban's last step too -/
  | removeMember (space user : Nat) (ban : Bool)
  /-- with whether they were a member when it was read -/
  | banUser (space user : Nat) (isMember : Bool)
  | unbanUser (space user : Nat)
  /-- the transaction of `TransferOwnership` -/
  | transfer (space source target : Nat)
  | getSpaceMemberRole (space user : Nat)
  /-- the ways of joining, from the ban on -/
  | refuseIfBanned (space user : Nat) (role : SpaceRole)
  | isSpaceMember (space user : Nat) (role : SpaceRole)
  | createSpaceMember (space user : Nat) (role : SpaceRole)
  /-- `RemovePerson`: the spaces still to hand over, or to leave -/
  | listOwnedSpaceIDs (user : Nat) (fallback : Option Nat)
  | longestServingAdmin (user : Nat) (fallback : Option Nat) (space : Nat) (rest : List Nat)
  | handOver (user : Nat) (fallback : Option Nat) (space heir : Nat) (rest : List Nat)
  | listSpaceIDsByUser (user : Nat)
  | leaveEach (user : Nat) (spaces : List Nat)
  deriving DecidableEq, Repr

structure SpaceCall where
  id : Nat
  next : NextStep
  deriving DecidableEq, Repr

/-- What is committed. -/
structure Tables where
  spaces : Keyed Space.id
  members : Members
  bans : Keyed Ban.key

namespace Tables

variable (t : Tables)

def actorFor (ask : Ask) : Actor := actorForUser t.members ask.space ask.me ask.instanceAdmin

/-- A space made, and its maker its owner. -/
def createSpace (space owner : Nat) : Option Tables :=
  if t.spaces.has space then none
  else (t.members.put ⟨space, owner, .owner⟩).map fun members =>
    { t with spaces := t.spaces.set ⟨space, owner⟩, members := members }

/-- `SetSpaceMemberRole`, left undone where it is refused. -/
def setSpaceMemberRole (space user : Nat) (role : SpaceRole) : Tables :=
  { t with members := (t.members.setSpaceMemberRole space user role).getD t.members }

/-- A membership made, of a space there is. -/
def createSpaceMember (space user : Nat) (role : SpaceRole) : Tables :=
  if t.spaces.has space then { t with members := t.members.createSpaceMember space user role } else t

def deleteSpaceMember (space user : Nat) : Tables :=
  { t with members := t.members.deleteSpaceMember space user }

/-- `BanUser`: the row inserted, or written over. -/
def banUser (id space user : Nat) : Tables :=
  if t.spaces.has space then
    { t with bans := t.bans.set (match t.bans.get? (space, user) with
      | none => ⟨space, user, [id], false⟩
      | some b => { b with callers := id :: b.callers }) }
  else t

/-- A ban by a call that has finished. -/
def settle (id space user : Nat) : Tables :=
  { t with bans := t.bans.map (Ban.settle space user id) (Ban.key_settle space user id) }

def unbanUser (space user : Nat) : Tables := { t with bans := t.bans.filter fun b => b.key != (space, user) }

def updateSpaceOwner (space owner : Nat) (members : Members) : Tables :=
  { t with
    members := members
    spaces := t.spaces.map (Space.handTo space owner) (Space.id_handTo space owner) }

/-- `TransferOwnership`: the owner demoted first; then the member promoted, if there is one. -/
def transfer (space source target : Nat) : Option Tables :=
  (t.members.setSpaceMemberRole space source .admin).bind fun demoted =>
    if demoted.has (space, target) then
      (demoted.setSpaceMemberRole space target .owner).map (t.updateSpaceOwner space target)
    else none

/-- `handOver`: as it, but an heir who is not a member is made one. -/
def handOver (space source heir : Nat) : Option Tables :=
  (t.members.setSpaceMemberRole space source .admin).bind fun demoted =>
    (if demoted.has (space, heir) then demoted.setSpaceMemberRole space heir .owner
      else some (demoted.createSpaceMember space heir .owner)).map (t.updateSpaceOwner space heir)

end Tables

/-- What is asked once the caller may. -/
def permitted (ask : Ask) : NextStep :=
  match ask.act with
  | .setMemberRole _ | .kickMember | .banMember => .actorFor ask
  | .unbanMember => .unbanUser ask.space ask.target
  | .transferOwnership => .transfer ask.space ask.me ask.target
  | .addMember => .refuseIfBanned ask.space ask.target .member

/-- What is done of a member read, or of nobody. -/
def targeted (ask : Ask) (a : Actor) : Option Member → Option NextStep
  | none => if ask.act = .banMember then some (.banUser ask.space ask.target false) else none
  | some m =>
    if canActOn a m.role then
      match ask.act with
      | .setMemberRole role =>
        if grantable a role then some (.setSpaceMemberRole ask.space ask.target role) else none
      | .kickMember => some (.removeMember ask.space ask.target false)
      | .banMember => some (.banUser ask.space ask.target true)
      | .unbanMember | .transferOwnership | .addMember => none
    else none

/-- The next of the spaces a person leaves owned, or the spaces they are in. -/
def nextOwned (user : Nat) (fallback : Option Nat) : List Nat → NextStep
  | [] => .listSpaceIDsByUser user
  | space :: rest => .longestServingAdmin user fallback space rest

/-- A step of a call: what it leaves, and the step after it, if the call is not over. -/
def Tables.proceed (t : Tables) (id : Nat) : NextStep → Tables × Option NextStep
  | .requirePermission ask =>
    (t, if (t.actorFor ask).allowed ask.act.least then some (permitted ask) else none)
  | .actorFor ask => (t, some (.getSpaceMember ask (t.actorFor ask)))
  | .getSpaceMember ask a => (t, targeted ask a (t.members.get? (ask.space, ask.target)))
  | .setSpaceMemberRole space user role => (t.setSpaceMemberRole space user role, none)
  | .removeMember space user ban =>
    (if ban then (t.deleteSpaceMember space user).settle id space user else t.deleteSpaceMember space user, none)
  | .banUser space user isMember =>
    -- someone already gone is banned and no more
    if isMember then (t.banUser id space user, some (.removeMember space user true))
    else ((t.banUser id space user).settle id space user, none)
  | .unbanUser space user => (t.unbanUser space user, none)
  | .transfer space source target => ((t.transfer space source target).getD t, none)
  | .getSpaceMemberRole space user =>
    (t, (t.members.get? (space, user)).bind fun m =>
      if m.role = .owner then none else some (.removeMember space user false))
  | .refuseIfBanned space user role =>
    (t, if t.bans.has (space, user) then none else some (.isSpaceMember space user role))
  | .isSpaceMember space user role =>
    (t, if t.members.has (space, user) then none else some (.createSpaceMember space user role))
  | .createSpaceMember space user role => (t.createSpaceMember space user role, none)
  | .listOwnedSpaceIDs user fallback =>
    (t, some (nextOwned user fallback ((t.spaces.values.filter (·.owner == user)).map (·.id))))
  | .longestServingAdmin user fallback space rest =>
    (t, ((t.members.longestServingAdmin space).or fallback).map fun heir => .handOver user fallback space heir rest)
  | .handOver user fallback space heir rest =>
    match t.handOver space user heir with
    | none => (t, none)
    | some handed => (handed, some (nextOwned user fallback rest))
  | .listSpaceIDsByUser user =>
    (t, some (.leaveEach user ((t.members.rows.values.filter (·.user == user)).map (·.space))))
  | .leaveEach _ [] => (t, none)
  | .leaveEach user (space :: rest) => (t.deleteSpaceMember space user, some (.leaveEach user rest))

/-- What is committed, and the calls at work. -/
structure World where
  tables : Tables
  calls : Keyed SpaceCall.id

def World.start : World := ⟨⟨Keyed.empty, Indexed.empty, Keyed.empty⟩, Keyed.empty⟩

/-- One step: a call begins, makes its next step, or is over, answered or not. -/
inductive Label
  | createSpace (space owner : Nat)
  | ask (call : Nat) (ask : Ask)
  | leaveSpace (call space user : Nat)
  /-- `JoinSpace` as an instance admin -/
  | joinSpace (call space user : Nat)
  /-- `JoinSpace` by code, and `RedeemInvite`: the space the code is to, and the role `roleGrantedBy` finds -/
  | joinWithCode (call space user : Nat) (granted : SpaceRole)
  | removePerson (call user : Nat) (fallback : Option Nat)
  | proceed (call : Nat)
  | finish (call : Nat)
  deriving DecidableEq, Repr

namespace World

variable (w : World)

/-- A call begun. -/
def begun (id : Nat) (next : NextStep) : Option World :=
  if w.calls.has id then none else some { w with calls := w.calls.set ⟨id, next⟩ }

def step : Label → Option World
  | .createSpace space owner => (w.tables.createSpace space owner).map fun t => { w with tables := t }
  | .ask call ask =>
    -- nobody asks it of themselves
    if ask.me = ask.target ∧ (ask.act = .kickMember ∨ ask.act = .banMember ∨ ask.act = .transferOwnership) then none
    else w.begun call (.requirePermission ask)
  | .leaveSpace call space user => w.begun call (.getSpaceMemberRole space user)
  | .joinSpace call space user => w.begun call (.refuseIfBanned space user .member)
  | .joinWithCode call space user granted =>
    if granted = .owner then none else w.begun call (.refuseIfBanned space user granted)
  | .removePerson call user fallback => w.begun call (.listOwnedSpaceIDs user fallback)
  | .proceed call =>
    (w.calls.get? call).map fun c =>
      let done := w.tables.proceed call c.next
      { tables := done.1
        calls := match done.2 with
          | none => w.calls.filter fun c => c.id != call
          | some next => w.calls.set ⟨call, next⟩ }
  | .finish call => some { w with calls := w.calls.filter fun c => c.id != call }

/-- The world after a run. -/
def after (labels : List Label) : World := (runList World.step World.start labels).getD World.start

end World

/-- **What a step leaves of the tables**: a space made, a call's next step, or all as it was. -/
theorem World.step_tables {w w' : World} {a : Label} (h : w.step a = some w') :
    w'.tables = w.tables ∨ (∃ space owner, w.tables.createSpace space owner = some w'.tables) ∨
      ∃ call, a = .proceed call ∧ ∃ c ∈ w.calls.get? call, w'.tables = (w.tables.proceed call c.next).1 := by
  have hbegun : ∀ {id next}, w.begun id next = some w' → w'.tables = w.tables := by
    intro id next h
    simp only [begun] at h
    split at h
    · cases h
    · exact Option.some.inj h ▸ rfl
  cases a with
  | createSpace space owner =>
    obtain ⟨t, ht, rfl⟩ := Option.map_eq_some_iff.mp h
    exact .inr (.inl ⟨space, owner, ht⟩)
  | ask call ask =>
    simp only [step] at h
    split at h
    · cases h
    · exact .inl (hbegun h)
  | leaveSpace call space user => exact .inl (hbegun h)
  | joinSpace call space user => exact .inl (hbegun h)
  | joinWithCode call space user granted =>
    simp only [step] at h
    split at h
    · cases h
    · exact .inl (hbegun h)
  | removePerson call user fallback => exact .inl (hbegun h)
  | proceed call =>
    obtain ⟨c, hc, rfl⟩ := Option.map_eq_some_iff.mp h
    exact .inr (.inr ⟨call, rfl, c, hc, rfl⟩)
  | finish call => exact .inl (Option.some.inj h ▸ rfl)

/-! ## What a write leaves of the members -/

namespace Members

variable {t t' : Members} {space user : Nat} {role : SpaceRole}

theorem owns_eq_true : t.owns space user = true ↔ ∃ m, t.get? (space, user) = some m ∧ m.role = .owner := by
  rw [owns, Option.any_eq_true]
  simp only [beq_iff_eq]

/-- A space's owner is one person. -/
theorem owns_unique {other : Nat} (h : t.owns space user = true) (h' : t.owns space other = true) :
    user = other := by
  obtain ⟨m, hm, hrole⟩ := owns_eq_true.mp h
  obtain ⟨n, hn, hrole'⟩ := owns_eq_true.mp h'
  have hkey : m.key = (space, user) := Keyed.key_of_get? hm
  have hkey' : n.key = (space, other) := Keyed.key_of_get? hn
  have hspace : m.space = n.space := (congrArg Prod.fst hkey).trans (congrArg Prod.fst hkey').symm
  have hsame : m = n := t.eq_of_mark (Keyed.mem_values.mpr (hkey ▸ hm)) (Keyed.mem_values.mpr (hkey' ▸ hn))
    (show m.space ∈ m.owned by rw [Member.owned, if_pos hrole]; rfl)
    (show m.space ∈ n.owned by rw [Member.owned, if_pos hrole', hspace]; rfl)
  rw [hsame, hkey'] at hkey
  exact (congrArg Prod.snd hkey).symm

/-- A role set: in its row, if there is one. -/
theorem get?_setSpaceMemberRole (h : t.setSpaceMemberRole space user role = some t') (k : Nat × Nat) :
    t'.get? k = if k = (space, user) then (t.get? k).map fun m => { m with role := role } else t.get? k := by
  simp only [setSpaceMemberRole] at h
  split at h
  · next hnone =>
    rw [← Option.some.inj h]
    split
    · next hk => rw [hk, hnone, Option.map_none]
    · rfl
  · next m hm =>
    have hkey : m.key = (space, user) := Keyed.key_of_get? hm
    rw [Indexed.get?_put h]
    show (if m.key = k then some { m with role := role } else t.get? k) = _
    by_cases hk : k = (space, user)
    · rw [if_pos (hkey.trans hk.symm), if_pos hk, hk, hm, Option.map_some]
    · rw [if_neg (fun heq => hk (heq.symm.trans hkey)), if_neg hk]

/-- A demotion is let. -/
theorem setSpaceMemberRole_admin (t : Members) (space user : Nat) :
    ∃ t', t.setSpaceMemberRole space user .admin = some t' := by
  simp only [setSpaceMemberRole]
  split
  · exact ⟨t, rfl⟩
  · exact Option.isSome_iff_exists.mp (Indexed.put_unmarked rfl)

/-- Who has no row owns nothing. -/
theorem owns_of_absent (h : t.has (space, user) = false) : t.owns space user = false := by
  rw [owns, show t.get? (space, user) = none from Option.isSome_eq_false_iff.mp h |> Option.isNone_iff_eq_none.mp]
  rfl

theorem has_setSpaceMemberRole (h : t.setSpaceMemberRole space user role = some t') (k : Nat × Nat) :
    t'.has k = t.has k := by
  show (t'.get? k).isSome = (t.get? k).isSome
  rw [get?_setSpaceMemberRole h]
  split
  · exact Option.isSome_map
  · rfl

/-- Who owns what, when a role is set in another row. -/
theorem owns_setSpaceMemberRole (h : t.setSpaceMemberRole space user role = some t') {space' user' : Nat}
    (hne : (space', user') ≠ (space, user)) : t'.owns space' user' = t.owns space' user' := by
  rw [owns, get?_setSpaceMemberRole h, if_neg hne, ← owns]

/-- A member promoted owns the space. -/
theorem owns_promoted (h : t.setSpaceMemberRole space user .owner = some t') (hhas : t.has (space, user) = true) :
    t'.owns space user = true := by
  obtain ⟨m, hm⟩ := Option.isSome_iff_exists.mp hhas
  rw [owns, get?_setSpaceMemberRole h, if_pos rfl, show t.get? (space, user) = some m from hm]
  rfl

/-- A member demoted does not. -/
theorem owns_demoted (h : t.setSpaceMemberRole space user role = some t') (hrole : role ≠ .owner) :
    t'.owns space user = false := by
  rw [owns, get?_setSpaceMemberRole h, if_pos rfl]
  cases t.get? (space, user) with
  | none => rfl
  | some m => exact beq_eq_false_iff_ne.mpr hrole

/-- A demoted owner's space is nobody's. -/
theorem owns_nobody (howns : t.owns space user = true)
    (h : t.setSpaceMemberRole space user .admin = some t') (other : Nat) : t'.owns space other = false := by
  by_cases hsame : other = user
  · rw [hsame]
    exact owns_demoted h nofun
  · rw [owns_setSpaceMemberRole h fun heq => hsame (congrArg Prod.snd heq), ← Bool.not_eq_true]
    exact fun howns' => hsame (owns_unique howns' howns)

theorem get?_deleteSpaceMember (t : Members) (space user : Nat) (k : Nat × Nat) :
    (t.deleteSpaceMember space user).get? k = if k = (space, user) then none else t.get? k := by
  rw [deleteSpaceMember, Indexed.get?_filter]
  cases hm : t.get? k with
  | none => simp
  | some m =>
    have hkey : m.key = k := Keyed.key_of_get? hm
    by_cases hk : k = (space, user) <;> simp [Option.filter, hkey, hk]

theorem owns_deleteSpaceMember (t : Members) {space' user' : Nat} (hne : (space', user') ≠ (space, user)) :
    (t.deleteSpaceMember space user).owns space' user' = t.owns space' user' := by
  rw [owns, get?_deleteSpaceMember, if_neg hne, ← owns]

theorem owns_deleteSpaceMember_self (t : Members) (space user : Nat) :
    (t.deleteSpaceMember space user).owns space user = false := by
  rw [owns, get?_deleteSpaceMember, if_pos rfl]
  rfl

theorem has_deleteSpaceMember (t : Members) (space user : Nat) :
    (t.deleteSpaceMember space user).has (space, user) = false := by
  show ((t.deleteSpaceMember space user).get? (space, user)).isSome = false
  rw [get?_deleteSpaceMember, if_pos rfl]
  rfl

/-- A membership made leaves the others. -/
theorem get?_createSpaceMember (t : Members) {k : Nat × Nat} (hne : k ≠ (space, user)) :
    (t.createSpaceMember space user role).get? k = t.get? k := by
  simp only [createSpaceMember]
  split
  · rfl
  · cases hput : t.put ⟨space, user, role⟩ with
    | none => rfl
    | some t' =>
      rw [Option.getD_some, Indexed.get?_put hput, if_neg]
      exact fun heq => hne heq.symm

theorem has_createSpaceMember {k : Nat × Nat} (hne : k ≠ (space, user))
    (h : (t.createSpaceMember space user role).has k = true) : t.has k = true := by
  change ((t.createSpaceMember space user role).get? k).isSome = true at h
  rw [get?_createSpaceMember t hne] at h
  exact h

/-- An owner stays one where a membership is made. -/
theorem owns_createSpaceMember {space' user' : Nat} (h : t.owns space' user' = true) :
    (t.createSpaceMember space user role).owns space' user' = true := by
  by_cases hsame : (space', user') = (space, user)
  · obtain ⟨m, hm, _⟩ := owns_eq_true.mp h
    have hhas : t.has (space, user) = true := by
      rw [← hsame]
      exact Option.isSome_of_eq_some hm
    rw [createSpaceMember, if_pos hhas, h]
  · rw [owns, get?_createSpaceMember t hsame, ← owns, h]

/-- A space that nobody owns takes an owner. -/
theorem owns_createOwner (hfree : ∀ other, t.owns space other = false) (hhas : t.has (space, user) = false) :
    (t.createSpaceMember space user .owner).owns space user = true := by
  have hlet : (t.put ⟨space, user, .owner⟩).isSome = true := by
    refine Indexed.put_free fun b hb _ g hg hgb => ?_
    have hspace : g = space := (Option.some.inj hg).symm
    have howned : b.role = .owner ∧ b.space = g := by
      rw [Member.owned] at hgb
      split at hgb
      · next hrole => exact ⟨hrole, Option.some.inj hgb⟩
      · cases hgb
    have howns : t.owns space b.user = true := by
      refine owns_eq_true.mpr ⟨b, ?_, howned.1⟩
      rw [← hspace, ← howned.2]
      exact Keyed.mem_values.mp hb
    rw [hfree b.user] at howns
    cases howns
  obtain ⟨t', ht'⟩ := Option.isSome_iff_exists.mp hlet
  refine owns_eq_true.mpr ⟨⟨space, user, .owner⟩, ?_, rfl⟩
  rw [createSpaceMember, if_neg (by rw [hhas]; exact Bool.false_ne_true), ht', Option.getD_some,
    Indexed.get?_put ht']
  exact if_pos rfl

/-- A space somebody else owns takes none. -/
theorem createOwner_refused {other : Nat} (howns : t.owns space other = true) (hhas : t.has (space, user) = false) :
    t.createSpaceMember space user .owner = t := by
  obtain ⟨m, hm, hrole⟩ := owns_eq_true.mp howns
  have hkey : m.key = (space, other) := Keyed.key_of_get? hm
  have hspace : m.space = space := congrArg Prod.fst hkey
  have hne : m.key ≠ (space, user) := by
    intro heq
    have hsome : t.has (space, user) = true := Option.isSome_of_eq_some (heq ▸ hkey.symm ▸ hm)
    rw [hhas] at hsome
    cases hsome
  have hrefused : t.put ⟨space, user, .owner⟩ = none :=
    Indexed.put_refused (Keyed.mem_values.mpr (hkey ▸ hm)) hne
      (show space ∈ m.owned by rw [Member.owned, if_pos hrole, hspace]; rfl) rfl
  rw [createSpaceMember, if_neg (by rw [hhas]; exact Bool.false_ne_true), hrefused, Option.getD_none]

end Members

end Stoop.Spaces
