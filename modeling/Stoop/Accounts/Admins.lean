import Stoop.Lib.Machine
import Stoop.Lib.Indexed

/-!
# The server's admins and its owner

The `users` table (`internal/auth`) and the calls that change who administers the server: roles,
deactivations, an account's own deletion, the hand-over of ownership, and registrations. Each statement is
a step; the writes of a transaction show when it commits, with its last statement. What a row may be
(`users_deleted_is_deactivated`, `users_owner_is_active_admin`) is part of a row, and that at most one
is the owner (`users_one_owner`) part of the table.

What a step can do to the table is said once (`Written`). From it: an owner, once there is one, there is
always, and so an active admin; and a deleted account stays so (`owner_and_admins_kept`). The one step that is held
to something is the removal that undoes a registration: made of the owner, it leaves none
(`deleteUser_owner`, `owner_undone`).
-/

set_option autoImplicit false

namespace Stoop.Accounts

open Stoop.Lib

/-! ## The table -/

inductive Role
  | admin | member
  deriving DecidableEq, Repr

inductive Kind
  | person | bot
  deriving DecidableEq, Repr

/-- A row of `users`, within the checks on it: whether `deactivated_at` and `deleted_at` are set. -/
structure User where
  id : Nat
  role : Role
  kind : Kind
  deactivated : Bool
  deleted : Bool
  isOwner : Bool
  deleted_is_deactivated : deleted = true → deactivated = true
  owner_is_active_admin : isOwner = true → role = .admin ∧ kind = .person ∧ deactivated = false
  deriving DecidableEq, Repr

/-- A row as a statement would write it, if the checks let it. -/
def User.row (id : Nat) (role : Role) (kind : Kind) (deactivated deleted isOwner : Bool) : Option User :=
  if h : (deleted = true → deactivated = true) ∧
      (isOwner = true → role = .admin ∧ kind = .person ∧ deactivated = false) then
    some ⟨id, role, kind, deactivated, deleted, isOwner, h.1, h.2⟩
  else none

/-- An admin that counts: a person, and active. -/
def User.isActiveAdmin (u : User) : Bool := u.role == .admin && u.kind == .person && !u.deactivated

/-- What `users_one_owner` is over: the owner. -/
def User.owning (u : User) : Option Unit := if u.isOwner then some () else none

/-- The table: no two rows own the server. -/
abbrev Users := Indexed User.id User.owning

namespace Users

def setUserRole (users : Users) (id : Nat) (role : Role) : Option Users :=
  users.update id fun u => User.row u.id role u.kind u.deactivated u.deleted u.isOwner

def setUserDeactivated (users : Users) (id : Nat) (deactivated : Bool) : Option Users :=
  users.update id fun u => User.row u.id u.role u.kind deactivated u.deleted u.isOwner

/-- `DeleteAccount`: the row stays, deleted and deactivated. -/
def deleteAccount (users : Users) (id : Nat) : Option Users :=
  users.update id fun u => if u.deleted then none else User.row u.id u.role u.kind true true u.isOwner

/-- A row that owns nothing. -/
def disown (u : User) : User := { u with isOwner := false, owner_is_active_admin := nofun }

theorem disown_id (u : User) : (disown u).id = u.id := rfl

theorem owning_disown (u : User) : (disown u).owning = none := rfl

def clearOwner (users : Users) : Users := users.unmark disown disown_id owning_disown

def setOwner (users : Users) (id : Nat) : Option Users :=
  users.update id fun u => User.row u.id u.role u.kind u.deactivated u.deleted true

/-- `CreateUser` under the bootstrap lock: the first account is an admin, and the owner. -/
def createUser (users : Users) (id : Nat) : Option Users :=
  let first := users.rows.values.isEmpty
  if users.rows.has id then none
  else (User.row id (if first then .admin else .member) .person false false first).bind users.put

def createBot (users : Users) (id : Nat) : Option Users :=
  if users.rows.has id then none else (User.row id .member .bot false false false).bind users.put

/-- `DELETE FROM users WHERE id = $1`. -/
def deleteUser (users : Users) (id : Nat) : Users := users.filter fun u => u.id != id

/-- `CountAdmins` counts people. -/
def countAdmins (users : Users) : Nat := users.rows.values.countP (·.isActiveAdmin)

end Users

/-! ## Calls -/

/-- A write that `underAdminGuard` makes. -/
inductive Guarded
  | demote | deactivate | deleteAccount
  deriving DecidableEq, Repr

def Guarded.write (users : Users) (id : Nat) : Guarded → Option Users
  | .demote => users.setUserRole id .member
  | .deactivate => users.setUserDeactivated id true
  | .deleteAccount => users.deleteAccount id

/-- The statement a call at work makes next. -/
inductive Next
  /-- a registration its policy lets -/
  | createAccount (user : Nat) (inviteRequired : Bool)
  | redeemInvite (user : Nat)
  /-- the invite that admitted the account is refused -/
  | deleteUser (user : Nat)
  /-- the writes that take no lock -/
  | setAdmin (user : Nat)
  | setActive (user : Nat)
  /-- `DeleteAccount` counts before the departure -/
  | countAdmins (user : Nat)
  /-- `underAdminGuard` -/
  | lockAdminRoster (guarded : Guarded) (user : Nat)
  | getTarget (guarded : Guarded) (user : Nat)
  | countUnderLock (guarded : Guarded) (user : Nat)
  | write (guarded : Guarded) (user : Nat)
  /-- `TransferOwnership`, from nobody where the command line asks -/
  | lockTransfer (source : Option Nat) (target : Nat)
  | getSource (source : Nat) (target : Nat)
  | getNewOwner (target : Nat)
  | handOver (target : Nat)
  deriving DecidableEq, Repr

/-- A call at work. -/
structure Call where
  id : Nat
  next : Next
  deriving DecidableEq, Repr

/-- The table, the ids its accounts were given, the call that holds the roster lock, and the calls at
work. -/
structure Server where
  users : Users
  issued : List Nat
  roster : Option Nat
  calls : Keyed Call.id

/-- A server with no account. -/
def Server.start : Server := ⟨Indexed.empty, [], none, Keyed.empty⟩

/-- One step: a call begins, with its first read; makes its next statement; or is over, answered or not.
The ids are new where they are given. -/
inductive Label
  | register (call user : Nat) (inviteRequired : Bool)
  | setAccountRole (call user : Nat) (role : Role)
  | setAccountActive (call user : Nat) (active : Bool)
  | deleteAccount (call user : Nat)
  | transferOwnership (call : Nat) (source : Option Nat) (target : Nat)
  | createBot (user : Nat)
  | proceed (call : Nat)
  | finish (call : Nat)
  deriving DecidableEq, Repr

namespace Server

/-- A call at its next statement. -/
def goOn (w : Server) (id : Nat) (next : Next) : Server := { w with calls := w.calls.set ⟨id, next⟩ }

/-- A call over: its transaction ends, and with it the lock. -/
def ended (w : Server) (id : Nat) : Server :=
  { w with calls := w.calls.filter fun c => c.id != id, roster := w.roster.filter (· != id) }

/-- A call whose last statement commits, or is refused. -/
def commit (w : Server) (id : Nat) (users : Option Users) : Server :=
  { w with users := users.getD w.users }.ended id

/-- The next statement of a call. -/
def proceed (w : Server) (id : Nat) : Next → Option Server
  | .createAccount user inviteRequired =>
    if user ∈ w.issued then none
    else match w.users.createUser user with
      | none => some (w.ended id)
      | some users =>
        let created := { w with users := users, issued := user :: w.issued }
        -- where the policy asked for no invite, a refused one is a missed join
        some (if inviteRequired then created.goOn id (.redeemInvite user) else created.ended id)
  | .redeemInvite user => some (w.goOn id (.deleteUser user))
  | .deleteUser user => some (w.commit id (some (w.users.deleteUser user)))
  | .setAdmin user => some (w.commit id (w.users.setUserRole user .admin))
  | .setActive user => some (w.commit id (w.users.setUserDeactivated user false))
  | .countAdmins user =>
    some (if w.users.countAdmins ≤ 1 then w.ended id else w.goOn id (.lockAdminRoster .deleteAccount user))
  | .lockAdminRoster guarded user =>
    if w.roster.isSome then none
    else some { w.goOn id (.getTarget guarded user) with roster := some id }
  | .getTarget guarded user =>
    some (match w.users.rows.get? user with
      | none => w.ended id
      | some u =>
        if u.isOwner then w.ended id
        else if u.role = .admin ∧ u.deactivated = false then w.goOn id (.countUnderLock guarded user)
        else w.goOn id (.write guarded user))
  | .countUnderLock guarded user =>
    some (if w.users.countAdmins ≤ 1 then w.ended id else w.goOn id (.write guarded user))
  | .write guarded user => some (w.commit id (guarded.write w.users user))
  | .lockTransfer source target =>
    if w.roster.isSome then none
    else some { w.goOn id (match source with
      | none => .getNewOwner target
      | some source => .getSource source target) with roster := some id }
  | .getSource source target =>
    some (match w.users.rows.get? source with
      | none => w.ended id
      | some u => if u.isOwner then w.goOn id (.getNewOwner target) else w.ended id)
  | .getNewOwner target =>
    some (match w.users.rows.get? target with
      | none => w.ended id
      | some u =>
        -- the owner already, or none that may be
        if u.isOwner || u.kind == .bot || u.deactivated || u.role != .admin then w.ended id
        else w.goOn id (.handOver target))
  | .handOver target => some (w.commit id (w.users.clearOwner.setOwner target))

/-- A call begun. -/
def begun (w : Server) (id : Nat) (next : Next) : Option Server :=
  if w.calls.has id then none else some (w.goOn id next)

def step (w : Server) : Label → Option Server
  | .register call user inviteRequired =>
    -- CountUsers: the first account needs no invite
    if inviteRequired && w.users.rows.values.isEmpty then none
    else w.begun call (.createAccount user inviteRequired)
  | .setAccountRole call user role =>
    match role with
    | .member => w.begun call (.lockAdminRoster .demote user)
    | .admin =>
      match w.users.rows.get? user with
      | none => some w
      | some u => if u.kind = .bot then some w else w.begun call (.setAdmin user)
  | .setAccountActive call user active =>
    if active then
      match w.users.rows.get? user with
      | none => some w
      | some u => if u.deleted then some w else w.begun call (.setActive user)
    else w.begun call (.lockAdminRoster .deactivate user)
  | .deleteAccount call user =>
    match w.users.rows.get? user with
    | none => some w
    | some u =>
      if u.isOwner || u.kind == .bot then some w
      else if u.role = .admin then w.begun call (.countAdmins user)
      else w.begun call (.lockAdminRoster .deleteAccount user)
  | .transferOwnership call source target => w.begun call (.lockTransfer source target)
  | .createBot user =>
    -- an account has to have asked
    if user ∈ w.issued ∨ w.users.rows.values.isEmpty then none
    else (w.users.createBot user).map fun users => { w with users := users, issued := user :: w.issued }
  | .proceed call => (w.calls.get? call).bind fun c => w.proceed call c.next
  | .finish call => some (w.ended call)

end Server

/-! ## What a write does -/

/-- What most writes leave of a row: whose it is, that it is the owner's, and that it is deleted. -/
structure User.Keeps (u v : User) : Prop where
  id : v.id = u.id
  owner : v.isOwner = u.isOwner
  deleted : u.deleted = true → v.deleted = true

/-- What a row written is. -/
theorem User.row_eq_some {id : Nat} {role : Role} {kind : Kind} {deactivated deleted isOwner : Bool} {u : User}
    (h : User.row id role kind deactivated deleted isOwner = some u) :
    u.id = id ∧ u.deleted = deleted ∧ u.isOwner = isOwner := by
  simp only [User.row] at h
  split at h
  · exact Option.some.inj h ▸ ⟨rfl, rfl, rfl⟩
  · cases h

theorem Users.get?_clearOwner (users : Users) (id : Nat) :
    users.clearOwner.rows.get? id = (users.rows.get? id).map Users.disown :=
  Indexed.get?_unmark _ Users.disown_id Users.owning_disown _

/-- The index: an owner is the owner. -/
theorem Users.one_owner (users : Users) {u v : User} (hu : u ∈ users.rows.values) (hv : v ∈ users.rows.values)
    (hu' : u.isOwner = true) (hv' : v.isOwner = true) : u = v :=
  users.eq_of_mark hu hv (show () ∈ u.owning by rw [User.owning, if_pos hu']; rfl)
    (show () ∈ v.owning by rw [User.owning, if_pos hv']; rfl)

/-- What a step can do to the table and the ids. -/
inductive Written (users : Users) (issued : List Nat) : Users → List Nat → Prop
  | nothing : Written users issued users issued
  /-- a new account, the owner where it is the first -/
  | inserted {u : User} {users' : Users} (fresh : u.id ∉ issued)
    (first : u.isOwner = users.rows.values.isEmpty) (rows : users'.rows = users.rows.set u) :
    Written users issued users' (u.id :: issued)
  | updated {u v : User} {users' : Users} (found : users.rows.get? u.id = some u) (keeps : u.Keeps v)
    (rows : users'.rows = users.rows.set v) : Written users issued users' issued
  /-- the owner is another -/
  | handedOver {u v : User} {users' : Users} (found : users.rows.get? u.id = some u) (id : v.id = u.id)
    (deleted : u.deleted = true → v.deleted = true) (owner : v.isOwner = true)
    (rows : users'.rows = users.clearOwner.rows.set v) : Written users issued users' issued
  /-- a registration undone -/
  | removed {id : Nat} (spares : ∀ u ∈ users.rows.get? id, u.isOwner = false) :
    Written users issued (users.deleteUser id) issued

namespace Written

variable {users users' : Users} {issued : List Nat} {id : Nat}

theorem update {f : User → Option User} (h : users.update id f = some users')
    (hf : ∀ u v, f u = some v → u.Keeps v) : Written users issued users' issued := by
  obtain ⟨u, v, hu, hv, hrows⟩ := Indexed.update_eq_some h
  exact .updated (Keyed.key_of_get? hu ▸ hu) (hf u v hv) hrows

theorem setUserRole {role : Role} (h : users.setUserRole id role = some users') :
    Written users issued users' issued :=
  update h fun _ _ hv =>
    have ⟨hid, hdeleted, howner⟩ := User.row_eq_some hv
    ⟨hid, howner, fun hu => hdeleted.trans hu⟩

theorem setUserDeactivated {deactivated : Bool} (h : users.setUserDeactivated id deactivated = some users') :
    Written users issued users' issued :=
  update h fun _ _ hv =>
    have ⟨hid, hdeleted, howner⟩ := User.row_eq_some hv
    ⟨hid, howner, fun hu => hdeleted.trans hu⟩

theorem deleteAccount (h : users.deleteAccount id = some users') : Written users issued users' issued := by
  refine update h fun u v hv => ?_
  split at hv
  · cases hv
  · obtain ⟨hid, hdeleted, howner⟩ := User.row_eq_some hv
    exact ⟨hid, howner, fun _ => hdeleted⟩

theorem guarded {guarded : Guarded} (h : guarded.write users id = some users') :
    Written users issued users' issued := by
  cases guarded with
  | demote => exact setUserRole h
  | deactivate => exact setUserDeactivated h
  | deleteAccount => exact deleteAccount h

theorem handOver (h : users.clearOwner.setOwner id = some users') : Written users issued users' issued := by
  obtain ⟨u, v, hu, hv, hrows⟩ := Indexed.update_eq_some h
  obtain ⟨hid, hdeleted, howner⟩ := User.row_eq_some hv
  change users.clearOwner.rows.get? id = some u at hu
  rw [Users.get?_clearOwner] at hu
  obtain ⟨u, hfound, rfl⟩ := Option.map_eq_some_iff.mp hu
  exact @Written.handedOver _ _ u v _ (Keyed.key_of_get? hfound ▸ hfound) hid (fun h => hdeleted.trans h)
    howner hrows

theorem createUser (fresh : id ∉ issued) (h : users.createUser id = some users') :
    Written users issued users' (id :: issued) := by
  simp only [Users.createUser] at h
  split at h
  · cases h
  · obtain ⟨u, hu, hput⟩ := Option.bind_eq_some_iff.mp h
    obtain ⟨hid, _, howner⟩ := User.row_eq_some hu
    subst hid
    exact .inserted fresh howner (Indexed.put_eq_some hput)

theorem createBot (fresh : id ∉ issued) (hsome : ¬ users.rows.values.isEmpty = true)
    (h : users.createBot id = some users') : Written users issued users' (id :: issued) := by
  simp only [Users.createBot] at h
  split at h
  · cases h
  · obtain ⟨u, hu, hput⟩ := Option.bind_eq_some_iff.mp h
    obtain ⟨hid, _, howner⟩ := User.row_eq_some hu
    subst hid
    exact .inserted fresh (howner.trans (Bool.eq_false_iff.mpr hsome).symm) (Indexed.put_eq_some hput)

end Written

/-! ## What a step does -/

/-- The account a statement would remove. -/
def Next.removes : Next → Option Nat
  | .deleteUser user => some user
  | _ => none

/-- A registration undone is not the owner's. -/
def UndoClear (w : Server) : Label → Prop
  | .proceed call => ∀ c ∈ w.calls.get? call, ∀ user ∈ c.next.removes,
      ∀ u ∈ w.users.rows.get? user, u.isOwner = false
  | _ => True

instance (w : Server) : (a : Label) → Decidable (UndoClear w a)
  | .proceed call => inferInstanceAs (Decidable (∀ c, c ∈ w.calls.get? call → ∀ user, user ∈ _ → _))
  | .register _ _ _ | .setAccountRole _ _ _ | .setAccountActive _ _ _ | .deleteAccount _ _
  | .transferOwnership _ _ _ | .createBot _ | .finish _ => inferInstanceAs (Decidable True)

/-- A step that writes, if it writes, one thing. -/
def Server.Writes (w w' : Server) : Prop := Written w.users w.issued w'.users w'.issued

namespace Server.Writes

variable {w w' : Server} {id : Nat}

/-- A call's last statement: what it writes, or nothing. -/
theorem commit {users : Option Users}
    (h : ∀ users' ∈ users, Written w.users w.issued users' w.issued) : w.Writes (w.commit id users) := by
  cases users with
  | none => exact .nothing
  | some users => exact h users rfl

theorem begun {next : Next} (h : w.begun id next = some w') : w.Writes w' := by
  simp only [Server.begun] at h
  split at h
  · cases h
  · exact Option.some.inj h ▸ .nothing

theorem proceed {next : Next}
    (clear : ∀ user ∈ next.removes, ∀ u ∈ w.users.rows.get? user, u.isOwner = false)
    (h : w.proceed id next = some w') : w.Writes w' := by
  cases next with
  | createAccount user inviteRequired =>
    simp only [Server.proceed] at h
    split at h
    · cases h
    · next hfresh =>
      split at h
      · exact Option.some.inj h ▸ .nothing
      · next users hcreated =>
        have hwritten := Written.createUser hfresh hcreated
        cases inviteRequired with
        | true => exact Option.some.inj h ▸ hwritten
        | false => exact Option.some.inj h ▸ hwritten
  | redeemInvite user => exact Option.some.inj h ▸ .nothing
  | deleteUser user =>
    rw [← Option.some.inj h]
    exact commit fun _ hdeleted => Option.some.inj hdeleted ▸ .removed (clear user rfl)
  | setAdmin user =>
    rw [← Option.some.inj h]
    exact commit fun _ => Written.setUserRole
  | setActive user =>
    rw [← Option.some.inj h]
    exact commit fun _ => Written.setUserDeactivated
  | countAdmins user =>
    rw [← Option.some.inj h]
    split <;> exact .nothing
  | lockAdminRoster guarded user | lockTransfer source target =>
    simp only [Server.proceed] at h
    split at h
    · cases h
    · exact Option.some.inj h ▸ .nothing
  | getTarget guarded user =>
    rw [← Option.some.inj h]
    split
    · exact .nothing
    · split
      · exact .nothing
      · split <;> exact .nothing
  | countUnderLock guarded user =>
    rw [← Option.some.inj h]
    split <;> exact .nothing
  | write guarded user =>
    rw [← Option.some.inj h]
    exact commit fun _ => Written.guarded
  | getSource source target | getNewOwner target =>
    rw [← Option.some.inj h]
    split
    · exact .nothing
    · split <;> exact .nothing
  | handOver target =>
    rw [← Option.some.inj h]
    exact commit fun _ => Written.handOver

/-- **What a step can do.** -/
theorem step {a : Label} (clear : UndoClear w a) (h : w.step a = some w') : w.Writes w' := by
  cases a with
  | register call user inviteRequired =>
    simp only [Server.step] at h
    split at h
    · cases h
    · exact begun h
  | setAccountRole call user role =>
    cases role with
    | member => exact begun h
    | admin =>
      simp only [Server.step] at h
      split at h
      · exact Option.some.inj h ▸ .nothing
      · split at h
        · exact Option.some.inj h ▸ .nothing
        · exact begun h
  | setAccountActive call user active =>
    cases active with
    | false => exact begun h
    | true =>
      simp only [Server.step, if_true] at h
      split at h
      · exact Option.some.inj h ▸ .nothing
      · split at h
        · exact Option.some.inj h ▸ .nothing
        · exact begun h
  | deleteAccount call user =>
    simp only [Server.step] at h
    split at h
    · exact Option.some.inj h ▸ .nothing
    · split at h
      · exact Option.some.inj h ▸ .nothing
      · split at h
        · exact begun h
        · exact begun h
  | transferOwnership call source target => exact begun h
  | createBot user =>
    simp only [Server.step] at h
    split at h
    · cases h
    · next hallowed =>
      rw [not_or] at hallowed
      obtain ⟨users, hcreated, rfl⟩ := Option.map_eq_some_iff.mp h
      exact Written.createBot hallowed.1 hallowed.2 hcreated
  | proceed call =>
    obtain ⟨c, hc, hproceed⟩ := Option.bind_eq_some_iff.mp h
    exact proceed (clear c hc) hproceed
  | finish call => exact Option.some.inj h ▸ .nothing

end Server.Writes

/-! ## What stays -/

/-- The table has an owner. -/
def Users.Owned (users : Users) : Prop := ∃ u ∈ users.rows.values, u.isOwner = true

/-- Every account was given its id, and once one was, some account is the owner. -/
structure Governed (users : Users) (issued : List Nat) : Prop where
  known : ∀ u ∈ users.rows.values, u.id ∈ issued
  owned : issued ≠ [] → users.Owned

/-- The account of an id is deleted, where it is there still. -/
def StaysDeleted (id : Nat) (users : Users) (issued : List Nat) : Prop :=
  id ∈ issued ∧ ∀ u ∈ users.rows.values, u.id = id → u.deleted = true

namespace Written

variable {users users' : Users} {issued issued' : List Nat} {id : Nat}

/-- **An owner there is always.** -/
theorem governed (inv : Governed users issued) (h : Written users issued users' issued') :
    Governed users' issued' := by
  cases h with
  | nothing => exact inv
  | @inserted u users' fresh first rows =>
    have hself : u ∈ users'.rows.values := by
      rw [Keyed.mem_values, rows]
      exact Keyed.get?_set_self _ _
    refine ⟨fun v hv => ?_, fun _ => ?_⟩
    · rw [Keyed.mem_values, rows] at hv
      rcases Keyed.get?_set_cases hv with ⟨_, rfl⟩ | ⟨_, hold⟩
      · exact List.mem_cons_self
      · exact List.mem_cons_of_mem _ (inv.known v (Keyed.mem_values.mpr hold))
    · cases hempty : users.rows.values.isEmpty with
      | true => exact ⟨u, hself, first.trans hempty⟩
      | false =>
        obtain ⟨v, hv⟩ := List.isEmpty_eq_false_iff_exists_mem.mp hempty
        obtain ⟨o, ho, howner⟩ := inv.owned (List.ne_nil_of_mem (inv.known v hv))
        have hne : u.id ≠ o.id := fun heq => fresh (heq ▸ inv.known o ho)
        refine ⟨o, ?_, howner⟩
        rw [Keyed.mem_values, rows, Keyed.get?_set, if_neg hne]
        exact Keyed.mem_values.mp ho
  | @updated u v users' found keeps rows =>
    have hu : u ∈ users.rows.values := Keyed.mem_values.mpr found
    refine ⟨fun x hx => ?_, fun hissued => ?_⟩
    · rw [Keyed.mem_values, rows] at hx
      rcases Keyed.get?_set_cases hx with ⟨_, rfl⟩ | ⟨_, hold⟩
      · exact keeps.id ▸ inv.known u hu
      · exact inv.known x (Keyed.mem_values.mpr hold)
    · obtain ⟨o, ho, howner⟩ := inv.owned hissued
      by_cases hsame : v.id = o.id
      · -- the owner's own row is written, and stays the owner's
        have huo : u = o := by
          rw [Keyed.mem_values, ← hsame, keeps.id, found] at ho
          exact Option.some.inj ho
        refine ⟨v, ?_, by rw [keeps.owner, huo, howner]⟩
        rw [Keyed.mem_values, rows]
        exact Keyed.get?_set_self _ _
      · refine ⟨o, ?_, howner⟩
        rw [Keyed.mem_values, rows, Keyed.get?_set, if_neg hsame]
        exact Keyed.mem_values.mp ho
  | @handedOver u v users' found hid _ howner rows =>
    refine ⟨fun x hx => ?_, fun _ => ⟨v, ?_, howner⟩⟩
    · rw [Keyed.mem_values, rows] at hx
      rcases Keyed.get?_set_cases hx with ⟨_, rfl⟩ | ⟨_, hold⟩
      · exact hid ▸ inv.known u (Keyed.mem_values.mpr found)
      · rw [Users.get?_clearOwner] at hold
        obtain ⟨y, hy, rfl⟩ := Option.map_eq_some_iff.mp hold
        exact inv.known y (Keyed.mem_values.mpr hy)
    · rw [Keyed.mem_values, rows]
      exact Keyed.get?_set_self _ _
  | @removed id spares =>
    refine ⟨fun u hu => inv.known u (List.mem_of_mem_filter hu), fun hissued => ?_⟩
    obtain ⟨o, ho, howner⟩ := inv.owned hissued
    refine ⟨o, List.mem_filter.mpr ⟨ho, bne_iff_ne.mpr fun heq => ?_⟩, howner⟩
    rw [Keyed.mem_values, heq] at ho
    rw [spares o ho] at howner
    cases howner

/-- **A deleted account stays deleted.** -/
theorem staysDeleted (gone : StaysDeleted id users issued) (h : Written users issued users' issued') :
    StaysDeleted id users' issued' := by
  obtain ⟨hissued, hdeleted⟩ := gone
  cases h with
  | nothing => exact ⟨hissued, hdeleted⟩
  | @inserted u users' fresh _ rows =>
    refine ⟨List.mem_cons_of_mem _ hissued, fun v hv heq => ?_⟩
    rw [Keyed.mem_values, rows] at hv
    rcases Keyed.get?_set_cases hv with ⟨_, rfl⟩ | ⟨_, hold⟩
    · exact absurd (heq ▸ hissued) fresh
    · exact hdeleted v (Keyed.mem_values.mpr hold) heq
  | @updated u v users' found keeps rows =>
    refine ⟨hissued, fun x hx heq => ?_⟩
    rw [Keyed.mem_values, rows] at hx
    rcases Keyed.get?_set_cases hx with ⟨_, rfl⟩ | ⟨_, hold⟩
    · exact keeps.deleted (hdeleted u (Keyed.mem_values.mpr found) (keeps.id.symm.trans heq))
    · exact hdeleted x (Keyed.mem_values.mpr hold) heq
  | @handedOver u v users' found hid hkeeps _ rows =>
    refine ⟨hissued, fun x hx heq => ?_⟩
    rw [Keyed.mem_values, rows] at hx
    rcases Keyed.get?_set_cases hx with ⟨_, rfl⟩ | ⟨_, hold⟩
    · exact hkeeps (hdeleted u (Keyed.mem_values.mpr found) (hid.symm.trans heq))
    · rw [Users.get?_clearOwner] at hold
      obtain ⟨y, hy, rfl⟩ := Option.map_eq_some_iff.mp hold
      exact hdeleted y (Keyed.mem_values.mpr hy) heq
  | removed _ => exact ⟨hissued, fun v hv => hdeleted v (List.mem_of_mem_filter hv)⟩

end Written

/-- An active person is an admin, and one account is the owner, an active admin. -/
structure Administered (users : Users) : Prop where
  admin : ∃ u ∈ users.rows.values, u.isActiveAdmin = true
  owner : ∃ u ∈ users.rows.values, u.isActiveAdmin = true ∧
    ∀ v ∈ users.rows.values, v.isOwner = true ↔ v = u

theorem Users.Owned.administered {users : Users} (h : users.Owned) : Administered users := by
  obtain ⟨u, hu, howner⟩ := h
  obtain ⟨hrole, hkind, hactive⟩ := u.owner_is_active_admin howner
  have hadmin : u.isActiveAdmin = true := by simp [User.isActiveAdmin, hrole, hkind, hactive]
  refine ⟨⟨u, hu, hadmin⟩, ⟨u, hu, hadmin, fun v hv => ⟨fun hv' => ?_, fun heq => heq ▸ howner⟩⟩⟩
  exact users.one_owner hv hu hv' howner

/-! ## Runs -/

variable {w w' : Server}

theorem Governed.runs (inv : Governed w.users w.issued) (run : Runs Server.step UndoClear w w') :
    Governed w'.users w'.issued := by
  induction run with
  | refl => exact inv
  | @tail t u _ _ clear hstep ih =>
    have hwritten : Written t.users t.issued u.users u.issued := Server.Writes.step clear hstep
    exact hwritten.governed ih

theorem StaysDeleted.runs {id : Nat} (gone : StaysDeleted id w.users w.issued)
    (run : Runs Server.step UndoClear w w') : StaysDeleted id w'.users w'.issued := by
  induction run with
  | refl => exact gone
  | @tail t u _ _ clear hstep ih =>
    have hwritten : Written t.users t.issued u.users u.issued := Server.Writes.step clear hstep
    exact hwritten.staysDeleted ih

/-- **Once there is an account, there is an active admin, and one owner who is one; and an account once
deleted is active never again**, where no registration undone is the owner's. -/
theorem owner_and_admins_kept (run : Runs Server.step UndoClear Server.start w) :
    (w.issued ≠ [] → Administered w.users) ∧
      ∀ u ∈ w.users.rows.values, u.deleted = true → ∀ w', Runs Server.step UndoClear w w' →
        ∀ v ∈ w'.users.rows.values, v.id = u.id → v.deactivated = true := by
  have inv : Governed w.users w.issued :=
    Governed.runs ⟨fun _ h => absurd h List.not_mem_nil, fun h => absurd rfl h⟩ run
  refine ⟨fun hissued => (inv.owned hissued).administered, fun u hu hdeleted w' later v hv hid => ?_⟩
  have gone : StaysDeleted u.id w.users w.issued := by
    refine ⟨inv.known u hu, fun x hx heq => ?_⟩
    rw [List.inj_on_of_nodup_map w.users.rows.nodup hx hu heq]
    exact hdeleted
  exact v.deleted_is_deactivated ((gone.runs later).2 v hv hid)

/-- A registration undone that is the owner's leaves none. -/
theorem deleteUser_owner {users : Users} {u : User} (h : users.rows.get? u.id = some u)
    (howner : u.isOwner = true) : ¬ (users.deleteUser u.id).Owned := by
  rintro ⟨v, hv, hv'⟩
  obtain ⟨hmem, hne⟩ := List.mem_filter.mp hv
  exact bne_iff_ne.mp hne (congrArg User.id (users.one_owner hmem (Keyed.mem_values.mpr h) hv' howner))

/-! ## A registration that is undone -/

/-- The server after a run. -/
def after (labels : List Label) : Server := (runList Server.step Server.start labels).getD Server.start

/-- Ada's server. Bea is asked back as she deletes her account, and Cal's invite is refused as he is made
an admin. -/
def beaDeletes : List Label :=
  [.register 1 101 false, .proceed 1, .register 2 102 false, .proceed 2, .setAccountActive 3 102 true,
    .deleteAccount 4 102, .proceed 4, .proceed 4, .proceed 4]

def askedBack : List Label :=
  [.proceed 3, .register 5 103 true, .proceed 5, .setAccountRole 6 103 .admin, .proceed 5, .proceed 6,
    .proceed 5]

/-- Bea stays deleted, and Ada the owner. -/
theorem asked_back_late :
    ((after (beaDeletes ++ askedBack)).users.rows.values.map fun u => (u.id, u.isOwner, u.deactivated)) =
        [(101, true, false), (102, false, true)] ∧
      Administered (after (beaDeletes ++ askedBack)).users ∧
      ∀ u ∈ (after beaDeletes).users.rows.values, u.deleted = true →
        ∀ v ∈ (after (beaDeletes ++ askedBack)).users.rows.values, v.id = u.id → v.deactivated = true :=
  ⟨by decide,
    (owner_and_admins_kept (Runs.ofList (beaDeletes ++ askedBack) (by decide) rfl)).1 (by decide),
    fun u hu hdeleted => (owner_and_admins_kept (Runs.ofList beaDeletes (by decide) rfl)).2 u hu hdeleted _
      (Runs.ofList askedBack (by decide) rfl)⟩

/-- Bea comes with an invite, Ada makes her an admin and hands ownership on, and the invite is refused. -/
def handedToBea : List Label :=
  [.register 1 101 false, .proceed 1, .register 2 102 true, .proceed 2, .setAccountRole 3 102 .admin,
    .proceed 3, .transferOwnership 4 (some 101) 102, .proceed 4, .proceed 4, .proceed 4, .proceed 4,
    .proceed 2, .proceed 2]

/-- **The owner's registration undone**: the server has no owner. -/
theorem owner_undone :
    ¬ ∀ w : Server, Runs Server.step Always Server.start w → w.issued ≠ [] → Administered w.users := by
  intro claim
  obtain ⟨u, hu, _, howner⟩ := (claim (after handedToBea)
    (Runs.ofList handedToBea (EachStep.always _ _) rfl) (by decide)).owner
  have hnone : ∀ v ∈ (after handedToBea).users.rows.values, v.isOwner = false := by decide
  have howned : u.isOwner = true := (howner u hu).mpr rfl
  rw [hnone u hu] at howned
  cases howned

end Stoop.Accounts
