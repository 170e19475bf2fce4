import Mathlib.Data.List.Count
import Stoop.Lib.Machine
import Stoop.Lib.Keyed

/-!
# Joining through an invite

The invites to spaces (`internal/chat/invites.go`) and the calls that join through them, statement by
statement. A join's transaction takes a use (`ConsumeInvite`), makes the membership (`JoinSpaceMember`)
and records the use; what it wrote is its own until it commits, the row version of the invite included,
and whoever would write the same row or insert the same membership waits for it to end.

So a row version is written over the row it was made of, one use on (`Tallied.writes`), which is all the
count rests on: `uses_as_allowed`. That a join begun once the invite is revoked or past its expiry makes
nothing is a law of its own (`Late`), from the guard and the time a transaction takes for now.
-/

set_option autoImplicit false

namespace Stoop.Spaces

open Stoop.Lib

/-! ## Invites -/

/-- A row of `invites`, under its code, which is unique and not written again. -/
structure Invite where
  code : String
  space : Nat
  expiresAt : Option Nat
  maxUses : Option Nat
  useCount : Nat
  revokedAt : Option Nat
  deriving DecidableEq, Repr

def Invite.expired (i : Invite) (now : Nat) : Bool := i.expiresAt.any (· ≤ now)

def Invite.spent (i : Invite) : Bool := i.maxUses.any (· ≤ i.useCount)

/-- The guard of `ConsumeInvite`. -/
def Invite.usable (i : Invite) (now : Nat) : Bool := i.revokedAt.isNone && !i.expired now && !i.spent

/-- The row `ConsumeInvite` writes. -/
def Invite.used (i : Invite) : Invite := { i with useCount := i.useCount + 1 }

inductive Rejection
  | revoked | expired | spent | unusable
  deriving DecidableEq, Repr

/-- Why the guard refused, in the order a user would expect to hear about it. -/
def inviteRejection (i : Invite) (now : Nat) : Rejection :=
  if i.revokedAt.isSome then .revoked
  else if i.expired now then .expired
  else if i.spent then .spent
  else .unusable

/-- A row of `invite_uses`, of the call that recorded it. -/
structure InviteUse where
  call : Nat
  code : String
  user : Nat
  deriving DecidableEq, Repr

/-- A membership made through an invite, whatever becomes of it. -/
structure Admission where
  call : Nat
  code : String
  space : Nat
  user : Nat
  deriving DecidableEq, Repr

def Admission.use (m : Admission) : InviteUse := ⟨m.call, m.code, m.user⟩

/-! ## Joins -/

/-- How far a `joinWithCode` has come. -/
inductive JoinPhase
  /-- the invite is found; `IsSpaceMember` is next -/
  | found
  /-- not a member, and the transaction is next -/
  | cleared
  /-- in a transaction that takes this time for now -/
  | begun (now : Nat)
  /-- the guard matched nothing; the invite is read again -/
  | refused
  /-- the row version written, not committed -/
  | consumed (row : Invite)
  /-- and the membership -/
  | inserted (row : Invite)
  /-- and the use -/
  | recorded (row : Invite)
  deriving DecidableEq, Repr

def JoinPhase.inTransaction : JoinPhase → Bool
  | .found | .cleared => false
  | _ => true

/-- The row version of the invite a join has written. -/
def JoinPhase.row? : JoinPhase → Option Invite
  | .consumed row | .inserted row | .recorded row => some row
  | _ => none

/-- Whether a join has inserted its membership. -/
def JoinPhase.isInserted : JoinPhase → Bool
  | .inserted _ | .recorded _ => true
  | _ => false

/-- A `joinWithCode` at work: the person, the code, and the space it is to. -/
structure Join where
  id : Nat
  user : Nat
  code : String
  space : Nat
  phase : JoinPhase
  deriving DecidableEq, Repr

def Join.admission (j : Join) : Admission := ⟨j.id, j.code, j.space, j.user⟩

inductive JoinAnswer
  | joined | alreadyMember | rejected (reason : Rejection) | notFound | failed
  deriving DecidableEq, Repr

structure Answered where
  call : Nat
  answer : JoinAnswer
  deriving DecidableEq, Repr

/-- What is committed, with the joins at work; and, which no step reads, the memberships made and how
each call was answered. Calls are numbered as they come. -/
structure Ledger where
  invites : Keyed Invite.code
  members : List (Nat × Nat)
  uses : List InviteUse
  joins : Keyed Join.id
  clock : Nat
  arrived : Nat
  made : List Admission
  answered : Keyed Answered.call

/-- Nothing there. -/
def Ledger.start : Ledger := ⟨Keyed.empty, [], [], Keyed.empty, 0, 0, [], Keyed.empty⟩

/-- One step: a statement of another call, which is over with it; or the next of a join. -/
inductive JoinLabel
  | createInvite (code : String) (space : Nat) (expiresAt maxUses : Option Nat)
  | revokeInvite (code : String)
  | addMember (space user : Nat)
  | removeMember (space user : Nat)
  | tick
  | joinWithCode (user : Nat) (code : String)
  | proceed (id : Nat)
  /-- a person banned, a statement failed or a connection lost: the transaction is rolled back -/
  | fail (id : Nat)
  deriving DecidableEq, Repr

namespace Ledger

/-- A join at its next phase. -/
def advance (w : Ledger) (j : Join) (phase : JoinPhase) : Ledger :=
  { w with joins := w.joins.set { j with phase := phase } }

/-- A join over, and what it wrote with it. -/
def answer (w : Ledger) (j : Join) (answer : JoinAnswer) : Ledger :=
  { w with joins := w.joins.filter fun k => k.id != j.id, answered := w.answered.set ⟨j.id, answer⟩ }

/-- What a join wrote, committed. -/
def commit (w : Ledger) (j : Join) (row : Invite) : Ledger :=
  { w.answer j .joined with
    invites := w.invites.set row
    members := w.members ++ [(j.space, j.user)]
    uses := w.uses ++ [j.admission.use]
    made := w.made ++ [j.admission] }

/-- Whether a join at work has written an invite's row. -/
def holdsInvite (w : Ledger) (code : String) : Bool :=
  w.joins.values.any fun j => j.phase.row?.isSome && j.code == code

/-- Whether a join at work has inserted a membership. -/
def holdsMember (w : Ledger) (space user : Nat) : Bool :=
  w.joins.values.any fun j => j.phase.isInserted && (j.space, j.user) == (space, user)

/-- The next statement of a join. -/
def proceed (w : Ledger) (j : Join) : Option Ledger :=
  match j.phase with
  | .found =>
    -- existing members don't burn a use
    some (if (j.space, j.user) ∈ w.members then w.answer j .alreadyMember else w.advance j .cleared)
  | .cleared => some (w.advance j (.begun w.clock))
  | .begun now =>
    if w.holdsInvite j.code then none
    else match w.invites.get? j.code with
      | none => some (w.advance j .refused)
      | some i => some (w.advance j (if i.usable now then .consumed i.used else .refused))
  | .refused =>
    match w.invites.get? j.code with
    | none => some (w.answer j .notFound)
    | some i => some (w.answer j (.rejected (inviteRejection i w.clock)))
  | .consumed row =>
    if w.holdsMember j.space j.user then none
    -- errAlreadyMember backs the transaction out
    else if (j.space, j.user) ∈ w.members then some (w.answer j .alreadyMember)
    else some (w.advance j (.inserted row))
  | .inserted row => some (w.advance j (.recorded row))
  | .recorded row => some (w.commit j row)

def step (w : Ledger) : JoinLabel → Option Ledger
  | .createInvite code space expiresAt maxUses =>
    -- a code drawn twice is drawn again
    if maxUses = some 0 ∨ w.invites.has code then none
    else some { w with invites := w.invites.set ⟨code, space, expiresAt, maxUses, 0, none⟩ }
  | .revokeInvite code =>
    if w.holdsInvite code then none
    else (w.invites.get? code).map fun i =>
      { w with invites := w.invites.set { i with revokedAt := some (i.revokedAt.getD w.clock) } }
  | .addMember space user =>
    if w.holdsMember space user then none
    else if (space, user) ∈ w.members then some w
    else some { w with members := w.members ++ [(space, user)] }
  | .removeMember space user => some { w with members := w.members.filter (· != (space, user)) }
  | .tick => some { w with clock := w.clock + 1 }
  | .joinWithCode user code =>
    let w := { w with arrived := w.arrived + 1 }
    match w.invites.get? code with
    | none => some { w with answered := w.answered.set ⟨w.arrived - 1, .notFound⟩ }
    | some i => some { w with joins := w.joins.set ⟨w.arrived - 1, user, code, i.space, .found⟩ }
  | .proceed id => (w.joins.get? id).bind fun j => w.proceed j
  | .fail id => (w.joins.get? id).map fun j => w.answer j .failed

end Ledger

/-! ## What is counted -/

/-- The row version a join writes over an invite's: a use on, and one that was free. -/
def Writes (invites : Keyed Invite.code) (code : String) (row : Invite) : Prop :=
  ∃ i, invites.get? code = some i ∧ row = i.used ∧ ∀ m ∈ i.maxUses, i.useCount < m

/-- The committed rows: an invite counts its uses, no more than it allows, and each is a membership
made. -/
structure Booked (invites : Keyed Invite.code) (uses : List InviteUse) (made : List Admission) : Prop where
  uses_made : uses = made.map Admission.use
  count : ∀ i ∈ invites.values, i.useCount = uses.countP (·.code == i.code)
  most : ∀ i ∈ invites.values, ∀ m ∈ i.maxUses, i.useCount ≤ m
  known : ∀ u ∈ uses, invites.has u.code = true

/-- What joins hold: one an invite's row, written over the committed one, and one a membership that is not
there. -/
structure Held (invites : Keyed Invite.code) (members : List (Nat × Nat)) (joins : Keyed Join.id) : Prop where
  writes : ∀ j ∈ joins.values, ∀ row ∈ j.phase.row?, Writes invites j.code row
  alone : ∀ j ∈ joins.values, ∀ k ∈ joins.values, j.phase.row?.isSome = true → k.phase.row?.isSome = true →
    j.code = k.code → j.id = k.id
  absent : ∀ j ∈ joins.values, j.phase.isInserted = true → (j.space, j.user) ∉ members
  inserts : ∀ j ∈ joins.values, ∀ k ∈ joins.values, j.phase.isInserted = true → k.phase.isInserted = true →
    (j.space, j.user) = (k.space, k.user) → j.id = k.id

/-- An inserted membership is under a row written. -/
theorem JoinPhase.isSome_of_inserted {phase : JoinPhase} (h : phase.isInserted = true) :
    phase.row?.isSome = true := by
  cases phase with
  | inserted | recorded => rfl
  | found | cleared | begun | refused | consumed => cases h

theorem usable_spec {i : Invite} {now : Nat} (h : i.usable now = true) :
    i.revokedAt = none ∧ i.expired now = false ∧ ∀ m ∈ i.maxUses, i.useCount < m := by
  simp only [Invite.usable, Bool.and_eq_true, Option.isNone_iff_eq_none, Bool.not_eq_true'] at h
  obtain ⟨⟨hrevoked, hexpired⟩, hspent⟩ := h
  refine ⟨hrevoked, hexpired, fun m hm => ?_⟩
  rw [Option.mem_def] at hm
  simpa [Invite.spent, hm] using hspent

theorem holdsInvite_false {w : Ledger} {code : String} (h : ¬ w.holdsInvite code = true) {j : Join}
    (hj : j ∈ w.joins.values) (hrow : j.phase.row?.isSome = true) : j.code ≠ code := by
  rintro rfl
  exact h (List.any_eq_true.mpr ⟨j, hj, by rw [hrow, beq_self_eq_true]; rfl⟩)

theorem holdsMember_false {w : Ledger} {space user : Nat} (h : ¬ w.holdsMember space user = true) {j : Join}
    (hj : j ∈ w.joins.values) (hinserted : j.phase.isInserted = true) : (j.space, j.user) ≠ (space, user) := by
  intro heq
  exact h (List.any_eq_true.mpr ⟨j, hj, by rw [hinserted, heq, beq_self_eq_true]; rfl⟩)

namespace Booked

variable {invites : Keyed Invite.code} {uses : List InviteUse} {made : List Admission}

/-- A row put in its place that counts its uses. -/
theorem setInvite (booked : Booked invites uses made) {row : Invite}
    (hcount : row.useCount = uses.countP (·.code == row.code)) (hmost : ∀ m ∈ row.maxUses, row.useCount ≤ m) :
    Booked (invites.set row) uses made where
  uses_made := booked.uses_made
  count i hi := by
    rcases Keyed.get?_set_cases (Keyed.mem_values.mp hi) with ⟨_, rfl⟩ | ⟨_, hold⟩
    · exact hcount
    · exact booked.count i (Keyed.mem_values.mpr hold)
  most i hi := by
    rcases Keyed.get?_set_cases (Keyed.mem_values.mp hi) with ⟨_, rfl⟩ | ⟨_, hold⟩
    · exact hmost
    · exact booked.most i (Keyed.mem_values.mpr hold)
  known u hu := by
    obtain ⟨i, hi⟩ := Keyed.has_eq_true.mp (booked.known u hu)
    rw [Keyed.has_eq_true]
    by_cases hcode : row.code = u.code
    · exact ⟨row, by rw [Keyed.get?_set, if_pos hcode]⟩
    · exact ⟨i, by rw [Keyed.get?_set, if_neg hcode, hi]⟩

/-- **A use committed**: one more on the row, and one more recorded. -/
theorem commit (booked : Booked invites uses made) {m : Admission} {row : Invite}
    (hrow : Writes invites m.code row) : Booked (invites.set row) (uses ++ [m.use]) (made ++ [m]) := by
  obtain ⟨i, hi, rfl, hfree⟩ := hrow
  have hcode : i.code = m.code := Keyed.key_of_get? hi
  have hmem : i ∈ invites.values := Keyed.mem_values.mpr (hcode ▸ hi)
  refine ⟨?_, fun k hk => ?_, fun k hk => ?_, fun u hu => ?_⟩
  · rw [booked.uses_made, List.map_append, List.map_singleton]
  · rw [List.countP_append, List.countP_singleton]
    rcases Keyed.get?_set_cases (Keyed.mem_values.mp hk) with ⟨_, rfl⟩ | ⟨hne, hold⟩
    · have hsame : (m.use.code == i.used.code) = true := beq_iff_eq.mpr hcode.symm
      rw [if_pos hsame]
      exact congrArg (· + 1) (booked.count i hmem)
    · have hother : ¬ (m.use.code == k.code) = true := fun heq =>
        hne (hcode.trans (beq_iff_eq.mp heq))
      rw [if_neg hother, Nat.add_zero]
      exact booked.count k (Keyed.mem_values.mpr hold)
  · rcases Keyed.get?_set_cases (Keyed.mem_values.mp hk) with ⟨_, rfl⟩ | ⟨_, hold⟩
    · exact hfree
    · exact booked.most k (Keyed.mem_values.mpr hold)
  · rw [Keyed.has_eq_true]
    by_cases hsame : i.used.code = u.code
    · exact ⟨i.used, by rw [Keyed.get?_set, if_pos hsame]⟩
    · rcases List.mem_append.mp hu with hold | hnew
      · obtain ⟨k, hk⟩ := Keyed.has_eq_true.mp (booked.known u hold)
        exact ⟨k, by rw [Keyed.get?_set, if_neg hsame, hk]⟩
      · rw [List.mem_singleton.mp hnew] at hsame
        exact absurd hcode hsame

end Booked

namespace Held

variable {invites : Keyed Invite.code} {members : List (Nat × Nat)} {joins joins' : Keyed Join.id}

theorem fewer (held : Held invites members joins) (h : ∀ j ∈ joins'.values, j ∈ joins.values) :
    Held invites members joins' where
  writes j hj := held.writes j (h j hj)
  alone j hj k hk := held.alone j (h j hj) k (h k hk)
  absent j hj := held.absent j (h j hj)
  inserts j hj k hk := held.inserts j (h j hj) k (h k hk)

/-- A row put in its place that no join holds. -/
theorem setInvite (held : Held invites members joins) {row : Invite}
    (h : ∀ j ∈ joins.values, j.phase.row?.isSome = true → j.code ≠ row.code) :
    Held (invites.set row) members joins where
  writes j hj written hwritten := by
    obtain ⟨i, hi, hrest⟩ := held.writes j hj written hwritten
    have hne : row.code ≠ j.code := Ne.symm (h j hj (Option.isSome_of_mem hwritten))
    exact ⟨i, by rw [Keyed.get?_set, if_neg hne, hi], hrest⟩
  alone := held.alone
  absent := held.absent
  inserts := held.inserts

/-- A membership made that no join holds. -/
theorem addMember (held : Held invites members joins) {space user : Nat}
    (h : ∀ j ∈ joins.values, j.phase.isInserted = true → (j.space, j.user) ≠ (space, user)) :
    Held invites (members ++ [(space, user)]) joins where
  writes := held.writes
  alone := held.alone
  absent j hj hinserted hmem := by
    rcases List.mem_append.mp hmem with hold | hnew
    · exact held.absent j hj hinserted hold
    · exact h j hj hinserted (List.mem_singleton.mp hnew)
  inserts := held.inserts

theorem removeMember (held : Held invites members joins) (p : Nat × Nat → Bool) :
    Held invites (members.filter p) joins where
  writes := held.writes
  alone := held.alone
  absent j hj hinserted hmem := held.absent j hj hinserted (List.mem_of_mem_filter hmem)
  inserts := held.inserts

/-- A join put in its place: what it holds, no other does. -/
theorem setJoin (held : Held invites members joins) {j : Join}
    (hrow : ∀ row ∈ j.phase.row?, Writes invites j.code row ∧
      ∀ k ∈ joins.values, k.phase.row?.isSome = true → k.code = j.code → k.id = j.id)
    (hinserted : j.phase.isInserted = true → (j.space, j.user) ∉ members ∧
      ∀ k ∈ joins.values, k.phase.isInserted = true → (k.space, k.user) = (j.space, j.user) → k.id = j.id) :
    Held invites members (joins.set j) where
  writes k hk row hk' := by
    rcases Keyed.get?_set_cases (Keyed.mem_values.mp hk) with ⟨_, rfl⟩ | ⟨_, hold⟩
    · exact (hrow row hk').1
    · exact held.writes k (Keyed.mem_values.mpr hold) row hk'
  alone k hk l hl hk' hl' hcode := by
    rcases Keyed.get?_set_cases (Keyed.mem_values.mp hk) with ⟨_, rfl⟩ | ⟨_, hold⟩
    · rcases Keyed.get?_set_cases (Keyed.mem_values.mp hl) with ⟨_, rfl⟩ | ⟨_, hold'⟩
      · rfl
      · obtain ⟨row, hwritten⟩ := Option.isSome_iff_exists.mp hk'
        exact ((hrow row hwritten).2 l (Keyed.mem_values.mpr hold') hl' hcode.symm).symm
    · rcases Keyed.get?_set_cases (Keyed.mem_values.mp hl) with ⟨_, rfl⟩ | ⟨_, hold'⟩
      · obtain ⟨row, hwritten⟩ := Option.isSome_iff_exists.mp hl'
        exact (hrow row hwritten).2 k (Keyed.mem_values.mpr hold) hk' hcode
      · exact held.alone k (Keyed.mem_values.mpr hold) l (Keyed.mem_values.mpr hold') hk' hl' hcode
  absent k hk hk' := by
    rcases Keyed.get?_set_cases (Keyed.mem_values.mp hk) with ⟨_, rfl⟩ | ⟨_, hold⟩
    · exact (hinserted hk').1
    · exact held.absent k (Keyed.mem_values.mpr hold) hk'
  inserts k hk l hl hk' hl' hsame := by
    rcases Keyed.get?_set_cases (Keyed.mem_values.mp hk) with ⟨_, rfl⟩ | ⟨_, hold⟩
    · rcases Keyed.get?_set_cases (Keyed.mem_values.mp hl) with ⟨_, rfl⟩ | ⟨_, hold'⟩
      · rfl
      · exact ((hinserted hk').2 l (Keyed.mem_values.mpr hold') hl' hsame.symm).symm
    · rcases Keyed.get?_set_cases (Keyed.mem_values.mp hl) with ⟨_, rfl⟩ | ⟨_, hold'⟩
      · exact (hinserted hl').2 k (Keyed.mem_values.mpr hold) hk' hsame
      · exact held.inserts k (Keyed.mem_values.mpr hold) l (Keyed.mem_values.mpr hold') hk' hl' hsame

/-- A join that holds nothing. -/
theorem setIdle (held : Held invites members joins) {j : Join} (h : j.phase.row? = none) :
    Held invites members (joins.set j) := by
  refine held.setJoin (fun row hrow => ?_) fun hinserted => ?_
  · rw [h] at hrow
    cases hrow
  · have hsome := JoinPhase.isSome_of_inserted hinserted
    rw [h] at hsome
    cases hsome

/-- A join of the table: it holds alone what it holds. -/
theorem alone_with (held : Held invites members joins) {j : Join} (hj : j ∈ joins.values) {row : Invite}
    (hrow : row ∈ j.phase.row?) : Writes invites j.code row ∧
      ∀ k ∈ joins.values, k.phase.row?.isSome = true → k.code = j.code → k.id = j.id :=
  ⟨held.writes j hj row hrow, fun k hk hk' hcode =>
    held.alone k hk j hj hk' (Option.isSome_of_mem hrow) hcode⟩

end Held

/-- What every run keeps of the rows and of what joins hold. -/
structure Tallied (w : Ledger) : Prop where
  booked : Booked w.invites w.uses w.made
  held : Held w.invites w.members w.joins

namespace Tallied

variable {w w' : Ledger} {j : Join}

theorem answer (inv : Tallied w) (a : JoinAnswer) : Tallied (w.answer j a) :=
  ⟨inv.booked, inv.held.fewer fun _ hk => List.mem_of_mem_filter hk⟩

/-- **What a join wrote, committed**: the version goes over the row it was made of. -/
theorem commit (inv : Tallied w) {row : Invite} (hj : w.joins.get? j.id = some j)
    (hphase : j.phase = .recorded row) : Tallied (w.commit j row) := by
  have hmem : j ∈ w.joins.values := Keyed.mem_values.mpr hj
  have hrow : row ∈ j.phase.row? := by rw [hphase]; rfl
  have hwrites := inv.held.writes j hmem row hrow
  have hcode : row.code = j.code := by
    obtain ⟨i, hi, rfl, _⟩ := hwrites
    have hsame : i.code = j.code := Keyed.key_of_get? hi
    exact hsame
  refine ⟨@Booked.commit _ _ _ inv.booked j.admission row hwrites, ?_⟩
  have hfewer : Held w.invites w.members (w.answer j .joined).joins :=
    inv.held.fewer fun _ hk => List.mem_of_mem_filter hk
  refine (hfewer.setInvite fun k hk hk' heq => ?_).addMember fun k hk hk' heq => ?_
  · obtain ⟨hold, hne⟩ := List.mem_filter.mp hk
    exact bne_iff_ne.mp hne ((inv.held.alone_with hmem hrow).2 k hold hk' (heq.trans hcode))
  · obtain ⟨hold, hne⟩ := List.mem_filter.mp hk
    exact bne_iff_ne.mp hne (inv.held.inserts k hold j hmem hk' (by rw [hphase]; rfl) heq)

/-- The next statement of a join. -/
theorem proceed (inv : Tallied w) (hj : w.joins.get? j.id = some j) (h : w.proceed j = some w') :
    Tallied w' := by
  have hmem : j ∈ w.joins.values := Keyed.mem_values.mpr hj
  simp only [Ledger.proceed] at h
  split at h
  · split at h
    · exact Option.some.inj h ▸ inv.answer _
    · exact Option.some.inj h ▸ ⟨inv.booked, inv.held.setIdle rfl⟩
  · exact Option.some.inj h ▸ ⟨inv.booked, inv.held.setIdle rfl⟩
  · next now hphase =>
    split at h
    · cases h
    · next hfree =>
      split at h
      · exact Option.some.inj h ▸ ⟨inv.booked, inv.held.setIdle rfl⟩
      · next i hi =>
        rw [← Option.some.inj h]
        split
        · next husable =>
          -- nobody holds the row, and a use of it is free
          refine ⟨inv.booked, inv.held.setJoin (fun row hrow => ?_) (by rintro ⟨⟩)⟩
          refine ⟨⟨i, hi, (Option.some.inj hrow).symm, (usable_spec husable).2.2⟩, fun k hk hk' hcode => ?_⟩
          exact absurd hcode (holdsInvite_false hfree hk hk')
        · exact ⟨inv.booked, inv.held.setIdle rfl⟩
  · split at h
    · exact Option.some.inj h ▸ inv.answer _
    · exact Option.some.inj h ▸ inv.answer _
  · next row hphase =>
    have halone := @Held.alone_with _ _ _ inv.held j hmem row (by rw [hphase]; rfl)
    split at h
    · cases h
    · next hfree =>
      split at h
      · exact Option.some.inj h ▸ inv.answer _
      · next habsent =>
        rw [← Option.some.inj h]
        refine ⟨inv.booked, inv.held.setJoin (fun row' hrow => Option.some.inj hrow ▸ halone) fun _ => ?_⟩
        exact ⟨habsent, fun k hk hk' heq => absurd heq (holdsMember_false hfree hk hk')⟩
  · next row hphase =>
    have hinserted : j.phase.isInserted = true := by rw [hphase]; rfl
    have halone := @Held.alone_with _ _ _ inv.held j hmem row (by rw [hphase]; rfl)
    rw [← Option.some.inj h]
    refine ⟨inv.booked, inv.held.setJoin (fun row' hrow => Option.some.inj hrow ▸ halone) fun _ => ?_⟩
    exact ⟨inv.held.absent j hmem hinserted, fun k hk hk' heq => inv.held.inserts k hk j hmem hk' hinserted heq⟩
  · next row hphase => exact Option.some.inj h ▸ inv.commit hj hphase

/-- One step. -/
theorem step {a : JoinLabel} (inv : Tallied w) (h : w.step a = some w') : Tallied w' := by
  cases a with
  | createInvite code space expiresAt maxUses =>
    simp only [Ledger.step] at h
    split at h
    · cases h
    · next hnew =>
      rw [not_or] at hnew
      rw [← Option.some.inj h]
      have hnone : w.uses.countP (·.code == code) = 0 := by
        rw [List.countP_eq_zero]
        intro u hu heq
        exact hnew.2 (beq_iff_eq.mp heq ▸ inv.booked.known u hu)
      refine ⟨inv.booked.setInvite hnone.symm fun m _ => Nat.zero_le m, inv.held.setInvite fun j hj hrow heq => ?_⟩
      obtain ⟨row, hwritten⟩ := Option.isSome_iff_exists.mp hrow
      obtain ⟨i, hi, _⟩ := inv.held.writes j hj row hwritten
      have hcode : j.code = code := heq
      rw [hcode] at hi
      exact hnew.2 (Keyed.has_eq_true.mpr ⟨i, hi⟩)
  | revokeInvite code =>
    simp only [Ledger.step] at h
    split at h
    · cases h
    · next hfree =>
      obtain ⟨i, hi, rfl⟩ := Option.map_eq_some_iff.mp h
      have hcode := Keyed.key_of_get? hi
      have hmem : i ∈ w.invites.values := Keyed.mem_values.mpr (hcode ▸ hi)
      refine ⟨inv.booked.setInvite (inv.booked.count i hmem) (inv.booked.most i hmem), ?_⟩
      exact inv.held.setInvite fun j hj hrow heq => holdsInvite_false hfree hj hrow (heq.trans hcode)
  | addMember space user =>
    simp only [Ledger.step] at h
    split at h
    · cases h
    · next hfree =>
      split at h
      · exact Option.some.inj h ▸ inv
      · rw [← Option.some.inj h]
        exact ⟨inv.booked, inv.held.addMember fun j hj hinserted => holdsMember_false hfree hj hinserted⟩
  | removeMember space user =>
    rw [← Option.some.inj h]
    exact ⟨inv.booked, inv.held.removeMember _⟩
  | tick => exact Option.some.inj h ▸ ⟨inv.booked, inv.held⟩
  | joinWithCode user code =>
    simp only [Ledger.step] at h
    split at h
    · exact Option.some.inj h ▸ ⟨inv.booked, inv.held⟩
    · exact Option.some.inj h ▸ ⟨inv.booked, inv.held.setIdle rfl⟩
  | proceed id =>
    obtain ⟨j, hj, hproceed⟩ := Option.bind_eq_some_iff.mp h
    exact inv.proceed (Keyed.key_of_get? hj ▸ hj) hproceed
  | fail id =>
    obtain ⟨j, _, rfl⟩ := Option.map_eq_some_iff.mp h
    exact inv.answer _

end Tallied

/-! ## How a call is answered -/

/-- A call at work is not answered, and only one that joined has a use recorded. -/
structure Settled (arrived : Nat) (uses : List InviteUse) (joins : Keyed Join.id)
    (answered : Keyed Answered.call) : Prop where
  atWork : ∀ j ∈ joins.values, j.id < arrived ∧ answered.get? j.id = none
  numbered : ∀ a ∈ answered.values, a.call < arrived
  joined : ∀ u ∈ uses, answered.get? u.call = some ⟨u.call, .joined⟩

namespace Settled

variable {arrived : Nat} {uses : List InviteUse} {joins : Keyed Join.id} {answered : Keyed Answered.call}
  {w w' : Ledger} {j : Join}

theorem advance (inv : Settled arrived uses joins answered) (hj : joins.get? j.id = some j) (phase : JoinPhase) :
    Settled arrived uses (joins.set { j with phase := phase }) answered where
  atWork k hk := by
    rcases Keyed.get?_set_cases (Keyed.mem_values.mp hk) with ⟨_, rfl⟩ | ⟨_, hold⟩
    · exact inv.atWork j (Keyed.mem_values.mpr hj)
    · exact inv.atWork k (Keyed.mem_values.mpr hold)
  numbered := inv.numbered
  joined := inv.joined

/-- A call answered, with what it has recorded if it joined. -/
theorem answer (inv : Settled arrived uses joins answered) (hj : joins.get? j.id = some j) (a : JoinAnswer)
    {uses' : List InviteUse} (huses : ∀ u ∈ uses', u ∈ uses ∨ u.call = j.id ∧ a = .joined) :
    Settled arrived uses' (joins.filter fun k => k.id != j.id) (answered.set ⟨j.id, a⟩) := by
  obtain ⟨hnumber, hunanswered⟩ := inv.atWork j (Keyed.mem_values.mpr hj)
  refine ⟨fun k hk => ?_, fun b hb => ?_, fun u hu => ?_⟩
  · obtain ⟨hold, hne⟩ := List.mem_filter.mp hk
    obtain ⟨hk', hnone⟩ := inv.atWork k hold
    refine ⟨hk', ?_⟩
    rw [Keyed.get?_set, if_neg (Ne.symm (bne_iff_ne.mp hne)), hnone]
  · rcases Keyed.get?_set_cases (Keyed.mem_values.mp hb) with ⟨_, rfl⟩ | ⟨_, hold⟩
    · exact hnumber
    · exact inv.numbered b (Keyed.mem_values.mpr hold)
  · rcases huses u hu with hold | ⟨hcall, hanswer⟩
    · have hjoined := inv.joined u hold
      have hne : j.id ≠ u.call := by
        intro heq
        rw [← heq, hunanswered] at hjoined
        cases hjoined
      rw [Keyed.get?_set, if_neg hne, hjoined]
    · rw [hcall, hanswer, Keyed.get?_set, if_pos rfl]

/-- The next call, at work or answered at once. -/
theorem arrive (inv : Settled arrived uses joins answered) :
    Settled (arrived + 1) uses joins answered where
  atWork j hj := ⟨Nat.lt_succ_of_lt (inv.atWork j hj).1, (inv.atWork j hj).2⟩
  numbered a ha := Nat.lt_succ_of_lt (inv.numbered a ha)
  joined := inv.joined

/-- Nothing answered has the next call's number. -/
theorem next_unanswered (inv : Settled arrived uses joins answered) : answered.get? arrived = none := by
  cases h : answered.get? arrived with
  | none => rfl
  | some a =>
    have hkey : a.call = arrived := Keyed.key_of_get? h
    have hlt := inv.numbered a (Keyed.mem_values.mpr (hkey ▸ h))
    rw [hkey] at hlt
    exact absurd hlt (Nat.lt_irrefl _)

/-- The next statement of a join. -/
theorem proceed (inv : Settled w.arrived w.uses w.joins w.answered) (hj : w.joins.get? j.id = some j)
    (h : w.proceed j = some w') : Settled w'.arrived w'.uses w'.joins w'.answered := by
  have hanswer : ∀ a, Settled w.arrived w.uses (w.answer j a).joins (w.answer j a).answered :=
    fun a => inv.answer hj a fun _ hu => .inl hu
  simp only [Ledger.proceed] at h
  split at h
  · split at h
    · exact Option.some.inj h ▸ hanswer _
    · exact Option.some.inj h ▸ inv.advance hj _
  · exact Option.some.inj h ▸ inv.advance hj _
  · split at h
    · cases h
    · split at h
      · exact Option.some.inj h ▸ inv.advance hj _
      · exact Option.some.inj h ▸ inv.advance hj _
  · split at h
    · exact Option.some.inj h ▸ hanswer _
    · exact Option.some.inj h ▸ hanswer _
  · split at h
    · cases h
    · split at h
      · exact Option.some.inj h ▸ hanswer _
      · exact Option.some.inj h ▸ inv.advance hj _
  · exact Option.some.inj h ▸ inv.advance hj _
  · rw [← Option.some.inj h]
    refine inv.answer hj .joined fun u hu => ?_
    rcases List.mem_append.mp hu with hold | hnew
    · exact .inl hold
    · rw [List.mem_singleton.mp hnew]
      exact .inr ⟨rfl, rfl⟩

/-- One step. -/
theorem step {a : JoinLabel} (inv : Settled w.arrived w.uses w.joins w.answered) (h : w.step a = some w') :
    Settled w'.arrived w'.uses w'.joins w'.answered := by
  cases a with
  | createInvite code space expiresAt maxUses =>
    simp only [Ledger.step] at h
    split at h
    · cases h
    · exact Option.some.inj h ▸ inv
  | revokeInvite code =>
    simp only [Ledger.step] at h
    split at h
    · cases h
    · obtain ⟨i, _, rfl⟩ := Option.map_eq_some_iff.mp h
      exact inv
  | addMember space user =>
    simp only [Ledger.step] at h
    split at h
    · cases h
    · split at h
      · exact Option.some.inj h ▸ inv
      · exact Option.some.inj h ▸ inv
  | removeMember space user => exact Option.some.inj h ▸ inv
  | tick => exact Option.some.inj h ▸ inv
  | joinWithCode user code =>
    simp only [Ledger.step, Nat.add_sub_cancel] at h
    split at h
    · rw [← Option.some.inj h]
      refine ⟨fun j hj => ?_, fun b hb => ?_, fun u hu => ?_⟩
      · obtain ⟨hlt, hnone⟩ := inv.atWork j hj
        exact ⟨Nat.lt_succ_of_lt hlt, by rw [Keyed.get?_set, if_neg (Nat.ne_of_gt hlt), hnone]⟩
      · rcases Keyed.get?_set_cases (Keyed.mem_values.mp hb) with ⟨_, rfl⟩ | ⟨_, hold⟩
        · exact Nat.lt_succ_self _
        · exact Nat.lt_succ_of_lt (inv.numbered b (Keyed.mem_values.mpr hold))
      · have hjoined := inv.joined u hu
        have hne : w.arrived ≠ u.call := by
          intro heq
          rw [← heq, inv.next_unanswered] at hjoined
          cases hjoined
        rw [Keyed.get?_set, if_neg hne, hjoined]
    · rw [← Option.some.inj h]
      refine ⟨fun j hj => ?_, inv.arrive.numbered, inv.joined⟩
      rcases Keyed.get?_set_cases (Keyed.mem_values.mp hj) with ⟨_, rfl⟩ | ⟨_, hold⟩
      · exact ⟨Nat.lt_succ_self _, inv.next_unanswered⟩
      · exact inv.arrive.atWork j (Keyed.mem_values.mpr hold)
  | proceed id =>
    obtain ⟨j, hj, hproceed⟩ := Option.bind_eq_some_iff.mp h
    exact inv.proceed (Keyed.key_of_get? hj ▸ hj) hproceed
  | fail id =>
    obtain ⟨j, hj, rfl⟩ := Option.map_eq_some_iff.mp h
    exact inv.answer (Keyed.key_of_get? hj ▸ hj) .failed fun _ hu => .inl hu

end Settled

/-! ## Joins that are late -/

/-- Whether no join begun at a time takes a use of the invite, ever. -/
def Invite.shut (i : Invite) (now : Nat) : Bool := i.revokedAt.isSome || i.expired now

/-- An invite is shut to what begins at a time. -/
def Shut (invites : Keyed Invite.code) (code : String) (now : Nat) : Prop :=
  ∃ i, invites.get? code = some i ∧ i.shut now = true

/-- A call's transaction is begun, for a code. -/
def Ledger.Begun (w : Ledger) (code : String) (call : Nat) : Prop :=
  ∃ j ∈ w.joins.values, j.id = call ∧ j.code = code ∧ j.phase.inTransaction = true

theorem Invite.shut_mono {i : Invite} {now later : Nat} (hle : now ≤ later) (h : i.shut now = true) :
    i.shut later = true := by
  simp only [Invite.shut, Invite.expired, Bool.or_eq_true] at h ⊢
  refine h.imp id fun hexpired => ?_
  cases ht : i.expiresAt with
  | none =>
    rw [ht] at hexpired
    cases hexpired
  | some t =>
    rw [ht] at hexpired
    exact decide_eq_true (Nat.le_trans (of_decide_eq_true hexpired) hle)

/-- A row put in its place that is shut where the one before was. -/
theorem Shut.setInvite {invites : Keyed Invite.code} {code : String} {now : Nat} (shut : Shut invites code now)
    {row : Invite} (hrow : ∀ i, invites.get? row.code = some i → i.shut now = true → row.shut now = true) :
    Shut (invites.set row) code now := by
  obtain ⟨i, hi, hshut⟩ := shut
  by_cases hcode : row.code = code
  · subst hcode
    exact ⟨row, Keyed.get?_set_self _ _, hrow i hi hshut⟩
  · exact ⟨i, by rw [Keyed.get?_set, if_neg hcode, hi], hshut⟩

/-- From a state on in which an invite is shut: it stays so, and what is made through it is made by calls
begun then. -/
structure Late (s : Ledger) (code : String) (invites : Keyed Invite.code) (clock : Nat) (joins : Keyed Join.id)
    (made : List Admission) : Prop where
  shut : Shut invites code clock
  begun : ∀ j ∈ joins.values, j.code = code → ∀ now, j.phase = .begun now →
    s.Begun code j.id ∨ Shut invites code now
  writing : ∀ j ∈ joins.values, j.code = code → j.phase.row?.isSome = true → s.Begun code j.id
  made : ∀ m ∈ made, m.code = code → m ∈ s.made ∨ s.Begun code m.call

namespace Late

variable {s w w' : Ledger} {code : String} {invites : Keyed Invite.code} {clock : Nat}
  {joins joins' : Keyed Join.id} {made : List Admission} {j : Join}

theorem fewer (late : Late s code invites clock joins made) (h : ∀ j ∈ joins'.values, j ∈ joins.values) :
    Late s code invites clock joins' made :=
  ⟨late.shut, fun j hj => late.begun j (h j hj), fun j hj => late.writing j (h j hj), late.made⟩

theorem setInvite (late : Late s code invites clock joins made) {row : Invite}
    (hrow : ∀ i, invites.get? row.code = some i → ∀ now, i.shut now = true → row.shut now = true) :
    Late s code (invites.set row) clock joins made where
  shut := late.shut.setInvite fun i hi => hrow i hi clock
  begun j hj hcode now hphase :=
    (late.begun j hj hcode now hphase).imp id fun shut => shut.setInvite fun i hi => hrow i hi now
  writing := late.writing
  made := late.made

theorem setJoin (late : Late s code invites clock joins made)
    (hbegun : j.code = code → ∀ now, j.phase = .begun now → s.Begun code j.id ∨ Shut invites code now)
    (hwriting : j.code = code → j.phase.row?.isSome = true → s.Begun code j.id) :
    Late s code invites clock (joins.set j) made where
  shut := late.shut
  begun k hk := by
    rcases Keyed.get?_set_cases (Keyed.mem_values.mp hk) with ⟨_, rfl⟩ | ⟨_, hold⟩
    · exact hbegun
    · exact late.begun k (Keyed.mem_values.mpr hold)
  writing k hk := by
    rcases Keyed.get?_set_cases (Keyed.mem_values.mp hk) with ⟨_, rfl⟩ | ⟨_, hold⟩
    · exact hwriting
    · exact late.writing k (Keyed.mem_values.mpr hold)
  made := late.made

/-- The next statement of a join. -/
theorem proceed (tallied : Tallied w) (late : Late s code w.invites w.clock w.joins w.made)
    (hj : w.joins.get? j.id = some j) (h : w.proceed j = some w') :
    Late s code w'.invites w'.clock w'.joins w'.made := by
  have hmem : j ∈ w.joins.values := Keyed.mem_values.mpr hj
  have hover : ∀ a, Late s code w.invites w.clock (w.answer j a).joins w.made :=
    fun a => late.fewer fun _ hk => List.mem_of_mem_filter hk
  simp only [Ledger.proceed] at h
  split at h
  · split at h
    · exact Option.some.inj h ▸ hover _
    · exact Option.some.inj h ▸ late.setJoin (by rintro _ _ ⟨⟩) (by rintro _ ⟨⟩)
  · -- a transaction begun now finds the invite shut
    rw [← Option.some.inj h]
    refine late.setJoin (fun _ now hnow => ?_) (by rintro _ ⟨⟩)
    rw [← JoinPhase.begun.inj hnow]
    exact .inr late.shut
  · next now hphase =>
    split at h
    · cases h
    · split at h
      · exact Option.some.inj h ▸ late.setJoin (by rintro _ _ ⟨⟩) (by rintro _ ⟨⟩)
      · next i hi =>
        rw [← Option.some.inj h]
        split
        · next husable =>
          refine late.setJoin (by rintro _ _ ⟨⟩) fun hcode _ => ?_
          rcases late.begun j hmem hcode now hphase with hbegun | ⟨k, hk, hshut⟩
          · exact hbegun
          · -- the guard would have refused it
            obtain ⟨hrevoked, hexpired, _⟩ := usable_spec husable
            rw [← hcode, hi] at hk
            rw [← Option.some.inj hk, Invite.shut, hrevoked, hexpired] at hshut
            cases hshut
        · exact late.setJoin (by rintro _ _ ⟨⟩) (by rintro _ ⟨⟩)
  · split at h
    · exact Option.some.inj h ▸ hover _
    · exact Option.some.inj h ▸ hover _
  · next row hphase =>
    split at h
    · cases h
    · split at h
      · exact Option.some.inj h ▸ hover _
      · exact Option.some.inj h ▸ late.setJoin (by rintro _ _ ⟨⟩) fun hcode _ =>
          late.writing j hmem hcode (by rw [hphase]; rfl)
  · next row hphase =>
    exact Option.some.inj h ▸ late.setJoin (by rintro _ _ ⟨⟩) fun hcode _ =>
      late.writing j hmem hcode (by rw [hphase]; rfl)
  · next row hphase =>
    rw [← Option.some.inj h]
    have hrow : row ∈ j.phase.row? := by rw [hphase]; rfl
    have hset : Late s code (w.invites.set row) w.clock (w.answer j .joined).joins w.made := by
      refine (hover .joined).setInvite fun i hi now hshut => ?_
      obtain ⟨k, hk, rfl, _⟩ := tallied.held.writes j hmem row hrow
      have hcode : k.code = j.code := Keyed.key_of_get? hk
      have hsame : i = k := by
        rw [show k.used.code = j.code from hcode, hk] at hi
        exact (Option.some.inj hi).symm
      exact hsame ▸ hshut
    refine ⟨hset.shut, hset.begun, hset.writing, fun m hm hcode => ?_⟩
    rcases List.mem_append.mp hm with hold | hnew
    · exact late.made m hold hcode
    · rw [List.mem_singleton.mp hnew] at hcode ⊢
      exact .inr (late.writing j hmem hcode (Option.isSome_of_mem hrow))

/-- One step. -/
theorem step {a : JoinLabel} (tallied : Tallied w) (late : Late s code w.invites w.clock w.joins w.made)
    (h : w.step a = some w') : Late s code w'.invites w'.clock w'.joins w'.made := by
  cases a with
  | createInvite code' space expiresAt maxUses =>
    simp only [Ledger.step] at h
    split at h
    · cases h
    · next hnew =>
      rw [not_or] at hnew
      rw [← Option.some.inj h]
      exact late.setInvite fun i hi => absurd (Keyed.has_eq_true.mpr ⟨i, hi⟩) hnew.2
  | revokeInvite code' =>
    simp only [Ledger.step] at h
    split at h
    · cases h
    · obtain ⟨i, _, rfl⟩ := Option.map_eq_some_iff.mp h
      exact late.setInvite fun _ _ _ _ => rfl
  | addMember space user =>
    simp only [Ledger.step] at h
    split at h
    · cases h
    · split at h
      · exact Option.some.inj h ▸ late
      · exact Option.some.inj h ▸ late
  | removeMember space user => exact Option.some.inj h ▸ late
  | tick =>
    rw [← Option.some.inj h]
    obtain ⟨i, hi, hshut⟩ := late.shut
    exact ⟨⟨i, hi, Invite.shut_mono (Nat.le_succ _) hshut⟩, late.begun, late.writing, late.made⟩
  | joinWithCode user code' =>
    simp only [Ledger.step] at h
    split at h
    · exact Option.some.inj h ▸ late
    · exact Option.some.inj h ▸ late.setJoin (by rintro _ _ ⟨⟩) (by rintro _ ⟨⟩)
  | proceed id =>
    obtain ⟨j, hj, hproceed⟩ := Option.bind_eq_some_iff.mp h
    exact late.proceed tallied (Keyed.key_of_get? hj ▸ hj) hproceed
  | fail id =>
    obtain ⟨j, _, rfl⟩ := Option.map_eq_some_iff.mp h
    exact late.fewer fun _ hk => List.mem_of_mem_filter hk

end Late

/-! ## Runs -/

variable {w w' : Ledger}

theorem Tallied.start : Tallied Ledger.start where
  booked := ⟨rfl, fun _ h => absurd h List.not_mem_nil, fun _ h => absurd h List.not_mem_nil,
    fun _ h => absurd h List.not_mem_nil⟩
  held := ⟨fun _ h => absurd h List.not_mem_nil, fun _ h => absurd h List.not_mem_nil,
    fun _ h => absurd h List.not_mem_nil, fun _ h => absurd h List.not_mem_nil⟩

theorem Tallied.runs (inv : Tallied w) (run : Runs Ledger.step Always w w') : Tallied w' :=
  run.keeps inv fun _ _ _ inv _ hstep => inv.step hstep

theorem Settled.runs (run : Runs Ledger.step Always Ledger.start w) :
    Settled w.arrived w.uses w.joins w.answered := by
  induction run with
  | refl =>
    exact ⟨fun _ h => absurd h List.not_mem_nil, fun _ h => absurd h List.not_mem_nil,
      fun _ h => absurd h List.not_mem_nil⟩
  | tail _ _ hstep ih => exact ih.step hstep

/-- **Late joins**: once an invite is shut, what is made through it is made by calls begun by then. -/
theorem Late.runs {code : String} (tallied : Tallied w) (shut : Shut w.invites code w.clock)
    (run : Runs Ledger.step Always w w') : Late w code w'.invites w'.clock w'.joins w'.made := by
  induction run with
  | refl =>
    refine ⟨shut, fun j hj hcode now hphase => ?_, fun j hj hcode hrow => ?_, fun _ hm _ => .inl hm⟩
    · exact .inl ⟨j, hj, rfl, hcode, by rw [hphase]; rfl⟩
    · refine ⟨j, hj, rfl, hcode, ?_⟩
      cases hphase : j.phase with
      | found | cleared =>
        rw [hphase] at hrow
        cases hrow
      | begun | refused | consumed | inserted | recorded => rfl
  | tail hbefore _ hstep ih => exact ih.step (tallied.runs hbefore) hstep

/-- What a statement of a join does to the memberships made: nothing, or it commits one. -/
theorem proceed_made {j : Join} (h : w.proceed j = some w') :
    w'.made = w.made ∨ ∃ row, j.phase = .recorded row ∧ w' = w.commit j row := by
  simp only [Ledger.proceed] at h
  split at h
  · split at h <;> exact .inl (Option.some.inj h ▸ rfl)
  · exact .inl (Option.some.inj h ▸ rfl)
  · split at h
    · cases h
    · split at h <;> exact .inl (Option.some.inj h ▸ rfl)
  · split at h <;> exact .inl (Option.some.inj h ▸ rfl)
  · split at h
    · cases h
    · split at h <;> exact .inl (Option.some.inj h ▸ rfl)
  · exact .inl (Option.some.inj h ▸ rfl)
  · next row hphase => exact .inr ⟨row, hphase, (Option.some.inj h).symm⟩

theorem step_made {a : JoinLabel} (h : w.step a = some w') :
    w'.made = w.made ∨
      ∃ j row, w.joins.get? j.id = some j ∧ j.phase = .recorded row ∧ w' = w.commit j row := by
  cases a with
  | proceed id =>
    obtain ⟨j, hj, hproceed⟩ := Option.bind_eq_some_iff.mp h
    rcases proceed_made hproceed with hsame | ⟨row, hphase, hcommit⟩
    · exact .inl hsame
    · exact .inr ⟨j, row, Keyed.key_of_get? hj ▸ hj, hphase, hcommit⟩
  | createInvite code space expiresAt maxUses =>
    simp only [Ledger.step] at h
    split at h
    · cases h
    · exact .inl (Option.some.inj h ▸ rfl)
  | revokeInvite code =>
    simp only [Ledger.step] at h
    split at h
    · cases h
    · obtain ⟨i, _, rfl⟩ := Option.map_eq_some_iff.mp h
      exact .inl rfl
  | addMember space user =>
    simp only [Ledger.step] at h
    split at h
    · cases h
    · split at h <;> exact .inl (Option.some.inj h ▸ rfl)
  | removeMember space user => exact .inl (Option.some.inj h ▸ rfl)
  | tick => exact .inl (Option.some.inj h ▸ rfl)
  | joinWithCode user code =>
    simp only [Ledger.step] at h
    split at h <;> exact .inl (Option.some.inj h ▸ rfl)
  | fail id =>
    obtain ⟨j, _, rfl⟩ := Option.map_eq_some_iff.mp h
    exact .inl rfl

/-- A membership made is one that was not there. -/
theorem made_of_absent {a : JoinLabel} (inv : Tallied w) (h : w.step a = some w') {m : Admission}
    (hm : m ∈ w'.made) (hnew : m ∉ w.made) : (m.space, m.user) ∉ w.members := by
  rcases step_made h with hsame | ⟨j, row, hj, hphase, rfl⟩
  · exact absurd (hsame ▸ hm) hnew
  · rcases List.mem_append.mp hm with hold | hadded
    · exact absurd hold hnew
    · rw [List.mem_singleton.mp hadded]
      exact inv.held.absent j (Keyed.mem_values.mpr hj) (by rw [hphase]; rfl)

/-- **Invites admit as often as they say.** An invite counts no more uses than it allows, as many as are
recorded and as memberships were made through it; a call not answered with its joining used nothing, and a
membership made is of nobody already in; and none is made by a call whose transaction was not begun when
the invite was revoked or past its expiry. -/
theorem uses_as_allowed (run : Runs Ledger.step Always Ledger.start w) :
    (∀ i ∈ w.invites.values, (∀ m ∈ i.maxUses, i.useCount ≤ m) ∧
      i.useCount = w.uses.countP (·.code == i.code) ∧ i.useCount = w.made.countP (·.code == i.code)) ∧
    (∀ a ∈ w.answered.values, a.answer ≠ .joined →
      (∀ u ∈ w.uses, u.call ≠ a.call) ∧ ∀ m ∈ w.made, m.call ≠ a.call) ∧
    (∀ a w', w.step a = some w' → ∀ m ∈ w'.made, m ∉ w.made → (m.space, m.user) ∉ w.members) ∧
    ∀ code, Shut w.invites code w.clock → ∀ w', Runs Ledger.step Always w w' →
      ∀ m ∈ w'.made, m.code = code → m ∈ w.made ∨ w.Begun code m.call := by
  have tallied : Tallied w := Tallied.start.runs run
  have settled : Settled w.arrived w.uses w.joins w.answered := Settled.runs run
  have hmade : ∀ m ∈ w.made, m.use ∈ w.uses := fun m hm => by
    rw [tallied.booked.uses_made]
    exact List.mem_map_of_mem hm
  refine ⟨fun i hi => ⟨tallied.booked.most i hi, tallied.booked.count i hi, ?_⟩, fun a ha hanswer => ?_,
    fun a w' hstep m hm hnew => made_of_absent tallied hstep hm hnew,
    fun code shut w' later => (Late.runs tallied shut later).made⟩
  · rw [tallied.booked.count i hi, tallied.booked.uses_made, List.countP_map]
    rfl
  · have hused : ∀ u ∈ w.uses, u.call ≠ a.call := by
      intro u hu heq
      have hjoined := settled.joined u hu
      rw [heq, Keyed.mem_values.mp ha] at hjoined
      exact hanswer (by rw [Option.some.inj hjoined])
    exact ⟨hused, fun m hm => hused m.use (hmade m hm)⟩

/-! ## The last use -/

/-- The ledger after a run. -/
def afterJoins (labels : List JoinLabel) : Ledger := (runList Ledger.step Ledger.start labels).getD Ledger.start

/-- Ada asks twice, and Bea once, for the one use there is. -/
def lastUse : List JoinLabel :=
  [.createInvite "Tuesday" 7 (some 5) (some 1), .joinWithCode 101 "Tuesday", .joinWithCode 101 "Tuesday",
    .joinWithCode 102 "Tuesday", .proceed 0, .proceed 1, .proceed 2, .proceed 0, .proceed 1, .proceed 2,
    .proceed 0, .proceed 0, .proceed 0, .proceed 0, .proceed 1, .proceed 1, .proceed 2, .proceed 2]

/-- One joins, and the others hear that it is used up. -/
theorem lastUse_admits :
    ((afterJoins lastUse).invites.values.map fun i => i.useCount) = [1] ∧
      ((afterJoins lastUse).answered.values.map fun a => a.answer) =
        [.joined, .rejected .spent, .rejected .spent] ∧
      ∀ i ∈ (afterJoins lastUse).invites.values,
        i.useCount = (afterJoins lastUse).uses.countP (·.code == i.code) :=
  ⟨by decide, by decide, fun i hi =>
    ((uses_as_allowed (Runs.ofList lastUse (EachStep.always _ _) rfl)).1 i hi).2.1⟩

end Stoop.Spaces
