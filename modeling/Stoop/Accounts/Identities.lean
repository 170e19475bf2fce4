import Mathlib.Data.List.Perm.Subperm
import Stoop.Lib.Machine
import Stoop.Lib.Keyed

/-!
# Unlinking identities

The identities of one account (`internal/auth/identities.go`) and the calls that unlink them. Each call
is one transaction at read committed: a statement reads what was committed when it began, a delete holds
the row it takes until its transaction ends, and a statement that meets a row held so waits.

An unlink counts the identities and deletes one, and holds nothing in between. What keeps an account its
last identity is that some identity is the target of no unlink past its count (`Spared`): every count
that lets its unlink go on keeps to that when it is made alone (`countClear_alone`), and
`unlink_keeps_one` is the runs in which they all do. Two unlinks that both count two
(`counted_twice`) leave none.
-/

set_option autoImplicit false

namespace Stoop.Accounts

open Stoop.Lib

/-! ## The account -/

/-- A row of `user_identities`, of the one account. -/
structure Identity where
  provider : String
  subject : String
  email : String
  deriving DecidableEq, Repr

/-- How far an unlink has come: it has read the user, passed the check, deleted the row. -/
inductive UnlinkPhase
  | begun | checked | deleted
  deriving DecidableEq, Repr

/-- An `UnlinkIdentity` in its transaction. -/
structure Unlink where
  id : Nat
  provider : String
  phase : UnlinkPhase
  deriving DecidableEq, Repr

/-- What an unlink answers. -/
inductive UnlinkAnswer
  | unlinked | onlyWay | notFound | failed
  deriving DecidableEq, Repr

/-- One account: a provider is linked once (`UNIQUE (user_id, provider)`). Which calls were answered, and
how, no step reads. -/
structure Account where
  hasPassword : Bool
  identities : Keyed Identity.provider
  unlinks : Keyed Unlink.id
  answered : List (Nat × UnlinkAnswer)

/-- An account with no call at work. -/
def Account.start (hasPassword : Bool) (identities : Keyed Identity.provider) : Account :=
  ⟨hasPassword, identities, Keyed.empty, []⟩

/-- An unlink at its next phase. -/
def Account.advance (s : Account) (u : Unlink) (phase : UnlinkPhase) : Account :=
  { s with unlinks := s.unlinks.set { u with phase := phase } }

/-- An unlink over, with its answer. -/
def Account.answer (s : Account) (u : Unlink) (answer : UnlinkAnswer) : Account :=
  { s with
    unlinks := s.unlinks.filter fun v => v.id != u.id, answered := s.answered ++ [(u.id, answer)] }

/-- The unlink of an id, in a phase. -/
def Account.unlink? (s : Account) (id : Nat) (phase : UnlinkPhase) : Option Unlink :=
  (s.unlinks.get? id).filter fun u => u.phase == phase

/-- Whether an unlink holds a provider's row, deleted and not committed. -/
def Account.holds (s : Account) (provider : String) : Bool :=
  s.unlinks.values.any fun u => u.phase == .deleted && u.provider == provider

/-- One statement of a call. -/
inductive IdentityLabel
  | getUserByID (id : Nat) (provider : String)
  | countUserIdentities (id : Nat)
  | deleteUserIdentity (id : Nat)
  | commit (id : Nat)
  | rollback (id : Nat)
  | createIdentity (identity : Identity)
  deriving DecidableEq, Repr

/-- One step. -/
def Account.step (s : Account) : IdentityLabel → Option Account
  | .getUserByID id provider =>
    if provider = "" ∨ s.unlinks.has id then none
    else some { s with unlinks := s.unlinks.set ⟨id, provider, .begun⟩ }
  | .countUserIdentities id =>
    (s.unlink? id .begun).map fun u =>
      -- with a password nothing is counted
      if !s.hasPassword && s.identities.values.length ≤ 1 then s.answer u .onlyWay
      else s.advance u .checked
  | .deleteUserIdentity id =>
    (s.unlink? id .checked).bind fun u =>
      -- another's delete of the row is waited for
      if s.holds u.provider then none
      else if s.identities.has u.provider then some (s.advance u .deleted)
      else some (s.answer u .notFound)
  | .commit id =>
    (s.unlink? id .deleted).map fun u =>
      { s.answer u .unlinked with identities := s.identities.filter fun i => i.provider != u.provider }
  | .rollback id => (s.unlinks.get? id).map fun u => s.answer u .failed
  | .createIdentity identity =>
    if s.holds identity.provider then none
    else if s.identities.has identity.provider then some s
    else some { s with identities := s.identities.set identity }

/-- The unlink found in a phase. -/
theorem unlink?_spec {s : Account} {id : Nat} {phase : UnlinkPhase} {u : Unlink}
    (h : s.unlink? id phase = some u) :
    u ∈ s.unlinks.values ∧ s.unlinks.get? id = some u ∧ u.phase = phase := by
  obtain ⟨hfound, hphase⟩ := Option.filter_eq_some_iff.mp h
  refine ⟨Keyed.mem_values.mpr ?_, hfound, eq_of_beq hphase⟩
  rw [Keyed.key_of_get? hfound, hfound]

/-! ## What is spared -/

/-- An unlink past its count that is for a provider. -/
def Unlink.targets (u : Unlink) (provider : String) : Bool :=
  u.phase != .begun && u.provider == provider

/-- Some identity is the target of no unlink past its count. -/
def Spared (s : Account) : Prop :=
  ∃ i ∈ s.identities.values, ∀ u ∈ s.unlinks.values, u.targets i.provider = false

/-- A count that lets its unlink go on leaves an identity that neither it nor any other unlink past its
count is for. -/
def CountClear (s : Account) : IdentityLabel → Prop
  | .countUserIdentities id =>
    1 < s.identities.values.length → ∀ u ∈ s.unlinks.get? id,
      ∃ i ∈ s.identities.values, i.provider ≠ u.provider ∧
        ∀ v ∈ s.unlinks.values, v.targets i.provider = false
  | _ => True

instance (s : Account) : (a : IdentityLabel) → Decidable (CountClear s a)
  | .countUserIdentities id =>
    inferInstanceAs (Decidable (1 < _ → ∀ u, u ∈ s.unlinks.get? id → ∃ i ∈ s.identities.values, _))
  | .getUserByID _ _ | .deleteUserIdentity _ | .commit _ | .rollback _ | .createIdentity _ =>
    inferInstanceAs (Decidable True)

/-- A count made while no other unlink is past its own keeps to that: it counted two, and its own is
one. -/
theorem countClear_alone {s : Account} {id : Nat}
    (alone : ∀ v ∈ s.unlinks.values, v.phase = .begun) : CountClear s (.countUserIdentities id) := by
  intro hcount u _
  have hother : ∃ i ∈ s.identities.values, i.provider ≠ u.provider := by
    by_contra hall
    simp only [not_exists, not_and, not_not] at hall
    have hone : (s.identities.values.map (·.provider)) ⊆ [u.provider] := by
      intro provider hprovider
      obtain ⟨i, hi, rfl⟩ := List.mem_map.mp hprovider
      exact List.mem_singleton.mpr (hall i hi)
    have hle := (List.subperm_of_subset s.identities.nodup hone).length_le
    rw [List.length_map, List.length_singleton] at hle
    exact absurd hcount (Nat.not_lt.mpr hle)
  obtain ⟨i, hi, hne⟩ := hother
  refine ⟨i, hi, hne, fun v hv => ?_⟩
  rw [Unlink.targets, alone v hv]
  rfl

/-- Without a password: an account that has identities has one spared, and one that has none has no
unlink past its count. -/
structure Kept (s : Account) : Prop where
  noPassword : s.hasPassword = false
  spared : s.identities.values ≠ [] → Spared s
  none_begun : s.identities.values = [] → ∀ u ∈ s.unlinks.values, u.phase = .begun

/-- An account whose identities are there still when they were. -/
def Keeps (s s' : Account) : Prop := s.identities.values ≠ [] → s'.identities.values ≠ []

theorem Spared.nonempty {s : Account} (h : Spared s) : s.identities.values ≠ [] :=
  List.ne_nil_of_mem h.choose_spec.1

theorem Spared.kept {s : Account} (h : Spared s) (noPassword : s.hasPassword = false) : Kept s :=
  ⟨noPassword, fun _ => h, fun hnone => absurd hnone h.nonempty⟩

namespace Kept

variable {s s' : Account} {a : IdentityLabel}

/-- Unlinks over, or not past their count yet. -/
theorem fewer (inv : Kept s) {unlinks : Keyed Unlink.id} {answered : List (Nat × UnlinkAnswer)}
    (h : ∀ u ∈ unlinks.values, u ∈ s.unlinks.values ∨ u.phase = .begun) :
    Kept { s with unlinks := unlinks, answered := answered } where
  noPassword := inv.noPassword
  spared hsome := by
    obtain ⟨i, hi, huntouched⟩ := inv.spared hsome
    refine ⟨i, hi, fun u hu => ?_⟩
    rcases h u hu with hold | hbegun
    · exact huntouched u hold
    · rw [Unlink.targets, hbegun]
      rfl
  none_begun hnone u hu := (h u hu).elim (inv.none_begun hnone u) id

theorem answer (inv : Kept s) (u : Unlink) (answer : UnlinkAnswer) : Kept (s.answer u answer) :=
  inv.fewer fun _ hv => .inl (List.mem_of_mem_filter hv)

/-- An unlink goes on whose target another identity is not. -/
theorem advance (inv : Kept s) {u : Unlink} {phase : UnlinkPhase}
    (hspared : ∃ i ∈ s.identities.values, i.provider ≠ u.provider ∧
      ∀ v ∈ s.unlinks.values, v.targets i.provider = false) : Kept (s.advance u phase) := by
  obtain ⟨i, hi, hne, huntouched⟩ := hspared
  refine Spared.kept ⟨i, hi, fun v hv => ?_⟩ inv.noPassword
  rcases Keyed.get?_set_cases (Keyed.mem_values.mp hv) with ⟨_, rfl⟩ | ⟨_, hold⟩
  · rw [Unlink.targets, Bool.and_eq_false_imp]
    exact fun _ => beq_eq_false_iff_ne.mpr (Ne.symm hne)
  · exact huntouched v (Keyed.mem_values.mpr hold)

/-- A delete goes on whose unlink was past its count. -/
theorem delete (inv : Kept s) {u : Unlink} (hu : u ∈ s.unlinks.values) (hchecked : u.phase = .checked) :
    Kept (s.advance u .deleted) := by
  by_cases hnone : s.identities.values = []
  · rw [inv.none_begun hnone u hu] at hchecked
    cases hchecked
  · obtain ⟨i, hi, huntouched⟩ := inv.spared hnone
    refine inv.advance ⟨i, hi, fun heq => ?_, huntouched⟩
    have htargets := huntouched u hu
    simp [Unlink.targets, hchecked, heq] at htargets

/-- **A commit takes its target**, and what is spared is not that. -/
theorem commit (inv : Kept s) {u : Unlink} (hu : u ∈ s.unlinks.values) (hdeleted : u.phase = .deleted) :
    Spared { s.answer u .unlinked with identities := s.identities.filter fun i => i.provider != u.provider } := by
  have hnonempty : s.identities.values ≠ [] := by
    intro hnone
    rw [inv.none_begun hnone u hu] at hdeleted
    cases hdeleted
  obtain ⟨i, hi, huntouched⟩ := inv.spared hnonempty
  have hne : i.provider ≠ u.provider := by
    intro heq
    have htargets := huntouched u hu
    simp [Unlink.targets, hdeleted, heq] at htargets
  exact ⟨i, List.mem_filter.mpr ⟨hi, bne_iff_ne.mpr hne⟩,
    fun v hv => huntouched v (List.mem_of_mem_filter hv)⟩

/-- A link leaves what was there, beside the identity. -/
theorem link (inv : Kept s) {identity : Identity} (hnew : ¬ s.identities.has identity.provider = true) :
    Spared { s with identities := s.identities.set identity } := by
  by_cases hsome : s.identities.values = []
  · refine ⟨identity, Keyed.mem_values.mpr (Keyed.get?_set_self _ _), fun u hu => ?_⟩
    rw [Unlink.targets, inv.none_begun hsome u hu]
    rfl
  · obtain ⟨i, hi, huntouched⟩ := inv.spared hsome
    refine ⟨i, Keyed.mem_values.mpr ?_, huntouched⟩
    have hfound := Keyed.mem_values.mp hi
    rw [Keyed.get?_set, if_neg, hfound]
    intro heq
    exact hnew (Keyed.has_eq_true.mpr ⟨i, heq ▸ hfound⟩)

/-- One step. -/
theorem step (inv : Kept s) (clear : CountClear s a) (hstep : s.step a = some s') :
    Kept s' ∧ Keeps s s' := by
  cases a with
  | getUserByID id provider =>
    simp only [Account.step] at hstep
    split at hstep
    · cases hstep
    · rw [← Option.some.inj hstep]
      refine ⟨inv.fewer fun u hu => ?_, fun h => h⟩
      rcases Keyed.get?_set_cases (Keyed.mem_values.mp hu) with ⟨_, rfl⟩ | ⟨_, hold⟩
      · exact .inr rfl
      · exact .inl (Keyed.mem_values.mpr hold)
  | countUserIdentities id =>
    obtain ⟨u, hu, rfl⟩ := Option.map_eq_some_iff.mp hstep
    obtain ⟨_, hfound, _⟩ := unlink?_spec hu
    simp only [inv.noPassword, Bool.not_false, Bool.true_and]
    split
    · exact ⟨inv.answer u _, fun h => h⟩
    · next hcount =>
      rw [decide_eq_true_eq, Nat.not_le] at hcount
      exact ⟨inv.advance (clear hcount u hfound), fun h => h⟩
  | deleteUserIdentity id =>
    obtain ⟨u, hu, hrest⟩ := Option.bind_eq_some_iff.mp hstep
    obtain ⟨hmem, _, hphase⟩ := unlink?_spec hu
    split at hrest
    · cases hrest
    · split at hrest
      · exact Option.some.inj hrest ▸ ⟨inv.delete hmem hphase, fun h => h⟩
      · exact Option.some.inj hrest ▸ ⟨inv.answer u _, fun h => h⟩
  | commit id =>
    obtain ⟨u, hu, rfl⟩ := Option.map_eq_some_iff.mp hstep
    obtain ⟨hmem, _, hphase⟩ := unlink?_spec hu
    have hspared := inv.commit hmem hphase
    exact ⟨hspared.kept inv.noPassword, fun _ => hspared.nonempty⟩
  | rollback id =>
    obtain ⟨u, _, rfl⟩ := Option.map_eq_some_iff.mp hstep
    exact ⟨inv.answer u _, fun h => h⟩
  | createIdentity identity =>
    simp only [Account.step] at hstep
    split at hstep
    · cases hstep
    · split at hstep
      · exact Option.some.inj hstep ▸ ⟨inv, fun h => h⟩
      · next hnew =>
        rw [← Option.some.inj hstep]
        have hspared := inv.link hnew
        exact ⟨hspared.kept inv.noPassword, fun _ => hspared.nonempty⟩

/-- Every run. -/
theorem runs (inv : Kept s) (run : Runs Account.step CountClear s s') : Kept s' ∧ Keeps s s' := by
  induction run with
  | refl => exact ⟨inv, fun h => h⟩
  | tail _ clear hstep ih =>
    obtain ⟨hkept, hkeeps⟩ := ih.1.step clear hstep
    exact ⟨hkept, hkeeps ∘ ih.2⟩

end Kept

/-- **An account without a password keeps an identity**, where every count leaves one that no unlink past
its count is for. -/
theorem unlink_keeps_one {identities : Keyed Identity.provider} {s w : Account}
    (run : Runs Account.step CountClear (Account.start false identities) s)
    (hsome : s.identities.values ≠ []) (later : Runs Account.step CountClear s w) :
    w.identities.values ≠ [] := by
  have start : Kept (Account.start false identities) := by
    refine ⟨rfl, fun hsome => ?_, fun _ u hu => absurd hu List.not_mem_nil⟩
    obtain ⟨i, hi⟩ := List.exists_mem_of_ne_nil _ hsome
    exact ⟨i, hi, fun u hu => absurd hu List.not_mem_nil⟩
  exact ((start.runs run).1.runs later).2 hsome

/-! ## Two unlinks of two identities -/

/-- Two identities. -/
def twoLinked : Keyed Identity.provider :=
  (Keyed.empty.set ⟨"google", "1", "ada@example.org"⟩).set ⟨"github", "7", "ada@example.org"⟩

/-- One unlink after the other. -/
def oneByOne : List IdentityLabel :=
  [.getUserByID 1 "google", .countUserIdentities 1, .deleteUserIdentity 1, .commit 1,
    .getUserByID 2 "github", .countUserIdentities 2]

/-- Both count before either deletes. -/
def countedTwice : List IdentityLabel :=
  [.getUserByID 1 "google", .getUserByID 2 "github", .countUserIdentities 1, .countUserIdentities 2,
    .deleteUserIdentity 1, .deleteUserIdentity 2, .commit 1, .commit 2]

/-- One after the other, the second is refused. -/
theorem oneByOne_keeps_one :
    ((runList Account.step (Account.start false twoLinked) oneByOne).map (·.answered)) =
        some [(1, .unlinked), (2, .onlyWay)] ∧
      ∀ w, runList Account.step (Account.start false twoLinked) oneByOne = some w →
        w.identities.values ≠ [] :=
  ⟨by decide, fun _ h => unlink_keeps_one .refl (by decide) (Runs.ofList oneByOne (by decide) h)⟩

/-- **Both counted two, and both go on**: no identity is left. -/
theorem counted_twice :
    ¬ ∀ (identities : Keyed Identity.provider) (s w : Account),
      Runs Account.step Always (Account.start false identities) s → s.identities.values ≠ [] →
      Runs Account.step Always s w → w.identities.values ≠ [] := by
  intro claim
  refine claim twoLinked (Account.start false twoLinked)
    ((runList Account.step (Account.start false twoLinked) countedTwice).getD
      (Account.start false twoLinked)) .refl (by decide)
    (Runs.ofList countedTwice (EachStep.always _ _) rfl) ?_
  decide

end Stoop.Accounts
