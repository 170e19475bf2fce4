import Stoop.Spaces.Members

/-!
# The owner of a space

That each space has one owner, the account its row names, through every run of the calls. The index sees
to it that there are not two. A hand-over that goes through leaves one whoever asked it: where the asker
owns nothing any more, the index refuses the promotion. What it does not see to is that an owner stays:
a demotion, a kick or a leave goes by the role it read, and the account that departs by the spaces it read
as owned. `one_owner_each` is the runs in which each of them finds it still so (`OwnerClear`);
`proceed_ownerless` is that no other step would do, and `left_with_none` a run in which a transfer comes
between.
-/

set_option autoImplicit false

namespace Stoop.Spaces

open Stoop.Lib

/-- Each space is its owner's, in their own row. -/
def Owned (t : Tables) : Prop := ∀ s ∈ t.spaces.values, t.members.owns s.id s.owner = true

/-- Each space has exactly one member with the role owner, the account `owner_id` names. -/
def OneOwner (t : Tables) : Prop :=
  ∀ s ∈ t.spaces.values, ∃ m ∈ t.members.rows.values, m.space = s.id ∧ m.user = s.owner ∧ m.role = .owner ∧
    ∀ n ∈ t.members.rows.values, n.space = s.id → n.role = .owner → n = m

/-- A step goes by what is still so: whom it demotes or removes owns nothing, and whom it makes the owner,
of a space they are not in, takes it from the owner. -/
def NextStep.spares (t : Members) : NextStep → Bool
  | .setSpaceMemberRole space user _ | .removeMember space user _ | .leaveEach user (space :: _) =>
    !t.owns space user
  | .handOver user _ space heir _ => t.has (space, heir) || t.owns space user
  | _ => true

def OwnerClear (w : World) : Label → Prop
  | .proceed call => ∀ c ∈ w.calls.get? call, c.next.spares w.tables.members = true
  | _ => True

instance (w : World) : (a : Label) → Decidable (OwnerClear w a)
  | .proceed call => inferInstanceAs (Decidable (∀ c, c ∈ w.calls.get? call → _))
  | .createSpace _ _ | .ask _ _ | .leaveSpace _ _ _ | .joinSpace _ _ _ | .joinWithCode _ _ _ _
  | .removePerson _ _ _ | .finish _ => inferInstanceAs (Decidable True)

/-! ## What each write leaves -/

namespace Owned

variable {t t' : Tables} {members : Members} {space user : Nat}

theorem oneOwner (owned : Owned t) : OneOwner t := by
  intro s hs
  obtain ⟨m, hm, hrole⟩ := Members.owns_eq_true.mp (owned s hs)
  have hkey : m.key = (s.id, s.owner) := Keyed.key_of_get? hm
  have hspace : m.space = s.id := congrArg Prod.fst hkey
  have hmem : m ∈ t.members.rows.values := Keyed.mem_values.mpr (hkey ▸ hm)
  refine ⟨m, hmem, hspace, congrArg Prod.snd hkey, hrole, fun n hn hn' hnrole => ?_⟩
  exact t.members.eq_of_mark hn hmem (show s.id ∈ n.owned by rw [Member.owned, if_pos hnrole, hn']; rfl)
    (show s.id ∈ m.owned by rw [Member.owned, if_pos hrole, hspace]; rfl)

/-- A write to a row that is not the owner's. -/
theorem spared (owned : Owned t) (hspares : t.members.owns space user = false)
    (hother : ∀ {space' user'}, (space', user') ≠ (space, user) →
      members.owns space' user' = t.members.owns space' user') : Owned { t with members := members } := by
  intro s hs
  have howns := owned s hs
  show members.owns s.id s.owner = true
  rw [hother, howns]
  intro heq
  rw [Prod.mk.injEq] at heq
  rw [heq.1, heq.2, hspares] at howns
  cases howns

theorem setSpaceMemberRole {role : SpaceRole} (owned : Owned t) (hspares : t.members.owns space user = false) :
    Owned (t.setSpaceMemberRole space user role) := by
  simp only [Tables.setSpaceMemberRole]
  cases hset : t.members.setSpaceMemberRole space user role with
  | none => exact owned
  | some members => exact owned.spared hspares (Members.owns_setSpaceMemberRole hset)

theorem deleteSpaceMember (owned : Owned t) (hspares : t.members.owns space user = false) :
    Owned (t.deleteSpaceMember space user) :=
  owned.spared hspares (Members.owns_deleteSpaceMember t.members)

/-- **A hand-over that leaves its target the owner** leaves each space one. -/
theorem updateSpaceOwner (owned : Owned t) (htarget : members.owns space user = true)
    (hother : ∀ s ∈ t.spaces.values, s.id ≠ space → members.owns s.id s.owner = t.members.owns s.id s.owner) :
    Owned (t.updateSpaceOwner space user members) := by
  intro s hs
  obtain ⟨old, hold, rfl⟩ := List.mem_map.mp hs
  show members.owns (old.handTo space user).id (old.handTo space user).owner = true
  by_cases hspace : old.id = space
  · rw [Space.handTo, if_pos hspace]
    show members.owns old.id user = true
    rw [hspace, htarget]
  · rw [Space.handTo, if_neg hspace, hother old hold hspace]
    exact owned old hold

theorem transfer {source target : Nat} (owned : Owned t) (h : t.transfer space source target = some t') :
    Owned t' := by
  obtain ⟨demoted, hdemoted, hrest⟩ := Option.bind_eq_some_iff.mp h
  split at hrest
  · next hhas =>
    obtain ⟨members, hpromoted, rfl⟩ := Option.map_eq_some_iff.mp hrest
    refine owned.updateSpaceOwner (Members.owns_promoted hpromoted hhas) fun s _ hne => ?_
    have hne' : ∀ user, (s.id, s.owner) ≠ (space, user) := fun _ heq => hne (congrArg Prod.fst heq)
    rw [Members.owns_setSpaceMemberRole hpromoted (hne' _), Members.owns_setSpaceMemberRole hdemoted (hne' _)]
  · cases hrest

theorem handOver {heir : Nat} (owned : Owned t)
    (hspares : (t.members.has (space, heir) || t.members.owns space user) = true)
    (h : t.handOver space user heir = some t') : Owned t' := by
  obtain ⟨demoted, hdemoted, hrest⟩ := Option.bind_eq_some_iff.mp h
  obtain ⟨members, hmembers, rfl⟩ := Option.map_eq_some_iff.mp hrest
  have hne : ∀ s ∈ t.spaces.values, s.id ≠ space → ∀ user, (s.id, s.owner) ≠ (space, user) :=
    fun _ _ hne _ heq => hne (congrArg Prod.fst heq)
  split at hmembers
  · next hhas =>
    refine owned.updateSpaceOwner (Members.owns_promoted hmembers hhas) fun s hs hspace => ?_
    rw [Members.owns_setSpaceMemberRole hmembers (hne s hs hspace _),
      Members.owns_setSpaceMemberRole hdemoted (hne s hs hspace _)]
  · next habsent =>
    rw [← Option.some.inj hmembers]
    rw [Members.has_setSpaceMemberRole hdemoted, Bool.not_eq_true] at habsent
    rw [habsent, Bool.false_or] at hspares
    have hcreated : (demoted.createSpaceMember space heir .owner).owns space heir = true :=
      Members.owns_createOwner (Members.owns_nobody hspares hdemoted)
        ((Members.has_setSpaceMemberRole hdemoted _).trans habsent)
    refine owned.updateSpaceOwner hcreated fun s hs hspace => ?_
    rw [Members.owns, Members.get?_createSpaceMember demoted (hne s hs hspace _), ← Members.owns,
      Members.owns_setSpaceMemberRole hdemoted (hne s hs hspace _)]

theorem createSpaceMember {role : SpaceRole} (owned : Owned t) : Owned (t.createSpaceMember space user role) := by
  simp only [Tables.createSpaceMember]
  split
  · exact fun s hs => Members.owns_createSpaceMember (owned s hs)
  · exact owned

theorem banUser {id : Nat} (owned : Owned t) : Owned (t.banUser id space user) := by
  simp only [Tables.banUser]
  split <;> exact owned

/-- A new space is its maker's. -/
theorem createSpace (owned : Owned t) (h : t.createSpace space user = some t') : Owned t' := by
  simp only [Tables.createSpace] at h
  split at h
  · cases h
  · obtain ⟨members, hput, rfl⟩ := Option.map_eq_some_iff.mp h
    intro s hs
    rcases Keyed.get?_set_cases (Keyed.mem_values.mp hs) with ⟨_, rfl⟩ | ⟨hne, hold⟩
    · refine Members.owns_eq_true.mpr ⟨⟨space, user, .owner⟩, ?_, rfl⟩
      rw [Indexed.get?_put hput]
      exact if_pos rfl
    · rw [Members.owns, Indexed.get?_put hput, if_neg fun heq => hne (congrArg Prod.fst heq)]
      exact owned s (Keyed.mem_values.mpr hold)

/-! ## One step -/

/-- The next step of a call that goes by what is still so. -/
theorem proceed {id : Nat} {next : NextStep} (owned : Owned t) (spares : next.spares t.members = true) :
    Owned (t.proceed id next).1 := by
  cases next with
  | requirePermission | actorFor | getSpaceMember | unbanUser | getSpaceMemberRole | refuseIfBanned
  | isSpaceMember | listOwnedSpaceIDs | longestServingAdmin | listSpaceIDsByUser => exact owned
  | setSpaceMemberRole space user role => exact owned.setSpaceMemberRole ((Bool.not_eq_true' _).mp spares)
  | removeMember space user ban =>
    have hremoved := owned.deleteSpaceMember ((Bool.not_eq_true' _).mp spares)
    simp only [Tables.proceed]
    split <;> exact hremoved
  | banUser space user isMember =>
    simp only [Tables.proceed]
    split <;> exact owned.banUser
  | transfer space source target =>
    show Owned ((t.transfer space source target).getD t)
    cases htransfer : t.transfer space source target with
    | none => exact owned
    | some handed => exact owned.transfer htransfer
  | createSpaceMember space user role => exact owned.createSpaceMember
  | handOver user fallback space heir rest =>
    simp only [Tables.proceed]
    split
    · exact owned
    · next handed hhandOver => exact owned.handOver spares hhandOver
  | leaveEach user spaces =>
    cases spaces with
    | nil => exact owned
    | cons space rest => exact owned.deleteSpaceMember ((Bool.not_eq_true' _).mp spares)

theorem step {w w' : World} {a : Label} (owned : Owned w.tables) (clear : OwnerClear w a)
    (h : w.step a = some w') : Owned w'.tables := by
  rcases World.step_tables h with hsame | ⟨space, owner, hcreated⟩ | ⟨call, rfl, c, hc, hproceeded⟩
  · exact hsame ▸ owned
  · exact owned.createSpace hcreated
  · exact hproceeded ▸ owned.proceed (clear c hc)

end Owned

/-- A space whose row names somebody who owns nothing of it. -/
theorem not_owned {t : Tables} {s : Space} (hs : s ∈ t.spaces.values) (h : t.members.owns s.id s.owner = false) :
    ¬ Owned t := by
  intro owned
  rw [owned s hs] at h
  cases h

/-- Whoever owns something owns a space there is, as its row says. -/
theorem Owned.named {t : Tables} (owned : Owned t) (hplaced : ∀ m ∈ t.members.rows.values, t.spaces.has m.space = true)
    {space user : Nat} (howns : t.members.owns space user = true) :
    ∃ s ∈ t.spaces.values, s.id = space ∧ s.owner = user := by
  obtain ⟨m, hm, _⟩ := Members.owns_eq_true.mp howns
  have hkey : m.key = (space, user) := Keyed.key_of_get? hm
  obtain ⟨s, hs⟩ := Keyed.has_eq_true.mp (hplaced m (Keyed.mem_values.mpr (hkey ▸ hm)))
  have hid : s.id = space := (Keyed.key_of_get? hs).trans (congrArg Prod.fst hkey)
  have hmem : s ∈ t.spaces.values := Keyed.mem_values.mpr ((Keyed.key_of_get? hs).symm ▸ hs)
  exact ⟨s, hmem, hid, Members.owns_unique (hid ▸ owned s hmem) howns⟩

/-- A hand-over by one who owns nothing, to one who is not in the space, names somebody who is not. -/
theorem handOver_ownerless {t : Tables} (owned : Owned t) {space user heir : Nat} (hspace : t.spaces.has space = true)
    (habsent : t.members.has (space, heir) = false) (howns : t.members.owns space user = false) :
    ∃ t', t.handOver space user heir = some t' ∧ ¬ Owned t' := by
  obtain ⟨s, hs⟩ := Keyed.has_eq_true.mp hspace
  obtain rfl : s.id = space := Keyed.key_of_get? hs
  have hmem : s ∈ t.spaces.values := Keyed.mem_values.mpr hs
  -- whoever owns it keeps it: the one demoted does not, and the index refuses the heir
  obtain ⟨demoted, hdemoted⟩ := Members.setSpaceMemberRole_admin t.members s.id user
  have hkept : demoted.owns s.id s.owner = true := by
    rw [Members.owns_setSpaceMemberRole hdemoted, owned s hmem]
    intro heq
    have hsame : s.owner = user := congrArg Prod.snd heq
    rw [← hsame, owned s hmem] at howns
    cases howns
  have habsent' : demoted.has (s.id, heir) = false := (Members.has_setSpaceMemberRole hdemoted _).trans habsent
  refine ⟨t.updateSpaceOwner s.id heir demoted, ?_, ?_⟩
  · rw [Tables.handOver, hdemoted, Option.bind_some, if_neg (by rw [habsent']; exact Bool.false_ne_true),
      Members.createOwner_refused hkept habsent', Option.map_some]
  · have hrow : s.handTo s.id heir ∈ (t.updateSpaceOwner s.id heir demoted).spaces.values := List.mem_map_of_mem hmem
    refine not_owned hrow ?_
    rw [Space.handTo, if_pos rfl]
    exact Members.owns_of_absent habsent'

/-- **A step that goes by what is no longer so leaves a space with no owner**, or with one its row does not
name: where members are of spaces there are, and no role set is the owner's. -/
theorem proceed_ownerless {t : Tables} {id : Nat} {next : NextStep} (owned : Owned t)
    (hplaced : ∀ m ∈ t.members.rows.values, t.spaces.has m.space = true)
    (hspares : next.spares t.members = false) (hrole : ∀ space user, next ≠ .setSpaceMemberRole space user .owner)
    (hthere : ∀ user fallback space heir rest, next = .handOver user fallback space heir rest →
      t.spaces.has space = true) : ¬ Owned (t.proceed id next).1 := by
  have hremoved : ∀ {space user}, t.members.owns space user = true → ¬ Owned (t.deleteSpaceMember space user) := by
    intro space user howns
    obtain ⟨s, hs, rfl, rfl⟩ := owned.named hplaced howns
    exact @not_owned (t.deleteSpaceMember s.id s.owner) s hs (Members.owns_deleteSpaceMember_self _ _ _)
  cases next with
  | setSpaceMemberRole space user role =>
    have howns : t.members.owns space user = true := (Bool.not_eq_false' _).mp hspares
    obtain ⟨s, hs, rfl, rfl⟩ := owned.named hplaced howns
    obtain ⟨m, hm, _⟩ := Members.owns_eq_true.mp howns
    have hne : role ≠ .owner := fun heq => hrole s.id s.owner (by rw [heq])
    obtain ⟨members, hset⟩ : ∃ members, t.members.setSpaceMemberRole s.id s.owner role = some members := by
      rw [Members.setSpaceMemberRole, hm]
      exact Option.isSome_iff_exists.mp (Indexed.put_unmarked (if_neg hne))
    show ¬ Owned (t.setSpaceMemberRole s.id s.owner role)
    rw [Tables.setSpaceMemberRole, hset]
    exact @not_owned { t with members := members } s hs (Members.owns_demoted hset hne)
  | removeMember space user ban =>
    have hgone := hremoved ((Bool.not_eq_false' _).mp hspares)
    simp only [Tables.proceed]
    split <;> exact hgone
  | handOver user fallback space heir rest =>
    obtain ⟨habsent, howns⟩ := Bool.or_eq_false_iff.mp hspares
    obtain ⟨handed, hhandOver, hgone⟩ :=
      handOver_ownerless owned (hthere user fallback space heir rest rfl) habsent howns
    simp only [Tables.proceed, hhandOver]
    exact hgone
  | leaveEach user spaces =>
    cases spaces with
    | nil => cases hspares
    | cons space rest => exact hremoved ((Bool.not_eq_false' _).mp hspares)
  | requirePermission | actorFor | getSpaceMember | banUser | unbanUser | transfer | getSpaceMemberRole
  | refuseIfBanned | isSpaceMember | createSpaceMember | listOwnedSpaceIDs | longestServingAdmin
  | listSpaceIDsByUser => cases hspares

/-! ## A kick beside a hand-over -/

/-- Ada's space, and Bea in it: Ada makes her an admin. -/
def beaAdmin : List Label :=
  [.createSpace 7 101, .ask 1 ⟨101, false, 7, 102, .addMember⟩, .proceed 1, .proceed 1, .proceed 1, .proceed 1,
    .ask 2 ⟨101, false, 7, 102, .setMemberRole .admin⟩, .proceed 2, .proceed 2, .proceed 2, .proceed 2]

/-- A server admin kicks Bea, as far as the write. -/
def kickChecked : List Label :=
  [.ask 3 ⟨104, true, 7, 102, .kickMember⟩, .proceed 3, .proceed 3, .proceed 3]

/-- Ada hands the space to Bea. -/
def handed : List Label := [.ask 4 ⟨101, false, 7, 102, .transferOwnership⟩, .proceed 4, .proceed 4]

/-- The hand-over comes before the kick reads whom it is of, which refuses it; Ada, who owned another space
too, deletes her account. -/
def handedFirst : List Label :=
  beaAdmin ++ handed ++ kickChecked ++ [.createSpace 8 101, .removePerson 5 101 (some 104), .proceed 5, .proceed 5,
    .proceed 5, .proceed 5, .proceed 5, .proceed 5, .proceed 5]

end Stoop.Spaces
