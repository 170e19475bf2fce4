import Stoop.Spaces.Members

/-!
# Bans and members

That whom a finished ban keeps out of a space is not in it, until the ban is lifted, through every run of
the calls. A ban that has finished found nobody there or took them out (`BannedOut`), and from then on a
membership would have to be made beside it. Nothing forbids that: each way of joining reads the bans before
its write (`refuseIfBanned`), and a ban reads the membership before its own. `banned_out` is the runs in
which what was read is still so (`BanClear`), `joined_beside_ban` one in which a ban comes between a join's
read and its write.
-/

set_option autoImplicit false

namespace Stoop.Spaces

open Stoop.Lib

/-- Whether a ban of the person by a call that has finished stands. -/
def Tables.keepsOut (t : Tables) (space user : Nat) : Bool := (t.bans.get? (space, user)).any (·.settled)

/-- Whoever a finished ban keeps out of a space is not in it. -/
def BannedOut (t : Tables) : Prop := ∀ b ∈ t.bans.values, b.settled = true → t.members.has b.key = false

/-- A membership is made of nobody a finished ban keeps out, and who is banned as no member is none still. -/
def NextStep.heeds (t : Tables) : NextStep → Bool
  | .createSpaceMember space user _ => !t.keepsOut space user
  | .handOver _ _ space heir _ => !t.keepsOut space heir
  | .banUser space user isMember => isMember || !t.members.has (space, user)
  | _ => true

def BanClear (w : World) : Label → Prop
  | .proceed call => ∀ c ∈ w.calls.get? call, c.next.heeds w.tables = true
  | _ => True

instance (w : World) : (a : Label) → Decidable (BanClear w a)
  | .proceed call => inferInstanceAs (Decidable (∀ c, c ∈ w.calls.get? call → _))
  | .createSpace _ _ | .ask _ _ | .leaveSpace _ _ _ | .joinSpace _ _ _ | .joinWithCode _ _ _ _
  | .removePerson _ _ _ | .finish _ => inferInstanceAs (Decidable True)

/-- A call to ban, to lift a ban or to join. -/
def OfBans (_ : World) : Label → Prop
  | .ask _ ask => ask.act = .banMember ∨ ask.act = .unbanMember ∨ ask.act = .addMember
  | .leaveSpace _ _ _ | .removePerson _ _ _ => False
  | _ => True

instance (w : World) : (a : Label) → Decidable (OfBans w a)
  | .ask _ _ => inferInstanceAs (Decidable (_ ∨ _))
  | .leaveSpace _ _ _ | .removePerson _ _ _ => inferInstanceAs (Decidable False)
  | .createSpace _ _ | .joinSpace _ _ _ | .joinWithCode _ _ _ _ | .proceed _ | .finish _ =>
    inferInstanceAs (Decidable True)

/-- What every run keeps: a ban is of a space there is, and keeps out whom it is of once it has finished. -/
structure Heeded (t : Tables) : Prop where
  placed : ∀ b ∈ t.bans.values, t.spaces.has b.space = true
  out : BannedOut t

namespace Heeded

variable {t t' : Tables} {members : Members} {space user id : Nat}

/-- Members among whom nobody is new, but perhaps one whom no finished ban keeps out. -/
theorem withMember (inv : Heeded t) (h : ∀ k, members.has k = true → t.members.has k = true ∨
      k = (space, user) ∧ t.keepsOut space user = false) : Heeded { t with members := members } where
  placed := inv.placed
  out b hb hsettled := by
    show members.has b.key = false
    rw [← Bool.not_eq_true]
    intro hhas
    rcases h b.key hhas with hbefore | ⟨hkey, hout⟩
    · rw [inv.out b hb hsettled] at hbefore
      cases hbefore
    · have hfound := Keyed.mem_values.mp hb
      rw [hkey] at hfound
      rw [Tables.keepsOut, hfound, Option.any_some, hsettled] at hout
      cases hout

/-- No more members than there were. -/
theorem fewer (inv : Heeded t) (h : ∀ k, members.has k = true → t.members.has k = true) :
    Heeded { t with members := members } :=
  @withMember t members 0 0 inv fun k hk => .inl (h k hk)

theorem setSpaceMemberRole {role : SpaceRole} (inv : Heeded t) : Heeded (t.setSpaceMemberRole space user role) := by
  refine inv.fewer fun k h => ?_
  cases hset : t.members.setSpaceMemberRole space user role with
  | none =>
    rw [hset] at h
    exact h
  | some members =>
    rw [hset, Option.getD_some, Members.has_setSpaceMemberRole hset] at h
    exact h

theorem deleteSpaceMember (inv : Heeded t) : Heeded (t.deleteSpaceMember space user) := by
  refine inv.fewer fun k h => ?_
  change ((t.members.deleteSpaceMember space user).get? k).isSome = true at h
  rw [Members.get?_deleteSpaceMember] at h
  split at h
  · cases h
  · exact h

theorem createSpaceMember {role : SpaceRole} (inv : Heeded t) (hout : t.keepsOut space user = false) :
    Heeded (t.createSpaceMember space user role) := by
  simp only [Tables.createSpaceMember]
  split
  · refine @withMember t _ space user inv fun k h => ?_
    by_cases hsame : k = (space, user)
    · exact .inr ⟨hsame, hout⟩
    · exact .inl (Members.has_createSpaceMember hsame h)
  · exact inv

/-- A ban row put in its place: of a space there is, and as finished as the one before it. -/
theorem banUser (inv : Heeded t) : Heeded (t.banUser id space user) := by
  simp only [Tables.banUser]
  split
  · next hspace =>
    refine ⟨fun b hb => ?_, fun b hb hsettled => ?_⟩
    · rcases Keyed.get?_set_cases (Keyed.mem_values.mp hb) with ⟨_, rfl⟩ | ⟨_, hold⟩
      · split
        · exact hspace
        · next old hfound =>
          have hkey : old.key = (space, user) := Keyed.key_of_get? hfound
          exact inv.placed old (Keyed.mem_values.mpr (hkey ▸ hfound))
      · exact inv.placed b (Keyed.mem_values.mpr hold)
    · rcases Keyed.get?_set_cases (Keyed.mem_values.mp hb) with ⟨_, rfl⟩ | ⟨_, hold⟩
      · split at hsettled
        · cases hsettled
        · next old hfound =>
          have hkey : old.key = (space, user) := Keyed.key_of_get? hfound
          exact inv.out old (Keyed.mem_values.mpr (hkey ▸ hfound)) hsettled
      · exact inv.out b (Keyed.mem_values.mpr hold) hsettled
  · exact inv

/-- **A ban that finishes** leaves nobody there. -/
theorem settle (inv : Heeded t) (habsent : t.members.has (space, user) = false) :
    Heeded (t.settle id space user) := by
  refine ⟨fun b hb => ?_, fun b hb hsettled => ?_⟩
  · obtain ⟨old, hold, rfl⟩ := List.mem_map.mp hb
    have hspace : (old.settle space user id).space = old.space :=
      congrArg Prod.fst (Ban.key_settle space user id old)
    rw [hspace]
    exact inv.placed old hold
  · obtain ⟨old, hold, rfl⟩ := List.mem_map.mp hb
    rw [Ban.key_settle]
    simp only [Ban.settle] at hsettled
    split at hsettled
    · next hown =>
      rw [hown.1]
      exact habsent
    · exact inv.out old hold hsettled

/-- A space handed on, to a member or to one whom no finished ban keeps out. -/
theorem updateSpaceOwner {owner : Nat} (inv : Heeded t) (h : ∀ k, members.has k = true → t.members.has k = true ∨
      k = (space, owner) ∧ t.keepsOut space owner = false) : Heeded (t.updateSpaceOwner space owner members) := by
  refine ⟨fun b hb => ?_, (inv.withMember h).out⟩
  obtain ⟨s, hs⟩ := Keyed.has_eq_true.mp (inv.placed b hb)
  rw [Keyed.has_eq_true]
  exact ⟨s.handTo space owner, by rw [Tables.updateSpaceOwner, Keyed.get?_map, hs, Option.map_some]⟩

theorem transfer {source target : Nat} (inv : Heeded t) (h : t.transfer space source target = some t') :
    Heeded t' := by
  obtain ⟨demoted, hdemoted, hrest⟩ := Option.bind_eq_some_iff.mp h
  split at hrest
  · obtain ⟨members, hpromoted, rfl⟩ := Option.map_eq_some_iff.mp hrest
    refine inv.updateSpaceOwner fun k hk => .inl ?_
    rw [Members.has_setSpaceMemberRole hpromoted, Members.has_setSpaceMemberRole hdemoted] at hk
    exact hk
  · cases hrest

theorem handOver {heir : Nat} (inv : Heeded t) (hout : t.keepsOut space heir = false)
    (h : t.handOver space user heir = some t') : Heeded t' := by
  obtain ⟨demoted, hdemoted, hrest⟩ := Option.bind_eq_some_iff.mp h
  obtain ⟨members, hmembers, rfl⟩ := Option.map_eq_some_iff.mp hrest
  refine inv.updateSpaceOwner fun k hk => ?_
  split at hmembers
  · rw [Members.has_setSpaceMemberRole hmembers, Members.has_setSpaceMemberRole hdemoted] at hk
    exact .inl hk
  · by_cases hsame : k = (space, heir)
    · exact .inr ⟨hsame, hout⟩
    · rw [← Option.some.inj hmembers] at hk
      have hbefore := Members.has_createSpaceMember hsame hk
      rw [Members.has_setSpaceMemberRole hdemoted] at hbefore
      exact .inl hbefore

/-- A new space, and nobody banned from it. -/
theorem createSpace (inv : Heeded t) (h : t.createSpace space user = some t') : Heeded t' := by
  simp only [Tables.createSpace] at h
  split at h
  · cases h
  · next hnew =>
    obtain ⟨members, hput, rfl⟩ := Option.map_eq_some_iff.mp h
    have hne : ∀ b ∈ t.bans.values, space ≠ b.space := fun b hb heq => hnew (heq ▸ inv.placed b hb)
    refine ⟨fun b hb => ?_, fun b hb hsettled => ?_⟩
    · obtain ⟨s, hs⟩ := Keyed.has_eq_true.mp (inv.placed b hb)
      exact Keyed.has_eq_true.mpr ⟨s, by rw [Keyed.get?_set, if_neg (hne b hb), hs]⟩
    · show (Indexed.get? members b.key).isSome = false
      rw [Indexed.get?_put hput, if_neg fun heq => hne b hb (congrArg Prod.fst heq)]
      exact inv.out b hb hsettled

/-! ## One step -/

/-- The next step of a call that goes by what is still so. -/
theorem proceed {next : NextStep} (inv : Heeded t) (heeds : next.heeds t = true) :
    Heeded (t.proceed id next).1 := by
  cases next with
  | requirePermission | actorFor | getSpaceMember | getSpaceMemberRole | refuseIfBanned | isSpaceMember
  | listOwnedSpaceIDs | longestServingAdmin | listSpaceIDsByUser => exact inv
  | setSpaceMemberRole space user role => exact inv.setSpaceMemberRole
  | removeMember space user ban =>
    cases ban with
    | true => exact inv.deleteSpaceMember.settle (Members.has_deleteSpaceMember _ _ _)
    | false => exact inv.deleteSpaceMember
  | banUser space user isMember =>
    cases isMember with
    | true => exact inv.banUser
    | false =>
      have habsent : t.members.has (space, user) = false := (Bool.not_eq_true' _).mp heeds
      have hsame : (t.banUser id space user).members = t.members := by
        simp only [Tables.banUser]
        split <;> rfl
      exact inv.banUser.settle (hsame ▸ habsent)
  | unbanUser space user =>
    exact ⟨fun b hb => inv.placed b (List.mem_of_mem_filter hb), fun b hb => inv.out b (List.mem_of_mem_filter hb)⟩
  | transfer space source target =>
    show Heeded ((t.transfer space source target).getD t)
    cases htransfer : t.transfer space source target with
    | none => exact inv
    | some handed => exact inv.transfer htransfer
  | createSpaceMember space user role => exact inv.createSpaceMember ((Bool.not_eq_true' _).mp heeds)
  | handOver user fallback space heir rest =>
    simp only [Tables.proceed]
    split
    · exact inv
    · next handed hhandOver => exact inv.handOver ((Bool.not_eq_true' _).mp heeds) hhandOver
  | leaveEach user spaces =>
    cases spaces with
    | nil => exact inv
    | cons space rest => exact inv.deleteSpaceMember

theorem step {w w' : World} {a : Label} (inv : Heeded w.tables) (clear : BanClear w a)
    (h : w.step a = some w') : Heeded w'.tables := by
  rcases World.step_tables h with hsame | ⟨space, owner, hcreated⟩ | ⟨call, rfl, c, hc, hproceeded⟩
  · exact hsame ▸ inv
  · exact inv.createSpace hcreated
  · exact hproceeded ▸ inv.proceed (clear c hc)

end Heeded

/-- Ada bans Bea from her space, whom she had added: Bea's next join is refused. -/
def bannedFirst : List Label :=
  [.createSpace 7 101, .ask 1 ⟨101, false, 7, 102, .addMember⟩, .proceed 1, .proceed 1, .proceed 1, .proceed 1,
    .ask 2 ⟨101, false, 7, 102, .banMember⟩, .proceed 2, .proceed 2, .proceed 2, .proceed 2, .proceed 2,
    .joinWithCode 3 7 102 .member, .proceed 3]

/-- Bea's join reads the bans, Ada bans her, and the join goes on. -/
def bannedWithin : List Label :=
  [.createSpace 7 101, .joinWithCode 1 7 102 .member, .proceed 1,
    .ask 2 ⟨101, false, 7, 102, .banMember⟩, .proceed 2, .proceed 2, .proceed 2, .proceed 2,
    .proceed 1, .proceed 1]

end Stoop.Spaces
