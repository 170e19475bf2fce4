import Mathlib.Tactic.MkIffOfInductiveProp
import Stoop.Spaces.Members

/-!
# Nobody makes themselves an admin

Who can come to be above the other members of a space, over every run of the calls. `Within who` is the runs in which
only those of `who` are put there by somebody who may: who makes a space, acts as an instance admin in it, redeems an
invite to more than member, or is promoted, handed the space or left it by one of them. In such a run nobody else is
above a member, and whatever anybody else asks that takes an admin is refused (`no_escalation`), whichever way the
calls come between one another: what a call goes by may be out of date, but never was of anybody else.
-/

set_option autoImplicit false

namespace Stoop.Spaces

open Stoop.Lib

/-- What puts a member above the others, if it is done. -/
def Act.raises : Act → Bool
  | .setMemberRole role => role != .member
  | .transferOwnership => true
  | .kickMember | .banMember | .unbanMember | .addMember => false

/-- Whom an asker raises. -/
@[mk_iff] structure Ask.Within (who : Nat → Nat → Prop) (ask : Ask) : Prop where
  admin : ask.instanceAdmin = true → who ask.space ask.me
  raised : who ask.space ask.me → ask.act.raises = true → who ask.space ask.target

/-- A run's next label raises nobody but those of `who`. -/
def Within (who : Nat → Nat → Prop) (_ : World) : Label → Prop
  | .createSpace space owner => who space owner
  | .ask _ ask => ask.Within who
  | .joinWithCode _ space user granted => granted ≠ .member → who space user
  | .removePerson _ _ fallback => ∀ heir ∈ fallback, ∀ space, who space heir
  | .leaveSpace _ _ _ | .joinSpace _ _ _ | .proceed _ | .finish _ => True

/-- Nobody else is above a member, or can do what takes an admin. -/
structure Confined (who : Nat → Nat → Prop) (t : Tables) : Prop where
  above : ∀ m ∈ t.members.rows.values, m.role ≠ .member → who m.space m.user
  owners : ∀ s ∈ t.spaces.values, who s.id s.owner
  refused : ∀ ask : Ask, ask.instanceAdmin = false → ¬who ask.space ask.me →
    ∀ id, t.proceed id (.requirePermission ask) = (t, none)

/-! ## What a call goes by -/

variable {who : Nat → Nat → Prop} {t t' : Members}

def NextStep.Within (who : Nat → Nat → Prop) : NextStep → Prop
  | .requirePermission ask => ask.Within who
  | .actorFor ask | .getSpaceMember ask _ => ask.Within who ∧ who ask.space ask.me
  | .setSpaceMemberRole space user role | .refuseIfBanned space user role | .isSpaceMember space user role
  | .createSpaceMember space user role => role ≠ .member → who space user
  | .transfer space source target => who space source ∧ who space target
  | .listOwnedSpaceIDs _ fallback => ∀ heir ∈ fallback, ∀ space, who space heir
  | .longestServingAdmin user fallback space rest =>
    (∀ heir ∈ fallback, ∀ space, who space heir) ∧ ∀ s ∈ space :: rest, who s user
  | .handOver user fallback space heir rest =>
    who space heir ∧ (∀ heir ∈ fallback, ∀ space, who space heir) ∧ ∀ s ∈ space :: rest, who s user
  | .removeMember _ _ _ | .banUser _ _ _ | .unbanUser _ _ | .getSpaceMemberRole _ _ | .listSpaceIDsByUser _
  | .leaveEach _ _ => True

/-- Nobody else is above a member. -/
def Above (who : Nat → Nat → Prop) (t : Members) : Prop := ∀ m ∈ t.rows.values, m.role ≠ .member → who m.space m.user

namespace Above

theorem put {m : Member} (h : Above who t) (hm : m.role ≠ .member → who m.space m.user) (hput : t.put m = some t') :
    Above who t' := by
  intro n hn
  rw [Indexed.put_eq_some hput] at hn
  obtain ⟨-, rfl⟩ | ⟨-, hold⟩ := Keyed.get?_set_cases (Keyed.mem_values.mp hn)
  · exact hm
  · exact h n (Keyed.mem_values.mpr hold)

theorem setSpaceMemberRole {space user : Nat} {role : SpaceRole} (h : Above who t)
    (hrole : role ≠ .member → who space user) (hset : t.setSpaceMemberRole space user role = some t') :
    Above who t' := by
  simp only [Members.setSpaceMemberRole] at hset
  split at hset
  · exact Option.some.inj hset ▸ h
  · rename_i m hm
    have hkey : m.key = (space, user) := Keyed.key_of_get? hm
    refine h.put ?_ hset
    show role ≠ .member → who m.space m.user
    rw [show m.space = space from congrArg Prod.fst hkey, show m.user = user from congrArg Prod.snd hkey]
    exact hrole

theorem createSpaceMember {space user : Nat} {role : SpaceRole} (h : Above who t)
    (hrole : role ≠ .member → who space user) : Above who (t.createSpaceMember space user role) := by
  simp only [Members.createSpaceMember]
  split
  · exact h
  · cases hput : t.put ⟨space, user, role⟩ with
    | none => exact h
    | some t' => exact h.put hrole hput

theorem deleteSpaceMember (h : Above who t) (space user : Nat) : Above who (t.deleteSpaceMember space user) :=
  fun m hm => h m (List.mem_of_mem_filter hm)

/-- Somebody with an admin's standing is of those. -/
theorem of_allowed {a : Actor} {space user : Nat} {instanceAdmin : Bool} {least : SpaceRole} (h : Above who t)
    (hadmin : instanceAdmin = true → who space user) (hleast : least ≠ .member)
    (ha : a = actorForUser t space user instanceAdmin) (hallowed : a.allowed least = true) : who space user := by
  subst ha
  cases instanceAdmin with
  | true => exact hadmin rfl
  | false =>
    obtain ⟨-, hrole⟩ := (Bool.and_eq_true _ _).mp hallowed
    rw [Option.any_eq_true] at hrole
    obtain ⟨role, hmem, hrank⟩ := hrole
    obtain ⟨m, hm, rfl⟩ := Option.map_eq_some_iff.mp hmem
    have hkey : m.key = (space, user) := Keyed.key_of_get? hm
    have hwho : who m.space m.user := by
      refine h m (Keyed.mem_values.mpr (hkey ▸ hm)) ?_
      intro hmember
      rw [hmember] at hrank
      cases least with
      | member => exact hleast rfl
      | admin => exact nomatch hrank
      | owner => exact nomatch hrank
    rw [show m.space = space from congrArg Prod.fst hkey, show m.user = user from congrArg Prod.snd hkey] at hwho
    exact hwho

end Above

theorem Act.least_ne (act : Act) : act.least ≠ .member := by
  cases act <;> exact nofun

/-- The tables, as far as they say who is above whom. -/
structure Ranks (who : Nat → Nat → Prop) (t : Tables) : Prop where
  above : Above who t.members
  owners : ∀ s ∈ t.spaces.values, who s.id s.owner

namespace Ranks

variable {tables tables' : Tables} {space user : Nat}

theorem handTo {members : Members} {owner : Nat} (h : Ranks who tables) (hmembers : Above who members)
    (howner : who space owner) : Ranks who (tables.updateSpaceOwner space owner members) := by
  refine ⟨hmembers, ?_⟩
  intro s hs
  obtain ⟨old, hold, rfl⟩ := List.mem_map.mp hs
  simp only [Space.handTo]
  split
  · rename_i hspace
    exact hspace ▸ howner
  · exact h.owners old hold

theorem transfer {source target : Nat} (h : Ranks who tables) (hsource : who space source) (htarget : who space target)
    (htransfer : tables.transfer space source target = some tables') : Ranks who tables' := by
  obtain ⟨demoted, hdemoted, hrest⟩ := Option.bind_eq_some_iff.mp htransfer
  obtain ⟨-, hrest⟩ := Option.ite_none_right_eq_some.mp hrest
  obtain ⟨members, hpromoted, rfl⟩ := Option.map_eq_some_iff.mp hrest
  exact h.handTo ((h.above.setSpaceMemberRole (fun _ => hsource) hdemoted).setSpaceMemberRole (fun _ => htarget)
    hpromoted) htarget

theorem handOver {source heir : Nat} (h : Ranks who tables) (hsource : who space source) (hheir : who space heir)
    (hhandOver : tables.handOver space source heir = some tables') : Ranks who tables' := by
  obtain ⟨demoted, hdemoted, hrest⟩ := Option.bind_eq_some_iff.mp hhandOver
  obtain ⟨members, hmembers, rfl⟩ := Option.map_eq_some_iff.mp hrest
  have habove := h.above.setSpaceMemberRole (fun _ => hsource) hdemoted
  refine h.handTo ?_ hheir
  split at hmembers
  · exact habove.setSpaceMemberRole (fun _ => hheir) hmembers
  · exact Option.some.inj hmembers ▸ habove.createSpaceMember fun _ => hheir

theorem createSpace {owner : Nat} (h : Ranks who tables) (howner : who space owner)
    (hcreated : tables.createSpace space owner = some tables') : Ranks who tables' := by
  obtain ⟨-, hcreated⟩ := Option.ite_none_left_eq_some.mp hcreated
  obtain ⟨members, hput, rfl⟩ := Option.map_eq_some_iff.mp hcreated
  refine ⟨h.above.put (fun _ => howner) hput, ?_⟩
  intro s hs
  obtain ⟨-, rfl⟩ | ⟨-, hold⟩ := Keyed.get?_set_cases (Keyed.mem_values.mp hs)
  · exact howner
  · exact h.owners s (Keyed.mem_values.mpr hold)

theorem deleteSpaceMember (h : Ranks who tables) (space user : Nat) : Ranks who (tables.deleteSpaceMember space user) :=
  ⟨h.above.deleteSpaceMember space user, h.owners⟩

theorem banUser (h : Ranks who tables) (id space user : Nat) : Ranks who (tables.banUser id space user) := by
  simp only [Tables.banUser]
  split <;> exact ⟨h.above, h.owners⟩

/-- Whoever passes the check is of those. -/
theorem of_permitted {ask : Ask} (h : Ranks who tables) (hask : ask.Within who)
    (hallowed : (tables.actorFor ask).allowed ask.act.least = true) : who ask.space ask.me :=
  h.above.of_allowed hask.admin ask.act.least_ne rfl hallowed

/-- **A call's next step** keeps the ranks, and goes by those who may. -/
theorem proceed {id : Nat} {next : NextStep} (h : Ranks who tables) (hnext : next.Within who) :
    Ranks who (tables.proceed id next).1 ∧ ∀ later ∈ (tables.proceed id next).2, later.Within who := by
  have hnone : ∀ later : NextStep, later ∈ (none : Option NextStep) → later.Within who := fun _ hlater => by cases hlater
  cases next with
  | requirePermission ask =>
    refine ⟨h, ?_⟩
    intro later hlater
    obtain ⟨hallowed, ⟨⟩⟩ := Option.ite_none_right_eq_some.mp hlater
    have hme := h.of_permitted hnext hallowed
    simp only [permitted]
    split
    · exact ⟨hnext, hme⟩
    · exact ⟨hnext, hme⟩
    · exact ⟨hnext, hme⟩
    · trivial
    · rename_i hact
      exact ⟨hme, hnext.raised hme (hact ▸ rfl)⟩
    · exact fun hrole => absurd rfl hrole
  | actorFor ask =>
    refine ⟨h, ?_⟩
    rintro _ ⟨⟩
    exact hnext
  | getSpaceMember ask a =>
    refine ⟨h, ?_⟩
    intro later hlater
    simp only [Tables.proceed, targeted] at hlater
    split at hlater
    · obtain ⟨-, ⟨⟩⟩ := Option.ite_none_right_eq_some.mp hlater
      trivial
    · obtain ⟨-, hlater⟩ := Option.ite_none_right_eq_some.mp hlater
      split at hlater
      · rename_i role hact
        obtain ⟨-, ⟨⟩⟩ := Option.ite_none_right_eq_some.mp hlater
        intro hrole
        refine hnext.1.raised hnext.2 ?_
        rw [hact]
        exact bne_iff_ne.mpr hrole
      · obtain ⟨⟩ := hlater
        trivial
      · obtain ⟨⟩ := hlater
        trivial
      all_goals cases hlater
  | setSpaceMemberRole space user role =>
    refine ⟨⟨?_, h.owners⟩, hnone⟩
    show Above who ((tables.members.setSpaceMemberRole space user role).getD tables.members)
    cases hset : tables.members.setSpaceMemberRole space user role with
    | none => exact h.above
    | some members => exact h.above.setSpaceMemberRole hnext hset
  | removeMember space user ban =>
    refine ⟨?_, hnone⟩
    have hremoved := h.deleteSpaceMember space user
    simp only [Tables.proceed]
    split
    · exact ⟨hremoved.above, hremoved.owners⟩
    · exact hremoved
  | banUser space user isMember =>
    have hbanned := h.banUser id space user
    simp only [Tables.proceed]
    split
    · refine ⟨hbanned, ?_⟩
      rintro _ ⟨⟩
      trivial
    · exact ⟨⟨hbanned.above, hbanned.owners⟩, hnone⟩
  | unbanUser space user => exact ⟨⟨h.above, h.owners⟩, hnone⟩
  | transfer space source target =>
    refine ⟨?_, hnone⟩
    show Ranks who ((tables.transfer space source target).getD tables)
    cases htransfer : tables.transfer space source target with
    | none => exact h
    | some handed => exact h.transfer hnext.1 hnext.2 htransfer
  | getSpaceMemberRole space user =>
    refine ⟨h, ?_⟩
    intro later hlater
    obtain ⟨m, -, hlater⟩ := Option.bind_eq_some_iff.mp hlater
    obtain ⟨-, ⟨⟩⟩ := Option.ite_none_left_eq_some.mp hlater
    trivial
  | refuseIfBanned space user role =>
    refine ⟨h, ?_⟩
    intro later hlater
    obtain ⟨-, ⟨⟩⟩ := Option.ite_none_left_eq_some.mp hlater
    exact hnext
  | isSpaceMember space user role =>
    refine ⟨h, ?_⟩
    intro later hlater
    obtain ⟨-, ⟨⟩⟩ := Option.ite_none_left_eq_some.mp hlater
    exact hnext
  | createSpaceMember space user role =>
    refine ⟨?_, hnone⟩
    show Ranks who (tables.createSpaceMember space user role)
    simp only [Tables.createSpaceMember]
    split
    · exact ⟨h.above.createSpaceMember hnext, h.owners⟩
    · exact h
  | listOwnedSpaceIDs user fallback =>
    refine ⟨h, ?_⟩
    rintro _ ⟨⟩
    have howned : ∀ s ∈ (tables.spaces.values.filter (·.owner == user)).map (·.id), who s user := by
      intro s hs
      obtain ⟨space, hspace, rfl⟩ := List.mem_map.mp hs
      obtain ⟨hmem, howner⟩ := List.mem_filter.mp hspace
      exact eq_of_beq howner ▸ h.owners space hmem
    simp only [nextOwned]
    split
    · trivial
    · rename_i heq
      exact ⟨hnext, heq ▸ howned⟩
  | longestServingAdmin user fallback space rest =>
    refine ⟨h, ?_⟩
    intro later hlater
    obtain ⟨heir, hheir, rfl⟩ := Option.map_eq_some_iff.mp hlater
    refine ⟨?_, hnext.1, hnext.2⟩
    obtain hserving | ⟨-, hfallback⟩ := Option.or_eq_some_iff.mp hheir
    · obtain ⟨m, hm, rfl⟩ := Option.map_eq_some_iff.mp hserving
      have hserves := List.find?_some hm
      obtain ⟨hspace, hrole⟩ := (Bool.and_eq_true _ _).mp hserves
      rw [← eq_of_beq hspace]
      refine h.above m (List.mem_of_find?_eq_some hm) ?_
      rw [eq_of_beq hrole]
      rintro ⟨⟩
    · exact hnext.1 heir hfallback space
  | handOver user fallback space heir rest =>
    obtain ⟨hheir, hfallback, howned⟩ := hnext
    simp only [Tables.proceed]
    split
    · exact ⟨h, hnone⟩
    · rename_i handed hhandOver
      refine ⟨h.handOver (howned space List.mem_cons_self) hheir hhandOver, ?_⟩
      rintro _ ⟨⟩
      cases rest with
      | nil => trivial
      | cons next rest => exact ⟨hfallback, fun s hs => howned s (List.mem_cons_of_mem _ hs)⟩
  | listSpaceIDsByUser user =>
    refine ⟨h, ?_⟩
    rintro _ ⟨⟩
    trivial
  | leaveEach user spaces =>
    cases spaces with
    | nil => exact ⟨h, hnone⟩
    | cons space rest =>
      refine ⟨h.deleteSpaceMember space user, ?_⟩
      rintro _ ⟨⟩
      trivial

end Ranks

/-! ## Every run -/

/-- What every step within `who` keeps. -/
structure Ranked (who : Nat → Nat → Prop) (w : World) : Prop where
  ranks : Ranks who w.tables
  calls : ∀ c ∈ w.calls.values, c.next.Within who

namespace Ranked

variable {w w' : World}

theorem begun (h : Ranked who w) {id : Nat} {next : NextStep} (hnext : next.Within who)
    (hbegun : w.begun id next = some w') : Ranked who w' := by
  obtain ⟨-, ⟨⟩⟩ := Option.ite_none_left_eq_some.mp hbegun
  refine ⟨h.ranks, ?_⟩
  intro c hc
  obtain ⟨-, rfl⟩ | ⟨-, hold⟩ := Keyed.get?_set_cases (Keyed.mem_values.mp hc)
  · exact hnext
  · exact h.calls c (Keyed.mem_values.mpr hold)

theorem step (h : Ranked who w) {a : Label} (hwithin : Within who w a) (hstep : w.step a = some w') :
    Ranked who w' := by
  cases a with
  | createSpace space owner =>
    obtain ⟨tables, hcreated, rfl⟩ := Option.map_eq_some_iff.mp hstep
    exact ⟨h.ranks.createSpace hwithin hcreated, h.calls⟩
  | ask call ask =>
    obtain ⟨-, hbegun⟩ := Option.ite_none_left_eq_some.mp hstep
    have hnext : (NextStep.requirePermission ask).Within who := hwithin
    exact h.begun hnext hbegun
  | leaveSpace call space user =>
    refine h.begun ?_ hstep
    trivial
  | joinSpace call space user =>
    refine h.begun ?_ hstep
    exact fun hrole => absurd rfl hrole
  | joinWithCode call space user granted =>
    obtain ⟨-, hbegun⟩ := Option.ite_none_left_eq_some.mp hstep
    refine h.begun ?_ hbegun
    exact hwithin
  | removePerson call user fallback =>
    refine h.begun ?_ hstep
    exact hwithin
  | proceed call =>
    obtain ⟨c, hc, rfl⟩ := Option.map_eq_some_iff.mp hstep
    have hkey : c.id = call := Keyed.key_of_get? hc
    obtain ⟨hranks, hlater⟩ := h.ranks.proceed (h.calls c (Keyed.mem_values.mpr (hkey ▸ hc)))
    refine ⟨hranks, ?_⟩
    intro d hd
    dsimp only at hd
    split at hd
    · exact h.calls d (List.mem_of_mem_filter hd)
    · rename_i later hsome
      obtain ⟨-, rfl⟩ | ⟨-, hold⟩ := Keyed.get?_set_cases (Keyed.mem_values.mp hd)
      · exact hlater later hsome
      · exact h.calls d (Keyed.mem_values.mpr hold)
  | finish call =>
    obtain ⟨⟩ := hstep
    exact ⟨h.ranks, fun c hc => h.calls c (List.mem_of_mem_filter hc)⟩

end Ranked

/-- **Nobody makes themselves an admin**: in every run in which only those of `who` are raised by one who may, only
they are above a member, only they own a space, and what anybody else asks that takes an admin is refused. -/
theorem no_escalation {w : World} (run : Runs World.step (Within who) World.start w) : Confined who w.tables := by
  have h : Ranked who w := by
    refine run.keeps ⟨⟨?_, ?_⟩, ?_⟩ fun _ _ _ inv hwithin hstep => inv.step hwithin hstep
    · exact fun _ hm => absurd hm List.not_mem_nil
    · exact fun _ hs => absurd hs List.not_mem_nil
    · exact fun _ hc => absurd hc List.not_mem_nil
  refine ⟨h.ranks.above, h.ranks.owners, ?_⟩
  intro ask hadmin hnot id
  have hdenied : ¬(w.tables.actorFor ask).allowed ask.act.least = true := by
    intro hallowed
    refine hnot (h.ranks.above.of_allowed ?_ ask.act.least_ne rfl hallowed)
    rw [hadmin]
    rintro ⟨⟩
  show (w.tables, if _ then some (permitted ask) else none) = _
  rw [if_neg hdenied]

/-- Ada makes a space, takes Bea in and makes her an admin; Cy, who joins by a code, asks to be one too. -/
def cyAsks : List Label :=
  [.createSpace 7 101, .ask 1 ⟨101, false, 7, 102, .addMember⟩, .proceed 1, .proceed 1, .proceed 1, .proceed 1,
    .ask 2 ⟨101, false, 7, 102, .setMemberRole .admin⟩, .proceed 2, .proceed 2, .proceed 2, .proceed 2,
    .joinWithCode 3 7 103 .member, .proceed 3, .proceed 3, .proceed 3,
    .ask 4 ⟨103, false, 7, 103, .setMemberRole .admin⟩, .proceed 4]

theorem no_escalation_cy :
    ((World.after cyAsks).tables.members.rows.values.map fun m => (m.user, m.role)) =
        [(101, .owner), (102, .admin), (103, .member)] ∧
      Confined (fun space user => space = 7 ∧ user ≠ 103) (World.after cyAsks).tables := by
  refine ⟨by decide, no_escalation (Runs.ofList cyAsks (EachStep.of_forall ?_ _) rfl)⟩
  simp [cyAsks, Within, Ask.within_iff, Act.raises]

end Stoop.Spaces
