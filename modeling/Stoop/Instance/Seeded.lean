import Stoop.Instance.Accepted

/-!
# Seeding is faithful and final

What a start does to a group's row: nothing, if there is one, but for the one repair of a row from before seeding
(`start_group`); else it gives it the environment's value where the environment sets it (`Service.seeded`). So the
environment is in force once an empty database is filled, and a row is final from then on.

## Main results

* `start_group`, `kept`: one start, and any run in which no call changes a group.
* `seeds_once`: fresh, final, cleared and reset rows, in every run of starts and calls.
-/

set_option autoImplicit false

namespace Stoop.Instance.Rows

open Stoop.Lib
open Stoop.Lib.NetIP (Text)
open Stoop.Lib.Json

/-! ## What the environment says of a group -/

variable (s : Service) (t : Table)

/-- A group's setting in the environment; of a server it does not name, the name is given. -/
def Service.setting (unnamed : Text) : (g : Group) → g.Setting
  | .publicURL => s.env.publicURL
  | .trustedProxies => s.env.trustedProxies
  | .turn => s.env.turn
  | .cloudflareTURN => s.env.cloudflare
  | .tailscale => s.env.tailscale
  | .cloudflareTunnel => s.env.cloudflareTunnel
  | .loginProviders => s.loginEnv
  | .passwordSignIn => if s.passwordEnv = [] then passwordEveryone else s.passwordEnv
  | .instanceName => if s.instanceNameEnv = [] then unnamed else s.instanceNameEnv
  | .smtp => if s.smtpEnv.host ≠ [] then s.smtpEnv else .unsaved

/-- A group's setting as its row. -/
def Group.encode : (g : Group) → g.Setting → Value
  | .publicURL | .passwordSignIn | .instanceName => Codec.string.encode
  | .trustedProxies => fun set => addressesCodec.encode set.set.strings
  | .turn => TURNRelay.codec.encode
  | .cloudflareTURN => CloudflareTURN.codec.encode
  | .tailscale => TailscaleSettings.codec.encode
  | .cloudflareTunnel => CloudflareTunnelSettings.codec.encode
  | .loginProviders => providersCodec.encode
  | .smtp => SMTP.codec.encode

def Seed.row (seed : Seed) : Option Value := if seed.set then some seed.value else none

/-- The row a group without one is given. -/
def Service.seeded (g : Group) : Option Value := (s.seeds.find? fun seed => seed.group == g).bind Seed.row

/-! ## Settings in force of a row -/

variable {s t} {g : Group}

/-- A set written as its strings is read back. -/
theorem parse_set_strings (set : ProxySet) : TrustedProxy.parse set.set.strings = .ok set.set := by
  rw [TrustedProxy.parse_strings, List.map_congr_left set.masked, List.map_id']

theorem parse_strings (set : ProxySet) : ProxySet.parse set.set.strings = .ok set := by
  rw [ProxySet.parse]
  split
  next parsed hparse =>
    cases hparse.symm.trans (parse_set_strings set)
    rfl
  next e hparse => cases hparse.symm.trans (parse_set_strings set)

theorem inForce_of_none (h : t (.group g) = none) : inForce s t g = .ok (s.setting "Stoop".toList g) := by
  cases g
  case trustedProxies =>
    rw [inForce, trustedProxies, readJSON_of_none h]
    rfl
  all_goals exact readSettingOr_of_none h

theorem inForce_encode {value : g.Setting} (h : t (.group g) = some (g.encode value)) :
    inForce s t g = .ok value := by
  cases g
  case trustedProxies =>
    rw [inForce, trustedProxies, readJSON_encode h]
    have hparse := parse_strings value
    refine congrArg Except.ok ?_
    dsimp only
    split
    next set hset => exact Except.ok.inj (hset.symm.trans hparse)
    next e he => cases he.symm.trans hparse
  all_goals exact readSettingOr_encode h

theorem setting_unnamed (hg : g ≠ .instanceName) (a b : Text) : s.setting a g = s.setting b g := by
  cases g
  case instanceName => exact absurd rfl hg
  all_goals rfl

/-! ## Seeding -/

theorem sow_group {seeds : List Seed} (hnodup : (seeds.map (·.group)).Nodup) (t : Table) (g : Group) :
    (seeds.foldl Seed.sow t) (.group g) =
      (t (.group g)).or ((seeds.find? fun seed => seed.group == g).bind Seed.row) := by
  induction seeds generalizing t with
  | nil => exact (Option.or_none ..).symm
  | cons seed seeds ih =>
    obtain ⟨hnot, hrest⟩ := List.nodup_cons.mp hnodup
    rw [List.foldl_cons, ih hrest, List.find?_cons]
    by_cases hgroup : seed.group = g
    · subst hgroup
      have hnone : (seeds.find? fun seed' => seed'.group == seed.group) = none :=
        List.find?_eq_none.mpr fun seed' hseed' heq =>
          hnot (List.mem_map.mpr ⟨seed', hseed', eq_of_beq heq⟩)
      rw [hnone, beq_self_eq_true, Option.bind_none, Option.or_none, Option.bind_some, Seed.sow, Seed.row,
        Table.seed]
      cases seed.set with
      | false => exact (Option.or_none ..).symm
      | true =>
        cases hrow : t (.group seed.group) with
        | some value => exact hrow
        | none => exact Table.set_self
    · have hkey : Key.group g ≠ .group seed.group := fun h => hgroup (Key.group.inj h).symm
      rw [beq_false_of_ne hgroup, Seed.sow, Table.seed]
      split
      · split
        · rfl
        · rw [Table.set_of_ne hkey]
      · rfl

theorem sow_mark {seeds : List Seed} (t : Table) :
    (seeds.foldl Seed.sow t) .preSeedRepaired = t .preSeedRepaired := by
  induction seeds generalizing t with
  | nil => rfl
  | cons seed seeds ih =>
    rw [List.foldl_cons, ih, Seed.sow, Table.seed]
    split
    · split
      · rfl
      · exact Table.set_of_ne (by rintro ⟨⟩)
    · rfl

theorem seeded_group (s : Service) (t : Table) (g : Group) :
    (s.seeds.foldl Seed.sow t) (.group g) = (t (.group g)).or (s.seeded g) := by
  refine sow_group ?_ t g
  change [Group.publicURL, .turn, .cloudflareTURN, .tailscale, .cloudflareTunnel, .trustedProxies,
    .loginProviders, .passwordSignIn, .smtp].Nodup
  decide

/-- A seeded row is the environment's setting. -/
theorem seeded_setting {value : Value} (h : s.seeded g = some value) (unnamed : Text) :
    value = g.encode (s.setting unnamed g) := by
  cases g
  case instanceName => cases h
  case passwordSignIn =>
    obtain ⟨hset, ⟨⟩⟩ := Option.ite_none_right_eq_some.mp h
    have hne : s.passwordEnv ≠ [] := fun hnil => by simp [hnil] at hset
    exact congrArg Codec.string.encode (if_neg hne).symm
  case smtp =>
    obtain ⟨hset, ⟨⟩⟩ := Option.ite_none_right_eq_some.mp h
    have hne : s.smtpEnv.host ≠ [] := fun hnil => by simp [hnil] at hset
    exact congrArg SMTP.codec.encode (if_pos hne).symm
  all_goals
    obtain ⟨-, ⟨⟩⟩ := Option.ite_none_right_eq_some.mp h
    rfl

/-! ## The repair -/

/-- A row from before seeding as the repair fills it: a tunnel's blank token, or an empty list of providers. -/
def Repaired (s : Service) (value value' : Value) : Group → Prop
  | .cloudflareTunnel => ∃ saved, CloudflareTunnelSettings.codec.into {} value = some saved ∧ saved.token = [] ∧
      s.env.cloudflareTunnel.token ≠ [] ∧
      value' = CloudflareTunnelSettings.codec.encode { saved with token := s.env.cloudflareTunnel.token }
  | .loginProviders => providersCodec.into [] value = some [] ∧ s.loginEnv ≠ [] ∧
      value' = providersCodec.encode s.loginEnv
  | _ => False

/-- What is filled is not filled again. -/
theorem Repaired.once {s s' : Service} {a b c : Value} (h : Repaired s a b g) : ¬Repaired s' b c g := by
  cases g
  case cloudflareTunnel =>
    obtain ⟨saved, -, -, htoken, rfl⟩ := h
    rintro ⟨saved', hread, hblank, -, -⟩
    rw [Codec.into_encode] at hread
    obtain rfl := Option.some.inj hread
    exact htoken hblank
  case loginProviders =>
    obtain ⟨-, hproviders, rfl⟩ := h
    rintro ⟨hread, -, -⟩
    rw [Codec.into_encode] at hread
    exact hproviders (Option.some.inj hread)
  all_goals exact h.elim

/-- A row after a step of the repair: as it was, or filled. -/
def Spared (s : Service) (t t' : Table) (g : Group) : Prop :=
  t' (.group g) = t (.group g) ∨
    ∃ value value', t (.group g) = some value ∧ t' (.group g) = some value' ∧ Repaired s value value' g

theorem readJSON_eq_some {α : Type} {c : Codec α} {zero a : α} {key : Key}
    (h : readJSON c zero t key = .ok (some a)) :
    ∃ value, t key = some value ∧ c.into zero value = some a := by
  rw [readJSON] at h
  split at h
  next => cases h
  next raw hraw =>
    split at h
    next => cases h
    next value hvalue =>
      cases h
      exact ⟨raw, hraw, hvalue⟩

theorem fillTunnelToken_spared {t' : Table} (h : fillTunnelToken s t = .ok t') :
    (∀ g, Spared s t t' g) ∧ t' (.group .loginProviders) = t (.group .loginProviders) ∧
      t' .preSeedRepaired = t .preSeedRepaired := by
  have hsame : t' = t → (∀ g, Spared s t t' g) ∧ t' (.group .loginProviders) = t (.group .loginProviders) ∧
      t' .preSeedRepaired = t .preSeedRepaired := by
    rintro rfl
    exact ⟨fun _ => .inl rfl, rfl, rfl⟩
  rw [fillTunnelToken] at h
  split at h
  next => cases h
  next => exact hsame (Except.ok.inj h).symm
  next saved hread =>
    split at h
    next => exact hsame (Except.ok.inj h).symm
    next hblank =>
      obtain rfl := Except.ok.inj h
      obtain ⟨htoken, henv⟩ := not_or.mp hblank
      refine ⟨fun g => ?_, Table.set_of_ne nofun, Table.set_of_ne nofun⟩
      by_cases hg : g = .cloudflareTunnel
      · subst hg
        obtain ⟨value, hrow, hinto⟩ := readJSON_eq_some hread
        exact .inr ⟨value, _, hrow, Table.set_self, saved, hinto, not_not.mp htoken, henv, rfl⟩
      · exact .inl (Table.set_of_ne fun h => hg (Key.group.inj h))

theorem fillLoginProviders_spared {t' : Table} (h : fillLoginProviders s t = .ok t') :
    (∀ g ≠ .loginProviders, t' (.group g) = t (.group g)) ∧ Spared s t t' .loginProviders := by
  have hsame : t' = t →
      (∀ g ≠ .loginProviders, t' (.group g) = t (.group g)) ∧ Spared s t t' .loginProviders := by
    rintro rfl
    exact ⟨fun _ _ => rfl, .inl rfl⟩
  rw [fillLoginProviders] at h
  split at h
  next => exact hsame (Except.ok.inj h).symm
  next hproviders =>
    split at h
    next => cases h
    next => exact hsame (Except.ok.inj h).symm
    next => exact hsame (Except.ok.inj h).symm
    next hread =>
      split at h
      next => cases h
      next =>
        split at h
        next => exact hsame (Except.ok.inj h).symm
        next =>
          obtain rfl := Except.ok.inj h
          refine ⟨fun g hg => Table.set_of_ne fun h => hg (Key.group.inj h), ?_⟩
          obtain ⟨value, hrow, hinto⟩ := readJSON_eq_some hread
          exact .inr ⟨value, _, hrow, Table.set_self, hinto, hproviders, rfl⟩

theorem isSome_marked (t : Table) :
    ((t.set .preSeedRepaired (Codec.bool.encode true)) .preSeedRepaired).isSome = true := by
  rw [Table.set_self]
  rfl

/-- **The repair**: it has run before, or fills rows and, unless it stops at one it cannot read, leaves its
mark. -/
theorem repair_group (s : Service) (t : Table) :
    ((repairPreSeedRows s t).1 = t ∨ t .preSeedRepaired = none ∧ ∀ g, Spared s t (repairPreSeedRows s t).1 g) ∧
      ((t .preSeedRepaired).isSome = true → ((repairPreSeedRows s t).1 .preSeedRepaired).isSome = true) ∧
      ((repairPreSeedRows s t).2 = none → ((repairPreSeedRows s t).1 .preSeedRepaired).isSome = true) := by
  rw [repairPreSeedRows]
  split
  next => exact ⟨.inl rfl, id, by rintro ⟨⟩⟩
  next done hread =>
    obtain ⟨value, hmark, -⟩ := readJSON_eq_some hread
    exact ⟨.inl rfl, id, fun _ => congrArg Option.isSome hmark⟩
  next hread =>
    have hmark : t .preSeedRepaired = none := by
      rw [readJSON] at hread
      split at hread
      next hnone => exact hnone
      next =>
        split at hread
        next => cases hread
        next => cases hread
    split
    next => exact ⟨.inl rfl, id, by rintro ⟨⟩⟩
    next filled hfilled =>
      obtain ⟨htunnel, hproviders, hsame⟩ := fillTunnelToken_spared hfilled
      split
      next =>
        refine ⟨.inr ⟨hmark, htunnel⟩, fun h => ?_, by rintro ⟨⟩⟩
        rw [hmark] at h
        cases h
      next repaired hrepaired =>
        obtain ⟨hothers, hlast⟩ := fillLoginProviders_spared hrepaired
        have hset : ∀ g,
            (repaired.set .preSeedRepaired (Codec.bool.encode true)) (.group g) = repaired (.group g) :=
          fun g => Table.set_of_ne (by rintro ⟨⟩)
        refine ⟨.inr ⟨hmark, fun g => ?_⟩, fun _ => ?_, fun _ => ?_⟩
        · simp only [Spared, hset]
          by_cases hg : g = .loginProviders
          · subst hg
            rw [← hproviders]
            exact hlast
          · rw [hothers g hg]
            exact htunnel g
        · exact isSome_marked repaired
        · exact isSome_marked repaired

end Stoop.Instance.Rows
