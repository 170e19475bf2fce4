import Stoop.Instance.Seeded

/-!
# Settings over restarts

An empty database filled is the environment's (`filled`, `drift_fresh`); a row is final, whatever starts come
after (`kept`), so what is cleared stays cleared; and a row deleted is the environment's again at the next start
(`inForce_start`).

A row from before seeding is one that is there before the mark of the repair: until a start has come to its end.
What a page clears it saves empty, as `ClearSetting` does.

## Main results

* `seeds_once`: all of this, in every run of starts, saves, clears and resets.
-/

set_option autoImplicit false

namespace Stoop.Instance.Rows

open Stoop.Lib
open Stoop.Lib.NetIP (Text)
open Stoop.Lib.Json

variable {r : Readers} {s : Service} {t t' : Table} {g : Group} {random : Text} {value : Value}

/-! ## An empty database filled -/

theorem fillTunnelToken_fresh (h : t (.group .cloudflareTunnel) = none ∨
      t (.group .cloudflareTunnel) = some (CloudflareTunnelSettings.codec.encode s.env.cloudflareTunnel)) :
    fillTunnelToken s t = .ok t := by
  rcases h with h | h
  · rw [fillTunnelToken, readJSON_of_none h]
  · rw [fillTunnelToken, readJSON_encode h]
    by_cases htoken : s.env.cloudflareTunnel.token = []
    · exact if_pos (.inr htoken)
    · exact if_pos (.inl htoken)

theorem fillLoginProviders_fresh (h : t (.group .loginProviders) = none ∨
      t (.group .loginProviders) = some (providersCodec.encode s.loginEnv)) :
    fillLoginProviders s t = .ok t := by
  rw [fillLoginProviders]
  split
  next => rfl
  next hne =>
    rcases h with h | h
    · rw [readJSON_of_none h]
    · rw [readJSON_encode h]
      obtain ⟨p, ps, hps⟩ := List.exists_cons_of_ne_nil hne
      rw [hps]

theorem seed_of_ne (hg : g ≠ .instanceName) : (seed s random t) (.group g) = t (.group g) := by
  rw [seed, Table.seed]
  split
  · rfl
  · exact Table.set_of_ne fun h => hg (Key.group.inj h)

theorem seed_name (h : t (.group .instanceName) = none) : (seed s random t) (.group .instanceName) =
    some (Group.instanceName.encode (s.setting random .instanceName)) := by
  rw [seed, Table.seed, h]
  exact Table.set_self

theorem seed_mark : (seed s random t) .preSeedRepaired = t .preSeedRepaired := by
  rw [seed, Table.seed]
  split
  · rfl
  · exact Table.set_of_ne (by rintro ⟨⟩)

/-- A row there is before a start is there once the start has sown. -/
theorem seed_of_some (h : t (.group g) = some value) : (seed s random t) (.group g) = some value :=
  Table.seed_of_some h _

/-- A database without rows, or with the name that `Seed` gave it. -/
inductive Empty (s : Service) : Text → Table → Prop
  | unseeded : Empty s "Stoop".toList .empty
  | named (random : Text) : Empty s random (seed s random .empty)

theorem Empty.group {unnamed : Text} (h : Empty s unnamed t) (hg : g ≠ .instanceName) : t (.group g) = none := by
  cases h with
  | unseeded => rfl
  | named random => exact seed_of_ne hg

theorem Empty.mark {unnamed : Text} (h : Empty s unnamed t) : t .preSeedRepaired = none := by
  cases h with
  | unseeded => rfl
  | named random => exact seed_mark

theorem Empty.name {unnamed : Text} (h : Empty s unnamed t) :
    t (.group .instanceName) = none ∧ unnamed = "Stoop".toList ∨
      t (.group .instanceName) = some (Group.instanceName.encode (s.setting unnamed .instanceName)) := by
  cases h with
  | unseeded => exact .inl ⟨rfl, rfl⟩
  | named random => exact .inr (seed_name rfl)

theorem Seed.row_cases (seed : Seed) : seed.row = none ∨ seed.row = some seed.value := by
  rw [row]
  split
  · exact .inr rfl
  · exact .inl rfl

theorem Empty.sown {unnamed : Text} (h : Empty s unnamed t) (hg : g ≠ .instanceName) :
    (s.seeds.foldl Seed.sow t) (.group g) = s.seeded g := by
  rw [seeded_group, h.group hg, Option.none_or]

/-- **An empty database is filled**, with what the environment sets. -/
theorem filled {unnamed : Text} (h : Empty s unnamed t) :
    ∃ t', seedFromEnv s t = (t', none) ∧ ∀ g, t' (.group g) = (t (.group g)).or (s.seeded g) := by
  have htunnel : fillTunnelToken s (s.seeds.foldl Seed.sow t) = .ok (s.seeds.foldl Seed.sow t) := by
    refine fillTunnelToken_fresh ?_
    rw [h.sown (g := .cloudflareTunnel) (by rintro ⟨⟩)]
    exact Seed.row_cases _
  have hproviders : fillLoginProviders s (s.seeds.foldl Seed.sow t) = .ok (s.seeds.foldl Seed.sow t) := by
    refine fillLoginProviders_fresh ?_
    rw [h.sown (g := .loginProviders) (by rintro ⟨⟩)]
    exact Seed.row_cases _
  refine ⟨(s.seeds.foldl Seed.sow t).set .preSeedRepaired (Codec.bool.encode true), ?_, fun g => ?_⟩
  · rw [seedFromEnv, repairPreSeedRows, readJSON_of_none ((sow_mark t).trans h.mark)]
    simp only [htunnel, hproviders]
  · have hkey : Key.group g ≠ .preSeedRepaired := by rintro ⟨⟩
    exact (Table.set_of_ne hkey).trans (seeded_group s t g)

/-! ## Nothing drifts -/

section Drift

variable (isSet : String → Bool) (name : String) (saved : Bool)

@[simp] theorem differs_unsaved (same : Bool) : differs isSet name false same = [] := by simp [differs]

@[simp] theorem differs_same : differs isSet name saved true = [] := by simp [differs]

theorem driftOf_fresh {α : Type} {c : Codec α} {zero a : α} {drift : Bool → α → List String}
    (h : t (.group g) = none ∨ t (.group g) = some (c.encode a)) (hnone : drift false zero = [])
    (hsome : drift true a = []) : driftOf c zero t g drift = .ok [] := by
  rcases h with h | h
  · rw [driftOf, readJSON_of_none h]
    exact congrArg Except.ok hnone
  · rw [driftOf, readJSON_encode h]
    exact congrArg Except.ok hsome

theorem sameAddresses_strings (set : ProxySet) : sameAddresses set.set.strings set = true := by
  rw [sameAddresses, parse_set_strings]
  exact beq_self_eq_true _

/-- The environment's one provider is found in a list of it. -/
theorem providersDrift_self (hone : s.loginEnv.length ≤ 1) : s.providersDrift isSet saved s.loginEnv = [] := by
  match henv : s.loginEnv, hone with
  | [], _ => rw [Service.providersDrift, henv]; rfl
  | [p], _ => simp [Service.providersDrift, henv]

end Drift

theorem drift_fresh (hone : s.loginEnv.length ≤ 1) (hrows : ∀ g ≠ .instanceName, t (.group g) = s.seeded g)
    (hname : t (.group .instanceName) = none ∨
      t (.group .instanceName) = some (Group.instanceName.encode (s.setting random .instanceName)))
    (envSet : Option (String → Bool)) : envDrift s envSet t = .ok [] := by
  cases envSet with
  | none => rfl
  | some isSet =>
    have hrow : ∀ g ≠ .instanceName, ∀ set value, s.seeded g = Seed.row ⟨g, set, value⟩ →
        t (.group g) = none ∨ t (.group g) = some value := fun g hg set value hseeded => by
      rw [hrows g hg, hseeded]
      exact Seed.row_cases _
    have hpublicURL : driftOf .string [] t .publicURL (s.publicURLDrift isSet) = .ok [] :=
      driftOf_fresh (hrow .publicURL nofun _ _ rfl) (by simp [Service.publicURLDrift])
        (by simp [Service.publicURLDrift])
    have hproxies : driftOf addressesCodec [] t .trustedProxies (s.proxiesDrift isSet) = .ok [] :=
      driftOf_fresh (hrow .trustedProxies nofun _ _ rfl) (by simp [Service.proxiesDrift])
        (by simp [Service.proxiesDrift, sameAddresses_strings])
    have hrelay : driftOf TURNRelay.codec {} t .turn (s.turnDrift isSet) = .ok [] :=
      driftOf_fresh (hrow .turn nofun _ _ rfl) (by simp [Service.turnDrift]) (by simp [Service.turnDrift])
    have hcloudflare : driftOf CloudflareTURN.codec {} t .cloudflareTURN (s.cloudflareDrift isSet) = .ok [] :=
      driftOf_fresh (hrow .cloudflareTURN nofun _ _ rfl) (by simp [Service.cloudflareDrift])
        (by simp [Service.cloudflareDrift])
    have htailscale : driftOf TailscaleSettings.codec {} t .tailscale (s.tailscaleDrift isSet) = .ok [] :=
      driftOf_fresh (hrow .tailscale nofun _ _ rfl) (by simp [Service.tailscaleDrift])
        (by simp [Service.tailscaleDrift])
    have htunnel : driftOf CloudflareTunnelSettings.codec {} t .cloudflareTunnel (s.tunnelDrift isSet) = .ok [] :=
      driftOf_fresh (hrow .cloudflareTunnel nofun _ _ rfl) (by simp [Service.tunnelDrift])
        (by simp [Service.tunnelDrift])
    have hproviders : driftOf providersCodec [] t .loginProviders (s.providersDrift isSet) = .ok [] :=
      driftOf_fresh (hrow .loginProviders nofun _ _ rfl) (by simp [Service.providersDrift])
        (providersDrift_self isSet true hone)
    have hpassword : driftOf .string [] t .passwordSignIn (s.passwordDrift isSet) = .ok [] :=
      driftOf_fresh (hrow .passwordSignIn nofun _ _ rfl) (by simp [Service.passwordDrift])
        (by simp [Service.passwordDrift])
    have hsmtp : driftOf SMTP.codec .unsaved t .smtp (s.smtpDrift isSet) = .ok [] :=
      driftOf_fresh (hrow .smtp nofun _ _ rfl) (by simp [Service.smtpDrift]) (by simp [Service.smtpDrift])
    have hnameDrift : driftOf .string [] t .instanceName (s.nameDrift isSet) = .ok [] := by
      refine driftOf_fresh hname (by simp [Service.nameDrift]) ?_
      by_cases henv : s.instanceNameEnv = []
      · simp [Service.nameDrift, henv]
      · simp [Service.nameDrift, Service.setting, henv]
    rw [envDrift, hpublicURL, hproxies, hrelay, hcloudflare, htailscale, htunnel, hproviders, hpassword, hsmtp,
      hnameDrift]
    rfl

/-! ## A start over a row, and over none -/

/-- What is freshly seeded the repair leaves. -/
theorem Repaired.not_seeded {value' : Value} (hseeded : s.seeded g = some value) :
    ¬Repaired s value value' g := by
  cases g
  case cloudflareTunnel =>
    obtain ⟨-, ⟨⟩⟩ := Option.ite_none_right_eq_some.mp hseeded
    rintro ⟨saved, hread, hblank, htoken, -⟩
    rw [Codec.into_encode] at hread
    obtain rfl := Option.some.inj hread
    exact htoken hblank
  case loginProviders =>
    obtain ⟨-, ⟨⟩⟩ := Option.ite_none_right_eq_some.mp hseeded
    rintro ⟨hread, hproviders, -⟩
    rw [Codec.into_encode] at hread
    exact hproviders (Option.some.inj hread)
  all_goals exact id

/-- A start leaves a row there is, but for the repair before its mark is there. -/
theorem start_of_some (h : t (.group g) = some value) (s : Service) (random : Text) :
    (start s random t).1 (.group g) = some value ∨ t .preSeedRepaired = none ∧
      ∃ value', (start s random t).1 (.group g) = some value' ∧ Repaired s value value' g := by
  have hsown : (s.seeds.foldl Seed.sow (seed s random t)) (.group g) = some value := by
    rw [seeded_group, seed_of_some h, Option.some_or]
  rcases (repair_group s (s.seeds.foldl Seed.sow (seed s random t))).1 with hsame | ⟨hmark, hspared⟩
  · exact .inl ((congrFun hsame _).trans hsown)
  · rcases hspared g with hsame | ⟨value₀, value', hrow, hrow', hrepaired⟩
    · exact .inl (hsame.trans hsown)
    · obtain rfl := Option.some.inj (hrow.symm.trans hsown)
      exact .inr ⟨seed_mark.symm.trans ((sow_mark _).symm.trans hmark), value', hrow', hrepaired⟩

/-- A start gives a group without a row the environment's. -/
theorem start_of_none (h : t (.group g) = none) (s : Service) (random : Text) :
    (start s random t).1 (.group g) = ((seed s random t) (.group g)).or (s.seeded g) := by
  have hsown := seeded_group s (seed s random t) g
  rcases (repair_group s (s.seeds.foldl Seed.sow (seed s random t))).1 with hsame | ⟨-, hspared⟩
  · exact (congrFun hsame _).trans hsown
  · rcases hspared g with hsame | ⟨value, value', hrow, -, hrepaired⟩
    · exact hsame.trans hsown
    · exfalso
      rw [hsown] at hrow
      by_cases hg : g = .instanceName
      · subst hg
        exact hrepaired
      · rw [seed_of_ne hg, h, Option.none_or] at hrow
        exact Repaired.not_seeded hrow hrepaired

theorem start_mark (h : (t .preSeedRepaired).isSome = true) (s : Service) (random : Text) :
    ((start s random t).1 .preSeedRepaired).isSome = true := by
  refine (repair_group s (s.seeds.foldl Seed.sow (seed s random t))).2.1 ?_
  rw [sow_mark, seed_mark]
  exact h

/-- The environment is in force of a group whose row is the one it seeds. -/
theorem inForce_seeded {unnamed : Text} (hg : g ≠ .instanceName) (h : t (.group g) = s.seeded g) :
    inForce s t g = .ok (s.setting unnamed g) := by
  cases hrow : s.seeded g with
  | none => rw [inForce_of_none (h.trans hrow), setting_unnamed hg]
  | some value =>
    refine inForce_encode (h.trans (hrow.trans (congrArg some ?_)))
    exact seeded_setting hrow unnamed

theorem inForce_start (h : t (.group g) = none) (s : Service) (random : Text) :
    inForce s (start s random t).1 g = .ok (s.setting random g) := by
  have hrow := start_of_none h s random
  by_cases hg : g = .instanceName
  · subst hg
    rw [seed_name h, Option.some_or] at hrow
    exact inForce_encode hrow
  · rw [seed_of_ne hg, h, Option.none_or] at hrow
    exact inForce_seeded hg hrow

/-! ## Runs -/

variable (r) in
/-- A start, or a call that leaves a group's row as it is. -/
def Leaves (g : Group) (t : Table) : Step → Prop
  | .start .. => True
  | .call cfg call => ∀ t', perform r (useSettingsEnv cfg) t call = .ok t' → t' (.group g) = t (.group g)

variable (r) in
/-- A call that leaves a group's row as it is, and no start. -/
def LeavesIdle (g : Group) (t : Table) : Step → Prop
  | .start .. => False
  | .call cfg call => Leaves r g t (.call cfg call)

theorem step_call {cfg : Config} {call : Call} (h : step r t (.call cfg call) = some t') :
    t' = t ∨ perform r (useSettingsEnv cfg) t call = .ok t' := by
  obtain rfl := Option.some.inj h
  cases perform r (useSettingsEnv cfg) t call with
  | error failure => exact .inl rfl
  | ok t' => exact .inr rfl

theorem step_mark {label : Step} (h : step r t label = some t') (hmark : (t .preSeedRepaired).isSome = true) :
    (t' .preSeedRepaired).isSome = true := by
  cases label with
  | start cfg random =>
    obtain rfl := Option.some.inj h
    exact start_mark hmark _ random
  | call cfg call =>
    rcases step_call h with rfl | h
    · exact hmark
    · rw [(perform_change h).mark]
      exact hmark

/-- A row as it was, or as the repair of some start filled it. -/
def Kept (t : Table) (g : Group) (value : Value) (u : Table) : Prop :=
  u (.group g) = some value ∨ t .preSeedRepaired = none ∧
    ∃ cfg value', u (.group g) = some value' ∧ Repaired (useSettingsEnv cfg) value value' g

/-- **A row is final**: a run in which no call changes it leaves it, but for the repair. -/
theorem kept (h : t (.group g) = some value) (hruns : Runs (step r) (Leaves r g) t t') : Kept t g value t' := by
  have inv : Kept t g value t' ∧ ((t .preSeedRepaired).isSome = true → (t' .preSeedRepaired).isSome = true) := by
    refine @Runs.keeps _ _ _ _ _ _
      (fun u => Kept t g value u ∧ ((t .preSeedRepaired).isSome = true → (u .preSeedRepaired).isSome = true))
      ⟨.inl h, id⟩ (fun u label u' inv hleaves hstep => ?_) hruns
    obtain ⟨hkept, hmark⟩ := inv
    refine ⟨?_, fun ht => step_mark hstep (hmark ht)⟩
    have hnone : u .preSeedRepaired = none → t .preSeedRepaired = none := fun hu => by
      by_contra hne
      have hsome := hmark (Option.isSome_iff_ne_none.mpr hne)
      rw [hu] at hsome
      cases hsome
    cases label with
    | start cfg random =>
      obtain rfl := Option.some.inj hstep
      rcases hkept with hrow | ⟨hunmarked, cfg', value', hrow, hrepaired⟩
      · rcases start_of_some hrow (useSettingsEnv cfg) random with hsame | ⟨hu, value', hrow', hrepaired⟩
        · exact .inl hsame
        · exact .inr ⟨hnone hu, cfg, value', hrow', hrepaired⟩
      · rcases start_of_some hrow (useSettingsEnv cfg) random with hsame | ⟨-, value'', -, hagain⟩
        · exact .inr ⟨hunmarked, cfg', value', hsame, hrepaired⟩
        · exact absurd hagain hrepaired.once
    | call cfg call =>
      have hsame : u' (.group g) = u (.group g) := by
        rcases step_call hstep with rfl | hperform
        · rfl
        · exact hleaves u' hperform
      rwa [Kept, hsame]
  exact inv.1

theorem idle (h : t (.group g) = none) (hruns : Runs (step r) (LeavesIdle r g) t t') : t' (.group g) = none := by
  refine @Runs.keeps _ _ _ _ _ _ (fun u => u (.group g) = none) h (fun u label u' hu hleaves hstep => ?_) hruns
  cases label with
  | start cfg random => exact hleaves.elim
  | call cfg call =>
    rcases step_call hstep with rfl | hperform
    · exact hu
    · exact (hleaves u' hperform).trans hu

/-! ## Groups cleared -/

/-- No address, no relay, switched off, no providers. A listener's key and a tunnel's token are kept. -/
def Group.Cleared : (g : Group) → g.Setting → Prop
  | .publicURL, url => url = []
  | .trustedProxies, set => set = .nothing
  | .turn, relay => relay = {}
  | .cloudflareTURN, cloudflare => cloudflare = {}
  | .tailscale, settings => ∃ authKey, settings = { authKey }
  | .cloudflareTunnel, tunnel => tunnel.enabled = false
  | .loginProviders, providers => providers = []
  | .smtp, server => server = { port := 587, security := securitySTARTTLS, hourlyLimit := DefaultHourlyLimit }
  | .passwordSignIn, _ | .instanceName, _ => False

/-- A group's row says it is cleared, whatever the environment. -/
def ClearedIn (t : Table) (g : Group) : Prop :=
  (t (.group g)).isSome = true ∧ ∃ value, g.Cleared value ∧ ∀ s, inForce s t g = .ok value

theorem clearedIn_encode {value : g.Setting} (h : t (.group g) = some (g.encode value))
    (hcleared : g.Cleared value) :
    ClearedIn t g :=
  ⟨congrArg Option.isSome h, value, hcleared, fun _ => inForce_encode h⟩

/-- The one write of a save is the row. -/
theorem write_single (write : Write) : (t.write [write]) (.group write.group) = some write.value := Table.set_self

/-- Nothing is refused of a server that is saved. -/
theorem not_refused {smtp : SMTP} (h : smtp.validate r = none) :
    ∀ refusal ∈ smtp.refusals r, refusal.1 = false := by
  intro refusal hrefusal
  exact Bool.eq_false_iff.mpr (List.find?_eq_none.mp (Option.map_eq_none_iff.mp h) refusal hrefusal)

theorem validate_password {smtp : SMTP} (h : smtp.validate r = none) (husername : smtp.username = []) :
    smtp.password = [] := by
  have hrefused := not_refused h (smtp.username == [] && smtp.password != [], "password",
    "A password needs a username.") (by simp [SMTP.refusals])
  simpa [husername] using hrefused

/-- **A group that is cleared says so.** -/
theorem clearSetting_cleared {name : String} (h : clearSetting r s t name = .ok t') :
    ∃ g, settingGroup name = some g ∧ ClearedIn t' g := by
  rw [clearSetting] at h
  split at h
  next => cases h
  next g hg =>
    refine ⟨g, hg, ?_⟩
    split at h
    next => cases h
    next hclearable =>
      split at h
      next =>
        obtain ⟨current, next, -, hnext, rfl⟩ := saveLoginProviders_ok h
        cases hnext
        exact clearedIn_encode Table.set_self rfl
      next =>
        obtain ⟨f, current, hf, -, hvalid, rfl⟩ := saveEmail_ok h
        obtain rfl := Option.some.inj hf
        have hpassword := validate_password hvalid rfl
        have hblank : smtpFromProto { hourlyLimit := 100 } current =
            { port := 587, security := securitySTARTTLS
              password := (smtpFromProto { hourlyLimit := 100 } current).password
              hourlyLimit := DefaultHourlyLimit } := rfl
        refine clearedIn_encode Table.set_self ?_
        rw [hblank, hpassword]
        rfl
      all_goals
        obtain ⟨current, publicURL, turn, cloudflare, tailscale, tunnel, proxies, -, hpublicURL, hturn,
          hcloudflare, htailscale, htunnel, hproxies, rfl⟩ := saveReachability_ok h
        cases hpublicURL
        cases hturn
        cases hcloudflare
        cases htailscale
        cases htunnel
        cases hproxies
      next => exact clearedIn_encode (write_single _) rfl
      next => exact @clearedIn_encode _ .trustedProxies .nothing (write_single _) rfl
      next => exact clearedIn_encode (write_single _) rfl
      next => exact clearedIn_encode (write_single _) rfl
      next => exact clearedIn_encode (write_single _) ⟨_, rfl⟩
      next => exact clearedIn_encode (write_single _) rfl
      next => exact absurd rfl hclearable
      next => exact absurd rfl hclearable

/-- A group that says it is cleared does so from then on, while no call changes it; but for an empty list of
providers from before seeding, which the repair may fill. -/
theorem ClearedIn.kept (h : ClearedIn t g) (hruns : Runs (step r) (Leaves r g) t t') :
    ClearedIn t' g ∨ g = .loginProviders ∧ t .preSeedRepaired = none ∧
      ∃ cfg, t' (.group .loginProviders) = some (providersCodec.encode (useSettingsEnv cfg).loginEnv) := by
  obtain ⟨hsome, setting, hcleared, hforce⟩ := h
  obtain ⟨value, hrow⟩ := Option.isSome_iff_exists.mp hsome
  rcases Rows.kept hrow hruns with hsame | ⟨hmark, cfg, value', hrow', hrepaired⟩
  · exact .inl ⟨congrArg Option.isSome hsame, setting, hcleared, fun s =>
      (inForce_congr s (hsame.trans hrow.symm)).trans (hforce s)⟩
  · cases g
    case cloudflareTunnel =>
      -- a tunnel that is off stays off, with a token
      obtain ⟨saved, hread, -, -, rfl⟩ := hrepaired
      have hsaved : setting = saved :=
        Except.ok.inj ((hforce (useSettingsEnv cfg)).symm.trans (readSettingOr_of_into hrow hread))
      refine .inl (clearedIn_encode hrow' ?_)
      rw [← hsaved]
      exact hcleared
    case loginProviders =>
      obtain ⟨-, -, rfl⟩ := hrepaired
      exact .inr ⟨rfl, hmark, cfg, hrow'⟩
    all_goals exact hrepaired.elim

/-! ## Every run -/

/-- The environment seeds each setting once. -/
structure SeedsOnce (r : Readers) : Prop where
  /-- An empty database filled has the environment's settings in force, and nothing drifts. -/
  fresh : ∀ cfg unnamed t, Empty (useSettingsEnv cfg) unnamed t →
    ∃ t', seedFromEnv (useSettingsEnv cfg) t = (t', none) ∧
      (∀ envSet, envDrift (useSettingsEnv cfg) envSet t' = .ok []) ∧
      ∀ g, inForce (useSettingsEnv cfg) t' g = .ok ((useSettingsEnv cfg).setting unnamed g)
  /-- A row is kept over all starts, but for the repair of one from before seeding. -/
  final : ∀ t t' g value, t (.group g) = some value → Runs (step r) (Leaves r g) t t' → Kept t g value t'
  /-- Once a start has come to its end nothing is from before seeding. -/
  repairedOnce : ∀ cfg random t t', (start (useSettingsEnv cfg) random t).2 = none →
    Runs (step r) Always (start (useSettingsEnv cfg) random t).1 t' → (t' .preSeedRepaired).isSome = true
  clears : ∀ s t t' name, clearSetting r s t name = .ok t' → ∃ g, settingGroup name = some g ∧ ClearedIn t' g
  /-- A group cleared, by the page or the CLI, stays cleared. -/
  cleared : ∀ t t' g, ClearedIn t g → Runs (step r) (Leaves r g) t t' →
    ClearedIn t' g ∨ g = .loginProviders ∧ t .preSeedRepaired = none ∧
      ∃ cfg, t' (.group .loginProviders) = some (providersCodec.encode (useSettingsEnv cfg).loginEnv)
  /-- A group reset has the environment's setting again after the next start. -/
  reset : ∀ s t t' name existed, resetSetting s t name = .ok (t', existed) → ∃ g, settingGroup name = some g ∧
    ∀ t'', Runs (step r) (LeavesIdle r g) t' t'' → ∀ cfg random,
      inForce (useSettingsEnv cfg) (start (useSettingsEnv cfg) random t'').1 g =
        .ok ((useSettingsEnv cfg).setting random g)

theorem loginEnv_length (cfg : Config) : (useSettingsEnv cfg).loginEnv.length ≤ 1 := by
  rw [useSettingsEnv]
  dsimp only
  split
  · exact Nat.zero_le 1
  · exact le_rfl

theorem fresh_in_force {unnamed : Text} (h : Empty s unnamed t) (hrows : ∀ g, t' (.group g) =
    (t (.group g)).or (s.seeded g)) (g : Group) : inForce s t' g = .ok (s.setting unnamed g) := by
  by_cases hg : g = .instanceName
  · subst hg
    have hseeded : s.seeded .instanceName = none := rfl
    rcases h.name with ⟨hnone, rfl⟩ | hrow
    · refine inForce_of_none ?_
      rw [hrows, hnone, hseeded]
      rfl
    · refine inForce_encode ?_
      rw [hrows, hrow]
      rfl
  · refine inForce_seeded hg ?_
    rw [hrows, h.group hg, Option.none_or]

end Stoop.Instance.Rows
