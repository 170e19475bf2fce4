import Stoop.Instance.Calls

/-!
# What an accepted call changes

Each save, once it is accepted, has written its form's rows over those it read; every call comes down to one of
them, or to a row deleted (`Change`).
-/

set_option autoImplicit false

namespace Stoop.Instance.Rows

open Stoop.Lib.NetIP (Text)
open Stoop.Lib.Json

theorem bind_eq_ok {ε α β : Type} {x : Except ε α} {f : α → Except ε β} {b : β} (h : x >>= f = .ok b) :
    ∃ a, x = .ok a ∧ f a = .ok b := by
  cases x with
  | error e => cases h
  | ok a => exact ⟨a, rfl, h⟩

theorem ofKey_eq_ok {α : Type} {x : Except Key α} {a : α} (h : Failure.ofKey x = .ok a) : x = .ok a := by
  cases x with
  | error key => cases h
  | ok b =>
    cases h
    rfl

theorem checked_eq_ok {α : Type} {value a : α} {refusal : Option Refusal} (h : checked value refusal = .ok a) :
    a = value ∧ refusal = none := by
  cases refusal with
  | some refusal => cases h
  | none =>
    cases h
    exact ⟨rfl, rfl⟩

variable {r : Readers} {s : Service} {t t' : Table}

theorem saveReachability_ok {msg : UpdateReachability} (h : saveReachability r s t msg = .ok t') :
    ∃ current publicURL turn cloudflare tailscale tunnel proxies, reachability s t = .ok current ∧
      stagePublicURL r msg = .ok publicURL ∧ stageTURN msg current = .ok turn ∧
      stageCloudflareTURN msg current = .ok cloudflare ∧ stageTailscale r msg current = .ok tailscale ∧
      stageCloudflareTunnel r msg current = .ok tunnel ∧ stageTrustedProxies msg = .ok proxies ∧
      t' = t.write (publicURL ++ turn ++ cloudflare ++ tailscale ++ tunnel ++ proxies) := by
  obtain ⟨current, hcurrent, h⟩ := bind_eq_ok h
  obtain ⟨publicURL, hpublicURL, h⟩ := bind_eq_ok h
  obtain ⟨turn, hturn, h⟩ := bind_eq_ok h
  obtain ⟨cloudflare, hcloudflare, h⟩ := bind_eq_ok h
  obtain ⟨tailscale, htailscale, h⟩ := bind_eq_ok h
  obtain ⟨tunnel, htunnel, h⟩ := bind_eq_ok h
  obtain ⟨proxies, hproxies, h⟩ := bind_eq_ok h
  exact ⟨current, publicURL, turn, cloudflare, tailscale, tunnel, proxies, ofKey_eq_ok hcurrent, hpublicURL,
    hturn, hcloudflare, htailscale, htunnel, hproxies, (Except.ok.inj h).symm⟩

theorem saveLoginProviders_ok {providers : List ProviderForm} (h : saveLoginProviders r s t providers = .ok t') :
    ∃ current next, loginProviders s t = .ok current ∧ nextProviders r current 0 [] providers = .ok next ∧
      t' = t.set (.group .loginProviders) (providersCodec.encode next) := by
  unfold saveLoginProviders at h
  dsimp only at h
  split at h
  next => cases h
  next =>
    obtain ⟨current, hcurrent, h⟩ := bind_eq_ok h
    obtain ⟨next, hnext, h⟩ := bind_eq_ok h
    refine ⟨current, next, ofKey_eq_ok hcurrent, hnext, ?_⟩
    split at h
    next =>
      obtain ⟨password, -, h⟩ := bind_eq_ok h
      split at h
      next => cases h
      next => exact (Except.ok.inj h).symm
    next => exact (Except.ok.inj h).symm

theorem saveEmail_ok {form : Option SmtpForm} (h : saveEmail r s t form = .ok t') :
    ∃ f current, form = some f ∧ smtpSettings s t = .ok current ∧ (smtpFromProto f current).validate r = none ∧
      t' = t.set (.group .smtp) (SMTP.codec.encode (smtpFromProto f current)) := by
  cases form with
  | none => cases h
  | some f =>
    obtain ⟨current, hcurrent, h⟩ := bind_eq_ok h
    obtain ⟨ht', hvalid⟩ := checked_eq_ok h
    exact ⟨f, current, rfl, ofKey_eq_ok hcurrent, hvalid, ht'⟩

theorem saveSettings_ok {msg : UpdateSettings} (h : saveSettings s t msg = .ok t') :
    ∃ name password, stageInstanceName msg = .ok name ∧ stagePasswordSignIn s t msg = .ok password ∧
      t' = t.write (name ++ password) := by
  obtain ⟨name, hname, h⟩ := bind_eq_ok h
  obtain ⟨password, hpassword, h⟩ := bind_eq_ok h
  exact ⟨name, password, hname, hpassword, (Except.ok.inj h).symm⟩

/-- What an accepted call was. -/
inductive Change (r : Readers) (s : Service) (t t' : Table) : Prop
  | reachability (msg : UpdateReachability) (h : saveReachability r s t msg = .ok t')
  | loginProviders (providers : List ProviderForm) (h : saveLoginProviders r s t providers = .ok t')
  | email (form : Option SmtpForm) (h : saveEmail r s t form = .ok t')
  | settings (msg : UpdateSettings) (h : saveSettings s t msg = .ok t')
  | password (value : Text) (h : setPasswordSignIn t value = .ok t')
  | reset (g : Group) (h : t' = t.delete (.group g))

theorem setSettingFields_change {changes : List (String × Text)} (h : setSettingFields r s t changes = .ok t') :
    Change r s t t' := by
  obtain ⟨current, -, h⟩ := bind_eq_ok h
  obtain ⟨forms, -, h⟩ := bind_eq_ok h
  split at h
  next => cases h
  next =>
    split at h
    next => exact .loginProviders _ h
    next => exact .email _ h
    next =>
      split at h
      next => exact .reachability _ h
      next => exact .settings _ h

theorem clearSetting_change {name : String} (h : clearSetting r s t name = .ok t') : Change r s t t' := by
  rw [clearSetting] at h
  split at h
  next => cases h
  next =>
    split at h
    next => cases h
    next =>
      split at h
      next => exact .loginProviders _ h
      next => exact .email _ h
      all_goals exact .reachability _ h

theorem resetSetting_ok {name : String} {existed : Bool} (h : resetSetting s t name = .ok (t', existed)) :
    ∃ g, settingGroup name = some g ∧ t' = t.delete (.group g) ∧ existed = (t (.group g)).isSome := by
  rw [resetSetting] at h
  split at h
  next => cases h
  next g hg =>
    obtain ⟨refusal, -, h⟩ := bind_eq_ok h
    obtain ⟨heq, -⟩ := checked_eq_ok h
    obtain ⟨ht', hexisted⟩ := Prod.mk.inj heq
    exact ⟨g, hg, ht', hexisted⟩

theorem perform_reset {name : String} (h : perform r s t (.resetSetting name) = .ok t') :
    ∃ g, t' = t.delete (.group g) := by
  rw [perform] at h
  cases hreset : resetSetting s t name with
  | error failure =>
    rw [hreset] at h
    cases h
  | ok reset =>
    rw [hreset] at h
    obtain rfl := Except.ok.inj h
    obtain ⟨g, -, ht', -⟩ := @resetSetting_ok s t reset.1 name reset.2 hreset
    exact ⟨g, ht'⟩

theorem perform_change {call : Call} (h : perform r s t call = .ok t') : Change r s t t' := by
  cases call with
  | saveReachability msg => exact .reachability msg h
  | saveLoginProviders providers => exact .loginProviders providers h
  | saveEmail form => exact .email form h
  | saveSettings msg => exact .settings msg h
  | setPasswordSignIn value => exact .password value h
  | setSettingFields changes => exact setSettingFields_change h
  | clearSetting name => exact clearSetting_change h
  | resetSetting name =>
    obtain ⟨g, ht'⟩ := perform_reset h
    exact .reset g ht'

theorem write_mark (writes : List Write) : (t.write writes) .preSeedRepaired = t .preSeedRepaired := by
  rw [Table.write]
  induction writes generalizing t with
  | nil => rfl
  | cons write writes ih => exact ih.trans (Table.set_of_ne nofun)

/-- No call takes the mark of the repair away, or sets it. -/
theorem Change.mark (h : Change r s t t') : t' .preSeedRepaired = t .preSeedRepaired := by
  cases h with
  | reachability msg h =>
    obtain ⟨current, publicURL, turn, cloudflare, tailscale, tunnel, proxies, -, -, -, -, -, -, -, rfl⟩ :=
      saveReachability_ok h
    exact write_mark _
  | loginProviders providers h =>
    obtain ⟨current, next, -, -, rfl⟩ := saveLoginProviders_ok h
    exact Table.set_of_ne nofun
  | email form h =>
    obtain ⟨f, current, -, -, -, rfl⟩ := saveEmail_ok h
    exact Table.set_of_ne nofun
  | settings msg h =>
    obtain ⟨name, password, -, -, rfl⟩ := saveSettings_ok h
    exact write_mark _
  | password value h =>
    rw [setPasswordSignIn] at h
    split at h
    next =>
      obtain rfl := Except.ok.inj h
      exact Table.set_of_ne nofun
    next => cases h
  | reset g h =>
    rw [h]
    exact Table.delete_of_ne nofun

end Stoop.Instance.Rows
