import Stoop.Instance.Restarts

/-!
# Every call comes down to one page's save

A call is one save of an admin page, a policy set, or a row deleted (`Call.page`, `perform_eq_save`): the CLI saves
through the page's own checks. So a law of the rows is proved of the saves (`RowsHold.save`) and of a start
(`RowsHold.start`), from what each group of a form writes once it is accepted.
-/

set_option autoImplicit false

namespace Stoop.Instance.Rows

open Stoop.Lib
open Stoop.Lib.NetIP (Text)
open Stoop.Lib.Json
open Stoop.Instance.TrustedProxy (trimSpace)

/-! ## Pages -/

inductive Page
  | reachability (msg : UpdateReachability)
  | loginProviders (providers : List ProviderForm)
  | email (form : Option SmtpForm)
  | settings (msg : UpdateSettings)
  | password (value : Text)
  | reset (name : String)

def Page.save (r : Readers) (s : Service) (t : Table) : Page → Except Failure Table
  | .reachability msg => saveReachability r s t msg
  | .loginProviders providers => saveLoginProviders r s t providers
  | .email form => saveEmail r s t form
  | .settings msg => saveSettings s t msg
  | .password value => setPasswordSignIn t value
  | .reset name => (resetSetting s t name).map Prod.fst

/-- The page of the forms that a CLI's changes make. -/
def Forms.page (forms : Forms) : Except Failure Page :=
  if 1 < forms.touched then
    refuse "set Hosting fields, login-providers, smtp, and the other settings in separate commands" []
  else
    match forms.providers, forms.email with
    | some providers, _ => .ok (.loginProviders providers)
    | none, some form => .ok (.email (some form))
    | none, none => .ok (if forms.reach.changed then .reachability forms.reach else .settings forms.settings)

/-- The empty form of a group. -/
def Group.emptyPage : Group → Page
  | .loginProviders => .loginProviders []
  | .smtp => .email (some { hourlyLimit := 100 })
  | .publicURL => .reachability { publicUrl := some [] }
  | .trustedProxies => .reachability { trustedProxies := some [] }
  | .turn => .reachability { turn := some {} }
  | .cloudflareTURN => .reachability { cloudflare := some {} }
  | .tailscale => .reachability { tailscale := some {} }
  | .cloudflareTunnel => .reachability { cloudflareTunnel := some {} }
  | .passwordSignIn | .instanceName => .reachability {}

def Call.page (r : Readers) (s : Service) (t : Table) : Call → Except Failure Page
  | .saveReachability msg => .ok (.reachability msg)
  | .saveLoginProviders providers => .ok (.loginProviders providers)
  | .saveEmail form => .ok (.email form)
  | .saveSettings msg => .ok (.settings msg)
  | .setPasswordSignIn value => .ok (.password value)
  | .setSettingFields changes => do
    let current ← Failure.ofKey (reachability s t)
    let forms ← formsOf r s t current changes
    forms.page
  | .clearSetting name =>
    match settingGroup name with
    | none => .error (.refused ⟨"", "no setting group %q", [name.toList]⟩)
    | some group =>
      if !group.clearable then .error (.refused ⟨"", "%s can't be empty; set it or reset it", [name.toList]⟩)
      else .ok group.emptyPage
  | .resetSetting name => .ok (.reset name)

variable {r : Readers} {s : Service} {t t' : Table}

theorem Forms.page_save (forms : Forms) : (forms.page >>= fun page => page.save r s t) =
    if 1 < forms.touched then
      refuse "set Hosting fields, login-providers, smtp, and the other settings in separate commands" []
    else
      match forms.providers, forms.email with
      | some providers, _ => saveLoginProviders r s t providers
      | none, some form => saveEmail r s t (some form)
      | none, none =>
        if forms.reach.changed then saveReachability r s t forms.reach else saveSettings s t forms.settings := by
  rw [page]
  split
  · rfl
  · split
    · rfl
    · rfl
    · split
      · rfl
      · rfl

theorem emptyPage_save (group : Group) : group.emptyPage.save r s t =
    match group with
    | .loginProviders => saveLoginProviders r s t []
    | .smtp => saveEmail r s t (some { hourlyLimit := 100 })
    | .publicURL => saveReachability r s t { publicUrl := some [] }
    | .trustedProxies => saveReachability r s t { trustedProxies := some [] }
    | .turn => saveReachability r s t { turn := some {} }
    | .cloudflareTURN => saveReachability r s t { cloudflare := some {} }
    | .tailscale => saveReachability r s t { tailscale := some {} }
    | .cloudflareTunnel => saveReachability r s t { cloudflareTunnel := some {} }
    | .passwordSignIn | .instanceName => saveReachability r s t {} := by
  cases group <;> rfl

/-- **Every call is a page's save**, or is refused before it. -/
theorem perform_eq_save (call : Call) :
    perform r s t call = call.page r s t >>= fun page => page.save r s t := by
  cases call with
  | setSettingFields changes =>
    rw [perform, setSettingFields, Call.page]
    cases Failure.ofKey (reachability s t) with
    | error failure => rfl
    | ok current =>
      change (formsOf r s t current changes >>= _) = _
      cases hforms : formsOf r s t current changes with
      | error failure =>
        change _ = (formsOf r s t current changes >>= _) >>= _
        rw [hforms]
        rfl
      | ok forms =>
        change _ = (formsOf r s t current changes >>= _) >>= _
        rw [hforms]
        exact (Forms.page_save forms).symm
  | clearSetting name =>
    rw [perform, clearSetting, Call.page]
    cases settingGroup name with
    | none => rfl
    | some group =>
      dsimp only
      by_cases hclearable : (!group.clearable) = true
      · rw [if_pos hclearable, if_pos hclearable]
        rfl
      · rw [if_neg hclearable, if_neg hclearable]
        exact (emptyPage_save group).symm
  | saveReachability msg => rfl
  | saveLoginProviders providers => rfl
  | saveEmail form => rfl
  | saveSettings msg => rfl
  | setPasswordSignIn value => rfl
  | resetSetting name => rfl

/-- The configuration in force is each group's setting. -/
theorem reachability_ok {current : Reachability} (h : reachability s t = .ok current) :
    inForce s t .publicURL = .ok current.publicURL ∧ inForce s t .turn = .ok current.turn ∧
      inForce s t .cloudflareTURN = .ok current.cloudflare ∧ inForce s t .tailscale = .ok current.tailscale ∧
      inForce s t .cloudflareTunnel = .ok current.cloudflareTunnel ∧
      inForce s t .trustedProxies = .ok current.trustedProxies := by
  obtain ⟨publicURL, hpublicURL, h⟩ := bind_eq_ok h
  obtain ⟨turn, hturn, h⟩ := bind_eq_ok h
  obtain ⟨cloudflare, hcloudflare, h⟩ := bind_eq_ok h
  obtain ⟨tailscale, htailscale, h⟩ := bind_eq_ok h
  obtain ⟨tunnel, htunnel, h⟩ := bind_eq_ok h
  obtain ⟨proxies, hproxies, h⟩ := bind_eq_ok h
  obtain rfl := Except.ok.inj h
  exact ⟨hpublicURL, hturn, hcloudflare, htailscale, htunnel, hproxies⟩

/-- What is typed as a tunnel's token is it, with no space around it. -/
theorem parseTunnelToken_ok {token typed : Text} (h : parseTunnelToken r token = .ok typed) :
    typed = trimSpace token := by
  rw [parseTunnelToken] at h
  split at h
  next hblank => exact (Except.ok.inj h).symm.trans hblank.symm
  next =>
    split at h
    next => exact (Except.ok.inj h).symm
    next => cases h

/-- A policy that is saved is one of the three. -/
theorem stagePasswordSignIn_writes {msg : UpdateSettings} {writes : List Write} {write : Write}
    (h : stagePasswordSignIn s t msg = .ok writes) (hwrite : write ∈ writes) :
    ∃ form password, PasswordForm.stored form = some password ∧
      write = ⟨.passwordSignIn, Codec.string.encode password⟩ := by
  unfold stagePasswordSignIn at h
  split at h
  next =>
    cases h
    cases hwrite
  next form _ =>
    split at h
    next => cases h
    next password hstored =>
      have hone : writes = [⟨.passwordSignIn, Codec.string.encode password⟩] := by
        dsimp only at h
        split at h
        next =>
          obtain ⟨providers, -, h⟩ := bind_eq_ok h
          split at h
          next => cases h
          next => exact (Except.ok.inj h).symm
        next => exact (Except.ok.inj h).symm
      subst hone
      exact ⟨form, password, hstored, List.mem_singleton.mp hwrite⟩

/-! ## A law of the rows -/

section Laws

variable (P : Group → Value → Prop)

/-- What every row is. -/
def RowsHold (t : Table) : Prop := ∀ g value, t (.group g) = some value → P g value

/-- What every write of a form's group is, once it is accepted. -/
def Writes (staged : Except Failure (List Write)) : Prop :=
  ∀ writes, staged = .ok writes → ∀ write ∈ writes, P write.group write.value

/-- What each page writes, once it is accepted. -/
def Page.Writes (r : Readers) (s : Service) (t : Table) : Page → Prop
  | .reachability msg => Rows.Writes P (stagePublicURL r msg) ∧ Rows.Writes P (stageTrustedProxies msg) ∧
      ∀ current, Rows.reachability s t = .ok current → Rows.Writes P (stageTURN msg current) ∧
        Rows.Writes P (stageCloudflareTURN msg current) ∧ Rows.Writes P (stageTailscale r msg current) ∧
        Rows.Writes P (stageCloudflareTunnel r msg current)
  | .loginProviders providers => ∀ current next, Rows.loginProviders s t = .ok current →
      nextProviders r current 0 [] providers = .ok next → P .loginProviders (providersCodec.encode next)
  | .email form => ∀ f current, form = some f → smtpSettings s t = .ok current →
      (smtpFromProto f current).validate r = none → P .smtp (SMTP.codec.encode (smtpFromProto f current))
  | .settings msg => Rows.Writes P (stageInstanceName msg) ∧ Rows.Writes P (stagePasswordSignIn s t msg)
  | .password value => (PasswordForm.ofStored value).isSome = true → P .passwordSignIn (Codec.string.encode value)
  | .reset _ => True

variable {P}

theorem Writes.nothing : Writes P (.ok []) := by
  rintro writes h write hwrite
  cases h
  cases hwrite

theorem Writes.refused (failure : Failure) : Writes P (.error failure) := by
  rintro writes h
  cases h

theorem Writes.one {g : Group} {value : Value} (h : P g value) : Writes P (.ok [⟨g, value⟩]) := by
  rintro writes hok write hwrite
  cases hok
  rw [List.mem_singleton.mp hwrite]
  exact h

theorem Writes.checked {g : Group} {value : Value} {refusal : Option Refusal} (h : refusal = none → P g value) :
    Writes P (Rows.checked [⟨g, value⟩] refusal) := by
  cases refusal with
  | none => exact .one (h rfl)
  | some refusal => exact .refused _

theorem Writes.ite {p : Prop} [Decidable p] {a b : Except Failure (List Write)} (ha : p → Writes P a)
    (hb : ¬p → Writes P b) : Writes P (if p then a else b) := by
  split
  next h => exact ha h
  next h => exact hb h

theorem Writes.bind {α : Type} {x : Except Failure α} {f : α → Except Failure (List Write)}
    (h : ∀ a, x = .ok a → Writes P (f a)) : Writes P (x >>= f) := by
  rintro writes hok
  obtain ⟨a, ha, hok⟩ := bind_eq_ok hok
  exact h a ha writes hok

theorem RowsHold.empty : RowsHold P .empty := by
  rintro g value h
  cases h

theorem RowsHold.mono {Q : Group → Value → Prop} (h : RowsHold P t) (himp : ∀ g value, P g value → Q g value) :
    RowsHold Q t := fun g value hrow => himp g value (h g value hrow)

theorem RowsHold.set {g : Group} {value : Value} (h : RowsHold P t) (hvalue : P g value) :
    RowsHold P (t.set (.group g) value) := by
  intro g' value' hrow
  by_cases hg : g' = g
  · subst hg
    rw [Table.set_self] at hrow
    obtain rfl := Option.some.inj hrow
    exact hvalue
  · have hkey : Key.group g' ≠ .group g := fun hkey => hg (Key.group.inj hkey)
    rw [Table.set_of_ne hkey] at hrow
    exact h g' value' hrow

theorem RowsHold.write {writes : List Write} (h : RowsHold P t)
    (hwrites : ∀ write ∈ writes, P write.group write.value) : RowsHold P (t.write writes) := by
  induction writes generalizing t with
  | nil => exact h
  | cons write writes ih =>
    obtain ⟨hwrite, hrest⟩ := List.forall_mem_cons.mp hwrites
    exact ih (h.set hwrite) hrest

theorem RowsHold.delete (h : RowsHold P t) (key : Key) : RowsHold P (t.delete key) := by
  intro g value hrow
  by_cases hkey : Key.group g = key
  · subst hkey
    rw [Table.delete_self] at hrow
    cases hrow
  · rw [Table.delete_of_ne hkey] at hrow
    exact h g value hrow

/-- **A page's save keeps a law that its writes obey.** -/
theorem RowsHold.save {page : Page} (h : RowsHold P t) (hwrites : page.Writes P r s t)
    (hsave : page.save r s t = .ok t') : RowsHold P t' := by
  cases page with
  | reachability msg =>
    obtain ⟨current, publicURL, turn, cloudflare, tailscale, tunnel, proxies, hcurrent, hpublicURL, hturn,
      hcloudflare, htailscale, htunnel, hproxies, rfl⟩ := saveReachability_ok hsave
    obtain ⟨wpublicURL, wproxies, wothers⟩ := hwrites
    obtain ⟨wturn, wcloudflare, wtailscale, wtunnel⟩ := wothers current hcurrent
    refine h.write fun write hwrite => ?_
    simp only [List.mem_append, or_assoc] at hwrite
    rcases hwrite with hwrite | hwrite | hwrite | hwrite | hwrite | hwrite
    · exact wpublicURL publicURL hpublicURL write hwrite
    · exact wturn turn hturn write hwrite
    · exact wcloudflare cloudflare hcloudflare write hwrite
    · exact wtailscale tailscale htailscale write hwrite
    · exact wtunnel tunnel htunnel write hwrite
    · exact wproxies proxies hproxies write hwrite
  | loginProviders providers =>
    obtain ⟨current, next, hcurrent, hnext, rfl⟩ := saveLoginProviders_ok hsave
    exact h.set (hwrites current next hcurrent hnext)
  | email form =>
    obtain ⟨f, current, rfl, hcurrent, hvalid, rfl⟩ := saveEmail_ok hsave
    exact h.set (hwrites f current rfl hcurrent hvalid)
  | settings msg =>
    obtain ⟨name, password, hname, hpassword, rfl⟩ := saveSettings_ok hsave
    refine h.write fun write hwrite => ?_
    rcases List.mem_append.mp hwrite with hwrite | hwrite
    · exact hwrites.1 name hname write hwrite
    · exact hwrites.2 password hpassword write hwrite
  | password value =>
    rw [Page.save, setPasswordSignIn] at hsave
    split at hsave
    next hstored =>
      obtain rfl := Except.ok.inj hsave
      exact h.set (hwrites hstored)
    next => cases hsave
  | reset name =>
    obtain ⟨g, rfl⟩ := @perform_reset r s t t' name hsave
    exact h.delete _

/-- **A call keeps a law** that the writes of the page it comes down to obey. -/
theorem RowsHold.perform {call : Call} (h : RowsHold P t)
    (hwrites : ∀ page, call.page r s t = .ok page → page.Writes P r s t)
    (hperform : perform r s t call = .ok t') : RowsHold P t' := by
  rw [perform_eq_save] at hperform
  obtain ⟨page, hpage, hsave⟩ := bind_eq_ok hperform
  exact h.save (hwrites page hpage) hsave

/-- **A start keeps a law** that what the environment sets obeys, and the repair keeps. -/
theorem RowsHold.start (h : RowsHold P t) (s : Service) (random : Text)
    (hseeded : ∀ g value, s.seeded g = some value → P g value)
    (hname : P .instanceName (Group.instanceName.encode (s.setting random .instanceName)))
    (hrepair : ∀ g value value', P g value → Repaired s value value' g → P g value') :
    RowsHold P (start s random t).1 := by
  intro g value hvalue
  cases hrow : t (.group g) with
  | some value₀ =>
    rcases start_of_some hrow s random with hsame | ⟨-, value', hrow', hrepaired⟩
    · obtain rfl := Option.some.inj (hsame.symm.trans hvalue)
      exact h g _ hrow
    · obtain rfl := Option.some.inj (hrow'.symm.trans hvalue)
      exact hrepair g value₀ _ (h g value₀ hrow) hrepaired
  | none =>
    have hstart := start_of_none hrow s random
    rw [hvalue] at hstart
    by_cases hg : g = .instanceName
    · subst hg
      rw [seed_name hrow, Option.some_or] at hstart
      rw [Option.some.inj hstart]
      exact hname
    · rw [seed_of_ne hg, hrow, Option.none_or] at hstart
      exact hseeded g value hstart.symm

end Laws

end Stoop.Instance.Rows
