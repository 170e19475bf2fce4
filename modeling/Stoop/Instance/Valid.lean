import Stoop.Instance.Environment

/-!
# Every saved row is valid

Each row passes its group's own check, whoever wrote it: a page or the CLI, which save by the same checks
(`page_valid`), a start that seeds it from an environment that was loaded (`seeded_valid`), or the repair. So in
every run each setting is in force in every process, and valid (`settings_valid`): a row that is read never fails to
decode.

What is asked of a group is what both the pages and `config.Load` ask (`Group.Valid`).

## Main results

* `load_checked`: what was loaded.
* `settings_valid`: the invariant, and the settings in force.
-/

set_option autoImplicit false

namespace Stoop.Instance.Rows

open Stoop.Lib
open Stoop.Lib.NetIP (Text)
open Stoop.Lib.Json
open Stoop.Instance.TrustedProxy (trimSpace)

/-! ## What is loaded -/

/-- What `config.Load` lets through. -/
structure Config.Checked (r : Readers) (cfg : Config) : Prop where
  publicURL : cfg.publicURL = [] ∨ ∃ raw, r.origin raw = true ∧ cfg.publicURL = withoutSlash raw
  relay : cfg.turnURLs ≠ [] → cfg.turnUsername ≠ [] ∧ cfg.turnCredential ≠ []
  cloudflare : cfg.cloudflareTURNKeyID = [] ↔ cfg.cloudflareTURNAPIToken = []
  tunnel : cfg.cloudflareTunnel = true → cfg.cloudflareTunnelToken ≠ []
  oidc : cfg.oidcIssuer ≠ [] →
    r.issuerURL cfg.oidcIssuer = true ∧ cfg.oidcClientID ≠ [] ∧ cfg.oidcClientSecret ≠ []
  oidcID : validProviderID cfg.oidcID = true
  oidcName : cfg.oidcName ≠ []
  password : cfg.passwordSignIn ∈ [passwordEveryone, "admins".toList, "off".toList]
  instanceName : cfg.instanceName.length ≤ maxInstanceNameRunes
  smtp : cfg.smtpHost ≠ [] → (useSettingsEnv cfg).smtpEnv.validate r = none

variable {r : Readers} {env : Env} {cfg : Config}

theorem loadPublicURL_ok (r : Readers) (env : Env) : (loadPublicURL r env).value = [] ∨
    ∃ raw, r.origin raw = true ∧ (loadPublicURL r env).value = withoutSlash raw := by
  rw [loadPublicURL]
  split
  next => exact .inl rfl
  next =>
    split
    next horigin => exact .inr ⟨_, horigin, rfl⟩
    next => exact .inl rfl

/-- A port in range, and a limit. -/
theorem port_lt {port : Int64} (h : 1 ≤ port.toInt ∧ port.toInt ≤ 65535) :
    decide (port < 1) = false ∧ decide (65535 < port) = false := by
  have hone : (1 : Int64).toInt = 1 := rfl
  have hmax : (65535 : Int64).toInt = 65535 := rfl
  simp only [decide_eq_false_iff_not, Int64.lt_iff_toInt_lt, hone, hmax]
  omega

theorem stored_port {port : Int64} (h : IsPort port.toInt) (security : Text) :
    1 ≤ (if port = 0 then defaultPort security else port).toInt ∧
      (if port = 0 then defaultPort security else port).toInt ≤ 65535 := by
  split
  next =>
    rw [defaultPort]
    split
    · decide
    · split
      · decide
      · decide
  next hne =>
    rcases h with hzero | hrange
    · exact absurd (Int64.toInt_inj.mp hzero) hne
    · exact hrange

/-- What is asked of the server an environment sets. -/
structure SMTP.Seedable (r : Readers) (smtp : SMTP) : Prop where
  host : smtpHost smtp.host = true
  port : IsPort smtp.port.toInt
  security : smtp.security ∈ [securitySTARTTLS, securityTLS, securityNone]
  encrypted : smtp.security = securityNone → smtp.username = []
  password : smtp.username = [] ↔ smtp.password = []
  fromAddress : smtp.fromAddress ≠ [] ∧ r.bareAddress smtp.fromAddress = true
  fromName : smtp.fromName.length ≤ maxFromNameRunes ∧ '\r' ∉ smtp.fromName ∧ '\n' ∉ smtp.fromName
  hourlyLimit : 0 ≤ smtp.hourlyLimit.toInt ∧ smtp.hourlyLimit.toInt ≤ maxSMTPHourlyLimit.toInt

/-- **What seeds a server for mail, the page would not refuse.** -/
theorem SMTP.Seedable.validate {smtp : SMTP} (h : smtp.Seedable r) (hhost : smtp.host ≠ []) :
    (useSMTPEnv smtp).validate r = none := by
  have hset : smtp.security ≠ [] := by
    intro hblank
    have hmem := h.security
    rw [hblank] at hmem
    revert hmem
    decide
  obtain ⟨hlong, hreturn, hline⟩ := h.fromName
  refine validate_eq_none ?_
  simp only [SMTP.refusals, useSMTPEnv, if_neg hset, List.forall_mem_cons]
  refine ⟨?_, ?_, ?_, ?_, ?_, ?_, ?_, ?_, ?_, ?_, ?_, ?_, by rintro _ ⟨⟩⟩
  · simp [hhost]
  · simp [h.host]
  · exact Bool.or_eq_false_iff.mpr (port_lt (stored_port h.port _))
  · exact decide_eq_false (not_not.mpr h.security)
  · simpa using h.encrypted
  · simpa using fun husername => mt h.password.mpr husername
  · simpa using fun husername => h.password.mp husername
  · simp [h.fromAddress.1]
  · simp [h.fromAddress.2]
  · exact decide_eq_false (Nat.not_lt.mpr hlong)
  · simp [hreturn, hline]
  · simp only [Bool.or_eq_false_iff, decide_eq_false_iff_not, Int64.lt_iff_toInt_lt]
    exact ⟨Int.not_lt.mpr h.hourlyLimit.1, Int.not_lt.mpr h.hourlyLimit.2⟩

theorem loadSMTP_seedable (hhost : trimSpace (env "STOOP_SMTP_HOST") ≠ []) (h : (loadSMTP r env cfg).errs = []) :
    SMTP.Seedable r {
      host := (loadSMTP r env cfg).value.smtpHost, port := (loadSMTP r env cfg).value.smtpPort
      security := (loadSMTP r env cfg).value.smtpSecurity, username := (loadSMTP r env cfg).value.smtpUsername
      password := (loadSMTP r env cfg).value.smtpPassword, fromAddress := (loadSMTP r env cfg).value.smtpFrom
      fromName := (loadSMTP r env cfg).value.smtpFromName
      hourlyLimit := (loadSMTP r env cfg).value.smtpHourlyLimit } := by
  have hport := @envPort_isPort env "STOOP_SMTP_PORT"
  have hlimit := @envNonNegativeInt_nonneg env "STOOP_SMTP_HOURLY_LIMIT" DefaultHourlyLimit.toInt (by decide)
  simp only [loadSMTP, List.append_eq_nil_iff, failIf_eq_nil, not_and, not_or, not_not, Int.not_lt,
    Nat.not_lt] at h
  obtain ⟨⟨⟨⟨⟨⟨⟨-, hmax⟩, hpair⟩, hnone⟩, hname⟩, hsmtpHost⟩, hfrom⟩, haddress⟩ := h
  refine ⟨hsmtpHost hhost, ?_, envOneOf_mem (by decide), hnone, hpair, ⟨hfrom hhost, haddress (hfrom hhost)⟩, hname,
    ?_⟩
  · have hstored : (Int64.ofInt (envPort env "STOOP_SMTP_PORT" 0).value).toInt =
        (envPort env "STOOP_SMTP_PORT" 0).value := by
      rcases hport with h | h
      · exact Int64.toInt_ofInt_of_le (by omega) (by omega)
      · exact Int64.toInt_ofInt_of_le (by omega) (by omega)
    exact hstored ▸ hport
  · have hbound : maxSMTPHourlyLimit.toInt = 100000 := rfl
    have hstored : (Int64.ofInt (envNonNegativeInt env "STOOP_SMTP_HOURLY_LIMIT" DefaultHourlyLimit.toInt).value).toInt =
        (envNonNegativeInt env "STOOP_SMTP_HOURLY_LIMIT" DefaultHourlyLimit.toInt).value :=
      Int64.toInt_ofInt_of_le (by omega) (by omega)
    exact ⟨hstored ▸ hlimit, hstored ▸ hmax⟩

/-- **What was loaded has passed its checks.** -/
theorem load_checked (h : load r env = .ok cfg) : cfg.Checked r := by
  rw [load] at h
  dsimp only at h
  split at h
  next herrs =>
    obtain rfl := Except.ok.inj h
    simp only [List.append_eq_nil_iff] at herrs
    obtain ⟨⟨⟨⟨⟨-, hname⟩, hfrontDoors⟩, hvoice⟩, hoidc⟩, hsmtp⟩ := herrs
    simp only [loadFrontDoors, List.append_eq_nil_iff, failIf_eq_nil, not_and] at hfrontDoors
    simp only [loadVoice, List.append_eq_nil_iff, failIf_eq_nil, not_and, not_or, not_not] at hvoice
    simp only [loadOIDC, List.append_eq_nil_iff, failIf_eq_nil, not_not] at hoidc
    obtain ⟨⟨⟨⟨-, htunnel⟩, -⟩, -⟩, -⟩ := hfrontDoors
    obtain ⟨hrelay, hcloudflare⟩ := hvoice
    obtain ⟨hissuer, hid⟩ := hoidc
    refine {
      publicURL := loadPublicURL_ok r env
      relay := hrelay
      cloudflare := hcloudflare
      tunnel := htunnel
      oidc := fun hset => ?_
      oidcID := hid
      oidcName := getenv_ne_nil (by decide)
      password := envOneOf_mem (by decide)
      instanceName := Nat.not_lt.mp (failIf_eq_nil.mp hname)
      smtp := fun hhost => (loadSMTP_seedable hhost hsmtp).validate hhost }
    have hnamed : env "STOOP_OIDC_ISSUER" ≠ [] := hset
    rw [if_pos hnamed, List.append_eq_nil_iff, failIf_eq_nil, failIf_eq_nil, not_not, not_or] at hissuer
    exact hissuer
  next => cases h

/-! ## Valid settings -/

/-- What is asked of a provider. -/
structure LoginProvider.Valid (r : Readers) (p : LoginProvider) : Prop where
  id : validProviderID p.id = true
  kind : p.kind = "oidc".toList
  displayName : p.displayName ≠ []
  icon : p.icon ∈ providerIcons
  issuer : r.issuerURL p.issuer = true
  clientID : p.clientID ≠ []
  clientSecret : p.clientSecret ≠ []

/-- What is asked of a group, by the pages and by `config.Load`. -/
def Group.Valid (r : Readers) : (g : Group) → g.Setting → Prop
  | .publicURL, url => url = ([] : Text) ∨ ∃ raw, r.origin raw = true ∧ url = withoutSlash raw
  | .trustedProxies, _ => True
  | .turn, relay => TURNRelay.urls relay ≠ [] → TURNRelay.username relay ≠ [] ∧ TURNRelay.credential relay ≠ []
  | .cloudflareTURN, cloudflare => CloudflareTURN.keyID cloudflare = [] ↔ CloudflareTURN.apiToken cloudflare = []
  | .tailscale, _ => True
  | .cloudflareTunnel, tunnel =>
    CloudflareTunnelSettings.enabled tunnel = true → CloudflareTunnelSettings.token tunnel ≠ []
  | .loginProviders, providers => (List.map LoginProvider.id providers).Nodup ∧
      ∀ p : LoginProvider, p ∈ (show List LoginProvider from providers) → p.Valid r
  | .passwordSignIn, password => (PasswordForm.ofStored password).isSome = true
  | .instanceName, name => name ≠ ([] : Text) ∧ List.length (show Text from name) ≤ maxInstanceNameRunes
  | .smtp, server => SMTP.validate r server = none

/-- A row is a valid setting's; of addresses, any list that parses. -/
def RowValid (r : Readers) (g : Group) (value : Value) : Prop :=
  if g = .trustedProxies then ∃ entries set, value = addressesCodec.encode entries ∧ ProxySet.parse entries = .ok set
  else ∃ setting : g.Setting, value = g.encode setting ∧ g.Valid r setting

section Rows

variable {r : Readers} {s : Service} {t : Table} {cfg : Config} {random : Text}

theorem RowValid.encode {g : Group} {setting : g.Setting} (hg : g ≠ .trustedProxies) (h : g.Valid r setting) :
    RowValid r g (g.encode setting) := by
  rw [RowValid, if_neg hg]
  exact ⟨setting, rfl, h⟩

theorem RowValid.addresses {entries : List Text} {set : ProxySet} (h : ProxySet.parse entries = .ok set) :
    RowValid r .trustedProxies (addressesCodec.encode entries) := by
  rw [RowValid, if_pos rfl]
  exact ⟨entries, set, rfl, h⟩

theorem ProxySet.parse_of_ok {entries : List Text} {set : TrustedProxy.Proxies}
    (h : TrustedProxy.parse entries = .ok set) : ∃ proxies, ProxySet.parse entries = .ok proxies := by
  rw [parse]
  split
  next => exact ⟨_, rfl⟩
  next e herror => cases h.symm.trans herror

/-! ## What the pages write -/

theorem stagePublicURL_valid {msg : UpdateReachability} : Writes (RowValid r) (stagePublicURL r msg) := by
  rw [stagePublicURL]
  split
  · exact .nothing
  next raw _ =>
    refine .ite (fun _ => .one (@RowValid.encode r .publicURL [] nofun (.inl rfl))) fun _ => ?_
    refine .ite (fun horigin => .one ?_) fun _ => .refused _
    exact @RowValid.encode r .publicURL (withoutSlash (trimSpace raw)) nofun (.inr ⟨_, horigin, rfl⟩)

theorem stageTURN_valid {msg : UpdateReachability} {current : Reachability} :
    Writes (RowValid r) (stageTURN msg current) := by
  rw [stageTURN]
  split
  · exact .nothing
  · dsimp only
    refine .ite (fun _ => .one (@RowValid.encode r .turn {} nofun fun h => absurd rfl h)) fun _ => ?_
    refine .checked fun hvalid => @RowValid.encode r .turn _ nofun fun hurls => ?_
    rw [validateTURN, Option.or_eq_none_iff, Option.or_eq_none_iff] at hvalid
    obtain ⟨-, -, hpair⟩ := hvalid
    by_contra hmissing
    rw [if_pos ⟨hurls, by tauto⟩] at hpair
    cases hpair

theorem stageCloudflareTURN_valid {msg : UpdateReachability} {current : Reachability} :
    Writes (RowValid r) (stageCloudflareTURN msg current) := by
  rw [stageCloudflareTURN]
  split
  · exact .nothing
  · refine .ite (fun _ => .one (@RowValid.encode r .cloudflareTURN {} nofun (iff_of_true rfl rfl))) fun hkey => ?_
    refine .ite (fun _ => .refused _) fun htoken => .one ?_
    exact @RowValid.encode r .cloudflareTURN _ nofun (iff_of_false hkey htoken)

theorem stageTailscale_valid {msg : UpdateReachability} {current : Reachability} :
    Writes (RowValid r) (stageTailscale r msg current) := by
  rw [stageTailscale]
  split
  · exact .nothing
  · exact .checked fun _ => @RowValid.encode r .tailscale _ nofun trivial

theorem stageCloudflareTunnel_valid {msg : UpdateReachability} {current : Reachability} :
    Writes (RowValid r) (stageCloudflareTunnel r msg current) := by
  rw [stageCloudflareTunnel]
  split
  · exact .nothing
  · refine .bind fun tunnel htunnel => .one (@RowValid.encode r .cloudflareTunnel tunnel nofun ?_)
    obtain ⟨typed, -, htunnel⟩ := bind_eq_ok htunnel
    dsimp only at htunnel
    split at htunnel
    next => cases htunnel
    next hneeds =>
      obtain rfl := Except.ok.inj htunnel
      exact fun henabled htoken => hneeds ⟨henabled, htoken⟩

theorem stageTrustedProxies_valid {msg : UpdateReachability} : Writes (RowValid r) (stageTrustedProxies msg) := by
  rw [stageTrustedProxies]
  split
  · exact .nothing
  · refine .ite (fun _ => .refused _) fun _ => ?_
    split
    next => exact .refused _
    next set hset =>
      obtain ⟨proxies, hproxies⟩ := ProxySet.parse_of_ok hset
      exact .one (.addresses hproxies)

theorem stageInstanceName_valid {msg : UpdateSettings} : Writes (RowValid r) (stageInstanceName msg) := by
  rw [stageInstanceName]
  split
  · exact .nothing
  · refine .ite (fun _ => .refused _) fun hname => .ite (fun _ => .refused _) fun hlength => .one ?_
    exact @RowValid.encode r .instanceName _ nofun ⟨hname, Nat.not_lt.mp hlength⟩

theorem ofStored_stored {form : PasswordForm} {password : Text} (h : form.stored = some password) :
    (PasswordForm.ofStored password).isSome = true := by
  cases form
  case unspecified => cases h
  case unknown => cases h
  all_goals
    obtain rfl := Option.some.inj h
    decide

theorem ite_some_eq_none {α : Type} {p : Prop} [Decidable p] {a : α} {x : Option α} :
    (if p then some a else x) = none ↔ ¬p ∧ x = none := by
  split
  next h => simp [h]
  next h => simp [h]

/-- What a form's provider has, but for its secret. -/
theorem validateLoginProvider_valid {i : Nat} {form : ProviderForm} {p : LoginProvider} {clientSecret : Text}
    (h : validateLoginProvider r i form = .ok p) (hsecret : clientSecret ≠ []) :
    LoginProvider.Valid r { p with clientSecret } := by
  obtain ⟨hp, hrefusal⟩ := checked_eq_ok h
  rw [← hp] at hrefusal
  simp only [ite_some_eq_none, Bool.not_eq_true', Bool.not_eq_false, not_not] at hrefusal
  obtain ⟨-, hid, hicon, hissuer, hclient, -⟩ := hrefusal
  refine ⟨hid, congrArg LoginProvider.kind hp, fun hblank => ?_, hicon, hissuer, hclient, hsecret⟩
  rw [hp] at hid hblank
  dsimp only at hid hblank
  split at hblank
  next =>
    rw [validProviderID, hblank] at hid
    cases hid
  next hname => exact hname hblank

/-- A kept secret changes nothing else of a provider. -/
theorem keeping_eq (p : LoginProvider) (prior : Option LoginProvider) :
    ∃ clientSecret, p.keeping prior = { p with clientSecret } := by
  cases prior with
  | none => exact ⟨p.clientSecret, rfl⟩
  | some prior =>
    rw [LoginProvider.keeping]
    split
    · exact ⟨_, rfl⟩
    · exact ⟨p.clientSecret, rfl⟩

/-- **A list that is saved** is of valid providers, each with an id of its own. -/
theorem nextProviders_valid {current next : List LoginProvider} {i : Nat} {seen : List Text}
    {forms : List ProviderForm} (h : nextProviders r current i seen forms = .ok next) :
    (next.map LoginProvider.id).Nodup ∧ ∀ p ∈ next, p.Valid r ∧ p.id ∉ seen := by
  induction forms generalizing i seen next with
  | nil =>
    cases h
    exact ⟨List.nodup_nil, nofun⟩
  | cons form forms ih =>
    rw [nextProviders] at h
    obtain ⟨q, hq, h⟩ := bind_eq_ok h
    dsimp only at h
    split at h
    next => cases h
    next hunseen =>
      split at h
      next => cases h
      next hsecret =>
        obtain ⟨rest, hrest, h⟩ := bind_eq_ok h
        obtain rfl := Except.ok.inj h
        obtain ⟨hnodup, hvalid⟩ := ih hrest
        obtain ⟨clientSecret, hkept⟩ := keeping_eq q (priorOf current q.id)
        rw [hkept] at hsecret hvalid ⊢
        refine ⟨List.nodup_cons.mpr ⟨fun hmem => ?_, hnodup⟩, fun p hp => ?_⟩
        · obtain ⟨p, hp, hid⟩ := List.mem_map.mp hmem
          refine (hvalid p hp).2 ?_
          rw [hid]
          exact List.mem_cons_self
        · rcases List.mem_cons.mp hp with rfl | hp
          · exact ⟨validateLoginProvider_valid hq hsecret, hunseen⟩
          · exact ⟨(hvalid p hp).1, fun hseen => (hvalid p hp).2 (List.mem_cons_of_mem _ hseen)⟩

/-- **Each page writes valid rows.** -/
theorem page_valid (page : Page) : page.Writes (RowValid r) r s t := by
  cases page with
  | reachability msg =>
    exact ⟨stagePublicURL_valid, stageTrustedProxies_valid, fun current _ =>
      ⟨stageTURN_valid, stageCloudflareTURN_valid, stageTailscale_valid, stageCloudflareTunnel_valid⟩⟩
  | loginProviders providers =>
    intro current next _ hnext
    obtain ⟨hnodup, hvalid⟩ := nextProviders_valid hnext
    exact @RowValid.encode r .loginProviders next nofun ⟨hnodup, fun p hp => (hvalid p hp).1⟩
  | email form =>
    intro f current _ _ hvalid
    exact @RowValid.encode r .smtp (smtpFromProto f current) nofun hvalid
  | settings msg =>
    refine ⟨stageInstanceName_valid, fun writes hwrites write hwrite => ?_⟩
    obtain ⟨form, password, hstored, rfl⟩ := stagePasswordSignIn_writes hwrites hwrite
    exact @RowValid.encode r .passwordSignIn password nofun (ofStored_stored hstored)
  | password value => exact fun hstored => @RowValid.encode r .passwordSignIn value nofun hstored
  | reset name => trivial

/-! ## What a loaded environment sets -/

/-- The providers of an environment that was loaded. -/
theorem loginEnv_valid (h : cfg.Checked r) : Group.loginProviders.Valid r (useSettingsEnv cfg).loginEnv := by
  change (List.map LoginProvider.id (useSettingsEnv cfg).loginEnv).Nodup ∧
    ∀ p ∈ (useSettingsEnv cfg).loginEnv, p.Valid r
  rw [useSettingsEnv]
  dsimp only
  split
  next => exact ⟨List.nodup_nil, by rintro _ ⟨⟩⟩
  next hissuer =>
    refine ⟨List.nodup_singleton _, fun p hp => ?_⟩
    obtain ⟨hurl, hclient, hsecret⟩ := h.oidc hissuer
    rw [List.mem_singleton.mp hp]
    have hicon : "key".toList ∈ providerIcons := by decide
    exact ⟨h.oidcID, rfl, h.oidcName, hicon, hurl, hclient, hsecret⟩

theorem passwordEnv_valid (h : cfg.Checked r) : (PasswordForm.ofStored cfg.passwordSignIn).isSome = true := by
  have hmem := h.password
  simp only [List.mem_cons, List.not_mem_nil, or_false] at hmem
  rcases hmem with hpassword | hpassword | hpassword
  all_goals
    rw [hpassword]
    decide

/-- **A loaded environment's settings are valid**, but for a server for mail it does not set. -/
theorem setting_valid (h : cfg.Checked r) {unnamed : Text} (hname : unnamed ≠ [])
    (hlength : unnamed.length ≤ maxInstanceNameRunes) (g : Group) :
    g.Valid r ((useSettingsEnv cfg).setting unnamed g) ∨ g = .smtp ∧ cfg.smtpHost = [] := by
  cases g with
  | publicURL => exact .inl h.publicURL
  | trustedProxies => exact .inl trivial
  | turn => exact .inl h.relay
  | cloudflareTURN => exact .inl h.cloudflare
  | tailscale => exact .inl trivial
  | cloudflareTunnel => exact .inl h.tunnel
  | loginProviders => exact .inl (loginEnv_valid h)
  | passwordSignIn =>
    refine .inl ?_
    change (PasswordForm.ofStored (if cfg.passwordSignIn = [] then passwordEveryone else cfg.passwordSignIn)).isSome = true
    split
    · decide
    · exact passwordEnv_valid h
  | instanceName =>
    refine .inl ?_
    change (if cfg.instanceName = [] then unnamed else cfg.instanceName) ≠ [] ∧
      (if cfg.instanceName = [] then unnamed else cfg.instanceName).length ≤ maxInstanceNameRunes
    split
    · exact ⟨hname, hlength⟩
    · exact ⟨‹_›, h.instanceName⟩
  | smtp =>
    by_cases hhost : cfg.smtpHost = []
    · exact .inr ⟨rfl, hhost⟩
    · have hset : (useSettingsEnv cfg).setting unnamed .smtp = (useSettingsEnv cfg).smtpEnv := if_pos hhost
      rw [hset]
      exact .inl (h.smtp hhost)

/-- **A row that is seeded is valid.** -/
theorem seeded_valid (h : cfg.Checked r) {g : Group} {value : Value}
    (hseeded : (useSettingsEnv cfg).seeded g = some value) : RowValid r g value := by
  have hvalue := seeded_setting hseeded "Stoop".toList
  by_cases hg : g = .trustedProxies
  · subst hg
    rw [hvalue]
    exact .addresses (parse_strings _)
  · rcases setting_valid h (by decide : "Stoop".toList ≠ []) (by decide) g with hvalid | ⟨rfl, hhost⟩
    · rw [hvalue]
      exact .encode hg hvalid
    · obtain ⟨hset, -⟩ := Option.ite_none_right_eq_some.mp hseeded
      have hblank : (useSettingsEnv cfg).smtpEnv.host = [] := hhost
      rw [hblank] at hset
      cases hset

theorem repaired_valid (h : cfg.Checked r) {g : Group} {value value' : Value}
    (hrepaired : Repaired (useSettingsEnv cfg) value value' g) : RowValid r g value' := by
  cases g
  case cloudflareTunnel =>
    obtain ⟨saved, -, -, htoken, rfl⟩ := hrepaired
    exact @RowValid.encode r .cloudflareTunnel
      { saved with token := (useSettingsEnv cfg).env.cloudflareTunnel.token } nofun fun _ => htoken
  case loginProviders =>
    obtain ⟨-, -, rfl⟩ := hrepaired
    exact @RowValid.encode r .loginProviders (useSettingsEnv cfg).loginEnv nofun (loginEnv_valid h)
  all_goals exact hrepaired.elim

theorem instanceNameOf_length : ∀ adj ∈ instanceAdjectives, ∀ noun ∈ instanceNouns,
    (instanceNameOf adj noun).length ≤ maxInstanceNameRunes := by
  have hadj : ∀ adj ∈ instanceAdjectives, adj.toList.length ≤ 20 := by decide +kernel
  have hnoun : ∀ noun ∈ instanceNouns, noun.toList.length ≤ 20 := by decide +kernel
  intro adj hmem noun hmem'
  have hlen := hadj adj hmem
  have hlen' := hnoun noun hmem'
  rw [instanceNameOf, List.length_append, List.length_cons, maxInstanceNameRunes]
  omega

theorem instanceNameOf_ne_nil (adj noun : String) : instanceNameOf adj noun ≠ [] := by
  rw [instanceNameOf]
  exact List.append_ne_nil_of_right_ne_nil _ (List.cons_ne_nil _ _)

/-! ## Every run -/

variable (r) in
/-- A call, or a start of a server whose environment was loaded, with a name from the lists. -/
def StepLoaded (_ : Table) : Step → Prop
  | .start cfg random => (∃ env, load r env = .ok cfg) ∧
      ∃ adj ∈ instanceAdjectives, ∃ noun ∈ instanceNouns, random = instanceNameOf adj noun
  | .call .. => True

theorem step_valid {t t' : Table} {label : Step} (h : RowsHold (RowValid r) t) (hloaded : StepLoaded r t label)
    (hstep : step r t label = some t') : RowsHold (RowValid r) t' := by
  cases label with
  | start cfg random =>
    obtain ⟨⟨env, hload⟩, adj, hadj, noun, hnoun, rfl⟩ := hloaded
    have hchecked := load_checked hload
    obtain rfl := Option.some.inj hstep
    refine h.start _ _ (fun g value => seeded_valid hchecked) ?_ fun g value value' _ => repaired_valid hchecked
    rcases setting_valid hchecked (instanceNameOf_ne_nil adj noun) (instanceNameOf_length adj hadj noun hnoun)
      .instanceName with hvalid | ⟨hsmtp, -⟩
    · exact .encode nofun hvalid
    · cases hsmtp
  | call cfg call =>
    rcases step_call hstep with rfl | hperform
    · exact h
    · exact h.perform (fun page _ => page_valid page) hperform

theorem rows_valid (h : Runs (step r) (StepLoaded r) .empty t) : RowsHold (RowValid r) t :=
  h.keeps RowsHold.empty fun _ _ _ => step_valid

/-- A valid row is read, and is in force. -/
theorem inForce_valid (h : RowsHold (RowValid r) t) (hcfg : cfg.Checked r) (g : Group) :
    ∃ setting, inForce (useSettingsEnv cfg) t g = .ok setting ∧
      (g.Valid r setting ∨ g = .smtp ∧ t (.group .smtp) = none ∧ cfg.smtpHost = []) := by
  cases hrow : t (.group g) with
  | none =>
    refine ⟨_, inForce_of_none hrow, ?_⟩
    rcases setting_valid hcfg (by decide : "Stoop".toList ≠ []) (by decide) g with hvalid | ⟨rfl, hhost⟩
    · exact .inl hvalid
    · exact .inr ⟨rfl, hrow, hhost⟩
  | some value =>
    have hvalue := h g value hrow
    by_cases hg : g = .trustedProxies
    · subst hg
      rw [RowValid, if_pos rfl] at hvalue
      obtain ⟨entries, set, rfl, hset⟩ := hvalue
      refine ⟨set, ?_, .inl trivial⟩
      rw [inForce, trustedProxies, readJSON_encode hrow]
      refine congrArg Except.ok ?_
      dsimp only
      rw [hset]
    · rw [RowValid, if_neg hg] at hvalue
      obtain ⟨setting, rfl, hvalid⟩ := hvalue
      exact ⟨setting, inForce_encode hrow, .inl hvalid⟩

/-- The settings are valid, in every run from an empty database. -/
structure AlwaysValid (r : Readers) : Prop where
  rows : ∀ t, Runs (step r) (StepLoaded r) .empty t → RowsHold (RowValid r) t
  /-- In every process that loaded its environment each setting is read, and is valid: but for the server for mail
  where there is none. -/
  inForce : ∀ t, Runs (step r) (StepLoaded r) .empty t → ∀ env cfg, load r env = .ok cfg → ∀ g,
    ∃ setting, inForce (useSettingsEnv cfg) t g = .ok setting ∧
      (g.Valid r setting ∨ g = .smtp ∧ t (.group .smtp) = none ∧ cfg.smtpHost = [])

/-- **What is saved is valid, whoever saved it.** -/
theorem settings_valid (r : Readers) : AlwaysValid r where
  rows _ := rows_valid
  inForce _ hruns _ _ hload := inForce_valid (rows_valid hruns) (load_checked hload)

end Rows

end Stoop.Instance.Rows
