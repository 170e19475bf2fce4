import Stoop.Instance.Pages

/-!
# Secrets, and what they were typed for

A secret is typed in a save or a test send, or set in an environment, beside the server and the account it is for
(`Typed`). What is saved and what is sent is traced back to that: a setting's secret is `Known` of what has been
typed so far, and so is that of each row (`RowKnown`), since a field left blank keeps the secret in force.

A password for mail is kept only beside the same host and user name, a Cloudflare token beside the same key, and a
provider's client secret beside the same client id, whatever the issuer then is. A listener's key, a relay's
credential and a tunnel's token are kept always.
-/

set_option autoImplicit false

namespace Stoop.Instance.Rows

open Stoop.Lib
open Stoop.Lib.NetIP (Text)
open Stoop.Lib.Json
open Stoop.Instance.TrustedProxy (trimSpace)

/-! ## Mail sent -/

/-- `mail.Server`. -/
structure Server where
  host : Text
  port : Int64
  security : Text
  username : Text
  password : Text
  fromAddress : Text
  fromName : Text
  deriving DecidableEq, Repr

section Sends

variable (r : Readers) (s : Service) (t : Table)

/-- The server to send through; a blank From name sends the instance name. -/
def mailServer (smtp : SMTP) : Except Key Server :=
  (if smtp.fromName = [] then instanceName s t else .ok smtp.fromName).map fun fromName =>
    { host := smtp.host, port := smtp.port, security := smtp.security, username := smtp.username
      password := smtp.password, fromAddress := smtp.fromAddress, fromName }

/-- `Send`: the server a message goes through, if one is configured. -/
def send : Except Key (Option Server) :=
  match smtpSettings s t with
  | .error key => .error key
  | .ok smtp => if smtp.enabled ∧ smtp.host ≠ [] then (mailServer s t smtp).map some else .ok none

/-- `SendTestEmail`: the server a form's test goes through, and who it goes to. -/
def sendTestEmail (form : Option SmtpForm) (recipient : Text) : Except Failure (Server × Text) :=
  match form with
  | none => refuse "smtp settings are required" []
  | some form => do
    let saved ← Failure.ofKey (smtpSettings s t)
    let smtp ← checked (smtpFromProto form saved) ((smtpFromProto form saved).validate r)
    if smtp.host = [] then .error (.refused ⟨"smtp.host", "Enter the server's host name.", []⟩)
    else if smtp.fromAddress = [] then
      .error (.refused ⟨"smtp.from_address", "Enter the address email is sent from.", []⟩)
    else
      match r.mailbox (trimSpace recipient) with
      | none => .error (.refused ⟨"to", "Enter one email address to send the test to.", []⟩)
      | some mailbox => do
        let server ← Failure.ofKey (mailServer s t smtp)
        return (server, mailbox.2)

end Sends

/-! ## What is typed -/

/-- A secret, and what it was typed beside. -/
inductive Typed
  | turn (credential : Text)
  | cloudflare (keyID apiToken : Text)
  | tailscale (controlURL authKey : Text)
  | tunnel (token : Text)
  | provider (id issuer clientID clientSecret : Text)
  | smtp (host username password : Text)
  deriving DecidableEq, Repr

/-- A secret that is not blank. -/
def typedUnless (secret : Text) (typed : Typed) : List Typed := if secret = [] then [] else [typed]

def LoginProvider.typed (p : LoginProvider) : List Typed :=
  typedUnless p.clientSecret (.provider p.id p.issuer p.clientID p.clientSecret)

def SMTP.typed (smtp : SMTP) : List Typed := typedUnless smtp.password (.smtp smtp.host smtp.username smtp.password)

/-- What an environment sets; without a host it sets no server for mail. -/
def Service.typed (s : Service) : List Typed :=
  typedUnless s.env.turn.credential (.turn s.env.turn.credential) ++
  typedUnless s.env.cloudflare.apiToken (.cloudflare s.env.cloudflare.keyID s.env.cloudflare.apiToken) ++
  typedUnless s.env.tailscale.authKey (.tailscale s.env.tailscale.controlURL s.env.tailscale.authKey) ++
  typedUnless s.env.cloudflareTunnel.token (.tunnel s.env.cloudflareTunnel.token) ++
  s.loginEnv.flatMap LoginProvider.typed ++
  if s.smtpEnv.host = [] then [] else s.smtpEnv.typed

def SmtpForm.typed (form : SmtpForm) : List Typed :=
  typedUnless form.password (.smtp (trimSpace form.host) (trimSpace form.username) form.password)

def ProviderForm.typed (form : ProviderForm) : List Typed :=
  typedUnless (trimSpace form.clientSecret)
    (.provider (trimSpace form.id) (trimSpace form.issuer) (trimSpace form.clientId) (trimSpace form.clientSecret))

def UpdateReachability.typed (msg : UpdateReachability) : List Typed :=
  (msg.turn.toList.flatMap fun form => typedUnless form.credential (.turn form.credential)) ++
  (msg.cloudflare.toList.flatMap fun form =>
    typedUnless (trimSpace form.apiToken) (.cloudflare (trimSpace form.keyId) (trimSpace form.apiToken))) ++
  (msg.tailscale.toList.flatMap fun form =>
    typedUnless (trimSpace form.authKey) (.tailscale (trimSpace form.controlUrl) (trimSpace form.authKey))) ++
  msg.cloudflareTunnel.toList.flatMap fun form => typedUnless (trimSpace form.token) (.tunnel (trimSpace form.token))

/-- What is typed in a page's form. -/
def Page.typed : Page → List Typed
  | .reachability msg => msg.typed
  | .loginProviders providers => providers.flatMap ProviderForm.typed
  | .email form => form.toList.flatMap SmtpForm.typed
  | .settings _ | .password _ | .reset _ => []

def Call.typed (r : Readers) (s : Service) (t : Table) (call : Call) : List Typed :=
  match call.page r s t with
  | .ok page => page.typed
  | .error _ => []

/-- What a step types: what its process is given, and the form of a call that is not refused. -/
def typedBy (r : Readers) (t : Table) : Step → List Typed
  | .start cfg _ => (useSettingsEnv cfg).typed
  | .call cfg call =>
    (useSettingsEnv cfg).typed ++
      match perform r (useSettingsEnv cfg) t call with
      | .ok _ => call.typed r (useSettingsEnv cfg) t
      | .error _ => []

/-! ## Blank secrets beside what they were typed for -/

/-- No blank key beside another control server than the one in force. -/
def BesideControl (s : Service) (t : Table) (msg : UpdateReachability) : Prop :=
  ∀ form ∈ msg.tailscale, ∀ settings : TailscaleSettings, inForce s t .tailscale = .ok settings →
    trimSpace form.authKey = [] → trimSpace form.controlUrl = settings.controlURL

/-- No blank client secret beside another issuer than the one in force. -/
def BesideIssuer (s : Service) (t : Table) (providers : List ProviderForm) : Prop :=
  ∀ form ∈ providers, ∀ current, loginProviders s t = .ok current → trimSpace form.clientSecret = [] →
    ∀ prior ∈ priorOf current (trimSpace form.id), trimSpace form.issuer = prior.issuer

def Page.Beside (s : Service) (t : Table) : Page → Prop
  | .reachability msg => BesideControl s t msg
  | .loginProviders providers => BesideIssuer s t providers
  | .email _ | .settings _ | .password _ | .reset _ => True

/-! ## Known secrets -/

/-- A client secret was typed for its provider and client id; and, if that is strict, for its issuer. -/
def LoginProvider.Known (strict : Prop) (typed : List Typed) (p : LoginProvider) : Prop :=
  p.clientSecret ≠ [] → ∃ issuer, .provider p.id issuer p.clientID p.clientSecret ∈ typed ∧
    (strict → issuer = p.issuer)

/-- A key was typed; and, if that is strict, for its control server. -/
def TailscaleSettings.Known (strict : Prop) (typed : List Typed) (settings : TailscaleSettings) : Prop :=
  settings.authKey ≠ [] → ∃ controlURL, .tailscale controlURL settings.authKey ∈ typed ∧
    (strict → controlURL = settings.controlURL)

/-- A password was typed for its host and user name. -/
def SMTP.Known (typed : List Typed) (smtp : SMTP) : Prop :=
  smtp.password ≠ [] → .smtp smtp.host smtp.username smtp.password ∈ typed

/-- A setting's secrets are known. -/
def Group.Known (strict : Prop) (typed : List Typed) : (g : Group) → g.Setting → Prop
  | .turn, relay => TURNRelay.credential relay ≠ [] → .turn (TURNRelay.credential relay) ∈ typed
  | .cloudflareTURN, cloudflare => CloudflareTURN.apiToken cloudflare ≠ [] →
      .cloudflare (CloudflareTURN.keyID cloudflare) (CloudflareTURN.apiToken cloudflare) ∈ typed
  | .tailscale, settings => TailscaleSettings.Known strict typed settings
  | .cloudflareTunnel, tunnel => CloudflareTunnelSettings.token tunnel ≠ [] →
      .tunnel (CloudflareTunnelSettings.token tunnel) ∈ typed
  | .loginProviders, providers => ∀ p : LoginProvider, p ∈ (show List LoginProvider from providers) →
      p.Known strict typed
  | .smtp, server => SMTP.Known typed server
  | .publicURL, _ | .trustedProxies, _ | .passwordSignIn, _ | .instanceName, _ => True

/-- A row's secrets are known; addresses have none. -/
def RowKnown (strict : Prop) (typed : List Typed) (g : Group) (value : Value) : Prop :=
  g = .trustedProxies ∨ ∃ setting : g.Setting, value = g.encode setting ∧ g.Known strict typed setting

variable {r : Readers} {s : Service} {t : Table} {strict : Prop} {typed typed' : List Typed} {g : Group}

theorem mem_typedUnless {secret : Text} {x : Typed} (h : secret ≠ []) : x ∈ typedUnless secret x := by
  rw [typedUnless, if_neg h]
  exact List.mem_singleton_self x

theorem Group.Known.mono {setting : g.Setting} (h : g.Known strict typed setting) (hsub : typed ⊆ typed') :
    g.Known strict typed' setting := by
  cases g with
  | publicURL => trivial
  | trustedProxies => trivial
  | passwordSignIn => trivial
  | instanceName => trivial
  | turn => exact fun hsecret => hsub (h hsecret)
  | cloudflareTURN => exact fun hsecret => hsub (h hsecret)
  | cloudflareTunnel => exact fun hsecret => hsub (h hsecret)
  | smtp => exact fun hsecret => hsub (h hsecret)
  | tailscale =>
    intro hsecret
    obtain ⟨controlURL, hmem, hsame⟩ := h hsecret
    exact ⟨controlURL, hsub hmem, hsame⟩
  | loginProviders =>
    intro p hp hsecret
    obtain ⟨issuer, hmem, hsame⟩ := h p hp hsecret
    exact ⟨issuer, hsub hmem, hsame⟩

theorem RowKnown.mono {value : Value} (h : RowKnown strict typed g value) (hsub : typed ⊆ typed') :
    RowKnown strict typed' g value :=
  h.imp_right fun ⟨setting, hvalue, hknown⟩ => ⟨setting, hvalue, hknown.mono hsub⟩

theorem RowKnown.encode {setting : g.Setting} (h : g.Known strict typed setting) :
    RowKnown strict typed g (g.encode setting) := .inr ⟨setting, rfl, h⟩

/-- The environment's secrets are known. -/
theorem known_setting (henv : s.typed ⊆ typed) (unnamed : Text) (g : Group) :
    g.Known strict typed (s.setting unnamed g) := by
  have hmem : ∀ x, x ∈ s.typed → x ∈ typed := fun x hx => henv hx
  simp only [Service.typed, List.mem_append] at hmem
  cases g with
  | publicURL => trivial
  | trustedProxies => trivial
  | passwordSignIn => trivial
  | instanceName => trivial
  | turn => exact fun hsecret => hmem _ (.inl (.inl (.inl (.inl (.inl (mem_typedUnless hsecret))))))
  | cloudflareTURN => exact fun hsecret => hmem _ (.inl (.inl (.inl (.inl (.inr (mem_typedUnless hsecret))))))
  | tailscale =>
    exact fun hsecret => ⟨_, hmem _ (.inl (.inl (.inl (.inr (mem_typedUnless hsecret))))), fun _ => rfl⟩
  | cloudflareTunnel => exact fun hsecret => hmem _ (.inl (.inl (.inr (mem_typedUnless hsecret))))
  | loginProviders =>
    exact fun p hp hsecret => ⟨p.issuer,
      hmem _ (.inl (.inr (List.mem_flatMap.mpr ⟨p, hp, mem_typedUnless hsecret⟩))), fun _ => rfl⟩
  | smtp =>
    change SMTP.Known typed (if s.smtpEnv.host ≠ [] then s.smtpEnv else .unsaved)
    split
    next hhost =>
      intro hsecret
      refine hmem _ (.inr ?_)
      rw [if_neg hhost]
      exact mem_typedUnless hsecret
    next => exact fun hsecret => absurd rfl hsecret

/-- **What is in force is known**, of rows and an environment that are. -/
theorem known_inForce (h : RowsHold (RowKnown strict typed) t) (henv : s.typed ⊆ typed) {setting : g.Setting}
    (hforce : inForce s t g = .ok setting) : g.Known strict typed setting := by
  cases hrow : t (.group g) with
  | none =>
    rw [inForce_of_none hrow] at hforce
    rw [← Except.ok.inj hforce]
    exact known_setting henv _ g
  | some value =>
    rcases h g value hrow with rfl | ⟨saved, rfl, hknown⟩
    · trivial
    · rw [inForce_encode hrow] at hforce
      rwa [← Except.ok.inj hforce]

end Stoop.Instance.Rows
