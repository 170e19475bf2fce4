import Mathlib
import Stoop.Instance.Seeding
import Stoop.Instance.Saves
import Stoop.Lib.Machine

/-!
# The calls that change a setting, and the server's starts

`SetSettingFields` makes of a CLI's changes the form of one of the admin page's saves, from the settings in force
with their secrets left blank. With it the calls are whole (`Call`): the page's saves, the CLI's, clears and
resets, each by a process with an environment of its own; and a step is one of them or a server's start.
-/

set_option autoImplicit false

namespace Stoop.Instance.Rows

open Stoop.Lib.NetIP (Text)
open Stoop.Lib.Json

attribute [local instance] Stoop.Markdown.lawfulText

/-! ## The settings as the forms show them -/

def TURNRelay.toProto (relay : TURNRelay) : TurnForm :=
  { urls := relay.urls, username := relay.username, stunUrls := relay.stunURLs }

def CloudflareTURN.toProto (cloudflare : CloudflareTURN) : CloudflareForm := { keyId := cloudflare.keyID }

def TailscaleSettings.toProto (settings : TailscaleSettings) : TailscaleForm :=
  { enabled := settings.enabled, hostname := settings.hostname, funnel := settings.funnel
    controlUrl := settings.controlURL }

def CloudflareTunnelSettings.toProto (tunnel : CloudflareTunnelSettings) : TunnelForm :=
  { enabled := tunnel.enabled }

/-! ## One change of a field -/

/-- How list shows a saved secret. -/
def secretPlaceholder : Text := "(set)".toList

def secretFields : List String :=
  ["turn.credential", "cloudflare-turn.api-token", "tailscale.auth-key", "cloudflare-tunnel.token",
    "smtp.password"]

/-- `strconv.ParseBool`. -/
def parseBool (value : Text) : Option Bool :=
  if value ∈ ["1", "t", "T", "TRUE", "true", "True"].map String.toList then some true
  else if value ∈ ["0", "f", "F", "FALSE", "false", "False"].map String.toList then some false
  else none

/-- `strconv.ParseUint`, of ten digits and 32 bits. -/
def parseUint (value : Text) : Option UInt32 :=
  let n := value.foldl (fun n c => 10 * n + (c.toNat - '0'.toNat)) 0
  if value ≠ [] ∧ value.all Char.isDigit ∧ n < UInt32.size then some (.ofNat n) else none

def splitComma (value : Text) : List Text := trimAll (value.splitOn ',')

/-- The forms that the changes touch, as far as they are made. -/
structure Forms where
  reach : UpdateReachability := {}
  settings : UpdateSettings := {}
  providers : Option (List ProviderForm) := none
  email : Option SmtpForm := none
  deriving DecidableEq, Repr

def refuse {α : Type} (message : String) (args : List Text) : Except Failure α :=
  .error (.refused ⟨"", message, args⟩)

/-- A provider of the CLI's list as the form has it. -/
def LoginProvider.toForm (p : LoginProvider) : Except Failure ProviderForm :=
  if p.clientSecret = secretPlaceholder then
    refuse "login-providers: %s is not a client secret; leave it blank to keep the saved one" [secretPlaceholder]
  else if p.kind ≠ [] ∧ p.kind ≠ "oidc".toList then refuse "login-providers: kind must be %s (got %q)" [p.kind]
  else .ok { id := p.id, kind := .oidc, displayName := p.displayName, icon := p.icon, issuer := p.issuer
             clientId := p.clientID, clientSecret := p.clientSecret }

/-- One `smtp.<field>=value`. -/
def setSMTPField (form : SmtpForm) (name : String) (value : Text) (flag : Bool) : Except Failure SmtpForm :=
  let number : Except Failure UInt32 :=
    match parseUint value with
    | none => refuse "%s takes a whole number" [name.toList]
    | some n => .ok n
  match name with
  | "smtp.enabled" => .ok { form with enabled := flag }
  | "smtp.host" => .ok { form with host := value }
  | "smtp.port" => number.map fun port => { form with port }
  | "smtp.security" =>
    match SmtpSecurity.ofStored value with
    | .unspecified => refuse "smtp.security takes starttls, tls, or none" []
    | security => .ok { form with security }
  | "smtp.username" => .ok { form with username := value }
  | "smtp.password" => .ok { form with password := value }
  | "smtp.from-address" => .ok { form with fromAddress := value }
  | "smtp.from-name" => .ok { form with fromName := value }
  | "smtp.hourly-limit" => number.map fun hourlyLimit => { form with hourlyLimit }
  | _ => refuse "no setting %q" [name.toList]

section Fields

variable (r : Readers) (s : Service) (t : Table) (current : Reachability) (forms : Forms)

def Forms.turn (f : TurnForm → TurnForm) : Forms :=
  { forms with reach := { forms.reach with turn := some (f (forms.reach.turn.getD current.turn.toProto)) } }

def Forms.cloudflare (f : CloudflareForm → CloudflareForm) : Forms :=
  { forms with
    reach := { forms.reach with
      cloudflare := some (f (forms.reach.cloudflare.getD current.cloudflare.toProto)) } }

def Forms.tailscale (f : TailscaleForm → TailscaleForm) : Forms :=
  { forms with
    reach := { forms.reach with tailscale := some (f (forms.reach.tailscale.getD current.tailscale.toProto)) } }

def Forms.tunnel (f : TunnelForm → TunnelForm) : Forms :=
  { forms with
    reach := { forms.reach with
      cloudflareTunnel := some (f (forms.reach.cloudflareTunnel.getD current.cloudflareTunnel.toProto)) } }

/-- A switch's value, and of the other fields nothing. -/
def flagOf (name : String) (value : Text) : Except Failure Bool :=
  if name.endsWith ".enabled" ∨ name = "tailscale.funnel" then
    match parseBool value with
    | none => refuse "%s takes true or false" [name.toList]
    | some flag => .ok flag
  else .ok false

def setField (change : String × Text) : Except Failure Forms := do
  let name := change.1
  let value := change.2
  if value = secretPlaceholder ∧ name ∈ secretFields then
    refuse "%s: %s is how list shows a saved secret; leave the field out to keep it"
      [name.toList, secretPlaceholder]
  let flag ← flagOf name value
  match name with
  | "public-url" => return { forms with reach := { forms.reach with publicUrl := some value } }
  | "trusted-proxies" =>
    return { forms with reach := { forms.reach with trustedProxies := some (splitComma value) } }
  | "turn.urls" => return forms.turn current fun form => { form with urls := splitComma value }
  | "turn.username" => return forms.turn current fun form => { form with username := value }
  | "turn.credential" => return forms.turn current fun form => { form with credential := value }
  | "turn.stun-urls" => return forms.turn current fun form => { form with stunUrls := splitComma value }
  | "cloudflare-turn.key-id" => return forms.cloudflare current fun form => { form with keyId := value }
  | "cloudflare-turn.api-token" => return forms.cloudflare current fun form => { form with apiToken := value }
  | "tailscale.enabled" => return forms.tailscale current fun form => { form with enabled := flag }
  | "tailscale.hostname" => return forms.tailscale current fun form => { form with hostname := value }
  | "tailscale.funnel" => return forms.tailscale current fun form => { form with funnel := flag }
  | "tailscale.auth-key" => return forms.tailscale current fun form => { form with authKey := value }
  | "tailscale.control-url" => return forms.tailscale current fun form => { form with controlUrl := value }
  | "cloudflare-tunnel.enabled" => return forms.tunnel current fun form => { form with enabled := flag }
  | "cloudflare-tunnel.token" => return forms.tunnel current fun form => { form with token := value }
  | "login-providers" =>
    match r.providers value with
    | none => refuse "login-providers takes a JSON list" []
    | some list => do
      let providers ← list.mapM LoginProvider.toForm
      return { forms with providers := some providers }
  | "password-sign-in" =>
    match PasswordForm.ofStored value with
    | none => refuse "password-sign-in takes everyone, admins, or off" []
    | some policy => return { forms with settings := { forms.settings with passwordSignIn := some policy } }
  | "instance-name" => return { forms with settings := { forms.settings with instanceName := some value } }
  | _ =>
    if !name.startsWith "smtp." then refuse "no setting %q" [name.toList]
    else do
      let form ← match forms.email with
        | some form => .ok form
        | none => (Failure.ofKey (smtpSettings s t)).map SMTP.toProto
      let form ← setSMTPField form name value flag
      return { forms with email := some form }

def UpdateReachability.changed (msg : UpdateReachability) : Bool :=
  msg.publicUrl.isSome || msg.trustedProxies.isSome || msg.turn.isSome || msg.cloudflare.isSome ||
    msg.tailscale.isSome || msg.cloudflareTunnel.isSome

/-- How many of the admin page's forms are touched. -/
def Forms.touched (forms : Forms) : Nat :=
  [forms.providers.isSome, forms.settings.passwordSignIn.isSome || forms.settings.instanceName.isSome,
    forms.reach.changed, forms.email.isSome].countP id

/-- The forms that changes make, taken in the order of their names. -/
def formsOf (changes : List (String × Text)) : Except Failure Forms :=
  (changes.mergeSort fun a b => !decide (b.1 < a.1)).foldlM (setField r s t current) {}

/-- `SetSettingFields`. -/
def setSettingFields (changes : List (String × Text)) : Except Failure Table := do
  let current ← Failure.ofKey (reachability s t)
  let forms ← formsOf r s t current changes
  if 1 < forms.touched then
    refuse "set Hosting fields, login-providers, smtp, and the other settings in separate commands" []
  else
    match forms.providers, forms.email with
    | some providers, _ => saveLoginProviders r s t providers
    | none, some form => saveEmail r s t (some form)
    | none, none =>
      if forms.reach.changed then saveReachability r s t forms.reach else saveSettings s t forms.settings

end Fields

/-! ## Calls and starts -/

inductive Call
  | saveReachability (msg : UpdateReachability)
  | saveLoginProviders (providers : List ProviderForm)
  | saveEmail (form : Option SmtpForm)
  | saveSettings (msg : UpdateSettings)
  | setPasswordSignIn (value : Text)
  | setSettingFields (changes : List (String × Text))
  | clearSetting (name : String)
  | resetSetting (name : String)
  deriving DecidableEq, Repr

def perform (r : Readers) (s : Service) (t : Table) : Call → Except Failure Table
  | .saveReachability msg => saveReachability r s t msg
  | .saveLoginProviders providers => saveLoginProviders r s t providers
  | .saveEmail form => saveEmail r s t form
  | .saveSettings msg => saveSettings s t msg
  | .setPasswordSignIn value => setPasswordSignIn t value
  | .setSettingFields changes => setSettingFields r s t changes
  | .clearSetting name => clearSetting r s t name
  | .resetSetting name => (resetSetting s t name).map Prod.fst

/-- A start, or a call that a process takes; each has read the environment as it was then. -/
inductive Step
  | start (cfg : Config) (random : Text)
  | call (cfg : Config) (call : Call)

/-- The rows after a step: a call that is refused leaves them as they are. -/
def step (r : Readers) (t : Table) : Step → Option Table
  | .start cfg random => some (start (useSettingsEnv cfg) random t).1
  | .call cfg call =>
    some (match perform r (useSettingsEnv cfg) t call with
      | .ok t' => t'
      | .error _ => t)

end Stoop.Instance.Rows
