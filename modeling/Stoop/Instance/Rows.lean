import Stoop.Instance.TrustedProxy
import Stoop.Lib.Json

/-!
# Settings saved, and settings in force

The settings that the environment seeds (`internal/instance`): the ten groups, each with one row of
`instance_settings`, a row's value as it is stored and as it is read, and the setting in force, which is the saved
row's or, for a group without one, the environment's.

What a process is given of the environment is its `Service`, made of what `config.Load` read (`useSettingsEnv`).
The rows of the settings that nothing seeds are left out.
-/

set_option autoImplicit false

namespace Stoop.Instance.Rows

open Stoop.Lib.NetIP (Text)
open Stoop.Lib.Json
open Stoop.Instance.TrustedProxy (Proxies NotAnAddress parse parse_cons)

/-! ## Groups -/

/-- `SettingGroups`: a seeded setting, which is one row. -/
inductive Group
  | publicURL | trustedProxies | turn | cloudflareTURN | tailscale | cloudflareTunnel | loginProviders
  | passwordSignIn | instanceName | smtp
  deriving DecidableEq, Repr

def Group.all : List Group :=
  [.publicURL, .trustedProxies, .turn, .cloudflareTURN, .tailscale, .cloudflareTunnel, .loginProviders,
    .passwordSignIn, .instanceName, .smtp]

/-- As `stoop admin setting` names it. -/
def Group.name : Group → String
  | .publicURL => "public-url"
  | .trustedProxies => "trusted-proxies"
  | .turn => "turn"
  | .cloudflareTURN => "cloudflare-turn"
  | .tailscale => "tailscale"
  | .cloudflareTunnel => "cloudflare-tunnel"
  | .loginProviders => "login-providers"
  | .passwordSignIn => "password-sign-in"
  | .instanceName => "instance-name"
  | .smtp => "smtp"

/-- An empty value means something: off, none. -/
def Group.clearable : Group → Bool
  | .passwordSignIn | .instanceName => false
  | _ => true

def settingGroup (name : String) : Option Group := Group.all.find? fun group => group.name == name

/-! ## What the groups hold -/

/-- A relay with fixed credentials. -/
structure TURNRelay where
  urls : List Text := []
  username : Text := []
  credential : Text := []
  stunURLs : List Text := []
  deriving DecidableEq, Repr

def TURNRelay.codec : Codec TURNRelay := .record
  [.of "urls" (.nilList [] .string) TURNRelay.urls fun relay urls => { relay with urls },
    .of "username" .string TURNRelay.username fun relay username => { relay with username },
    .of "credential" .string TURNRelay.credential fun relay credential => { relay with credential },
    .of "stun_urls" (.nilList [] .string) TURNRelay.stunURLs fun relay stunURLs => { relay with stunURLs }]
  (by decide) (fun _ _ => by simp [Field.of])

/-- Cloudflare's TURN service. -/
structure CloudflareTURN where
  keyID : Text := []
  apiToken : Text := []
  deriving DecidableEq, Repr

def CloudflareTURN.codec : Codec CloudflareTURN := .record
  [.of "key_id" .string CloudflareTURN.keyID fun cloudflare keyID => { cloudflare with keyID },
    .of "api_token" .string CloudflareTURN.apiToken fun cloudflare apiToken => { cloudflare with apiToken }]
  (by decide) (fun _ _ => by simp [Field.of])

/-- The built-in Tailscale listener. -/
structure TailscaleSettings where
  enabled : Bool := false
  hostname : Text := []
  funnel : Bool := false
  authKey : Text := []
  controlURL : Text := []
  deriving DecidableEq, Repr

def TailscaleSettings.codec : Codec TailscaleSettings := .record
  [.of "enabled" .bool TailscaleSettings.enabled fun settings enabled => { settings with enabled },
    .of "hostname" .string TailscaleSettings.hostname fun settings hostname => { settings with hostname },
    .of "funnel" .bool TailscaleSettings.funnel fun settings funnel => { settings with funnel },
    .of "auth_key" .string TailscaleSettings.authKey fun settings authKey => { settings with authKey },
    .of "control_url" .string TailscaleSettings.controlURL
      fun settings controlURL => { settings with controlURL }]
  (by decide) (fun _ _ => by simp [Field.of])

/-- The cloudflared that Stoop runs. -/
structure CloudflareTunnelSettings where
  enabled : Bool := false
  token : Text := []
  deriving DecidableEq, Repr

def CloudflareTunnelSettings.codec : Codec CloudflareTunnelSettings := .record
  [.of "enabled" .bool CloudflareTunnelSettings.enabled fun tunnel enabled => { tunnel with enabled },
    .of "token" .string CloudflareTunnelSettings.token fun tunnel token => { tunnel with token }]
  (by decide) (fun _ _ => by simp [Field.of])

/-- One configured provider as stored, its secret included. -/
structure LoginProvider where
  id : Text := []
  kind : Text := []
  displayName : Text := []
  icon : Text := []
  issuer : Text := []
  clientID : Text := []
  clientSecret : Text := []
  deriving DecidableEq, Repr

def LoginProvider.codec : Codec LoginProvider := .record
  [.of "id" .string LoginProvider.id fun provider id => { provider with id },
    .of "kind" .string LoginProvider.kind fun provider kind => { provider with kind },
    .of "display_name" .string LoginProvider.displayName
      fun provider displayName => { provider with displayName },
    .of "icon" .string LoginProvider.icon fun provider icon => { provider with icon },
    .of "issuer" .string LoginProvider.issuer fun provider issuer => { provider with issuer },
    .of "client_id" .string LoginProvider.clientID fun provider clientID => { provider with clientID },
    .of "client_secret" .string LoginProvider.clientSecret
      fun provider clientSecret => { provider with clientSecret }]
  (by decide) (fun _ _ => by simp [Field.of])

/-- The server Stoop sends mail through. -/
structure SMTP where
  enabled : Bool := false
  host : Text := []
  port : Int64 := 0
  security : Text := []
  username : Text := []
  password : Text := []
  fromAddress : Text := []
  fromName : Text := []
  hourlyLimit : Int64 := 0
  deriving DecidableEq, Repr

def SMTP.codec : Codec SMTP := .record
  [.of "enabled" .bool SMTP.enabled fun smtp enabled => { smtp with enabled },
    .of "host" .string SMTP.host fun smtp host => { smtp with host },
    .of "port" .int64 SMTP.port fun smtp port => { smtp with port },
    .of "security" .string SMTP.security fun smtp security => { smtp with security },
    .of "username" .string SMTP.username fun smtp username => { smtp with username },
    .of "password" .string SMTP.password fun smtp password => { smtp with password },
    .of "from_address" .string SMTP.fromAddress fun smtp fromAddress => { smtp with fromAddress },
    .of "from_name" .string SMTP.fromName fun smtp fromName => { smtp with fromName },
    .of "hourly_limit" .int64 SMTP.hourlyLimit fun smtp hourlyLimit => { smtp with hourlyLimit }]
  (by decide) (fun _ _ => by simp [Field.of])

/-- `config.DefaultSMTPHourlyLimit`. -/
def DefaultHourlyLimit : Int64 := 100

/-- A row saved without a limit has the default one. -/
def SMTP.unsaved : SMTP := { hourlyLimit := DefaultHourlyLimit }

/-- `mail.Security`. -/
def securitySTARTTLS : Text := "starttls".toList
def securityTLS : Text := "tls".toList
def securityNone : Text := "none".toList

/-- `mail.DefaultPort`. -/
def defaultPort (security : Text) : Int64 :=
  if security = securityTLS then 465 else if security = securityNone then 25 else 587

/-- `PasswordEveryone`. -/
def passwordEveryone : Text := "everyone".toList

/-! ## The proxies trusted -/

/-- Each range of a list is masked. -/
theorem masked_of_parse {entries : List Text} {s : Proxies} (h : parse entries = .ok s) :
    ∀ p ∈ s.prefixes, p.masked = p := by
  induction entries generalizing s with
  | nil =>
    obtain ⟨⟩ := h
    exact nofun
  | cons raw entries ih =>
    obtain ⟨-, hrest⟩ | ⟨p, rest, -, hrest, rfl⟩ := parse_cons h
    · exact ih hrest
    · rintro q hq
      rcases List.mem_cons.mp hq with rfl | hq
      · exact p.masked_masked
      · exact ih hrest q hq

/-- A `trustedproxy.Set`, as `Parse` makes it. -/
structure ProxySet where
  set : Proxies
  masked : ∀ p ∈ set.prefixes, p.masked = p
  deriving DecidableEq, Repr

def ProxySet.nothing : ProxySet := ⟨⟨[]⟩, nofun⟩

def ProxySet.empty (s : ProxySet) : Bool := s.set.prefixes.isEmpty

def ProxySet.parse (entries : List Text) : Except NotAnAddress ProxySet :=
  match h : TrustedProxy.parse entries with
  | .ok set => .ok ⟨set, masked_of_parse h⟩
  | .error e => .error e

/-! ## Rows -/

/-- The key of a row: a group's, or that of the mark `repairPreSeedRows` leaves. -/
inductive Key
  | group (g : Group)
  | preSeedRepaired
  deriving DecidableEq, Repr

/-- `instance_settings`. -/
abbrev Table := Key → Option Value

def Table.empty : Table := fun _ => none

/-- `UpsertSetting`. -/
def Table.set (t : Table) (key : Key) (value : Value) : Table := Function.update t key (some value)

/-- `SeedSetting`: only inserts when the key is absent. -/
def Table.seed (t : Table) (key : Key) (value : Value) : Table := if (t key).isSome then t else t.set key value

/-- `DeleteSetting`. -/
def Table.delete (t : Table) (key : Key) : Table := Function.update t key none

variable {α : Type}

/-- A row decoded into a value, if there is one; a row that does not decode is the error. -/
def readJSON (c : Codec α) (into : α) (t : Table) (key : Key) : Except Key (Option α) :=
  match t key with
  | none => .ok none
  | some raw =>
    match c.into into raw with
    | none => .error key
    | some value => .ok (some value)

def readSettingOr (c : Codec α) (zero : α) (t : Table) (key : Key) (fallback : α) : Except Key α :=
  (readJSON c zero t key).map fun value => value.getD fallback

/-! ## The environment -/

/-- What `config.Load` read, of the variables that seed a setting. -/
structure Config where
  publicURL : Text
  trustedProxies : ProxySet
  turnURLs : List Text
  turnUsername : Text
  turnCredential : Text
  stunURLs : List Text
  cloudflareTURNKeyID : Text
  cloudflareTURNAPIToken : Text
  cloudflareTunnel : Bool
  cloudflareTunnelToken : Text
  tailscale : Bool
  tailscaleHostname : Text
  tailscaleAuthKey : Text
  tailscaleControlURL : Text
  tailscaleFunnel : Bool
  oidcIssuer : Text
  oidcClientID : Text
  oidcClientSecret : Text
  oidcName : Text
  oidcID : Text
  passwordSignIn : Text
  instanceName : Text
  smtpHost : Text
  smtpPort : Int64
  smtpSecurity : Text
  smtpUsername : Text
  smtpPassword : Text
  smtpFrom : Text
  smtpFromName : Text
  smtpHourlyLimit : Int64

/-- How people reach this server. -/
structure Reachability where
  publicURL : Text
  turn : TURNRelay
  cloudflare : CloudflareTURN
  tailscale : TailscaleSettings
  cloudflareTunnel : CloudflareTunnelSettings
  trustedProxies : ProxySet

/-- What a process is given of the environment. -/
structure Service where
  env : Reachability
  loginEnv : List LoginProvider
  passwordEnv : Text
  instanceNameEnv : Text
  smtpEnv : SMTP

/-- `UseSMTPEnv`: a blank host means the environment sets no server; set, it is switched on. -/
def useSMTPEnv (smtp : SMTP) : SMTP :=
  let security := if smtp.security = [] then securitySTARTTLS else smtp.security
  { smtp with
    security
    port := if smtp.port = 0 then defaultPort security else smtp.port
    enabled := decide (smtp.host ≠ []) }

def useSettingsEnv (cfg : Config) : Service where
  env := {
    publicURL := cfg.publicURL
    turn := { urls := cfg.turnURLs, username := cfg.turnUsername, credential := cfg.turnCredential
              stunURLs := cfg.stunURLs }
    cloudflare := { keyID := cfg.cloudflareTURNKeyID, apiToken := cfg.cloudflareTURNAPIToken }
    tailscale := { enabled := cfg.tailscale, hostname := cfg.tailscaleHostname, funnel := cfg.tailscaleFunnel
                   authKey := cfg.tailscaleAuthKey, controlURL := cfg.tailscaleControlURL }
    cloudflareTunnel := { enabled := cfg.cloudflareTunnel, token := cfg.cloudflareTunnelToken }
    trustedProxies := cfg.trustedProxies }
  loginEnv :=
    if cfg.oidcIssuer = [] then []
    else [{ id := cfg.oidcID, kind := "oidc".toList, displayName := cfg.oidcName, icon := "key".toList
            issuer := cfg.oidcIssuer, clientID := cfg.oidcClientID, clientSecret := cfg.oidcClientSecret }]
  passwordEnv := cfg.passwordSignIn
  instanceNameEnv := cfg.instanceName
  smtpEnv := useSMTPEnv {
    host := cfg.smtpHost, port := cfg.smtpPort, security := cfg.smtpSecurity, username := cfg.smtpUsername
    password := cfg.smtpPassword, fromAddress := cfg.smtpFrom, fromName := cfg.smtpFromName
    hourlyLimit := cfg.smtpHourlyLimit }

/-! ## The settings in force -/

/-- What is in force of a group. -/
def Group.Setting : Group → Type
  | .publicURL | .passwordSignIn | .instanceName => Text
  | .trustedProxies => ProxySet
  | .turn => TURNRelay
  | .cloudflareTURN => CloudflareTURN
  | .tailscale => TailscaleSettings
  | .cloudflareTunnel => CloudflareTunnelSettings
  | .loginProviders => List LoginProvider
  | .smtp => SMTP

variable (s : Service) (t : Table)

/-- A list of providers as it is stored. -/
def providersCodec : Codec (List LoginProvider) := .list {} LoginProvider.codec

/-- A list of addresses as it is stored. -/
def addressesCodec : Codec (List Text) := .list [] .string

/-- The saved list's addresses, or the environment's; of a list that does not parse nothing is trusted. -/
def trustedProxies : Except Key ProxySet :=
  (readJSON addressesCodec [] t (.group .trustedProxies)).map fun
    | none => s.env.trustedProxies
    | some saved =>
      match ProxySet.parse saved with
      | .ok set => set
      | .error _ => .nothing

/-- The saved list, or the environment's. -/
def loginProviders : Except Key (List LoginProvider) :=
  readSettingOr providersCodec [] t (.group .loginProviders) s.loginEnv

/-- Saved, else environment, else everyone. -/
def passwordSignIn : Except Key Text :=
  readSettingOr .string [] t (.group .passwordSignIn)
    (if s.passwordEnv = [] then passwordEveryone else s.passwordEnv)

/-- Saved, else environment, else "Stoop". -/
def instanceName : Except Key Text :=
  readSettingOr .string [] t (.group .instanceName)
    (if s.instanceNameEnv = [] then "Stoop".toList else s.instanceNameEnv)

/-- The saved server; with no row the environment's, if it has one. -/
def smtpSettings : Except Key SMTP :=
  readSettingOr SMTP.codec .unsaved t (.group .smtp) (if s.smtpEnv.host ≠ [] then s.smtpEnv else .unsaved)

/-- Each group's saved row, or the environment for a group with none. -/
def inForce : (g : Group) → Except Key g.Setting
  | .publicURL => readSettingOr .string [] t (.group .publicURL) s.env.publicURL
  | .trustedProxies => trustedProxies s t
  | .turn => readSettingOr TURNRelay.codec {} t (.group .turn) s.env.turn
  | .cloudflareTURN => readSettingOr CloudflareTURN.codec {} t (.group .cloudflareTURN) s.env.cloudflare
  | .tailscale => readSettingOr TailscaleSettings.codec {} t (.group .tailscale) s.env.tailscale
  | .cloudflareTunnel =>
    readSettingOr CloudflareTunnelSettings.codec {} t (.group .cloudflareTunnel) s.env.cloudflareTunnel
  | .loginProviders => loginProviders s t
  | .passwordSignIn => passwordSignIn s t
  | .instanceName => instanceName s t
  | .smtp => smtpSettings s t

/-- `Reachability`: the configuration in force. -/
def reachability : Except Key Reachability := do
  let publicURL ← inForce s t .publicURL
  let turn ← inForce s t .turn
  let cloudflare ← inForce s t .cloudflareTURN
  let tailscale ← inForce s t .tailscale
  let cloudflareTunnel ← inForce s t .cloudflareTunnel
  let trustedProxies ← inForce s t .trustedProxies
  return { publicURL, turn, cloudflare, tailscale, cloudflareTunnel, trustedProxies }

/-! ## Reading -/

section Reading

variable {t} {c : Codec α} {zero fallback a : α} {key key' : Key} {value : Value}

theorem readJSON_of_none (h : t key = none) : readJSON c zero t key = .ok none := by rw [readJSON, h]

theorem readJSON_of_into (h : t key = some value) (hinto : c.into zero value = some a) :
    readJSON c zero t key = .ok (some a) := by
  rw [readJSON, h]
  simp only [hinto]

theorem readJSON_encode (h : t key = some (c.encode a)) : readJSON c zero t key = .ok (some a) :=
  readJSON_of_into h (c.into_encode zero a)

theorem readSettingOr_of_none (h : t key = none) : readSettingOr c zero t key fallback = .ok fallback := by
  rw [readSettingOr, readJSON_of_none h]
  rfl

theorem readSettingOr_of_into (h : t key = some value) (hinto : c.into zero value = some a) :
    readSettingOr c zero t key fallback = .ok a := by
  rw [readSettingOr, readJSON_of_into h hinto]
  rfl

theorem readSettingOr_encode (h : t key = some (c.encode a)) : readSettingOr c zero t key fallback = .ok a :=
  readSettingOr_of_into h (c.into_encode zero a)

theorem readJSON_congr {t' : Table} (h : t key = t' key) : readJSON c zero t key = readJSON c zero t' key := by
  rw [readJSON, readJSON, h]

/-- What is in force of a group is its row's, whatever the other rows. -/
theorem inForce_congr {t' : Table} {g : Group} (h : t (.group g) = t' (.group g)) :
    inForce s t g = inForce s t' g := by
  cases g <;> exact congrArg (Except.map _) (readJSON_congr h)

theorem Table.set_self : t.set key value key = some value := Function.update_self key _ t

theorem Table.set_of_ne (h : key' ≠ key) : t.set key value key' = t key' := Function.update_of_ne h _ t

theorem Table.delete_self : t.delete key key = none := Function.update_self key _ t

theorem Table.delete_of_ne (h : key' ≠ key) : t.delete key key' = t key' := Function.update_of_ne h _ t

theorem Table.seed_of_some (h : t key' = some value) (new : Value) : t.seed key new key' = some value := by
  rw [seed]
  split
  next => exact h
  next hnone =>
    rw [set_of_ne]
    · exact h
    · rintro rfl
      exact hnone (by rw [h]; rfl)

end Reading

end Stoop.Instance.Rows
