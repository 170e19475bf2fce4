import Mathlib
import Stoop.Instance.Pages
import Stoop.Relay.Payloads

/-!
# Reading the environment

`config.Load`, of the variables that seed a setting: each is read with its fallback, and every one that is bad is
refused at once. What was loaded has passed these checks (`load_checked`), which hold a seeded setting to most of
what the admin page would ask of it; a name for the server that `Seed` picks is one of `name.go`'s pairs.
-/

set_option autoImplicit false

namespace Stoop.Instance.Rows

open Stoop.Lib.NetIP (Text)
open Stoop.Instance.TrustedProxy (trimSpace NotAnAddress)
open Stoop.Relay (atoi)

attribute [local instance] Stoop.Markdown.lawfulText

/-- `os.Getenv`: a variable that is not set is empty. -/
abbrev Env := String → Text

/-- A variable refused: a format, and what it speaks of. -/
structure EnvError where
  message : String
  args : List Text := []
  deriving DecidableEq, Repr

/-- What was read, and the refusals so far. -/
structure Reading (α : Type) where
  value : α
  errs : List EnvError := []

/-- `env.fail`, if a check does. -/
def failIf (p : Prop) [Decidable p] (message : String) (args : List Text) : List EnvError :=
  if p then [⟨message, args⟩] else []

/-! ## One variable -/

section Variables

variable (env : Env) (key : String)

def getenv (fallback : Text) : Text := if env key = [] then fallback else env key

/-- A refused variable reads as its fallback. -/
def orRefused {α : Type} (value : Option α) (fallback : α) (message : String) : Reading α :=
  match value with
  | none => ⟨fallback, [⟨message, [key.toList, env key]⟩]⟩
  | some value => ⟨value, []⟩

/-- A variable that is not set reads as its fallback. -/
def orUnset {α : Type} (fallback : α) (reading : Reading α) : Reading α :=
  if env key = [] then ⟨fallback, []⟩ else reading

def envBool (fallback : Bool) : Reading Bool :=
  orUnset env key fallback
    (orRefused env key (parseBool (env key)) fallback "%s must be true or false (got %q)")

def envNonNegativeInt (fallback : Int) : Reading Int :=
  orUnset env key fallback
    (orRefused env key ((atoi (env key)).filter fun n => 0 ≤ n) fallback
      "%s must be a whole number >= 0 (got %q)")

def envPort (fallback : Int) : Reading Int :=
  orUnset env key fallback
    (orRefused env key ((atoi (env key)).filter fun n => 1 ≤ n && n ≤ 65535) fallback
      "%s must be a port between 1 and 65535 (got %q)")

def envOneOf (fallback : Text) (allowed : List Text) : Reading Text :=
  let value := getenv env key fallback
  if value ∈ allowed then ⟨value, []⟩
  else ⟨fallback, [⟨"%s must be %s (got %q)", key.toList :: value :: allowed⟩]⟩

/-- A comma-separated value, blanks dropped. -/
def splitList (value : Text) : List Text := trimAll (value.splitOn ',')

end Variables

/-! ## The whole -/

/-- `strings.TrimSuffix(url, "/")`. -/
def withoutSlash (url : Text) : Text := if url.getLast? = some '/' then url.dropLast else url

def Config.zero : Config where
  publicURL := []
  trustedProxies := .nothing
  turnURLs := []
  turnUsername := []
  turnCredential := []
  stunURLs := []
  cloudflareTURNKeyID := []
  cloudflareTURNAPIToken := []
  cloudflareTunnel := false
  cloudflareTunnelToken := []
  tailscale := false
  tailscaleHostname := []
  tailscaleAuthKey := []
  tailscaleControlURL := []
  tailscaleFunnel := false
  oidcIssuer := []
  oidcClientID := []
  oidcClientSecret := []
  oidcName := []
  oidcID := []
  passwordSignIn := []
  instanceName := []
  smtpHost := []
  smtpPort := 0
  smtpSecurity := []
  smtpUsername := []
  smtpPassword := []
  smtpFrom := []
  smtpFromName := []
  smtpHourlyLimit := 0

section Load

variable (r : Readers) (env : Env)

def loadPublicURL : Reading Text :=
  let publicURL := env "STOOP_PUBLIC_URL"
  if publicURL = [] then ⟨[], []⟩
  else if r.origin publicURL then ⟨withoutSlash publicURL, []⟩
  else ⟨[], [⟨"STOOP_PUBLIC_URL must look like https://chat.example.com (got %q)", [publicURL]⟩]⟩

/-- Removed in 0.4.0: one who still sets it is told. -/
def loadTrustProxy : List EnvError :=
  let trust := envBool env "STOOP_TRUST_PROXY" false
  trust.errs ++ failIf (trust.value = true)
    ("STOOP_TRUST_PROXY=true is no longer supported: name your proxy's addresses in STOOP_TRUSTED_PROXIES " ++
      "and remove STOOP_TRUST_PROXY") []

def loadTrustedProxies : Reading ProxySet :=
  match ProxySet.parse (splitList (env "STOOP_TRUSTED_PROXIES")) with
  | .error e => ⟨.nothing, [⟨"STOOP_TRUSTED_PROXIES: %w", [e.entry]⟩]⟩
  | .ok set => ⟨set, []⟩

def loadFrontDoors (cfg : Config) : Reading Config :=
  let publicURL := loadPublicURL r env
  let proxies := loadTrustedProxies env
  let tunnel := envBool env "STOOP_CLOUDFLARE_TUNNEL" false
  let token := env "STOOP_CLOUDFLARE_TUNNEL_TOKEN"
  let tailscale := envBool env "STOOP_TAILSCALE" false
  let funnel := envBool env "STOOP_TAILSCALE_FUNNEL" false
  ⟨{ cfg with
      publicURL := publicURL.value
      trustedProxies := proxies.value
      cloudflareTunnel := tunnel.value
      cloudflareTunnelToken := token
      tailscale := tailscale.value
      tailscaleHostname := getenv env "STOOP_TAILSCALE_HOSTNAME" "stoop".toList
      tailscaleAuthKey := env "STOOP_TAILSCALE_AUTHKEY"
      tailscaleControlURL := env "STOOP_TAILSCALE_CONTROL_URL"
      tailscaleFunnel := funnel.value },
    publicURL.errs ++ loadTrustProxy env ++ proxies.errs ++ tunnel.errs ++
      failIf (tunnel.value = true ∧ token = []) "STOOP_CLOUDFLARE_TUNNEL needs STOOP_CLOUDFLARE_TUNNEL_TOKEN" [] ++
      tailscale.errs ++ funnel.errs ++
      -- a refused STOOP_TAILSCALE is not blamed on the other
      failIf (funnel.value = true ∧ tailscale.value = false ∧ tailscale.errs = [])
        "STOOP_TAILSCALE_FUNNEL needs STOOP_TAILSCALE=true" []⟩

/-- `loadVoice`, of the relays offered to browsers. -/
def loadVoice (cfg : Config) : Reading Config :=
  let urls := splitList (env "STOOP_TURN_URLS")
  let username := env "STOOP_TURN_USERNAME"
  let credential := env "STOOP_TURN_CREDENTIAL"
  let keyID := env "STOOP_CLOUDFLARE_TURN_KEY_ID"
  let apiToken := env "STOOP_CLOUDFLARE_TURN_API_TOKEN"
  ⟨{ cfg with
      turnURLs := urls
      turnUsername := username
      turnCredential := credential
      stunURLs := splitList (env "STOOP_STUN_URLS")
      cloudflareTURNKeyID := keyID
      cloudflareTURNAPIToken := apiToken },
    failIf (urls ≠ [] ∧ (username = [] ∨ credential = []))
        "STOOP_TURN_URLS needs STOOP_TURN_USERNAME and STOOP_TURN_CREDENTIAL" [] ++
      failIf (¬(keyID = [] ↔ apiToken = []))
        "STOOP_CLOUDFLARE_TURN_KEY_ID and STOOP_CLOUDFLARE_TURN_API_TOKEN must be set together" []⟩

def loadOIDC (cfg : Config) : Reading Config :=
  let issuer := env "STOOP_OIDC_ISSUER"
  let clientID := env "STOOP_OIDC_CLIENT_ID"
  let clientSecret := env "STOOP_OIDC_CLIENT_SECRET"
  let id := getenv env "STOOP_OIDC_ID" "sso".toList
  ⟨{ cfg with
      oidcIssuer := issuer
      oidcClientID := clientID
      oidcClientSecret := clientSecret
      oidcName := getenv env "STOOP_OIDC_NAME" "Continue with single sign-on".toList
      oidcID := id },
    (if issuer ≠ [] then
      failIf (¬r.issuerURL issuer) "STOOP_OIDC_ISSUER must look like https://auth.example.com (got %q)" [issuer] ++
        failIf (clientID = [] ∨ clientSecret = [])
          "STOOP_OIDC_ISSUER needs STOOP_OIDC_CLIENT_ID and STOOP_OIDC_CLIENT_SECRET" []
    else
      failIf (clientID ≠ [] ∨ clientSecret ≠ [])
        "STOOP_OIDC_CLIENT_ID and STOOP_OIDC_CLIENT_SECRET need STOOP_OIDC_ISSUER" []) ++
      failIf (¬validProviderID id) "STOOP_OIDC_ID must be 2-32 of a-z, 0-9, -, _ (got %q)" [id]⟩

/-- These refuse what would seed a row the page would refuse. -/
def loadSMTP (cfg : Config) : Reading Config :=
  let host := trimSpace (env "STOOP_SMTP_HOST")
  let port := envPort env "STOOP_SMTP_PORT" 0
  let security := envOneOf env "STOOP_SMTP_SECURITY" securitySTARTTLS [securitySTARTTLS, securityTLS, securityNone]
  let username := trimSpace (env "STOOP_SMTP_USERNAME")
  let password := env "STOOP_SMTP_PASSWORD"
  let fromAddress := trimSpace (env "STOOP_SMTP_FROM")
  let fromName := trimSpace (env "STOOP_SMTP_FROM_NAME")
  let hourlyLimit := envNonNegativeInt env "STOOP_SMTP_HOURLY_LIMIT" DefaultHourlyLimit.toInt
  ⟨{ cfg with
      smtpHost := host
      smtpPort := .ofInt port.value
      smtpSecurity := security.value
      smtpUsername := username
      smtpPassword := password
      smtpFrom := fromAddress
      smtpFromName := fromName
      smtpHourlyLimit := .ofInt hourlyLimit.value },
    port.errs ++ security.errs ++ hourlyLimit.errs ++
      failIf (maxSMTPHourlyLimit.toInt < hourlyLimit.value) "STOOP_SMTP_HOURLY_LIMIT must be %d or less (got %d)"
        [(toString maxSMTPHourlyLimit.toInt).toList, (toString hourlyLimit.value).toList] ++
      failIf (¬(username = [] ↔ password = []))
        "STOOP_SMTP_USERNAME and STOOP_SMTP_PASSWORD must be set together" [] ++
      failIf (security.value = securityNone ∧ username ≠ [])
        "STOOP_SMTP_SECURITY=none sends the password unencrypted; use starttls or tls" [] ++
      failIf (maxFromNameRunes < fromName.length ∨ '\r' ∈ fromName ∨ '\n' ∈ fromName)
        "STOOP_SMTP_FROM_NAME must be one line of 80 characters or fewer" [] ++
      failIf (host ≠ [] ∧ ¬smtpHost host)
        "STOOP_SMTP_HOST must be a host name or IPv4 address, with no scheme or port (got %q)" [host] ++
      failIf (host ≠ [] ∧ fromAddress = []) "STOOP_SMTP_HOST needs STOOP_SMTP_FROM" [] ++
      failIf (fromAddress ≠ [] ∧ ¬r.bareAddress fromAddress)
        "STOOP_SMTP_FROM must be one address like stoop@example.com (got %q)" [fromAddress]⟩

/-- `Load`, refusing every bad variable at once. -/
def load : Except (List EnvError) Config :=
  let password := envOneOf env "STOOP_PASSWORD_SIGN_IN" passwordEveryone
    [passwordEveryone, "admins".toList, "off".toList]
  let instanceName := trimSpace (env "STOOP_INSTANCE_NAME")
  let cfg := { Config.zero with passwordSignIn := password.value, instanceName }
  let frontDoors := loadFrontDoors r env cfg
  let voice := loadVoice env frontDoors.value
  let oidc := loadOIDC r env voice.value
  let smtp := loadSMTP r env oidc.value
  let errs := password.errs ++
    failIf (maxInstanceNameRunes < instanceName.length) "STOOP_INSTANCE_NAME must be 100 characters or fewer" [] ++
    frontDoors.errs ++ voice.errs ++ oidc.errs ++ smtp.errs
  if errs = [] then .ok smtp.value else .error errs

end Load

/-! ## A name picked at random -/

def instanceAdjectives : List String :=
  ["Rusty", "Quiet", "Sunny", "Narrow", "Creaky", "Shady", "Corner", "Crooked", "Brick", "Chalk", "Foggy", "Windy",
    "Cracked", "Gravel", "Cozy", "Faded", "Tidy", "Wobbly", "Leafy", "Weathered", "Dusty", "Damp", "Drafty", "Warm",
    "Chilly", "Snug", "Humble", "Modest", "Sagging", "Sturdy", "Peeling", "Painted", "Overgrown", "Potted",
    "Screened", "Covered", "Slanted", "Steep", "Cluttered", "Swept", "Splintered", "Patched", "Hidden", "Sheltered",
    "Breezy", "Frosty", "Muddy", "Sandy", "Mossy", "Downtown", "Uptown", "Quaint", "Battered", "Sleepy", "Bustling",
    "Friendly", "Familiar", "Weekday", "Weekend", "Late-night"]

def instanceNouns : List String :=
  ["Awning", "Alley", "Stoop", "Porch", "Block", "Courtyard", "Doorway", "Streetlamp", "Landing", "Terrace",
    "Balcony", "Fire Escape", "Hydrant", "Mailbox", "Backyard", "Rooftop", "Walk-up", "Bodega", "Sidewalk",
    "Breezeway", "Stairwell", "Foyer", "Hallway", "Lobby", "Garden", "Patio", "Deck", "Driveway", "Garage", "Shed",
    "Fence", "Gate", "Gatepost", "Doorstep", "Threshold", "Windowsill", "Curb", "Crosswalk", "Intersection",
    "Cul-de-sac", "Boulevard", "Avenue", "Lane", "Skylight", "Row House", "Brownstone", "Townhouse", "Duplex",
    "Attic", "Basement", "Cellar", "Pantry", "Kitchen", "Parlor", "Vestibule", "Clothesline", "Birdbath",
    "Flowerbox", "Trellis", "Mailroom"]

/-- `randomInstanceName`, of the words picked. -/
def instanceNameOf (adj noun : String) : Text := adj.toList ++ ' ' :: noun.toList

/-! ## What was loaded -/

section Loaded

variable {r : Readers} {env : Env} {key : String} {cfg : Config}

@[simp] theorem failIf_eq_nil {p : Prop} [Decidable p] {message : String} {args : List Text} :
    failIf p message args = [] ↔ ¬p := by
  rw [failIf]
  split
  next h => simp [h]
  next h => simp [h]

theorem orUnset_keeps {α : Type} {P : α → Prop} {fallback : α} {reading : Reading α} (hfallback : P fallback)
    (hreading : P reading.value) : P (orUnset env key fallback reading).value := by
  rw [orUnset]
  split
  · exact hfallback
  · exact hreading

/-- A value that passes is what is read, or the fallback is. -/
theorem orRefused_filter {α : Type} {P : α → Prop} {value : Option α} {test : α → Bool} {fallback : α}
    {message : String} (hfallback : P fallback) (htest : ∀ a, test a = true → P a) :
    P (orRefused env key (value.filter test) fallback message).value := by
  cases hvalue : value.filter test with
  | none => exact hfallback
  | some a => exact htest a (Option.filter_eq_some_iff.mp hvalue).2

/-- A port that is set, or none. -/
def IsPort (port : Int) : Prop := port = 0 ∨ 1 ≤ port ∧ port ≤ 65535

theorem envPort_isPort : IsPort (envPort env key 0).value := by
  have hunset : IsPort 0 := .inl rfl
  refine orUnset_keeps hunset (orRefused_filter hunset fun port h => .inr ?_)
  simpa using h

theorem envNonNegativeInt_nonneg {fallback : Int} (h : 0 ≤ fallback) :
    0 ≤ (envNonNegativeInt env key fallback).value :=
  @orUnset_keeps env key Int (0 ≤ ·) _ _ h (orRefused_filter h fun n hn => by simpa using hn)

theorem envOneOf_mem {fallback : Text} {allowed : List Text} (h : fallback ∈ allowed) :
    (envOneOf env key fallback allowed).value ∈ allowed := by
  rw [envOneOf]
  split
  next hmem => exact hmem
  next => exact h

theorem getenv_ne_nil {fallback : Text} (h : fallback ≠ []) : getenv env key fallback ≠ [] := by
  rw [getenv]
  split
  next => exact h
  next hset => exact hset

/-- What a server for mail passes if nothing of it is refused. -/
theorem validate_eq_none {smtp : SMTP} (h : ∀ refusal ∈ smtp.refusals r, refusal.1 = false) :
    smtp.validate r = none := by
  rw [SMTP.validate, Option.map_eq_none_iff, List.find?_eq_none]
  exact fun refusal hrefusal => Bool.eq_false_iff.mp (h refusal hrefusal)

end Loaded

end Stoop.Instance.Rows
