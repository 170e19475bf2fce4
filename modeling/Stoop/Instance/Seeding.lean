import Stoop.Instance.Rows

/-!
# Seeding the settings from the environment

`SeedFromEnv`: at each start a group that the environment sets, by a rule of its own, and that has no row is given
one. The first start with seeding also repairs two kinds of row from before it (`repairPreSeedRows`), and leaves a
mark. `EnvDrift` then names the variables whose value is not the saved one.
-/

set_option autoImplicit false

namespace Stoop.Instance.Rows

open Stoop.Lib.NetIP (Text)
open Stoop.Lib.Json
open Stoop.Instance.TrustedProxy (Proxies)

/-! ## Seeding -/

/-- A group, whether the environment sets it, and its value. -/
structure Seed where
  group : Group
  set : Bool
  value : Value

def Service.seeds (s : Service) : List Seed :=
  [⟨.publicURL, !s.env.publicURL.isEmpty, Codec.string.encode s.env.publicURL⟩,
    ⟨.turn, !s.env.turn.urls.isEmpty || !s.env.turn.stunURLs.isEmpty, TURNRelay.codec.encode s.env.turn⟩,
    ⟨.cloudflareTURN, !s.env.cloudflare.keyID.isEmpty, CloudflareTURN.codec.encode s.env.cloudflare⟩,
    -- the hostname has a default, so alone it does not set the group
    ⟨.tailscale,
      s.env.tailscale.enabled || !s.env.tailscale.authKey.isEmpty || !s.env.tailscale.controlURL.isEmpty,
      TailscaleSettings.codec.encode s.env.tailscale⟩,
    ⟨.cloudflareTunnel, s.env.cloudflareTunnel.enabled || !s.env.cloudflareTunnel.token.isEmpty,
      CloudflareTunnelSettings.codec.encode s.env.cloudflareTunnel⟩,
    ⟨.trustedProxies, !s.env.trustedProxies.empty, addressesCodec.encode s.env.trustedProxies.set.strings⟩,
    ⟨.loginProviders, !s.loginEnv.isEmpty, providersCodec.encode s.loginEnv⟩,
    ⟨.passwordSignIn, !s.passwordEnv.isEmpty, Codec.string.encode s.passwordEnv⟩,
    ⟨.smtp, !s.smtpEnv.host.isEmpty, SMTP.codec.encode s.smtpEnv⟩]

def Seed.sow (t : Table) (seed : Seed) : Table := if seed.set then t.seed (.group seed.group) seed.value else t

/-- A tunnel's row with a blank token takes the environment's. -/
def fillTunnelToken (s : Service) (t : Table) : Except Key Table :=
  match readJSON CloudflareTunnelSettings.codec {} t (.group .cloudflareTunnel) with
  | .error key => .error key
  | .ok none => .ok t
  | .ok (some saved) =>
    if saved.token ≠ [] ∨ s.env.cloudflareTunnel.token = [] then .ok t
    else .ok (t.set (.group .cloudflareTunnel)
      (CloudflareTunnelSettings.codec.encode { saved with token := s.env.cloudflareTunnel.token }))

/-- An empty list of providers takes the environment's, while password sign-in is restricted. -/
def fillLoginProviders (s : Service) (t : Table) : Except Key Table :=
  if s.loginEnv = [] then .ok t
  else
    match readJSON providersCodec [] t (.group .loginProviders) with
    | .error key => .error key
    | .ok none => .ok t
    | .ok (some (_ :: _)) => .ok t
    | .ok (some []) =>
      match passwordSignIn s t with
      | .error key => .error key
      | .ok password =>
        if password = passwordEveryone then .ok t
        else .ok (t.set (.group .loginProviders) (providersCodec.encode s.loginEnv))

/-- The rows as the repair leaves them, and the key of the row it could not read, if there is one. -/
def repairPreSeedRows (s : Service) (t : Table) : Table × Option Key :=
  match readJSON .bool false t .preSeedRepaired with
  | .error key => (t, some key)
  | .ok (some _) => (t, none)
  | .ok none =>
    match fillTunnelToken s t with
    | .error key => (t, some key)
    | .ok filled =>
      match fillLoginProviders s filled with
      | .error key => (filled, some key)
      | .ok repaired => (repaired.set .preSeedRepaired (Codec.bool.encode true), none)

/-- `SeedFromEnv`. -/
def seedFromEnv (s : Service) (t : Table) : Table × Option Key := repairPreSeedRows s (s.seeds.foldl Seed.sow t)

/-- `Seed`, of the instance name: the environment's, or one picked at random. -/
def seed (s : Service) (random : Text) (t : Table) : Table :=
  t.seed (.group .instanceName)
    (Codec.string.encode (if s.instanceNameEnv = [] then random else s.instanceNameEnv))

/-- A server's start: it goes no further if a row that is read does not decode. -/
def start (s : Service) (random : Text) (t : Table) : Table × Option Key := seedFromEnv s (seed s random t)

/-! ## Drift -/

/-- A list's strings, sorted. -/
def sorted (strings : List Text) : List Text := strings.mergeSort fun a b => !decide (b < a)

/-- Two lists as sets of addresses, but for their order and how each one is written. -/
def sameAddresses (saved : List Text) (env : ProxySet) : Bool :=
  match TrustedProxy.parse saved with
  | .error _ => false
  | .ok parsed => sorted parsed.strings == sorted env.set.strings

/-- The variable, if it is set and a saved row says otherwise. -/
def differs (isSet : String → Bool) (name : String) (saved same : Bool) : List String :=
  if isSet name && saved && !same then [name] else []

section Drift

variable (s : Service) (isSet : String → Bool) (saved : Bool)

/-! What differs in a group, by whether it has a row and its value. -/

def Service.publicURLDrift (publicURL : Text) : List String :=
  differs isSet "STOOP_PUBLIC_URL" saved (publicURL == s.env.publicURL)

def Service.proxiesDrift (proxies : List Text) : List String :=
  -- a list of only spaces is no list
  if s.env.trustedProxies.empty then []
  else differs isSet "STOOP_TRUSTED_PROXIES" saved (sameAddresses proxies s.env.trustedProxies)

def Service.turnDrift (relay : TURNRelay) : List String :=
  (if s.env.turn.urls.isEmpty then []
      else differs isSet "STOOP_TURN_URLS" saved (relay.urls == s.env.turn.urls)) ++
    differs isSet "STOOP_TURN_USERNAME" saved (relay.username == s.env.turn.username) ++
    differs isSet "STOOP_TURN_CREDENTIAL" saved (relay.credential == s.env.turn.credential) ++
    (if s.env.turn.stunURLs.isEmpty then []
      else differs isSet "STOOP_STUN_URLS" saved (relay.stunURLs == s.env.turn.stunURLs))

def Service.cloudflareDrift (cloudflare : CloudflareTURN) : List String :=
  differs isSet "STOOP_CLOUDFLARE_TURN_KEY_ID" saved (cloudflare.keyID == s.env.cloudflare.keyID) ++
    differs isSet "STOOP_CLOUDFLARE_TURN_API_TOKEN" saved (cloudflare.apiToken == s.env.cloudflare.apiToken)

def Service.tailscaleDrift (tailscale : TailscaleSettings) : List String :=
  differs isSet "STOOP_TAILSCALE" saved (tailscale.enabled == s.env.tailscale.enabled) ++
    differs isSet "STOOP_TAILSCALE_HOSTNAME" saved (tailscale.hostname == s.env.tailscale.hostname) ++
    differs isSet "STOOP_TAILSCALE_FUNNEL" saved (tailscale.funnel == s.env.tailscale.funnel) ++
    differs isSet "STOOP_TAILSCALE_AUTHKEY" saved (tailscale.authKey == s.env.tailscale.authKey) ++
    differs isSet "STOOP_TAILSCALE_CONTROL_URL" saved (tailscale.controlURL == s.env.tailscale.controlURL)

def Service.tunnelDrift (tunnel : CloudflareTunnelSettings) : List String :=
  differs isSet "STOOP_CLOUDFLARE_TUNNEL" saved (tunnel.enabled == s.env.cloudflareTunnel.enabled) ++
    differs isSet "STOOP_CLOUDFLARE_TUNNEL_TOKEN" saved (tunnel.token == s.env.cloudflareTunnel.token)

def Service.providersDrift (providers : List LoginProvider) : List String :=
  s.loginEnv.flatMap fun envProvider =>
    match providers.find? fun provider => provider.id == envProvider.id with
    | none => differs isSet "STOOP_OIDC_ISSUER" saved false
    | some savedProvider =>
      differs isSet "STOOP_OIDC_ISSUER" saved (savedProvider.issuer == envProvider.issuer) ++
        differs isSet "STOOP_OIDC_CLIENT_ID" saved (savedProvider.clientID == envProvider.clientID) ++
        differs isSet "STOOP_OIDC_CLIENT_SECRET" saved (savedProvider.clientSecret == envProvider.clientSecret) ++
        differs isSet "STOOP_OIDC_NAME" saved (savedProvider.displayName == envProvider.displayName)

def Service.passwordDrift (password : Text) : List String :=
  differs isSet "STOOP_PASSWORD_SIGN_IN" saved (password == s.passwordEnv)

def Service.smtpDrift (smtp : SMTP) : List String :=
  differs isSet "STOOP_SMTP_HOST" saved (smtp.host == s.smtpEnv.host) ++
    differs isSet "STOOP_SMTP_PORT" saved (smtp.port == s.smtpEnv.port) ++
    differs isSet "STOOP_SMTP_SECURITY" saved (smtp.security == s.smtpEnv.security) ++
    differs isSet "STOOP_SMTP_USERNAME" saved (smtp.username == s.smtpEnv.username) ++
    differs isSet "STOOP_SMTP_PASSWORD" saved (smtp.password == s.smtpEnv.password) ++
    differs isSet "STOOP_SMTP_FROM" saved (smtp.fromAddress == s.smtpEnv.fromAddress) ++
    differs isSet "STOOP_SMTP_FROM_NAME" saved (smtp.fromName == s.smtpEnv.fromName) ++
    differs isSet "STOOP_SMTP_HOURLY_LIMIT" saved (smtp.hourlyLimit == s.smtpEnv.hourlyLimit)

def Service.nameDrift (name : Text) : List String :=
  -- a name of only spaces is no name
  if s.instanceNameEnv.isEmpty then [] else differs isSet "STOOP_INSTANCE_NAME" saved (name == s.instanceNameEnv)

end Drift

/-- A group's drift, of a row decoded. -/
def driftOf {α : Type} (c : Codec α) (zero : α) (t : Table) (g : Group) (drift : Bool → α → List String) :
    Except Key (List String) :=
  (readJSON c zero t (.group g)).map fun value => drift value.isSome (value.getD zero)

/-- `EnvDrift`: the variables that are set to another value than the saved setting, each group's in turn. -/
def envDrift (s : Service) (envSet : Option (String → Bool)) (t : Table) : Except Key (List String) :=
  match envSet with
  | none => .ok []
  | some isSet => do
    let publicURL ← driftOf .string [] t .publicURL (s.publicURLDrift isSet)
    let proxies ← driftOf addressesCodec [] t .trustedProxies (s.proxiesDrift isSet)
    let relay ← driftOf TURNRelay.codec {} t .turn (s.turnDrift isSet)
    let cloudflare ← driftOf CloudflareTURN.codec {} t .cloudflareTURN (s.cloudflareDrift isSet)
    let tailscale ← driftOf TailscaleSettings.codec {} t .tailscale (s.tailscaleDrift isSet)
    let tunnel ← driftOf CloudflareTunnelSettings.codec {} t .cloudflareTunnel (s.tunnelDrift isSet)
    let providers ← driftOf providersCodec [] t .loginProviders (s.providersDrift isSet)
    let password ← driftOf .string [] t .passwordSignIn (s.passwordDrift isSet)
    let smtp ← driftOf SMTP.codec .unsaved t .smtp (s.smtpDrift isSet)
    let name ← driftOf .string [] t .instanceName (s.nameDrift isSet)
    return publicURL ++ proxies ++ relay ++ cloudflare ++ tailscale ++ tunnel ++ providers ++ password ++ smtp ++
      name

end Stoop.Instance.Rows
