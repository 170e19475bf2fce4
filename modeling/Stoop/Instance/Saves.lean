import Mathlib
import Stoop.Instance.Rows

/-!
# Saving the settings

The saves of the admin page and of `stoop admin setting`: each checks a whole form and then writes the rows of
the groups that the form sets, or is refused and writes nothing. A field left blank where a secret is typed keeps
the secret in force, on a condition that is each group's own. A group is cleared by a save of its empty form, and
reset by deleting its row.

What the standard library reads out of a text (a URL, an address for mail, a token's JSON) is a parameter
(`Readers`), which the saves ask for what they check.
-/

set_option autoImplicit false

namespace Stoop.Instance.Rows

open Stoop.Lib.NetIP (Text parseAddr Addr)
open Stoop.Lib.Json
open Stoop.Instance.TrustedProxy (trimSpace)

attribute [local instance] Stoop.Markdown.lawfulText

/-! ## What is read out of a text -/

/-- A `url.URL`, of the parts that are looked at. -/
structure ParsedURL where
  scheme : Text
  host : Text
  path : Text
  rawQuery : Text
  fragment : Text
  deriving DecidableEq, Repr

/-- A tunnel token, decoded: whether it has an account, a tunnel that is not the nil one, and a secret. -/
structure TokenParts where
  account : Bool
  tunnel : Bool
  secret : Bool
  deriving DecidableEq, Repr

structure Readers where
  /-- `url.Parse` -/
  url : Text → Option ParsedURL
  /-- `netmail.ParseAddress`: the name and the address -/
  mailbox : Text → Option (Text × Text)
  /-- base64 of JSON -/
  token : Text → Option TokenParts
  /-- `json.Unmarshal` of a list of providers -/
  providers : Text → Option (List LoginProvider)

variable (r : Readers)

/-- `config.HTTPURL`. -/
def Readers.httpURL (raw : Text) : Option ParsedURL :=
  (r.url raw).filter fun url => (url.scheme == "http".toList || url.scheme == "https".toList) && url.host != []

/-- `config.Origin`. -/
def Readers.origin (raw : Text) : Bool :=
  (r.httpURL raw).any fun url =>
    (url.path == [] || url.path == "/".toList) && url.rawQuery == [] && url.fragment == []

/-- `config.IssuerURL`. -/
def Readers.issuerURL (raw : Text) : Bool :=
  (r.httpURL raw).any fun url => url.rawQuery == [] && url.fragment == []

/-- One label of `hostnamePattern`. -/
def isLabel (label : Text) : Bool :=
  label.all (fun c => c.isAlphanum || c == '-') && label.head?.any Char.isAlphanum &&
    label.getLast?.any Char.isAlphanum

/-- `hostnamePattern`: labels between dots, and maybe one after the last. -/
def matchesHostname (host : Text) : Bool :=
  let labels := host.splitOn '.'
  let labels := if labels.getLast? = some [] then labels.dropLast else labels
  labels != [] && labels.all isLabel

/-- `config.SMTPHost`: an IPv4 address, or a host name. -/
def smtpHost (host : Text) : Bool :=
  match (parseAddr host).filter fun addr => addr == addr.withoutZone with
  | some addr => match addr.unmap with
    | .v4 _ => true
    | .v6 _ _ => false
  | none => decide (host.length ≤ 253) && matchesHostname host

/-- `config.ValidProviderID`. -/
def validProviderID (id : Text) : Bool :=
  decide (2 ≤ id.length) && decide (id.length ≤ 32) &&
    id.all fun c => c.isLower || c.isDigit || c == '-' || c == '_'

def validHostname (h : Text) : Bool :=
  decide (h.length ≤ 63) && isLabel h

/-- `trimAll`. -/
def trimAll (xs : List Text) : List Text := (xs.map trimSpace).filter (· ≠ [])

/-- A blank one keeps the secret in force. -/
def keepSecret (typed current : Text) : Text := if typed ≠ [] then typed else current

/-! ## Refusals -/

/-- The field that is refused, if one is named, and why: a format, and what it speaks of. -/
structure Refusal where
  field : String
  message : String
  args : List Text := []
  deriving DecidableEq, Repr

/-- A save fails at a row that does not decode, or is refused. -/
inductive Failure
  | undecodable (key : Key)
  | refused (refusal : Refusal)
  deriving DecidableEq, Repr

def Failure.ofKey {α : Type} : Except Key α → Except Failure α
  | .error key => .error (.undecodable key)
  | .ok value => .ok value

/-- The first refusal of several checks. -/
def checked {α : Type} (value : α) : Option Refusal → Except Failure α
  | none => .ok value
  | some refusal => .error (.refused refusal)

/-! ## Forms -/

structure TurnForm where
  urls : List Text := []
  username : Text := []
  credential : Text := []
  stunUrls : List Text := []
  deriving DecidableEq, Repr

structure CloudflareForm where
  keyId : Text := []
  apiToken : Text := []
  deriving DecidableEq, Repr

structure TailscaleForm where
  enabled : Bool := false
  hostname : Text := []
  funnel : Bool := false
  authKey : Text := []
  controlUrl : Text := []
  deriving DecidableEq, Repr

structure TunnelForm where
  enabled : Bool := false
  token : Text := []
  deriving DecidableEq, Repr

/-- `UpdateReachabilityRequest`: the groups that are set in it are saved. -/
structure UpdateReachability where
  publicUrl : Option Text := none
  turn : Option TurnForm := none
  cloudflare : Option CloudflareForm := none
  tailscale : Option TailscaleForm := none
  trustedProxies : Option (List Text) := none
  cloudflareTunnel : Option TunnelForm := none
  deriving DecidableEq, Repr

inductive LoginProviderKind
  | unspecified | oidc | unknown
  deriving DecidableEq, Repr

structure ProviderForm where
  id : Text
  kind : LoginProviderKind
  displayName : Text
  icon : Text
  issuer : Text
  clientId : Text
  clientSecret : Text
  deriving DecidableEq, Repr

inductive SmtpSecurity
  | unspecified | starttls | tls | none | unknown
  deriving DecidableEq, Repr

structure SmtpForm where
  enabled : Bool := false
  host : Text := []
  port : UInt32 := 0
  security : SmtpSecurity := .unspecified
  username : Text := []
  password : Text := []
  fromAddress : Text := []
  fromName : Text := []
  hourlyLimit : UInt32 := 0
  deriving DecidableEq, Repr

inductive PasswordForm
  | unspecified | everyone | admins | off | unknown
  deriving DecidableEq, Repr

/-- `UpdateSettingsRequest`, of the two groups it may save. -/
structure UpdateSettings where
  passwordSignIn : Option PasswordForm := none
  instanceName : Option Text := none
  deriving DecidableEq, Repr

/-! ## Hosting -/

structure Write where
  group : Group
  value : Value

def Table.write (t : Table) (writes : List Write) : Table :=
  writes.foldl (fun t write => t.set (.group write.group) write.value) t

def stagePublicURL (msg : UpdateReachability) : Except Failure (List Write) :=
  match msg.publicUrl with
  | none => .ok []
  | some raw =>
    let publicURL := trimSpace raw
    if publicURL = [] then .ok [⟨.publicURL, Codec.string.encode []⟩]
    else if r.origin publicURL then
      let publicURL := if publicURL.getLast? = some '/' then publicURL.dropLast else publicURL
      .ok [⟨.publicURL, Codec.string.encode publicURL⟩]
    else .error (.refused ⟨"public_url", "the public address must look like https://chat.example.com", []⟩)

def isRelayURL (url : Text) : Bool :=
  ["turn:", "turns:", "stun:", "stuns:"].any fun start => start.toList.isPrefixOf url

def validateTURN (relay : TURNRelay) : Option Refusal :=
  let notRelay (field : String) (urls : List Text) : Option Refusal :=
    (urls.find? fun url => !isRelayURL url).map fun url =>
      ⟨field, "%q is not a turn:, turns:, stun:, or stuns: URL", [url]⟩
  (notRelay "turn.urls" relay.urls).or ((notRelay "turn.stun_urls" relay.stunURLs).or
    (if relay.urls ≠ [] ∧ (relay.username = [] ∨ relay.credential = []) then
      some ⟨if relay.username = [] then "turn.username" else "turn.credential",
        "a TURN relay needs a username and credential", []⟩
    else none))

def stageTURN (msg : UpdateReachability) (current : Reachability) : Except Failure (List Write) :=
  match msg.turn with
  | none => .ok []
  | some form =>
    let relay : TURNRelay := {
      urls := trimAll form.urls, username := trimSpace form.username
      credential := keepSecret form.credential current.turn.credential, stunURLs := trimAll form.stunUrls }
    -- no URLs at all clears it
    if relay.urls = [] ∧ relay.stunURLs = [] then .ok [⟨.turn, TURNRelay.codec.encode {}⟩]
    else checked [⟨.turn, TURNRelay.codec.encode relay⟩] (validateTURN relay)

def stageCloudflareTURN (msg : UpdateReachability) (current : Reachability) : Except Failure (List Write) :=
  match msg.cloudflare with
  | none => .ok []
  | some form =>
    let keyID := trimSpace form.keyId
    let typed := trimSpace form.apiToken
    if keyID = [] then .ok [⟨.cloudflareTURN, CloudflareTURN.codec.encode {}⟩]
    else
      -- the token in force belongs to its key
      let apiToken :=
        if current.cloudflare.keyID = keyID then keepSecret typed current.cloudflare.apiToken else typed
      if apiToken = [] then
        .error (.refused ⟨"cloudflare.api_token", "cloudflare TURN needs the key's API token", []⟩)
      else .ok [⟨.cloudflareTURN, CloudflareTURN.codec.encode { keyID, apiToken }⟩]

/-- What a save of the listener's form makes of it. -/
def TailscaleForm.settings (form : TailscaleForm) (current : TailscaleSettings) : TailscaleSettings where
  enabled := form.enabled
  hostname := trimSpace form.hostname
  funnel := form.funnel
  authKey := keepSecret (trimSpace form.authKey) current.authKey
  controlURL := trimSpace form.controlUrl

def validateTailscale (settings : TailscaleSettings) : Option Refusal :=
  if settings.hostname ≠ [] ∧ ¬ validHostname settings.hostname then
    some ⟨"tailscale.hostname", "the node name must be letters, digits, and hyphens", []⟩
  else if settings.controlURL ≠ [] ∧ (r.httpURL settings.controlURL).isNone then
    some ⟨"tailscale.control_url", "the control URL must be an http(s) URL", []⟩
  else none

def stageTailscale (msg : UpdateReachability) (current : Reachability) : Except Failure (List Write) :=
  match msg.tailscale with
  | none => .ok []
  | some form =>
    let settings := form.settings current.tailscale
    checked [⟨.tailscale, TailscaleSettings.codec.encode settings⟩] (validateTailscale r settings)

def parseTunnelToken (token : Text) : Except Failure Text :=
  let token := trimSpace token
  if token = [] then .ok []
  else if (r.token token).any fun parts => parts.account && parts.tunnel && parts.secret then .ok token
  else .error (.refused ⟨"cloudflare_tunnel.token",
    "that isn't a tunnel token; copy it from the tunnel's page in Cloudflare", []⟩)

def cloudflareTunnelSetting (enabled : Bool) (token : Text) (current : CloudflareTunnelSettings) :
    Except Failure CloudflareTunnelSettings := do
  let typed ← parseTunnelToken r token
  let token := keepSecret typed current.token
  if enabled ∧ token = [] then
    .error (.refused ⟨"cloudflare_tunnel.token", "a Cloudflare Tunnel needs the tunnel's token", []⟩)
  else return { enabled, token }

def stageCloudflareTunnel (msg : UpdateReachability) (current : Reachability) : Except Failure (List Write) :=
  match msg.cloudflareTunnel with
  | none => .ok []
  | some form => do
    let tunnel ← cloudflareTunnelSetting r form.enabled form.token current.cloudflareTunnel
    return [⟨.cloudflareTunnel, CloudflareTunnelSettings.codec.encode tunnel⟩]

def maxTrustedProxies : Nat := 32

def stageTrustedProxies (msg : UpdateReachability) : Except Failure (List Write) :=
  match msg.trustedProxies with
  | none => .ok []
  | some entries =>
    let cidrs := trimAll entries
    if maxTrustedProxies < cidrs.length then
      .error (.refused ⟨"trusted_proxies.cidrs", "at most 32 trusted proxy addresses", []⟩)
    else
      match TrustedProxy.parse cidrs with
      | .error e =>
        .error (.refused ⟨"trusted_proxies.cidrs", "%q is not an IP address or CIDR range", [e.entry]⟩)
      | .ok _ => .ok [⟨.trustedProxies, addressesCodec.encode cidrs⟩]

variable (s : Service) (t : Table)

/-- `SaveReachability`: every group is checked before anything is written. -/
def saveReachability (msg : UpdateReachability) : Except Failure Table := do
  let current ← Failure.ofKey (reachability s t)
  let publicURL ← stagePublicURL r msg
  let turn ← stageTURN msg current
  let cloudflare ← stageCloudflareTURN msg current
  let tailscale ← stageTailscale r msg current
  let tunnel ← stageCloudflareTunnel r msg current
  let proxies ← stageTrustedProxies msg
  return t.write (publicURL ++ turn ++ cloudflare ++ tailscale ++ tunnel ++ proxies)

/-! ## Login providers -/

def maxLoginProviders : Nat := 16

/-- The icons the web client can draw. -/
def providerIcons : List Text := ["google".toList, "microsoft".toList, "key".toList, "none".toList]

/-- A provider's field, named by its place in the list. -/
def fieldAt (i : Nat) (field : String) : String := "providers[" ++ toString i ++ "]." ++ field

def validateLoginProvider (i : Nat) (form : ProviderForm) : Except Failure LoginProvider :=
  let id := trimSpace form.id
  let displayName := trimSpace form.displayName
  let icon := trimSpace form.icon
  let p : LoginProvider := {
    id, kind := "oidc".toList
    displayName := if displayName = [] then id else displayName
    icon := if icon = [] then "key".toList else icon
    issuer := trimSpace form.issuer, clientID := trimSpace form.clientId
    clientSecret := trimSpace form.clientSecret }
  checked p
    (if form.kind = .unknown then some ⟨fieldAt i "kind", "kind must be oidc", []⟩
    else if !validProviderID p.id then
      some ⟨fieldAt i "id", "provider id must be 2-32 of a-z, 0-9, -, _", []⟩
    else if p.icon ∉ providerIcons then
      some ⟨fieldAt i "icon", "icon %q is not one the client can draw", [p.icon]⟩
    else if !r.issuerURL p.issuer then
      some ⟨fieldAt i "issuer", "issuer must look like https://auth.example.com", []⟩
    else if p.clientID = [] then some ⟨fieldAt i "client_id", "provider %q needs a client id", [p.id]⟩
    else none)

/-- A blank secret keeps the saved one, as long as the client id it belongs to is unchanged. -/
def LoginProvider.keeping (p : LoginProvider) : Option LoginProvider → LoginProvider
  | none => p
  | some prior =>
    if prior.clientID = p.clientID then
      { p with clientSecret := keepSecret p.clientSecret prior.clientSecret }
    else p

/-- The last of several providers of one id. -/
def priorOf (current : List LoginProvider) (id : Text) : Option LoginProvider :=
  current.reverse.find? fun p => p.id == id

/-- The list a save makes of the forms from the i-th on, after those that were seen. -/
def nextProviders (current : List LoginProvider) : Nat → List Text → List ProviderForm →
    Except Failure (List LoginProvider)
  | _, _, [] => .ok []
  | i, seen, form :: forms => do
    let p ← validateLoginProvider r i form
    if p.id ∈ seen then .error (.refused ⟨fieldAt i "id", "duplicate provider id %q", [p.id]⟩)
    let p := p.keeping (priorOf current p.id)
    if p.clientSecret = [] then
      .error (.refused ⟨fieldAt i "client_secret", "provider %q needs a client secret", [p.id]⟩)
    let next ← nextProviders current (i + 1) (p.id :: seen) forms
    return p :: next

/-- `SaveLoginProviders`. -/
def saveLoginProviders (providers : List ProviderForm) : Except Failure Table := do
  if maxLoginProviders < providers.length then
    .error (.refused ⟨"providers", "at most 16 login providers", []⟩)
  let current ← Failure.ofKey (loginProviders s t)
  let next ← nextProviders r current 0 [] providers
  if next = [] then
    -- removing the last provider must not leave nobody able to sign in
    let password ← Failure.ofKey (passwordSignIn s t)
    if password ≠ passwordEveryone then
      .error (.refused ⟨"providers",
        "let everyone use password sign-in before removing the last login provider", []⟩)
  return t.set (.group .loginProviders) (providersCodec.encode next)

/-! ## Email -/

/-- `smtpSecurities`, from the form: an unknown one stays blank. -/
def SmtpSecurity.stored : SmtpSecurity → Text
  | .unspecified | .starttls => securitySTARTTLS
  | .tls => securityTLS
  | .none => securityNone
  | .unknown => []

/-- `smtpSecurities`, to the form. -/
def SmtpSecurity.ofStored (security : Text) : SmtpSecurity :=
  if security = securitySTARTTLS then .starttls
  else if security = securityTLS then .tls
  else if security = securityNone then .none
  else .unspecified

def smtpFromProto (form : SmtpForm) (current : SMTP) : SMTP :=
  let security := form.security.stored
  let port := Int64.ofNat form.port.toNat
  let host := trimSpace form.host
  let username := trimSpace form.username
  -- the saved password goes only to the server and account it was saved for
  let password :=
    if form.password = [] ∧ host = current.host ∧ username = current.username then current.password
    else form.password
  { enabled := form.enabled, host, port := if port = 0 then defaultPort security else port, security, username
    password, fromAddress := trimSpace form.fromAddress, fromName := trimSpace form.fromName
    hourlyLimit := Int64.ofNat form.hourlyLimit.toNat }

/-- The settings as the form shows them: the password left out. -/
def SMTP.toProto (smtp : SMTP) : SmtpForm where
  enabled := smtp.enabled
  host := smtp.host
  port := UInt32.ofNat smtp.port.toInt.toNat
  security := .ofStored smtp.security
  username := smtp.username
  fromAddress := smtp.fromAddress
  fromName := smtp.fromName
  hourlyLimit := UInt32.ofNat smtp.hourlyLimit.toInt.toNat

def maxFromNameRunes : Nat := 80

/-- `config.MaxSMTPHourlyLimit`. -/
def maxSMTPHourlyLimit : Int64 := 100000

/-- One address with no name or angle brackets. -/
def Readers.bareAddress (address : Text) : Bool :=
  (r.mailbox address).any fun mailbox => mailbox.1 == [] && mailbox.2 == address

/-- What a save refuses, in order: whether it does, the field, and why. -/
def SMTP.refusals (r : Readers) (smtp : SMTP) : List (Bool × String × String) :=
  [(smtp.host == [] && smtp.enabled, "host", "Enter the SMTP server's host name."),
    (smtp.host != [] && !smtpHost smtp.host, "host",
      "Enter a host name or IPv4 address, with no scheme or port."),
    (decide (smtp.port < 1) || decide (65535 < smtp.port), "port", "Enter a port from 1 to 65535."),
    (smtp.security ∉ [securitySTARTTLS, securityTLS, securityNone], "security", "Pick STARTTLS, TLS or None."),
    (smtp.security == securityNone && smtp.username != [], "security",
      "Pick STARTTLS or TLS to sign in: a password is never sent unencrypted."),
    (smtp.username != [] && smtp.password == [], "password", "Enter the password for this server and username."),
    (smtp.username == [] && smtp.password != [], "password", "A password needs a username."),
    (smtp.fromAddress == [] && smtp.enabled, "from_address", "Enter the address email is sent from."),
    (smtp.fromAddress != [] && !r.bareAddress smtp.fromAddress, "from_address",
      "Enter one address, like stoop@example.com."),
    (decide (maxFromNameRunes < smtp.fromName.length), "from_name", "Keep the name to 80 characters."),
    ('\r' ∈ smtp.fromName ∨ '\n' ∈ smtp.fromName, "from_name", "Keep the name to one line."),
    (decide (smtp.hourlyLimit < 0) || decide (maxSMTPHourlyLimit < smtp.hourlyLimit), "hourly_limit",
      "Enter a number from 0 to 100000.")]

/-- A refusal names its field. -/
def SMTP.validate (r : Readers) (smtp : SMTP) : Option Refusal :=
  ((smtp.refusals r).find? fun refusal => refusal.1).map fun refusal => ⟨"smtp." ++ refusal.2.1, refusal.2.2, []⟩

/-- `SaveEmail`. -/
def saveEmail (form : Option SmtpForm) : Except Failure Table :=
  match form with
  | none => .error (.refused ⟨"", "smtp settings are required", []⟩)
  | some form => do
    let current ← Failure.ofKey (smtpSettings s t)
    let smtp := smtpFromProto form current
    checked (t.set (.group .smtp) (SMTP.codec.encode smtp)) (smtp.validate r)

/-! ## The name, and password sign-in -/

/-- `config.MaxInstanceNameRunes`. -/
def maxInstanceNameRunes : Nat := 100

def stageInstanceName (msg : UpdateSettings) : Except Failure (List Write) :=
  match msg.instanceName with
  | none => .ok []
  | some raw =>
    let name := trimSpace raw
    if name = [] then .error (.refused ⟨"instance_name", "the server name must not be blank", []⟩)
    else if maxInstanceNameRunes < name.length then
      .error (.refused ⟨"instance_name", "the server name must be 100 characters or fewer", []⟩)
    else .ok [⟨.instanceName, Codec.string.encode name⟩]

/-- `passwordSignIns`, from the form. -/
def PasswordForm.stored : PasswordForm → Option Text
  | .everyone => some passwordEveryone
  | .admins => some "admins".toList
  | .off => some "off".toList
  | .unspecified | .unknown => none

/-- `passwordSignIns`, to the form. -/
def PasswordForm.ofStored (value : Text) : Option PasswordForm :=
  [PasswordForm.everyone, .admins, .off].find? fun form => form.stored == some value

def stagePasswordSignIn (msg : UpdateSettings) : Except Failure (List Write) :=
  match msg.passwordSignIn with
  | none => .ok []
  | some form =>
    match form.stored with
    | none => .error (.refused ⟨"", "password_sign_in must be everyone, admins, or off", []⟩)
    | some password => do
      -- below everyone needs a provider
      if password ≠ passwordEveryone then
        let providers ← Failure.ofKey (loginProviders s t)
        if providers = [] then
          .error (.refused ⟨"password_sign_in",
            "add a login provider before restricting password sign-in", []⟩)
      return [⟨.passwordSignIn, Codec.string.encode password⟩]

/-- `SaveSettings`, of the two groups. -/
def saveSettings (msg : UpdateSettings) : Except Failure Table := do
  let name ← stageInstanceName msg
  let password ← stagePasswordSignIn s t msg
  return t.write (name ++ password)

/-- `SetPasswordSignIn`, which does not ask for a provider. -/
def setPasswordSignIn (value : Text) : Except Failure Table :=
  if (PasswordForm.ofStored value).isSome then .ok (t.set (.group .passwordSignIn) (Codec.string.encode value))
  else .error (.refused ⟨"", "password sign-in must be everyone, admins, or off (got %q)", [value]⟩)

/-! ## Clearing and resetting a group -/

/-- `ClearSetting`: the group saved empty. -/
def clearSetting (name : String) : Except Failure Table :=
  match settingGroup name with
  | none => .error (.refused ⟨"", "no setting group %q", [name.toList]⟩)
  | some group =>
    if !group.clearable then .error (.refused ⟨"", "%s can't be empty; set it or reset it", [name.toList]⟩)
    else
      match group with
      | .loginProviders => saveLoginProviders r s t []
      | .smtp => saveEmail r s t (some { hourlyLimit := 100 })
      | .publicURL => saveReachability r s t { publicUrl := some [] }
      | .trustedProxies => saveReachability r s t { trustedProxies := some [] }
      | .turn => saveReachability r s t { turn := some {} }
      | .cloudflareTURN => saveReachability r s t { cloudflare := some {} }
      | .tailscale => saveReachability r s t { tailscale := some {} }
      | .cloudflareTunnel => saveReachability r s t { cloudflareTunnel := some {} }
      | .passwordSignIn | .instanceName => saveReachability r s t {}

/-- Why a group is not reset: members would have no way to sign in. -/
def resetRefusal (s : Service) (t : Table) : Group → Except Key (Option Refusal)
  | .loginProviders =>
    (passwordSignIn s t).map fun password =>
      if s.loginEnv = [] ∧ password ≠ passwordEveryone then
        some ⟨"", "the environment has no login provider; let everyone use password sign-in first", []⟩
      else none
  | .passwordSignIn =>
    (loginProviders s t).map fun providers =>
      if s.passwordEnv ≠ [] ∧ s.passwordEnv ≠ passwordEveryone ∧ providers = [] then
        some ⟨"", "STOOP_PASSWORD_SIGN_IN restricts password sign-in and no login provider is set", []⟩
      else none
  | _ => .ok none

/-- `ResetSetting`: the rows, and whether there was one. -/
def resetSetting (name : String) : Except Failure (Table × Bool) :=
  match settingGroup name with
  | none => .error (.refused ⟨"", "no setting group %q", [name.toList]⟩)
  | some group => do
    let refusal ← Failure.ofKey (resetRefusal s t group)
    checked (t.delete (.group group), (t (.group group)).isSome) refusal

end Stoop.Instance.Rows
