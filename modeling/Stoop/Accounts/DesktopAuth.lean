/-!
# The desktop app's sign-in, one request at a time

What each request of a desktop round trip computes (`internal/auth/desktopauth.go`, `loginflow.go`,
`identities.go`, `reauth.go`): the attempts and the codes, the changes their stores are given, and what a
request ends with. What the database, the provider and the settings answer a request is given with it.
A user, a session and an attempt that the source has as `""` are `none` here.

`desktopStart`, `claim`, `oidcStart`, `oidcCallback`, `mint`, `redeem`, `desktopComplete`
-/

set_option autoImplicit false

namespace Stoop.Accounts.Desktop

abbrev Token := String
abbrev User := String

/-- The codes a failed request shows. -/
inductive Failure
  | attemptInvalid
  | providerUnknown
  | serverError
  | loginState
  | loginExpired
  | signInAgain
  | reauthFailed
  | providerError
  | deactivated
  | identityTaken
  | alreadyLinked
  | closed
  | inviteInvalid
  | inviteRequired
  | codeInvalid
  deriving DecidableEq, Repr

/-! ## Attempts and codes -/

inductive Method
  | s256
  | plain
  deriving DecidableEq, Repr

structure DesktopAttempt where
  provider : String
  challenge : String
  method : Method
  userId : Option User := none
  sessionId : Option Token := none
  reauth : Bool := false
  claimed : Bool := false
  deriving DecidableEq, Repr

/-- What a provider says of the person, as far as a request reads it. -/
structure Claims where
  subject : String := ""
  email : String := ""
  deriving DecidableEq, Repr

/-- What a callback learned: who to sign in and where they land, or the claims. -/
structure Learned where
  target : String := ""
  userId : Option User := none
  claims : Claims := {}
  deriving DecidableEq, Repr

structure DesktopCode extends Learned where
  attempt : DesktopAttempt
  deriving DecidableEq, Repr

def desktopSecretMin : Nat := 43
def desktopSecretMax : Nat := 128

def validDesktopSecret (v : String) : Bool :=
  decide (desktopSecretMin ≤ v.utf8ByteSize ∧ v.utf8ByteSize ≤ desktopSecretMax) &&
    v.toList.all fun c =>
      ('a' ≤ c && c ≤ 'z') || ('A' ≤ c && c ≤ 'Z') || ('0' ≤ c && c ≤ '9') || c == '-' || c == '_'

namespace DesktopAttempt

def isLink (a : DesktopAttempt) : Bool := a.userId.isSome && !a.reauth

def isReauth (a : DesktopAttempt) : Bool := a.userId.isSome && a.reauth

/-- Whether a verifier is the challenge's; `digest` is its SHA-256 in base64url. -/
def «matches» (digest : String → String) (a : DesktopAttempt) (verifier : String) : Bool :=
  validDesktopSecret verifier &&
    (if a.method = .s256 then digest verifier else verifier) == a.challenge

end DesktopAttempt

/-! ## The changes of the stores

What is kept under the id or the code, and what the caller gets. -/

def claim (provider : String) :
    Option DesktopAttempt → Option DesktopAttempt × Option DesktopAttempt
  | none => (none, none)
  | some a =>
    if a.claimed || a.provider != provider then (some a, none)
    else (some { a with claimed := true }, some { a with claimed := true })

/-- The attempt goes, whoever asks; it is had by its own provider's callback. -/
def mint (provider : String) (current : Option DesktopAttempt) :
    Option DesktopAttempt × Option DesktopAttempt :=
  (none, current.filter (·.provider == provider))

def redeem (digest : String → String) (verifier : String) (confirm : Bool) :
    Option DesktopCode → Option DesktopCode × Option DesktopCode
  | none => (none, none)
  | some c =>
    if !c.attempt.matches digest verifier then (none, none)
    else (if !confirm && c.attempt.isLink then some c else none, some c)

/-- A claim leaves the entry, or marks it and has it. -/
theorem claim_cases (provider : String) (current : Option DesktopAttempt) :
    claim provider current = (current, none) ∨ ∃ a, current = some a ∧ a.claimed = false ∧
      claim provider current = (some { a with claimed := true }, some { a with claimed := true }) := by
  cases current with
  | none => exact .inl rfl
  | some a =>
    rw [claim]
    split
    next => exact .inl rfl
    next hfree =>
      have hunclaimed : a.claimed = false := by
        rw [Bool.or_eq_true, not_or, Bool.not_eq_true] at hfree
        exact hfree.1
      exact .inr ⟨a, rfl, hunclaimed, rfl⟩

theorem mint_cases (provider : String) (current : Option DesktopAttempt) :
    mint provider current = (none, none) ∨
      ∃ a, current = some a ∧ mint provider current = (none, some a) := by
  cases hhad : current.filter (·.provider == provider) with
  | none => exact .inl (by rw [mint, hhad])
  | some a => exact .inr ⟨a, (Option.filter_eq_some_iff.mp hhad).1, by rw [mint, hhad]⟩

/-- A code is redeemed for its verifier only, and stays only for a link's preview. -/
theorem redeem_cases (digest : String → String) (verifier : String) (confirm : Bool)
    (current : Option DesktopCode) :
    redeem digest verifier confirm current = (none, none) ∨
      ∃ c, current = some c ∧ c.attempt.matches digest verifier = true ∧
        redeem digest verifier confirm current =
          (if !confirm && c.attempt.isLink then some c else none, some c) := by
  cases current with
  | none => exact .inl rfl
  | some c =>
    cases hmatches : c.attempt.matches digest verifier with
    | true => exact .inr ⟨c, rfl, hmatches, by rw [redeem, hmatches]; rfl⟩
    | false => exact .inl (by rw [redeem, hmatches]; rfl)

/-! ## Starting -/

/-- A live session: whose it is, and its id. -/
structure Identified where
  userId : User
  sessionId : Token
  deriving DecidableEq, Repr

/-- What `verifySession` says. -/
inductive SessionCheck
  | noSession
  | failed
  | session (ident : Identified)
  deriving DecidableEq, Repr

/-- What is looked up to start: the failure of `readLoginProvider` or `loginProvider`, the session, and the
failure of `linkNeedsSignIn`. -/
structure StartAnswers where
  provider : Option Failure := none
  session : SessionCheck := .noSession
  recent : Option Failure := none
  deriving DecidableEq, Repr

structure DesktopStartRequest where
  provider : String
  challenge : String
  method : String := ""
  link : Bool := false
  reauth : Bool := false
  deriving DecidableEq, Repr

def methodOf : String → Option Method
  | "" => some .s256
  | "S256" => some .s256
  | "plain" => some .plain
  | _ => none

/-- `POST /auth/desktop/start`: the attempt to begin. -/
def desktopStart (req : DesktopStartRequest) (a : StartAnswers) : Except Failure DesktopAttempt :=
  match methodOf req.method with
  | none => .error .attemptInvalid
  | some method =>
    if !validDesktopSecret req.challenge || (req.link && req.reauth) then .error .attemptInvalid
    else
      match a.provider with
      | some failure => .error failure
      | none =>
        let attempt := { provider := req.provider, challenge := req.challenge, method := method }
        if req.link || req.reauth then
          match a.session with
          | .failed => .error .serverError
          | .noSession => .error .loginState
          | .session ident =>
            match if req.link then a.recent else none with
            | some failure => .error failure
            | none =>
              .ok { attempt with
                userId := some ident.userId, sessionId := some ident.sessionId, reauth := req.reauth }
        else .ok attempt

/-- Same-origin absolute paths, and none back onto a page whose job is done. -/
def safeRedirectPath (p : String) : String :=
  match p.toList with
  | '/' :: c :: _ =>
    if c = '/' || c = '\\' || ["/login", "/setup"].any fun done =>
        p == done || (done ++ "?").toList.isPrefixOf p.toList || (done ++ "/").toList.isPrefixOf p.toList
    then "" else p
  | _ => ""

/-- `GET /auth/oidc/{provider}/start`. -/
structure StartQuery where
  provider : String
  attempt : Option Token := none
  link : Bool := false
  reauth : Bool := false
  redirect : String := ""
  deriving DecidableEq, Repr

/-- The signed cookie of a round trip. -/
structure LoginState where
  provider : String
  state : Token
  linkUserId : Option User := none
  reauthUserId : Option User := none
  sessionId : Option Token := none
  redirect : String := ""
  attempt : Option Token := none
  deriving DecidableEq, Repr

/-- The cookie bound to the session a link was asked for in. -/
def linkIntent (att : Option DesktopAttempt) (a : StartAnswers) (st : LoginState) :
    Except Failure LoginState :=
  match att.filter (·.isLink) with
  | some att => .ok { st with linkUserId := att.userId, sessionId := att.sessionId }
  | none =>
    match a.session with
    | .failed => .error .serverError
    | .noSession => .error .loginState
    | .session ident =>
      match a.recent with
      | some failure => .error failure
      | none => .ok { st with linkUserId := some ident.userId, sessionId := some ident.sessionId }

/-- The cookie bound to the session to confirm; it may be of any age. -/
def reauthIntent (att : Option DesktopAttempt) (a : StartAnswers) (st : LoginState) :
    Except Failure LoginState :=
  match att.filter (·.isReauth) with
  | some att => .ok { st with reauthUserId := att.userId, sessionId := att.sessionId }
  | none =>
    match a.session with
    | .failed => .error .serverError
    | .noSession => .error .reauthFailed
    | .session ident => .ok { st with reauthUserId := some ident.userId, sessionId := some ident.sessionId }

/-- `oidcStart` once its attempt is claimed: the cookie, or a failure. -/
def oidcStart (q : StartQuery) (att : Option DesktopAttempt) (state : Token) (a : StartAnswers) :
    Except Failure LoginState :=
  if (q.link && q.reauth) || (q.attempt.isSome &&
      (q.link != att.any (·.isLink) || q.reauth != att.any (·.isReauth))) then .error .loginState
  else do
    let st : LoginState :=
      { provider := q.provider, state := state, redirect := safeRedirectPath q.redirect }
    let st ← if q.link then linkIntent att a st else .ok st
    let st ← if q.reauth then reauthIntent att a st else .ok st
    match a.provider with
    | some failure => .error failure
    | none => .ok { st with attempt := q.attempt }

/-! ## Signing in, linking, confirming -/

/-- What `GetUserByIdentity` finds. -/
inductive IdentityCheck
  | missing
  | failed
  | found (user : User) (deactivated : Bool)
  deriving DecidableEq, Repr

/-- How an insert or a replacement went: it may meet a row, or miss one. -/
inductive Written
  | done
  | conflict
  | failed
  deriving DecidableEq, Repr

/-- What `finishSocial` is answered: the identity's owner, the session and the insert of a link, and what
`registerSocial` comes to. -/
structure SocialAnswers where
  identity : IdentityCheck := .missing
  session : SessionCheck := .noSession
  create : Written := .done
  register : Except Failure (User × String) := .error .closed

structure FlowResult where
  userId : Option User := none
  target : String
  deriving DecidableEq, Repr

def linkIdentity (provider : String) (st : LoginState) (a : SocialAnswers) : Except Failure FlowResult :=
  match a.session with
  | .failed => .error .providerError
  | .noSession => .error .loginState
  | .session ident =>
    if some ident.userId ≠ st.linkUserId || some ident.sessionId ≠ st.sessionId then .error .loginState
    else
      match a.create with
      | .done => .ok { target := "/profile?linked=" ++ provider }
      | .conflict => .error .alreadyLinked
      | .failed => .error .providerError

def finishSocial (provider : String) (st : LoginState) (a : SocialAnswers) : Except Failure FlowResult :=
  match a.identity with
  | .found user deactivated =>
    if deactivated then .error .deactivated
    else if st.linkUserId.isSome && st.linkUserId != some user then .error .identityTaken
    else .ok ⟨some user, if st.redirect = "" then "/" else st.redirect⟩
  | .failed => .error .providerError
  | .missing =>
    if st.linkUserId.isSome then linkIdentity provider st a
    else a.register.map fun (user, target) => ⟨some user, target⟩

/-- What a reauth is answered: the session, the identity's owner, and the replacement. -/
structure ReauthAnswers where
  session : SessionCheck := .noSession
  identity : IdentityCheck := .missing
  replace : Written := .done
  deriving DecidableEq, Repr

/-- A reauth's end: the session is the one that started it, the identity is that account's, and the session
is replaced. -/
def confirmed (userId : Option User) (sessionId : Option Token) (a : ReauthAnswers) :
    Except Failure User :=
  match a.session with
  | .failed => .error .serverError
  | .noSession => .error .reauthFailed
  | .session ident =>
    if some ident.userId ≠ userId || some ident.sessionId ≠ sessionId then .error .reauthFailed
    else
      match a.identity with
      | .failed => .error .serverError
      | .missing => .error .reauthFailed
      | .found user deactivated =>
        if user ≠ ident.userId || deactivated then .error .reauthFailed
        else
          match a.replace with
          | .done => .ok ident.userId
          | .conflict => .error .reauthFailed
          | .failed => .error .serverError

def finishReauth (st : LoginState) (a : ReauthAnswers) : Except Failure User :=
  confirmed st.reauthUserId st.sessionId a

def desktopReauth (c : DesktopCode) (a : ReauthAnswers) : Except Failure User :=
  confirmed c.attempt.userId c.attempt.sessionId a

/-! ## The callback -/

/-- What a request gives: a session, an identity linked, a session confirmed by replacing it. -/
inductive Outcome
  | session (user : User)
  | link (user : User)
  | reauth (user : User)
  deriving DecidableEq, Repr

structure CallbackRequest where
  provider : String
  state : Token
  error : String := ""
  code : String := ""
  deriving DecidableEq, Repr

/-- What is looked up for a callback; `claims` is what the exchange returned, and `session` whether one
could be made. -/
structure CallbackAnswers where
  provider : Option Failure := none
  claims : Option Claims := none
  social : SocialAnswers := {}
  reauth : ReauthAnswers := {}
  session : Bool := true

/-- How a callback ends: with its attempt dropped, with the attempt left alone, with what it learned handed
to the attempt, or in the browser itself. -/
inductive CallbackEnd
  | failed (failure : Failure)
  | refused (failure : Failure)
  | handOff (attempt : Token) (out : Learned)
  | yielded (outcome : Option Outcome)
  deriving DecidableEq, Repr

/-- `desktopHandOff`, up to the store. -/
def desktopHandOff (attempt : Token) (res : FlowResult) : CallbackEnd :=
  if res.userId = none then .refused .loginState
  else .handOff attempt { userId := res.userId, target := res.target }

/-- `oidcCallback`, once the cookie is read. -/
def oidcCallback (st : LoginState) (r : CallbackRequest) (a : CallbackAnswers) : CallbackEnd :=
  if st.provider ≠ r.provider || r.state ≠ st.state then .failed .loginState
  else if r.error ≠ "" || r.code = "" then .failed .providerError
  else
    match a.provider, a.claims.filter (·.subject != "") with
    | some failure, _ => .failed failure
    | none, none => .failed .providerError
    | none, some claims =>
      match st.attempt with
      | some attempt =>
        if st.linkUserId.isSome || st.reauthUserId.isSome then .handOff attempt { claims := claims }
        else
          match finishSocial r.provider st a.social with
          | .error failure => .failed failure
          | .ok res => desktopHandOff attempt res
      | none =>
        if st.reauthUserId.isSome then
          match finishReauth st a.reauth with
          | .error failure => .refused failure
          | .ok user => .yielded (some (.reauth user))
        else
          match finishSocial r.provider st a.social with
          | .error failure => .refused failure
          | .ok res =>
            match res.userId with
            | some user => if a.session then .yielded (some (.session user)) else .refused .providerError
            | none => .yielded (st.linkUserId.map .link)

/-! ## Completing -/

/-- What is looked up to complete; `created` is whether a session could be made. -/
structure CompleteAnswers where
  session : SessionCheck := .noSession
  social : SocialAnswers := {}
  reauth : ReauthAnswers := {}
  created : Bool := true

/-- Nothing where the call is the preview. -/
def desktopLink (c : DesktopCode) (confirm : Bool) (a : CompleteAnswers) :
    Except Failure (Option Outcome) :=
  match a.session with
  | .failed => .error .serverError
  | .noSession => .error .loginState
  | .session ident =>
    if some ident.userId ≠ c.attempt.userId || some ident.sessionId ≠ c.attempt.sessionId then
      .error .loginState
    else if !confirm then .ok none
    else
      let st : LoginState :=
        { provider := c.attempt.provider, state := "", linkUserId := c.attempt.userId
          sessionId := c.attempt.sessionId }
      (finishSocial c.attempt.provider st a.social).map fun _ => some (.link ident.userId)

/-- `POST /auth/desktop/complete`, once the code is redeemed. -/
def desktopComplete (c : DesktopCode) (confirm : Bool) (a : CompleteAnswers) :
    Except Failure (Option Outcome) :=
  if c.attempt.isLink then desktopLink c confirm a
  else if c.attempt.isReauth then (desktopReauth c a.reauth).map fun user => some (.reauth user)
  else
    match c.userId with
    | some user => if a.created then .ok (some (.session user)) else .error .serverError
    | none => .error .serverError

/-! ## What a request can end with -/

/-- What an attempt may give: one to link an identity or to confirm its session only that, to its own
account, and one to sign in only a session. -/
def DesktopAttempt.Fits (a : DesktopAttempt) : Outcome → Prop
  | .session _ => a.userId = none
  | .link user => a.isLink = true ∧ a.userId = some user
  | .reauth user => a.isReauth = true ∧ a.userId = some user

/-- Whether a round trip is to sign in, by its cookie. -/
def LoginState.signsIn (st : LoginState) : Bool := !(st.linkUserId.isSome || st.reauthUserId.isSome)

/-- Whether an attempt is. -/
def DesktopAttempt.signsIn (a : DesktopAttempt) : Bool := !(a.isLink || a.isReauth)

/-- An attempt to sign in names no account. -/
theorem DesktopAttempt.signsIn_iff (a : DesktopAttempt) : a.signsIn = true ↔ a.userId = none := by
  simp only [DesktopAttempt.signsIn, isLink, isReauth]
  cases a.userId <;> cases a.reauth <;> simp

theorem desktopStart_unclaimed {req : DesktopStartRequest} {a : StartAnswers} {attempt : DesktopAttempt}
    (h : desktopStart req a = .ok attempt) : attempt.claimed = false := by
  simp only [desktopStart] at h
  repeat' split at h
  all_goals cases h <;> rfl

theorem isSome_of_isLink {a : DesktopAttempt} (h : a.isLink = true) : a.userId.isSome = true :=
  (Bool.and_eq_true_iff.mp h).1

theorem isSome_of_isReauth {a : DesktopAttempt} (h : a.isReauth = true) : a.userId.isSome = true :=
  (Bool.and_eq_true_iff.mp h).1

theorem oidcStart_attempt {q : StartQuery} {att : Option DesktopAttempt} {state : Token}
    {a : StartAnswers} {st : LoginState} (h : oidcStart q att state a = .ok st) :
    st.attempt = q.attempt := by
  simp only [oidcStart, bind, Except.bind] at h
  repeat' split at h
  all_goals cases h
  all_goals rfl

/-- A cookie says what its attempt is for. -/
theorem oidcStart_ok {q : StartQuery} {att : DesktopAttempt} {id state : Token} {a : StartAnswers}
    {st : LoginState} (hq : q.attempt = some id) (h : oidcStart q (some att) state a = .ok st) :
    st.attempt = some id ∧ st.signsIn = att.signsIn := by
  simp only [oidcStart, hq, Option.isSome_some, Bool.true_and, Option.any_some] at h
  split at h
  · cases h
  next hsays =>
    simp only [Bool.or_eq_true, not_or, bne_iff_ne, ne_eq, Decidable.not_not] at hsays
    obtain ⟨hboth, hlink, hreauth⟩ := hsays
    cases hisLink : att.isLink with
    | true =>
      have huser := isSome_of_isLink hisLink
      have hnot : q.reauth = false := by
        simpa only [hlink, hisLink, Bool.true_and, Bool.not_eq_true] using hboth
      simp only [hlink, hnot, hisLink, linkIntent, Option.filter_some, if_true, Bool.false_eq_true,
        if_false, bind, Except.bind] at h
      split at h
      · cases h
      · cases h
        exact ⟨rfl, by simp only [LoginState.signsIn, DesktopAttempt.signsIn, huser, hisLink, Bool.true_or]⟩
    | false =>
      cases hisReauth : att.isReauth with
      | true =>
        have huser := isSome_of_isReauth hisReauth
        simp only [hlink, hreauth, hisLink, hisReauth, reauthIntent, Option.filter_some, if_true,
          Bool.false_eq_true, if_false, bind, Except.bind] at h
        split at h
        · cases h
        · cases h
          exact ⟨rfl, by
            simp only [LoginState.signsIn, DesktopAttempt.signsIn, huser, hisReauth, Bool.or_true]⟩
      | false =>
        simp only [hlink, hreauth, hisLink, hisReauth, Bool.false_eq_true, if_false, bind,
          Except.bind] at h
        split at h
        · cases h
        · cases h
          exact ⟨rfl, by simp only [LoginState.signsIn, DesktopAttempt.signsIn, hisLink, hisReauth]; rfl⟩

/-- What is handed to an attempt: a user where the round trip is to sign in, and else the claims alone. -/
theorem oidcCallback_handOff {st : LoginState} {r : CallbackRequest} {a : CallbackAnswers} {id : Token}
    {out : Learned} (h : oidcCallback st r a = .handOff id out) :
    st.attempt = some id ∧ out.userId.isSome = st.signsIn := by
  simp only [oidcCallback] at h
  split at h
  · cases h
  split at h
  · cases h
  split at h
  · cases h
  · cases h
  split at h
  next attempt hattempt =>
    split at h
    next hintent =>
      cases h
      exact ⟨hattempt, by rw [LoginState.signsIn, hintent]; rfl⟩
    next hintent =>
      split at h
      · cases h
      next res _ =>
        simp only [desktopHandOff] at h
        split at h
        · cases h
        next huser =>
          cases h
          have hsigns : st.signsIn = true := by
            rw [LoginState.signsIn, Bool.eq_false_iff.mpr hintent]
            rfl
          exact ⟨hattempt, (Option.isSome_iff_ne_none.mpr huser).trans hsigns.symm⟩
  next =>
    -- With no attempt a callback ends in the browser.
    repeat' split at h
    all_goals cases h

/-- A round trip with an attempt gives the browser nothing. -/
theorem oidcCallback_yielded {st : LoginState} {r : CallbackRequest} {a : CallbackAnswers}
    {outcome : Option Outcome} (h : oidcCallback st r a = .yielded outcome) : st.attempt = none := by
  simp only [oidcCallback, desktopHandOff] at h
  repeat' split at h
  all_goals cases h
  all_goals assumption

/-- A session confirmed is the one given. -/
theorem confirmed_ok {userId : Option User} {sessionId : Option Token} {a : ReauthAnswers} {user : User}
    (h : confirmed userId sessionId a = .ok user) : userId = some user := by
  simp only [confirmed] at h
  split at h
  · cases h
  · cases h
  split at h
  · cases h
  next ident _ hsame =>
    simp only [ne_eq, Bool.or_eq_true, decide_eq_true_eq, not_or, Decidable.not_not] at hsame
    repeat' split at h
    all_goals cases h
    exact hsame.1.symm

/-- A link completed is to the account that asked for it, and confirmed. -/
theorem desktopLink_ok {c : DesktopCode} {confirm : Bool} {a : CompleteAnswers} {outcome : Outcome}
    (h : desktopLink c confirm a = .ok (some outcome)) :
    ∃ user, outcome = .link user ∧ c.attempt.userId = some user ∧ confirm = true := by
  simp only [desktopLink] at h
  split at h
  · cases h
  · cases h
  split at h
  · cases h
  next ident _ hsame =>
    simp only [ne_eq, Bool.or_eq_true, decide_eq_true_eq, not_or, Decidable.not_not] at hsame
    split at h
    · cases h
    next hconfirm =>
      have hconfirmed : confirm = true := by
        simpa only [Bool.not_eq_true, Bool.not_eq_false'] using hconfirm
      refine ⟨ident.userId, ?_, hsame.1.symm, hconfirmed⟩
      generalize finishSocial _ _ _ = res at h
      cases res with
      | error failure => cases h
      | ok res =>
        cases h
        rfl

/-- A completed code gives what its attempt was for, and a preview nothing. -/
theorem desktopComplete_ok {c : DesktopCode} {confirm : Bool} {a : CompleteAnswers} {outcome : Outcome}
    (h : desktopComplete c confirm a = .ok (some outcome)) :
    c.attempt.Fits outcome ∧ (c.attempt.isLink = true → confirm = true) := by
  simp only [desktopComplete] at h
  split at h
  next hlink =>
    obtain ⟨user, rfl, huser, hconfirm⟩ := desktopLink_ok h
    exact ⟨⟨hlink, huser⟩, fun _ => hconfirm⟩
  next hlink =>
    refine ⟨?_, fun h => absurd h hlink⟩
    split at h
    next hreauth =>
      cases hend : desktopReauth c a.reauth with
      | error failure =>
        rw [hend] at h
        cases h
      | ok user =>
        rw [hend] at h
        cases h
        exact ⟨hreauth, confirmed_ok hend⟩
    next hreauth =>
      have hnone : c.attempt.userId = none := by
        rw [← DesktopAttempt.signsIn_iff, DesktopAttempt.signsIn, Bool.eq_false_iff.mpr hlink,
          Bool.eq_false_iff.mpr hreauth]
        rfl
      split at h
      · split at h
        · cases h
          exact hnone
        · cases h
      · cases h

end Stoop.Accounts.Desktop
