import Mathlib.Data.List.Count
import Stoop.Lib.Commits
import Stoop.Lib.Machine

/-!
# Credentials

`internal/auth/sessions.go`, `session_list.go`, `personal_tokens.go`, `reauth.go`, `revocation.go` and the statements
of `credentials.sql`: sessions and tokens, how one is verified, and the transactions that make and delete them
beside one another.

A `DELETE` finds the rows of its statement's snapshot and comes to them one by one: one that another transaction
has locked it waits for, and one that is gone by then it passes over. `CreatePersonalToken` holds the session it is
made with `FOR SHARE` to its end. What a transaction wrote is seen when it commits. A step is one of these, so every
interleaving of any number of transactions is a run.
-/

set_option autoImplicit false

namespace Stoop.Accounts.Credentials

open Stoop.Lib

/-! ## Rows -/

abbrev Time := Int

/-- A row's id (a UUID, compared only). -/
abbrev CredentialId := Nat

/-- A token's digest, compared only. -/
abbrev TokenHash := Nat

inductive CredentialKind
  | session
  | personalToken
  | botToken
  | incomingHook
  deriving DecidableEq, Repr

/-- A row of `credentials`. The session a personal token was made with is no column: it is what
`CreatePersonalToken` was handed. -/
structure Credential where
  id : CredentialId
  holderId : String
  kind : CredentialKind
  tokenHash : TokenHash
  expiresAt : Option Time
  madeWith : Option CredentialId
  deriving DecidableEq, Repr

abbrev Rows := Keyed Credential.id

/-! ## Verifying -/

inductive Role
  | member
  | admin
  deriving DecidableEq, Repr

inductive IdentityKind
  | person
  | bot
  deriving DecidableEq, Repr

/-- What a row of `users` says of a credential's holder. -/
structure Holder where
  role : Role
  kind : IdentityKind
  deactivated : Bool

/-- The `personal_tokens` setting. -/
inductive PersonalTokens
  | everyone
  | admins
  | off
  deriving DecidableEq, Repr

/-- Why a credential is refused. -/
inductive Refusal
  | missing
  | invalidOrExpired
  | hookToken
  | tokensOff
  | tokensAdmins
  deriving DecidableEq, Repr

def Refusal.text : Refusal → String
  | .missing => "missing token"
  | .invalidOrExpired => "invalid or expired session"
  | .hookToken => "a hook token is not a bearer token"
  | .tokensOff => "personal tokens are turned off on this server"
  | .tokensAdmins => "only server admins can use personal tokens on this server"

/-- `Identity`, less the grant and the bounds, which are the credential's own. -/
structure Identity where
  userId : String
  role : Role
  kind : IdentityKind
  credential : CredentialId
  credentialKind : CredentialKind
  sessionId : Option CredentialId
  deriving DecidableEq, Repr

/-- `GetCredentialByTokenHash`. -/
def getCredentialByTokenHash (users : String → Option Holder) (now : Time) (hash : TokenHash) (rows : Rows) :
    Option (Credential × Holder) :=
  (rows.values.find? fun c => c.tokenHash == hash && c.expiresAt.all (now < ·)).bind fun c =>
    ((users c.holderId).filter (!·.deactivated)).map fun holder => (c, holder)

/-- `tokenBlock`. -/
def tokenBlock (setting : PersonalTokens) (role : Role) : Option Refusal :=
  match setting, role with
  | .off, _ => some .tokensOff
  | .admins, .member => some .tokensAdmins
  | .admins, .admin | .everyone, _ => none

/-- `verify`; the digest is given. -/
def verify (hashToken : String → TokenHash) (users : String → Option Holder) (setting : PersonalTokens) (now : Time)
    (rows : Rows) (token : String) (allowHook : Bool) : Except Refusal Identity :=
  if token = "" then .error .missing
  else
    match getCredentialByTokenHash users now (hashToken token) rows with
    | none => .error .invalidOrExpired
    | some (c, holder) =>
      if c.kind = .incomingHook ∧ ¬allowHook then .error .hookToken
      else
        match (if c.kind = .personalToken then tokenBlock setting holder.role else none) with
        | some reason => .error reason
        | none => .ok
            { userId := c.holderId, role := holder.role, kind := holder.kind, credential := c.id
              credentialKind := c.kind, sessionId := if c.kind = .session then some c.id else none }

/-! ## Statements -/

/-- The `WHERE` of a `DELETE`. -/
inductive Condition
  | credential (id : CredentialId)
  | otherSessions (holderId : String) (id : CredentialId)
  | sessions (holderId : String)
  | credentialsOf (holderId : String)
  | personalToken (id : CredentialId) (holderId : String)
  | personalTokens (holderId : String)
  | botCredential (id : CredentialId)
  | swept (now expiredBefore : Time)
  deriving DecidableEq, Repr

def Condition.meets : Condition → Credential → Bool
  | .credential id, c => c.id == id
  | .otherSessions holderId id, c => c.holderId == holderId && c.kind == .session && c.id != id
  | .sessions holderId, c => c.holderId == holderId && c.kind == .session
  | .credentialsOf holderId, c => c.holderId == holderId
  | .personalToken id holderId, c => c.id == id && c.holderId == holderId && c.kind == .personalToken
  | .personalTokens holderId, c => c.holderId == holderId && c.kind == .personalToken
  | .botCredential id, c => c.id == id && (c.kind == .botToken || c.kind == .incomingHook)
  | .swept now expiredBefore, c =>
    c.expiresAt.any fun time => if c.kind = .session then time ≤ now else time ≤ expiredBefore

inductive Statement
  | delete (c : Condition)
  /-- Go on only if one row was deleted. -/
  | one
  | insert (c : Credential)
  /-- `CreatePersonalToken`, of a session. -/
  | insertWith (session : CredentialId) (c : Credential)
  deriving DecidableEq, Repr

/-- What is drawn for a new row. -/
structure Drawn where
  id : CredentialId
  tokenHash : TokenHash
  expiresAt : Option Time

def Drawn.row (new : Drawn) (holderId : String) (kind : CredentialKind) (madeWith : Option CredentialId) : Credential :=
  ⟨new.id, holderId, kind, new.tokenHash, new.expiresAt, madeWith⟩

/-- The transactions on credentials. -/
inductive Flow
  /-- `createSession`: a sign-in of any kind. -/
  | createSession (holderId : String) (new : Drawn)
  /-- `CreateBotCredential`: a bot's token, or a hook's. -/
  | createBotCredential (holderId : String) (hook : Bool) (new : Drawn)
  /-- `CreatePersonalToken`, by whoever was verified by a session. -/
  | createPersonalToken (session : Credential) (new : Drawn)
  | replaceSession (holderId : String) (oldSessionId : CredentialId) (new : Drawn)
  | signOutEverywhere (holderId : String)
  /-- `CompletePasswordReset`, as far as credentials go. -/
  | completePasswordReset (holderId : String) (revokePersonalTokens : Bool)
  /-- One `DELETE` by itself: `Logout`, `RevokePersonalToken`, each of `ChangePassword`'s two, a bot's token revoked,
  `revokeAll`, the sweep. -/
  | delete (c : Condition)

namespace Flow

def script : Flow → List Statement
  | .createSession holderId new => [.insert (new.row holderId .session none)]
  | .createBotCredential holderId hook new =>
    [.insert (new.row holderId (if hook then .incomingHook else .botToken) none)]
  | .createPersonalToken session new =>
    [.insertWith session.id (new.row session.holderId .personalToken (some session.id))]
  | .replaceSession holderId oldSessionId new =>
    [.delete (.credential oldSessionId), .one, .insert (new.row holderId .session none)]
  | .signOutEverywhere holderId => [.delete (.sessions holderId), .delete (.personalTokens holderId)]
  | .completePasswordReset holderId revokePersonalTokens =>
    .delete (.sessions holderId) :: if revokePersonalTokens then [.delete (.personalTokens holderId)] else []
  | .delete c => [.delete c]

/-- Whose sessions and tokens it ends, if it ends both. -/
def signsOut : Flow → Option String
  | .signOutEverywhere holderId | .completePasswordReset holderId true => some holderId
  | _ => none

/-- The session it replaces. -/
def replaces : Flow → Option CredentialId
  | .replaceSession _ oldSessionId _ => some oldSessionId
  | _ => none

end Flow

/-! ## What a transaction writes -/

inductive Change
  | delete (id : CredentialId)
  | insert (c : Credential)
  deriving DecidableEq, Repr

/-- A change made to the rows. -/
def applyChange (rows : Rows) : Change → Rows
  | .delete id => rows.filter fun c => c.id != id
  | .insert c => rows.set c

/-- Two changes that no lock keeps from each other: a row is deleted by one transaction, inserted by one, and not
deleted while a token is being made with it. -/
def Change.apart : Change → Change → Bool
  | .delete i, .delete j => i != j
  | .delete i, .insert c | .insert c, .delete i => c.id != i && c.madeWith != some i
  | .insert c, .insert d => c.id != d.id

/-- A transaction: what is left of its script, the rows that the statement it is in has found and not come to, and
what it wrote. What its first statement found is kept beside (a ghost). -/
structure Tx where
  id : Nat
  flow : Flow
  rest : List Statement
  found : Option (List CredentialId)
  written : List Change
  seen : List Credential

/-! ## The machine -/

/-- The rows committed, the transactions that are open, and every credential ever written; what a sign-out found
that has committed, and the sessions that were replaced (ghosts). -/
structure World where
  rows : Rows
  txs : Keyed Tx.id
  drawn : List Credential
  ended : List Credential
  replaced : List CredentialId

def World.empty : World := ⟨.empty, .empty, [], [], []⟩

inductive Label
  | start (tx : Nat) (flow : Flow)
  /-- A `DELETE` takes its snapshot. -/
  | find (tx : Nat)
  /-- It comes to a row it found. -/
  | take (tx : Nat) (id : CredentialId)
  /-- A statement is done. -/
  | finish (tx : Nat)
  | commit (tx : Nat)
  | rollback (tx : Nat)

namespace World

/-- Whether no open transaction holds what a change needs. -/
def free (s : World) (c : Change) : Bool := s.txs.values.all fun t => t.written.all fun d => c.apart d

/-- A row never written before. -/
def fresh (s : World) (c : Credential) : Bool := s.drawn.all fun d => c.id != d.id && c.tokenHash != d.tokenHash

/-- A transaction and what it wrote now. -/
def advance (s : World) (t : Tx) : World := { s with txs := s.txs.set t }

/-- The statement a transaction is in, done. -/
def finish (s : World) (t : Tx) : Option World :=
  match t.rest with
  | [] => none
  | .delete _ :: rest => if t.found = some [] then some (s.advance { t with rest := rest, found := none }) else none
  | .one :: rest =>
    if t.written.countP (fun | .delete _ => true | .insert _ => false) = 1 then
      some (s.advance { t with rest := rest })
    else none
  | .insert c :: rest =>
    if s.fresh c then
      some { s.advance { t with rest := rest, written := t.written ++ [.insert c] } with drawn := s.drawn ++ [c] }
    else none
  | .insertWith session c :: rest =>
    -- a session that is gone gives no row, and one being deleted is waited for
    if s.rows.has session ∧ s.fresh c ∧ s.free (.insert c) then
      some { s.advance { t with rest := rest, written := t.written ++ [.insert c] } with drawn := s.drawn ++ [c] }
    else none

def step (s : World) : Label → Option World
  | .start tx flow =>
    if s.txs.has tx then none
    else
      match flow with
      | .createPersonalToken session _ =>
        if session ∈ s.drawn ∧ session.kind = .session then some (s.advance ⟨tx, flow, flow.script, none, [], []⟩)
        else none
      | _ => some (s.advance ⟨tx, flow, flow.script, none, [], []⟩)
  | .find tx =>
    (s.txs.get? tx).bind fun t =>
      match t.rest, t.found with
      | .delete c :: _, none =>
        let found := s.rows.values.filter fun row => c.meets row && !t.written.contains (.delete row.id)
        some (s.advance { t with
          found := some (found.map (·.id)), seen := if t.rest = t.flow.script then found else t.seen })
      | _, _ => none
  | .take tx id =>
    (s.txs.get? tx).bind fun t => t.found.bind fun found =>
      if id ∉ found then none
      else if !s.rows.has id then some (s.advance { t with found := some (found.erase id) })
      else if s.free (.delete id) then
        some (s.advance { t with found := some (found.erase id), written := t.written ++ [.delete id] })
      else none
  | .finish tx => (s.txs.get? tx).bind s.finish
  | .commit tx =>
    (s.txs.get? tx).bind fun t =>
      if t.rest = [] then
        some
          { s with
            rows := t.written.foldl applyChange s.rows
            txs := s.txs.filter (·.id != tx)
            ended := s.ended ++ if t.flow.signsOut.isSome then t.seen else []
            replaced := s.replaced ++ t.flow.replaces.toList }
      else none
  | .rollback tx => some { s with txs := s.txs.filter (·.id != tx) }

end World

/-- What has been signed out of stays so. -/
structure SignedOut (s : World) : Prop where
  /-- No row is left of what a sign-out found, nor of a token made with it. -/
  gone : ∀ c ∈ s.ended, ∀ row ∈ s.rows.values, row.id ≠ c.id ∧ row.madeWith ≠ some c.id
  /-- The token of one is verified no more, nor that of a token made with it. -/
  refused : ∀ c ∈ s.ended, ∀ row ∈ s.drawn, row.id = c.id ∨ row.madeWith = some c.id →
    ∀ hashToken users setting now token allowHook, hashToken token = row.tokenHash → token ≠ "" →
      verify hashToken users setting now s.rows token allowHook = .error .invalidOrExpired
  /-- A session is replaced by one other at most. -/
  once : s.replaced.Nodup

end Stoop.Accounts.Credentials
