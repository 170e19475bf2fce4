import Stoop.Lib.Machine
import Stoop.Lib.Keyed

/-!
# Who may sign in with a password, and the login providers

Two rows of `instance_settings` (`internal/instance`), each with the environment's value where nothing is
saved: who may use a password, and the providers. A rule joins them: below everyone needs a provider.
Every save and reset that could break it reads the other row first, and then writes its own; a start seeds
both rows from the environment, and repairs an empty list of providers saved before seeding.

A read of the database is a step here and so is a write, so any number of saves, resets and starts
interleave. A write breaks the rule exactly where its check would refuse it as it is made
(`proceed_lockedOut`); so `someone_signs_in` is the runs in which each write finds what its check found
(`WritesClear`), and `checked_before_other_write` one in which a save's check is overtaken.

The CLI's break-glass `SetPasswordSignIn`, which has no check, is not among the calls.
-/

set_option autoImplicit false

namespace Stoop.Instance

open Stoop.Lib

/-! ## The settings -/

inductive PasswordSignIn
  | everyone | admins | off
  deriving DecidableEq, Repr

/-- One configured provider as stored. -/
structure LoginProvider where
  id : String
  kind : String
  displayName : String
  icon : String
  issuer : String
  clientID : String
  clientSecret : String
  deriving DecidableEq, Repr

/-- The environment: `STOOP_OIDC_*`, and `STOOP_PASSWORD_SIGN_IN` where it is set. -/
structure Env where
  loginEnv : List LoginProvider
  passwordEnv : Option PasswordSignIn
  deriving DecidableEq, Repr

/-- The rows, where there are any, and whether `repairPreSeedRows` has run. -/
structure Settings where
  loginProviders : Option (List LoginProvider)
  passwordSignIn : Option PasswordSignIn
  repaired : Bool
  deriving DecidableEq, Repr

/-- The environment's setting: everyone, where it has none. -/
def Env.passwordFallback (env : Env) : PasswordSignIn := env.passwordEnv.getD .everyone

/-- `PasswordSignIn`: saved, else environment, else everyone. -/
def passwordSignIn (env : Env) (s : Settings) : PasswordSignIn :=
  s.passwordSignIn.getD env.passwordFallback

/-- `LoginProviders`: the saved list, or the environment's when nothing is saved. -/
def loginProviders (env : Env) (s : Settings) : List LoginProvider := s.loginProviders.getD env.loginEnv

/-- Password sign-in is restricted below everyone, and no provider is in force. -/
def LockedOut (env : Env) (s : Settings) : Prop :=
  passwordSignIn env s ≠ .everyone ∧ loginProviders env s = []

instance (env : Env) (s : Settings) : Decidable (LockedOut env s) := inferInstanceAs (Decidable (_ ∧ _))

/-! ## Calls -/

def maxLoginProviders : Nat := 16

/-- A blank secret keeps the saved one, as long as the client id it belongs to is unchanged. -/
def keepSecret (current : List LoginProvider) (p : LoginProvider) : LoginProvider :=
  match current.find? fun prior => prior.id == p.id with
  | none => p
  | some prior =>
    if prior.clientID == p.clientID && p.clientSecret == "" then
      { p with clientSecret := prior.clientSecret }
    else p

/-- The list `SaveLoginProviders` makes of providers whose own fields are valid: each id once, each with
a secret. -/
def nextProviders (current providers : List LoginProvider) : Option (List LoginProvider) :=
  let next := providers.map (keepSecret current)
  if providers.length ≤ maxLoginProviders ∧ (next.map (·.id)).Nodup ∧ ∀ p ∈ next, p.clientSecret ≠ "" then
    some next
  else none

/-- What a call at work does next. -/
inductive Pending
  /-- `stagePasswordSignIn` staged it: `commit` writes it -/
  | writePassword (value : PasswordSignIn)
  /-- the list is empty: the password setting is read -/
  | readPassword
  /-- `SaveLoginProviders` writes the list -/
  | writeProviders (next : List LoginProvider)
  /-- `ResetSetting` deletes the row it checked for -/
  | deleteProviders
  | deletePassword
  /-- `SeedFromEnv`, statement by statement -/
  | seedProviders
  | seedPassword
  | readRepaired
  | readSaved
  | readRestricted
  | fillProviders
  | markRepaired
  deriving DecidableEq, Repr

/-- The row written or read, and what the call does after. -/
def proceed (env : Env) (s : Settings) : Pending → Settings × Option Pending
  | .writePassword value => ({ s with passwordSignIn := some value }, none)
  | .readPassword => (s, if passwordSignIn env s = .everyone then some (.writeProviders []) else none)
  | .writeProviders next => ({ s with loginProviders := some next }, none)
  | .deleteProviders => ({ s with loginProviders := none }, none)
  | .deletePassword => ({ s with passwordSignIn := none }, none)
  | .seedProviders =>
    -- SeedSetting inserts where the key is absent
    (if env.loginEnv.isEmpty then s
      else { s with loginProviders := some (s.loginProviders.getD env.loginEnv) }, some .seedPassword)
  | .seedPassword =>
    (match env.passwordEnv with
      | none => s
      | some value => { s with passwordSignIn := some (s.passwordSignIn.getD value) }, some .readRepaired)
  | .readRepaired =>
    (s, if s.repaired then none else if env.loginEnv.isEmpty then some .markRepaired else some .readSaved)
  | .readSaved => (s, if s.loginProviders = some [] then some .readRestricted else some .markRepaired)
  | .readRestricted =>
    (s, if passwordSignIn env s = .everyone then some .markRepaired else some .fillProviders)
  | .fillProviders => ({ s with loginProviders := some env.loginEnv }, some .markRepaired)
  | .markRepaired => ({ s with repaired := true }, none)

/-- What the check of a save or a reset asks, in whatever state. -/
def allowed (env : Env) (s : Settings) : Pending → Bool
  | .writePassword value => value == .everyone || !(loginProviders env s).isEmpty
  | .writeProviders next => !next.isEmpty || passwordSignIn env s == .everyone
  | .deleteProviders => !env.loginEnv.isEmpty || passwordSignIn env s == .everyone
  | .deletePassword => env.passwordFallback == .everyone || !(loginProviders env s).isEmpty
  | _ => true

/-- A call at work. -/
structure Call where
  id : Nat
  next : Pending
  deriving DecidableEq, Repr

/-- The settings, and the calls at work on them. -/
structure World where
  settings : Settings
  calls : Keyed Call.id

/-- One step: a call begins, with its first read; goes on; or ends in between. A call refused as it begins
leaves nothing. -/
inductive Label
  | savePassword (id : Nat) (value : PasswordSignIn)
  | saveProviders (id : Nat) (providers : List LoginProvider)
  | resetProviders (id : Nat)
  | resetPassword (id : Nat)
  | restart (id : Nat)
  | proceed (id : Nat)
  | abandon (id : Nat)
  deriving DecidableEq, Repr

/-- A call begun, if its check lets it. -/
def World.begun (env : Env) (w : World) (id : Nat) (next : Pending) : Option World :=
  if w.calls.has id then none
  else if allowed env w.settings next then some { w with calls := w.calls.set ⟨id, next⟩ }
  else some w

def World.step (env : Env) (w : World) : Label → Option World
  | .savePassword id value => w.begun env id (.writePassword value)
  | .saveProviders id providers =>
    match nextProviders (loginProviders env w.settings) providers with
    | none => some w
    | some [] => w.begun env id .readPassword
    | some next => w.begun env id (.writeProviders next)
  | .resetProviders id => w.begun env id .deleteProviders
  | .resetPassword id => w.begun env id .deletePassword
  | .restart id => w.begun env id .seedProviders
  | .proceed id =>
    (w.calls.get? id).map fun call =>
      let done := Instance.proceed env w.settings call.next
      { settings := done.1
        calls := match done.2 with
          | none => w.calls.filter fun c => c.id != id
          | some next => w.calls.set ⟨id, next⟩ }
  | .abandon id => some { w with calls := w.calls.filter fun c => c.id != id }

/-- Nothing at work. -/
def World.start (settings : Settings) : World := ⟨settings, Keyed.empty⟩

/-! ## What a write does to the rule -/

/-- A write of a save or a reset. -/
def Pending.checked : Pending → Bool
  | .writePassword _ | .writeProviders _ | .deleteProviders | .deletePassword => true
  | _ => false

/-- **A checked write locks everyone out exactly where its check would refuse it.** -/
theorem proceed_lockedOut {env : Env} {s : Settings} {next : Pending} (h : next.checked = true) :
    LockedOut env (proceed env s next).1 ↔ allowed env s next = false := by
  cases next with
  | writePassword value =>
    simp [LockedOut, proceed, allowed, passwordSignIn, loginProviders]
  | writeProviders next =>
    simp [LockedOut, proceed, allowed, passwordSignIn, loginProviders, and_comm]
  | deleteProviders =>
    simp [LockedOut, proceed, allowed, passwordSignIn, loginProviders, and_comm]
  | deletePassword =>
    simp [LockedOut, proceed, allowed, passwordSignIn, loginProviders]
  | _ => cases h

/-- What a start or a read leaves in force: what was, or the environment's providers. -/
theorem proceed_unchecked {env : Env} {s : Settings} {next : Pending} (h : next.checked = false)
    (hfill : next = .fillProviders → env.loginEnv ≠ []) (hs : ¬ LockedOut env s) :
    ¬ LockedOut env (proceed env s next).1 := by
  cases next with
  | writePassword | writeProviders | deleteProviders | deletePassword => cases h
  | readPassword | readRepaired | readSaved | readRestricted | markRepaired => exact hs
  | seedProviders =>
    simp only [proceed]
    split
    · exact hs
    · exact hs
  | seedPassword =>
    simp only [proceed]
    split
    · exact hs
    · next value hvalue =>
      -- the value seeded is the one in force
      intro hlocked
      refine hs ⟨?_, hlocked.2⟩
      have hrestricted := hlocked.1
      cases hsaved : s.passwordSignIn <;>
        simpa [passwordSignIn, Env.passwordFallback, hsaved, hvalue] using hrestricted
  | fillProviders => exact fun hlocked => hfill rfl hlocked.2

/-! ## Runs -/

/-- A save's or a reset's write finds what its check found: the check would let it as it is made. -/
def WritesClear (env : Env) (w : World) : Label → Prop
  | .proceed id => ∀ call ∈ w.calls.get? id, allowed env w.settings call.next = true
  | _ => True

instance (env : Env) (w : World) : (a : Label) → Decidable (WritesClear env w a)
  | .proceed id => inferInstanceAs (Decidable (∀ call, call ∈ w.calls.get? id → _))
  | .savePassword _ _ | .saveProviders _ _ | .resetProviders _ | .resetPassword _ | .restart _
  | .abandon _ => inferInstanceAs (Decidable True)

/-- Someone can sign in, and a repair is under way only where the environment has a provider. -/
structure Open (env : Env) (w : World) : Prop where
  usable : ¬ LockedOut env w.settings
  fills : ∀ call ∈ w.calls.values,
    call.next = .readSaved ∨ call.next = .readRestricted ∨ call.next = .fillProviders → env.loginEnv ≠ []

namespace Open

variable {env : Env} {w w' : World} {a : Label}

theorem begun (inv : Open env w) {id : Nat} {next : Pending}
    (hnext : next ≠ .readSaved ∧ next ≠ .readRestricted ∧ next ≠ .fillProviders)
    (h : w.begun env id next = some w') : Open env w' := by
  simp only [World.begun] at h
  split at h
  · cases h
  · split at h
    · rw [← Option.some.inj h]
      refine ⟨inv.usable, fun call hcall hrepair => ?_⟩
      rcases Keyed.get?_set_cases (Keyed.mem_values.mp hcall) with ⟨_, rfl⟩ | ⟨_, hold⟩
      · rcases hrepair with heq | heq | heq
        · exact absurd heq hnext.1
        · exact absurd heq hnext.2.1
        · exact absurd heq hnext.2.2
      · exact inv.fills call (Keyed.mem_values.mpr hold) hrepair
    · exact Option.some.inj h ▸ inv

/-- A repair goes on only where the environment has a provider. -/
theorem repairs {s : Settings} {next later : Pending} (h : (proceed env s next).2 = some later)
    (hnext : next = .readSaved ∨ next = .readRestricted ∨ next = .fillProviders → env.loginEnv ≠ [])
    (hlater : later = .readSaved ∨ later = .readRestricted ∨ later = .fillProviders) : env.loginEnv ≠ [] := by
  cases next with
  | readSaved => exact hnext (.inl rfl)
  | readRestricted => exact hnext (.inr (.inl rfl))
  | fillProviders => exact hnext (.inr (.inr rfl))
  | readRepaired =>
    simp only [proceed] at h
    split at h
    · cases h
    · split at h
      · rw [← Option.some.inj h] at hlater
        simp at hlater
      · next hsome => exact fun hnone => hsome (by rw [hnone]; rfl)
  | readPassword =>
    simp only [proceed] at h
    split at h
    · rw [← Option.some.inj h] at hlater
      simp at hlater
    · cases h
  | seedProviders | seedPassword =>
    rw [← Option.some.inj h] at hlater
    simp at hlater
  | writePassword | writeProviders | deleteProviders | deletePassword | markRepaired => cases h

/-- One step. -/
theorem step (inv : Open env w) (clear : WritesClear env w a) (hstep : w.step env a = some w') :
    Open env w' := by
  cases a with
  | savePassword id value => exact inv.begun (by simp) hstep
  | saveProviders id providers =>
    simp only [World.step] at hstep
    split at hstep
    · exact Option.some.inj hstep ▸ inv
    · exact inv.begun (by simp) hstep
    · exact inv.begun (by simp) hstep
  | resetProviders id => exact inv.begun (by simp) hstep
  | resetPassword id => exact inv.begun (by simp) hstep
  | restart id => exact inv.begun (by simp) hstep
  | proceed id =>
    obtain ⟨call, hcall, rfl⟩ := Option.map_eq_some_iff.mp hstep
    have hmem : call ∈ w.calls.values := Keyed.mem_values.mpr (by rw [Keyed.key_of_get? hcall, hcall])
    refine ⟨?_, ?_⟩
    · cases hchecked : call.next.checked with
      | true =>
        rw [proceed_lockedOut hchecked, clear call hcall]
        exact Bool.noConfusion
      | false => exact proceed_unchecked hchecked (fun heq => inv.fills call hmem (.inr (.inr heq))) inv.usable
    · intro other hother hrepair
      simp only at hother
      split at hother
      · exact inv.fills other (List.mem_of_mem_filter hother) hrepair
      · next later hlater =>
        rcases Keyed.get?_set_cases (Keyed.mem_values.mp hother) with ⟨_, rfl⟩ | ⟨_, hold⟩
        · exact repairs hlater (inv.fills call hmem) hrepair
        · exact inv.fills other (Keyed.mem_values.mpr hold) hrepair
  | abandon id =>
    rw [← Option.some.inj hstep]
    exact ⟨inv.usable, fun call hcall => inv.fills call (List.mem_of_mem_filter hcall)⟩

end Open

/-- An environment that sets nothing. -/
def noEnv : Env := ⟨[], none⟩

/-- One provider is saved, and everyone may use a password. -/
def oneProvider : Settings :=
  ⟨some [⟨"google", "oidc", "Google", "google", "https://accounts.example.org", "client", "secret"⟩],
    some .everyone, true⟩

/-- Password sign-in is restricted, and then the last provider is to go. -/
def oneAfterOther : List Label :=
  [.savePassword 1 .admins, .proceed 1, .saveProviders 2 [], .proceed 2]

/-- The last provider goes between the check of the password setting and its write. -/
def overtaken : List Label :=
  [.savePassword 1 .admins, .saveProviders 2 [], .proceed 2, .proceed 2, .proceed 1]

end Stoop.Instance
