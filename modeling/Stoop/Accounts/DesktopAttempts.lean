import Mathlib.Data.List.Nodup
import Mathlib.Logic.Function.Basic
import Stoop.Lib.Machine
import Stoop.Accounts.DesktopAuth

/-!
# Desktop attempts, used once

The requests of any number of desktop round trips, in any order, with whatever ids, codes and verifiers
their callers bring. A store's operation is one step; what a request does between two of them touches no
store, and is one step with the one before or after. An entry lapses or is evicted at any time, which is
also what a restart does; a request may stop anywhere, for its caller left or a store failed.

A token drawn is none drawn before, and a callback's cookie is one that was issued: the two assumptions.

## Main result

* `attempt_used_once`: after every run each attempt was claimed at most once and minted at most one code,
  and each code gave at most one session, link or reauth, to a caller with the verifier of the attempt's
  challenge and of the kind the attempt was started for.

An attempt is in one place at a time (`Sound.attempt`, `Sound.minting`), and so is a code that can still
be completed (`Sound.code`, `Sound.redeemed`); a step moves it on or loses it.
-/

set_option autoImplicit false

namespace Stoop.Accounts.Desktop

open Stoop.Lib

/-! ## The machine -/

/-- A request between two of its steps. -/
inductive Request
  /-- `oidcStart`, its attempt claimed -/
  | starting (q : StartQuery) (att : Option DesktopAttempt)
  /-- `mint`, the attempt taken and its code not stored -/
  | minting (id : Token) (a : DesktopAttempt) (out : Learned)
  /-- `desktopComplete`, its code redeemed -/
  | redeemed (code verifier : String) (c : DesktopCode) (confirm : Bool)
  deriving DecidableEq, Repr

/-- What gave an outcome: a code, to the caller of a verifier, or a callback, to its browser. -/
inductive Giver
  | code (code verifier : String)
  | callback (st : LoginState)
  deriving DecidableEq, Repr

structure Given where
  giver : Giver
  outcome : Outcome
  deriving DecidableEq, Repr

def Given.code? (given : Given) : Option Token :=
  match given.giver with
  | .code code _ => some code
  | .callback _ => none

/-- What was done: the attempts started, by id, the ids claimed, the codes minted for an id, and the
outcomes. Only the tokens drawn are compared with it. -/
structure Log where
  started : List (Token × DesktopAttempt)
  claimed : List Token
  minted : List (Token × Token)
  given : List Given
  deriving DecidableEq, Repr

structure State where
  attempts : Token → Option DesktopAttempt
  codes : Token → Option DesktopCode
  cookies : List LoginState
  requests : Nat → Option Request
  log : Log

namespace State

def start : State := ⟨fun _ => none, fun _ => none, [], fun _ => none, ⟨[], [], [], []⟩⟩

def putAttempt (s : State) (id : Token) (a : Option DesktopAttempt) : State :=
  { s with attempts := Function.update s.attempts id a }

def putCode (s : State) (code : Token) (c : Option DesktopCode) : State :=
  { s with codes := Function.update s.codes code c }

def putRequest (s : State) (n : Nat) (r : Option Request) : State :=
  { s with requests := Function.update s.requests n r }

/-- `drop`, for the attempt of a round trip that has one. -/
def drop (s : State) : Option Token → State
  | some id => s.putAttempt id none
  | none => s

/-- An outcome, if there is one, on the record. -/
def give (s : State) (giver : Giver) : Option Outcome → State
  | some outcome => { s with log := { s.log with given := ⟨giver, outcome⟩ :: s.log.given } }
  | none => s

end State

structure CompleteRequest where
  code : String
  verifier : String
  confirm : Bool := false
  deriving DecidableEq, Repr

/-- One step; `n` is the request it belongs to where that has more than one. -/
inductive Label
  | desktopStart (id : Token) (req : DesktopStartRequest) (a : StartAnswers)
  | claim (n : Nat) (q : StartQuery)
  | oidcStart (n : Nat) (state : Token) (a : StartAnswers)
  | oidcCallback (n : Nat) (st : LoginState) (r : CallbackRequest) (a : CallbackAnswers)
  | storeCode (n : Nat) (code : Token)
  | redeem (n : Nat) (req : CompleteRequest)
  | desktopComplete (n : Nat) (a : CompleteAnswers)
  | forgetAttempt (id : Token)
  | forgetCode (code : Token)

section Machine

variable (digest : String → String)

def State.step (s : State) : Label → Option State
  | .desktopStart id req a =>
    match desktopStart req a with
    | .error _ => some s
    | .ok attempt =>
      if id ∈ s.log.started.map Prod.fst then none
      else some
        { s.putAttempt id (some attempt) with
          log := { s.log with started := (id, attempt) :: s.log.started } }
  | .claim n q =>
    if (s.requests n).isSome then none
    else
      match q.attempt with
      | none => some (s.putRequest n (some (.starting q none)))
      | some id =>
        match claim q.provider (s.attempts id) with
        | (kept, none) => some (s.putAttempt id kept)
        | (kept, some a) =>
          some
            { (s.putAttempt id kept).putRequest n (some (.starting q (some a))) with
              log := { s.log with claimed := id :: s.log.claimed } }
  | .oidcStart n state a =>
    match s.requests n with
    | some (.starting q att) =>
      match oidcStart q att state a with
      | .error _ => some ((s.putRequest n none).drop q.attempt)
      | .ok st => some { s.putRequest n none with cookies := st :: s.cookies }
    | _ => none
  | .oidcCallback n st r a =>
    if st ∉ s.cookies ∨ (s.requests n).isSome then none
    else
      match oidcCallback st r a with
      | .failed _ => some (s.drop st.attempt)
      | .refused _ => some s
      | .handOff id out =>
        match mint st.provider (s.attempts id) with
        | (kept, none) => some (s.putAttempt id kept)
        | (kept, some a) => some ((s.putAttempt id kept).putRequest n (some (.minting id a out)))
      | .yielded outcome => some (s.give (.callback st) outcome)
  | .storeCode n code =>
    match s.requests n with
    | some (.minting id a out) =>
      if code ∈ s.log.minted.map Prod.snd then none
      else some
        { (s.putRequest n none).putCode code (some { out with attempt := a }) with
          log := { s.log with minted := (id, code) :: s.log.minted } }
    | _ => none
  | .redeem n req =>
    if (s.requests n).isSome then none
    else
      match redeem digest req.verifier req.confirm (s.codes req.code) with
      | (kept, none) => some (s.putCode req.code kept)
      | (kept, some c) =>
        some ((s.putCode req.code kept).putRequest n (some (.redeemed req.code req.verifier c req.confirm)))
  | .desktopComplete n a =>
    match s.requests n with
    | some (.redeemed code verifier c confirm) =>
      match desktopComplete c confirm a with
      | .error _ => some (s.putRequest n none)
      | .ok outcome => some ((s.putRequest n none).give (.code code verifier) outcome)
    | _ => none
  | .forgetAttempt id => some (s.putAttempt id none)
  | .forgetCode code => some (s.putCode code none)

end Machine

/-! ## What is to hold -/

/-- The attempt began under the id. -/
def Log.Began (log : Log) (id : Token) (a : DesktopAttempt) : Prop :=
  (id, { a with claimed := false }) ∈ log.started

/-- The code was minted for the attempt. -/
def Log.MintedFor (log : Log) (code : Token) (a : DesktopAttempt) : Prop :=
  ∃ id, (id, code) ∈ log.minted ∧ log.Began id a

/-- An outcome is in order: a code's came to a caller with the verifier of the challenge its attempt was
started with, and is what that attempt was started for; a callback's has no attempt to it. -/
def Log.InOrder (digest : String → String) (log : Log) (given : Given) : Prop :=
  match given.giver with
  | .code code verifier =>
    ∃ id a, (id, code) ∈ log.minted ∧ (id, a) ∈ log.started ∧ a.matches digest verifier = true ∧
      a.Fits given.outcome
  | .callback st => st.attempt = none

/-- **Used once**: an id is one attempt's, claimed at most once and with at most one code; a code is one
attempt's and gives at most one outcome; and the outcomes are in order. -/
structure Log.UsedOnce (digest : String → String) (log : Log) : Prop where
  started : (log.started.map Prod.fst).Nodup
  claimed : log.claimed.Nodup
  minted : (log.minted.map Prod.fst).Nodup
  codes : (log.minted.map Prod.snd).Nodup
  given : (log.given.filterMap Given.code?).Nodup
  inOrder : ∀ given ∈ log.given, log.InOrder digest given

/-! ## The invariant -/

/-- A redeemed code that its completion spends: not a link's preview. -/
def Spends (c : DesktopCode) (confirm : Bool) : Prop := c.attempt.isLink = true → confirm = true

/-- What a request at work holds: an attempt being minted is nobody else's, and so is a code to be spent. -/
def State.Holds (digest : String → String) (s : State) (n : Nat) : Request → Prop
  | .starting q att =>
    ∀ id, q.attempt = some id → ∃ a, att = some a ∧ s.log.Began id a
  | .minting id a out =>
    s.attempts id = none ∧ id ∉ s.log.minted.map Prod.fst ∧ s.log.Began id a ∧
      out.userId.isSome = a.signsIn ∧
      ∀ m a' out', s.requests m = some (.minting id a' out') → m = n
  | .redeemed code verifier c confirm =>
    s.log.MintedFor code c.attempt ∧ c.attempt.matches digest verifier = true ∧
      (Spends c confirm → s.codes code = none ∧ code ∉ s.log.given.filterMap Given.code? ∧
        ∀ m verifier' c' confirm', s.requests m = some (.redeemed code verifier' c' confirm') →
          Spends c' confirm' → m = n)

/-- Where each attempt and each code is. -/
structure Sound (digest : String → String) (s : State) : Prop extends s.log.UsedOnce digest where
  claimedStarted : ∀ id ∈ s.log.claimed, id ∈ s.log.started.map Prod.fst
  mintedStarted : ∀ id ∈ s.log.minted.map Prod.fst, id ∈ s.log.started.map Prod.fst
  attempt : ∀ id a, s.attempts id = some a →
    s.log.Began id a ∧ (a.claimed = false → id ∉ s.log.claimed) ∧ id ∉ s.log.minted.map Prod.fst
  cookie : ∀ st ∈ s.cookies, ∀ id, st.attempt = some id → ∃ a, s.log.Began id a ∧ st.signsIn = a.signsIn
  code : ∀ code c, s.codes code = some c →
    s.log.MintedFor code c.attempt ∧ c.userId.isSome = c.attempt.signsIn ∧
      code ∉ s.log.given.filterMap Given.code?
  request : ∀ n r, s.requests n = some r → s.Holds digest n r

section Keeping

variable {digest : String → String} {s s' : State}

theorem Sound.start : Sound digest State.start where
  started := List.nodup_nil
  claimed := List.nodup_nil
  minted := List.nodup_nil
  codes := List.nodup_nil
  given := List.nodup_nil
  inOrder _ h := absurd h List.not_mem_nil
  claimedStarted _ h := absurd h List.not_mem_nil
  mintedStarted _ h := absurd h List.not_mem_nil
  attempt _ _ h := by cases h
  cookie _ h := absurd h List.not_mem_nil
  code _ _ h := by cases h
  request _ _ h := by cases h

/-! ### Stores -/

/-- What stands under a key of a store that was written once. -/
theorem update_cases {α β : Type} [DecidableEq α] {f : α → Option β} {key k : α} {v : Option β} {x : β}
    (h : Function.update f key v k = some x) : (k = key ∧ v = some x) ∨ (k ≠ key ∧ f k = some x) := by
  by_cases hk : k = key
  · subst hk
    exact .inl ⟨rfl, by rwa [Function.update_self] at h⟩
  · exact .inr ⟨hk, by rwa [Function.update_of_ne hk] at h⟩

theorem update_none {α β : Type} [DecidableEq α] {f : α → Option β} {key k : α} {x : β}
    (h : Function.update f key none k = some x) : k ≠ key ∧ f k = some x := by
  rcases update_cases h with ⟨-, h⟩ | h
  · cases h
  · exact h

theorem none_of_fewer {α β : Type} {f g : α → Option β} (h : ∀ k x, g k = some x → f k = some x)
    {k : α} (hnone : f k = none) : g k = none := by
  cases hg : g k with
  | none => rfl
  | some x => exact absurd (hnone.symm.trans (h k x hg)) nofun

/-! ### What lapses, is dropped or is left off -/

/-- A state with nothing new in it, and the same done. -/
structure Fewer (s s' : State) : Prop where
  attempts : ∀ id a, s'.attempts id = some a → s.attempts id = some a
  codes : ∀ code c, s'.codes code = some c → s.codes code = some c
  requests : ∀ n r, s'.requests n = some r → s.requests n = some r
  cookies : ∀ st ∈ s'.cookies, st ∈ s.cookies
  log : s'.log = s.log

theorem Fewer.refl (s : State) : Fewer s s :=
  ⟨fun _ _ h => h, fun _ _ h => h, fun _ _ h => h, fun _ h => h, rfl⟩

theorem Fewer.trans {s'' : State} (h : Fewer s s') (h' : Fewer s' s'') : Fewer s s'' where
  attempts id a hid := h.attempts id a (h'.attempts id a hid)
  codes code c hcode := h.codes code c (h'.codes code c hcode)
  requests n r hn := h.requests n r (h'.requests n r hn)
  cookies st hst := h.cookies st (h'.cookies st hst)
  log := h'.log.trans h.log

theorem fewer_attempt (s : State) (id : Token) : Fewer s (s.putAttempt id none) :=
  { Fewer.refl s with attempts := fun _ _ h => (update_none h).2 }

theorem fewer_code (s : State) (code : Token) : Fewer s (s.putCode code none) :=
  { Fewer.refl s with codes := fun _ _ h => (update_none h).2 }

theorem fewer_request (s : State) (n : Nat) : Fewer s (s.putRequest n none) :=
  { Fewer.refl s with requests := fun _ _ h => (update_none h).2 }

theorem fewer_drop (s : State) (id? : Option Token) : Fewer s (s.drop id?) := by
  cases id? with
  | some id => exact fewer_attempt s id
  | none => exact Fewer.refl s

theorem State.Holds.fewer {n : Nat} {r : Request} (h : s.Holds digest n r) (hfewer : Fewer s s') :
    s'.Holds digest n r := by
  obtain ⟨hattempts, hcodes, hrequests, -, hlog⟩ := hfewer
  cases r with
  | starting q att =>
    intro id hq
    obtain ⟨a, ha, began⟩ := h id hq
    exact ⟨a, ha, hlog ▸ began⟩
  | minting id a out =>
    obtain ⟨hgone, hminted, hbegan, huser, hone⟩ := h
    exact ⟨none_of_fewer hattempts hgone, hlog ▸ hminted, hlog ▸ hbegan, huser,
      fun m a' out' hm => hone m a' out' (hrequests m _ hm)⟩
  | redeemed code verifier c confirm =>
    obtain ⟨hminted, hmatches, hspends⟩ := h
    refine ⟨hlog ▸ hminted, hmatches, fun h => ?_⟩
    obtain ⟨hgone, hgiven, hone⟩ := hspends h
    exact ⟨none_of_fewer hcodes hgone, hlog ▸ hgiven,
      fun m verifier' c' confirm' hm => hone m verifier' c' confirm' (hrequests m _ hm)⟩

theorem Sound.fewer (inv : Sound digest s) (h : Fewer s s') : Sound digest s' where
  toUsedOnce := h.log ▸ inv.toUsedOnce
  claimedStarted := h.log ▸ inv.claimedStarted
  mintedStarted := h.log ▸ inv.mintedStarted
  attempt id a hid := h.log ▸ inv.attempt id a (h.attempts id a hid)
  cookie st hst := h.log ▸ inv.cookie st (h.cookies st hst)
  code code c hcode := h.log ▸ inv.code code c (h.codes code c hcode)
  request n r hn := (inv.request n r (h.requests n r hn)).fewer h

/-! ### What is done stays done -/

theorem Log.MintedFor.mono {log log' : Log} {code : Token} {a : DesktopAttempt}
    (hstarted : log.started ⊆ log'.started) (hminted : log.minted ⊆ log'.minted)
    (h : log.MintedFor code a) : log'.MintedFor code a := by
  obtain ⟨id, hid, began⟩ := h
  exact ⟨id, hminted hid, hstarted began⟩

theorem Log.InOrder.mono {log log' : Log} {given : Given} (hstarted : log.started ⊆ log'.started)
    (hminted : log.minted ⊆ log'.minted) (h : log.InOrder digest given) : log'.InOrder digest given := by
  obtain ⟨giver, outcome⟩ := given
  cases giver with
  | code code verifier =>
    obtain ⟨id, a, hid, ha, hmatches, hfits⟩ := h
    exact ⟨id, a, hminted hid, hstarted ha, hmatches, hfits⟩
  | callback st => exact h

theorem Log.Began.mem {log : Log} {id : Token} {a : DesktopAttempt} (began : log.Began id a) :
    id ∈ log.started.map Prod.fst := List.mem_map_of_mem began

theorem Log.MintedFor.mem {log : Log} {code : Token} {a : DesktopAttempt} (h : log.MintedFor code a) :
    code ∈ log.minted.map Prod.snd := by
  obtain ⟨id, hid, -⟩ := h
  exact List.mem_map_of_mem hid

/-- An id is one attempt's, so it is of one kind. -/
theorem Log.Began.signsIn_eq {log : Log} {id : Token} {a a' : DesktopAttempt}
    (hnodup : (log.started.map Prod.fst).Nodup) (began : log.Began id a) (began' : log.Began id a') :
    a.signsIn = a'.signsIn := by
  have hsame := List.inj_on_of_nodup_map hnodup began began' rfl
  have hkind := congrArg (fun entry : Token × DesktopAttempt => entry.2.signsIn) hsame
  exact hkind

/-- A code that gave something was minted. -/
theorem Sound.given_minted (inv : Sound digest s) {code : Token}
    (h : code ∈ s.log.given.filterMap Given.code?) : code ∈ s.log.minted.map Prod.snd := by
  obtain ⟨⟨giver, outcome⟩, hmem, hcode⟩ := List.mem_filterMap.mp h
  cases giver with
  | code code' verifier =>
    obtain rfl := Option.some.inj hcode
    obtain ⟨id, a, hid, -⟩ := inv.inOrder _ hmem
    exact List.mem_map_of_mem hid
  | callback st => cases hcode

/-! ### Requests -/

/-- A request holds what it did beside one more, which holds nothing of its. -/
theorem State.Holds.put {n m : Nat} {r r' : Request} (h : s.Holds digest n r)
    (hm : s.requests m = some r') (h' : s.Holds digest m r') (hne : m ≠ n) :
    (s.putRequest n (some r)).Holds digest m r' := by
  cases r' with
  | starting q att => exact h'
  | minting id a out =>
    obtain ⟨hgone, hminted, began, huser, hone⟩ := h'
    refine ⟨hgone, hminted, began, huser, fun k a' out' hk => ?_⟩
    rcases update_cases hk with ⟨-, heq⟩ | ⟨-, hk⟩
    · obtain rfl := Option.some.inj heq
      exact absurd (h.2.2.2.2 m a out hm) hne
    · exact hone k a' out' hk
  | redeemed code verifier c confirm =>
    obtain ⟨hminted, hmatches, hspends⟩ := h'
    refine ⟨hminted, hmatches, fun hspent => ?_⟩
    obtain ⟨hgone, hgiven, hone⟩ := hspends hspent
    refine ⟨hgone, hgiven, fun k verifier' c' confirm' hk hspent' => ?_⟩
    rcases update_cases hk with ⟨-, heq⟩ | ⟨-, hk⟩
    · obtain rfl := Option.some.inj heq
      exact absurd ((h.2.2 hspent').2.2 m verifier c confirm hm hspent) hne
    · exact hone k verifier' c' confirm' hk hspent'

/-- It holds it itself. -/
theorem State.Holds.put_self {n : Nat} {r : Request} (h : s.Holds digest n r) :
    (s.putRequest n (some r)).Holds digest n r := by
  cases r with
  | starting q att => exact h
  | minting id a out =>
    obtain ⟨hgone, hminted, began, huser, hone⟩ := h
    refine ⟨hgone, hminted, began, huser, fun k a' out' hk => ?_⟩
    rcases update_cases hk with ⟨rfl, -⟩ | ⟨-, hk⟩
    · rfl
    · exact hone k a' out' hk
  | redeemed code verifier c confirm =>
    obtain ⟨hminted, hmatches, hspends⟩ := h
    refine ⟨hminted, hmatches, fun hspent => ?_⟩
    obtain ⟨hgone, hgiven, hone⟩ := hspends hspent
    refine ⟨hgone, hgiven, fun k verifier' c' confirm' hk hspent' => ?_⟩
    rcases update_cases hk with ⟨rfl, -⟩ | ⟨-, hk⟩
    · rfl
    · exact hone k verifier' c' confirm' hk hspent'

theorem Sound.putRequest (inv : Sound digest s) {n : Nat} {r : Request} (h : s.Holds digest n r) :
    Sound digest (s.putRequest n (some r)) := by
  refine { inv with request := fun m r' hm => ?_ }
  rcases update_cases hm with ⟨rfl, heq⟩ | ⟨hne, hm⟩
  · obtain rfl := Option.some.inj heq
    exact h.put_self
  · exact h.put hm (inv.request m r' hm) hne

/-! ### An attempt's life -/

/-- An attempt begins. -/
theorem Sound.began (inv : Sound digest s) {id : Token} {attempt : DesktopAttempt}
    (hfresh : id ∉ s.log.started.map Prod.fst) (hunclaimed : attempt.claimed = false) :
    Sound digest
      { s.putAttempt id (some attempt) with
        log := { s.log with started := (id, attempt) :: s.log.started } } := by
  have hgrows : s.log.started ⊆ (id, attempt) :: s.log.started := List.subset_cons_self _ _
  have hsame : { attempt with claimed := false } = attempt := by rw [← hunclaimed]
  refine
    { inv with
      started := List.nodup_cons.mpr ⟨hfresh, inv.started⟩
      inOrder := fun given h => (inv.inOrder given h).mono hgrows (List.Subset.refl _)
      claimedStarted := fun id' h => List.mem_cons_of_mem _ (inv.claimedStarted id' h)
      mintedStarted := fun id' h => List.mem_cons_of_mem _ (inv.mintedStarted id' h)
      attempt := fun id' a h => ?_
      cookie := fun st hst id' hid => ?_
      code := fun code c h => ?_
      request := fun n r hn => ?_ }
  · rcases update_cases h with ⟨rfl, heq⟩ | ⟨-, h⟩
    · obtain rfl := Option.some.inj heq
      refine ⟨?_, fun _ hclaimed => hfresh (inv.claimedStarted _ hclaimed),
        fun hminted => hfresh (inv.mintedStarted _ hminted)⟩
      simp only [Log.Began, hsame, List.mem_cons, true_or]
    · obtain ⟨began, hfree, hminted⟩ := inv.attempt id' a h
      exact ⟨hgrows began, hfree, hminted⟩
  · obtain ⟨a, began, hkind⟩ := inv.cookie st hst id' hid
    exact ⟨a, hgrows began, hkind⟩
  · obtain ⟨hminted, hrest⟩ := inv.code code c h
    exact ⟨hminted.mono hgrows (List.Subset.refl _), hrest⟩
  · have hholds := inv.request n r hn
    cases r with
    | starting q att =>
      intro id' hq
      obtain ⟨a, ha, began⟩ := hholds id' hq
      exact ⟨a, ha, hgrows began⟩
    | minting id' a out =>
      obtain ⟨hgone, hminted, began, hrest⟩ := hholds
      have hne : id' ≠ id := fun h => hfresh (h ▸ began.mem)
      exact ⟨(Function.update_of_ne hne ..).trans hgone, hminted, hgrows began, hrest⟩
    | redeemed code verifier c confirm =>
      obtain ⟨hminted, hrest⟩ := hholds
      exact ⟨hminted.mono hgrows (List.Subset.refl _), hrest⟩

/-- An attempt is claimed. -/
theorem Sound.claims (inv : Sound digest s) {id : Token} {a : DesktopAttempt}
    (ha : s.attempts id = some a) (hfree : a.claimed = false) :
    Sound digest
      { s.putAttempt id (some { a with claimed := true }) with
        log := { s.log with claimed := id :: s.log.claimed } } := by
  obtain ⟨began, hunclaimed, hminted⟩ := inv.attempt id a ha
  refine
    { inv with
      claimed := List.nodup_cons.mpr ⟨hunclaimed hfree, inv.claimed⟩
      claimedStarted := fun id' h => ?_
      attempt := fun id' a' h => ?_
      request := fun n r hn => ?_ }
  · rcases List.mem_cons.mp h with rfl | h
    · exact began.mem
    · exact inv.claimedStarted id' h
  · rcases update_cases h with ⟨rfl, heq⟩ | ⟨hne, h⟩
    · cases heq
      exact ⟨began, nofun, hminted⟩
    · obtain ⟨began', hunclaimed', hminted'⟩ := inv.attempt id' a' h
      refine ⟨began', fun hfree' hclaimed => ?_, hminted'⟩
      rcases List.mem_cons.mp hclaimed with rfl | hclaimed
      · exact hne rfl
      · exact hunclaimed' hfree' hclaimed
  · have hholds := inv.request n r hn
    cases r with
    | starting q att => exact hholds
    | minting id' a' out =>
      obtain ⟨hgone, hrest⟩ := hholds
      have hne : id' ≠ id := by
        rintro rfl
        cases hgone.symm.trans ha
      exact ⟨(Function.update_of_ne hne ..).trans hgone, hrest⟩
    | redeemed code verifier c confirm => exact hholds

/-- A callback takes its attempt. -/
theorem Sound.takes (inv : Sound digest s) {n : Nat} {id : Token} {a : DesktopAttempt} {out : Learned}
    (ha : s.attempts id = some a) (huser : out.userId.isSome = a.signsIn) :
    Sound digest ((s.putAttempt id none).putRequest n (some (.minting id a out))) := by
  obtain ⟨began, -, hminted⟩ := inv.attempt id a ha
  refine (inv.fewer (fewer_attempt s id)).putRequest
    ⟨Function.update_self .., hminted, began, huser, fun m a' out' hm => ?_⟩
  -- An attempt that stands in the store is nobody's.
  cases (inv.request m _ hm).1.symm.trans ha

/-- The code of a taken attempt is stored. -/
theorem Sound.stores (inv : Sound digest s) {n : Nat} {id code : Token} {a : DesktopAttempt}
    {out : Learned} (hn : s.requests n = some (.minting id a out))
    (hfresh : code ∉ s.log.minted.map Prod.snd) :
    Sound digest
      { (s.putRequest n none).putCode code (some { out with attempt := a }) with
        log := { s.log with minted := (id, code) :: s.log.minted } } := by
  obtain ⟨hgone, hminted, began, huser, hone⟩ := inv.request n _ hn
  have hstarted : s.log.started ⊆ s.log.started := List.Subset.refl _
  have hgrows : s.log.minted ⊆ (id, code) :: s.log.minted := List.subset_cons_self _ _
  refine
    { inv with
      minted := List.nodup_cons.mpr ⟨hminted, inv.minted⟩
      codes := List.nodup_cons.mpr ⟨hfresh, inv.codes⟩
      inOrder := fun given h => (inv.inOrder given h).mono hstarted hgrows
      mintedStarted := fun id' h => ?_
      attempt := fun id' a' h => ?_
      code := fun code' c h => ?_
      request := fun m r hm => ?_ }
  · rcases List.mem_cons.mp h with rfl | h
    · exact began.mem
    · exact inv.mintedStarted id' h
  · obtain ⟨began', hunclaimed, hminted'⟩ := inv.attempt id' a' h
    refine ⟨began', hunclaimed, fun hmem => ?_⟩
    rcases List.mem_cons.mp hmem with rfl | hmem
    · cases hgone.symm.trans h
    · exact hminted' hmem
  · rcases update_cases h with ⟨rfl, heq⟩ | ⟨-, h⟩
    · obtain rfl := Option.some.inj heq
      exact ⟨⟨id, List.mem_cons_self, began⟩, huser, fun hgiven => hfresh (inv.given_minted hgiven)⟩
    · obtain ⟨hminted', hrest⟩ := inv.code code' c h
      exact ⟨hminted'.mono hstarted hgrows, hrest⟩
  · obtain ⟨hne, hbefore⟩ := update_none hm
    have hholds := (inv.request m r hbefore).fewer (fewer_request s n)
    cases r with
    | starting q att => exact hholds
    | minting id' a' out' =>
      obtain ⟨hgone', hminted', hrest⟩ := hholds
      refine ⟨hgone', fun hmem => ?_, hrest⟩
      rcases List.mem_cons.mp hmem with rfl | hmem
      · exact hne (hone m a' out' hbefore)
      · exact hminted' hmem
    | redeemed code' verifier c confirm =>
      obtain ⟨hminted', hmatches, hspends⟩ := hholds
      refine ⟨hminted'.mono hstarted hgrows, hmatches, fun hspent => ?_⟩
      obtain ⟨hgone', hrest⟩ := hspends hspent
      have hcode : code' ≠ code := by
        rintro rfl
        exact hfresh hminted'.mem
      exact ⟨(Function.update_of_ne hcode ..).trans hgone', hrest⟩

/-! ### A code's life -/

/-- A code is redeemed: it goes, but for a link's preview. -/
theorem Sound.redeems (inv : Sound digest s) {n : Nat} {code verifier : String} {c : DesktopCode}
    {confirm : Bool} {kept : Option DesktopCode} (hcode : s.codes code = some c)
    (hmatches : c.attempt.matches digest verifier = true)
    (hkept : kept = if !confirm && c.attempt.isLink then some c else none) :
    Sound digest ((s.putCode code kept).putRequest n (some (.redeemed code verifier c confirm))) := by
  obtain ⟨hminted, -, hgiven⟩ := inv.code code c hcode
  cases hpreview : !confirm && c.attempt.isLink with
  | true =>
    have hstays : s.putCode code kept = s := by
      rw [hkept, if_pos hpreview, State.putCode, ← hcode, Function.update_eq_self]
    rw [hstays]
    refine inv.putRequest ⟨hminted, hmatches, fun hspent => ?_⟩
    obtain ⟨hconfirm, hlink⟩ := Bool.and_eq_true_iff.mp hpreview
    rw [hspent hlink] at hconfirm
    cases hconfirm
  | false =>
    have hgoes : kept = none := by rw [hkept, hpreview, if_neg Bool.false_ne_true]
    subst hgoes
    refine (inv.fewer (fewer_code s code)).putRequest ⟨hminted, hmatches, fun _ =>
      ⟨Function.update_self .., hgiven, fun m verifier' c' confirm' hm hspent => ?_⟩⟩
    -- A code that stands in the store is to be spent by nobody yet.
    cases ((inv.request m _ hm).2.2 hspent).1.symm.trans hcode

/-- A redeemed code gives what its attempt was for. -/
theorem Sound.gives (inv : Sound digest s) {n : Nat} {code verifier : String} {c : DesktopCode}
    {confirm : Bool} {outcome : Outcome} (hn : s.requests n = some (.redeemed code verifier c confirm))
    (hfits : c.attempt.Fits outcome) (hspent : Spends c confirm) :
    Sound digest ((s.putRequest n none).give (.code code verifier) (some outcome)) := by
  obtain ⟨⟨id, hid, began⟩, hmatches, hspends⟩ := inv.request n _ hn
  obtain ⟨hgone, hgiven, hone⟩ := hspends hspent
  have hcodes : ∀ code' c', s.codes code' = some c' → code' ≠ code := by
    rintro code' c' h rfl
    cases hgone.symm.trans h
  refine
    { inv with
      given := List.nodup_cons.mpr ⟨hgiven, inv.given⟩
      inOrder := fun given h => ?_
      code := fun code' c' h => ?_
      request := fun m r hm => ?_ }
  · rcases List.mem_cons.mp h with rfl | h
    · exact ⟨id, { c.attempt with claimed := false }, hid, began, hmatches, hfits⟩
    · exact inv.inOrder given h
  · obtain ⟨hminted, huser, hgiven'⟩ := inv.code code' c' h
    refine ⟨hminted, huser, fun hmem => ?_⟩
    rcases List.mem_cons.mp hmem with rfl | hmem
    · exact hcodes _ c' h rfl
    · exact hgiven' hmem
  · obtain ⟨hne, hbefore⟩ := update_none hm
    have hholds := (inv.request m r hbefore).fewer (fewer_request s n)
    cases r with
    | starting q att => exact hholds
    | minting id' a' out' => exact hholds
    | redeemed code' verifier' c' confirm' =>
      obtain ⟨hminted, hmatches', hspends'⟩ := hholds
      refine ⟨hminted, hmatches', fun hspent' => ?_⟩
      obtain ⟨hgone', hgiven', hone'⟩ := hspends' hspent'
      refine ⟨hgone', fun hmem => ?_, hone'⟩
      rcases List.mem_cons.mp hmem with rfl | hmem
      · exact hne (hone m verifier' c' confirm' hbefore hspent')
      · exact hgiven' hmem

/-- A round trip with no attempt gives its browser something. -/
theorem Sound.shows (inv : Sound digest s) {st : LoginState} {outcome : Outcome}
    (hnone : st.attempt = none) : Sound digest (s.give (.callback st) (some outcome)) := by
  refine { inv with
    inOrder := fun given h => ?_
    request := fun n r hn => ?_ }
  · rcases List.mem_cons.mp h with rfl | h
    · exact hnone
    · exact inv.inOrder given h
  · have hholds := inv.request n r hn
    cases r <;> exact hholds

/-! ### Every step -/

/-- A cookie is issued. -/
theorem Sound.issues (inv : Sound digest s) {n : Nat} {q : StartQuery} {att : Option DesktopAttempt}
    {state : Token} {a : StartAnswers} {st : LoginState} (hn : s.requests n = some (.starting q att))
    (hok : oidcStart q att state a = .ok st) :
    Sound digest { s.putRequest n none with cookies := st :: s.cookies } := by
  have inv' : Sound digest (s.putRequest n none) := inv.fewer (fewer_request s n)
  refine { inv' with
    cookie := fun st' hst id hid => ?_
    request := fun m r hm => ?_ }
  · rcases List.mem_cons.mp hst with rfl | hst
    · have hq : q.attempt = some id := (oidcStart_attempt hok).symm.trans hid
      obtain ⟨att', rfl, began⟩ := inv.request n _ hn id hq
      exact ⟨att', began, (oidcStart_ok hq hok).2⟩
    · exact inv.cookie st' hst id hid
  · have hholds := inv'.request m r hm
    cases r <;> exact hholds

/-- **The step lemma.** -/
theorem Sound.step (inv : Sound digest s) {label : Label} (h : s.step digest label = some s') :
    Sound digest s' := by
  cases label with
  | desktopStart id req a =>
    simp only [State.step] at h
    split at h
    · cases h
      exact inv
    next attempt hok =>
      split at h
      · cases h
      next hfresh =>
        cases h
        exact inv.began hfresh (desktopStart_unclaimed hok)
  | claim n q =>
    simp only [State.step] at h
    split at h
    · cases h
    split at h
    next hnone =>
      cases h
      exact inv.putRequest fun id hid => absurd (hnone.symm.trans hid) nofun
    next id hid =>
      rcases claim_cases q.provider (s.attempts id) with hclaim | ⟨a, ha, hfree, hclaim⟩
      · rw [hclaim] at h
        cases h
        rwa [State.putAttempt, Function.update_eq_self]
      · rw [hclaim] at h
        cases h
        refine (inv.claims ha hfree).putRequest fun id' hid' => ?_
        obtain rfl := Option.some.inj (hid.symm.trans hid')
        exact ⟨_, rfl, (inv.attempt id a ha).1⟩
  | oidcStart n state a =>
    simp only [State.step] at h
    split at h
    next q att hn =>
      split at h
      next =>
        cases h
        exact inv.fewer ((fewer_request s n).trans (fewer_drop _ _))
      next st hok =>
        cases h
        exact inv.issues hn hok
    next => cases h
  | oidcCallback n st r a =>
    simp only [State.step] at h
    split at h
    · cases h
    next hcookie =>
      obtain ⟨hissued, -⟩ := not_or.mp hcookie
      split at h
      next =>
        cases h
        exact inv.fewer (fewer_drop s _)
      next =>
        cases h
        exact inv
      next id out hend =>
        obtain ⟨hid, huser⟩ := oidcCallback_handOff hend
        rcases mint_cases st.provider (s.attempts id) with hmint | ⟨att, hatt, hmint⟩
        · rw [hmint] at h
          cases h
          exact inv.fewer (fewer_attempt s id)
        · rw [hmint] at h
          cases h
          obtain ⟨a', began', hkind⟩ := inv.cookie st (Decidable.not_not.mp hissued) id hid
          have began := (inv.attempt id att hatt).1
          exact inv.takes hatt (huser.trans (hkind.trans (began'.signsIn_eq inv.started began)))
      next outcome hend =>
        cases h
        cases outcome with
        | none => exact inv
        | some outcome => exact inv.shows (oidcCallback_yielded hend)
  | storeCode n code =>
    simp only [State.step] at h
    split at h
    next id a out hn =>
      split at h
      · cases h
      next hfresh =>
        cases h
        exact inv.stores hn hfresh
    next => cases h
  | redeem n req =>
    simp only [State.step] at h
    split at h
    · cases h
    rcases redeem_cases digest req.verifier req.confirm (s.codes req.code) with
      hredeem | ⟨c, hc, hmatches, hredeem⟩
    · rw [hredeem] at h
      cases h
      exact inv.fewer (fewer_code s req.code)
    · rw [hredeem] at h
      cases h
      exact inv.redeems hc hmatches rfl
  | desktopComplete n a =>
    simp only [State.step] at h
    split at h
    next code verifier c confirm hn =>
      split at h
      next =>
        cases h
        exact inv.fewer (fewer_request s n)
      next outcome hok =>
        cases h
        cases outcome with
        | none => exact inv.fewer (fewer_request s n)
        | some outcome =>
          obtain ⟨hfits, hspent⟩ := desktopComplete_ok hok
          exact inv.gives hn hfits hspent
    next => cases h
  | forgetAttempt id =>
    cases h
    exact inv.fewer (fewer_attempt s id)
  | forgetCode code =>
    cases h
    exact inv.fewer (fewer_code s code)

/-- The invariant of every run. -/
theorem Sound.run (h : Runs (State.step digest) Always State.start s) : Sound digest s :=
  @Runs.keeps _ _ _ _ _ _ (Sound digest) Sound.start (fun _ _ _ inv _ hstep => inv.step hstep) h

end Keeping

/-- **Attempts are used once, by the one who started them.** -/
theorem attempt_used_once (digest : String → String) {s : State}
    (h : Runs (State.step digest) Always State.start s) : s.log.UsedOnce digest :=
  (Sound.run h).toUsedOnce

/-- A code holds whom to sign in exactly where its attempt is to sign in. -/
theorem code_holds {digest : String → String} {s : State}
    (h : Runs (State.step digest) Always State.start s) {code : Token} {c : DesktopCode}
    (hc : s.codes code = some c) : c.userId.isSome = c.attempt.signsIn :=
  ((Sound.run h).code code c hc).2.1

/-! ### A link, previewed and confirmed -/

def verifier : String := "AAAAAAAAAAAAAAAAAAAAAAAAAAAAAAAAAAAAAAAAAAA"

def ada : Identified := ⟨"ada", "session"⟩

/-- A link from its start to its end: the code is previewed, confirmed, and presented once more. -/
def linked : List Label :=
  [.desktopStart "attempt"
      { provider := "google", challenge := verifier, method := "plain", link := true }
      { session := .session ada },
    .claim 0 { provider := "google", attempt := some "attempt", link := true },
    .oidcStart 0 "state" {},
    .oidcCallback 0
      { provider := "google", state := "state", linkUserId := some "ada", sessionId := some "session"
        attempt := some "attempt" }
      { provider := "google", state := "state", code := "exchange" }
      { claims := some { subject := "subject" } },
    .storeCode 0 "code",
    .redeem 0 { code := "code", verifier := verifier },
    .desktopComplete 0 { session := .session ada },
    .redeem 0 { code := "code", verifier := verifier, confirm := true },
    .desktopComplete 0 { session := .session ada, social := { session := .session ada } },
    .redeem 0 { code := "code", verifier := verifier, confirm := true }]

def stateAfter (labels : List Label) : State :=
  (runList (State.step id) State.start labels).getD State.start

theorem linked_used_once :
    (stateAfter linked).log.UsedOnce id ∧
      (stateAfter linked).log.given = [⟨.code "code" verifier, .link "ada"⟩] :=
  ⟨attempt_used_once id (Runs.ofList linked (EachStep.always _ _) rfl), by decide +kernel⟩

end Stoop.Accounts.Desktop
