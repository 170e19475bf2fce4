import Mathlib.Data.List.Infix
import Mathlib.Order.Basic
import Stoop.Lib.Machine
import Stoop.Lib.Keyed

/-!
# The login lockout

`loginGuard` keeps a handle's failures in a store and locks it from the fifth on. An attempt checks the
lock, waits for a hash slot, compares, and records a failure or a success (`internal/auth/lockout.go`,
`sessions.go`, `hashing.go`); each of these is a step here, so any number of attempts on one handle
interleave, with time passing in between. `accountPasswordMatches` takes the same steps. What becomes of
other handles matters only where their entries take this one's room, or one another's slots.

The check counts the failures recorded, not the attempts it has let in: any number let in at once all
compare. `guesses_bounded` is the runs in which the attempts on their way to their record leave room
(`RoomLeft`), and `guessed_at_once` one in which six are let in.
-/

set_option autoImplicit false

namespace Stoop.Accounts.Lockout

open Stoop.Lib

/-! ## The guard -/

def lockoutThreshold : Nat := 5

/-- Durations are in nanoseconds. -/
def second : Nat := 1000000000

def lockoutBase : Nat := 30 * second
def lockoutMax : Nat := 15 * 60 * second
def lockoutIdle : Nat := 60 * 60 * second

structure LoginEntry where
  failures : Nat
  lockedUntil : Nat
  deriving DecidableEq, Repr

/-- An entry in the store, and when it lapses. -/
structure Stored where
  entry : LoginEntry
  expires : Nat
  deriving DecidableEq, Repr

/-- How long the failure that makes `failures` locks: a shift of a 64-bit duration, held to the maximum
where it is past it or has run over. -/
def lockDelay (failures : Nat) : Nat :=
  let delay := (BitVec.ofNat 64 lockoutBase <<< (failures - lockoutThreshold)).toInt
  if delay > lockoutMax ∨ delay ≤ 0 then lockoutMax else delay.toNat

theorem lockDelay_pos (failures : Nat) : 0 < lockDelay failures := by
  simp only [lockDelay]
  split
  · decide
  · next h =>
    exact Int.pos_iff_toNat_pos.mp (Int.not_le.mp (not_or.mp h).2)

/-- The entry of `failure`: one failure more, and locked from the threshold on. -/
def failed (now : Nat) (entry : LoginEntry) : LoginEntry :=
  let failures := entry.failures + 1
  if lockoutThreshold ≤ failures then ⟨failures, now + lockDelay failures⟩
  else { entry with failures := failures }

/-! ## Passwords -/

section Passwords

-- what a password is kept as, and the library's comparison
variable {Hash : Type} (comparePasswordAndHash : String → Hash → Bool) (dummyHash : Hash)

/-- What sign-in reads of an account: a bot never signs in, and one made by a provider may have no
password. -/
structure Account (Hash : Type) where
  person : Bool
  passwordHash : Option Hash

/-- Whether a password signs in. An account that is not there, a bot's, and one with no password are
compared with the dummy hash, and refused. -/
def signsIn (account : Option (Account Hash)) (password : String) : Bool :=
  let person := account.any (·.person)
  let hash := if person then (account.bind (·.passwordHash)).getD dummyHash else dummyHash
  let matched := comparePasswordAndHash password hash
  person && (account.bind (·.passwordHash)).isSome && matched

end Passwords

/-! ## Attempts -/

/-- Where an attempt the check let in is. -/
inductive Stage
  /-- queued for a hash slot -/
  | queued
  /-- its hash is running -/
  | hashing
  /-- compared: what the comparison said is yet to be recorded -/
  | compared (right : Bool)
  deriving DecidableEq, Repr

structure Attempt where
  id : Nat
  stage : Stage
  deriving DecidableEq, Repr

/-- A wrong password compared and not yet counted. -/
def Attempt.uncounted (attempt : Attempt) : Bool := attempt.stage == .compared false

/-- The clock, the handle's entry, and the attempts on their way to their record. -/
structure Guard where
  now : Nat
  stored : Option Stored
  attempts : Keyed Attempt.id

namespace Guard

/-- The store drops an entry once it has lapsed: nothing lapsed is read. -/
def live (g : Guard) : Option LoginEntry :=
  (g.stored.filter fun s => decide (g.now < s.expires)).map (·.entry)

/-- The failures on record. -/
def failures (g : Guard) : Nat := (g.live.map (·.failures)).getD 0

/-- `check` refuses: there is time to wait. -/
def locked (g : Guard) : Bool := g.live.any fun entry => decide (g.now < entry.lockedUntil)

/-- How many hashes run for the handle. -/
def hashing (g : Guard) : Nat := g.attempts.values.countP (·.stage == .hashing)

/-- An attempt done with. -/
def without (g : Guard) (id : Nat) : Guard :=
  { g with attempts := g.attempts.filter fun attempt => attempt.id != id }

/-- `failure`: the entry as it reads, with one failure more, for another hour. -/
def failure (g : Guard) : Guard :=
  { g with stored := some ⟨failed g.now (g.live.getD ⟨0, 0⟩), g.now + lockoutIdle⟩ }

/-- `success`: the history goes. -/
def success (g : Guard) : Guard := { g with stored := none }

end Guard

/-- How many hashes run at once, whoever they are for. -/
def defaultHashSlots : Nat := 4

/-- One step; `compare` carries the account as it was read and the password sent. -/
inductive Label (Hash : Type)
  | tick (span : Nat)
  | check (id : Nat)
  | takeSlot (id : Nat)
  /-- the caller has gone, the server is busy, the account could not be read -/
  | leave (id : Nat)
  | compare (id : Nat) (account : Option (Account Hash)) (password : String)
  | record (id : Nat)
  /-- a completed password reset: `success`, with no attempt -/
  | reset
  /-- the store, full, gives the entry's room to another handle's -/
  | evict

section Steps

variable {Hash : Type} (comparePasswordAndHash : String → Hash → Bool) (dummyHash : Hash)

def Guard.step (g : Guard) : Label Hash → Option Guard
  | .tick span => some { g with now := g.now + span }
  | .check id =>
    if g.attempts.has id then none
    else if g.locked then some g
    else some { g with attempts := g.attempts.set ⟨id, .queued⟩ }
  | .takeSlot id =>
    match g.attempts.get? id with
    | some ⟨_, .queued⟩ =>
      if g.hashing < defaultHashSlots then some { g with attempts := g.attempts.set ⟨id, .hashing⟩ } else none
    | _ => none
  | .leave id =>
    match g.attempts.get? id with
    | some ⟨_, .queued⟩ => some (g.without id)
    | _ => none
  | .compare id account password =>
    match g.attempts.get? id with
    | some ⟨_, .hashing⟩ =>
      let right := signsIn comparePasswordAndHash dummyHash account password
      some { g with attempts := g.attempts.set ⟨id, .compared right⟩ }
    | _ => none
  | .record id =>
    match g.attempts.get? id with
    | some ⟨_, .compared true⟩ => some (g.success.without id)
    | some ⟨_, .compared false⟩ => some (g.failure.without id)
    | _ => none
  | .reset => some g.success
  | .evict => some { g with stored := none }

/-! ## What happened -/

inductive Event
  /-- a password compared, right or wrong, with the handle locked or not -/
  | compared (right locked : Bool)
  /-- the failure recorded locks the handle -/
  | locks
  | success
  /-- the store dropped the entry: evicted, or an hour old -/
  | dropped
  deriving DecidableEq, Repr

/-- What a step does, as the claim counts it. -/
def events (g : Guard) : Label Hash → List Event
  | .tick span =>
    if g.live.isSome && { g with now := g.now + span }.live.isNone then [.dropped] else []
  | .compare _ account password =>
    [.compared (signsIn comparePasswordAndHash dummyHash account password) g.locked]
  | .record id =>
    match g.attempts.get? id with
    | some ⟨_, .compared true⟩ => [.success]
    | some ⟨_, .compared false⟩ => if g.failure.locked then [.locks] else []
    | _ => []
  | .reset => [.success]
  | .evict => if g.live.isSome then [.dropped] else []
  | _ => []

end Steps

/-- The wrong passwords compared before the handle locks. -/
def wrongBeforeLock : List Event → Nat
  | [] => 0
  | .locks :: _ => 0
  | .compared false _ :: rest => wrongBeforeLock rest + 1
  | _ :: rest => wrongBeforeLock rest

/-- Guessing is bounded: between two successes, with nothing dropped, at most the threshold's number of
wrong passwords are compared before the handle locks; and none is compared while it is locked. -/
structure Bounded (past : List Event) : Prop where
  guesses : ∀ stretch, stretch <:+: past → .success ∉ stretch → .dropped ∉ stretch →
    wrongBeforeLock stretch ≤ lockoutThreshold
  unlocked : ∀ right, .compared right true ∉ past

/-- Every attempt the check lets in is alone on its way, or leaves the failures on record and the attempts
on their way under the threshold. -/
def RoomLeft {Hash : Type} (g : Guard) : Label Hash → Prop
  | .check _ => g.attempts.values = [] ∨ g.failures + g.attempts.values.length < lockoutThreshold
  | _ => True

instance {Hash : Type} (g : Guard) : (a : Label Hash) → Decidable (RoomLeft g a)
  | .check _ => inferInstanceAs (Decidable (_ ∨ _))
  | .tick _ | .takeSlot _ | .leave _ | .compare _ _ _ | .record _ | .reset | .evict =>
    inferInstanceAs (Decidable True)

/-! ## Counting -/

/-- Wrong passwords compared since the last lock, success or dropped entry. -/
def tallied (n : Nat) : Event → Nat
  | .compared false _ => n + 1
  | .compared true _ => n
  | .locks | .success | .dropped => 0

def tally (past : List Event) : Nat := past.foldl tallied 0

/-- A stretch with no success and no dropped entry holds no more wrong passwords before a lock than the
tally comes to within it. -/
theorem wrongBeforeLock_le {bound : Nat} {stretch : List Event} {n : Nat}
    (h : ∀ q, q <+: stretch → q.foldl tallied n ≤ bound) (hsuccess : .success ∉ stretch)
    (hdropped : .dropped ∉ stretch) : wrongBeforeLock stretch + n ≤ bound := by
  induction stretch generalizing n with
  | nil =>
    have := h [] List.nil_prefix
    simpa [wrongBeforeLock] using this
  | cons e rest ih =>
    have hrest : ∀ q, q <+: rest → q.foldl tallied (tallied n e) ≤ bound := fun q hq =>
      h (e :: q) ((List.prefix_cons_inj e).mpr hq)
    have hs : .success ∉ rest := fun hmem => hsuccess (List.mem_cons_of_mem _ hmem)
    have hd : .dropped ∉ rest := fun hmem => hdropped (List.mem_cons_of_mem _ hmem)
    cases e with
    | compared right locked =>
      have := ih hrest hs hd
      cases right <;> simp only [wrongBeforeLock, tallied] at * <;> omega
    | locks =>
      have := h [] List.nil_prefix
      simpa [wrongBeforeLock] using this
    | success => exact absurd List.mem_cons_self hsuccess
    | dropped => exact absurd List.mem_cons_self hdropped

/-! ## What a step does to the entry -/

variable {g : Guard}

theorem live_failure : g.failure.live = some (failed g.now (g.live.getD ⟨0, 0⟩)) := by
  have : g.now < g.now + lockoutIdle := Nat.lt_add_of_pos_right (by decide)
  simp [Guard.failure, Guard.live, this]

theorem failures_failure : g.failure.failures = g.failures + 1 := by
  simp only [Guard.failures, live_failure, failed, Option.map_some, Option.getD_some]
  cases g.live with
  | none => rfl
  | some entry => split <;> rfl

/-- A failure of a handle that is not locked locks it from the threshold on. -/
theorem locked_failure (h : g.locked = false) :
    g.failure.locked = decide (lockoutThreshold ≤ g.failures + 1) := by
  have hfailures : g.failures = (g.live.getD ⟨0, 0⟩).failures := by
    rw [Guard.failures]
    cases g.live <;> rfl
  have huntil : (g.live.getD ⟨0, 0⟩).lockedUntil ≤ g.now := by
    cases hlive : g.live with
    | none => exact Nat.zero_le _
    | some entry =>
      rw [Guard.locked, hlive] at h
      exact Nat.not_lt.mp (of_decide_eq_false h)
  rw [Guard.locked, live_failure, hfailures, Option.any_some]
  change decide (g.now < _) = _
  rw [decide_eq_decide, failed]
  split
  · next hthreshold =>
    exact iff_of_true (Nat.lt_add_of_pos_right (lockDelay_pos _)) hthreshold
  · next hthreshold => exact iff_of_false (Nat.not_lt.mpr huntil) hthreshold

/-- Time passes: the entry reads as it did, or has lapsed. -/
theorem live_tick (g : Guard) (span : Nat) :
    ({ g with now := g.now + span } : Guard).live = g.live ∨
      ({ g with now := g.now + span } : Guard).live = none := by
  simp only [Guard.live]
  cases g.stored with
  | none => exact .inl rfl
  | some s =>
    by_cases hlapsed : g.now + span < s.expires
    · have hbefore : g.now < s.expires := Nat.lt_of_le_of_lt (Nat.le_add_right _ _) hlapsed
      exact .inl (by simp only [Option.filter, hlapsed, hbefore, decide_true])
    · exact .inr (by simp only [Option.filter, hlapsed, decide_false]; rfl)

theorem failures_of_live_none (h : g.live = none) : g.failures = 0 := by rw [Guard.failures, h]; rfl

theorem locked_of_live_none (h : g.live = none) : g.locked = false := by rw [Guard.locked, h]; rfl

/-! ## What a step can do -/

/-- The wrong passwords compared and not yet counted. -/
def Guard.uncounted (g : Guard) : Nat := g.attempts.values.countP Attempt.uncounted

/-- How many attempts are on their way to their record. -/
def Guard.onTheWay (g : Guard) : Nat := g.attempts.values.length

theorem onTheWay_set {attempt held : Attempt} (h : g.attempts.get? attempt.id = some held) :
    (g.attempts.set attempt).values.length = g.onTheWay := by
  have := Keyed.countP_set (fun _ => true) h
  simp only [List.countP_true, if_true, Nat.add_right_cancel_iff] at this
  exact this

theorem uncounted_set (attempt : Attempt) {held : Attempt} (h : g.attempts.get? attempt.id = some held) :
    (g.attempts.set attempt).values.countP Attempt.uncounted + (if held.uncounted then 1 else 0) =
      g.uncounted + if attempt.uncounted then 1 else 0 :=
  Keyed.countP_set _ h

/-- An attempt done with: one fewer on its way. -/
theorem onTheWay_without {attempt : Attempt} {id : Nat} (h : g.attempts.get? id = some attempt) :
    g.onTheWay = (g.without id).onTheWay + 1 := by
  have := Keyed.countP_filter_ne (fun _ => true) h
  simp only [List.countP_true, if_true] at this
  exact this

theorem uncounted_without {attempt : Attempt} {id : Nat} (h : g.attempts.get? id = some attempt) :
    g.uncounted = (g.without id).uncounted + if attempt.uncounted then 1 else 0 :=
  Keyed.countP_filter_ne _ h

variable {Hash : Type} {comparePasswordAndHash : String → Hash → Bool} {dummyHash : Hash}

/-- What a step can do: to what the handle's entry reads as, to the attempts on their way, and what of it
is counted. -/
inductive Did (g g' : Guard) (a : Label Hash) : List Event → Prop
  | idle (live : g'.live = g.live) (now : g.now ≤ g'.now) (way : g'.onTheWay ≤ g.onTheWay)
      (uncounted : g'.uncounted = g.uncounted) : Did g g' a []
  | letIn (id : Nat) (label : a = .check id) (unlocked : g.locked = false) (live : g'.live = g.live)
      (now : g.now ≤ g'.now) (way : g'.onTheWay = g.onTheWay + 1) (uncounted : g'.uncounted = g.uncounted) :
      Did g g' a []
  | compared (right : Bool) (live : g'.live = g.live) (now : g.now ≤ g'.now) (some : 0 < g.onTheWay)
      (way : g'.onTheWay = g.onTheWay)
      (uncounted : g'.uncounted = g.uncounted + if right then 0 else 1) :
      Did g g' a [.compared right g.locked]
  | failed (live : g'.live = g.failure.live) (now : g'.now = g.now) (way : g.onTheWay = g'.onTheWay + 1)
      (uncounted : g.uncounted = g'.uncounted + 1) :
      Did g g' a (if g.failure.locked then [.locks] else [])
  | forgotten (e : Event) (event : e = .success ∨ e = .dropped) (live : g'.live = none)
      (way : g'.onTheWay ≤ g.onTheWay) (uncounted : g'.uncounted ≤ g.uncounted) : Did g g' a [e]

/-- An attempt set to another stage, with nothing else changed. -/
theorem did_stage {id : Nat} {stage stage' : Stage} {a : Label Hash}
    (h : g.attempts.get? id = some ⟨id, stage⟩) (hstage : stage ≠ .compared false)
    (hstage' : stage' ≠ .compared false) :
    Did g { g with attempts := g.attempts.set ⟨id, stage'⟩ } a [] := by
  refine .idle rfl (Nat.le_refl _) (onTheWay_set h).le ?_
  have := uncounted_set ⟨id, stage'⟩ h
  simpa [Attempt.uncounted, hstage, hstage', Guard.uncounted] using this

theorem did_of_step {g' : Guard} {a : Label Hash}
    (h : g.step comparePasswordAndHash dummyHash a = some g') :
    Did g g' a (events comparePasswordAndHash dummyHash g a) := by
  cases a with
  | tick span =>
    cases h
    simp only [events]
    rcases live_tick g span with hsame | hlapsed
    · have : (g.live.isSome && ({ g with now := g.now + span } : Guard).live.isNone) = false := by
        rw [hsame]
        cases g.live <;> rfl
      rw [this]
      exact .idle hsame (Nat.le_add_right _ _) (Nat.le_refl _) rfl
    · cases hlive : g.live with
      | none =>
        rw [hlapsed]
        exact .idle (hlapsed.trans hlive.symm) (Nat.le_add_right _ _) (Nat.le_refl _) rfl
      | some entry =>
        rw [hlapsed]
        exact .forgotten _ (.inr rfl) hlapsed (Nat.le_refl _) (Nat.le_refl _)
  | check id =>
    simp only [Guard.step] at h
    split at h
    · cases h
    · next hnew =>
      have hfree : g.attempts.get? id = none := by
        simpa [Keyed.has] using hnew
      split at h
      · cases h
        exact .idle rfl (Nat.le_refl _) (Nat.le_refl _) rfl
      · next hunlocked =>
        cases h
        have hvalues := Keyed.values_set_new (m := g.attempts) (a := ⟨id, .queued⟩) hfree
        refine .letIn id rfl (Bool.eq_false_iff.mpr hunlocked) rfl (Nat.le_refl _) ?_ ?_
        · rw [Guard.onTheWay, hvalues, List.length_append]
          rfl
        · rw [Guard.uncounted, hvalues, List.countP_append]
          rfl
  | takeSlot id =>
    simp only [Guard.step] at h
    split at h
    · next hget =>
      split at h
      · cases h
        cases Keyed.key_of_get? hget
        exact did_stage hget (by rintro ⟨⟩) (by rintro ⟨⟩)
      · cases h
    · cases h
  | leave id =>
    simp only [Guard.step] at h
    split at h
    · next hget =>
      cases h
      refine .idle rfl (Nat.le_refl _) ?_ ?_
      · have := onTheWay_without hget
        omega
      · exact (uncounted_without hget).symm
    · cases h
  | compare id account password =>
    simp only [Guard.step] at h
    split at h
    · next hget =>
      cases h
      cases Keyed.key_of_get? hget
      simp only [events]
      generalize signsIn comparePasswordAndHash dummyHash account password = right
      refine .compared right rfl (Nat.le_refl _) ?_ (onTheWay_set hget) ?_
      · have := onTheWay_without hget
        omega
      · have := uncounted_set ⟨_, .compared right⟩ hget
        cases right <;> simpa [Attempt.uncounted, Guard.uncounted] using this
    · cases h
  | record id =>
    simp only [Guard.step] at h
    simp only [events]
    split at h
    · next hget =>
      cases h
      refine .forgotten _ (.inl rfl) rfl ?_ (uncounted_without hget).ge
      have := onTheWay_without hget
      exact this ▸ Nat.le_succ _
    · next hget =>
      cases h
      exact .failed rfl rfl (onTheWay_without hget) (uncounted_without hget)
    · cases h
  | reset =>
    cases h
    exact .forgotten _ (.inl rfl) rfl (Nat.le_refl _) (Nat.le_refl _)
  | evict =>
    cases h
    simp only [events]
    cases hlive : g.live with
    | none => exact .idle hlive.symm (Nat.le_refl _) (Nat.le_refl _) rfl
    | some entry => exact .forgotten _ (.inr rfl) rfl (Nat.le_refl _) (Nat.le_refl _)

/-! ## Runs -/

/-- A machine with what happened beside it. -/
abbrev Watched := Recorded Guard Event

/-- What a run keeps. The tally is made of failures on record and of wrong passwords not yet counted; the
attempts on their way, with the failures on record, come to the threshold at most, but for one alone; and
nobody is on the way to a locked handle's hash. -/
structure Sound (r : Watched) : Prop where
  room : r.state.onTheWay ≤ 1 ∨ r.state.failures + r.state.onTheWay ≤ lockoutThreshold
  quiet : r.state.locked = true → r.state.onTheWay = 0
  counted : tally r.past ≤ r.state.uncounted +
    if r.state.failures < lockoutThreshold then r.state.failures else 0
  within : ∀ q, q <+: r.past → tally q ≤ lockoutThreshold
  unlocked : ∀ right, .compared right true ∉ r.past

theorem uncounted_le (g : Guard) : g.uncounted ≤ g.onTheWay := List.countP_le_length

/-- The tally is within the threshold, where there is room. -/
theorem tally_le {n : Nat} (hroom : g.onTheWay ≤ 1 ∨ g.failures + g.onTheWay ≤ lockoutThreshold)
    (htally : n ≤ g.uncounted + if g.failures < lockoutThreshold then g.failures else 0) :
    n ≤ lockoutThreshold := by
  have := uncounted_le g
  have hthreshold : lockoutThreshold = 5 := rfl
  split at htally <;> omega

/-- A record one event longer: what is to show of it. -/
theorem within_append {past : List Event} {e : Event}
    (hwithin : ∀ q, q <+: past → tally q ≤ lockoutThreshold) (he : tally (past ++ [e]) ≤ lockoutThreshold) :
    ∀ q, q <+: past ++ [e] → tally q ≤ lockoutThreshold := by
  intro q hq
  rcases List.prefix_concat_iff.mp hq with rfl | hold
  · exact he
  · exact hwithin q hold

theorem tally_append (past : List Event) (e : Event) : tally (past ++ [e]) = tallied (tally past) e := by
  rw [tally, List.foldl_append]
  rfl

theorem failures_of_live {g' : Guard} (h : g'.live = g.live) : g'.failures = g.failures := by
  rw [Guard.failures, h, Guard.failures]

/-- A handle that reads as it did is locked later only if it was. -/
theorem locked_of_live {g' : Guard} (hlive : g'.live = g.live) (hnow : g.now ≤ g'.now)
    (h : g'.locked = true) : g.locked = true := by
  rw [Guard.locked, hlive] at h
  rw [Guard.locked]
  cases hentry : g.live with
  | none => rw [hentry] at h; exact h
  | some entry =>
    rw [hentry] at h
    exact decide_eq_true (Nat.lt_of_le_of_lt hnow (of_decide_eq_true h))

/-- **One step.** -/
theorem Sound.step {r r' : Watched} {a : Label Hash} (inv : Sound r) (room : RoomLeft r.state a)
    (h : recording (Guard.step comparePasswordAndHash dummyHash)
      (events comparePasswordAndHash dummyHash) r a = some r') : Sound r' := by
  obtain ⟨hstep, hpast⟩ := recording_eq_some h
  obtain ⟨g', past'⟩ := r'
  have did := did_of_step hstep
  have hthreshold : lockoutThreshold = 5 := rfl
  generalize events comparePasswordAndHash dummyHash r.state a = es at did hpast
  simp only at did hpast
  subst hpast
  cases did with
  | idle live now way uncounted =>
    have hfailures := failures_of_live live
    rw [List.append_nil]
    refine ⟨?_, fun hlocked => ?_, ?_, inv.within, inv.unlocked⟩
    · have := inv.room
      simp only
      omega
    · have := inv.quiet (locked_of_live live now hlocked)
      simp only
      omega
    · simp only [hfailures, uncounted]
      exact inv.counted
  | letIn id label unlocked live now way uncounted =>
    have hfailures := failures_of_live live
    rw [List.append_nil]
    refine ⟨?_, fun hlocked => ?_, ?_, inv.within, inv.unlocked⟩
    · subst label
      rcases room with halone | hroom
      · have : r.state.onTheWay = 0 := congrArg List.length halone
        simp only
        omega
      · change _ + r.state.onTheWay < _ at hroom
        simp only
        omega
    · rw [locked_of_live live now hlocked] at unlocked
      cases unlocked
    · simp only [hfailures, uncounted]
      exact inv.counted
  | compared right live now some way uncounted =>
    have hfailures := failures_of_live live
    have hunlocked : r.state.locked = false := by
      refine Bool.eq_false_iff.mpr fun hlocked => ?_
      have := inv.quiet hlocked
      omega
    have hroom : g'.onTheWay ≤ 1 ∨ g'.failures + g'.onTheWay ≤ lockoutThreshold := by
      have := inv.room
      omega
    have htally : tally (r.past ++ [.compared right r.state.locked]) ≤ g'.uncounted +
        if g'.failures < lockoutThreshold then g'.failures else 0 := by
      have := inv.counted
      rw [tally_append, uncounted, hfailures]
      cases right <;> simp only [tallied, if_true, Bool.false_eq_true, if_false] <;> omega
    refine ⟨hroom, fun hlocked => ?_, htally, within_append inv.within (tally_le hroom htally), ?_⟩
    · rw [locked_of_live live now hlocked] at hunlocked
      cases hunlocked
    · intro right' hmem
      rcases List.mem_append.mp hmem with hold | hnew
      · exact inv.unlocked right' hold
      · rw [hunlocked] at hnew
        cases List.mem_singleton.mp hnew
  | failed live now way uncounted =>
    have hunlocked : r.state.locked = false := by
      refine Bool.eq_false_iff.mpr fun hlocked => ?_
      have := inv.quiet hlocked
      omega
    have hfailures : g'.failures = r.state.failures + 1 := (failures_of_live live).trans failures_failure
    have hlocks := locked_failure hunlocked
    have hinv := inv.room
    by_cases hreached : lockoutThreshold ≤ r.state.failures + 1
    · -- the threshold is reached: nobody else is on the way
      rw [hlocks, decide_eq_true hreached, if_pos rfl]
      have halone : g'.onTheWay = 0 := by omega
      have hreset : tally (r.past ++ [.locks]) = 0 := tally_append _ _
      refine ⟨.inl (by simp only; omega), fun _ => halone, hreset.le.trans (Nat.zero_le _),
        within_append inv.within (hreset.le.trans (Nat.zero_le _)), fun right hmem => ?_⟩
      rcases List.mem_append.mp hmem with hold | hnew
      · exact inv.unlocked right hold
      · cases List.mem_singleton.mp hnew
    · rw [hlocks, decide_eq_false hreached, if_neg Bool.false_ne_true, List.append_nil]
      refine ⟨by simp only; omega, fun hlocked => ?_, ?_, inv.within, inv.unlocked⟩
      · rw [locked_of_live live now.ge hlocked, decide_eq_false hreached] at hlocks
        cases hlocks
      · have := inv.counted
        rw [uncounted, if_pos (by omega)] at this
        simp only
        rw [hfailures, if_pos (by omega)]
        omega
  | forgotten e event live way uncounted =>
    have hzero := failures_of_live_none live
    have hroom : g'.onTheWay ≤ 1 ∨ g'.failures + g'.onTheWay ≤ lockoutThreshold := by
      have := inv.room
      omega
    have hreset : tally (r.past ++ [e]) = 0 := by
      rw [tally_append]
      rcases event with rfl | rfl <;> rfl
    refine ⟨hroom, fun hlocked => ?_, hreset.le.trans (Nat.zero_le _),
      within_append inv.within (hreset.le.trans (Nat.zero_le _)), ?_⟩
    · rw [locked_of_live_none live] at hlocked
      cases hlocked
    · intro right hmem
      rcases List.mem_append.mp hmem with hold | hnew
      · exact inv.unlocked right hold
      · rcases event with rfl | rfl <;> cases List.mem_singleton.mp hnew

/-- Nothing recorded of the handle, and nobody signing in. -/
def Guard.start : Guard := ⟨0, none, Keyed.empty⟩

theorem sound_start : Sound ⟨Guard.start, []⟩ :=
  ⟨.inl (Nat.zero_le _), fun _ => rfl, Nat.zero_le _, fun _ hq => List.prefix_nil.mp hq ▸ Nat.zero_le _,
    fun _ h => absurd h List.not_mem_nil⟩

/-- **Password guessing is bounded**, where every attempt the check lets in leaves room: alone on its way,
or with the failures on record and the attempts on their way under the threshold. -/
theorem guesses_bounded {r : Watched}
    (run : Runs (recording (Guard.step comparePasswordAndHash dummyHash)
      (events comparePasswordAndHash dummyHash)) (fun r a => RoomLeft r.state a) ⟨Guard.start, []⟩ r) :
    Bounded r.past := by
  have sound : Sound r := run.keeps sound_start fun _ _ _ inv room hstep => inv.step room hstep
  refine ⟨fun stretch hinfix hsuccess hdropped => ?_, sound.unlocked⟩
  obtain ⟨before, after, hpast⟩ := hinfix
  have hwithin : ∀ q, q <+: stretch → q.foldl tallied (tally before) ≤ lockoutThreshold := by
    intro q hq
    rw [tally, ← List.foldl_append]
    refine sound.within (before ++ q) ?_
    rw [← hpast, List.append_assoc]
    exact (List.prefix_append_right_inj before).mpr (hq.trans (List.prefix_append _ _))
  exact (Nat.le_add_right _ _).trans (wrongBeforeLock_le hwithin hsuccess hdropped)

/-! ## Five attempts one after the other, and six at once -/

/-- Passwords kept as they are, compared as they are. -/
def plain (password hash : String) : Bool := password == hash

def ada : Account String := ⟨true, some "correct horse"⟩

/-- An attempt with a wrong password, from its check to its comparison. -/
def guess (id : Nat) : List (Label String) := [.takeSlot id, .compare id (some ada) "guess"]

/-- Five in turn, and a sixth that finds the handle locked. -/
def inTurn : List (Label String) :=
  ([1, 2, 3, 4, 5].flatMap fun id => .check id :: (guess id ++ [.record id])) ++ [.check 6]

/-- Six are let in before the first has compared. -/
def atOnce : List (Label String) :=
  [1, 2, 3, 4, 5, 6].map .check ++ [1, 2, 3, 4, 5, 6].flatMap guess

theorem inTurn_bounded :
    ((runList (recording (Guard.step plain "") (events plain "")) ⟨Guard.start, []⟩ inTurn).map fun r =>
        (r.state.locked, r.state.onTheWay, wrongBeforeLock r.past)) = some (true, 0, 5) ∧
      ∀ r, runList (recording (Guard.step plain "") (events plain "")) ⟨Guard.start, []⟩ inTurn = some r →
        Bounded r.past :=
  ⟨by decide, fun _ h => guesses_bounded (Runs.ofList inTurn (by decide) h)⟩

/-- **Six wrong passwords are compared**, none of them counted yet. -/
theorem guessed_at_once :
    ¬ ∀ (r : Watched), Runs (recording (Guard.step plain "") (events plain "")) Always ⟨Guard.start, []⟩ r →
      Bounded r.past := by
  intro claim
  have bounded := claim
    ((runList (recording (Guard.step plain "") (events plain "")) ⟨Guard.start, []⟩ atOnce).getD
      ⟨Guard.start, []⟩) (Runs.ofList atOnce (EachStep.always _ _) rfl)
  refine absurd (bounded.guesses _ (List.infix_refl _) ?_ ?_) ?_ <;> decide

end Stoop.Accounts.Lockout
