import Mathlib
import Stoop.Accounts.Lockout
import Stoop.Kv.Promises

/-!
# The lockout's delays and its store

`loginGuard` of `internal/auth/lockout.go` over the in-process store: `check` looks a handle's entry up and then
reads the clock, `failure` reads the clock and then updates the entry, `success` deletes it. The guard's reading
and the store's are two readings of one clock, in nanoseconds from the zero time, and other calls may come
between them; so a failure may be stored after one read later.

The delay is a shift that runs over from the thirty-fourth failure on. Before it does it is past the maximum,
and after that what is left of it is no positive duration short of the maximum (`lockDelay_eq`).
-/

set_option autoImplicit false

namespace Stoop.Accounts.LoginGuard

open Stoop.Lib
open Lockout (LoginEntry failed lockDelay second lockoutThreshold lockoutBase lockoutMax lockoutIdle)
open Stoop.Kv (MemoryStore MemoryEntry Readings ready)

/-! ## The delay -/

/-- Where the shift runs over, what is left is a multiple of `2 ^ 40` nanoseconds. -/
theorem dvd_toInt_shift {k : Nat} (h : 30 ≤ k) :
    (2 ^ 40 : Int) ∣ (BitVec.ofNat 64 lockoutBase <<< k).toInt := by
  have hbase : (2 ^ 10 : Nat) ∣ lockoutBase := by decide
  have hpow : (2 ^ 40 : Nat) ∣ lockoutBase * 2 ^ k := by
    calc 2 ^ 40 = 2 ^ 10 * 2 ^ 30 := by decide
      _ ∣ lockoutBase * 2 ^ k := Nat.mul_dvd_mul hbase (Nat.pow_dvd_pow 2 h)
  have hsmall : lockoutBase % 2 ^ 64 = lockoutBase := by decide
  have hword : (2 ^ 40 : Nat) ∣ (BitVec.ofNat 64 lockoutBase <<< k).toNat := by
    rw [BitVec.toNat_shiftLeft, BitVec.toNat_ofNat, hsmall, Nat.shiftLeft_eq]
    exact (Nat.dvd_mod_iff (by decide)).mpr hpow
  rw [BitVec.toInt_eq_toNat_cond]
  split
  · exact_mod_cast hword
  · exact Int.dvd_sub (by exact_mod_cast hword) (by decide)

/-- Up to the last shift that does not run over, and the one that makes the duration negative. -/
theorem lockDelay_of_lt : ∀ k < 30, lockDelay (lockoutThreshold + k) = min (lockoutBase * 2 ^ k) lockoutMax := by
  decide +kernel

/-- The delay doubles from the base to the maximum, and stays there. -/
theorem lockDelay_eq {failures : Nat} (h : lockoutThreshold ≤ failures) :
    lockDelay failures = min (lockoutBase * 2 ^ (failures - lockoutThreshold)) lockoutMax := by
  obtain ⟨k, rfl⟩ := Nat.exists_eq_add_of_le h
  rw [Nat.add_sub_cancel_left]
  by_cases hk : k < 30
  · exact lockDelay_of_lt k hk
  · have hover := dvd_toInt_shift (Nat.not_lt.mp hk)
    have hmax : lockoutMax ≤ lockoutBase * 2 ^ k := by
      calc lockoutMax ≤ lockoutBase * 2 ^ 30 := by decide
        _ ≤ lockoutBase * 2 ^ k := Nat.mul_le_mul_left _ (Nat.pow_le_pow_right (by decide) (Nat.not_lt.mp hk))
    rw [Nat.min_eq_right hmax]
    simp only [lockDelay, Nat.add_sub_cancel_left]
    refine if_pos ?_
    have : (lockoutMax : Int) < 2 ^ 40 := by decide
    obtain ⟨m, hm⟩ := hover
    rw [hm]
    omega

theorem lockDelay_le_max (failures : Nat) : lockDelay failures ≤ lockoutMax := by
  simp only [lockDelay]
  split
  · exact Nat.le_refl _
  · next h =>
    have hle := Int.not_lt.mp (not_or.mp h).1
    omega

/-- One failure more locks for no less time. -/
theorem lockDelay_mono {m n : Nat} (hm : lockoutThreshold ≤ m) (hle : m ≤ n) : lockDelay m ≤ lockDelay n := by
  rw [lockDelay_eq hm, lockDelay_eq (Nat.le_trans hm hle)]
  have hpow : 2 ^ (m - lockoutThreshold) ≤ 2 ^ (n - lockoutThreshold) :=
    Nat.pow_le_pow_right (by decide) (Nat.sub_le_sub_right hle _)
  have := Nat.mul_le_mul_left lockoutBase hpow
  omega

/-! ## The guard over the store -/

variable {κ : Type}

abbrev Lockouts (κ : Type) := MemoryStore κ LoginEntry Int

def lockoutMaxEntries : Nat := 50000

/-- `sweepEvery` of the store. -/
def sweepEvery : Int := 60 * second

/-- The guard's calls, with what they and the store read off the clock. -/
inductive Call (κ : Type)
  | check (handle : κ) (read : Int) (now : Nat)
  | failure (handle : κ) (now : Nat) (r : Readings Int) (walk : List κ)
  | success (handle : κ)
  /-- the store's entries are counted for a gauge -/
  | gauge (read : Int)

/-- The call on the store. -/
def Call.store : Call κ → Kv.Call κ LoginEntry Int
  | .check handle read _ => .get handle read
  | .failure handle now r walk =>
    .update handle (fun found => ⟨failed now (found.getD ⟨0, 0⟩), lockoutIdle, true⟩) r walk
  | .success handle => .delete handle
  | .gauge read => .len read

/-- `check` reads the clock once the store has, and `failure` before. -/
def Call.InOrder : Call κ → Prop
  | .check _ read now => read ≤ now
  | .failure _ now r _ => now ≤ r.sweep
  | _ => True

instance (c : Call κ) : Decidable c.InOrder := by
  unfold Call.InOrder
  split <;> infer_instance

/-- A call writes where it records a failure. -/
theorem writes_store {c : Call κ} {handle : κ} (h : c.store.writes = some handle) :
    ∃ now r walk, c = .failure handle now r walk := by
  cases c with
  | failure k now r walk =>
    obtain ⟨⟩ := h
    exact ⟨now, r, walk, rfl⟩
  | check | success | gauge => cases h

/-! ## What an entry says -/

/-- An entry counts the failures in a row, and is locked from the last of them for the delay; it is kept for as
long as that. -/
structure Tells (row : Option (Nat × Nat)) (held : MemoryEntry κ LoginEntry Int) : Prop where
  counts : row.map (·.1) = some held.value.failures
  locks : lockoutThreshold ≤ held.value.failures →
    row.map (fun (_, last) => last + lockDelay held.value.failures) = some held.value.lockedUntil
  unlocked : held.value.failures < lockoutThreshold → held.value.lockedUntil = 0
  kept : held.value.lockedUntil ≤ held.expires

variable {handle : κ} {now : Nat}

/-- What a failure stores. -/
theorem tells_failed {entry : LoginEntry} {expires : Int}
    (hunlocked : entry.failures < lockoutThreshold → entry.lockedUntil = 0)
    (hkept : now + lockoutIdle ≤ expires) :
    Tells (some (entry.failures + 1, now)) ⟨handle, failed now entry, expires⟩ := by
  have hidle : lockoutMax ≤ lockoutIdle := by decide
  have hmax := lockDelay_le_max (entry.failures + 1)
  by_cases h : lockoutThreshold ≤ entry.failures + 1
  · have hfailed : failed now entry = ⟨entry.failures + 1, now + lockDelay (entry.failures + 1)⟩ := if_pos h
    rw [hfailed]
    refine ⟨rfl, fun _ => rfl, fun hless => absurd h (Nat.not_le.mpr hless), ?_⟩
    dsimp only
    omega
  · have hfailed : failed now entry = { entry with failures := entry.failures + 1 } := if_neg h
    have hzero := hunlocked (by omega)
    rw [hfailed]
    refine ⟨rfl, fun hle => absurd hle h, fun _ => hzero, ?_⟩
    dsimp only
    omega

variable [DecidableEq κ]

def step (s : Lockouts κ) (c : Call κ) : Option (Lockouts κ) :=
  if c.InOrder then Kv.step sweepEvery s c.store else none

/-- What `check` answers. -/
def wait (s : Lockouts κ) (handle : κ) (read : Int) (now : Nat) : Nat :=
  match (Kv.get s handle read).2 with
  | none => 0
  | some entry => if entry.lockedUntil < now then 0 else entry.lockedUntil - now

/-- What is on record of the guard: each failure, with the guard's reading of it and whether the store had no
entry to count it on. -/
inductive Recount (κ : Type)
  | failed (handle : κ) (now : Nat) (first : Bool)
  | succeeded (handle : κ)
  deriving DecidableEq, Repr

def recounts (s : Lockouts κ) : Call κ → List (Recount κ)
  | .failure handle now r _ => [.failed handle now (ready sweepEvery s handle r).2.isNone]
  | .success handle => [.succeeded handle]
  | _ => []

/-- The failures a handle has had in a row, and when the last of them was. -/
def streak (handle : κ) (prior : Option (Nat × Nat)) : Recount κ → Option (Nat × Nat)
  | .failed h now first =>
    if h = handle then some (if first then 1 else (prior.map (·.1)).getD 0 + 1, now) else prior
  | .succeeded h => if h = handle then none else prior

/-! ## A step -/

variable {s s' : Lockouts κ} {c : Call κ} {r : Readings Int} {walk : List κ}
variable {row : Option (Nat × Nat)} {past : List (Recount κ)} {held : MemoryEntry κ LoginEntry Int}

/-- What a failure does to the store: the entry it found live is counted on, or a new one is begun. -/
theorem act_failure : Kv.act sweepEvery s (Call.failure handle now r walk).store =
    match (ready sweepEvery s handle r).2 with
    | none => .add ⟨handle, failed now ⟨0, 0⟩, r.write + lockoutIdle⟩ r.room walk
    | some entry => .overwrite ⟨handle, failed now entry.value, r.write + lockoutIdle⟩ := by
  simp only [Kv.act, Call.store, Bool.not_true, Bool.false_eq_true, if_false]
  cases (ready sweepEvery s handle r).2 with
  | none => rfl
  | some entry => rfl

/-- The readings of a step, one no earlier than the other. -/
theorem step_failure (hstep : step s (.failure handle now r walk) = some s') :
    now ≤ r.write ∧ r.drop ≤ r.live ∧ r.live ≤ r.write ∧ s'.clock = r.write ∧
      Kv.step sweepEvery s (Call.failure handle now r walk).store = some s' := by
  obtain ⟨horder, hcall⟩ := Option.ite_none_right_eq_some.mp hstep
  obtain ⟨⟨⟨-, hdrop, hlive, hroom, hwrite⟩, -⟩, hs'⟩ := Option.ite_none_right_eq_some.mp hcall
  have hnow : now ≤ r.sweep := horder
  have hclock : s'.clock = r.write := (congrArg MemoryStore.clock (Option.some.inj hs')).symm
  exact ⟨by omega, hlive, by omega, hclock, hcall⟩

/-- After a failure the entry is what the failure stores. -/
theorem get?_failure (hstep : step s (.failure handle now r walk) = some s') :
    s'.entries.get? handle = some ⟨handle,
      failed now (((ready sweepEvery s handle r).2.map (·.value)).getD ⟨0, 0⟩), r.write + lockoutIdle⟩ := by
  obtain ⟨-, -, -, -, hcall⟩ := step_failure hstep
  obtain ⟨-, -, -, hentries⟩ := Kv.step_eq_perform hcall
  rw [hentries, act_failure]
  cases (ready sweepEvery s handle r).2 with
  | none => exact Keyed.get?_set_self _ (⟨handle, failed now ⟨0, 0⟩, _⟩ : MemoryEntry κ LoginEntry Int)
  | some entry => exact Keyed.get?_set_self _ (⟨handle, failed now entry.value, _⟩ : MemoryEntry κ LoginEntry Int)

/-- It empties where it records a success. -/
theorem empties_store (h : Kv.act sweepEvery s c.store = .empty handle) : c = .success handle := by
  rcases Kv.act_empty h with hdelete | ⟨change, r, walk, hupdate, hkeep⟩
  · cases c with
    | success k =>
      obtain ⟨⟩ := hdelete
      rfl
    | check | failure | gauge => cases hdelete
  · cases c with
    | failure k now r walk =>
      obtain ⟨⟩ := hupdate
      cases hkeep
    | check | success | gauge => cases hupdate

/-- What the entries say holds of the record. -/
def Sound (s : Lockouts κ) (past : List (Recount κ)) : Prop :=
  ∀ handle held, s.entries.get? handle = some held → Tells (past.foldl (streak handle) none) held

/-- **The step law.** -/
theorem Sound.step (h : Sound s past) (hstep : LoginGuard.step s c = some s') :
    Sound s' (past ++ recounts s c) := by
  intro key held hheld
  rw [List.foldl_append]
  have hcall := (Option.ite_none_right_eq_some.mp hstep).2
  -- what is about another handle
  have hother : c.store.writes ≠ some key → Kv.act sweepEvery s c.store ≠ .empty key →
      s.entries.get? key = some held := by
    intro hwrites hempty
    rcases Kv.others hcall hwrites hempty with hsame | ⟨hgone, -⟩
    · exact hsame ▸ hheld
    · exact nomatch hgone.symm.trans hheld
  cases c with
  | check k read now => exact h key held (hother nofun fun he => nomatch empties_store he)
  | gauge read => exact h key held (hother nofun fun he => nomatch empties_store he)
  | success k =>
    simp only [recounts, List.foldl_cons, List.foldl_nil, streak]
    by_cases hk : k = key
    · subst hk
      obtain ⟨-, -, -, hentries⟩ := Kv.step_eq_perform hcall
      have hgone : s'.entries.get? k = none := by
        rw [hentries]
        exact (Kv.get?_remove).trans (if_pos rfl)
      exact nomatch hgone.symm.trans hheld
    · rw [if_neg hk]
      refine h key held (hother nofun fun he => hk ?_)
      cases empties_store he
      rfl
  | failure k now r walk =>
    simp only [recounts, List.foldl_cons, List.foldl_nil, streak]
    by_cases hk : k = key
    · subst hk
      obtain ⟨hnow, -, -, -, -⟩ := step_failure hstep
      obtain rfl := Option.some.inj ((get?_failure hstep).symm.trans hheld)
      rw [if_pos rfl]
      cases hfound : (ready sweepEvery s k r).2 with
      | none => exact @tells_failed _ _ _ ⟨0, 0⟩ _ (fun _ => rfl) (Int.add_le_add_right hnow _)
      | some prior =>
        have htells := h k prior (Kv.ready_some hfound).2.1
        have hcount : ((past.foldl (streak k) none).map (·.1)).getD 0 = prior.value.failures := by
          rw [htells.counts, Option.getD_some]
        simp only [Option.isNone_some, Bool.false_eq_true, if_false, hcount]
        exact tells_failed htells.unlocked (Int.add_le_add_right hnow _)
    · rw [if_neg hk]
      refine h key held (hother (fun hw => hk (Option.some.inj hw)) fun he => nomatch empties_store he)

/-! ## Runs -/

/-- A run on the record, from a store opened when the clock read `start`. -/
abbrev Reaches (start : Int) (t : Recorded (Lockouts κ) (Recount κ)) : Prop :=
  Runs (recording step recounts) Always ⟨MemoryStore.new lockoutMaxEntries start, []⟩ t

variable {start : Int} {t : Recorded (Lockouts κ) (Recount κ)}

theorem Reaches.sound (hrun : Reaches start t) : Sound t.state t.past := by
  have hopened : Sound (MemoryStore.new lockoutMaxEntries start : Lockouts κ) [] := fun handle held hheld =>
    nomatch (Keyed.get?_empty handle).symm.trans hheld
  refine @Runs.keeps _ _ _ _ _ _ (fun t : Recorded (Lockouts κ) (Recount κ) => Sound t.state t.past) hopened
    (fun t c u h _ hstep => ?_) hrun
  obtain ⟨hstate, hpast⟩ := recording_eq_some hstep
  rw [hpast]
  exact h.step hstate

/-- `check` answers the time left to the lock's end, whether or not the entry has lapsed. -/
theorem wait_eq {read : Int} (hheld : s.entries.get? handle = some held) (htells : Tells row held)
    (horder : read ≤ now) : wait s handle read now = held.value.lockedUntil - now := by
  have hlook : (Kv.get s handle read).2 = Kv.live s handle read := Kv.liveEntry_map s handle read
  rw [wait, hlook]
  by_cases hlive : read < held.expires
  · rw [Kv.live_of_lt hheld hlive]
    dsimp only
    split <;> omega
  · rw [Kv.live_of_le hheld (Int.not_lt.mp hlive)]
    have hkept := htells.kept
    change 0 = held.value.lockedUntil - now
    omega

/-- An entry whose lock holds is let go by a success of its handle or for a new handle's room, and by nothing
else. -/
theorem locked_stays (h : Sound s past) (hstep : step s c = some s') (hheld : s.entries.get? handle = some held)
    (hlocked : s'.clock < held.value.lockedUntil) :
    s'.entries.get? handle = some held ∨
      (∃ now r walk, c = .failure handle now r walk ∧
        s'.entries.get? handle = some ⟨handle, failed now held.value, r.write + lockoutIdle⟩) ∨
      c = .success handle ∨
      ∃ added room walk, Kv.act sweepEvery s c.store = .add added room walk ∧
        Kv.victim (Kv.looked sweepEvery s c.store) room walk = some held := by
  obtain rfl := Keyed.key_of_get? hheld
  have hlive : s'.clock < held.expires := Int.lt_of_lt_of_le hlocked (h _ held hheld).kept
  have hcall := (Option.ite_none_right_eq_some.mp hstep).2
  rcases Kv.stays_or hcall hheld hlive with hstays | ⟨hwrites, -⟩ | hempty | hroom
  · exact .inl hstays
  · obtain ⟨now, r, walk, rfl⟩ := writes_store hwrites
    obtain ⟨-, hdrop, hafter, hclock, -⟩ := step_failure hstep
    have hready : (ready sweepEvery s held.key r).2.map (·.value) = some held.value := by
      rw [Kv.ready_live hdrop rfl]
      exact Kv.live_of_lt hheld (by omega)
    refine .inr (.inl ⟨now, r, walk, rfl, ?_⟩)
    rw [get?_failure hstep, hready, Option.getD_some]
  · exact .inr (.inr (.inl (empties_store hempty)))
  · exact .inr (.inr (.inr hroom))

/-- **The lockout's delays.** From the threshold on a failure locks for the base doubled with each failure, up
to the maximum, and for no less than the failure before it did. In every run, an entry counts the failures its
handle has had in a row, its lock is that delay from the last of them, and `check` answers what is left of it;
and while a lock holds no expiry takes its entry away. -/
theorem lockout_lasts (hrun : Reaches start t) :
    (∀ n, lockoutThreshold ≤ n →
      lockDelay n = min (lockoutBase * 2 ^ (n - lockoutThreshold)) lockoutMax ∧
        ∀ m, n ≤ m → lockDelay n ≤ lockDelay m) ∧
      (∀ handle held, t.state.entries.get? handle = some held →
        ∃ last, t.past.foldl (streak handle) none = some (held.value.failures, last) ∧
          (lockoutThreshold ≤ held.value.failures →
            held.value.lockedUntil = last + lockDelay held.value.failures) ∧
          held.value.lockedUntil ≤ held.expires ∧
          ∀ (read : Int) (now : Nat), read ≤ now →
            wait t.state handle read now = held.value.lockedUntil - now) ∧
      ∀ c s', step t.state c = some s' → ∀ handle held, t.state.entries.get? handle = some held →
        s'.clock < held.value.lockedUntil →
          s'.entries.get? handle = some held ∨
            (∃ now r walk, c = .failure handle now r walk ∧
              s'.entries.get? handle = some ⟨handle, failed now held.value, r.write + lockoutIdle⟩) ∨
            c = .success handle ∨
            ∃ added room walk, Kv.act sweepEvery t.state c.store = .add added room walk ∧
              Kv.victim (Kv.looked sweepEvery t.state c.store) room walk = some held := by
  refine ⟨fun n hn => ⟨lockDelay_eq hn, fun m => lockDelay_mono hn⟩, fun handle held hheld => ?_,
    fun c s' hstep handle held => locked_stays hrun.sound hstep⟩
  have htells := hrun.sound handle held hheld
  obtain ⟨⟨failures, last⟩, hrow, hcounts⟩ := Option.map_eq_some_iff.mp htells.counts
  obtain rfl : failures = held.value.failures := hcounts
  refine ⟨last, hrow, fun hle => ?_, htells.kept, fun read now => wait_eq hheld htells⟩
  have hlocks := htells.locks hle
  rw [hrow] at hlocks
  exact (Option.some.inj hlocks).symm

/-- Six wrong passwords in a row, a second apart, from a second after the zero time. -/
def sixWrong : List (Call String) :=
  (List.range 6).map fun i => .failure "ada" ((i + 1) * second) (.at ((i + 1) * second)) ["ada"]

/-- The sixth locks for a minute, and half of it is left after half a minute. -/
theorem sixWrong_wait : ∃ t : Recorded (Lockouts String) (Recount String),
    runList (recording step recounts) ⟨MemoryStore.new lockoutMaxEntries 0, []⟩ sixWrong = some t ∧
      wait t.state "ada" (36 * second) (36 * second) = 30 * second := by
  have hrun : ∃ t : Recorded (Lockouts String) (Recount String),
      runList (recording step recounts) ⟨MemoryStore.new lockoutMaxEntries 0, []⟩ sixWrong = some t ∧
        t.state.entries.get? "ada" = some ⟨"ada", ⟨6, 66 * second⟩, 3606 * second⟩ := by
    refine ⟨_, rfl, ?_⟩
    decide +kernel
  obtain ⟨t, ht, hheld⟩ := hrun
  obtain ⟨-, hentries, -⟩ := lockout_lasts (.ofList sixWrong (.always _ _) ht)
  obtain ⟨-, -, -, -, hwait⟩ := hentries "ada" _ hheld
  exact ⟨t, ht, hwait (36 * second) (36 * second) (by decide)⟩

end Stoop.Accounts.LoginGuard
