import Mathlib.Algebra.Order.Field.Rat
import Stoop.Lib.Bucket
import Stoop.Kv.Promises

/-!
# The rate limiter

`internal/ratelimit/limiter.go`: a token bucket for each key, kept in a store of `internal/kv` with the time a
bucket takes to be full again as its ttl. Arithmetic is exact: times and durations are numbers of seconds, and
the ttl is not cut to whole nanoseconds.

The store forgets a bucket in two ways. One that has expired would be full by now, and one never asked is full
(`spend_eq_of_keeps`), so nobody can tell. One evicted for lack of room is a loss, and the record of a run says
when it happens; `neverExpiring` is the limiter whose buckets go in no other way. A limiter that is not enabled
allows everything and keeps nothing.
-/

set_option autoImplicit false

namespace Stoop.Kv

open Stoop.Lib

variable {κ 𝕜 : Type} [Field 𝕜] [LinearOrder 𝕜]

/-- `maxBuckets`. -/
def maxBuckets : Nat := 100000

/-- `Limiter`, less its store and its clock. -/
structure Limiter (𝕜 : Type) where
  perSecond : 𝕜
  burst : Int
  burst_pos : 1 ≤ burst

/-- `newLimiter`: a burst below one is one. -/
def Limiter.newLimiter (perSecond : 𝕜) (burst : Int) : Limiter 𝕜 :=
  if h : burst < 1 then ⟨perSecond, 1, le_rfl⟩ else ⟨perSecond, burst, not_lt.mp h⟩

/-- `New`: so many requests a minute. -/
def Limiter.new (perMinute burst : Int) : Limiter 𝕜 := newLimiter (perMinute / 60) burst

/-- `NewPer`: so many events in a period of so many seconds. -/
def Limiter.newPer (events : Int) (period : 𝕜) : Limiter 𝕜 := newLimiter (events / period) events

namespace Limiter

/-- Whether the limiter throttles anything. -/
def Enabled (l : Limiter 𝕜) : Prop := 0 < l.perSecond

instance (l : Limiter 𝕜) : Decidable l.Enabled := inferInstanceAs (Decidable (_ < _))

variable (l : Limiter 𝕜)

/-- The time an empty bucket takes to fill. -/
def refill : 𝕜 := l.burst / l.perSecond

/-- What the function `Allow` hands to `Update` makes of a bucket, and whether it allows the request. -/
def spend (found : Option (Bucket 𝕜)) (now : 𝕜) : Bucket 𝕜 × Bool :=
  let b := found.getD ⟨l.burst, now⟩
  let tokens := min (l.burst : 𝕜) (b.tokens + (now - b.since) * l.perSecond)
  if 1 ≤ tokens then (⟨tokens - 1, now⟩, true) else (⟨tokens, now⟩, false)

theorem spend_eq_takeFrom (found : Option (Bucket 𝕜)) (now : 𝕜) :
    l.spend found now = Bucket.takeFrom (l.burst : 𝕜) l.perSecond found now := rfl

/-! ## Requests -/

/-- A call on a limiter: `Allow`, with the clock as the function it hands over reads it, or the count of
buckets the gauges read. -/
inductive Request (κ 𝕜 : Type)
  | allow (key : κ) (now : 𝕜) (r : Readings 𝕜) (walk : List κ)
  | gauge (now : 𝕜)

/-- The call on the store. -/
def call : Request κ 𝕜 → Call κ (Bucket 𝕜) 𝕜
  | .allow key now r walk => .update key (fun found => ⟨(l.spend found now).1, l.refill, true⟩) r walk
  | .gauge now => .len now

variable [DecidableEq κ]

/-- One request. The function reads the clock under the store's lock, after the lookup. -/
def step (s : MemoryStore κ (Bucket 𝕜) 𝕜) : Request κ 𝕜 → Option (MemoryStore κ (Bucket 𝕜) 𝕜)
  | .allow key now r walk =>
    if l.Enabled then
      if r.live ≤ now ∧ now ≤ r.room then Kv.step 60 s (l.call (.allow key now r walk)) else none
    else some s
  | .gauge now => Kv.step 60 s (.len now)

/-- Whether the request is allowed. -/
def allows (s : MemoryStore κ (Bucket 𝕜) 𝕜) (key : κ) (now : 𝕜) (r : Readings 𝕜) : Bool :=
  if l.Enabled then (l.spend ((ready 60 s key r).2.map (·.value)) now).2 else true

/-- The key whose bucket, not yet expired, is evicted for lack of room. -/
def evicted (s : MemoryStore κ (Bucket 𝕜) 𝕜) (request : Request κ 𝕜) : Option κ :=
  match act 60 s (l.call request) with
  | .add _ room walk =>
    ((victim (looked 60 s (l.call request)) room walk).filter fun entry => room < entry.expires).map (·.key)
  | _ => none

/-- What happens to buckets that somebody can tell. -/
inductive Event (κ 𝕜 : Type)
  | asked (key : κ) (now : 𝕜) (allowed : Bool)
  | evicted (key : κ)
  deriving DecidableEq, Repr

/-- What a request puts on the record. -/
def records (s : MemoryStore κ (Bucket 𝕜) 𝕜) : Request κ 𝕜 → List (Event κ 𝕜)
  | .allow key now r walk =>
    (if l.Enabled then (l.evicted s (.allow key now r walk)).toList.map .evicted else []) ++
      [.asked key now (l.allows s key now r)]
  | .gauge _ => []

/-! ## The limiter whose buckets never expire -/

/-- A key's bucket after an event. -/
def bucketAfter (key : κ) (b : Option (Bucket 𝕜)) : Event κ 𝕜 → Option (Bucket 𝕜)
  | .asked k now _ => if k = key then some (l.spend b now).1 else b
  | .evicted k => if k = key then none else b

/-- What such a limiter answers a key's requests. -/
def neverExpiring (key : κ) : Option (Bucket 𝕜) → List (Event κ 𝕜) → List (𝕜 × Bool)
  | _, [] => []
  | b, event :: events =>
    (match event with
      | .asked k now _ => if k = key then [(now, (l.spend b now).2)] else []
      | .evicted _ => []) ++ neverExpiring key (l.bucketAfter key b event) events

end Limiter

/-- What a key's requests were answered, with when they came. -/
def answers [DecidableEq κ] (key : κ) (events : List (Limiter.Event κ 𝕜)) : List (𝕜 × Bool) :=
  events.filterMap fun
    | .asked k now allowed => if k = key then some (now, allowed) else none
    | .evicted _ => none

theorem answers_append {κ 𝕜 : Type} [DecidableEq κ] {key : κ} (xs ys : List (Limiter.Event κ 𝕜)) :
    answers key (xs ++ ys) = answers key xs ++ answers key ys := List.filterMap_append

/-! ## Forgotten buckets are full -/

namespace Limiter

variable {l : Limiter 𝕜} {s s' : MemoryStore κ (Bucket 𝕜) 𝕜} {key : κ} {now : 𝕜} {b : Option (Bucket 𝕜)}

section

variable [IsStrictOrderedRing 𝕜]

theorem burst_nonneg : (0 : 𝕜) ≤ l.burst := Int.cast_nonneg (zero_le_one.trans l.burst_pos)

theorem refill_pos (h : l.Enabled) : 0 < l.refill :=
  div_pos (Int.cast_pos.mpr (zero_lt_one.trans_le l.burst_pos)) h

end

/-- A bucket with what it can hold, last asked by the time given. -/
def Fits (l : Limiter 𝕜) (now : 𝕜) (b : Bucket 𝕜) : Prop := Bucket.Sound (l.burst : 𝕜) b ∧ b.since ≤ now

variable [DecidableEq κ]

/-- A store keeps a bucket: it has it until it would be full at least, or has forgotten it once it would be. -/
def Keeps (l : Limiter 𝕜) (s : MemoryStore κ (Bucket 𝕜) 𝕜) (key : κ) (b : Option (Bucket 𝕜)) : Prop :=
  (∀ held ∈ b, l.Fits s.clock held) ∧
    match s.entries.get? key with
    | some entry => b = some entry.value ∧ entry.value.since + l.refill ≤ entry.expires
    | none => ∀ held ∈ b, held.since + l.refill ≤ s.clock

/-! ## One request -/

variable {k : κ} {r : Readings 𝕜} {walk : List κ} {request : Request κ 𝕜}

/-- What `Allow` stores: the bucket as it leaves it, for as long as an empty one takes to fill. -/
def kept (l : Limiter 𝕜) (s : MemoryStore κ (Bucket 𝕜) 𝕜) (k : κ) (now : 𝕜) (r : Readings 𝕜) :
    MemoryEntry κ (Bucket 𝕜) 𝕜 :=
  ⟨k, (l.spend ((ready 60 s k r).2.map (·.value)) now).1, r.write + l.refill⟩

theorem step_allow (henabled : l.Enabled) (hstep : l.step s (.allow k now r walk) = some s') :
    r.drop ≤ r.live ∧ s.clock ≤ r.live ∧ r.live ≤ now ∧ now ≤ s'.clock ∧ s'.clock = r.write ∧
      Kv.step 60 s (l.call (.allow k now r walk)) = some s' := by
  simp only [step, if_pos henabled] at hstep
  obtain ⟨⟨hlive, hroom⟩, hcall⟩ := Option.ite_none_right_eq_some.mp hstep
  obtain ⟨⟨⟨hsweep, hdrop, hlook, -, hwrite⟩, -⟩, hs'⟩ := Option.ite_none_right_eq_some.mp hcall
  have hclock : s'.clock = r.write := (congrArg MemoryStore.clock (Option.some.inj hs')).symm
  exact ⟨hlook, hsweep.trans (hdrop.trans hlook), hlive, (hroom.trans hwrite).trans_eq hclock.symm, hclock, hcall⟩

/-- A bucket the call is not about is kept as it was, unless it is evicted. -/
theorem Keeps.other (hstep : Kv.step 60 s (l.call request) = some s') (h : l.Keeps s key b)
    (hwrites : (l.call request).writes ≠ some key) (hempty : act 60 s (l.call request) ≠ .empty key)
    (hevicted : l.evicted s request ≠ some key) : l.Keeps s' key b := by
  have hclock : s.clock ≤ s'.clock := (step_eq_perform hstep).1
  refine ⟨fun held hheld => ⟨(h.1 held hheld).1, (h.1 held hheld).2.trans hclock⟩, ?_⟩
  have hkeeps := h.2
  rcases others hstep hwrites hempty with hsame | ⟨hgone, entry, hentry, hwhy⟩
  · rw [hsame]
    cases hentry : s.entries.get? key with
    | none =>
      rw [hentry] at hkeeps
      exact fun held hheld => (hkeeps held hheld).trans hclock
    | some entry =>
      rw [hentry] at hkeeps
      exact hkeeps
  · rw [hentry] at hkeeps
    obtain ⟨rfl, hexpires⟩ := hkeeps
    have hexp : entry.expires ≤ s'.clock := by
      rcases hwhy with hexp | ⟨added, room, walk, hact, hvictim⟩
      · exact hexp
      · -- whose room is taken had expired, or is on the record as evicted
        refine le_of_not_gt fun hlive => hevicted ?_
        have hroom : room < entry.expires := ((act_walks hstep hact).1).trans_lt hlive
        simp only [evicted, hact, hvictim, Option.filter, hroom, decide_true, if_true, Option.map_some,
          Keyed.key_of_get? hentry]
    rw [hgone]
    rintro _ ⟨⟩
    exact hexpires.trans hexp

variable [IsStrictOrderedRing 𝕜]

/-- What the store has of a bucket it keeps is allowed as much as the bucket. -/
theorem spend_eq_of_keeps (henabled : l.Enabled) (h : l.Keeps s key b) {t : 𝕜} (ht : s.clock ≤ t)
    (hnow : t ≤ now) : l.spend (live s key t) now = l.spend b now := by
  -- a bucket forgotten in time is as good as none
  have forgotten : (∀ held ∈ b, held.since + l.refill ≤ now) → l.spend none now = l.spend b now := by
    intro hfull
    cases b with
    | none => rfl
    | some held =>
      exact (Bucket.take_of_full_again henabled (h.1 held rfl).1 (hfull held rfl)).symm
  obtain ⟨-, hkeeps⟩ := h
  cases hentry : s.entries.get? key with
  | none =>
    rw [hentry] at hkeeps
    rw [live, hentry, Option.filter_none, Option.map_none]
    exact forgotten fun held hheld => (hkeeps held hheld).trans (ht.trans hnow)
  | some entry =>
    rw [hentry] at hkeeps
    obtain ⟨rfl, hexpires⟩ := hkeeps
    by_cases hlive : t < entry.expires
    · rw [live_of_lt hentry hlive]
    · have hle := le_of_not_gt hlive
      rw [live_of_le hentry hle]
      refine forgotten ?_
      rintro _ ⟨⟩
      exact hexpires.trans (hle.trans hnow)

/-- `Allow` never drops a bucket, and never asks for a new one without a ttl. -/
theorem act_allow (henabled : l.Enabled) : act 60 s (l.call (.allow k now r walk)) =
    if (ready 60 s k r).2.isSome then .overwrite (l.kept s k now r) else .add (l.kept s k now r) r.room walk := by
  have httl := refill_pos henabled
  simp only [act, call, Bool.not_true, Bool.false_eq_true, if_false, kept]
  cases (ready 60 s k r).2 with
  | none => exact if_neg (not_le_of_gt httl)
  | some entry => simp only [httl, if_true, Option.isSome_some]

/-- The bucket the call is about is kept as the call leaves it. -/
theorem Keeps.self (henabled : l.Enabled) (hstep : l.step s (.allow key now r walk) = some s')
    (h : l.Keeps s key b) : l.Keeps s' key (some (l.spend b now).1) ∧
      l.allows s key now r = (l.spend b now).2 ∧ l.evicted s (.allow key now r walk) ≠ some key := by
  obtain ⟨hlook, hclock, hlive, hnow, hwrite, hcall⟩ := step_allow henabled hstep
  have hspend : l.spend ((ready 60 s key r).2.map (·.value)) now = l.spend b now := by
    rw [ready_live hlook rfl, spend_eq_of_keeps henabled h hclock hlive]
  obtain ⟨-, -, -, hentries⟩ := step_eq_perform hcall
  have hafter : s'.entries.get? key = some (l.kept s key now r) := by
    rw [hentries, act_allow henabled]
    split <;> exact Keyed.get?_set_self _ (l.kept s key now r)
  refine ⟨⟨?_, ?_⟩, ?_, ?_⟩
  · rintro _ ⟨⟩
    refine ⟨.takeFrom burst_nonneg henabled.le fun held hheld => ?_, ?_⟩
    · exact ⟨(h.1 held hheld).1, (h.1 held hheld).2.trans (hclock.trans hlive)⟩
    · rw [spend_eq_takeFrom, Bucket.takeFrom_since]
      exact hnow
  · rw [hafter]
    refine ⟨congrArg some (congrArg Prod.fst hspend.symm), ?_⟩
    rw [kept, spend_eq_takeFrom, Bucket.takeFrom_since]
    exact add_le_add_left (hnow.trans_eq hwrite) l.refill
  · rw [allows, if_pos henabled, hspend]
  · -- where room is made the key is free
    rw [evicted]
    split
    next entry room order hact =>
      have hfree := (act_puts.2 _ _ hact).2
      have hkey : key = entry.key := Option.some.inj (act_puts.2 _ _ hact).1
      intro hevicted
      obtain ⟨gone, hgone, hgoneKey⟩ := Option.map_eq_some_iff.mp hevicted
      have hheld := (victim_spec (Option.filter_eq_some_iff.mp hgone).1).2.1
      rw [hgoneKey] at hheld
      rw [← hkey, hheld] at hfree
      cases hfree
    next => rintro ⟨⟩

end Limiter

end Stoop.Kv
