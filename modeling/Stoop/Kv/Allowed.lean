import Stoop.Kv.Limiter

/-!
# What a rate limiter allows

Every request leaves the store keeping each key's bucket (`Keeps.step`), so in any run the answers are those of
a limiter whose buckets never expire (`answers_eq_neverExpiring`). While a key's bucket is not evicted they are
the replies of one bucket, and the window bound is the bucket's own.
-/

set_option autoImplicit false

namespace Stoop.Kv.Limiter

open Stoop.Lib

variable {κ 𝕜 : Type} [Field 𝕜] [LinearOrder 𝕜] [DecidableEq κ] {l : Limiter 𝕜}
variable {s s' : MemoryStore κ (Bucket 𝕜) 𝕜} {key k : κ} {now : 𝕜} {b : Option (Bucket 𝕜)}
variable {r : Readings 𝕜} {walk : List κ} {request : Request κ 𝕜}

/-! ## What the record says -/

theorem neverExpiring_append (xs ys : List (Event κ 𝕜)) :
    l.neverExpiring key b (xs ++ ys) =
      l.neverExpiring key b xs ++ l.neverExpiring key (xs.foldl (l.bucketAfter key) b) ys := by
  induction xs generalizing b with
  | nil => rfl
  | cons event xs ih => simp only [List.cons_append, neverExpiring, ih, List.foldl_cons, List.append_assoc]

/-- Where a key's bucket is not evicted, its requests are answered as one bucket answers them. -/
theorem neverExpiring_eq_replies {events : List (Event κ 𝕜)} (h : .evicted key ∉ events) :
    l.neverExpiring key b events =
      Bucket.replies (l.burst : 𝕜) l.perSecond b ((answers key events).map Prod.fst) := by
  induction events generalizing b with
  | nil => rfl
  | cons event events ih =>
    have hrest := fun b => ih (b := b) fun hmem => h (List.mem_cons_of_mem _ hmem)
    cases event with
    | asked k now allowed =>
      by_cases hk : k = key
      · simp only [neverExpiring, answers, hk, if_true, bucketAfter, List.filterMap_cons, List.map_cons,
          Bucket.replies, List.singleton_append]
        exact congrArg _ (hrest _)
      · simpa only [neverExpiring, answers, hk, if_false, bucketAfter, List.filterMap_cons, List.nil_append]
          using hrest b
    | evicted k =>
      have hk : k ≠ key := fun hk => h (hk ▸ List.mem_cons_self)
      simpa only [neverExpiring, answers, hk, if_false, bucketAfter, List.filterMap_cons, List.nil_append]
        using hrest b

theorem answers_records : answers key (l.records s (.allow k now r walk)) =
    if k = key then [(now, l.allows s k now r)] else [] := by
  have hnone : ∀ o : Option κ, answers key (o.toList.map (Event.evicted : κ → Event κ 𝕜)) = [] := by
    intro o
    cases o <;> rfl
  rw [records, answers_append]
  split
  · rw [hnone]
    by_cases hk : k = key <;> simp [answers, hk]
  · by_cases hk : k = key <;> simp [answers, hk]

theorem evicted_of_mem_records (h : .evicted key ∈ l.records s request) : l.evicted s request = some key := by
  cases request with
  | gauge now => cases h
  | allow k now r walk =>
    rcases List.mem_append.mp h with h | h
    · split at h
      · obtain ⟨gone, hgone, heq⟩ := List.mem_map.mp h
        obtain ⟨⟩ := heq
        exact Option.mem_toList.mp hgone
      · cases h
    · cases List.mem_singleton.mp h

/-- The requests a step puts on the record of a key: one at most, between the clock before and after. -/
theorem records_times (henabled : l.Enabled) (hstep : l.step s request = some s') :
    (∀ time ∈ (answers key (l.records s request)).map Prod.fst, s.clock ≤ time ∧ time ≤ s'.clock) ∧
      ((answers key (l.records s request)).map Prod.fst).Pairwise (· ≤ ·) := by
  cases request with
  | gauge now => exact ⟨nofun, .nil⟩
  | allow k now r walk =>
    obtain ⟨-, hlive, hnow, hafter, -⟩ := step_allow henabled hstep
    rw [answers_records]
    split
    · exact ⟨by simpa using ⟨hlive.trans hnow, hafter⟩, List.pairwise_singleton _ _⟩
    · exact ⟨nofun, .nil⟩

theorem clock_le_of_step (henabled : l.Enabled) (hstep : l.step s request = some s') : s.clock ≤ s'.clock := by
  cases request with
  | gauge now => exact (step_eq_perform (show Kv.step 60 s (.len now) = some s' from hstep)).1
  | allow k now r walk =>
    obtain ⟨-, hclock, hlive, hnow, -⟩ := step_allow henabled hstep
    exact hclock.trans (hlive.trans hnow)

/-! ## Stretches of a run -/

variable {start : 𝕜} {t u : Recorded (MemoryStore κ (Bucket 𝕜) 𝕜) (Event κ 𝕜)}

/-- A run with its record, from a limiter that has been asked nothing. -/
abbrev Reaches (l : Limiter 𝕜) (start : 𝕜) (t : Recorded (MemoryStore κ (Bucket 𝕜) 𝕜) (Event κ 𝕜)) : Prop :=
  Runs (recording l.step l.records) Always ⟨MemoryStore.new maxBuckets start, []⟩ t

/-- What a stretch of a run put on the record of a key that was not evicted in it: its requests came one after
the other, from when the stretch began. -/
structure Stretch (key : κ) (t u : Recorded (MemoryStore κ (Bucket 𝕜) 𝕜) (Event κ 𝕜)) (seg : List (Event κ 𝕜)) :
    Prop where
  past : u.past = t.past ++ seg
  evicted : .evicted key ∉ seg
  clock : t.state.clock ≤ u.state.clock
  times : ∀ time ∈ (answers key seg).map Prod.fst, t.state.clock ≤ time ∧ time ≤ u.state.clock
  sorted : ((answers key seg).map Prod.fst).Pairwise (· ≤ ·)

theorem Stretch.step (henabled : l.Enabled) {seg : List (Event κ 𝕜)}
    {v : Recorded (MemoryStore κ (Bucket 𝕜) 𝕜) (Event κ 𝕜)} (h : Stretch key t u seg)
    (hstay : l.evicted u.state request ≠ some key)
    (hstep : recording l.step l.records u request = some v) :
    Stretch key t v (seg ++ l.records u.state request) := by
  obtain ⟨hstate, hpast⟩ := recording_eq_some hstep
  have hclock := clock_le_of_step henabled hstate
  have ⟨htimes, hone⟩ : (∀ time ∈ (answers key (l.records u.state request)).map Prod.fst,
      u.state.clock ≤ time ∧ time ≤ v.state.clock) ∧ _ := records_times henabled hstate
  refine ⟨?_, ?_, h.clock.trans hclock, ?_, ?_⟩
  · rw [hpast, h.past, List.append_assoc]
  · rw [List.mem_append]
    rintro (hold | hnew)
    · exact h.evicted hold
    · exact hstay (evicted_of_mem_records hnew)
  · rw [answers_append, List.map_append]
    intro time htime
    rcases List.mem_append.mp htime with hold | hnew
    · exact ⟨(h.times time hold).1, (h.times time hold).2.trans hclock⟩
    · exact ⟨h.clock.trans (htimes time hnew).1, (htimes time hnew).2⟩
  · rw [answers_append, List.map_append, List.pairwise_append]
    exact ⟨h.sorted, hone, fun old hold new hnew => (h.times old hold).2.trans (htimes new hnew).1⟩

theorem stretch (henabled : l.Enabled)
    (hrun : Runs (recording l.step l.records) (fun t request => l.evicted t.state request ≠ some key) t u) :
    ∃ seg, Stretch key t u seg := by
  induction hrun with
  | refl => exact ⟨[], (List.append_nil _).symm, nofun, le_rfl, nofun, .nil⟩
  | tail _ hstay hstep ih =>
    obtain ⟨seg, hseg⟩ := ih
    exact ⟨_, hseg.step henabled hstay hstep⟩

/-! ## One request -/

variable [IsStrictOrderedRing 𝕜]

/-- Whose room is taken has no bucket after. -/
theorem gone_of_evicted (henabled : l.Enabled) (hk : k ≠ key)
    (hstep : Kv.step 60 s (l.call (.allow k now r walk)) = some s')
    (hevicted : l.evicted s (.allow k now r walk) = some key) : s'.entries.get? key = none := by
  obtain ⟨-, -, -, hentries⟩ := step_eq_perform hstep
  rw [evicted, act_allow henabled] at hevicted
  rw [hentries, act_allow henabled]
  split at hevicted
  next entry room order hact =>
    obtain ⟨gone, hgone, hkey⟩ := Option.map_eq_some_iff.mp hevicted
    have hvictim := (Option.filter_eq_some_iff.mp hgone).1
    have hadded : entry.key ≠ key := by
      split at hact
      · cases hact
      · obtain ⟨⟩ := hact
        exact hk
    rw [hact, perform, put, Keyed.get?_set, if_neg hadded, get?_makeRoom, hvictim, Option.map_some,
      if_pos (congrArg some hkey)]
  next => cases hevicted

/-- **One request**: the store keeps the bucket it kept, and answers as the limiter that forgets none. -/
theorem Keeps.step (henabled : l.Enabled) (hstep : l.step s request = some s') (h : l.Keeps s key b) :
    l.Keeps s' key ((l.records s request).foldl (l.bucketAfter key) b) ∧
      answers key (l.records s request) = l.neverExpiring key b (l.records s request) := by
  cases request with
  | gauge now => exact ⟨@Keeps.other _ _ _ _ _ _ _ _ _ _ (.gauge now) hstep h nofun nofun nofun, rfl⟩
  | allow k now r walk =>
    have hcall := (step_allow henabled hstep).2.2.2.2.2
    by_cases hk : k = key
    · subst hk
      obtain ⟨hkept, hallows, hevicted⟩ := h.self henabled hstep
      rw [answers_records, if_pos rfl, hallows]
      cases hgone : l.evicted s (.allow k now r walk) with
      | none => simpa [records, henabled, hgone, bucketAfter, neverExpiring] using hkept
      | some gone =>
        have hne : gone ≠ k := fun hne => hevicted (hgone.trans (congrArg some hne))
        simpa [records, henabled, hgone, bucketAfter, neverExpiring, hne] using hkept
    · rw [answers_records, if_neg hk]
      by_cases hevicted : l.evicted s (.allow k now r walk) = some key
      · have hgone := gone_of_evicted henabled hk hcall hevicted
        have hkept : l.Keeps s' key none := ⟨nofun, by rw [hgone]; exact nofun⟩
        simpa [records, henabled, hevicted, bucketAfter, neverExpiring, hk] using hkept
      · have hother := h.other hcall (fun hw => hk (Option.some.inj hw)) ?_ hevicted
        cases hgone : l.evicted s (.allow k now r walk) with
        | none => simpa [records, henabled, hgone, bucketAfter, neverExpiring, hk] using hother
        | some gone =>
          have hne : gone ≠ key := fun hne => hevicted (hgone.trans (congrArg some hne))
          simpa [records, henabled, hgone, bucketAfter, neverExpiring, hne, hk] using hother
        rw [act_allow henabled]
        split <;> exact nofun

/-! ## Runs -/

/-- In any run the answers are those of a limiter whose buckets never expire, and the store keeps its
buckets. -/
theorem Reaches.keeps (henabled : l.Enabled) (hrun : l.Reaches start t) (key : κ) :
    l.Keeps t.state key (t.past.foldl (l.bucketAfter key) none) ∧
      answers key t.past = l.neverExpiring key none t.past := by
  refine @Runs.keeps _ _ _ _ _ _ (fun t : Recorded (MemoryStore κ (Bucket 𝕜) 𝕜) (Event κ 𝕜) =>
    l.Keeps t.state key (t.past.foldl (l.bucketAfter key) none) ∧
      answers key t.past = l.neverExpiring key none t.past)
    ?_ (fun t request u ⟨hkeeps, hsame⟩ _ hstep => ?_) hrun
  · exact ⟨⟨nofun, nofun⟩, rfl⟩
  · obtain ⟨hstate, hpast⟩ := recording_eq_some hstep
    obtain ⟨hkeeps', hanswers⟩ := hkeeps.step henabled hstate
    rw [hpast, List.foldl_append, answers_append, neverExpiring_append, hsame, hanswers]
    exact ⟨hkeeps', rfl⟩

/-- **What a rate limiter allows.** In any run, and any stretch of it in which a key's bucket is not evicted for
lack of room: in a window of length `T` no more than `burst + perSecond * T` of the key's requests are allowed,
and the answers all along are those of a limiter whose buckets never expire. -/
theorem limiter_law (henabled : l.Enabled) (hrun : l.Reaches start t)
    (hstay : Runs (recording l.step l.records) (fun t request => l.evicted t.state request ≠ some key) t u)
    (a T : 𝕜) (hT : 0 ≤ T) :
    ∃ seg, u.past = t.past ++ seg ∧
      (Bucket.given (fun time => decide (a ≤ time ∧ time ≤ a + T)) (answers key seg) : 𝕜) ≤
        l.burst + l.perSecond * T ∧
      answers key u.past = l.neverExpiring key none u.past := by
  obtain ⟨seg, hseg⟩ := stretch henabled hstay
  obtain ⟨hkeeps, hbefore⟩ := hrun.keeps henabled key
  have hafter := (Reaches.keeps henabled (hrun.trans (hstay.weaken fun _ _ _ => trivial)) key).2
  refine ⟨seg, hseg.past, ?_, hafter⟩
  have hreplies : answers key seg =
      Bucket.replies (l.burst : 𝕜) l.perSecond (t.past.foldl (l.bucketAfter key) none)
        ((answers key seg).map Prod.fst) := by
    rw [hseg.past, answers_append, neverExpiring_append, hbefore] at hafter
    exact (List.append_cancel_left hafter).trans (neverExpiring_eq_replies hseg.evicted)
  have hwindow := Bucket.window_bound burst_nonneg henabled.le
    (fun b hb => ⟨(hkeeps.1 b hb).1, fun time htime => (hkeeps.1 b hb).2.trans (hseg.times time htime).1⟩)
    hseg.sorted (le_add_of_nonneg_right hT : a ≤ a + T)
  rw [← hreplies, add_sub_cancel_left] at hwindow
  exact hwindow

/-- A limiter of one a second, with a burst of two. -/
def onePerSecond : Limiter ℚ := .new 60 2

/-- Keys one and two ask; the last of one's requests comes after its bucket has expired. -/
def fiveRequests : List (Request Nat ℚ) :=
  [(1, 0), (1, 0), (1, 1 / 2), (2, 1), (1, 4)].map fun (key, now) => .allow key now (.at now) [1, 2]

/-- What it allows of one's requests in the first second. -/
theorem fiveRequests_allowed : ∃ t : Recorded (MemoryStore Nat (Bucket ℚ) ℚ) (Event Nat ℚ),
    runList (recording onePerSecond.step onePerSecond.records) ⟨MemoryStore.new maxBuckets 0, []⟩ fiveRequests =
        some t ∧
      answers 1 t.past = [(0, true), (0, true), (1 / 2, false), (4, true)] ∧
      (Bucket.given (fun time => decide (0 ≤ time ∧ time ≤ 0 + 1)) (answers 1 t.past) : ℚ) ≤ 2 + 1 * 1 := by
  have henabled : onePerSecond.Enabled := by decide +kernel
  have hrun : ((runList (recording onePerSecond.step onePerSecond.records)
      ⟨MemoryStore.new maxBuckets 0, []⟩ fiveRequests).map fun t => answers 1 t.past) =
      some [(0, true), (0, true), (1 / 2, false), (4, true)] := by decide +kernel
  have hok : EachStep (recording onePerSecond.step onePerSecond.records)
      (fun t request => onePerSecond.evicted t.state request ≠ some 1) ⟨MemoryStore.new maxBuckets 0, []⟩
      fiveRequests := by decide +kernel
  obtain ⟨t, ht, hanswers⟩ := Option.map_eq_some_iff.mp hrun
  obtain ⟨seg, hseg, hbound, -⟩ := limiter_law henabled .refl (.ofList _ hok ht) 0 1 zero_le_one
  have hpast : t.past = seg := hseg
  have hburst : (onePerSecond.burst : ℚ) = 2 := by decide +kernel
  have hrate : onePerSecond.perSecond = 1 := by decide +kernel
  rw [← hpast, hburst, hrate] at hbound
  exact ⟨t, ht, hanswers, hbound⟩

end Stoop.Kv.Limiter
