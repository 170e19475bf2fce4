import Stoop.Jobs.Caps
import Stoop.Jobs.Lanes

/-!
# One job of a lane at a time

`LeaseJobs` keeps a lane's later rows back while an earlier one is unfinished, and looks only that way:
a row that comes into the queue before one already running sees nothing ahead of it. A webhook delivery
is sent again under its old sequence, an upload's sequence is its arrival and its row commits later, and
a stale worker's requeue puts back a row the lane has passed.

`NoneRunsAhead` is the runs in which no lease query may take a row standing before a running one. There
a lane has one running row at most, in whatever order its rows were enqueued (`one_of_a_lane`); a
delivery sent again while the next one runs breaks it (`sent_again_beside_next`).
-/

set_option autoImplicit false

namespace Stoop.Jobs

open Stoop.Lib

/-! ## A lane's running rows -/

/-- The rows of a lane running on a live lease. -/
def liveInLane (lane : String) (now : Time) (t : Table) : Nat :=
  t.countP fun j => j.lane == some lane && j.state == .running && !j.leaseLapsed now

/-- No lease query may take a row that stands before a running row of its lane. -/
def NoneRunsAhead (w : World) : Label → Prop
  | .leaseJobs dispatcher request =>
    ∀ c ∈ w.jobs, c.lane.isSome →
      LeaseRequest.takes { request with excluded := w.inflightIds dispatcher } w.jobs c = true →
        ∀ o ∈ w.jobs, o.lane = c.lane → c.before o = true → o.state ≠ .running
  | _ => True

instance (w : World) (a : Label) : Decidable (NoneRunsAhead w a) := by
  cases a <;> unfold NoneRunsAhead <;> infer_instance

/-- The running rows of one lane are one row. -/
def OnePerLane (t : Table) : Prop :=
  ∀ j ∈ t, ∀ k ∈ t, j.lane.isSome → k.lane = j.lane → j.state = .running → k.state = .running →
    j.id = k.id

/-- A row with a lane has a sequence. -/
def Sequenced (t : Table) : Prop := ∀ j ∈ t, j.lane.isSome = j.sequence.isSome

/-- Of two rows of one lane, one stands before the other. -/
theorem Job.before_total {o c : Job} (ho : o.sequence.isSome) (hc : c.sequence.isSome)
    (hne : o.id ≠ c.id) : o.before c = true ∨ c.before o = true := by
  obtain ⟨s, hs⟩ := Option.isSome_iff_exists.mp ho
  obtain ⟨s', hs'⟩ := Option.isSome_iff_exists.mp hc
  simp only [before, hs, hs', Bool.or_eq_true, Bool.and_eq_true, decide_eq_true_eq, beq_iff_eq]
  rcases lt_trichotomy s s' with h | h | h
  · exact .inl (.inl h)
  · rcases Nat.lt_or_gt_of_ne hne with hid | hid
    · exact .inl (.inr ⟨h, hid⟩)
    · exact .inr (.inr ⟨h.symm, hid⟩)
  · exact .inr (.inl h)

/-- Where running rows of a lane are one row, a lane has one on a live lease at most. -/
theorem OnePerLane.liveInLane_le {t : Table} (one : OnePerLane t) (ids : (t.map (·.id)).Nodup)
    (lane : String) (now : Time) : liveInLane lane now t ≤ 1 := by
  by_cases hany : ∃ j ∈ t, j.lane = some lane ∧ j.state = .running
  · obtain ⟨j, hj, hlane, hrunning⟩ := hany
    refine le_trans (List.countP_mono_left fun k hk hlive => ?_) (countP_ids_le ids [j.id])
    simp only [Bool.and_eq_true, beq_iff_eq] at hlive
    have hsame : j.id = k.id := one j hj k hk (by rw [hlane]; rfl) (hlive.1.1.trans hlane.symm) hrunning
      hlive.1.2
    exact List.contains_iff_mem.mpr (List.mem_singleton.mpr hsame.symm)
  · refine le_of_eq_of_le (List.countP_eq_zero.mpr fun k hk hlive => ?_) (Nat.zero_le 1)
    simp only [Bool.and_eq_true, beq_iff_eq] at hlive
    exact hany ⟨k, hk, hlive.1⟩

/-! ## Updates that start no row -/

/-- A write that keeps each row's lane. -/
theorem Sequenced.update {t : Table} (h : Sequenced t) {p : Job → Bool} {f : Job → Job}
    (hlane : ∀ j, (f j).lane = j.lane) (hsequence : ∀ j, (f j).sequence = j.sequence) :
    Sequenced (t.update p f) := by
  intro j' hj'
  obtain ⟨j, hj, ⟨_, rfl⟩ | ⟨_, rfl⟩⟩ := Table.mem_update_cases hj'
  · rw [hlane, hsequence]
    exact h j hj
  · exact h j' hj

/-- A write that leaves running only rows that were. -/
theorem OnePerLane.update {t : Table} (h : OnePerLane t) {p : Job → Bool} {f : Job → Job}
    (hid : ∀ j, (f j).id = j.id) (hlane : ∀ j, (f j).lane = j.lane)
    (hstill : ∀ j ∈ t, p j = true → (f j).state = .running → j.state = .running) :
    OnePerLane (t.update p f) := by
  have hwas : ∀ j' ∈ t.update p f,
      ∃ j ∈ t, j.id = j'.id ∧ j.lane = j'.lane ∧ (j'.state = .running → j.state = .running) := by
    intro j' hj'
    obtain ⟨j, hj, ⟨hp, rfl⟩ | ⟨_, rfl⟩⟩ := Table.mem_update_cases hj'
    · exact ⟨j, hj, (hid j).symm, (hlane j).symm, hstill j hj hp⟩
    · exact ⟨j', hj, rfl, rfl, id⟩
  intro j' hj' k' hk' hin hsame hj'run hk'run
  obtain ⟨j, hj, hjid, hjlane, hjrun⟩ := hwas j' hj'
  obtain ⟨k, hk, hkid, hklane, hkrun⟩ := hwas k' hk'
  rw [← hjid, ← hkid]
  exact h j hj k hk (hjlane ▸ hin) (hklane.trans (hsame.trans hjlane.symm)) (hjrun hj'run) (hkrun hk'run)

/-! ## The lease -/

/-- **A lease takes a lane's head**, and no other row of the lane runs once none after it does. -/
theorem OnePerLane.lease {t : Table} (h : OnePerLane t) (ids : (t.map (·.id)).Nodup)
    (sequenced : Sequenced t) {r : LeaseRequest}
    (clear : ∀ c ∈ t, c.lane.isSome → r.takes t c = true →
      ∀ o ∈ t, o.lane = c.lane → c.before o = true → o.state ≠ .running) :
    OnePerLane (leaseJobs r t) := by
  -- a row leased has no other row of its lane leased or running
  have halone : ∀ c ∈ t, (r.picks t).contains c.id = true → c.lane.isSome → ∀ o ∈ t,
      o.lane = c.lane → ((r.picks t).contains o.id = true ∨ o.state = .running) → c.id = o.id := by
    intro c hc hpicked hin o ho hlane hrun
    by_contra hne
    have hctakes := takes_of_picks ids hc hpicked
    have hhead : ∀ {a b : Job}, a ∈ t → r.takes t b = true → b.lane.isSome → a.lane = b.lane →
        a.before b = true → a.unfinished = false := by
      intro a b ha hb hbin hab hbefore
      simp only [LeaseRequest.takes, Bool.and_eq_true] at hb
      exact Job.isHead_spec hb.1.2 hbin ha hab hbefore
    have hunfinished : o.unfinished = true := by
      rcases hrun with hrun | hrun
      · have hotakes := takes_of_picks ids ho hrun
        simp only [LeaseRequest.takes, Bool.and_eq_true] at hotakes
        exact hotakes.1.1.1.1.1.1
      · simp [Job.unfinished, hrun]
    have hosome : o.sequence.isSome = true := by rw [← sequenced o ho, hlane, hin]
    have hcsome : c.sequence.isSome = true := by rw [← sequenced c hc, hin]
    rcases Job.before_total hosome hcsome (Ne.symm hne) with hbefore | hbefore
    · -- an earlier row is finished, the row leased being the head
      rw [hhead ho hctakes hin hlane hbefore] at hunfinished
      cases hunfinished
    · rcases hrun with hrun | hrun
      · have hcunfinished := hhead hc (takes_of_picks ids ho hrun) (hlane ▸ hin) hlane.symm hbefore
        simp only [LeaseRequest.takes, Bool.and_eq_true, hcunfinished, Bool.false_eq_true,
          false_and] at hctakes
      · exact clear c hc hin hctakes o ho hlane hbefore hrun
  intro j' hj' k' hk' hin hsame hjrun hkrun
  obtain ⟨j, hj, ⟨hp, rfl⟩ | ⟨hp, rfl⟩⟩ := mem_leaseJobs hj'
  · obtain ⟨k, hk, ⟨hq, rfl⟩ | ⟨_, rfl⟩⟩ := mem_leaseJobs hk'
    · exact halone j hj hp hin k hk hsame (.inl hq)
    · exact halone j hj hp hin k' hk hsame (.inr hkrun)
  · obtain ⟨k, hk, ⟨hq, rfl⟩ | ⟨_, rfl⟩⟩ := mem_leaseJobs hk'
    · exact (halone k hk hq (hsame ▸ hin) j' hj hsame.symm (.inr hjrun)).symm
    · exact h j' hj k' hk hin hsame hjrun hkrun

/-! ## The invariant -/

/-- Each lane runs one row at most. -/
structure Serial (w : World) : Prop where
  apart : Apart w
  sequenced : Sequenced w.jobs
  one : OnePerLane w.jobs

theorem serial_empty : Serial World.empty where
  apart := apart_empty
  sequenced := fun _ hj => absurd hj List.not_mem_nil
  one := fun _ hj => absurd hj List.not_mem_nil

namespace Serial

variable {w w' : World} {a : Label}

/-- A step that writes rows and starts none. -/
theorem update (inv : Serial w) {t : Table} {held : List Holder} {leases : List JobId}
    {p : Job → Bool} {f : Job → Job} (apart : Apart ⟨t, held, leases⟩) (ht : t = w.jobs.update p f)
    (hplace : ∀ j, (f j).id = j.id ∧ (f j).lane = j.lane ∧ (f j).sequence = j.sequence)
    (hstill : ∀ j ∈ w.jobs, p j = true → (f j).state = .running → j.state = .running) :
    Serial ⟨t, held, leases⟩ where
  apart := apart
  sequenced := ht ▸ inv.sequenced.update (fun j => (hplace j).2.1) fun j => (hplace j).2.2
  one := ht ▸ inv.one.update (fun j => (hplace j).1) (fun j => (hplace j).2.1) hstill

/-- A step that leaves the table, or drops rows of it. -/
theorem sub (inv : Serial w) (apart : Apart w') (hsub : ∀ j ∈ w'.jobs, j ∈ w.jobs) : Serial w' where
  apart := apart
  sequenced j hj := inv.sequenced j (hsub j hj)
  one j hj k hk := inv.one j (hsub j hj) k (hsub k hk)

/-- One step. -/
theorem step (inv : Serial w) (clear : NoneRunsAhead w a) (hstep : w.step a = some w') : Serial w' := by
  have apart := inv.apart.step hstep
  have hset : ∀ (write : OutcomeWrite) (j : Job),
      (write.set j).id = j.id ∧ (write.set j).lane = j.lane ∧ (write.set j).sequence = j.sequence :=
    fun write j => by cases write <;> exact ⟨rfl, rfl, rfl⟩
  cases a with
  | insertJob id kind args lane sequence maxAttempts notBefore now =>
    simp only [World.step] at hstep
    split at hstep
    · cases hstep
    · next hfresh =>
      have hchecked : lane.isSome = sequence.isSome := not_not.mp (not_or.mp (not_or.mp hfresh).2).2
      rw [← Option.some.inj hstep] at apart ⊢
      refine ⟨apart, ?_, ?_⟩
      · intro j hj
        rcases List.mem_append.mp hj with hj | hj
        · exact inv.sequenced j hj
        · obtain rfl := List.mem_singleton.mp hj
          exact hchecked
      · -- the row enqueued is queued
        have hold : ∀ j ∈ w.jobs ++ [insertJob id kind args lane sequence maxAttempts notBefore now],
            j.state = .running → j ∈ w.jobs := by
          intro j hj hrunning
          refine (List.mem_append.mp hj).resolve_right fun hnew => ?_
          rw [List.mem_singleton.mp hnew] at hrunning
          cases hrunning
        intro j hj k hk hin hlane hjrun hkrun
        exact inv.one j (hold j hj hjrun) k (hold k hk hkrun) hin hlane hjrun hkrun
  | leaseJobs dispatcher request =>
    rw [← Option.some.inj hstep] at apart ⊢
    exact ⟨apart, inv.sequenced.update (fun _ => rfl) (fun _ => rfl),
      inv.one.lease inv.apart.ids inv.sequenced clear⟩
  | extendJobLease lease until_ =>
    obtain ⟨k, _, rfl⟩ := Option.map_eq_some_iff.mp hstep
    refine inv.update apart rfl (hset _) fun j _ hon _ => ?_
    simp only [OutcomeWrite.on, Bool.and_eq_true, beq_iff_eq] at hon
    exact hon.2
  | claim lease =>
    obtain ⟨k, _, rfl⟩ := Option.map_eq_some_iff.mp hstep
    exact inv.sub apart fun _ hj => hj
  | writeOutcome lease opts now counters result =>
    obtain ⟨k, _, rfl⟩ := Option.map_eq_some_iff.mp hstep
    exact inv.update apart rfl (hset _) fun _ _ _ hrunning => absurd hrunning writeOutcome_stops
  | remove lease =>
    obtain ⟨k, _, rfl⟩ := Option.map_eq_some_iff.mp hstep
    exact inv.sub apart fun _ hj => hj
  | drain dispatcher =>
    rw [← Option.some.inj hstep] at apart ⊢
    exact inv.sub apart fun _ hj => hj
  | releaseJobs dispatcher =>
    rw [← Option.some.inj hstep] at apart ⊢
    exact inv.update apart rfl (fun _ => ⟨rfl, rfl, rfl⟩) fun _ _ _ => by rintro ⟨⟩
  | crash dispatcher =>
    rw [← Option.some.inj hstep] at apart ⊢
    exact inv.sub apart fun _ hj => hj
  | discardLane lane now error =>
    rw [← Option.some.inj hstep] at apart ⊢
    exact inv.update apart rfl (fun _ => ⟨rfl, rfl, rfl⟩) fun _ _ _ => by rintro ⟨⟩
  | sweepFinishedJobs before =>
    rw [← Option.some.inj hstep] at apart ⊢
    exact inv.sub apart fun j hj => (List.mem_filter.mp hj).1

/-- Every run. -/
theorem runs (run : Runs World.step NoneRunsAhead World.empty w) : Serial w :=
  run.keeps serial_empty fun _ _ _ inv clear hstep => inv.step clear hstep

end Serial

/-- **One job of a lane at a time**, in whatever order a lane's rows are enqueued, where no row is leased
before a running one. -/
theorem one_of_a_lane {w : World} (run : Runs World.step NoneRunsAhead World.empty w) (lane : String)
    (now : Time) : liveInLane lane now w.jobs ≤ 1 :=
  (Serial.runs run).one.liveInLane_le (Serial.runs run).apart.ids lane now

/-! ## A delivery sent again -/

/-- The first delivery of a lane fails for good, and is sent again under its old sequence before the
next is leased. -/
def sentAgainFirst : List Label :=
  [.insertJob 1 "laned" "{}" (some "A") (some 1) 1 0 0, .leaseJobs 0 (laneLease 0), .claim (1, 1),
    .writeOutcome (1, 1) laneOptions 1 none (some { refused with discard := true }),
    .insertJob 2 "laned" "{}" (some "A") (some 2) 4 2 2, .insertJob 3 "laned" "{}" (some "A") (some 1) 4 3 3,
    .leaseJobs 0 (laneLease 4), .leaseJobs 1 (laneLease 5)]

/-- The same, sent again once the next runs. -/
def sentAgainLate : List Label :=
  [.insertJob 1 "laned" "{}" (some "A") (some 1) 1 0 0, .leaseJobs 0 (laneLease 0), .claim (1, 1),
    .writeOutcome (1, 1) laneOptions 1 none (some { refused with discard := true }),
    .insertJob 2 "laned" "{}" (some "A") (some 2) 4 2 2, .leaseJobs 0 (laneLease 3),
    .insertJob 3 "laned" "{}" (some "A") (some 1) 4 4 4, .leaseJobs 0 (laneLease 5)]

/-- Sent again in time, it alone is leased. -/
theorem sentAgainFirst_alone :
    ((runList World.step World.empty sentAgainFirst).map fun w => liveInLane "A" 5 w.jobs) = some 1 ∧
      ∀ w, runList World.step World.empty sentAgainFirst = some w → liveInLane "A" 5 w.jobs ≤ 1 :=
  ⟨by decide, fun _ h => one_of_a_lane (Runs.ofList sentAgainFirst (by decide) h) "A" 5⟩

/-- **Sent again while the next one runs, a delivery runs beside it.** -/
theorem sent_again_beside_next :
    ¬ ∀ w, Runs World.step Always World.empty w → ∀ lane now, liveInLane lane now w.jobs ≤ 1 := by
  intro claim
  have one := claim ((runList World.step World.empty sentAgainLate).getD World.empty)
    (Runs.ofList sentAgainLate (EachStep.always _ _) rfl) "A" 5
  exact absurd one (by decide)

end Stoop.Jobs
