import Mathlib
import Stoop.Jobs.Attempts

/-!
# Lanes

A row with a lane is leased at its lane's head: `LeaseJobs` passes over a row while another unfinished
row of the lane stands before it. What that gives over a run is `lane_order`: when a row is leased,
every row before it in its lane was enqueued, has finished, stays finished and is leased no more.

Staying finished needs a condition. The outcome writes match a row by id and attempt and not by its
state, so a worker at the attempt a row was discarded at can put it back: `DiscardLane` ends a queued
row whose attempt a release gave back under the worker, and that worker's failure queues it again
(`discarded_row_comes_back`). `DiscardClear` excludes the discard that does so.

The rows enqueued are recorded beside the machine, as rows of the table are swept once finished.
-/

set_option autoImplicit false

namespace Stoop.Jobs

open Stoop.Lib

/-! ## Rows by their place -/

/-- The place in a lane is a strict order. -/
theorem Job.before_asymm {o c : Job} (h : o.before c = true) : ¬ c.before o = true := by
  intro h'
  unfold Job.before at h h'
  cases ho : o.sequence with
  | none => simp [ho] at h
  | some s =>
    cases hc : c.sequence with
    | none => simp [ho, hc] at h
    | some s' =>
      simp only [ho, hc, Bool.or_eq_true, Bool.and_eq_true, decide_eq_true_eq, beq_iff_eq] at h h'
      rcases h with h | ⟨hs, h⟩ <;> rcases h' with h' | ⟨hs', h'⟩
      · exact lt_asymm h h'
      · exact h.ne hs'.symm
      · exact h'.ne hs.symm
      · exact lt_asymm h h'

/-- Rows of one place and lane stand alike. -/
theorem Job.before_congr {o o' c c' : Job} (ho : o.id = o'.id ∧ o.sequence = o'.sequence)
    (hc : c.id = c'.id ∧ c.sequence = c'.sequence) : o.before c = o'.before c' := by
  unfold Job.before
  rw [ho.1, ho.2, hc.1, hc.2]

/-- The head of a lane has no unfinished row of the lane before it. -/
theorem Job.isHead_spec {t : Table} {o c : Job} (h : c.isHead t = true) (hin : c.lane.isSome)
    (ho : o ∈ t) (hlane : o.lane = c.lane) (hbefore : o.before c = true) : o.unfinished = false := by
  have hnone : c.lane.isNone = false := by
    rw [← Option.not_isSome, hin]
    rfl
  rw [Job.isHead, hnone, Bool.false_or, Bool.not_eq_true', List.any_eq_false] at h
  have hnot := h o ho
  simp only [hlane, beq_self_eq_true, hbefore, Bool.and_true, Bool.true_and, Bool.not_eq_true] at hnot
  exact hnot

/-! ## The record of what was enqueued -/

/-- The row a step enqueues. -/
def Label.enqueued : Label → List Job
  | .insertJob id kind args lane sequence maxAttempts notBefore now =>
    [Jobs.insertJob id kind args lane sequence maxAttempts notBefore now]
  | _ => []

/-- A step enqueues one row at most. -/
theorem Label.enqueued_cases (a : Label) : a.enqueued = [] ∨ ∃ j, a.enqueued = [j] := by
  cases a with
  | insertJob => exact .inr ⟨_, rfl⟩
  | _ => exact .inl rfl

/-- The world, and every row enqueued so far as it was enqueued. -/
abbrev History := Recorded World Job

/-- Before any job. -/
def History.empty : History := ⟨World.empty, []⟩

/-- One step, with the row it enqueues. -/
def History.step : History → Label → Option History := recording World.step fun _ a => a.enqueued

/-- A row is enqueued under a fresh id, and past every row its lane was given before. -/
def EnqueuedInOrder (h : History) (a : Label) : Prop :=
  ∀ j ∈ a.enqueued, j.id ∉ h.past.map (·.id) ∧
    ∀ o ∈ h.past, j.lane.isSome → o.lane = j.lane → o.before j = true

/-- The rows a lane discard ends. -/
def Label.discards : Label → Job → Bool
  | .discardLane lane _ _, j => j.lane == some lane && j.state == .queued
  | _, _ => false

/-- A lane discard ends no row at the attempt that a worker still at work on it was leased for. -/
def DiscardClear (w : World) (a : Label) : Prop :=
  ∀ j ∈ w.jobs, a.discards j = true →
    ∀ g ∈ w.held, g.row.id = j.id → g.row.attempt = j.attempt → g.phase = .drained

/-- What the lane laws ask of a step: rows enqueued in order, discards clear. -/
def LaneClear (h : History) (a : Label) : Prop := EnqueuedInOrder h a ∧ DiscardClear h.state a

instance (h : History) (a : Label) : Decidable (EnqueuedInOrder h a) :=
  inferInstanceAs (Decidable (∀ j ∈ a.enqueued, j.id ∉ h.past.map (·.id) ∧
    ∀ o ∈ h.past, j.lane.isSome → o.lane = j.lane → o.before j = true))

instance (w : World) (a : Label) : Decidable (DiscardClear w a) :=
  inferInstanceAs (Decidable (∀ j ∈ w.jobs, a.discards j = true →
    ∀ g ∈ w.held, g.row.id = j.id → g.row.attempt = j.attempt → g.phase = .drained))

instance (h : History) (a : Label) : Decidable (LaneClear h a) :=
  inferInstanceAs (Decidable (_ ∧ _))

/-- A row has finished: succeeded or discarded, or swept since. -/
def World.Finished (w : World) (id : JobId) : Prop :=
  ∀ j ∈ w.jobs, j.id = id → j.unfinished = false

instance (w : World) (id : JobId) : Decidable (w.Finished id) :=
  inferInstanceAs (Decidable (∀ j ∈ w.jobs, j.id = id → j.unfinished = false))

/-! ## The invariant -/

/-- The rows of the table are rows enqueued, in order; and no worker at work can match a finished
row. -/
structure Settled (h : History) : Prop where
  apart : Apart h.state
  fresh : (h.past.map (·.id)).Nodup
  order : h.past.Pairwise fun o j => j.lane.isSome → o.lane = j.lane → o.before j = true
  known : ∀ j ∈ h.state.jobs,
    ∃ e ∈ h.past, e.id = j.id ∧ e.lane = j.lane ∧ e.sequence = j.sequence
  done : ∀ j ∈ h.state.jobs, j.unfinished = false →
    ∀ g ∈ h.state.held, g.row.id = j.id → g.row.attempt = j.attempt → g.phase = .drained

theorem settled_empty : Settled History.empty where
  apart := apart_empty
  fresh := List.nodup_nil
  order := List.Pairwise.nil
  known := fun _ hj => absurd hj List.not_mem_nil
  done := fun _ hj => absurd hj List.not_mem_nil

namespace Settled

variable {h h' : History} {a : Label}

/-- A row of the table stands where it was enqueued. -/
theorem same (inv : Settled h) {e j : Job} (he : e ∈ h.past) (hj : j ∈ h.state.jobs)
    (hid : e.id = j.id) : e.lane = j.lane ∧ e.sequence = j.sequence := by
  obtain ⟨e', he', hid', hplace⟩ := inv.known j hj
  rwa [List.inj_on_of_nodup_map inv.fresh he he' (hid.trans hid'.symm)]

/-- The record grows in order. -/
theorem record (inv : Settled h) (inOrder : EnqueuedInOrder h a) (hstep : h.step a = some h') :
    (h'.past.map (·.id)).Nodup ∧
      h'.past.Pairwise fun o j => j.lane.isSome → o.lane = j.lane → o.before j = true := by
  rw [(recording_eq_some hstep).2]
  rcases a.enqueued_cases with hnone | ⟨j, hone⟩
  · rw [hnone, List.append_nil]
    exact ⟨inv.fresh, inv.order⟩
  · rw [EnqueuedInOrder, hone, List.forall_mem_singleton] at inOrder
    rw [hone, List.map_append]
    refine ⟨inv.fresh.append (List.nodup_singleton _) ?_, List.pairwise_append.mpr
      ⟨inv.order, List.pairwise_singleton _ _, ?_⟩⟩
    · exact List.disjoint_singleton.mpr inOrder.1
    · intro o ho k hk
      obtain rfl := List.mem_singleton.mp hk
      exact inOrder.2 o ho

/-- A step leaves each row's id, lane and sequence, and adds only the row it enqueues. -/
theorem known_step (inv : Settled h) (hstep : h.step a = some h') : ∀ j ∈ h'.state.jobs,
    ∃ e ∈ h'.past, e.id = j.id ∧ e.lane = j.lane ∧ e.sequence = j.sequence := by
  obtain ⟨hworld, hpast⟩ := recording_eq_some hstep
  have hold : ∀ j ∈ h.state.jobs,
      ∃ e ∈ h'.past, e.id = j.id ∧ e.lane = j.lane ∧ e.sequence = j.sequence := by
    intro j hj
    obtain ⟨e, he, hsame⟩ := inv.known j hj
    exact ⟨e, hpast ▸ List.mem_append_left _ he, hsame⟩
  have hupdate : ∀ (p : Job → Bool) (f : Job → Job),
      (∀ j, (f j).id = j.id ∧ (f j).lane = j.lane ∧ (f j).sequence = j.sequence) →
      ∀ j ∈ h.state.jobs.update p f,
        ∃ e ∈ h'.past, e.id = j.id ∧ e.lane = j.lane ∧ e.sequence = j.sequence := by
    intro p f hf j' hj'
    obtain ⟨j, hj, rfl⟩ := Table.mem_update hj'
    split
    · rw [(hf j).1, (hf j).2.1, (hf j).2.2]
      exact hold j hj
    · exact hold j hj
  have hset : ∀ (write : OutcomeWrite) (j : Job),
      (write.set j).id = j.id ∧ (write.set j).lane = j.lane ∧ (write.set j).sequence = j.sequence :=
    fun write j => by cases write <;> exact ⟨rfl, rfl, rfl⟩
  cases a with
  | insertJob id kind args lane sequence maxAttempts notBefore now =>
    simp only [World.step] at hworld
    split at hworld
    · cases hworld
    · rw [← Option.some.inj hworld]
      intro j hj
      rcases List.mem_append.mp hj with hj | hj
      · exact hold j hj
      · exact ⟨j, hpast ▸ List.mem_append_right _ hj, rfl, rfl, rfl⟩
  | leaseJobs dispatcher request =>
    rw [← Option.some.inj hworld]
    exact hupdate _ _ fun _ => ⟨rfl, rfl, rfl⟩
  | extendJobLease lease until_ =>
    obtain ⟨k, _, hk⟩ := Option.map_eq_some_iff.mp hworld
    rw [← hk]
    exact hupdate _ _ (hset _)
  | claim lease =>
    obtain ⟨k, _, hk⟩ := Option.map_eq_some_iff.mp hworld
    rw [← hk]
    exact hold
  | writeOutcome lease opts now counters result =>
    obtain ⟨k, _, hk⟩ := Option.map_eq_some_iff.mp hworld
    rw [← hk]
    exact hupdate _ _ (hset _)
  | remove lease =>
    obtain ⟨k, _, hk⟩ := Option.map_eq_some_iff.mp hworld
    rw [← hk]
    exact hold
  | drain dispatcher =>
    rw [← Option.some.inj hworld]
    exact hold
  | releaseJobs dispatcher =>
    rw [← Option.some.inj hworld]
    exact hupdate _ _ fun _ => ⟨rfl, rfl, rfl⟩
  | crash dispatcher =>
    rw [← Option.some.inj hworld]
    exact hold
  | discardLane lane now error =>
    rw [← Option.some.inj hworld]
    exact hupdate _ _ fun _ => ⟨rfl, rfl, rfl⟩
  | sweepFinishedJobs before =>
    rw [← Option.some.inj hworld]
    exact fun j hj => hold j (List.mem_filter.mp hj).1

/-- No step lets a worker at work match a finished row that it could not match before, when a lane
discard that ends rows is clear. -/
theorem done_step (inv : Settled h) (clear : DiscardClear h.state a) (hstep : h.step a = some h') :
    ∀ j ∈ h'.state.jobs, j.unfinished = false →
      ∀ g ∈ h'.state.held, g.row.id = j.id → g.row.attempt = j.attempt → g.phase = .drained := by
  obtain ⟨hworld, _⟩ := recording_eq_some hstep
  cases a with
  | insertJob id kind args lane sequence maxAttempts notBefore now =>
    simp only [World.step] at hworld
    split at hworld
    · cases hworld
    · rw [← Option.some.inj hworld]
      intro j hj hdone
      rcases List.mem_append.mp hj with hj | hj
      · exact inv.done j hj hdone
      · obtain rfl := List.mem_singleton.mp hj
        simp [insertJob, Job.unfinished] at hdone
  | leaseJobs dispatcher request =>
    rw [← Option.some.inj hworld]
    intro j' hj' hdone g hg hid
    obtain ⟨j, hj, ⟨_, rfl⟩ | ⟨hp, rfl⟩⟩ := mem_leaseJobs hj'
    · simp [LeaseRequest.leased, Job.unfinished] at hdone
    · rcases List.mem_append.mp hg with hg | hg
      · exact inv.done j' hj hdone g hg hid
      · -- the row was left: it is not among those handed out
        obtain ⟨k, hk, hpk, hrow⟩ := mem_leasedRows.mp (mem_handed hg).1
        have hsame : j' = k := eq_of_id inv.apart.ids hj hk (by rw [← hid, hrow]; rfl)
        rw [hsame, hpk] at hp
        exact absurd hp.symm Bool.false_ne_true
  | extendJobLease lease until_ =>
    obtain ⟨k, _, hk⟩ := Option.map_eq_some_iff.mp hworld
    rw [← hk]
    intro j' hj' hdone
    obtain ⟨j, hj, ⟨hon, rfl⟩ | ⟨_, rfl⟩⟩ := Table.mem_update_cases hj'
    · simp only [OutcomeWrite.on, Bool.and_eq_true, beq_iff_eq] at hon
      simp [OutcomeWrite.set, Job.unfinished, hon.2] at hdone
    · exact inv.done j' hj hdone
  | claim lease =>
    obtain ⟨k, hfound, hk⟩ := Option.map_eq_some_iff.mp hworld
    obtain ⟨hkheld, hname, hphase⟩ := holder_spec hfound
    rw [← hk]
    intro j hj hdone g' hg'
    obtain ⟨g, hg, rfl⟩ := List.mem_map.mp hg'
    split
    · next heq =>
      obtain rfl := inv.apart.unique g hg k hkheld (heq.trans hname.symm)
      intro hid hattempt
      exact absurd ((inv.done j hj hdone g hg hid hattempt).symm.trans hphase) (by rintro ⟨⟩)
    · exact inv.done j hj hdone g hg
  | writeOutcome lease opts now counters result =>
    obtain ⟨k, hfound, hk⟩ := Option.map_eq_some_iff.mp hworld
    obtain ⟨hkheld, hname, _⟩ := holder_spec hfound
    rw [← hk]
    intro j' hj' hdone g hg
    obtain ⟨hgheld, hne⟩ := List.mem_filter.mp hg
    obtain ⟨j, hj, ⟨hon, rfl⟩ | ⟨_, rfl⟩⟩ := Table.mem_update_cases hj'
    · -- the writer was alone at the row's attempt, and is done with it
      rw [OutcomeWrite.set_id, OutcomeWrite.set_attempt]
      intro hid hattempt
      obtain ⟨hjid, hjattempt⟩ := OutcomeWrite.on_spec hon
      obtain rfl := inv.apart.alone g hgheld k hkheld (hid.trans hjid) (hattempt.trans hjattempt)
      simp [hname] at hne
    · exact inv.done j' hj hdone g hgheld
  | remove lease =>
    obtain ⟨k, _, hk⟩ := Option.map_eq_some_iff.mp hworld
    rw [← hk]
    exact fun j hj hdone g hg => inv.done j hj hdone g (List.mem_filter.mp hg).1
  | drain dispatcher =>
    rw [← Option.some.inj hworld]
    intro j hj hdone g' hg'
    obtain ⟨g, hg, rfl⟩ := List.mem_map.mp hg'
    split
    · exact fun _ _ => rfl
    · exact inv.done j hj hdone g hg
  | releaseJobs dispatcher =>
    rw [← Option.some.inj hworld]
    intro j' hj' hdone g hg
    obtain ⟨j, hj, ⟨_, rfl⟩ | ⟨_, rfl⟩⟩ := Table.mem_update_cases hj'
    · simp [Job.released, Job.unfinished] at hdone
    · exact inv.done j' hj hdone g (List.mem_filter.mp hg).1
  | crash dispatcher =>
    rw [← Option.some.inj hworld]
    exact fun j hj hdone g hg => inv.done j hj hdone g (List.mem_filter.mp hg).1
  | discardLane lane now error =>
    rw [← Option.some.inj hworld]
    intro j' hj' hdone
    obtain ⟨j, hj, ⟨hends, rfl⟩ | ⟨_, rfl⟩⟩ := Table.mem_update_cases hj'
    · exact clear j hj hends
    · exact inv.done j' hj hdone
  | sweepFinishedJobs before =>
    rw [← Option.some.inj hworld]
    exact fun j hj => inv.done j (List.mem_filter.mp hj).1

/-- One step. -/
theorem step (inv : Settled h) (clear : LaneClear h a) (hstep : h.step a = some h') : Settled h' where
  apart := inv.apart.step (recording_eq_some hstep).1
  fresh := (inv.record clear.1 hstep).1
  order := (inv.record clear.1 hstep).2
  known := inv.known_step hstep
  done := inv.done_step clear.2 hstep

/-- Every run. -/
theorem runs (run : Runs History.step LaneClear History.empty h) : Settled h :=
  run.keeps settled_empty fun _ _ _ inv clear hstep => inv.step clear hstep

/-! ## Finished for good -/

/-- A finished row is not leased. -/
theorem finished_not_leased (inv : Settled h) {id : JobId} (hdone : h.state.Finished id)
    (r : LeaseRequest) : id ∉ (leasedRows r h.state.jobs).map (·.id) := by
  intro hmem
  obtain ⟨row, hrow, hid⟩ := List.mem_map.mp hmem
  obtain ⟨j, hj, hp, rfl⟩ := mem_leasedRows.mp hrow
  have htakes := takes_of_picks inv.apart.ids hj hp
  simp only [LeaseRequest.takes, Bool.and_eq_true, hdone j hj hid, Bool.false_eq_true, false_and] at htakes

/-- **A finished row stays finished**, and is leased no more. -/
theorem finished_step (inv : Settled h) (clear : LaneClear h a) (hstep : h.step a = some h') {o : Job}
    (ho : o ∈ h.past) (hdone : h.state.Finished o.id) :
    h'.state.Finished o.id ∧ h'.state.turns o.id = h.state.turns o.id := by
  obtain ⟨hworld, _⟩ := recording_eq_some hstep
  have hupdate : ∀ (p : Job → Bool) (f : Job → Job), (∀ j, (f j).id = j.id) →
      (∀ j ∈ h.state.jobs, p j = true → j.id = o.id → (f j).unfinished = false) →
      ∀ j' ∈ h.state.jobs.update p f, j'.id = o.id → j'.unfinished = false := by
    intro p f hf hp j' hj' hid
    obtain ⟨j, hj, ⟨hpj, rfl⟩ | ⟨_, rfl⟩⟩ := Table.mem_update_cases hj'
    · exact hp j hj hpj ((hf j).symm.trans hid)
    · exact hdone j' hj hid
  cases a with
  | insertJob id kind args lane sequence maxAttempts notBefore now =>
    simp only [World.step] at hworld
    split at hworld
    · cases hworld
    · rw [← Option.some.inj hworld]
      refine ⟨fun j hj hid => ?_, rfl⟩
      rcases List.mem_append.mp hj with hj | hj
      · exact hdone j hj hid
      · obtain rfl := List.mem_singleton.mp hj
        exact absurd (List.mem_map.mpr ⟨o, ho, hid.symm⟩)
          (clear.1 _ (List.mem_singleton_self _)).1
  | leaseJobs dispatcher request =>
    rw [← Option.some.inj hworld]
    have hnot := inv.finished_not_leased hdone
      { request with excluded := h.state.inflightIds dispatcher }
    constructor
    · intro j' hj' hid
      obtain ⟨j, hj, ⟨hp, rfl⟩ | ⟨_, rfl⟩⟩ := mem_leaseJobs hj'
      · exact absurd (List.mem_map.mpr ⟨_, mem_leasedRows.mpr ⟨j, hj, hp, rfl⟩, hid⟩) hnot
      · exact hdone j' hj hid
    · show List.count _ (_ ++ _) = _
      rw [count_leases inv.apart.ids, if_neg hnot, Nat.add_zero]
  | extendJobLease lease until_ =>
    obtain ⟨k, _, hk⟩ := Option.map_eq_some_iff.mp hworld
    rw [← hk]
    refine ⟨hupdate _ _ (OutcomeWrite.set_id _) fun j hj hon hid => ?_, rfl⟩
    simp only [OutcomeWrite.on, Bool.and_eq_true, beq_iff_eq] at hon
    have hfinished := hdone j hj hid
    simp [Job.unfinished, hon.2] at hfinished
  | claim lease =>
    obtain ⟨k, _, hk⟩ := Option.map_eq_some_iff.mp hworld
    rw [← hk]
    exact ⟨hdone, rfl⟩
  | writeOutcome lease opts now counters result =>
    obtain ⟨k, hfound, hk⟩ := Option.map_eq_some_iff.mp hworld
    obtain ⟨hkheld, _, hphase⟩ := holder_spec hfound
    rw [← hk]
    refine ⟨hupdate _ _ (OutcomeWrite.set_id _) fun j hj hon hid => ?_, rfl⟩
    obtain ⟨hjid, hjattempt⟩ := OutcomeWrite.on_spec hon
    have hdrained := inv.done j hj (hdone j hj hid) k hkheld hjid.symm hjattempt.symm
    rw [hphase] at hdrained
    cases hdrained
  | remove lease =>
    obtain ⟨k, _, hk⟩ := Option.map_eq_some_iff.mp hworld
    rw [← hk]
    exact ⟨hdone, rfl⟩
  | drain dispatcher =>
    rw [← Option.some.inj hworld]
    exact ⟨hdone, rfl⟩
  | releaseJobs dispatcher =>
    rw [← Option.some.inj hworld]
    refine ⟨hupdate _ _ (fun _ => rfl) fun j hj hon hid => ?_, rfl⟩
    have hfinished := hdone j hj hid
    simp [Job.unfinished, (holder_of_releases hon).1] at hfinished
  | crash dispatcher =>
    rw [← Option.some.inj hworld]
    exact ⟨hdone, rfl⟩
  | discardLane lane now error =>
    rw [← Option.some.inj hworld]
    exact ⟨hupdate _ _ (fun _ => rfl) fun _ _ _ _ => rfl, rfl⟩
  | sweepFinishedJobs before =>
    rw [← Option.some.inj hworld]
    exact ⟨fun j hj => hdone j (List.mem_filter.mp hj).1, rfl⟩

/-- Over a run. -/
theorem finished_run (inv : Settled h) (later : Runs History.step LaneClear h h') {o : Job}
    (ho : o ∈ h.past) (hdone : h.state.Finished o.id) :
    h'.state.Finished o.id ∧ h'.state.turns o.id = h.state.turns o.id := by
  suffices kept : Settled h' ∧ o ∈ h'.past ∧ h'.state.Finished o.id ∧
      h'.state.turns o.id = h.state.turns o.id from kept.2.2
  induction later with
  | refl => exact ⟨inv, ho, hdone, rfl⟩
  | tail _ clear hstep ih =>
    obtain ⟨hinv, hmem, hfin, hturns⟩ := ih
    obtain ⟨hfin', hturns'⟩ := hinv.finished_step clear hstep hmem hfin
    exact ⟨hinv.step clear hstep, (recording_eq_some hstep).2 ▸ List.mem_append_left _ hmem, hfin',
      hturns'.trans hturns⟩

end Settled

/-! ## The order of a lane -/

/-- Only a lease query leases, and it leases rows of the table at their lanes' heads. -/
theorem leases_head {h h' : History} {a : Label} (inv : Settled h) (hstep : h.step a = some h')
    {id : JobId} (hleased : h.state.turns id < h'.state.turns id) :
    h'.past = h.past ∧ ∃ j ∈ h.state.jobs, j.id = id ∧ j.isHead h.state.jobs = true := by
  obtain ⟨hworld, hpast⟩ := recording_eq_some hstep
  have hsame : h'.state.leases = h.state.leases → False := by
    intro heq
    rw [World.turns, World.turns, heq] at hleased
    exact Nat.lt_irrefl _ hleased
  cases a with
  | leaseJobs dispatcher request =>
    refine ⟨hpast.trans (List.append_nil _), ?_⟩
    rw [← Option.some.inj hworld] at hleased
    have hcount := hleased.trans_eq (count_leases inv.apart.ids id)
    split at hcount
    · next hmem =>
      obtain ⟨row, hrow, hid⟩ := List.mem_map.mp hmem
      obtain ⟨j, hj, hp, rfl⟩ := mem_leasedRows.mp hrow
      have htakes := takes_of_picks inv.apart.ids hj hp
      simp only [LeaseRequest.takes, Bool.and_eq_true] at htakes
      exact ⟨j, hj, hid, htakes.1.2⟩
    · exact absurd hcount (Nat.lt_irrefl _)
  | insertJob id kind args lane sequence maxAttempts notBefore now =>
    simp only [World.step] at hworld
    split at hworld
    · cases hworld
    · exact (hsame (by rw [← Option.some.inj hworld])).elim
  | extendJobLease lease until_ =>
    obtain ⟨k, _, hk⟩ := Option.map_eq_some_iff.mp hworld
    exact (hsame (by rw [← hk])).elim
  | claim lease =>
    obtain ⟨k, _, hk⟩ := Option.map_eq_some_iff.mp hworld
    exact (hsame (by rw [← hk])).elim
  | writeOutcome lease opts now counters result =>
    obtain ⟨k, _, hk⟩ := Option.map_eq_some_iff.mp hworld
    exact (hsame (by rw [← hk])).elim
  | remove lease =>
    obtain ⟨k, _, hk⟩ := Option.map_eq_some_iff.mp hworld
    exact (hsame (by rw [← hk])).elim
  | drain dispatcher => exact (hsame (by rw [← Option.some.inj hworld])).elim
  | releaseJobs dispatcher => exact (hsame (by rw [← Option.some.inj hworld])).elim
  | crash dispatcher => exact (hsame (by rw [← Option.some.inj hworld])).elim
  | discardLane lane now error => exact (hsame (by rw [← Option.some.inj hworld])).elim
  | sweepFinishedJobs before => exact (hsame (by rw [← Option.some.inj hworld])).elim

/-- **A lane's rows are leased in their order, where discards are clear.** When a step leases a row,
every row that is ever before it in its lane was enqueued already and has finished, for good: it is
finished in every later state, and is leased no more. -/
theorem lane_order {h h' h'' : History} {a : Label}
    (run : Runs History.step LaneClear History.empty h) (clear : LaneClear h a)
    (hstep : h.step a = some h') (later : Runs History.step LaneClear h' h'') {c o : Job}
    (hc : c ∈ h'.past) (hleased : h.state.turns c.id < h'.state.turns c.id) (ho : o ∈ h''.past)
    (hin : c.lane.isSome) (hlane : o.lane = c.lane) (hbefore : o.before c = true) :
    o ∈ h.past ∧ h.state.Finished o.id ∧ h''.state.Finished o.id ∧
      h''.state.turns o.id = h.state.turns o.id := by
  have inv := Settled.runs run
  have inv' := inv.step clear hstep
  obtain ⟨hpast, j, hj, hid, hhead⟩ := leases_head inv hstep hleased
  -- a row enqueued since stands after the row leased
  have hmem : o ∈ h'.past := by
    obtain ⟨since, hsince⟩ := later.past_grows
    rw [← hsince] at ho
    refine (List.mem_append.mp ho).resolve_right fun hnew => ?_
    have horder : h''.past.Pairwise fun o j => j.lane.isSome → o.lane = j.lane → o.before j = true :=
      (Settled.runs ((run.tail clear hstep).trans later)).order
    rw [← hsince] at horder
    exact Job.before_asymm hbefore
      ((List.pairwise_append.mp horder).2.2 c hc o hnew (hlane ▸ hin) hlane.symm)
  rw [hpast] at hc hmem
  have hplace := inv.same hc hj hid.symm
  have hdone : h.state.Finished o.id := by
    intro k hk hkid
    have hkplace := inv.same hmem hk hkid.symm
    refine Job.isHead_spec hhead (hplace.1 ▸ hin) hk ?_ ?_
    · rw [← hkplace.1, ← hplace.1, hlane]
    · rwa [← Job.before_congr ⟨hkid.symm, hkplace.2⟩ ⟨hid.symm, hplace.2⟩]
  obtain ⟨hdone', hturns⟩ := inv.finished_step clear hstep hmem hdone
  obtain ⟨hdone'', hturns'⟩ := inv'.finished_run later (hpast ▸ hmem) hdone'
  exact ⟨hmem, hdone, hdone'', hturns'.trans hturns⟩

/-! ## A lane run down, and one whose discarded row comes back -/

/-- A lease query for the one kind of the runs below. -/
def laneLease (now : Time) : LeaseRequest where
  now := now
  until_ := now + 10
  kinds := ["laned"]
  excluded := []
  limit := 4
  locked := []

theorem laneBackoff_ne : ([5] : List Int) ≠ [] := List.cons_ne_nil _ _

/-- The retry policy of that kind. -/
def laneOptions : Options where
  maxAttempts := 4
  backoff := [5]
  maxInFlight := 0
  backoff_ne := laneBackoff_ne

/-- The row enqueued in lane "A" at a place. -/
def laneJob (id : JobId) (sequence : Int) (now : Time) : Job :=
  insertJob id "laned" "{}" (some "A") (some sequence) 4 now now

/-- Two rows of one lane are enqueued, and the first is performed. -/
def firstPerformed : List Label :=
  [.insertJob 1 "laned" "{}" (some "A") (some 1) 4 0 0,
    .insertJob 2 "laned" "{}" (some "A") (some 2) 4 0 0, .leaseJobs 0 (laneLease 0), .claim (1, 1),
    .writeOutcome (1, 1) laneOptions 5 none none]

/-- The state a list of steps leads to. -/
def History.after (as : List Label) : History :=
  (runList History.step History.empty as).getD History.empty

/-- The second row is then leased, the first finished for good. -/
theorem firstPerformed_order :
    laneJob 1 1 0 ∈ (History.after firstPerformed).past ∧
      (History.after firstPerformed).state.Finished 1 ∧
      (History.after (firstPerformed ++ [.leaseJobs 1 (laneLease 6)])).state.Finished 1 ∧
      (History.after (firstPerformed ++ [.leaseJobs 1 (laneLease 6)])).state.turns 1 =
        (History.after firstPerformed).state.turns 1 :=
  lane_order (a := .leaseJobs 1 (laneLease 6)) (c := laneJob 2 2 0) (o := laneJob 1 1 0)
    (Runs.ofList firstPerformed (by decide) rfl) (by decide) rfl .refl (by decide) (by decide)
    (by decide) (by decide) (by decide) (by decide)

/-- The first row's lease lapses under a slow performer, a second dispatcher leases it and gives it
back at shutdown, and the lane is discarded. -/
def discardedUnderWorker : List Label :=
  [.insertJob 1 "laned" "{}" (some "A") (some 1) 4 0 0, .leaseJobs 0 (laneLease 0),
    .leaseJobs 1 (laneLease 20), .drain 1, .releaseJobs 1, .discardLane "A" 25 "the webhook was deleted",
    .insertJob 2 "laned" "{}" (some "A") (some 2) 4 25 25]

/-- What the slow worker's failure is. -/
def refused : Failure where
  text := "refused"
  retryAfter := none
  discard := false
  notAttempted := false

/-- **A discarded row comes back.** The lane's next row is leased, the row before it being discarded;
then the slow worker fails, and its requeue puts the discarded row back in the queue. -/
theorem discarded_row_comes_back :
    ¬ ∀ (h h' h'' : History) (a : Label), Runs History.step EnqueuedInOrder History.empty h →
      EnqueuedInOrder h a → h.step a = some h' → Runs History.step EnqueuedInOrder h' h'' →
      ∀ c ∈ h'.past, h.state.turns c.id = 0 → h.state.turns c.id < h'.state.turns c.id →
        ∀ o ∈ h''.past, c.lane.isSome → o.lane = c.lane → o.before c = true →
          h.state.Finished o.id ∧ h''.state.Finished o.id := by
  intro claim
  have finished := claim (History.after discardedUnderWorker)
    (History.after (discardedUnderWorker ++ [.leaseJobs 2 (laneLease 30)]))
    (History.after (discardedUnderWorker ++ [.leaseJobs 2 (laneLease 30), .claim (1, 1),
      .writeOutcome (1, 1) laneOptions 31 none (some refused)]))
    (.leaseJobs 2 (laneLease 30)) (Runs.ofList discardedUnderWorker (by decide) rfl) (by decide) rfl
    (Runs.ofList [.claim (1, 1), .writeOutcome (1, 1) laneOptions 31 none (some refused)] (by decide) rfl)
    (laneJob 2 2 25) (by decide) (by decide) (by decide) (laneJob 1 1 0) (by decide) (by decide) (by decide)
    (by decide)
  exact absurd finished.2 (by decide)

end Stoop.Jobs
