import Stoop.Jobs.Lanes

/-!
# What a step does to a row

`Becomes` says once what any step of the machine makes of a row of the table, and `held_step` what it makes of the
rows in workers' hands. From these, a row without a lane that has finished stays finished (`finished_step`): the
worker that wrote its outcome was alone at its attempt (`Idle`), and a lane discard does not reach it.
-/

set_option autoImplicit false

namespace Stoop.Jobs

variable {w w' : World} {a : Label} {j j' : Job}

/-- What a step from `w` to `w'` makes of a row. -/
inductive Becomes (w w' : World) (j : Job) : Job → Prop
  | same : Becomes w w' j j
  | leased (r : LeaseRequest) (h : j.unfinished = true) : Becomes w w' j (r.leased j)
  | renewed (until_ : Time) (h : j.state = .running) : Becomes w w' j ((OutcomeWrite.extendJobLease until_).set j)
  | written (write : OutcomeWrite) (k : Holder) (hk : k ∈ w.held) (hphase : k.phase = .writing)
      (hid : j.id = k.row.id) (hattempt : j.attempt = k.row.attempt) (hgone : ∀ g ∈ w'.held, g.name ≠ k.name) :
      Becomes w w' j (write.set j)
  | released (h : j.state = .running) : Becomes w w' j j.released
  | discarded (lane : String) (now : Time) (error : String) (h : j.lane = some lane) :
      Becomes w w' j { j with
        state := .discarded, finishedAt := some now, leasedUntil := none, error := error
        args := "{}" }

namespace Becomes

/-- What a row is, and no step writes. -/
theorem kept (h : Becomes w w' j j') : j'.id = j.id ∧ j'.kind = j.kind ∧ j'.lane = j.lane := by
  cases h with
  | written write => cases write <;> exact ⟨rfl, rfl, rfl⟩
  | _ => exact ⟨rfl, rfl, rfl⟩

end Becomes

/-- A row of the table after a step: one the step enqueued, or what it made of a row that was there. -/
theorem jobs_step (apart : Apart w) (h : w.step a = some w') :
    ∀ j' ∈ w'.jobs, j' ∈ a.enqueued ∨ ∃ j ∈ w.jobs, Becomes w w' j j' := by
  have hstay : ∀ {j'}, j' ∈ w.jobs → j' ∈ a.enqueued ∨ ∃ j ∈ w.jobs, Becomes w w' j j' := fun hj' =>
    .inr ⟨_, hj', .same⟩
  cases a with
  | insertJob id kind args lane sequence maxAttempts notBefore now =>
    simp only [World.step] at h
    split at h
    · cases h
    · rw [← Option.some.inj h] at hstay ⊢
      intro j' hj'
      obtain hj' | hj' := List.mem_append.mp hj'
      · exact hstay hj'
      · exact .inl hj'
  | leaseJobs dispatcher request =>
    rw [← Option.some.inj h] at hstay ⊢
    intro j' hj'
    obtain ⟨j, hj, ⟨hp, rfl⟩ | ⟨-, rfl⟩⟩ := mem_leaseJobs hj'
    · have htakes := takes_of_picks apart.ids hj hp
      simp only [LeaseRequest.takes, Bool.and_eq_true] at htakes
      exact .inr ⟨j, hj, .leased _ htakes.1.1.1.1.1.1⟩
    · exact hstay hj
  | extendJobLease lease until_ =>
    obtain ⟨k, -, rfl⟩ := Option.map_eq_some_iff.mp h
    intro j' hj'
    obtain ⟨j, hj, ⟨hon, rfl⟩ | ⟨-, rfl⟩⟩ := Table.mem_update_cases hj'
    · simp only [OutcomeWrite.on, Bool.and_eq_true, beq_iff_eq] at hon
      exact .inr ⟨j, hj, .renewed until_ hon.2⟩
    · exact hstay hj
  | claim lease =>
    obtain ⟨k, -, rfl⟩ := Option.map_eq_some_iff.mp h
    exact fun j' hj' => hstay hj'
  | writeOutcome lease opts now counters result =>
    obtain ⟨k, hfound, rfl⟩ := Option.map_eq_some_iff.mp h
    obtain ⟨hk, hname, hphase⟩ := holder_spec hfound
    intro j' hj'
    obtain ⟨j, hj, ⟨hon, rfl⟩ | ⟨-, rfl⟩⟩ := Table.mem_update_cases hj'
    · obtain ⟨hid, hattempt⟩ := OutcomeWrite.on_spec hon
      refine .inr ⟨j, hj, .written _ k hk hphase hid hattempt ?_⟩
      intro g hg
      rw [hname]
      exact bne_iff_ne.mp (List.mem_filter.mp hg).2
    · exact hstay hj
  | remove lease =>
    obtain ⟨k, -, rfl⟩ := Option.map_eq_some_iff.mp h
    exact fun j' hj' => hstay hj'
  | drain dispatcher =>
    rw [← Option.some.inj h] at hstay ⊢
    exact fun j' hj' => hstay hj'
  | releaseJobs dispatcher =>
    rw [← Option.some.inj h] at hstay ⊢
    intro j' hj'
    obtain ⟨j, hj, ⟨hon, rfl⟩ | ⟨-, rfl⟩⟩ := Table.mem_update_cases hj'
    · exact .inr ⟨j, hj, .released (holder_of_releases hon).1⟩
    · exact hstay hj
  | crash dispatcher =>
    rw [← Option.some.inj h] at hstay ⊢
    exact fun j' hj' => hstay hj'
  | discardLane lane now error =>
    rw [← Option.some.inj h] at hstay ⊢
    intro j' hj'
    obtain ⟨j, hj, ⟨hon, rfl⟩ | ⟨-, rfl⟩⟩ := Table.mem_update_cases hj'
    · exact .inr ⟨j, hj, .discarded lane now error (beq_iff_eq.mp ((Bool.and_eq_true _ _).mp hon).1)⟩
    · exact hstay hj
  | sweepFinishedJobs before =>
    rw [← Option.some.inj h] at hstay ⊢
    exact fun j' hj' => hstay (List.mem_filter.mp hj').1

/-- A row in a worker's hands after a step: one that was, in the phase it had or drained, unless its worker claimed
it just now; or one the step leased. -/
theorem held_step (apart : Apart w) (h : w.step a = some w') {g' : Holder} (hg' : g' ∈ w'.held) :
    (∃ g ∈ w.held, g'.row = g.row ∧ g'.name = g.name ∧
      (g'.phase = g.phase ∨ g'.phase = .drained ∨ g.phase = .performing)) ∨
      ∃ j ∈ w'.jobs, j.id = g'.row.id ∧ j.unfinished = true := by
  have hstay : ∀ {g}, g ∈ w.held → (∃ g₀ ∈ w.held, g.row = g₀.row ∧ g.name = g₀.name ∧
      (g.phase = g₀.phase ∨ g.phase = .drained ∨ g₀.phase = .performing)) ∨
      ∃ j ∈ w'.jobs, j.id = g.row.id ∧ j.unfinished = true := fun hg => .inl ⟨_, hg, rfl, rfl, .inl rfl⟩
  cases a with
  | insertJob id kind args lane sequence maxAttempts notBefore now =>
    simp only [World.step] at h
    split at h
    · cases h
    · rw [← Option.some.inj h] at hg'
      exact hstay hg'
  | leaseJobs dispatcher request =>
    rw [← Option.some.inj h] at hg' hstay ⊢
    obtain hg' | hg' := List.mem_append.mp hg'
    · exact hstay hg'
    · obtain ⟨j, hj, hp, hrow⟩ := mem_leasedRows.mp (mem_handed hg').1
      refine .inr ⟨_, List.mem_map.mpr ⟨j, hj, if_pos hp⟩, ?_, rfl⟩
      rw [hrow]
  | claim lease =>
    obtain ⟨k, hfound, rfl⟩ := Option.map_eq_some_iff.mp h
    obtain ⟨hk, hname, hphase⟩ := holder_spec hfound
    obtain ⟨g, hg, rfl⟩ := List.mem_map.mp hg'
    refine .inl ⟨g, hg, ?_⟩
    split
    · next heq =>
      obtain rfl := apart.unique g hg k hk (heq.trans hname.symm)
      exact ⟨rfl, rfl, .inr (.inr hphase)⟩
    · exact ⟨rfl, rfl, .inl rfl⟩
  | drain dispatcher =>
    rw [← Option.some.inj h] at hg'
    obtain ⟨g, hg, rfl⟩ := List.mem_map.mp hg'
    refine .inl ⟨g, hg, ?_⟩
    split
    · exact ⟨rfl, rfl, .inr (.inl rfl)⟩
    · exact ⟨rfl, rfl, .inl rfl⟩
  | extendJobLease lease until_ =>
    obtain ⟨k, -, rfl⟩ := Option.map_eq_some_iff.mp h
    exact hstay hg'
  | writeOutcome lease opts now counters result =>
    obtain ⟨k, -, rfl⟩ := Option.map_eq_some_iff.mp h
    exact hstay (List.mem_filter.mp hg').1
  | remove lease =>
    obtain ⟨k, -, rfl⟩ := Option.map_eq_some_iff.mp h
    exact hstay (List.mem_filter.mp hg').1
  | releaseJobs dispatcher =>
    rw [← Option.some.inj h] at hg' hstay ⊢
    exact hstay (List.mem_filter.mp hg').1
  | crash dispatcher =>
    rw [← Option.some.inj h] at hg' hstay ⊢
    exact hstay (List.mem_filter.mp hg').1
  | discardLane lane now error =>
    rw [← Option.some.inj h] at hg' hstay ⊢
    exact hstay hg'
  | sweepFinishedJobs before =>
    rw [← Option.some.inj h] at hg' hstay ⊢
    exact hstay hg'

/-! ## Finished, without a lane -/

/-- No worker is at work on a row without a lane at the attempt at which it finished. -/
def Idle (w : World) : Prop :=
  ∀ j ∈ w.jobs, j.lane = none → j.unfinished = false →
    ∀ g ∈ w.held, g.row.id = j.id → g.row.attempt = j.attempt → g.phase = .drained

theorem idle_empty : Idle World.empty := fun _ hj => absurd hj List.not_mem_nil

/-- A row that was unfinished is finished by its own worker, or has a lane. -/
theorem Becomes.of_finished (h : Becomes w w' j j') (hlane : j'.lane = none) (hdone : j'.unfinished = false) :
    (j' = j ∧ j.unfinished = false) ∨
      ∃ k ∈ w.held, j'.id = k.row.id ∧ j'.attempt = k.row.attempt ∧ ∀ g ∈ w'.held, g.name ≠ k.name := by
  cases h with
  | same => exact .inl ⟨rfl, hdone⟩
  | leased r h => cases hdone
  | renewed until_ h => simp [OutcomeWrite.set, Job.unfinished, h] at hdone
  | written write k hk hphase hid hattempt hgone =>
    refine .inr ⟨k, hk, ?_, ?_, hgone⟩
    · rw [OutcomeWrite.set_id, hid]
    · rw [OutcomeWrite.set_attempt, hattempt]
  | released h => cases hdone
  | discarded lane now error h =>
    rw [h] at hlane
    cases hlane

theorem Label.enqueued_unfinished {a : Label} {j : Job} (h : j ∈ a.enqueued) : j.unfinished = true := by
  cases a with
  | insertJob =>
    obtain rfl := List.mem_singleton.mp h
    rfl
  | _ => exact nomatch h

theorem Idle.step (inv : Idle w) (apart : Apart w) (h : w.step a = some w') : Idle w' := by
  intro j' hj' hlane hdone g' hg' hid hattempt
  obtain hnew | ⟨j, hj, hbecomes⟩ := jobs_step apart h j' hj'
  · rw [Label.enqueued_unfinished hnew] at hdone
    cases hdone
  obtain ⟨g, hg, hrow, hname, hphase⟩ | ⟨k, hk, hkid, hopen⟩ := held_step apart h hg'
  · rw [hrow] at hid hattempt
    obtain ⟨rfl, hfinished⟩ | ⟨k, hk, hkid, hkattempt, hgone⟩ := hbecomes.of_finished hlane hdone
    · have hdrained := inv j' hj hlane hfinished g hg hid hattempt
      obtain hsame | hdrains | hclaims := hphase
      · exact hsame.trans hdrained
      · exact hdrains
      · rw [hdrained] at hclaims
        cases hclaims
    · -- the worker that wrote was alone at the attempt, and has left
      obtain rfl := apart.alone g hg k hk (hid.trans hkid) (hattempt.trans hkattempt)
      exact absurd hname (hgone g' hg')
  · obtain rfl := eq_of_id (apart.step h).ids hj' hk (hid.symm.trans hkid.symm)
    rw [hdone] at hopen
    cases hopen

/-- **A row without a lane that has finished stays finished**, whatever the step. -/
theorem finished_step {id : JobId} (inv : Idle w) (apart : Apart w) (h : w.step a = some w')
    (hnew : ∀ j ∈ a.enqueued, j.id ≠ id) (hlane : ∀ j ∈ w.jobs, j.id = id → j.lane = none)
    (hdone : w.Finished id) : w'.Finished id := by
  intro j' hj' hid
  obtain henqueued | ⟨j, hj, hbecomes⟩ := jobs_step apart h j' hj'
  · exact absurd hid (hnew j' henqueued)
  have hjid : j.id = id := hbecomes.kept.1.symm.trans hid
  have hfinished := hdone j hj hjid
  have hnone := hlane j hj hjid
  cases hbecomes with
  | same => exact hfinished
  | leased r hopen =>
    rw [hfinished] at hopen
    cases hopen
  | renewed until_ hruns => simp [Job.unfinished, hruns] at hfinished
  | written write k hk hphase hkid hkattempt hgone =>
    have hdrained := inv j hj hnone hfinished k hk hkid.symm hkattempt.symm
    rw [hphase] at hdrained
    cases hdrained
  | released hruns => simp [Job.unfinished, hruns] at hfinished
  | discarded lane now error hsome =>
    rw [hnone] at hsome
    cases hsome

end Stoop.Jobs
