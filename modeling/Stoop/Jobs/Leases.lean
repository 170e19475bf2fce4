import Stoop.Jobs.Attempts

/-!
# Whose write decides a job

The outcome writes recognise a stale worker by the attempt its row was leased for. A lease raises
the attempt and a hand-back leaves it alone, but `ReleaseJobs` takes it off again, so a number can
come back: a worker whose lease lapsed holds attempt `n`, the dispatcher that took the row over
holds `n + 1` and releases it at shutdown, and the row stands at `n` once more.

`Guarded` is what the runs keep that never release a row in that position (`ReleaseClear`): each
holder's attempt is at most its row's, and a stale holder that can still write is strictly below.
-/

set_option autoImplicit false

namespace Stoop.Jobs

open Stoop.Lib

/-- A release gives back no attempt to a number an earlier lease's worker, still at work on the row,
was leased for. -/
def ReleaseClear (w : World) : Label → Prop
  | .releaseJobs dispatcher =>
    ∀ j ∈ w.jobs, releases (w.drainedLeases dispatcher) j = true →
      ∀ g ∈ w.held, g.phase ≠ .drained → g.row.id = j.id → g.row.attempt ≠ j.attempt - 1
  | _ => True

/-- What a holder's attempt says about its row, under the leases taken so far. -/
structure Holder.Behind (leases : List JobId) (h : Holder) (j : Job) : Prop where
  le : h.row.attempt ≤ j.attempt
  stale : h.row.attempt = j.attempt → h.turn < leases.count h.row.id →
    h.phase = .drained ∧ j.state ≠ .running

/-- The invariant of the runs that release clear. -/
structure Guarded (w : World) : Prop where
  ids : (w.jobs.map (·.id)).Nodup
  unique : ∀ g ∈ w.held, ∀ h ∈ w.held, g.name = h.name → g = h
  turn_le : ∀ h ∈ w.held, h.turn ≤ w.turns h.row.id
  leased : ∀ h ∈ w.held, h.row.id ∈ w.leases
  behind : ∀ h ∈ w.held, ∀ j ∈ w.jobs, j.id = h.row.id → h.Behind w.leases j

theorem Guarded.named {w : World} (inv : Guarded w) : Named w :=
  ⟨inv.ids, inv.unique, inv.turn_le, inv.leased⟩

/-- Of holders well named, the invariant is what each says about its row. -/
theorem Named.guarded {w : World} (named : Named w)
    (behind : ∀ h ∈ w.held, ∀ j ∈ w.jobs, j.id = h.row.id → h.Behind w.leases j) : Guarded w :=
  ⟨named.ids, named.unique, named.turn_le, named.leased, behind⟩

theorem guarded_empty : Guarded World.empty :=
  named_empty.guarded fun _ hh => absurd hh List.not_mem_nil

/-! ## Steps that only take holders away, or move their phase -/

/-- Dropping holders keeps the invariant. -/
theorem Guarded.filterHeld {w : World} (inv : Guarded w) (p : Holder → Bool) :
    Guarded { w with held := w.held.filter p } :=
  (inv.named.filterHeld p).guarded fun h hh => inv.behind h (List.mem_filter.mp hh).1

/-- Moving phases keeps the invariant, when no drained holder is put back to work. -/
theorem Guarded.mapHeld {w : World} (inv : Guarded w) {f : Holder → Holder}
    (hrow : ∀ h, (f h).row = h.row) (hturn : ∀ h, (f h).turn = h.turn)
    (hdrained : ∀ h ∈ w.held, h.phase = .drained → (f h).phase = .drained) :
    Guarded { w with held := w.held.map f } := by
  refine (inv.named.mapHeld hrow hturn).guarded ?_
  intro _ hh' j hj hid
  obtain ⟨h, hh, rfl⟩ := List.mem_map.mp hh'
  rw [hrow] at hid
  have hb := inv.behind h hh j hj hid
  refine ⟨by rw [hrow]; exact hb.le, fun heq hs => ?_⟩
  rw [hturn, hrow] at hs
  obtain ⟨hphase, hstate⟩ := hb.stale (by rw [← hrow]; exact heq) hs
  exact ⟨hdrained h hh hphase, hstate⟩

/-! ## Steps on the table -/

/-- A statement that keeps each row's id and attempt, and sets no row running, keeps the
invariant. -/
theorem Guarded.updateJobs {w : World} (inv : Guarded w) {p : Job → Bool} {f : Job → Job}
    (hid : ∀ j, (f j).id = j.id) (hattempt : ∀ j, (f j).attempt = j.attempt)
    (hrunning : ∀ j, p j = true → (f j).state = .running → j.state = .running) :
    Guarded { w with jobs := w.jobs.update p f } := by
  refine (inv.named.jobs (by rw [Table.update_ids _ _ hid]; exact inv.ids)).guarded ?_
  intro h hh j' hj' hid'
  obtain ⟨j, hj, rfl⟩ := Table.mem_update hj'
  by_cases hp : p j = true
  · rw [if_pos hp] at hid' ⊢
    rw [hid] at hid'
    have hb := inv.behind h hh j hj hid'
    refine ⟨by rw [hattempt]; exact hb.le, fun heq hs => ?_⟩
    obtain ⟨hphase, hstate⟩ := hb.stale (by rw [heq, hattempt]) hs
    exact ⟨hphase, fun hrun => hstate (hrunning j hp hrun)⟩
  · rw [if_neg hp] at hid' ⊢
    exact inv.behind h hh j hj hid'

/-- An outcome write keeps the invariant, whoever makes it: a lease is extended only on a row that
runs. -/
theorem Guarded.outcome {w : World} (inv : Guarded w) (write : OutcomeWrite) (id : JobId)
    (attempt : Int) (hfinish : ∀ state now error counters,
      write = .finishJob state now error counters → state ≠ .running) :
    Guarded { w with jobs := write.run id attempt w.jobs } := by
  refine inv.updateJobs write.set_id write.set_attempt fun j hp hrun => ?_
  cases write with
  | finishJob state now error counters => exact absurd hrun (hfinish _ _ _ _ rfl)
  | requeueJob => exact absurd hrun (by simp [OutcomeWrite.set])
  | handBackJob => exact absurd hrun (by simp [OutcomeWrite.set])
  | extendJobLease until_ => exact hrun

/-- A worker's outcome never sets its row running. -/
theorem writeOutcome_finishes {row : Job} {opts : Options} {now : Time} {counters : Option Counters}
    {result : Option Failure} {state : State} {now' : Time} {error : String}
    {counters' : Option Counters}
    (h : writeOutcome row opts now counters result = .finishJob state now' error counters') :
    state ≠ .running := by
  cases result with
  | none =>
    simp only [writeOutcome, OutcomeWrite.finishJob.injEq] at h
    rw [← h.1]
    decide
  | some err =>
    simp only [writeOutcome] at h
    split at h
    · cases h
    · split at h
      · simp only [OutcomeWrite.finishJob.injEq] at h
        rw [← h.1]
        decide
      · cases h

/-- A fresh row is nobody's. -/
theorem Guarded.insert {w : World} (inv : Guarded w) {j : Job}
    (hfresh : j.id ∉ w.jobs.map (·.id)) (hunleased : j.id ∉ w.leases) :
    Guarded { w with jobs := w.jobs ++ [j] } := by
  have hids : ((w.jobs ++ [j]).map (·.id)).Nodup := by
    rw [List.map_append, List.map_singleton]
    exact inv.ids.append (List.nodup_singleton _) (by simpa using hfresh)
  refine (inv.named.jobs hids).guarded ?_
  intro h hh j' hj' hid
  rcases List.mem_append.mp hj' with hj' | hj'
  · exact inv.behind h hh j' hj' hid
  · obtain rfl := List.mem_singleton.mp hj'
    exact absurd (inv.leased h hh) (hid ▸ hunleased)

/-- Deleting rows keeps the invariant. -/
theorem Guarded.filterJobs {w : World} (inv : Guarded w) (p : Job → Bool) :
    Guarded { w with jobs := w.jobs.filter p } :=
  (inv.named.jobs (inv.ids.sublist (List.filter_sublist.map _))).guarded
    fun h hh j hj => inv.behind h hh j (List.mem_filter.mp hj).1

/-! ## The lease -/

/-- **A lease keeps the invariant.** It raises the attempt of each row it takes past every holder's,
and hands the new attempt to one new holder. -/
theorem Guarded.lease {w : World} (inv : Guarded w) (dispatcher : Nat) (r : LeaseRequest) :
    Guarded
      { jobs := leaseJobs r w.jobs
        held := w.held ++ w.handed dispatcher (leasedRows r w.jobs)
        leases := w.leases ++ (leasedRows r w.jobs).map (·.id) } := by
  have named := inv.named.lease dispatcher r
  refine named.guarded ?_
  intro h hh j' hj' hid
  obtain ⟨j, hj, ⟨hp, rfl⟩ | ⟨hp, rfl⟩⟩ := mem_leaseJobs hj'
  · -- the row was leased: an earlier holder is now below it, the new one at it
    have hid' : j.id = h.row.id := hid
    rcases List.mem_append.mp hh with hh | hh
    · have hle := (inv.behind h hh j hj hid').le
      refine ⟨?_, fun heq _ => ?_⟩
      · simp only [LeaseRequest.leased]
        omega
      · simp only [LeaseRequest.leased] at heq
        omega
    · obtain ⟨hrow, hturn, _⟩ := mem_handed hh
      obtain ⟨k, hk, _, hrow'⟩ := mem_leasedRows.mp hrow
      have hsame : j = k := eq_of_id inv.ids hj hk (by rw [hid', hrow']; rfl)
      refine ⟨by rw [hrow', hsame], fun _ hs => ?_⟩
      rw [count_leases inv.ids, if_pos (List.mem_map_of_mem hrow), hturn] at hs
      exact absurd hs (Nat.lt_irrefl _)
  · -- the row was left: it is not among those handed out
    rcases List.mem_append.mp hh with hh | hh
    · have hb := inv.behind h hh j' hj hid
      refine ⟨hb.le, fun heq hs => hb.stale heq ?_⟩
      have hnot : h.row.id ∉ (leasedRows r w.jobs).map (·.id) := by
        intro hmem
        obtain ⟨row, hrow, hrowid⟩ := List.mem_map.mp hmem
        obtain ⟨k, hk, hpk, rfl⟩ := mem_leasedRows.mp hrow
        have hsame : k.id = j'.id := hrowid.trans hid.symm
        rw [hsame, hp] at hpk
        exact Bool.false_ne_true hpk
      rwa [count_leases inv.ids, if_neg hnot, Nat.add_zero] at hs
    · obtain ⟨k, hk, hpk, hrow'⟩ := mem_leasedRows.mp (mem_handed hh).1
      have hsame : j' = k := eq_of_id inv.ids hj hk (by rw [hid, hrow']; rfl)
      rw [← hsame, hp] at hpk
      exact absurd hpk Bool.false_ne_true

/-! ## The release -/

/-- **A clear release keeps the invariant.** The row it gives back was the releasing holder's own
lease; every other holder was strictly below, and the condition keeps those still at work below. -/
theorem Guarded.release {w : World} (inv : Guarded w) (dispatcher : Nat)
    (clear : ReleaseClear w (.releaseJobs dispatcher)) :
    Guarded { w with
      jobs := releaseJobs (w.drainedLeases dispatcher) w.jobs
      held := w.held.filter fun h => !(h.dispatcher == dispatcher && h.phase == .drained) } := by
  have hids : ((releaseJobs (w.drainedLeases dispatcher) w.jobs).map (·.id)).Nodup := by
    show ((w.jobs.update _ Job.released).map (·.id)).Nodup
    rw [Table.update_ids]
    · exact inv.ids
    · exact fun _ => rfl
  refine ((inv.named.filterHeld _).jobs hids).guarded ?_
  intro g hg j' hj' hid
  obtain ⟨hgw, hgd⟩ := List.mem_filter.mp hg
  obtain ⟨j, hj, rfl⟩ := Table.mem_update hj'
  by_cases hp : releases (w.drainedLeases dispatcher) j = true
  · rw [if_pos hp] at hid ⊢
    have hid' : j.id = g.row.id := hid
    have hb := inv.behind g hgw j hj hid'
    obtain ⟨hrun, h, hh, hdis, hphase, hhid, hattempt⟩ := holder_of_releases hp
    have hbelow : g.row.attempt < j.attempt := by
      refine lt_of_le_of_ne hb.le fun heq => ?_
      -- at the row's own attempt no holder of a running row is stale, so both are its last lease
      have hgt : ¬ w.Stale g := fun hs => (hb.stale heq hs).2 hrun
      have hht : ¬ w.Stale h := fun hs => ((inv.behind h hh j hj hhid.symm).stale hattempt hs).2 hrun
      have hname : g.name = h.name := by
        have h1 := inv.turn_le g hgw
        have h2 := inv.turn_le h hh
        unfold World.Stale at hgt hht
        rw [← hid'] at hgt h1
        rw [hhid] at hht h2
        exact Prod.ext (hid'.symm.trans hhid.symm) (by simp only [Holder.name]; omega)
      rw [inv.unique g hgw h hh hname, hdis, hphase] at hgd
      simp at hgd
    refine ⟨?_, fun heq _ => ⟨?_, ?_⟩⟩
    · simp only [Job.released]
      omega
    · by_contra hwork
      exact clear j hj hp g hgw hwork hid'.symm heq
    · simp [Job.released]
  · rw [if_neg hp] at hid ⊢
    exact inv.behind g hgw j hj hid

/-! ## Every run -/

/-- One step: what a clear step keeps. -/
theorem Guarded.step {w w' : World} {a : Label} (inv : Guarded w) (clear : ReleaseClear w a)
    (h : w.step a = some w') : Guarded w' := by
  cases a with
  | insertJob id kind args lane sequence maxAttempts notBefore now =>
    simp only [World.step] at h
    split at h
    · cases h
    · next hfresh =>
      obtain ⟨hid, hleases, _⟩ := not_or.mp hfresh |>.imp_right not_or.mp
      exact Option.some.inj h ▸ inv.insert hid hleases
  | leaseJobs dispatcher request => exact Option.some.inj h ▸ inv.lease dispatcher _
  | extendJobLease lease until_ =>
    obtain ⟨k, _, rfl⟩ := Option.map_eq_some_iff.mp h
    exact inv.outcome _ _ _ (fun _ _ _ _ heq => by cases heq)
  | claim lease =>
    obtain ⟨k, hk, rfl⟩ := Option.map_eq_some_iff.mp h
    obtain ⟨hheld, hfound, hphase'⟩ := holder_spec hk
    refine inv.mapHeld (fun g => ?_) (fun g => ?_) (fun g hg hphase => ?_)
    · split <;> rfl
    · split <;> rfl
    · split
      · next hname =>
        rw [inv.unique g hg k hheld (hname.trans hfound.symm), hphase'] at hphase
        cases hphase
      · exact hphase
  | writeOutcome lease opts now counters result =>
    obtain ⟨k, _, rfl⟩ := Option.map_eq_some_iff.mp h
    exact (inv.outcome _ _ _ fun _ _ _ _ heq => writeOutcome_finishes heq).filterHeld _
  | remove lease =>
    obtain ⟨k, _, rfl⟩ := Option.map_eq_some_iff.mp h
    exact inv.filterHeld _
  | drain dispatcher =>
    refine Option.some.inj h ▸ inv.mapHeld (fun g => ?_) (fun g => ?_) (fun g _ hphase => ?_)
    · split <;> rfl
    · split <;> rfl
    · split
      · rfl
      · exact hphase
  | releaseJobs dispatcher => exact Option.some.inj h ▸ inv.release dispatcher clear
  | crash dispatcher => exact Option.some.inj h ▸ inv.filterHeld _
  | discardLane lane now error =>
    refine Option.some.inj h ▸ inv.updateJobs (fun _ => rfl) (fun _ => rfl) fun j _ hrun => ?_
    cases hrun
  | sweepFinishedJobs before => exact Option.some.inj h ▸ inv.filterJobs _

/-- Every run that releases clear keeps the invariant. -/
theorem Guarded.runs {w : World} (h : Runs World.step ReleaseClear World.empty w) : Guarded w :=
  h.keeps guarded_empty fun _ _ _ inv clear hstep => inv.step clear hstep

/-- A stale holder still at work matches no row. -/
theorem Guarded.stale_matches_nothing {w : World} (inv : Guarded w) {h : Holder} (hh : h ∈ w.held)
    (hstale : w.Stale h) (hwork : h.phase ≠ .drained) (write : OutcomeWrite) :
    write.changed h.row.id h.row.attempt w.jobs = 0 := by
  refine List.countP_eq_zero.mpr fun j hj hon => ?_
  obtain ⟨hid, hattempt⟩ := OutcomeWrite.on_spec hon
  exact hwork ((inv.behind h hh j hj hid).stale hattempt.symm hstale).1

/-- **Only the current lease decides a job's outcome, where releases are clear.** In every state
reached by steps none of which gives back an attempt under an earlier lease's worker, an outcome
write made by a worker whose row was leased again since changes no row. -/
theorem stale_write_changes_nothing {w : World} (run : Runs World.step ReleaseClear World.empty w)
    {h : Holder} (hh : h ∈ w.held) (hstale : w.Stale h) (hwork : h.phase ≠ .drained)
    (write : OutcomeWrite) :
    write.changed h.row.id h.row.attempt w.jobs = 0 ∧
      write.run h.row.id h.row.attempt w.jobs = w.jobs :=
  have hnone := (Guarded.runs run).stale_matches_nothing hh hstale hwork write
  ⟨hnone, Table.update_of_matching_zero _ hnone⟩

/-- **The condition is exact.** After clear steps, a release that is not clear leaves a stale worker
whose outcome, whatever it is, lands. -/
theorem unclear_release_revives {w w' : World} {dispatcher : Nat} (inv : Guarded w)
    (hstep : w.step (.releaseJobs dispatcher) = some w')
    (unclear : ¬ ReleaseClear w (.releaseJobs dispatcher)) :
    ∃ g ∈ w'.held, g.phase ≠ .drained ∧ w'.Stale g ∧ ∀ state now error counters,
      0 < (OutcomeWrite.finishJob state now error counters).changed g.row.id g.row.attempt w'.jobs := by
  simp only [ReleaseClear, not_forall, Classical.not_not] at unclear
  obtain ⟨j, hj, hp, g, hg, hwork, hid, hattempt⟩ := unclear
  obtain ⟨hrun, h, hh, hdis, hphase, hhid, hhattempt⟩ := holder_of_releases hp
  cases hstep
  refine ⟨g, ?_, hwork, ?_, fun state now error counters => ?_⟩
  · exact List.mem_filter.mpr ⟨hg, by simp [hwork]⟩
  · -- were both its row's last lease, the worker and the drained holder would be one
    have hht : ¬ w.Stale h := fun hs => ((inv.behind h hh j hj hhid.symm).stale hhattempt hs).2 hrun
    show w.Stale g
    by_contra hgt
    have h1 := inv.turn_le g hg
    have h2 := inv.turn_le h hh
    unfold World.Stale at hgt hht
    rw [hid] at hgt h1
    rw [hhid] at hht h2
    have hname : g.name = h.name :=
      Prod.ext (hid.trans hhid.symm) (by simp only [Holder.name]; omega)
    exact hwork (inv.unique g hg h hh hname ▸ hphase)
  · refine List.countP_pos_iff.mpr ⟨j.released, ?_, ?_⟩
    · exact List.mem_map.mpr ⟨j, hj, if_pos hp⟩
    · simp [OutcomeWrite.on, Job.isAttempt, Job.released, hid, hattempt]

/-! ## A lease taken over, and what the condition is worth -/

/-- A lease query at `now`, for the one kind of the runs below. -/
def leaseAt (now : Time) : LeaseRequest where
  now := now
  until_ := now + 10
  kinds := ["sweep"]
  excluded := []
  limit := 1
  locked := []

/-- A job is leased, its lease lapses under a slow performer, and a second dispatcher takes it. -/
def takenOver : List Label :=
  [.insertJob 1 "sweep" "{}" none none 4 0 0, .leaseJobs 0 (leaseAt 0), .leaseJobs 1 (leaseAt 20)]

/-- The first dispatcher's holder of the job: at attempt one, on a lease to instant ten. -/
def slowHolder : Holder where
  dispatcher := 0
  row := (leaseAt 0).leased (insertJob 1 "sweep" "{}" none none 4 0 0)
  turn := 1
  phase := .performing

/-- The slow worker's outcome, once its performer succeeds. -/
def lateSuccess : OutcomeWrite := .finishJob .succeeded 25 "" none

/-- The job taken over: the state after `takenOver`. -/
def takenOverWorld : World := (runList World.step World.empty takenOver).getD World.empty

/-- The state after the second dispatcher's shutdown. -/
def releasedWorld : World :=
  (runList World.step World.empty (takenOver ++ [.drain 1, .releaseJobs 1])).getD World.empty

/-- The takeover releases nothing. -/
theorem takenOver_clear : Runs World.step ReleaseClear World.empty takenOverWorld := by
  refine Runs.ofList takenOver (EachStep.of_forall (fun a ha s => ?_) _) rfl
  simp only [takenOver, List.mem_cons, List.not_mem_nil, or_false] at ha
  rcases ha with rfl | rfl | rfl <;> trivial

/-- While the second lease stands, the slow worker's late outcome changes nothing. -/
theorem late_success_dropped :
    takenOverWorld.Stale slowHolder ∧
      lateSuccess.changed slowHolder.row.id slowHolder.row.attempt takenOverWorld.jobs = 0 :=
  ⟨by decide, (stale_write_changes_nothing takenOver_clear (h := slowHolder) (by decide) (by decide)
    (by decide) lateSuccess).1⟩

/-- **A release lets a stale write land.** The second dispatcher shuts down with the job in flight
and gives its attempt back: the row stands at attempt one again, and the write of the first
dispatcher's worker, whose lease lapsed and whose row was leased again since, finishes the job. -/
theorem release_lets_stale_write_land :
    ¬ ∀ w, Runs World.step Always World.empty w → ∀ h ∈ w.held, h.phase ≠ .drained →
      (∃ now, h.row.leaseLapsed now = true) → w.Stale h →
        ∀ write : OutcomeWrite, write.changed h.row.id h.row.attempt w.jobs = 0 := by
  intro claim
  have landed := claim releasedWorld
    (Runs.ofList (takenOver ++ [.drain 1, .releaseJobs 1]) (EachStep.always _ _) rfl) slowHolder
    (by decide) (by decide) ⟨20, by decide⟩ (by decide) lateSuccess
  exact absurd landed (by decide)

end Stoop.Jobs
