import Stoop.Lib.Machine
import Stoop.Jobs.Dispatch

/-!
# Attempts in workers' hands

What every run keeps of the rows in workers' hands, whatever is released when. `Named`: a lease is one
holder's, and no holder's lease is later than the last. `Apart`: no holder's attempt is past its row's,
and no two holders have one row at one attempt. So of all who were ever handed a row, at most one can
still match it.

The laws follow the steps: those that only take holders away or move their phase, those that write
rows, the lease, the release.
-/

set_option autoImplicit false

namespace Stoop.Jobs

open Stoop.Lib

/-! ## What a lease query takes -/

/-- A row of the table after a lease: the row it was, or that row leased. -/
theorem mem_leaseJobs {r : LeaseRequest} {t : Table} {j' : Job} (h : j' ∈ leaseJobs r t) :
    ∃ j ∈ t, ((r.picks t).contains j.id = true ∧ j' = r.leased j) ∨
      ((r.picks t).contains j.id = false ∧ j' = j) :=
  Table.mem_update_cases h

/-- A row leased is a row of the table, one attempt further. -/
theorem mem_leasedRows {r : LeaseRequest} {t : Table} {row : Job} :
    row ∈ leasedRows r t ↔ ∃ j ∈ t, (r.picks t).contains j.id = true ∧ row = r.leased j := by
  simp only [leasedRows, List.mem_map, List.mem_filter]
  constructor
  · rintro ⟨j, ⟨hj, hp⟩, rfl⟩
    exact ⟨j, hj, hp, rfl⟩
  · rintro ⟨j, hj, hp, rfl⟩
    exact ⟨j, ⟨hj, hp⟩, rfl⟩

/-- A lease query returns each row once. -/
theorem leasedRows_nodup {r : LeaseRequest} {t : Table} (h : (t.map (·.id)).Nodup) :
    ((leasedRows r t).map (·.id)).Nodup := by
  have hids : (leasedRows r t).map (·.id) =
      (t.filter fun j => (r.picks t).contains j.id).map (·.id) := by
    simp only [leasedRows, List.map_map]
    rfl
  rw [hids]
  exact h.sublist (List.filter_sublist.map _)

/-- Among rows of distinct ids, an id is one row's. -/
theorem eq_of_id {t : Table} (h : (t.map (·.id)).Nodup) {j k : Job} (hj : j ∈ t) (hk : k ∈ t)
    (hid : j.id = k.id) : j = k :=
  List.inj_on_of_nodup_map h hj hk hid

/-- What the lease query asks of a row it claims. -/
theorem takes_of_picks {r : LeaseRequest} {t : Table} (h : (t.map (·.id)).Nodup) {j : Job} (hj : j ∈ t)
    (hp : (r.picks t).contains j.id = true) : r.takes t j = true := by
  rw [List.contains_iff_mem, LeaseRequest.picks, List.mem_map] at hp
  obtain ⟨k, hk, hid⟩ := hp
  have hsorted := (List.mem_insertionSort _).mp (List.mem_of_mem_take hk)
  obtain ⟨hkt, htakes⟩ := List.mem_filter.mp hsorted
  rwa [eq_of_id h hj hkt hid.symm]

/-- The holders a lease query makes, and the leases they were handed. -/
theorem mem_handed {w : World} {dispatcher : Nat} {rows : List Job} {h : Holder}
    (hh : h ∈ w.handed dispatcher rows) :
    h.row ∈ rows ∧ h.turn = w.turns h.row.id + 1 ∧ h.phase = .performing ∧
      h.dispatcher = dispatcher := by
  obtain ⟨row, hrow, rfl⟩ := List.mem_map.mp hh
  exact ⟨hrow, rfl, rfl, rfl⟩

/-- How often rows were leased, once a lease query has taken more. -/
theorem count_leases {w : World} {r : LeaseRequest} (ids : (w.jobs.map (·.id)).Nodup) (id : JobId) :
    (w.leases ++ (leasedRows r w.jobs).map (·.id)).count id =
      w.turns id + if id ∈ (leasedRows r w.jobs).map (·.id) then 1 else 0 := by
  rw [List.count_append]
  split
  · next hmem =>
    rw [List.count_eq_one_of_mem (leasedRows_nodup ids) hmem]
    rfl
  · next hmem =>
    rw [List.count_eq_zero.mpr hmem]
    rfl

/-! ## Holders by name -/

/-- A lease is one holder's, of a row that was leased, and not later than the row's last. -/
structure Named (w : World) : Prop where
  ids : (w.jobs.map (·.id)).Nodup
  unique : ∀ g ∈ w.held, ∀ h ∈ w.held, g.name = h.name → g = h
  turn_le : ∀ h ∈ w.held, h.turn ≤ w.turns h.row.id
  leased : ∀ h ∈ w.held, h.row.id ∈ w.leases

theorem named_empty : Named World.empty where
  ids := List.nodup_nil
  unique := fun _ hg => absurd hg List.not_mem_nil
  turn_le := fun _ hh => absurd hh List.not_mem_nil
  leased := fun _ hh => absurd hh List.not_mem_nil

namespace Named

variable {w : World}

/-- Dropping holders. -/
theorem filterHeld (inv : Named w) (p : Holder → Bool) :
    Named { w with held := w.held.filter p } where
  ids := inv.ids
  unique g hg h hh := inv.unique g (List.mem_filter.mp hg).1 h (List.mem_filter.mp hh).1
  turn_le h hh := inv.turn_le h (List.mem_filter.mp hh).1
  leased h hh := inv.leased h (List.mem_filter.mp hh).1

/-- Moving phases. -/
theorem mapHeld (inv : Named w) {f : Holder → Holder} (hrow : ∀ h, (f h).row = h.row)
    (hturn : ∀ h, (f h).turn = h.turn) : Named { w with held := w.held.map f } := by
  have hname : ∀ h, (f h).name = h.name := fun h => by
    simp only [Holder.name, hrow, hturn]
  refine ⟨inv.ids, ?_, ?_, ?_⟩
  · intro _ hg' _ hh' heq
    obtain ⟨g, hg, rfl⟩ := List.mem_map.mp hg'
    obtain ⟨h, hh, rfl⟩ := List.mem_map.mp hh'
    rw [inv.unique g hg h hh (by rw [← hname g, ← hname h, heq])]
  · intro _ hh'
    obtain ⟨h, hh, rfl⟩ := List.mem_map.mp hh'
    rw [hturn, hrow]
    exact inv.turn_le h hh
  · intro _ hh'
    obtain ⟨h, hh, rfl⟩ := List.mem_map.mp hh'
    rw [hrow]
    exact inv.leased h hh

/-- Writing rows under the ids they had, or deleting some. -/
theorem jobs (inv : Named w) {t : Table} (ids : (t.map (·.id)).Nodup) :
    Named { w with jobs := t } where
  ids := ids
  unique := inv.unique
  turn_le := inv.turn_le
  leased := inv.leased

/-- **The lease** hands each row it takes out under the next name. -/
theorem lease (inv : Named w) (dispatcher : Nat) (r : LeaseRequest) :
    Named
      { jobs := leaseJobs r w.jobs
        held := w.held ++ w.handed dispatcher (leasedRows r w.jobs)
        leases := w.leases ++ (leasedRows r w.jobs).map (·.id) } := by
  have hnodup := leasedRows_nodup (r := r) inv.ids
  refine ⟨?_, ?_, ?_, ?_⟩
  · show ((w.jobs.update _ r.leased).map (·.id)).Nodup
    rw [Table.update_ids]
    · exact inv.ids
    · exact fun _ => rfl
  · intro g hg h hh heq
    have hid : g.row.id = h.row.id := congrArg Prod.fst heq
    have hturn : g.turn = h.turn := congrArg Prod.snd heq
    rcases List.mem_append.mp hg with hg | hg <;> rcases List.mem_append.mp hh with hh | hh
    · exact inv.unique g hg h hh heq
    · have hle := inv.turn_le g hg
      have hnext := (mem_handed hh).2.1
      rw [hid] at hle
      omega
    · have hle := inv.turn_le h hh
      have hnext := (mem_handed hg).2.1
      rw [hid] at hnext
      omega
    · obtain ⟨row, hrow, rfl⟩ := List.mem_map.mp hg
      obtain ⟨row', hrow', rfl⟩ := List.mem_map.mp hh
      rw [List.inj_on_of_nodup_map hnodup hrow hrow' hid]
  · intro h hh
    show h.turn ≤ (w.leases ++ (leasedRows r w.jobs).map (·.id)).count h.row.id
    rw [count_leases inv.ids]
    rcases List.mem_append.mp hh with hh | hh
    · exact (inv.turn_le h hh).trans (Nat.le_add_right _ _)
    · obtain ⟨hrow, hturn, _⟩ := mem_handed hh
      rw [if_pos (List.mem_map_of_mem hrow), hturn]
  · intro h hh
    rcases List.mem_append.mp hh with hh | hh
    · exact List.mem_append_left _ (inv.leased h hh)
    · exact List.mem_append_right _ (List.mem_map_of_mem (mem_handed hh).1)

end Named

/-! ## Holders by attempt -/

/-- No holder's attempt is past its row's, and no two holders have one row at one attempt. -/
structure Apart (w : World) : Prop extends Named w where
  le : ∀ h ∈ w.held, ∀ j ∈ w.jobs, j.id = h.row.id → h.row.attempt ≤ j.attempt
  alone : ∀ g ∈ w.held, ∀ h ∈ w.held,
    g.row.id = h.row.id → g.row.attempt = h.row.attempt → g = h

theorem apart_empty : Apart World.empty where
  toNamed := named_empty
  le := fun _ hh => absurd hh List.not_mem_nil
  alone := fun _ hh => absurd hh List.not_mem_nil

/-- A drained row that a release would give back is held, drained, at that row's attempt. -/
theorem holder_of_releases {w : World} {dispatcher : Nat} {j : Job}
    (h : releases (w.drainedLeases dispatcher) j = true) :
    j.state = .running ∧ ∃ h ∈ w.held, h.dispatcher = dispatcher ∧ h.phase = .drained ∧
      h.row.id = j.id ∧ h.row.attempt = j.attempt := by
  simp only [releases, Bool.and_eq_true, beq_iff_eq, List.contains_iff_mem, World.drainedLeases,
    List.mem_map, List.mem_filter, Prod.mk.injEq] at h
  obtain ⟨hstate, k, ⟨hk, hdis, hphase⟩, hid, hattempt⟩ := h
  exact ⟨hstate, k, hk, hdis, hphase, hid, hattempt⟩

/-- The holder a step finds by its lease: it is held, under that name, in that phase. -/
theorem holder_spec {w : World} {lease : LeaseName} {phase : Phase} {h : Holder}
    (hfound : w.holder? lease phase = some h) : h ∈ w.held ∧ h.name = lease ∧ h.phase = phase := by
  have hp := List.find?_some hfound
  simp only [Bool.and_eq_true, beq_iff_eq] at hp
  exact ⟨List.mem_of_find?_eq_some hfound, hp⟩

namespace Apart

variable {w : World}

/-- Dropping holders. -/
theorem filterHeld (inv : Apart w) (p : Holder → Bool) :
    Apart { w with held := w.held.filter p } where
  toNamed := inv.toNamed.filterHeld p
  le h hh := inv.le h (List.mem_filter.mp hh).1
  alone g hg h hh := inv.alone g (List.mem_filter.mp hg).1 h (List.mem_filter.mp hh).1

/-- Moving phases. -/
theorem mapHeld (inv : Apart w) {f : Holder → Holder} (hrow : ∀ h, (f h).row = h.row)
    (hturn : ∀ h, (f h).turn = h.turn) : Apart { w with held := w.held.map f } := by
  refine ⟨inv.toNamed.mapHeld hrow hturn, ?_, ?_⟩
  · intro _ hh'
    obtain ⟨h, hh, rfl⟩ := List.mem_map.mp hh'
    rw [hrow]
    exact inv.le h hh
  · intro _ hg' _ hh' hid hattempt
    obtain ⟨g, hg, rfl⟩ := List.mem_map.mp hg'
    obtain ⟨h, hh, rfl⟩ := List.mem_map.mp hh'
    rw [hrow, hrow] at hid hattempt
    rw [inv.alone g hg h hh hid hattempt]

/-- Writing rows under the ids and attempts they had. -/
theorem updateJobs (inv : Apart w) {p : Job → Bool} {f : Job → Job} (hid : ∀ j, (f j).id = j.id)
    (hattempt : ∀ j, (f j).attempt = j.attempt) :
    Apart { w with jobs := w.jobs.update p f } := by
  refine ⟨inv.toNamed.jobs (by rw [Table.update_ids _ _ hid]; exact inv.ids), ?_, inv.alone⟩
  intro h hh j' hj' hid'
  obtain ⟨j, hj, rfl⟩ := Table.mem_update hj'
  by_cases hp : p j = true
  · rw [if_pos hp] at hid' ⊢
    rw [hattempt]
    exact inv.le h hh j hj (by rw [← hid j, hid'])
  · rw [if_neg hp] at hid' ⊢
    exact inv.le h hh j hj hid'

/-- A fresh row is nobody's. -/
theorem insert (inv : Apart w) {j : Job} (hfresh : j.id ∉ w.jobs.map (·.id))
    (hunleased : j.id ∉ w.leases) : Apart { w with jobs := w.jobs ++ [j] } := by
  have hids : ((w.jobs ++ [j]).map (·.id)).Nodup := by
    rw [List.map_append, List.map_singleton]
    exact inv.ids.append (List.nodup_singleton _) (by simpa using hfresh)
  refine ⟨inv.toNamed.jobs hids, ?_, inv.alone⟩
  intro h hh j' hj' hid
  rcases List.mem_append.mp hj' with hj' | hj'
  · exact inv.le h hh j' hj' hid
  · obtain rfl := List.mem_singleton.mp hj'
    exact absurd (inv.leased h hh) (hid ▸ hunleased)

/-- Deleting rows. -/
theorem filterJobs (inv : Apart w) (p : Job → Bool) :
    Apart { w with jobs := w.jobs.filter p } where
  toNamed := inv.toNamed.jobs (inv.ids.sublist (List.filter_sublist.map _))
  le h hh j hj := inv.le h hh j (List.mem_filter.mp hj).1
  alone := inv.alone

/-- **The lease** raises each row it takes past every earlier holder. -/
theorem lease (inv : Apart w) (dispatcher : Nat) (r : LeaseRequest) :
    Apart
      { jobs := leaseJobs r w.jobs
        held := w.held ++ w.handed dispatcher (leasedRows r w.jobs)
        leases := w.leases ++ (leasedRows r w.jobs).map (·.id) } := by
  have hbelow : ∀ g ∈ w.held, ∀ row ∈ leasedRows r w.jobs, g.row.id = row.id →
      g.row.attempt < row.attempt := by
    intro g hg row hrow hid
    obtain ⟨j, hj, _, rfl⟩ := mem_leasedRows.mp hrow
    exact Int.lt_add_one_of_le (inv.le g hg j hj hid.symm)
  refine ⟨inv.toNamed.lease dispatcher r, ?_, ?_⟩
  · intro h hh j' hj' hid
    obtain ⟨j, hj, ⟨hp, rfl⟩ | ⟨hp, rfl⟩⟩ := mem_leaseJobs hj'
    · rcases List.mem_append.mp hh with hh | hh
      · exact (hbelow h hh _ (mem_leasedRows.mpr ⟨j, hj, hp, rfl⟩) hid.symm).le
      · obtain ⟨k, hk, _, hrow⟩ := mem_leasedRows.mp (mem_handed hh).1
        rw [hrow] at hid ⊢
        rw [eq_of_id inv.ids hj hk hid]
    · rcases List.mem_append.mp hh with hh | hh
      · exact inv.le h hh j' hj hid
      · -- the row was left: it is not among those handed out
        obtain ⟨k, hk, hpk, hrow⟩ := mem_leasedRows.mp (mem_handed hh).1
        have hsame : j' = k := eq_of_id inv.ids hj hk (by rw [hid, hrow]; rfl)
        rw [hsame, hpk] at hp
        exact absurd hp.symm Bool.false_ne_true
  · intro g hg h hh hid hattempt
    rcases List.mem_append.mp hg with hg | hg <;> rcases List.mem_append.mp hh with hh | hh
    · exact inv.alone g hg h hh hid hattempt
    · have hlt := hbelow g hg _ (mem_handed hh).1 hid
      omega
    · have hlt := hbelow h hh _ (mem_handed hg).1 hid.symm
      omega
    · obtain ⟨row, hrow, rfl⟩ := List.mem_map.mp hg
      obtain ⟨row', hrow', rfl⟩ := List.mem_map.mp hh
      rw [List.inj_on_of_nodup_map (leasedRows_nodup inv.ids) hrow hrow' hid]

/-- **The release.** The row it gives back was the releasing holder's alone at that attempt; every
other holder was strictly below. -/
theorem release (inv : Apart w) (dispatcher : Nat) :
    Apart { w with
      jobs := releaseJobs (w.drainedLeases dispatcher) w.jobs
      held := w.held.filter fun h => !(h.dispatcher == dispatcher && h.phase == .drained) } := by
  have hids : ((releaseJobs (w.drainedLeases dispatcher) w.jobs).map (·.id)).Nodup := by
    show ((w.jobs.update _ Job.released).map (·.id)).Nodup
    rw [Table.update_ids]
    · exact inv.ids
    · exact fun _ => rfl
  refine ⟨(inv.toNamed.filterHeld _).jobs hids, ?_, (inv.filterHeld _).alone⟩
  intro g hg j' hj' hid
  obtain ⟨hgw, hkept⟩ := List.mem_filter.mp hg
  obtain ⟨j, hj, rfl⟩ := Table.mem_update hj'
  by_cases hp : releases (w.drainedLeases dispatcher) j = true
  · rw [if_pos hp] at hid ⊢
    obtain ⟨_, h, hh, hdis, hphase, hhid, hattempt⟩ := holder_of_releases hp
    have hid' : j.id = g.row.id := hid
    have hne : g.row.attempt ≠ j.attempt := by
      intro heq
      obtain rfl := inv.alone g hgw h hh (hid'.symm.trans hhid.symm) (heq.trans hattempt.symm)
      simp [hdis, hphase] at hkept
    have hle := inv.le g hgw j hj hid'
    show g.row.attempt ≤ j.attempt - 1
    omega
  · rw [if_neg hp] at hid ⊢
    exact inv.le g hgw j hj hid

/-- One step. -/
theorem step {w' : World} {a : Label} (inv : Apart w) (h : w.step a = some w') : Apart w' := by
  cases a with
  | insertJob id kind args lane sequence maxAttempts notBefore now =>
    simp only [World.step] at h
    split at h
    · cases h
    · next hfresh =>
      obtain ⟨hid, hleases, _⟩ := not_or.mp hfresh |>.imp_right not_or.mp
      exact Option.some.inj h ▸ inv.insert hid hleases
  | leaseJobs dispatcher request => exact Option.some.inj h ▸ inv.lease dispatcher _
  | extendJobLease lease until_ =>
    obtain ⟨k, _, rfl⟩ := Option.map_eq_some_iff.mp h
    exact inv.updateJobs (OutcomeWrite.set_id _) (OutcomeWrite.set_attempt _)
  | claim lease =>
    obtain ⟨k, _, rfl⟩ := Option.map_eq_some_iff.mp h
    refine inv.mapHeld (fun g => ?_) (fun g => ?_)
    · split <;> rfl
    · split <;> rfl
  | writeOutcome lease opts now counters result =>
    obtain ⟨k, _, rfl⟩ := Option.map_eq_some_iff.mp h
    exact (inv.updateJobs (OutcomeWrite.set_id _) (OutcomeWrite.set_attempt _)).filterHeld _
  | remove lease =>
    obtain ⟨k, _, rfl⟩ := Option.map_eq_some_iff.mp h
    exact inv.filterHeld _
  | drain dispatcher =>
    refine Option.some.inj h ▸ inv.mapHeld (fun g => ?_) (fun g => ?_)
    · split <;> rfl
    · split <;> rfl
  | releaseJobs dispatcher => exact Option.some.inj h ▸ inv.release dispatcher
  | crash dispatcher => exact Option.some.inj h ▸ inv.filterHeld _
  | discardLane lane now error =>
    exact Option.some.inj h ▸ inv.updateJobs (fun _ => rfl) (fun _ => rfl)
  | sweepFinishedJobs before => exact Option.some.inj h ▸ inv.filterJobs _

/-- Every run. -/
theorem runs {ok : World → Label → Prop} (h : Runs World.step ok World.empty w) : Apart w :=
  h.keeps apart_empty fun _ _ _ inv _ hstep => inv.step hstep

end Apart

end Stoop.Jobs
