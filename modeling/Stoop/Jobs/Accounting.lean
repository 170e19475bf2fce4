import Mathlib.Order.Interval.Finset.Nat
import Stoop.Jobs.Attempts

/-!
# What an attempt costs

A performer is shown `tries`: the row's attempt less what its limit was raised by. Four writes move
the two counters: a lease raises the attempt, a release takes it off again, a hand-back raises the
limit, and the rest leave both alone. The equation they keep is `Balanced.balance`: the attempt, less
what the limit was raised by, is the number of the row's leases that still count.

The leases given back are recorded beside the machine: those a hand-back that landed gave back, and
those a release that matched took off.
-/

set_option autoImplicit false

namespace Stoop.Jobs

open Stoop.Lib

/-! ## The record of what was given back -/

/-- Whether a write gives the attempt back. -/
def OutcomeWrite.handsBack : OutcomeWrite → Bool
  | .handBackJob .. => true
  | _ => false

/-- The write a claimed worker makes for its row. -/
def Holder.outcome (k : Holder) (opts : Options) (now : Time) (counters : Option Counters)
    (result : Option Failure) : OutcomeWrite :=
  Jobs.writeOutcome k.row opts now counters (performed k.row result)

/-- Whether a holder's row runs at the attempt it was leased for. -/
def World.runsAt (w : World) (k : Holder) : Bool :=
  w.jobs.any fun j => j.state == .running && j.isAttempt k.row.id k.row.attempt

/-- The leases a step gives back. -/
def World.gaveBack (w : World) : Label → List LeaseName
  | .writeOutcome lease opts now counters result =>
    match w.holder? lease .writing with
    | none => []
    | some k =>
      let write := k.outcome opts now counters result
      if write.handsBack && 0 < write.changed k.row.id k.row.attempt w.jobs then [k.name] else []
  | .releaseJobs dispatcher =>
    (w.held.filter fun k => k.dispatcher == dispatcher && k.phase == .drained && w.runsAt k).map
      (·.name)
  | _ => []

/-- The world, and every lease given back so far. -/
abbrev Ledger := Recorded World LeaseName

/-- Before any job. -/
def Ledger.empty : Ledger := ⟨World.empty, []⟩

/-- One step, with the leases it gives back. -/
def Ledger.step : Ledger → Label → Option Ledger := recording World.step World.gaveBack

/-- How many of a row's first `n` leases count: they were neither handed back nor released. -/
def counted (back : List LeaseName) (id : JobId) (n : Nat) : Nat :=
  ((Finset.Icc 1 n).filter fun turn => (id, turn) ∉ back).card

section
variable {back names : List LeaseName} {id : JobId} {n turn : Nat}

/-- Leases of other rows, or later ones, given back: the count stands. -/
theorem counted_append (h : ∀ t, 1 ≤ t → t ≤ n → (id, t) ∉ names) :
    counted (back ++ names) id n = counted back id n := by
  unfold counted
  congr 1
  ext t
  simp only [Finset.mem_filter, Finset.mem_Icc, List.mem_append, not_or]
  constructor
  · rintro ⟨hle, hback, _⟩
    exact ⟨hle, hback⟩
  · rintro ⟨hle, hback⟩
    exact ⟨hle, hback, h t hle.1 hle.2⟩

/-- A lease that counted, given back: the count falls by one. -/
theorem counted_append_one (h : ∀ t, (id, t) ∈ names ↔ t = turn) (hpos : 1 ≤ turn) (hle : turn ≤ n)
    (hout : (id, turn) ∉ back) : counted (back ++ names) id n + 1 = counted back id n := by
  have hmem : turn ∈ (Finset.Icc 1 n).filter fun t => (id, t) ∉ back :=
    Finset.mem_filter.mpr ⟨Finset.mem_Icc.mpr ⟨hpos, hle⟩, hout⟩
  have herase : ((Finset.Icc 1 n).filter fun t => (id, t) ∉ back ++ names) =
      ((Finset.Icc 1 n).filter fun t => (id, t) ∉ back).erase turn := by
    ext t
    simp only [Finset.mem_filter, Finset.mem_erase, List.mem_append, not_or, h t]
    constructor
    · rintro ⟨hmem, hback, hne⟩
      exact ⟨hne, hmem, hback⟩
    · rintro ⟨hne, hmem, hback⟩
      exact ⟨hmem, hback, hne⟩
  unfold counted
  rw [herase, Finset.card_erase_of_mem hmem]
  exact Nat.succ_pred_eq_of_pos (Finset.card_pos.mpr ⟨turn, hmem⟩)

/-- A further lease, not given back: the count rises by one. -/
theorem counted_succ (hout : (id, n + 1) ∉ back) : counted back id (n + 1) = counted back id n + 1 := by
  have hinsert : ((Finset.Icc 1 (n + 1)).filter fun t => (id, t) ∉ back) =
      insert (n + 1) ((Finset.Icc 1 n).filter fun t => (id, t) ∉ back) := by
    ext t
    simp only [Finset.mem_filter, Finset.mem_insert, Finset.mem_Icc]
    constructor
    · rintro ⟨⟨hpos, hle⟩, hback⟩
      rcases Nat.lt_or_eq_of_le hle with hlt | rfl
      · exact .inr ⟨⟨hpos, Nat.le_of_lt_succ hlt⟩, hback⟩
      · exact .inl rfl
    · rintro (rfl | ⟨⟨hpos, hle⟩, hback⟩)
      · exact ⟨⟨Nat.le_add_left _ _, Nat.le_refl _⟩, hout⟩
      · exact ⟨⟨hpos, Nat.le_succ_of_le hle⟩, hback⟩
  unfold counted
  rw [hinsert, Finset.card_insert_of_notMem]
  intro hmem
  have hle := (Finset.mem_Icc.mp (Finset.mem_filter.mp hmem).1).2
  omega

end

/-! ## The kinds -/

/-- Each kind is enqueued and performed under its own retry policy. -/
def Registered (options : String → Options) (h : Ledger) : Label → Prop
  | .insertJob _ kind _ _ _ maxAttempts _ _ => maxAttempts = (options kind).maxAttempts
  | .writeOutcome lease opts _ _ _ => ∀ k ∈ h.state.held, k.name = lease → opts = options k.row.kind
  | _ => True

/-- A row's attempt and limit are those of a kind whose limit is `limit`, `spent` of whose leases
count. -/
structure Job.Owes (j : Job) (limit : Int) (spent : Nat) : Prop where
  limit_le : limit ≤ j.maxAttempts
  spent_eq : j.attempt - (j.maxAttempts - limit) = spent

/-- **What a performer is shown**, of a row that owes at least the attempt it is on. -/
theorem Job.Owes.tries_eq {j : Job} {opts : Options} {spent : Nat}
    (h : j.Owes opts.maxAttempts (1 + spent)) : tries j opts = (1 + (spent : Int), opts.maxAttempts) := by
  have hle := h.limit_le
  have heq := h.spent_eq
  have hback : min (max (j.maxAttempts - opts.maxAttempts) 0) (max (j.attempt - 1) 0) =
      j.maxAttempts - opts.maxAttempts := by
    omega
  unfold tries
  rw [hback]
  ext
  · show j.attempt - (j.maxAttempts - opts.maxAttempts) = 1 + spent
    omega
  · show j.maxAttempts - (j.maxAttempts - opts.maxAttempts) = opts.maxAttempts
    omega

/-! ## The invariant -/

variable {options : String → Options}

/-- The leases of a row and its counters balance. -/
structure Balanced (options : String → Options) (h : Ledger) : Prop where
  apart : Apart h.state
  first : ∀ k ∈ h.state.held, 1 ≤ k.turn
  taken : ∀ id turn, (id, turn) ∈ h.past → turn ≤ h.state.turns id
  out : ∀ k ∈ h.state.held, k.name ∉ h.past
  later : ∀ g ∈ h.state.held, ∀ k ∈ h.state.held, g.row.id = k.row.id → g.turn < k.turn →
    g.row.attempt < k.row.attempt
  balance : ∀ j ∈ h.state.jobs,
    j.Owes (options j.kind).maxAttempts (counted h.past j.id (h.state.turns j.id))
  shown : ∀ k ∈ h.state.held,
    k.row.Owes (options k.row.kind).maxAttempts (1 + counted h.past k.row.id (k.turn - 1))

theorem balanced_empty : Balanced options Ledger.empty where
  apart := apart_empty
  first := fun _ hk => absurd hk List.not_mem_nil
  taken := fun _ _ hmem => absurd hmem List.not_mem_nil
  out := fun _ hk => absurd hk List.not_mem_nil
  later := fun _ hg => absurd hg List.not_mem_nil
  balance := fun _ hj => absurd hj List.not_mem_nil
  shown := fun _ hk => absurd hk List.not_mem_nil

namespace Balanced

variable {w : World} {back : List LeaseName}

/-- Dropping holders. -/
theorem filterHeld (inv : Balanced options ⟨w, back⟩) (p : Holder → Bool) :
    Balanced options ⟨{ w with held := w.held.filter p }, back⟩ where
  apart := inv.apart.filterHeld p
  first k hk := inv.first k (List.mem_filter.mp hk).1
  taken := inv.taken
  out k hk := inv.out k (List.mem_filter.mp hk).1
  later g hg k hk := inv.later g (List.mem_filter.mp hg).1 k (List.mem_filter.mp hk).1
  balance := inv.balance
  shown k hk := inv.shown k (List.mem_filter.mp hk).1

/-- Moving phases. -/
theorem mapHeld (inv : Balanced options ⟨w, back⟩) {f : Holder → Holder}
    (hrow : ∀ k, (f k).row = k.row) (hturn : ∀ k, (f k).turn = k.turn) :
    Balanced options ⟨{ w with held := w.held.map f }, back⟩ := by
  refine ⟨inv.apart.mapHeld hrow hturn, ?_, inv.taken, ?_, ?_, inv.balance, ?_⟩
  · intro _ hk'
    obtain ⟨k, hk, rfl⟩ := List.mem_map.mp hk'
    rw [hturn]
    exact inv.first k hk
  · intro _ hk'
    obtain ⟨k, hk, rfl⟩ := List.mem_map.mp hk'
    rw [Holder.name, hrow, hturn]
    exact inv.out k hk
  · intro _ hg' _ hk'
    obtain ⟨g, hg, rfl⟩ := List.mem_map.mp hg'
    obtain ⟨k, hk, rfl⟩ := List.mem_map.mp hk'
    rw [hrow, hrow, hturn, hturn]
    exact inv.later g hg k hk
  · intro _ hk'
    obtain ⟨k, hk, rfl⟩ := List.mem_map.mp hk'
    rw [hrow, hturn]
    exact inv.shown k hk

/-- Writing rows, their counters left alone. -/
theorem updateJobs (inv : Balanced options ⟨w, back⟩) {p : Job → Bool} {f : Job → Job}
    (hid : ∀ j, (f j).id = j.id) (hkind : ∀ j, (f j).kind = j.kind)
    (hattempt : ∀ j, (f j).attempt = j.attempt) (hmax : ∀ j, (f j).maxAttempts = j.maxAttempts) :
    Balanced options ⟨{ w with jobs := w.jobs.update p f }, back⟩ := by
  refine ⟨inv.apart.updateJobs hid hattempt, inv.first, inv.taken, inv.out, inv.later, ?_, inv.shown⟩
  intro j' hj'
  obtain ⟨j, hj, ⟨_, rfl⟩ | ⟨_, rfl⟩⟩ := Table.mem_update_cases hj'
  · have hb := inv.balance j hj
    rw [hid, hkind]
    exact ⟨(hmax j).symm ▸ hb.limit_le, by rw [hattempt, hmax]; exact hb.spent_eq⟩
  · exact inv.balance j' hj

/-- A fresh row owes nothing. -/
theorem insert (inv : Balanced options ⟨w, back⟩) {j : Job} (hfresh : j.id ∉ w.jobs.map (·.id))
    (hunleased : j.id ∉ w.leases) (hattempt : j.attempt = 0)
    (hmax : j.maxAttempts = (options j.kind).maxAttempts) :
    Balanced options ⟨{ w with jobs := w.jobs ++ [j] }, back⟩ := by
  refine ⟨inv.apart.insert hfresh hunleased, inv.first, inv.taken, inv.out, inv.later, ?_, inv.shown⟩
  intro j' hj'
  rcases List.mem_append.mp hj' with hj' | hj'
  · exact inv.balance j' hj'
  · obtain rfl := List.mem_singleton.mp hj'
    have hnone : w.turns j'.id = 0 := List.count_eq_zero.mpr hunleased
    refine ⟨hmax.ge, ?_⟩
    show j'.attempt - _ = (counted back j'.id (w.turns j'.id) : Int)
    rw [hnone, hattempt, hmax]
    simp [counted]

/-- Deleting rows. -/
theorem filterJobs (inv : Balanced options ⟨w, back⟩) (p : Job → Bool) :
    Balanced options ⟨{ w with jobs := w.jobs.filter p }, back⟩ where
  apart := inv.apart.filterJobs p
  first := inv.first
  taken := inv.taken
  out := inv.out
  later := inv.later
  balance j hj := inv.balance j (List.mem_filter.mp hj).1
  shown := inv.shown

/-- **The lease** raises the attempt and the count alike, and shows the performer the attempt it
made. -/
theorem lease (inv : Balanced options ⟨w, back⟩) (dispatcher : Nat) (r : LeaseRequest) :
    Balanced options
      ⟨{ jobs := leaseJobs r w.jobs
         held := w.held ++ w.handed dispatcher (leasedRows r w.jobs)
         leases := w.leases ++ (leasedRows r w.jobs).map (·.id) }, back⟩ := by
  have ids := inv.apart.ids
  have hcount := fun id => count_leases (r := r) ids id
  have hfresh : ∀ id, (id, w.turns id + 1) ∉ back := fun id hmem =>
    Nat.not_succ_le_self _ (inv.taken id _ hmem)
  refine ⟨inv.apart.lease dispatcher r, ?_, ?_, ?_, ?_, ?_, ?_⟩
  · intro k hk
    rcases List.mem_append.mp hk with hk | hk
    · exact inv.first k hk
    · rw [(mem_handed hk).2.1]
      exact Nat.le_add_left _ _
  · intro id turn hmem
    refine (inv.taken id turn hmem).trans ?_
    show w.turns id ≤ List.count id (w.leases ++ (leasedRows r w.jobs).map (·.id))
    rw [hcount]
    exact Nat.le_add_right _ _
  · intro k hk
    rcases List.mem_append.mp hk with hk | hk
    · exact inv.out k hk
    · rw [Holder.name, (mem_handed hk).2.1]
      exact hfresh _
  · intro g hg k hk hid hlt
    rcases List.mem_append.mp hg with hg | hg <;> rcases List.mem_append.mp hk with hk | hk
    · exact inv.later g hg k hk hid hlt
    · obtain ⟨j, hj, _, hrow⟩ := mem_leasedRows.mp (mem_handed hk).1
      have hle := inv.apart.le g hg j hj (by rw [hid, hrow]; rfl)
      rw [hrow]
      exact Int.lt_add_one_of_le hle
    · have hturn := (mem_handed hg).2.1
      have hle := inv.apart.turn_le k hk
      rw [hid] at hturn
      change k.turn ≤ w.turns k.row.id at hle
      omega
    · have hturn := (mem_handed hg).2.1
      have hturn' := (mem_handed hk).2.1
      rw [hid] at hturn
      omega
  · intro j' hj'
    show j'.Owes _ (counted back j'.id
      (List.count j'.id (w.leases ++ (leasedRows r w.jobs).map (·.id))))
    rw [hcount]
    obtain ⟨j, hj, ⟨hp, rfl⟩ | ⟨hp, rfl⟩⟩ := mem_leaseJobs hj'
    · have hb := inv.balance j hj
      have hmem : (r.leased j).id ∈ (leasedRows r w.jobs).map (·.id) :=
        List.mem_map_of_mem (mem_leasedRows.mpr ⟨j, hj, hp, rfl⟩)
      rw [if_pos hmem]
      refine ⟨hb.limit_le, ?_⟩
      show j.attempt + 1 - _ = ((counted back j.id (w.turns j.id + 1) : Nat) : Int)
      have heq : j.attempt - (j.maxAttempts - (options j.kind).maxAttempts) =
        (counted back j.id (w.turns j.id) : Nat) := hb.spent_eq
      rw [counted_succ (hfresh _)]
      push_cast
      show j.attempt + 1 - (j.maxAttempts - (options j.kind).maxAttempts) = _
      omega
    · have hnot : j'.id ∉ (leasedRows r w.jobs).map (·.id) := by
        intro hmem
        obtain ⟨row, hrow, hid⟩ := List.mem_map.mp hmem
        obtain ⟨k, hk, hpk, rfl⟩ := mem_leasedRows.mp hrow
        obtain rfl : k = j' := eq_of_id ids hk hj hid
        rw [hpk] at hp
        exact absurd hp.symm Bool.false_ne_true
      rw [if_neg hnot]
      exact inv.balance j' hj
  · intro k hk
    rcases List.mem_append.mp hk with hk | hk
    · exact inv.shown k hk
    · obtain ⟨hrow, hturn, _⟩ := mem_handed hk
      obtain ⟨j, hj, _, hrow'⟩ := mem_leasedRows.mp hrow
      have hb := inv.balance j hj
      have heq : j.attempt - (j.maxAttempts - (options j.kind).maxAttempts) =
        (counted back j.id (w.turns j.id) : Nat) := hb.spent_eq
      rw [hturn, hrow', Nat.add_sub_cancel]
      refine ⟨hb.limit_le, ?_⟩
      show j.attempt + 1 - (j.maxAttempts - (options j.kind).maxAttempts) =
        ((1 + counted back j.id (w.turns j.id) : Nat) : Int)
      push_cast
      omega

/-- **Giving leases back** lowers what a row counts by one, and so does the write to its row. Of the
leases handed out before a holder's own, none is given back while the holder is at work. -/
theorem giveBack (inv : Balanced options ⟨w, back⟩) {names : List LeaseName} {p : Job → Bool}
    {f : Job → Job} {keep : Holder → Bool}
    (apart : Apart { w with jobs := w.jobs.update p f, held := w.held.filter keep })
    (hnames : ∀ name ∈ names, ∃ k ∈ w.held, k.name = name ∧ keep k = false ∧
      ∃ j ∈ w.jobs, p j = true ∧ j.id = k.row.id ∧ j.attempt = k.row.attempt)
    (hgiven : ∀ j ∈ w.jobs, p j = true →
      ∃ k ∈ w.held, k.name ∈ names ∧ k.row.id = j.id ∧ k.row.attempt = j.attempt)
    (hf : ∀ j, (f j).id = j.id ∧ (f j).kind = j.kind ∧ j.maxAttempts ≤ (f j).maxAttempts ∧
      (f j).attempt - (f j).maxAttempts = j.attempt - j.maxAttempts - 1) :
    Balanced options
      ⟨{ w with jobs := w.jobs.update p f, held := w.held.filter keep }, back ++ names⟩ := by
  have ids := inv.apart.ids
  have kept := inv.filterHeld keep
  refine ⟨apart, kept.first, ?_, ?_, kept.later, ?_, ?_⟩
  · intro id turn hmem
    rcases List.mem_append.mp hmem with hmem | hmem
    · exact inv.taken id turn hmem
    · obtain ⟨k, hk, hname, _⟩ := hnames _ hmem
      obtain ⟨rfl, rfl⟩ : k.row.id = id ∧ k.turn = turn := Prod.mk.injEq _ _ _ _ ▸ hname
      exact inv.apart.turn_le k hk
  · intro g hg hmem
    obtain ⟨hgheld, hkeep⟩ := List.mem_filter.mp hg
    rcases List.mem_append.mp hmem with hmem | hmem
    · exact inv.out g hgheld hmem
    · obtain ⟨k, hk, hname, hdrop, _⟩ := hnames _ hmem
      obtain rfl := inv.apart.unique k hk g hgheld hname
      rw [hdrop] at hkeep
      exact Bool.false_ne_true hkeep
  · intro j' hj'
    show j'.Owes _ (counted (back ++ names) j'.id (w.turns j'.id))
    obtain ⟨j, hj, ⟨hp, rfl⟩ | ⟨hp, rfl⟩⟩ := Table.mem_update_cases hj'
    · obtain ⟨hid, hkind, hmax, hdiff⟩ := hf j
      have hb := inv.balance j hj
      obtain ⟨k, hk, hmem, hkid, hkattempt⟩ := hgiven j hj hp
      have honly : ∀ t, (j.id, t) ∈ names ↔ t = k.turn := by
        intro t
        constructor
        · intro ht
          obtain ⟨k', hk', hname, _, j2, hj2, _, hj2id, hj2attempt⟩ := hnames _ ht
          have hid' : k'.row.id = j.id := congrArg Prod.fst hname
          obtain rfl := eq_of_id ids hj2 hj (hj2id.trans hid')
          obtain rfl := inv.apart.alone k' hk' k hk (hid'.trans hkid.symm)
            (hj2attempt.symm.trans hkattempt.symm)
          exact (congrArg Prod.snd hname).symm
        · rintro rfl
          rw [← hkid]
          exact hmem
      have hout : (j.id, k.turn) ∉ back := by
        rw [← hkid]
        exact inv.out k hk
      have hfall := counted_append_one honly (inv.first k hk) (hkid ▸ inv.apart.turn_le k hk) hout
      have hspent : j.attempt - (j.maxAttempts - (options j.kind).maxAttempts) =
        (counted back j.id (w.turns j.id) : Nat) := hb.spent_eq
      rw [hid, hkind]
      refine ⟨hb.limit_le.trans hmax, ?_⟩
      change counted (back ++ names) j.id (w.turns j.id) + 1 = counted back j.id (w.turns j.id) at hfall
      omega
    · have hnone : ∀ t, 1 ≤ t → t ≤ w.turns j'.id → (j'.id, t) ∉ names := by
        intro t _ _ ht
        obtain ⟨k, hk, hname, _, j2, hj2, hp2, hj2id, _⟩ := hnames _ ht
        obtain rfl := eq_of_id ids hj2 hj (hj2id.trans (congrArg Prod.fst hname))
        rw [hp2] at hp
        exact absurd hp.symm Bool.false_ne_true
      rw [counted_append hnone]
      exact inv.balance j' hj
  · intro g hg
    have hgheld := (List.mem_filter.mp hg).1
    have hnone : ∀ t, 1 ≤ t → t ≤ g.turn - 1 → (g.row.id, t) ∉ names := by
      intro t hpos hle ht
      obtain ⟨k, hk, hname, _, j, hj, _, hjid, hjattempt⟩ := hnames _ ht
      have hid : k.row.id = g.row.id := congrArg Prod.fst hname
      have hturn : k.turn = t := congrArg Prod.snd hname
      have hlt := inv.later k hk g hgheld hid (by omega)
      have hbelow := inv.apart.le g hgheld j hj (hjid.trans hid)
      omega
    rw [counted_append hnone]
    exact inv.shown g hgheld

end Balanced

/-! ## Every run -/

/-- A write that does not give the attempt back leaves both counters. -/
theorem OutcomeWrite.set_counters (write : OutcomeWrite) (j : Job) :
    (write.set j).kind = j.kind ∧
      (write.handsBack = false → (write.set j).maxAttempts = j.maxAttempts) ∧
      (write.handsBack = true → (write.set j).maxAttempts = j.maxAttempts + 1) := by
  cases write with
  | handBackJob => exact ⟨rfl, nofun, fun _ => rfl⟩
  | finishJob => exact ⟨rfl, fun _ => rfl, nofun⟩
  | requeueJob => exact ⟨rfl, fun _ => rfl, nofun⟩
  | extendJobLease => exact ⟨rfl, fun _ => rfl, nofun⟩

/-- What a hand-back that lands gives back. -/
theorem Balanced.handBack {w : World} {back : List LeaseName} (inv : Balanced options ⟨w, back⟩)
    {k : Holder} (hk : k ∈ w.held) {write : OutcomeWrite} (hback : write.handsBack = true)
    (hlands : 0 < write.changed k.row.id k.row.attempt w.jobs) :
    Balanced options ⟨{ w with
      jobs := write.run k.row.id k.row.attempt w.jobs
      held := w.held.filter fun g => g.name != k.name }, back ++ [k.name]⟩ := by
  refine inv.giveBack ((inv.apart.updateJobs write.set_id write.set_attempt).filterHeld _) ?_ ?_ ?_
  · intro name hname
    obtain rfl := List.mem_singleton.mp hname
    obtain ⟨j, hj, hon⟩ := List.countP_pos_iff.mp hlands
    exact ⟨k, hk, rfl, by simp, j, hj, hon, OutcomeWrite.on_spec hon⟩
  · intro j hj hon
    obtain ⟨hid, hattempt⟩ := OutcomeWrite.on_spec hon
    exact ⟨k, hk, List.mem_singleton_self _, hid.symm, hattempt.symm⟩
  · intro j
    have hmax := (write.set_counters j).2.2 hback
    refine ⟨write.set_id j, (write.set_counters j).1, ?_, ?_⟩
    · omega
    · rw [write.set_attempt, hmax]
      omega

/-- What a release gives back. -/
theorem Balanced.release {w : World} {back : List LeaseName} (inv : Balanced options ⟨w, back⟩)
    (dispatcher : Nat) :
    Balanced options ⟨{ w with
      jobs := releaseJobs (w.drainedLeases dispatcher) w.jobs
      held := w.held.filter fun k => !(k.dispatcher == dispatcher && k.phase == .drained) },
      back ++ w.gaveBack (.releaseJobs dispatcher)⟩ := by
  refine inv.giveBack (inv.apart.release dispatcher) ?_ ?_ ?_
  · intro name hname
    obtain ⟨k, hmem, rfl⟩ := List.mem_map.mp hname
    obtain ⟨hk, hdrained⟩ := List.mem_filter.mp hmem
    simp only [Bool.and_eq_true, World.runsAt, List.any_eq_true, beq_iff_eq] at hdrained
    obtain ⟨⟨hdis, hphase⟩, j, hj, hrun, hat⟩ := hdrained
    simp only [Job.isAttempt, Bool.and_eq_true, beq_iff_eq] at hat
    refine ⟨k, hk, rfl, by simp [hdis, hphase], j, hj, ?_, hat⟩
    simp only [releases, hrun, beq_self_eq_true, Bool.true_and, List.contains_iff_mem,
      World.drainedLeases, List.mem_map, List.mem_filter, Bool.and_eq_true, beq_iff_eq]
    exact ⟨k, ⟨hk, hdis, hphase⟩, by rw [hat.1, hat.2]⟩
  · intro j hj hp
    obtain ⟨hrun, k, hk, hdis, hphase, hid, hattempt⟩ := holder_of_releases hp
    refine ⟨k, hk, List.mem_map.mpr ⟨k, List.mem_filter.mpr ⟨hk, ?_⟩, rfl⟩, hid, hattempt⟩
    simp only [hdis, hphase, beq_self_eq_true, Bool.true_and, World.runsAt, List.any_eq_true]
    exact ⟨j, hj, by simp [hrun, Job.isAttempt, hid, hattempt]⟩
  · intro j
    refine ⟨rfl, rfl, Int.le_refl _, ?_⟩
    show j.attempt - 1 - j.maxAttempts = _
    omega

/-- A step that hands nothing back records nothing. -/
theorem Balanced.nothing_back {w : World} {back : List LeaseName} (inv : Balanced options ⟨w, back⟩) :
    Balanced options ⟨w, back ++ []⟩ := by
  rwa [List.append_nil]

/-- One step. -/
theorem Balanced.step {h h' : Ledger} {a : Label} (inv : Balanced options h)
    (registered : Registered options h a) (hstep : h.step a = some h') : Balanced options h' := by
  obtain ⟨w, back⟩ := h
  obtain ⟨w', back'⟩ := h'
  obtain ⟨hworld, hback⟩ := recording_eq_some hstep
  simp only at hworld hback
  subst hback
  cases a with
  | insertJob id kind args lane sequence maxAttempts notBefore now =>
    simp only [World.step] at hworld
    split at hworld
    · cases hworld
    · next hfresh =>
      obtain ⟨hid, hleases, _⟩ := not_or.mp hfresh |>.imp_right not_or.mp
      rw [← Option.some.inj hworld]
      apply Balanced.nothing_back
      exact inv.insert hid hleases rfl registered
  | leaseJobs dispatcher request =>
    rw [← Option.some.inj hworld]
    apply Balanced.nothing_back
    exact inv.lease dispatcher _
  | extendJobLease lease until_ =>
    obtain ⟨k, _, rfl⟩ := Option.map_eq_some_iff.mp hworld
    apply Balanced.nothing_back
    exact inv.updateJobs (fun _ => rfl) (fun _ => rfl) (fun _ => rfl) (fun _ => rfl)
  | claim lease =>
    obtain ⟨k, _, rfl⟩ := Option.map_eq_some_iff.mp hworld
    apply Balanced.nothing_back
    refine inv.mapHeld (fun g => ?_) (fun g => ?_)
    · split <;> rfl
    · split <;> rfl
  | writeOutcome lease opts now counters result =>
    obtain ⟨k, hfound, rfl⟩ := Option.map_eq_some_iff.mp hworld
    obtain ⟨hk, rfl, _⟩ := holder_spec hfound
    rw [World.gaveBack, hfound]
    show Balanced options ⟨{ w with
      jobs := (k.outcome opts now counters result).run k.row.id k.row.attempt w.jobs
      held := _ }, back ++ if _ then _ else _⟩
    by_cases hb : (k.outcome opts now counters result).handsBack = true
    · by_cases hlands : 0 < (k.outcome opts now counters result).changed k.row.id k.row.attempt w.jobs
      · rw [if_pos (by simp [hb, hlands])]
        exact inv.handBack hk hb hlands
      · rw [if_neg (by simp [hlands]), List.append_nil, OutcomeWrite.run,
          Table.update_of_matching_zero _ (Nat.eq_zero_of_not_pos hlands)]
        exact inv.filterHeld _
    · have hset := fun j => (k.outcome opts now counters result).set_counters j
      rw [if_neg (by simp [hb]), List.append_nil]
      exact (inv.updateJobs (OutcomeWrite.set_id _) (fun j => (hset j).1) (OutcomeWrite.set_attempt _)
        (fun j => (hset j).2.1 (Bool.not_eq_true _ ▸ hb))).filterHeld _
  | remove lease =>
    obtain ⟨k, _, rfl⟩ := Option.map_eq_some_iff.mp hworld
    apply Balanced.nothing_back
    exact inv.filterHeld _
  | drain dispatcher =>
    rw [← Option.some.inj hworld]
    apply Balanced.nothing_back
    refine inv.mapHeld (fun g => ?_) (fun g => ?_)
    · split <;> rfl
    · split <;> rfl
  | releaseJobs dispatcher =>
    rw [← Option.some.inj hworld]
    exact inv.release dispatcher
  | crash dispatcher =>
    rw [← Option.some.inj hworld]
    apply Balanced.nothing_back
    exact inv.filterHeld _
  | discardLane lane now error =>
    rw [← Option.some.inj hworld]
    apply Balanced.nothing_back
    exact inv.updateJobs (fun _ => rfl) (fun _ => rfl) (fun _ => rfl) (fun _ => rfl)
  | sweepFinishedJobs before =>
    rw [← Option.some.inj hworld]
    apply Balanced.nothing_back
    exact inv.filterJobs _

/-- Every run of registered kinds. -/
theorem Balanced.runs {h : Ledger} (run : Runs Ledger.step (Registered options) Ledger.empty h) :
    Balanced options h :=
  run.keeps balanced_empty fun _ _ _ inv registered hstep => inv.step registered hstep

/-! ## How a job is discarded -/

/-- What discards a job that was not: a discard of its lane, or the outcome of its worker, who was
leased it past its limit, or whose failed attempt is not given back and is the last or never to be
retried. -/
def DiscardedBy (options : String → Options) (w : World) (j : Job) : Label → Prop
  | .discardLane lane _ _ => j.lane = some lane ∧ j.state = .queued
  | .writeOutcome lease _ now _ result =>
    ∃ k, w.holder? lease .writing = some k ∧ k.row.id = j.id ∧ k.row.attempt = j.attempt ∧
      ((options k.row.kind).maxAttempts < (tries k.row (options k.row.kind)).1 ∨
        ∃ err, result = some err ∧ handBack err (now - k.row.createdAt) = false ∧
          (err.discard = true ∨
            (tries k.row (options k.row.kind)).1 = (options k.row.kind).maxAttempts))
  | _ => False

/-- A worker's outcome is about the row at the attempt it was leased for, whatever state it is in. -/
theorem writeOutcome_on (row j : Job) (opts : Options) (now : Time) (counters : Option Counters)
    (result : Option Failure) (id : JobId) (attempt : Int) :
    (writeOutcome row opts now counters result).on id attempt j = j.isAttempt id attempt := by
  cases result with
  | none => rfl
  | some err =>
    simp only [writeOutcome]
    split
    · rfl
    · split <;> rfl

/-- When the outcome of a worker's row discards it. -/
theorem outcome_discards (row j : Job) (opts : Options) (now : Time) (counters : Option Counters)
    (result : Option Failure) :
    ((writeOutcome row opts now counters (performed row result)).set j).state = .discarded ↔
      row.maxAttempts < row.attempt ∨ ∃ err, result = some err ∧
        handBack err (now - row.createdAt) = false ∧
          (err.discard = true ∨ row.attempt = row.maxAttempts) := by
  by_cases hpast : row.maxAttempts < row.attempt
  · simp [performed, hpast, writeOutcome, handBack, lapsedLease, OutcomeWrite.set]
  · rw [performed, if_neg hpast]
    cases result with
    | none => simp [writeOutcome, OutcomeWrite.set, hpast]
    | some err =>
      simp only [hpast, false_or, Option.some.injEq, exists_eq_left']
      by_cases hback : handBack err (now - row.createdAt) = true
      · simp [writeOutcome, hback, OutcomeWrite.set]
      · rw [Bool.not_eq_true] at hback
        have hlast : row.attempt ≥ row.maxAttempts ↔ row.attempt = row.maxAttempts := by omega
        by_cases hends : err.discard = true ∨ row.attempt = row.maxAttempts
        · simp [writeOutcome, hback, hlast, hends, OutcomeWrite.set]
        · simp [writeOutcome, hback, hlast, hends, OutcomeWrite.set]

/-- **A job is discarded exactly so.** -/
theorem Balanced.discarded_iff {h h' : Ledger} {a : Label} (inv : Balanced options h)
    (registered : Registered options h a) (hstep : h.step a = some h') {j j' : Job}
    (hj : j ∈ h.state.jobs) (hlive : j.state ≠ .discarded) (hj' : j' ∈ h'.state.jobs)
    (hid : j'.id = j.id) : j'.state = .discarded ↔ DiscardedBy options h.state j a := by
  obtain ⟨hworld, _⟩ := recording_eq_some hstep
  have ids := inv.apart.ids
  have hstays : j' ∈ h.state.jobs → (j'.state = .discarded ↔ False) := by
    intro hmem
    rw [eq_of_id ids hmem hj hid]
    exact ⟨hlive, False.elim⟩
  have hupdate : ∀ {p : Job → Bool} {f : Job → Job}, j' ∈ h.state.jobs.update p f →
      (∀ i, (f i).id = i.id) → j' = if p j then f j else j := by
    intro p f hmem hf
    obtain ⟨i, hi, rfl⟩ := Table.mem_update hmem
    have hsame : i = j := eq_of_id ids hi hj (by rw [← hid]; split <;> simp [hf])
    rw [hsame]
  cases a with
  | insertJob id kind args lane sequence maxAttempts notBefore now =>
    simp only [World.step] at hworld
    split at hworld
    · cases hworld
    · next hfresh =>
      rw [← Option.some.inj hworld] at hj'
      rcases List.mem_append.mp hj' with hj' | hj'
      · exact hstays hj'
      · obtain rfl := List.mem_singleton.mp hj'
        exact absurd (List.mem_map.mpr ⟨j, hj, hid.symm⟩) (not_or.mp hfresh).1
  | leaseJobs dispatcher request =>
    rw [← Option.some.inj hworld] at hj'
    rw [hupdate hj' fun _ => rfl]
    split
    · exact ⟨by rintro ⟨⟩, False.elim⟩
    · exact ⟨hlive, False.elim⟩
  | extendJobLease lease until_ =>
    obtain ⟨k, _, hk⟩ := Option.map_eq_some_iff.mp hworld
    rw [← hk] at hj'
    rw [hupdate hj' (OutcomeWrite.set_id _)]
    split
    · exact ⟨hlive, False.elim⟩
    · exact ⟨hlive, False.elim⟩
  | claim lease =>
    obtain ⟨k, _, hk⟩ := Option.map_eq_some_iff.mp hworld
    rw [← hk] at hj'
    exact hstays hj'
  | writeOutcome lease opts now counters result =>
    obtain ⟨k, hfound, hk⟩ := Option.map_eq_some_iff.mp hworld
    obtain ⟨hheld, hname, _⟩ := holder_spec hfound
    obtain rfl : opts = options k.row.kind := registered k hheld hname
    have hshown := (inv.shown k hheld).tries_eq
    have hdiff : (tries k.row (options k.row.kind)).1 - (tries k.row (options k.row.kind)).2 =
        k.row.attempt - k.row.maxAttempts := by
      simp only [tries]
      omega
    have hlimit : (tries k.row (options k.row.kind)).2 = (options k.row.kind).maxAttempts :=
      congrArg Prod.snd hshown
    rw [← hk] at hj'
    rw [hupdate hj' (OutcomeWrite.set_id _)]
    simp only [DiscardedBy, hfound, Option.some.injEq, exists_eq_left']
    by_cases hon : k.row.id = j.id ∧ k.row.attempt = j.attempt
    · have hmatch : (writeOutcome k.row (options k.row.kind) now counters (performed k.row result)).on
          k.row.id k.row.attempt j = true := by
        simp [writeOutcome_on, Job.isAttempt, hon]
      rw [if_pos hmatch, outcome_discards]
      have hpast : k.row.maxAttempts < k.row.attempt ↔
          (options k.row.kind).maxAttempts < (tries k.row (options k.row.kind)).1 := by omega
      have hlast : k.row.attempt = k.row.maxAttempts ↔
          (tries k.row (options k.row.kind)).1 = (options k.row.kind).maxAttempts := by omega
      rw [hpast, hlast]
      simp [hon]
    · rw [if_neg]
      · exact ⟨fun h => absurd h hlive, fun h => absurd ⟨h.1, h.2.1⟩ hon⟩
      · intro hmatch
        obtain ⟨h1, h2⟩ := OutcomeWrite.on_spec hmatch
        exact hon ⟨h1.symm, h2.symm⟩
  | remove lease =>
    obtain ⟨k, _, hk⟩ := Option.map_eq_some_iff.mp hworld
    rw [← hk] at hj'
    exact hstays hj'
  | drain dispatcher =>
    rw [← Option.some.inj hworld] at hj'
    exact hstays hj'
  | releaseJobs dispatcher =>
    rw [← Option.some.inj hworld] at hj'
    rw [hupdate hj' fun _ => rfl]
    split
    · exact ⟨by rintro ⟨⟩, False.elim⟩
    · exact ⟨hlive, False.elim⟩
  | crash dispatcher =>
    rw [← Option.some.inj hworld] at hj'
    exact hstays hj'
  | discardLane lane now error =>
    rw [← Option.some.inj hworld] at hj'
    rw [hupdate hj' fun _ => rfl]
    simp only [DiscardedBy, Bool.and_eq_true, beq_iff_eq]
    split
    · next hends => exact ⟨fun _ => hends, fun _ => rfl⟩
    · next hends => exact ⟨fun h => absurd h hlive, fun h => absurd h hends⟩
  | sweepFinishedJobs before =>
    rw [← Option.some.inj hworld] at hj'
    exact hstays (List.mem_filter.mp hj').1

/-! ## The accounting of every run -/

/-- **Retry accounting.** In every state of a run of registered kinds, what each leased row's
performer is shown is one more than the number of the row's earlier leases that were neither handed
back nor released, with the kind's limit; a performer that is run at all is shown no more than that
limit; and a step discards a job exactly as `DiscardedBy` says. -/
theorem retry_accounting {h : Ledger}
    (run : Runs Ledger.step (Registered options) Ledger.empty h) :
    (∀ k ∈ h.state.held,
      tries k.row (options k.row.kind) =
          (1 + (counted h.past k.row.id (k.turn - 1) : Int), (options k.row.kind).maxAttempts) ∧
        (k.row.attempt ≤ k.row.maxAttempts →
          (tries k.row (options k.row.kind)).1 ≤ (options k.row.kind).maxAttempts)) ∧
      ∀ a h', Registered options h a → h.step a = some h' →
        ∀ j ∈ h.state.jobs, j.state ≠ .discarded → ∀ j' ∈ h'.state.jobs, j'.id = j.id →
          (j'.state = .discarded ↔ DiscardedBy options h.state j a) := by
  have inv := Balanced.runs run
  refine ⟨fun k hk => ⟨(inv.shown k hk).tries_eq, fun hle => ?_⟩, ?_⟩
  · have howes := inv.shown k hk
    have hspent := howes.spent_eq
    rw [howes.tries_eq]
    push_cast at hspent
    show 1 + (counted h.past k.row.id (k.turn - 1) : Int) ≤ (options k.row.kind).maxAttempts
    omega
  · intro a h' registered hstep j hj hlive j' hj' hid
    exact inv.discarded_iff registered hstep hj hlive hj' hid

/-! ## A hand-back and a lapse -/

/-- The retry policy of the run below: two attempts. -/
def twoTries : Options where
  maxAttempts := 2
  backoff := [5]
  maxInFlight := 0
  backoff_ne := List.cons_ne_nil _ _

/-- A failure before any work. -/
def unreachable : Failure where
  text := "unreachable"
  retryAfter := none
  discard := false
  notAttempted := true

/-- A lease query at `now`, for the one kind of the run. -/
def leaseDue (now : Time) : LeaseRequest where
  now := now
  until_ := now + 10
  kinds := ["mail"]
  excluded := []
  limit := 1
  locked := []

/-- A job's first attempt is handed back, its second lapses, and its third is under way. -/
def handedBackThenLapsed : List Label :=
  [.insertJob 1 "mail" "{}" none none 2 0 0, .leaseJobs 0 (leaseDue 0), .claim (1, 1),
    .writeOutcome (1, 1) twoTries 1 none (some unreachable), .leaseJobs 0 (leaseDue 20),
    .leaseJobs 1 (leaseDue 40)]

/-- The state it leads to. -/
def thirdLease : Ledger := (runList Ledger.step Ledger.empty handedBackThenLapsed).getD Ledger.empty

theorem handedBackThenLapsed_registered :
    Runs Ledger.step (Registered fun _ => twoTries) Ledger.empty thirdLease := by
  refine Runs.ofList handedBackThenLapsed (EachStep.of_forall (fun a ha s => ?_) _) rfl
  simp only [handedBackThenLapsed, List.mem_cons, List.not_mem_nil, or_false] at ha
  rcases ha with rfl | rfl | rfl | rfl | rfl | rfl
  · rfl
  · trivial
  · trivial
  · exact fun _ _ _ => rfl
  · trivial
  · trivial

/-- Its holder: the row as the third lease returned it. -/
def thirdHolder : Holder where
  dispatcher := 1
  row := (leaseDue 40).leased ((leaseDue 20).leased
    ((OutcomeWrite.handBackJob 1 6 "unreachable" none).set
      ((leaseDue 0).leased (insertJob 1 "mail" "{}" none none 2 0 0))))
  turn := 3
  phase := .performing

/-- The third lease is the second that counts, and the last the kind has. -/
theorem thirdLease_shown :
    tries thirdHolder.row twoTries = (1 + (counted thirdLease.past 1 2 : Int), 2) ∧
      counted thirdLease.past 1 2 = 1 ∧ (tries thirdHolder.row twoTries).1 ≤ 2 :=
  have shown := (retry_accounting handedBackThenLapsed_registered).1 thirdHolder (by decide)
  ⟨shown.1, by decide, shown.2 (by decide)⟩

end Stoop.Jobs
