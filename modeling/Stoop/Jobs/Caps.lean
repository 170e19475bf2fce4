import Mathlib.Logic.Function.Basic
import Stoop.Jobs.Attempts

/-!
# Capped kinds

A kind with `MaxInFlight` is leased in its own transaction under the kind's advisory lock: count the
live leases, then lease up to the cap less that count (`caps.go`). The machine here runs the statements
of those transactions one by one, with a clock, among every other step of any number of dispatchers.

The count is right when it is made and stays a bound while the lock is held, as long as no lease comes
back to life: `ExtendJobLease` asks neither for the lock nor whether the lease it extends has lapsed.
`RenewsLive` is the runs in which it only ever extends a live lease, and there the cap holds
(`cap_holds`). A renewal of a lapsed lease, whose slot the count gave away, breaks it
(`late_renewal_passes_cap`).
-/

set_option autoImplicit false

namespace Stoop.Jobs

open Stoop.Lib

/-! ## Live leases -/

/-- A row of a kind running on a live lease: `state = 'running' AND leased_until >= now`. -/
def Job.onLiveLease (kind : String) (now : Time) (j : Job) : Bool :=
  j.kind == kind && j.state == .running && !j.leaseLapsed now

/-- `CountLiveLeases`. -/
def countLiveLeases (kind : String) (now : Time) (t : Table) : Nat := t.countP (·.onLiveLease kind now)

/-- A live lease was live at any earlier instant. -/
theorem Job.onLiveLease_earlier {kind : String} {now later : Time} (hle : now ≤ later) {j : Job}
    (h : j.onLiveLease kind later = true) : j.onLiveLease kind now = true := by
  simp only [onLiveLease, leaseLapsed, Bool.and_eq_true, Bool.not_eq_true'] at h ⊢
  refine ⟨h.1, ?_⟩
  cases hd : j.leasedUntil with
  | none => simp [hd] at h
  | some deadline =>
    simp only [hd, decide_eq_false_iff_not, not_lt] at h ⊢
    exact hle.trans h.2

theorem countLiveLeases_earlier (kind : String) {now later : Time} (hle : now ≤ later) (t : Table) :
    countLiveLeases kind later t ≤ countLiveLeases kind now t :=
  List.countP_mono_left fun _ _ => Job.onLiveLease_earlier hle

/-- A statement that leaves on a live lease only rows that were on one adds none. -/
theorem countLiveLeases_update {kind : String} {now : Time} {t : Table} {p : Job → Bool} {f : Job → Job}
    (h : ∀ j ∈ t, p j = true → (f j).onLiveLease kind now = true → j.onLiveLease kind now = true) :
    countLiveLeases kind now (t.update p f) ≤ countLiveLeases kind now t := by
  unfold countLiveLeases Table.update
  rw [List.countP_map]
  refine List.countP_mono_left fun j hj => ?_
  rw [Function.comp_apply]
  split
  · next hp => exact h j hj hp
  · exact id

/-- No outcome leaves its row running. -/
theorem writeOutcome_stops {row : Job} {opts : Options} {now : Time} {counters : Option Counters}
    {result : Option Failure} {j : Job} :
    ((writeOutcome row opts now counters result).set j).state ≠ .running := by
  cases result with
  | none => nofun
  | some err =>
    simp only [writeOutcome]
    split
    · nofun
    · split
      · nofun
      · nofun

/-- Rows picked by id are no more than the ids. -/
theorem countP_ids_le {t : Table} (ids : (t.map (·.id)).Nodup) (picked : List JobId) :
    t.countP (fun j => picked.contains j.id) ≤ picked.length := by
  rw [List.countP_eq_length_filter, ← List.length_map (f := (·.id))]
  have hnodup : ((t.filter fun j => picked.contains j.id).map (·.id)).Nodup :=
    ids.sublist (List.filter_sublist.map _)
  refine (List.subperm_of_subset hnodup fun id hid => ?_).length_le
  obtain ⟨j, hj, rfl⟩ := List.mem_map.mp hid
  exact List.contains_iff_mem.mp (List.mem_filter.mp hj).2

/-- A lease query adds no more live leases than its limit. -/
theorem countLiveLeases_lease {kind : String} {now : Time} {t : Table} (ids : (t.map (·.id)).Nodup)
    (r : LeaseRequest) :
    countLiveLeases kind now (leaseJobs r t) ≤ countLiveLeases kind now t + r.limit := by
  have hpicked : t.countP (fun j => (r.picks t).contains j.id) ≤ r.limit := by
    refine (countP_ids_le ids _).trans ?_
    rw [LeaseRequest.picks, List.length_map]
    exact List.length_take_le _ _
  have hsum : ∀ u : Table, u.countP (fun j =>
        (if (r.picks t).contains j.id then r.leased j else j).onLiveLease kind now) ≤
      u.countP (·.onLiveLease kind now) + u.countP fun j => (r.picks t).contains j.id := by
    intro u
    induction u with
    | nil => exact Nat.le_refl _
    | cons j u ih =>
      simp only [List.countP_cons]
      by_cases hp : (r.picks t).contains j.id = true
      · simp only [hp, if_true]
        split <;> omega
      · simp only [hp, Bool.false_eq_true, if_false]
        omega
  calc countLiveLeases kind now (leaseJobs r t)
      = t.countP (fun j =>
          (if (r.picks t).contains j.id then r.leased j else j).onLiveLease kind now) := by
        rw [countLiveLeases, leaseJobs, Table.update, List.countP_map]
        rfl
    _ ≤ countLiveLeases kind now t + t.countP (fun j => (r.picks t).contains j.id) := hsum t
    _ ≤ countLiveLeases kind now t + r.limit := Nat.add_le_add_left hpicked _

/-- A lease query adds no live lease of a kind it does not ask for. -/
theorem countLiveLeases_lease_other {kind : String} {now : Time} {t : Table}
    (ids : (t.map (·.id)).Nodup) {r : LeaseRequest} (hkind : kind ∉ r.kinds) :
    countLiveLeases kind now (leaseJobs r t) ≤ countLiveLeases kind now t := by
  refine countLiveLeases_update fun j hj hp hlive => ?_
  have htakes := takes_of_picks ids hj hp
  simp only [LeaseRequest.takes, Bool.and_eq_true, List.contains_iff_mem] at htakes
  simp only [Job.onLiveLease, Bool.and_eq_true, beq_iff_eq] at hlive
  have hsame : j.kind = kind := hlive.1.1
  exact absurd (hsame ▸ htakes.1.1.1.1.1.2) hkind

/-! ## The machine -/

/-- A transaction of `leaseCapped` that holds its kind's lock: the dispatcher's clock when its pass
began, the slots it has free, and the count once it is made. -/
structure LeaseTx where
  dispatcher : Nat
  now : Time
  free : Int
  live : Option Nat

/-- The world, the clock, and the transaction that holds each kind's lock. -/
structure CapWorld where
  world : World
  clock : Time
  leasing : String → Option LeaseTx

/-- Before any job. -/
def CapWorld.start (clock : Time) : CapWorld := ⟨World.empty, clock, fun _ => none⟩

/-- One statement of a lease transaction, or one other step. -/
inductive CapLabel
  | tick (now : Time)
  | lockKindLeasing (kind : String) (dispatcher : Nat) (now : Time) (free : Int)
  | countLiveLeases (kind : String)
  | leaseJobs (kind : String) (lease : Int) (locked : List JobId)
  | rollback (kind : String)
  | leaseUncapped (dispatcher : Nat) (request : LeaseRequest)
  | other (a : Label)

/-- What a capped lease asks, within the cap. -/
def LeaseTx.request (tx : LeaseTx) (kind : String) (lease : Int) (locked : List JobId) (limit : Int) :
    LeaseRequest where
  now := tx.now
  until_ := tx.now + lease
  kinds := [kind]
  excluded := []
  limit := limit.toNat
  locked := locked

/-- Whether a step is a lease query, which here is made in a lease transaction or of uncapped kinds. -/
def Label.leases : Label → Bool
  | .leaseJobs .. => true
  | _ => false

/-- The world with a kind's lock held by a transaction, or by none. -/
def CapWorld.hold (s : CapWorld) (kind : String) (tx : Option LeaseTx) : CapWorld :=
  { s with leasing := Function.update s.leasing kind tx }

theorem CapWorld.hold_self (s : CapWorld) (kind : String) (tx : Option LeaseTx) :
    (s.hold kind tx).leasing kind = tx := Function.update_self ..

theorem CapWorld.hold_of_ne (s : CapWorld) {kind other : String} (tx : Option LeaseTx)
    (h : other ≠ kind) : (s.hold kind tx).leasing other = s.leasing other := Function.update_of_ne h ..

/-- One step, under each kind's cap (`0` is no cap). -/
def CapWorld.step (cap : String → Int) (s : CapWorld) : CapLabel → Option CapWorld
  | .tick now => if s.clock ≤ now then some { s with clock := now } else none
  | .lockKindLeasing kind dispatcher now free =>
    -- the pass read its clock before it waited for the lock
    if 0 < cap kind ∧ (s.leasing kind).isNone ∧ now ≤ s.clock then
      some (s.hold kind (some ⟨dispatcher, now, free, none⟩))
    else none
  | .countLiveLeases kind =>
    (s.leasing kind).map fun tx =>
      s.hold kind (some { tx with live := some (Jobs.countLiveLeases kind tx.now s.world.jobs) })
  | .leaseJobs kind lease locked =>
    (s.leasing kind).bind fun tx => tx.live.bind fun live =>
      let limit := min tx.free (cap kind - live)
      if limit ≤ 0 then some (s.hold kind none)
      else (s.world.step (.leaseJobs tx.dispatcher (tx.request kind lease locked limit))).map
        fun w => { s.hold kind none with world := w }
  | .rollback kind => some (s.hold kind none)
  | .leaseUncapped dispatcher request =>
    if request.kinds.all (cap · ≤ 0) then
      (s.world.step (.leaseJobs dispatcher request)).map fun w => { s with world := w }
    else none
  | .other a => if a.leases then none else (s.world.step a).map fun w => { s with world := w }

/-- The rows a step renews. -/
def CapWorld.renews (s : CapWorld) : CapLabel → Job → Bool
  | .other (.extendJobLease lease until_), j =>
    match s.world.holder? lease .performing with
    | none => false
    | some k => (OutcomeWrite.extendJobLease until_).on k.row.id k.row.attempt j
  | _, _ => false

/-- A lease is renewed while it is live. -/
def RenewsLive (s : CapWorld) (a : CapLabel) : Prop :=
  ∀ j ∈ s.world.jobs, s.renews a j = true → j.leaseLapsed s.clock = false

instance (s : CapWorld) (a : CapLabel) : Decidable (RenewsLive s a) :=
  inferInstanceAs (Decidable (∀ j ∈ s.world.jobs, s.renews a j = true → j.leaseLapsed s.clock = false))

/-! ## The invariant -/

variable {cap : String → Int}

/-- Each kind is under its cap, and what a transaction counted bounds what is live while it holds the
lock. -/
structure Capped (cap : String → Int) (s : CapWorld) : Prop where
  apart : Apart s.world
  under : ∀ kind, 0 < cap kind → (countLiveLeases kind s.clock s.world.jobs : Int) ≤ cap kind
  before : ∀ kind tx, s.leasing kind = some tx → 0 < cap kind ∧ tx.now ≤ s.clock
  bound : ∀ kind tx live, s.leasing kind = some tx → tx.live = some live →
    countLiveLeases kind tx.now s.world.jobs ≤ live

theorem capped_start (clock : Time) : Capped cap (CapWorld.start clock) where
  apart := apart_empty
  under := fun _ hpos => hpos.le
  before := fun _ _ htx => nomatch htx
  bound := fun _ _ _ htx => nomatch htx

namespace Capped

variable {s s' : CapWorld}

/-- A step that adds no live lease of a capped kind, at any instant up to now. -/
theorem calm (inv : Capped cap s) {w : World} (apart : Apart w)
    (hcalm : ∀ kind now, 0 < cap kind → now ≤ s.clock →
      countLiveLeases kind now w.jobs ≤ countLiveLeases kind now s.world.jobs) :
    Capped cap { s with world := w } where
  apart := apart
  under kind hpos :=
    (Int.ofNat_le.mpr (hcalm kind s.clock hpos (le_refl _))).trans (inv.under kind hpos)
  before := inv.before
  bound kind tx live htx hlive := by
    obtain ⟨hpos, hle⟩ := inv.before kind tx htx
    exact (hcalm kind tx.now hpos hle).trans (inv.bound kind tx live htx hlive)

/-- Taking, keeping or leaving a kind's lock. -/
theorem hold (inv : Capped cap s) {kind : String} {tx : Option LeaseTx}
    (hbefore : ∀ t, tx = some t → 0 < cap kind ∧ t.now ≤ s.clock)
    (hbound : ∀ t live, tx = some t → t.live = some live →
      countLiveLeases kind t.now s.world.jobs ≤ live) : Capped cap (s.hold kind tx) where
  apart := inv.apart
  under := inv.under
  before other t ht := by
    by_cases hk : other = kind
    · subst hk
      exact hbefore t ((s.hold_self other tx).symm.trans ht)
    · exact inv.before other t ((s.hold_of_ne tx hk).symm.trans ht)
  bound other t live ht hlive := by
    by_cases hk : other = kind
    · subst hk
      exact hbound t live ((s.hold_self other tx).symm.trans ht) hlive
    · exact inv.bound other t live ((s.hold_of_ne tx hk).symm.trans ht) hlive

/-- Time passes. -/
theorem tick (inv : Capped cap s) {now : Time} (hle : s.clock ≤ now) :
    Capped cap { s with clock := now } where
  apart := inv.apart
  under kind hpos :=
    (Int.ofNat_le.mpr (countLiveLeases_earlier kind hle _)).trans (inv.under kind hpos)
  before kind tx htx := ⟨(inv.before kind tx htx).1, (inv.before kind tx htx).2.trans hle⟩
  bound := inv.bound

/-- **A capped lease** takes no more than the cap less what it counted. -/
theorem lease (inv : Capped cap s) {kind : String} {tx : LeaseTx} {live : Nat} {limit lease : Int}
    {locked : List JobId} {w : World} (htx : s.leasing kind = some tx) (hlive : tx.live = some live)
    (hlimit : limit ≤ cap kind - live) (hpos : 0 < limit)
    (hstep : s.world.step (.leaseJobs tx.dispatcher (tx.request kind lease locked limit)) = some w) :
    Capped cap { s.hold kind none with world := w } := by
  have apart : Apart w := inv.apart.step hstep
  have released : Capped cap (s.hold kind none) := inv.hold nofun nofun
  obtain ⟨_, hbefore⟩ := inv.before kind tx htx
  have hcount := inv.bound kind tx live htx hlive
  obtain ⟨r, hkinds, hrlimit, hjobs⟩ : ∃ r : LeaseRequest, r.kinds = [kind] ∧ r.limit = limit.toNat ∧
      w.jobs = Jobs.leaseJobs r s.world.jobs :=
    ⟨_, rfl, rfl, (congrArg World.jobs (Option.some.inj hstep)).symm⟩
  have hothers : ∀ other now, other ≠ kind →
      countLiveLeases other now w.jobs ≤ countLiveLeases other now s.world.jobs := by
    intro other now hk
    rw [hjobs]
    exact countLiveLeases_lease_other inv.apart.ids (by simpa [hkinds] using hk)
  refine ⟨apart, ?_, released.before, ?_⟩
  · intro other hother
    show (countLiveLeases other s.clock w.jobs : Int) ≤ cap other
    by_cases hk : other = kind
    · subst hk
      have hleased : countLiveLeases other tx.now w.jobs ≤
          countLiveLeases other tx.now s.world.jobs + limit.toNat := by
        rw [hjobs, ← hrlimit]
        exact countLiveLeases_lease inv.apart.ids r
      have hnow := countLiveLeases_earlier other hbefore w.jobs
      omega
    · exact (Int.ofNat_le.mpr (hothers other s.clock hk)).trans (inv.under other hother)
  · intro other t n ht hn
    have hk : other ≠ kind := by
      rintro rfl
      cases (s.hold_self other none).symm.trans ht
    exact (hothers other t.now hk).trans (released.bound other t n ht hn)

/-- A step other than a lease adds no live lease, when it renews only live ones. -/
theorem other (inv : Capped cap s) {a : Label} {w : World} (renews : RenewsLive s (.other a))
    (hlease : ¬ a.leases = true)
    (hstep : s.world.step a = some w) : Capped cap { s with world := w } := by
  have ended : ∀ {p : Job → Bool} {f : Job → Job}, (∀ j, p j = true → (f j).state ≠ .running) →
      ∀ kind now, countLiveLeases kind now (s.world.jobs.update p f) ≤
        countLiveLeases kind now s.world.jobs := by
    intro p f hf kind now
    refine countLiveLeases_update fun j _ hp hlive => ?_
    simp only [Job.onLiveLease, Bool.and_eq_true, beq_iff_eq] at hlive
    exact absurd hlive.1.2 (hf j hp)
  refine inv.calm (inv.apart.step hstep) fun kind now _ hnow => ?_
  cases a with
  | insertJob id kind' args lane sequence maxAttempts notBefore at_ =>
    simp only [World.step] at hstep
    split at hstep
    · cases hstep
    · rw [← Option.some.inj hstep]
      show countLiveLeases kind now (s.world.jobs ++ [_]) ≤ _
      simp [countLiveLeases, List.countP_append, Job.onLiveLease, insertJob]
  | leaseJobs dispatcher request => exact absurd rfl hlease
  | extendJobLease lease until_ =>
    obtain ⟨k, hfound, rfl⟩ := Option.map_eq_some_iff.mp hstep
    refine countLiveLeases_update fun j hj hp hlive => ?_
    have hunlapsed := renews j hj (by simpa only [CapWorld.renews, hfound] using hp)
    refine Job.onLiveLease_earlier hnow ?_
    simp only [OutcomeWrite.on, Bool.and_eq_true, beq_iff_eq] at hp
    simp only [Job.onLiveLease, Bool.and_eq_true, beq_iff_eq] at hlive ⊢
    exact ⟨⟨hlive.1.1, hp.2⟩, by rw [hunlapsed]; rfl⟩
  | claim lease =>
    obtain ⟨k, _, rfl⟩ := Option.map_eq_some_iff.mp hstep
    exact Nat.le_refl _
  | writeOutcome lease opts at_ counters result =>
    obtain ⟨k, _, rfl⟩ := Option.map_eq_some_iff.mp hstep
    exact ended (fun j _ => writeOutcome_stops) kind now
  | remove lease =>
    obtain ⟨k, _, rfl⟩ := Option.map_eq_some_iff.mp hstep
    exact Nat.le_refl _
  | drain dispatcher => exact Option.some.inj hstep ▸ Nat.le_refl _
  | releaseJobs dispatcher =>
    rw [← Option.some.inj hstep]
    exact ended (fun _ _ => (by decide : State.queued ≠ .running)) kind now
  | crash dispatcher => exact Option.some.inj hstep ▸ Nat.le_refl _
  | discardLane lane at_ error =>
    rw [← Option.some.inj hstep]
    exact ended (fun _ _ => (by decide : State.discarded ≠ .running)) kind now
  | sweepFinishedJobs at_ =>
    rw [← Option.some.inj hstep]
    exact (List.filter_sublist).countP_le

/-- One step. -/
theorem step (inv : Capped cap s) {a : CapLabel} (renews : RenewsLive s a)
    (hstep : s.step cap a = some s') : Capped cap s' := by
  cases a with
  | tick now =>
    simp only [CapWorld.step] at hstep
    split at hstep
    · next hle => exact Option.some.inj hstep ▸ inv.tick hle
    · cases hstep
  | lockKindLeasing kind dispatcher now free =>
    simp only [CapWorld.step] at hstep
    split at hstep
    · next hfree =>
      refine Option.some.inj hstep ▸ inv.hold (fun t ht => ?_) (fun t live ht hlive => ?_)
      · rw [← Option.some.inj ht]
        exact ⟨hfree.1, hfree.2.2⟩
      · rw [← Option.some.inj ht] at hlive
        cases hlive
    · cases hstep
  | countLiveLeases kind =>
    obtain ⟨tx, htx, rfl⟩ := Option.map_eq_some_iff.mp hstep
    refine inv.hold (fun t ht => ?_) (fun t live ht hlive => ?_)
    · rw [← Option.some.inj ht]
      exact inv.before kind tx htx
    · rw [← Option.some.inj ht] at hlive ⊢
      exact (Option.some.inj hlive).le
  | leaseJobs kind lease locked =>
    obtain ⟨tx, htx, hrest⟩ := Option.bind_eq_some_iff.mp hstep
    obtain ⟨live, hlive, hlease⟩ := Option.bind_eq_some_iff.mp hrest
    simp only at hlease
    split at hlease
    · exact Option.some.inj hlease ▸ inv.hold nofun nofun
    · next hpos =>
      obtain ⟨w, hw, rfl⟩ := Option.map_eq_some_iff.mp hlease
      exact inv.lease htx hlive (min_le_right _ _) (not_le.mp hpos) hw
  | rollback kind => exact Option.some.inj hstep ▸ inv.hold nofun nofun
  | leaseUncapped dispatcher request =>
    simp only [CapWorld.step] at hstep
    split at hstep
    · next hall =>
      obtain ⟨w, hw, rfl⟩ := Option.map_eq_some_iff.mp hstep
      refine inv.calm (inv.apart.step hw) fun kind now hpos _ => ?_
      have hnot : kind ∉ request.kinds := fun hmem =>
        absurd (of_decide_eq_true (List.all_eq_true.mp hall kind hmem)) (not_le.mpr hpos)
      rw [← congrArg World.jobs (Option.some.inj hw)]
      exact countLiveLeases_lease_other inv.apart.ids hnot
    · cases hstep
  | other a =>
    simp only [CapWorld.step] at hstep
    split at hstep
    · cases hstep
    · next hlease =>
      obtain ⟨w, hw, rfl⟩ := Option.map_eq_some_iff.mp hstep
      exact inv.other renews hlease hw

end Capped

/-- Every run that renews live leases only. -/
theorem Capped.runs {clock : Time} {s : CapWorld}
    (run : Runs (CapWorld.step cap) RenewsLive (CapWorld.start clock) s) : Capped cap s :=
  run.keeps (capped_start clock) fun _ _ _ inv renews hstep => inv.step renews hstep

/-- **A capped kind stays under its cap, where no lapsed lease is renewed.** In every state of such a
run, the rows of the kind on a live lease number at most its `MaxInFlight`. -/
theorem cap_holds {clock : Time} {s : CapWorld}
    (run : Runs (CapWorld.step cap) RenewsLive (CapWorld.start clock) s) {kind : String}
    (hcap : 0 < cap kind) : (countLiveLeases kind s.clock s.world.jobs : Int) ≤ cap kind :=
  (Capped.runs run).under kind hcap

/-! ## A renewal in time, and one too late -/

/-- Every kind of the runs below is capped at one. -/
def capOfOne : String → Int := fun _ => 1

/-- Two jobs are queued, and a dispatcher leases one under the cap until instant ten. -/
def oneLeased : List CapLabel :=
  [.other (.insertJob 1 "image" "{}" none none 4 0 0), .other (.insertJob 2 "image" "{}" none none 4 0 0),
    .lockKindLeasing "image" 0 0 16, .countLiveLeases "image", .leaseJobs "image" 10 []]

/-- It renews its lease at instant eight, and a second dispatcher then leases nothing. -/
def renewedInTime : List CapLabel :=
  oneLeased ++ [.tick 8, .other (.extendJobLease (1, 1) 18), .lockKindLeasing "image" 1 8 16,
    .countLiveLeases "image", .leaseJobs "image" 10 []]

/-- It renews nothing until its lease has lapsed; its next pass counts no live lease and takes the
second job, and then the first job's worker renews. -/
def renewedTooLate : List CapLabel :=
  oneLeased ++ [.tick 20, .lockKindLeasing "image" 0 20 15, .countLiveLeases "image",
    .leaseJobs "image" 10 [], .other (.extendJobLease (1, 1) 30)]

/-- The state a list of steps leads to. -/
def CapWorld.after (as : List CapLabel) : CapWorld :=
  (runList (CapWorld.step capOfOne) (CapWorld.start 0) as).getD (CapWorld.start 0)

/-- Renewed in time, one row is on a live lease. -/
theorem renewedInTime_capped :
    countLiveLeases "image" (CapWorld.after renewedInTime).clock
        (CapWorld.after renewedInTime).world.jobs = 1 ∧
      (countLiveLeases "image" (CapWorld.after renewedInTime).clock
        (CapWorld.after renewedInTime).world.jobs : Int) ≤ capOfOne "image" :=
  ⟨by decide,
    @cap_holds capOfOne 0 _ (Runs.ofList renewedInTime (by decide) rfl) "image" (by decide)⟩

/-- **A renewal of a lapsed lease passes the cap**: two rows of a kind capped at one run on live
leases. -/
theorem late_renewal_passes_cap :
    ¬ ∀ (cap : String → Int) clock s, Runs (CapWorld.step cap) Always (CapWorld.start clock) s →
      ∀ kind, 0 < cap kind → (countLiveLeases kind s.clock s.world.jobs : Int) ≤ cap kind := by
  intro claim
  have capped := claim capOfOne 0 (CapWorld.after renewedTooLate)
    (Runs.ofList renewedTooLate (EachStep.always _ _) rfl) "image" (by decide)
  exact absurd capped (by decide)

end Stoop.Jobs
