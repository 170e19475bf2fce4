import Mathlib.Data.List.Find
import Stoop.Jobs.Inflight

/-!
# Who takes a leased row

Each row a dispatcher leases goes one course (`Course`): into the loop's hands, into the set, and out of it once,
to the worker that writes its outcome or to the shutdown that gives it back. The record of a run, row by row, is
such a course, and where it stands is what the set says (`lease_law`). The loop has no more rows at hand than
there are workers waiting, so the channel has room for each.

Between the query's answer and `add` a row is in the loop's hands alone, and in no set (`unlisted_before_add`).
-/

set_option autoImplicit false

namespace Stoop.Jobs

open Stoop.Lib

/-! ## The course of a row -/

/-- What becomes of a row. -/
inductive Act
  | leased (attempt : Int)
  | added (attempt : Int)
  | claimed (attempt : Int)
  | wrote
  | drained (attempt : Int)
  | released
  | dropped
  deriving DecidableEq, Repr

/-- Where a row stands with the dispatcher: not leased, leased and in the loop's hands, in the set at an attempt,
claimed by the worker that writes its outcome, or taken over by the shutdown. -/
inductive Course
  | resting
  | leased (attempt : Int)
  | inFlight (attempt : Int)
  | writing
  | releasing
  deriving DecidableEq, Repr

/-- The way a row may go. -/
def Course.step : Course → Act → Option Course
  | .resting, .leased attempt => some (.leased attempt)
  | .leased attempt, .added attempt' => if attempt = attempt' then some (.inFlight attempt) else none
  | .inFlight attempt, .claimed attempt' => if attempt = attempt' then some .writing else none
  | .writing, .wrote => some .resting
  | .inFlight attempt, .drained attempt' => if attempt = attempt' then some .releasing else none
  | .releasing, .released => some .resting
  | _, _ => none

theorem Course.step_added (attempt : Int) :
    (Course.leased attempt).step (.added attempt) = some (.inFlight attempt) := if_pos rfl

theorem Course.step_claimed (attempt : Int) :
    (Course.inFlight attempt).step (.claimed attempt) = some .writing := if_pos rfl

theorem Course.step_wrote : Course.writing.step .wrote = some .resting := rfl

theorem Course.step_drained (attempt : Int) :
    (Course.inFlight attempt).step (.drained attempt) = some .releasing := if_pos rfl

theorem Course.step_released : Course.releasing.step .released = some .resting := rfl

/-- What became of one row, on the record. -/
structure Deed where
  id : JobId
  act : Act
  deriving DecidableEq, Repr

/-- What became of a row, in order. -/
def actsOn (id : JobId) (past : List Deed) : List Act :=
  past.filterMap fun deed => if deed.id = id then some deed.act else none

theorem actsOn_append (id : JobId) (past more : List Deed) :
    actsOn id (past ++ more) = actsOn id past ++ actsOn id more := List.filterMap_append

theorem actsOn_single (id k : JobId) (act : Act) : actsOn id [⟨k, act⟩] = if k = id then [act] else [] := by
  by_cases hk : k = id <;> simp [actsOn, hk]

/-- Of deeds on rows of distinct ids, a row has one at most. -/
theorem actsOn_map {β : Type} (key : β → JobId) (act : β → Act) (id : JobId) {rows : List β}
    (h : (rows.map key).Nodup) :
    actsOn id (rows.map fun b => ⟨key b, act b⟩) = ((rows.find? fun b => key b == id).map act).toList := by
  induction rows with
  | nil => rfl
  | cons b rows ih =>
    rw [List.map_cons, List.nodup_cons] at h
    rw [List.map_cons, ← List.singleton_append, actsOn_append, actsOn_single, ih h.2]
    by_cases hb : key b = id
    · have hnone : (rows.find? fun b => key b == id) = none := by
        refine List.find?_eq_none.mpr fun c hc hkey => h.1 ?_
        rw [hb, ← eq_of_beq hkey]
        exact List.mem_map_of_mem hc
      have hfind : ((b :: rows).find? fun b => key b == id) = some b :=
        List.find?_cons_of_pos (beq_iff_eq.mpr hb)
      rw [if_pos hb, hnone, hfind]
      rfl
    · have hfind : ((b :: rows).find? fun b => key b == id) = rows.find? fun b => key b == id :=
        List.find?_cons_of_neg (by simpa using hb)
      rw [if_neg hb, hfind]
      rfl

/-- What a move puts on the record. -/
def Dispatcher.deeds (s : Settings) (d : Dispatcher) : Move → List Deed
  | .query (some a) =>
    match d.loop with
    | .leasing pass =>
      if pass.rows.length < pass.free then
        (pass.leases s a).map fun row => ⟨row.id, .leased row.attempt⟩
      else []
    | _ => []
  | .add =>
    match d.loop with
    | .handing (row :: _) => [⟨row.id, .added row.attempt⟩]
    | _ => []
  | .drain => d.tracked.drain.2.map fun lease => ⟨lease.1, .drained lease.2⟩
  | .release => d.loop.drained.map fun lease => ⟨lease.1, .released⟩
  | .drop row => [⟨row.id, .dropped⟩]
  | .claim row => if (d.tracked.claim row.id).2 then [⟨row.id, .claimed row.attempt⟩] else []
  | .done row => [⟨row.id, .wrote⟩]
  | _ => []

/-- Where a row stands, by the set and by what the loop has at hand. -/
def courseOf (tracked : Inflight) (loop : Loop) (id : JobId) : Course :=
  match tracked.attempts.get? id with
  | some lease => .inFlight lease.2
  | none =>
    if tracked.writing.has id then .writing
    else
      match loop.inHand.find? (·.id == id) with
      | some row => .leased row.attempt
      | none => if (loop.drained.find? (·.1 == id)).isSome then .releasing else .resting

def Dispatcher.course (d : Dispatcher) (id : JobId) : Course := courseOf d.tracked d.loop id

/-! ## The kinds a pass asks for -/

namespace Registry

variable {r : Registry} {kind : String}

theorem mem_uncappedKinds :
    kind ∈ r.uncappedKinds ↔ ∃ opts, r.kinds.get? kind = some (kind, opts) ∧ opts.maxInFlight ≤ 0 := by
  simp only [uncappedKinds, List.mem_insertionSort, List.mem_map, List.mem_filter, decide_eq_true_eq,
    Keyed.mem_values]
  constructor
  · rintro ⟨⟨k, opts⟩, ⟨hget, hcap⟩, rfl⟩
    exact ⟨opts, hget, hcap⟩
  · rintro ⟨opts, hget, hcap⟩
    exact ⟨(kind, opts), ⟨hget, hcap⟩, rfl⟩

theorem of_mem_cappedKinds {k : CappedKind} (h : k ∈ r.cappedKinds) :
    ∃ opts, r.kinds.get? k.kind = some (k.kind, opts) ∧ 0 < opts.maxInFlight := by
  simp only [cappedKinds, List.mem_insertionSort, List.mem_map, List.mem_filter, decide_eq_true_eq,
    Keyed.mem_values] at h
  obtain ⟨⟨name, opts⟩, ⟨hget, hcap⟩, rfl⟩ := h
  exact ⟨opts, hget, hcap⟩

/-- A capped kind is listed once. -/
theorem cappedKinds_nodup (r : Registry) : (r.cappedKinds.map (·.kind)).Nodup := by
  have hperm := (List.perm_insertionSort (fun left right : CappedKind => left.kind ≤ right.kind)
    ((r.kinds.values.filter fun entry => 0 < entry.2.maxInFlight).map fun entry =>
      ⟨entry.1, entry.2.maxInFlight⟩)).map (·.kind)
  refine hperm.nodup_iff.mpr ?_
  rw [List.map_map]
  exact r.kinds.nodup.sublist (List.filter_sublist.map _)

/-- No kind is both capped and not. -/
theorem not_mem_uncappedKinds {k : CappedKind} (h : k ∈ r.cappedKinds) : k.kind ∉ r.uncappedKinds := by
  intro hun
  obtain ⟨opts, hget, hcap⟩ := of_mem_cappedKinds h
  obtain ⟨opts', hget', hcap'⟩ := mem_uncappedKinds.mp hun
  obtain rfl : opts = opts' := congrArg Prod.snd (Option.some.inj (hget.symm.trans hget'))
  omega

theorem lookup_of_get? {entry : String × Options} (h : r.kinds.get? kind = some entry) :
    (r.lookup kind).isSome := by
  rw [lookup, h]
  rfl

end Registry

/-! ## What a query leases -/

/-- A row a lease query returned: it was not excluded, is of a kind asked for, and of the kind it always was. -/
structure Fresh (kindOf : JobId → String) (kinds : List String) (excluded : List JobId) (row : Job) : Prop where
  kind : row.kind ∈ kinds
  same : row.kind = kindOf row.id
  out : row.id ∉ excluded

variable {s : Settings} {kindOf : JobId → String}

theorem leaseRows_spec (now : Time) (kinds : List String) (excluded : List JobId) (limit : Nat) {a : Answer}
    (h : a.Stands kindOf) :
    (∀ row ∈ leaseRows s now kinds excluded limit a, Fresh kindOf kinds excluded row) ∧
      ((leaseRows s now kinds excluded limit a).map (·.id)).Nodup ∧
      (leaseRows s now kinds excluded limit a).length ≤ limit := by
  refine ⟨fun row hrow => ?_, leasedRows_nodup h.1, ?_⟩
  · obtain ⟨j, hj, hpicked, rfl⟩ := mem_leasedRows.mp hrow
    have htakes := takes_of_picks h.1 hj hpicked
    simp only [LeaseRequest.takes, Bool.and_eq_true, List.contains_iff_mem, Bool.not_eq_true',
      ← Bool.not_eq_true] at htakes
    obtain ⟨⟨⟨⟨⟨⟨_, hkind⟩, _⟩, _⟩, hout⟩, _⟩, _⟩ := htakes
    exact ⟨hkind, h.2 j hj, hout⟩
  · rw [leaseRows, leasedRows, List.length_map, ← List.countP_eq_length_filter]
    refine (countP_ids_le h.1 _).trans ?_
    rw [LeaseRequest.picks, List.length_map, List.length_take]
    exact (Nat.min_le_left _ _).trans (Nat.min_le_left _ _)

/-- The kinds the next query of a pass asks for. -/
def Pass.kinds (s : Settings) (pass : Pass) : List String :=
  match pass.capped with
  | kind :: _ => [kind.kind]
  | [] => s.registry.uncappedKinds

theorem leaseCapped_spec {now : Time} {kind : CappedKind} {free : Nat} {excluded : List JobId} {a : Answer}
    (h : a.Stands kindOf) :
    (∀ row ∈ leaseCapped s now kind free excluded a, Fresh kindOf [kind.kind] excluded row) ∧
      ((leaseCapped s now kind free excluded a).map (·.id)).Nodup ∧
      (leaseCapped s now kind free excluded a).length ≤ free := by
  simp only [leaseCapped]
  generalize hlimit : min (free : Int) (kind.maxInFlight - countLiveLeases kind.kind now a.counted) = limit
  split
  · exact ⟨fun _ hrow => absurd hrow List.not_mem_nil, List.nodup_nil, Nat.zero_le _⟩
  · obtain ⟨hfresh, hnodup, hle⟩ := leaseRows_spec (s := s) now [kind.kind] excluded limit.toNat h
    exact ⟨hfresh, hnodup, hle.trans (Int.toNat_le.mpr (hlimit ▸ min_le_left _ _))⟩

theorem Pass.leases_spec {pass : Pass} {a : Answer} (h : a.Stands kindOf) :
    (∀ row ∈ pass.leases s a, Fresh kindOf (pass.kinds s) pass.excluded row) ∧
      ((pass.leases s a).map (·.id)).Nodup ∧
      (pass.leases s a).length ≤ pass.free - pass.rows.length := by
  unfold Pass.leases Pass.kinds
  cases pass.capped with
  | nil => exact leaseRows_spec _ _ _ _ h
  | cons kind _ => exact leaseCapped_spec h

/-! ## The rows a dispatcher has -/

/-- A row with the attempt it was leased for. -/
def Job.lease (row : Job) : JobId × Int := (row.id, row.attempt)

/-- The rows on their way to the channel, in it, or performed. -/
def Dispatcher.held (d : Dispatcher) : List Job := d.loop.sent ++ d.queue ++ d.performing

/-- The workers the loop has counted as free and has not handed a row since. -/
def Loop.slots : Loop → Nat
  | counted free => free
  | leasing pass => pass.free
  | loop => loop.inHand.length

/-- What a pass knows of the rows leased in it, and of those leased before (`out`). -/
structure Pass.Sound (s : Settings) (kindOf : JobId → String) (out : List JobId) (pass : Pass) : Prop where
  excludes : ∀ id ∈ out, id ∈ pass.excluded
  le : pass.rows.length ≤ pass.free
  suffix : pass.capped <:+ s.registry.cappedKinds
  same : ∀ row ∈ pass.rows, row.kind = kindOf row.id
  asked : ∀ row ∈ pass.rows, row.kind ∉ pass.capped.map (·.kind) ∧ row.kind ∉ s.registry.uncappedKinds

/-- Each row a dispatcher has is in one place, and the set says which. -/
structure Accounted (s : Settings) (kindOf : JobId → String) (tracked : Inflight) (loop : Loop)
    (held writing : List Job) : Prop where
  claimed : tracked.writing.values.Perm (writing.map (·.id))
  inFlight : loop.settled = false → tracked.attempts.values.Perm (held.map Job.lease)
  settled : loop.settled = true → tracked.attempts.values = []
  apart : ((loop.inHand ++ held ++ writing).map (·.id)).Nodup
  room : loop.slots + held.length + writing.length ≤ s.workers
  registered : ∀ row ∈ loop.inHand ++ held, (s.registry.lookup row.kind).isSome
  pass : ∀ pass, loop = .leasing pass → pass.Sound s kindOf ((held ++ writing).map (·.id))
  drained : ∀ lease ∈ loop.drained, lease.1 ∉ writing.map (·.id)

namespace Accounted

variable {tracked : Inflight} {loop loop' : Loop} {held held' writing writing' : List Job} {row : Job}
  {rest : List Job} {pass : Pass} {id : JobId}

/-- A row moved from one place to another that the set tells alike. -/
theorem perm (inv : Accounted s kindOf tracked loop held writing) (h : held'.Perm held)
    (hw : writing'.Perm writing) : Accounted s kindOf tracked loop held' writing' where
  claimed := inv.claimed.trans (hw.map _).symm
  inFlight hsettled := (inv.inFlight hsettled).trans (h.map _).symm
  settled := inv.settled
  apart := (((h.append_left _).append hw).map _).nodup_iff.mpr inv.apart
  room := by
    rw [h.length_eq, hw.length_eq]
    exact inv.room
  registered row hrow := inv.registered row (((h.append_left _).mem_iff).mp hrow)
  pass pass hpass :=
    have hsound := inv.pass pass hpass
    { hsound with excludes := fun id hid => hsound.excludes id (((h.append hw).map _).mem_iff.mp hid) }
  drained lease hlease hmem := inv.drained lease hlease ((hw.map _).mem_iff.mp hmem)

/-- The loop moves on, with the rows it has at hand. -/
theorem reloop (inv : Accounted s kindOf tracked loop held writing) (hsettled : loop'.settled = loop.settled)
    (hhand : loop'.inHand.Perm loop.inHand) (hroom : loop'.slots + held.length + writing.length ≤ s.workers)
    (hpass : ∀ pass, loop' ≠ .leasing pass) (hdrained : loop'.drained = []) :
    Accounted s kindOf tracked loop' held writing where
  claimed := inv.claimed
  inFlight h := inv.inFlight (hsettled ▸ h)
  settled h := inv.settled (hsettled ▸ h)
  apart := (((hhand.append_right _).append_right _).map _).nodup_iff.mpr inv.apart
  room := hroom
  registered row hrow := inv.registered row ((hhand.append_right _).mem_iff.mp hrow)
  pass pass h := absurd h (hpass pass)
  drained lease h := by
    rw [hdrained] at h
    exact absurd h List.not_mem_nil

/-! ### What the set says -/

theorem writing_has (inv : Accounted s kindOf tracked loop held writing) :
    tracked.writing.has id = true ↔ id ∈ writing.map (·.id) := by
  rw [← inv.claimed.mem_iff, Keyed.has_eq_true, Keyed.mem_values]
  refine ⟨fun ⟨k, hk⟩ => ?_, fun h => ⟨_, h⟩⟩
  obtain rfl : k = id := Keyed.key_of_get? hk
  exact hk

theorem writing_has_not (inv : Accounted s kindOf tracked loop held writing) (h : id ∉ writing.map (·.id)) :
    tracked.writing.has id = false := by
  rw [← Bool.not_eq_true, inv.writing_has]
  exact h

/-- A row held is in the set, until the shutdown takes it over. -/
theorem get?_held (inv : Accounted s kindOf tracked loop held writing) (hsettled : loop.settled = false)
    (hrow : row ∈ held) : tracked.attempts.get? row.id = some (row.id, row.attempt) :=
  Keyed.mem_values.mp ((inv.inFlight hsettled).mem_iff.mpr (List.mem_map_of_mem hrow))

/-- A row that is not held is not. -/
theorem get?_not_held (inv : Accounted s kindOf tracked loop held writing) (h : id ∉ held.map (·.id)) :
    tracked.attempts.get? id = none := by
  refine Keyed.get?_eq_none.mpr fun lease hlease hid => h ?_
  cases hsettled : loop.settled with
  | true =>
    rw [show tracked.attempts.list = [] from inv.settled hsettled] at hlease
    exact absurd hlease List.not_mem_nil
  | false =>
    obtain ⟨row, hrow, rfl⟩ := List.mem_map.mp ((inv.inFlight hsettled).mem_iff.mp hlease)
    exact hid ▸ List.mem_map_of_mem hrow

theorem get?_settled (inv : Accounted s kindOf tracked loop held writing) (hsettled : loop.settled = true) :
    tracked.attempts.get? id = none :=
  Keyed.get?_eq_none.mpr fun lease hlease => by
    rw [show tracked.attempts.list = [] from inv.settled hsettled] at hlease
    exact absurd hlease List.not_mem_nil

/-- The rows in flight, counted. -/
theorem count_eq (inv : Accounted s kindOf tracked loop held writing) (hsettled : loop.settled = false) :
    tracked.count = held.length + writing.length := by
  rw [Inflight.count, (inv.inFlight hsettled).length_eq, inv.claimed.length_eq, List.length_map, List.length_map]

/-- The rows in flight, listed. -/
theorem mem_ids (inv : Accounted s kindOf tracked loop held writing) (hsettled : loop.settled = false) :
    id ∈ tracked.ids ↔ id ∈ (held ++ writing).map (·.id) := by
  have hattempts : id ∈ tracked.attempts.values.map (·.1) ↔ id ∈ held.map (·.id) := by
    rw [((inv.inFlight hsettled).map _).mem_iff, List.map_map]
    rfl
  rw [Inflight.ids, List.mem_append, inv.claimed.mem_iff, hattempts, List.map_append, List.mem_append]

/-- A row in the loop's hands is nowhere else. -/
theorem of_mem_inHand (inv : Accounted s kindOf tracked loop held writing) (h : id ∈ loop.inHand.map (·.id)) :
    id ∉ held.map (·.id) ∧ id ∉ writing.map (·.id) := by
  have hapart := inv.apart
  rw [List.append_assoc, List.map_append, List.map_append] at hapart
  exact not_or.mp fun hmem => List.disjoint_of_nodup_append hapart h (List.mem_append.mpr hmem)

/-- A row held is not also written about. -/
theorem of_mem_held (inv : Accounted s kindOf tracked loop held writing) (h : id ∈ held.map (·.id)) :
    id ∉ writing.map (·.id) := by
  have hapart := inv.apart
  rw [List.append_assoc, List.map_append, List.map_append] at hapart
  exact List.disjoint_of_nodup_append (List.nodup_append.mp hapart).2.1 h

/-! ### The loop's moves -/

theorem not_leasing_of_settled (hsettled : loop.settled = true) (pass : Pass) : loop ≠ .leasing pass := by
  rintro rfl
  cases hsettled

theorem drained_of_not_settled (hsettled : loop.settled = false) : loop.drained = [] := by
  cases loop with
  | releasing leases => cases hsettled
  | _ => rfl

/-- A pass starts with the rows in flight left out. -/
theorem exclude {free : Nat} (inv : Accounted s kindOf tracked (.counted free) held writing) (now : Time) :
    Accounted s kindOf tracked
      (.leasing
        { free := free, excluded := tracked.ids, now := now, capped := s.registry.cappedKinds, rows := [] })
      held writing where
  claimed := inv.claimed
  inFlight := inv.inFlight
  settled := inv.settled
  apart := inv.apart
  room := inv.room
  registered := inv.registered
  pass := by
    rintro pass ⟨⟩
    exact ⟨fun id hid => (inv.mem_ids rfl).mpr hid, Nat.zero_le _, List.suffix_refl _,
      fun row hrow => absurd hrow List.not_mem_nil, fun row hrow => absurd hrow List.not_mem_nil⟩
  drained := inv.drained

/-- The kinds a query asks for are registered, and no row of the pass is of one. -/
theorem kinds_spec (inv : Accounted s kindOf tracked (.leasing pass) held writing) {kind : String}
    (h : kind ∈ pass.kinds s) :
    (s.registry.lookup kind).isSome ∧ ∀ row ∈ pass.rows, row.kind ≠ kind := by
  have hsound := inv.pass pass rfl
  rw [Pass.kinds] at h
  cases hcapped : pass.capped with
  | nil =>
    rw [hcapped] at h
    obtain ⟨opts, hget, -⟩ := Registry.mem_uncappedKinds.mp h
    exact ⟨Registry.lookup_of_get? hget, fun row hrow hkind => (hsound.asked row hrow).2 (hkind ▸ h)⟩
  | cons k kinds =>
    rw [hcapped] at h
    obtain rfl := List.mem_singleton.mp h
    have hmem : k ∈ pass.capped := hcapped ▸ List.mem_cons_self
    obtain ⟨opts, hget, -⟩ := Registry.of_mem_cappedKinds (hsound.suffix.subset hmem)
    refine ⟨Registry.lookup_of_get? hget, fun row hrow hkind => (hsound.asked row hrow).1 ?_⟩
    exact List.mem_map.mpr ⟨k, hmem, hkind.symm⟩

/-- What a query leases is nowhere yet. -/
theorem leases_fresh (inv : Accounted s kindOf tracked (.leasing pass) held writing) {a : Answer}
    (h : a.Stands kindOf) (hid : id ∈ (pass.leases s a).map (·.id)) :
    id ∉ pass.rows.map (·.id) ∧ id ∉ held.map (·.id) ∧ id ∉ writing.map (·.id) := by
  have hsound := inv.pass pass rfl
  obtain ⟨row, hrow, rfl⟩ := List.mem_map.mp hid
  have hfresh := (Pass.leases_spec h).1 row hrow
  have hout : row.id ∉ (held ++ writing).map (·.id) := fun hmem => hfresh.out (hsound.excludes _ hmem)
  rw [List.map_append, List.mem_append, not_or] at hout
  refine ⟨fun hmem => ?_, hout⟩
  -- a row of the pass with that id would be of the kind asked for
  obtain ⟨row', hrow', heq⟩ := List.mem_map.mp hmem
  refine (inv.kinds_spec hfresh.kind).2 row' hrow' ?_
  rw [hsound.same row' hrow', hfresh.same, heq]

@[simp] theorem next_inHand (rows : List Job) : (pass.next rows).inHand = rows := by
  rw [Pass.next]
  cases pass.capped <;> rfl

@[simp] theorem next_settled (rows : List Job) : (pass.next rows).settled = false := by
  rw [Pass.next]
  cases pass.capped <;> rfl

@[simp] theorem next_drained (rows : List Job) : (pass.next rows).drained = [] :=
  drained_of_not_settled (next_settled rows)

@[simp] theorem next_sent (rows : List Job) : (pass.next rows).sent = [] := by
  rw [Pass.next]
  cases pass.capped <;> rfl

@[simp] theorem next_shut (rows : List Job) : (pass.next rows).shut = false := by
  rw [Pass.next]
  cases pass.capped <;> rfl

/-- **The lease.** What a query leases joins what the loop has at hand. -/
theorem query (inv : Accounted s kindOf tracked (.leasing pass) held writing) {a : Answer} (h : a.Stands kindOf) :
    Accounted s kindOf tracked (pass.next (pass.rows ++ pass.leases s a)) held writing := by
  have hsound := inv.pass pass rfl
  obtain ⟨hfresh, hnodup, hlen⟩ := @Pass.leases_spec s kindOf pass a h
  have hle : (pass.rows ++ pass.leases s a).length ≤ pass.free := by
    have := hsound.le
    rw [List.length_append]
    omega
  refine ⟨inv.claimed, fun _ => inv.inFlight rfl, ?_, ?_, ?_, ?_, ?_, ?_⟩
  · rw [next_settled]
    rintro ⟨⟩
  · have hapart := inv.apart
    have hperm : (pass.rows ++ pass.leases s a ++ held ++ writing).Perm
        (pass.leases s a ++ (pass.rows ++ held ++ writing)) := by
      simp only [List.append_assoc]
      exact List.perm_append_comm_assoc _ _ _
    rw [next_inHand, (hperm.map _).nodup_iff, List.map_append]
    refine hnodup.append hapart fun id hid hmem => ?_
    obtain ⟨hrows, hheld, hwriting⟩ := inv.leases_fresh h hid
    simp only [List.map_append, List.mem_append] at hmem
    rcases hmem with (hmem | hmem) | hmem
    · exact hrows hmem
    · exact hheld hmem
    · exact hwriting hmem
  · have hslots : (pass.next (pass.rows ++ pass.leases s a)).slots ≤ pass.free := by
      rw [Pass.next]
      cases pass.capped with
      | nil => exact hle
      | cons _ _ => exact le_rfl
    have hroom : pass.free + held.length + writing.length ≤ s.workers := inv.room
    omega
  · rw [next_inHand]
    intro row hrow
    rw [List.append_assoc, List.mem_append, List.mem_append] at hrow
    rcases hrow with hrow | hrow | hrow
    · exact inv.registered row (List.mem_append_left _ hrow)
    · exact (inv.kinds_spec (hfresh row hrow).kind).1
    · exact inv.registered row (List.mem_append_right _ hrow)
  · intro pass' hpass'
    rw [Pass.next] at hpass'
    cases hcapped : pass.capped with
    | nil => simp [hcapped] at hpass'
    | cons k kinds =>
      simp only [hcapped, Loop.leasing.injEq] at hpass'
      subst hpass'
      have hsuffix : kinds <:+ s.registry.cappedKinds :=
        (List.suffix_cons k kinds).trans (hcapped ▸ hsound.suffix)
      refine ⟨hsound.excludes, hle, hsuffix, fun row hrow => ?_, fun row hrow => ?_⟩
      · rcases List.mem_append.mp hrow with hrow | hrow
        · exact hsound.same row hrow
        · exact (hfresh row hrow).same
      · rcases List.mem_append.mp hrow with hrow | hrow
        · obtain ⟨hcap, hun⟩ := hsound.asked row hrow
          refine ⟨fun hmem => hcap ?_, hun⟩
          rw [hcapped, List.map_cons]
          exact List.mem_cons_of_mem _ hmem
        · have hkind := (hfresh row hrow).kind
          rw [Pass.kinds, hcapped, List.mem_singleton] at hkind
          have hmem : k ∈ s.registry.cappedKinds := hsound.suffix.subset (hcapped ▸ List.mem_cons_self)
          have hnodup : ((k :: kinds).map (·.kind)).Nodup :=
            (Registry.cappedKinds_nodup s.registry).sublist ((hcapped ▸ hsound.suffix.sublist).map _)
          rw [hkind]
          exact ⟨(List.nodup_cons.mp hnodup).1, Registry.not_mem_uncappedKinds hmem⟩
  · rw [next_drained]
    nofun

/-- A row goes from the loop's hands into the set. -/
theorem add (inv : Accounted s kindOf tracked (.handing (row :: rest)) held writing) :
    Accounted s kindOf (tracked.add row.id row.attempt) (.sending row rest) (row :: held) writing := by
  obtain ⟨hheld, hwriting⟩ := inv.of_mem_inHand (List.mem_map_of_mem List.mem_cons_self)
  have hperm : (rest ++ row :: held).Perm (row :: rest ++ held) := List.perm_middle
  refine ⟨inv.claimed, fun _ => ?_, nofun, ?_, ?_, fun row' hrow' => ?_, nofun, nofun⟩
  · have hnew : (tracked.add row.id row.attempt).attempts.values = tracked.attempts.values ++ [row.lease] :=
      Keyed.values_set_new (inv.get?_not_held hheld)
    rw [hnew, List.map_cons]
    exact (List.perm_append_singleton _ _).trans ((inv.inFlight rfl).cons _)
  · exact ((hperm.append_right _).map _).nodup_iff.mpr inv.apart
  · have hroom := inv.room
    simp only [Loop.slots, Loop.inHand, List.length_cons] at hroom ⊢
    omega
  · exact inv.registered row' (hperm.mem_iff.mp hrow')

/-- The shutdown takes over what is in the set. -/
theorem drain (inv : Accounted s kindOf tracked .waiting held writing) :
    Accounted s kindOf tracked.drain.1 (.releasing tracked.drain.2) held writing where
  claimed := inv.claimed
  inFlight := nofun
  settled _ := rfl
  apart := inv.apart
  room := inv.room
  registered := inv.registered
  pass := nofun
  drained lease hlease hmem := by
    obtain ⟨row, hrow, rfl⟩ := List.mem_map.mp ((inv.inFlight rfl).mem_iff.mp hlease)
    exact inv.of_mem_held (List.mem_map_of_mem hrow) hmem

/-- The workers have returned, and the set is empty. -/
theorem finish (inv : Accounted s kindOf tracked .waiting [] writing) :
    Accounted s kindOf tracked .finished [] writing where
  claimed := inv.claimed
  inFlight := nofun
  settled _ := List.perm_nil.mp (inv.inFlight rfl)
  apart := inv.apart
  room := inv.room
  registered := inv.registered
  pass := nofun
  drained := nofun

/-! ### The workers' moves -/

/-- Before the shutdown takes over, a claim of a row held succeeds. -/
theorem claim (inv : Accounted s kindOf tracked loop (row :: held) writing) (hsettled : loop.settled = false) :
    (tracked.claim row.id).2 = true ∧
      Accounted s kindOf (tracked.claim row.id).1 loop held (row :: writing) := by
  have hget := inv.get?_held hsettled List.mem_cons_self
  have hhas : tracked.attempts.has row.id = true := Keyed.has_eq_true.mpr ⟨_, hget⟩
  have hwriting := inv.of_mem_held (List.mem_map_of_mem List.mem_cons_self)
  have hclaim : tracked.claim row.id =
      (⟨tracked.attempts.filter fun a => a.1 != row.id, tracked.writing.set row.id⟩, true) := if_pos hhas
  have hperm : (held ++ row :: writing).Perm (row :: held ++ writing) := List.perm_middle
  rw [hclaim]
  refine ⟨rfl, ?_, fun _ => ?_, ?_, ?_, ?_, ?_, fun pass hpass => ?_, ?_⟩
  · have hnew : (tracked.writing.set row.id).values = tracked.writing.values ++ [row.id] :=
      Keyed.values_set_new
        (Option.not_isSome_iff_eq_none.mp (Bool.eq_false_iff.mp (inv.writing_has_not hwriting)))
    rw [hnew, List.map_cons]
    exact (List.perm_append_singleton _ _).trans (inv.claimed.cons _)
  · -- of the rows held, only this one has its id
    have hnodup : ((row :: held).map (·.id)).Nodup := by
      have hapart := inv.apart
      rw [List.append_assoc, List.map_append] at hapart
      rw [List.map_append] at hapart
      exact (List.nodup_append.mp (List.nodup_append.mp hapart).2.1).1
    have hothers : (held.map Job.lease).filter (fun a => a.1 != row.id) = held.map Job.lease := by
      refine List.filter_eq_self.mpr fun lease hlease => bne_iff_ne.mpr ?_
      obtain ⟨row', hrow', rfl⟩ := List.mem_map.mp hlease
      exact fun heq => (List.nodup_cons.mp hnodup).1 (List.mem_map.mpr ⟨row', hrow', heq⟩)
    have hfilter := (inv.inFlight hsettled).filter fun a => a.1 != row.id
    rw [List.map_cons, List.filter_cons_of_neg (by simp [Job.lease]), hothers] at hfilter
    exact hfilter
  · rw [hsettled]
    rintro ⟨⟩
  · have happart := inv.apart
    rw [List.append_assoc] at happart ⊢
    exact ((hperm.append_left _).map _).nodup_iff.mpr happart
  · have hroom := inv.room
    simp only [List.length_cons] at hroom ⊢
    omega
  · intro row' hrow'
    refine inv.registered row' ?_
    rw [List.mem_append] at hrow' ⊢
    exact hrow'.imp_right (List.mem_cons_of_mem _)
  · have hsound := inv.pass pass hpass
    exact { hsound with excludes := fun id hid => hsound.excludes id ((hperm.map _).mem_iff.mp hid) }
  · rw [drained_of_not_settled hsettled]
    rintro _ ⟨⟩

/-- After it, a claim fails, and the worker is done with its row. -/
theorem claim_settled (inv : Accounted s kindOf tracked loop (row :: held) writing)
    (hsettled : loop.settled = true) :
    (tracked.claim row.id).2 = false ∧ Accounted s kindOf tracked loop held writing := by
  have hhas : tracked.attempts.has row.id = false := by rw [Keyed.has, inv.get?_settled hsettled]; rfl
  have hclaim : tracked.claim row.id = (tracked, false) := if_neg (Bool.eq_false_iff.mp hhas)
  refine ⟨congrArg Prod.snd hclaim, inv.claimed, ?_, inv.settled, ?_, ?_, fun row' hrow' => ?_,
    fun pass hpass => absurd hpass (not_leasing_of_settled hsettled pass), inv.drained⟩
  · rw [hsettled]
    rintro ⟨⟩
  · refine inv.apart.sublist (List.Sublist.map _ ?_)
    exact ((List.sublist_cons_self row held).append_left _).append_right _
  · have hroom := inv.room
    simp only [List.length_cons] at hroom
    omega
  · refine inv.registered row' ?_
    rw [List.mem_append] at hrow' ⊢
    exact hrow'.imp_right (List.mem_cons_of_mem _)

/-- A worker has written its row's outcome. -/
theorem done (inv : Accounted s kindOf tracked loop held (row :: writing)) :
    Accounted s kindOf (tracked.done row.id) loop held writing := by
  refine ⟨?_, inv.inFlight, inv.settled, ?_, ?_, inv.registered, fun pass hpass => ?_,
    fun lease hlease hmem => ?_⟩
  · have hnodup : ((row :: writing).map (·.id)).Nodup := inv.claimed.nodup_iff.mp (by
      have := tracked.writing.nodup
      rwa [List.map_id] at this)
    have hothers : (writing.map (·.id)).filter (fun k => k != row.id) = writing.map (·.id) :=
      List.filter_eq_self.mpr fun k hk => bne_iff_ne.mpr (ne_of_mem_of_not_mem hk (List.nodup_cons.mp hnodup).1)
    have hfilter := inv.claimed.filter fun k => k != row.id
    rw [List.map_cons, List.filter_cons_of_neg (by simp), hothers] at hfilter
    exact hfilter
  · refine inv.apart.sublist (List.Sublist.map _ ?_)
    exact (List.sublist_cons_self row writing).append_left _
  · have hroom := inv.room
    simp only [List.length_cons] at hroom
    omega
  · have hsound := inv.pass pass hpass
    refine { hsound with excludes := fun id hid => hsound.excludes id ?_ }
    rw [List.map_append, List.mem_append] at hid ⊢
    exact hid.imp_right (List.mem_cons_of_mem _)
  · exact inv.drained lease hlease (List.mem_cons_of_mem _ hmem)

end Accounted

/-! ## The course, move by move -/

namespace Accounted

variable {tracked : Inflight} {loop loop' : Loop} {held writing : List Job} {row : Job} {rest : List Job}
  {pass : Pass} {id : JobId}

/-- A loop that has the same rows at hand leaves every row where it stands. -/
theorem course_reloop (inv : Accounted s kindOf tracked loop held writing) (hhand : loop'.inHand.Perm loop.inHand)
    (hdrained : loop'.drained = loop.drained) : courseOf tracked loop' id = courseOf tracked loop id := by
  have hnodup : (loop'.inHand.map (·.id)).Nodup := by
    have hapart := inv.apart
    rw [List.append_assoc, List.map_append] at hapart
    exact (hhand.map _).nodup_iff.mpr (List.nodup_append.mp hapart).1
  have hfind : loop'.inHand.find? (·.id == id) = loop.inHand.find? (·.id == id) := by
    refine List.find?_eq_find?_of_perm hhand fun row hrow row' hrow' => ?_
    have hsame : row.id = row'.id := (eq_of_beq hrow.2).trans (eq_of_beq hrow'.2).symm
    exact List.inj_on_of_nodup_map hnodup hrow.1 hrow'.1 hsame
  rw [courseOf, hfind, hdrained]
  rfl

/-- A row that is neither held nor written about stands where the loop has it. -/
theorem course_hand (inv : Accounted s kindOf tracked loop held writing) (hsettled : loop.settled = false)
    (hheld : id ∉ held.map (·.id)) (hwriting : id ∉ writing.map (·.id)) :
    courseOf tracked loop id =
      ((loop.inHand.find? (·.id == id)).map fun row => .leased row.attempt).getD .resting := by
  simp only [courseOf, inv.get?_not_held hheld, inv.writing_has_not hwriting, drained_of_not_settled hsettled]
  cases loop.inHand.find? (·.id == id) with
  | none => rfl
  | some row => rfl

theorem course_query (inv : Accounted s kindOf tracked (.leasing pass) held writing) {a : Answer}
    (h : a.Stands kindOf) :
    runList Course.step (courseOf tracked (.leasing pass) id)
      (actsOn id ((pass.leases s a).map fun row => ⟨row.id, .leased row.attempt⟩)) =
        some (courseOf tracked (pass.next (pass.rows ++ pass.leases s a)) id) := by
  rw [actsOn_map (fun row : Job => row.id) (fun row => .leased row.attempt) id (Pass.leases_spec h).2.1]
  cases hfind : (pass.leases s a).find? (·.id == id) with
  | none =>
    simp only [Option.map_none, Option.toList_none, runList, courseOf, next_inHand, next_drained,
      List.find?_append, hfind, Option.or_none]
    rfl
  | some row =>
    obtain rfl : row.id = id := eq_of_beq (List.find?_some hfind :)
    obtain ⟨hrows, hheld, hwriting⟩ :=
      inv.leases_fresh h (List.mem_map_of_mem (List.mem_of_find?_eq_some hfind))
    have hnone : pass.rows.find? (·.id == row.id) = none :=
      List.find?_eq_none.mpr fun row' hrow' heq =>
        hrows (List.mem_map.mpr ⟨row', hrow', eq_of_beq heq⟩)
    rw [inv.course_hand rfl hheld hwriting, (inv.query h).course_hand (next_settled _) hheld hwriting,
      next_inHand, List.find?_append, hnone, hfind, show (Loop.leasing pass).inHand = pass.rows from rfl, hnone]
    rfl

theorem course_add (inv : Accounted s kindOf tracked (.handing (row :: rest)) held writing) :
    runList Course.step (courseOf tracked (.handing (row :: rest)) id)
      (actsOn id [⟨row.id, .added row.attempt⟩]) =
        some (courseOf (tracked.add row.id row.attempt) (.sending row rest) id) := by
  rw [actsOn_single]
  by_cases hid : row.id = id
  · obtain ⟨hheld, hwriting⟩ := inv.of_mem_inHand (List.mem_map_of_mem List.mem_cons_self)
    have hfind : (row :: rest).find? (·.id == row.id) = some row := List.find?_cons_of_pos BEq.rfl
    have hget : (tracked.add row.id row.attempt).attempts.get? row.id = some (row.id, row.attempt) :=
      Keyed.get?_set_self _ _
    subst hid
    rw [if_pos rfl, inv.course_hand rfl hheld hwriting,
      show (Loop.handing (row :: rest)).inHand = row :: rest from rfl, hfind]
    simp [courseOf, hget, runList, Course.step_added]
  · have hget : (tracked.add row.id row.attempt).attempts.get? id = tracked.attempts.get? id :=
      (Keyed.get?_set _ _ _).trans (if_neg hid)
    have hfind : (row :: rest).find? (·.id == id) = rest.find? (·.id == id) :=
      List.find?_cons_of_neg (by simpa using hid)
    rw [if_neg hid]
    simp only [runList, courseOf, hget, Loop.inHand, hfind]
    rfl

theorem course_drain (inv : Accounted s kindOf tracked .waiting held writing) :
    runList Course.step (courseOf tracked .waiting id)
      (actsOn id (tracked.drain.2.map fun lease => ⟨lease.1, .drained lease.2⟩)) =
        some (courseOf tracked.drain.1 (.releasing tracked.drain.2) id) := by
  have hnodup : (tracked.drain.2.map fun lease => lease.1).Nodup := tracked.attempts.nodup
  rw [actsOn_map (fun lease : JobId × Int => lease.1) (fun lease => .drained lease.2) id hnodup]
  have hfind : tracked.drain.2.find? (fun lease => lease.1 == id) = tracked.attempts.get? id := rfl
  have hempty : tracked.drain.1.attempts.get? id = none := rfl
  have hsame : tracked.drain.1.writing = tracked.writing := rfl
  rw [hfind]
  cases hget : tracked.attempts.get? id with
  | none =>
    simp only [Option.map_none, Option.toList_none, runList, courseOf, hget, hempty, hsame, Loop.inHand,
      Loop.drained, hfind]
    rfl
  | some lease =>
    have hheld : id ∈ held.map (·.id) := by
      by_contra hnot
      rw [inv.get?_not_held hnot] at hget
      cases hget
    have hwriting := inv.writing_has_not (inv.of_mem_held hheld)
    simp [runList, courseOf, hget, hempty, hsame, hwriting, Loop.inHand, Loop.drained, hfind,
      Course.step_drained]

theorem course_release {leases : List (JobId × Int)} (hnodup : (leases.map (·.1)).Nodup)
    (inv : Accounted s kindOf tracked (.releasing leases) held writing) :
    runList Course.step (courseOf tracked (.releasing leases) id)
      (actsOn id (leases.map fun lease => ⟨lease.1, .released⟩)) = some (courseOf tracked .finished id) := by
  rw [actsOn_map (fun lease : JobId × Int => lease.1) (fun _ => .released) id hnodup]
  have hget : tracked.attempts.get? id = none := inv.get?_settled rfl
  cases hfind : leases.find? (fun lease => lease.1 == id) with
  | none =>
    simp only [Option.map_none, Option.toList_none, runList, courseOf, Loop.inHand, Loop.drained, hfind]
    rfl
  | some lease =>
    obtain rfl : lease.1 = id := eq_of_beq (List.find?_some hfind :)
    have hwriting := inv.writing_has_not (inv.drained lease (List.mem_of_find?_eq_some hfind))
    simp [runList, courseOf, hget, hwriting, Loop.inHand, Loop.drained, hfind, Course.step_released]

theorem course_claim (inv : Accounted s kindOf tracked loop (row :: held) writing)
    (hsettled : loop.settled = false) :
    runList Course.step (courseOf tracked loop id) (actsOn id [⟨row.id, .claimed row.attempt⟩]) =
      some (courseOf (tracked.claim row.id).1 loop id) := by
  have hget := inv.get?_held hsettled List.mem_cons_self
  have hclaim : tracked.claim row.id =
      (⟨tracked.attempts.filter fun a => a.1 != row.id, tracked.writing.set row.id⟩, true) :=
    if_pos (Keyed.has_eq_true.mpr ⟨_, hget⟩)
  have hafter := Keyed.get?_filter_ne tracked.attempts row.id id
  have hset : (tracked.writing.set row.id).get? id =
      if row.id = id then some row.id else tracked.writing.get? id :=
    Keyed.get?_set _ _ _
  rw [actsOn_single, hclaim]
  by_cases hid : row.id = id
  · subst hid
    simp [runList, courseOf, hget, hafter, Keyed.has, hset, Course.step_claimed]
  · rw [if_neg (Ne.symm hid)] at hafter
    have hsame : (tracked.writing.set row.id).has id = tracked.writing.has id := by
      rw [Keyed.has, hset, if_neg hid, Keyed.has]
    simp only [if_neg hid, runList, courseOf, hafter, hsame]

theorem course_done (inv : Accounted s kindOf tracked loop held (row :: writing)) :
    runList Course.step (courseOf tracked loop id) (actsOn id [⟨row.id, .wrote⟩]) =
      some (courseOf (tracked.done row.id) loop id) := by
  have hafter : (tracked.done row.id).writing.get? id = if id = row.id then none else tracked.writing.get? id :=
    Keyed.get?_filter_ne tracked.writing row.id id
  have hsame : (tracked.done row.id).attempts = tracked.attempts := rfl
  rw [actsOn_single]
  by_cases hid : row.id = id
  · have hmem : row.id ∈ (row :: writing).map (·.id) := List.mem_map_of_mem List.mem_cons_self
    have hhas := inv.writing_has.mpr hmem
    have hget := inv.get?_not_held fun hheld => inv.of_mem_held hheld hmem
    have hhand : loop.inHand.find? (·.id == row.id) = none :=
      List.find?_eq_none.mpr fun row' hrow' heq =>
        (inv.of_mem_inHand (List.mem_map.mpr ⟨row', hrow', eq_of_beq heq⟩)).2 hmem
    have hdrained : loop.drained.find? (·.1 == row.id) = none :=
      List.find?_eq_none.mpr fun lease hlease heq => inv.drained lease hlease (eq_of_beq heq ▸ hmem)
    subst hid
    have hnone : (tracked.done row.id).writing.has row.id = false := by
      rw [Keyed.has, hafter, if_pos rfl]
      rfl
    simp [runList, courseOf, hget, hhas, hsame, hnone, hhand, hdrained, Course.step_wrote]
  · have hstill : (tracked.done row.id).writing.has id = tracked.writing.has id := by
      rw [Keyed.has, hafter, if_neg (Ne.symm hid), Keyed.has]
    simp only [if_neg hid, runList, courseOf, hsame, hstill]

end Accounted

/-! ## Every step -/

namespace Dispatcher

/-- What holds of a dispatcher between any two steps. -/
structure Standing (s : Settings) (kindOf : JobId → String) (d : Dispatcher) : Prop where
  pool : d.waiting + d.performing.length + d.writing.length + d.returned = s.workers
  closed : d.closed = d.loop.shut
  returned : d.returned ≠ 0 → d.closed = true ∧ d.queue = []
  drained : (d.loop.drained.map fun lease => lease.1).Nodup
  rows : Accounted s kindOf d.tracked d.loop d.held d.writing

theorem standing_start : Standing s kindOf (start s) where
  pool := by simp [start]
  closed := rfl
  returned := nofun
  drained := List.nodup_nil
  rows :=
    { claimed := .refl _
      inFlight := fun _ => .refl _
      settled := nofun
      apart := List.nodup_nil
      room := Nat.zero_le _
      registered := fun _ h => absurd h List.not_mem_nil
      pass := nofun
      drained := nofun }

/-- A step's law: what holds between steps, and each row goes its way. -/
def Goes (s : Settings) (kindOf : JobId → String) (d : Dispatcher) (m : Move) (d' : Dispatcher) : Prop :=
  Standing s kindOf d' ∧ ∀ id, runList Course.step (d.course id) (actsOn id (d.deeds s m)) = some (d'.course id)

namespace Standing

variable {d : Dispatcher} {loop' : Loop} {row : Job}

/-- The loop moves on, with the rows it has at hand and none on the way to the channel. -/
theorem reloop (inv : Standing s kindOf d) {m : Move} (hm : d.deeds s m = []) (hsent : d.loop.sent = [])
    (hsent' : loop'.sent = []) (hshut : loop'.shut = d.loop.shut) (hsettled : loop'.settled = d.loop.settled)
    (hhand : loop'.inHand.Perm d.loop.inHand)
    (hroom : loop'.slots + d.held.length + d.writing.length ≤ s.workers)
    (hpass : ∀ pass, loop' ≠ .leasing pass) (hdrained : loop'.drained = []) (hdrained' : d.loop.drained = []) :
    Goes s kindOf d m { d with loop := loop' } := by
  have hheld : ({ d with loop := loop' } : Dispatcher).held = d.held := by
    rw [held, held, hsent, hsent']
  refine ⟨⟨inv.pool, inv.closed.trans hshut.symm, inv.returned, ?_, ?_⟩, fun id => ?_⟩
  · rw [show ({ d with loop := loop' } : Dispatcher).loop = loop' from rfl, hdrained]
    exact List.nodup_nil
  · rw [hheld]
    exact inv.rows.reloop hsettled hhand hroom hpass hdrained
  · rw [hm]
    exact congrArg some (inv.rows.course_reloop hhand (hdrained.trans hdrained'.symm)).symm

/-- A worker's move that leaves the set as it is. -/
theorem idle (inv : Standing s kindOf d) {d' : Dispatcher} {m : Move} (hm : d.deeds s m = [])
    (htracked : d'.tracked = d.tracked) (hloop : d'.loop = d.loop) (hclosed : d'.closed = d.closed)
    (hpool : d'.waiting + d'.performing.length + d'.writing.length + d'.returned = s.workers)
    (hreturned : d'.returned ≠ 0 → d'.closed = true ∧ d'.queue = [])
    (hrows : Accounted s kindOf d.tracked d.loop d'.held d'.writing) : Goes s kindOf d m d' := by
  refine ⟨⟨hpool, ?_, hreturned, ?_, ?_⟩, fun id => ?_⟩
  · rw [hclosed, hloop, inv.closed]
  · rw [hloop]
    exact inv.drained
  · rw [htracked, hloop]
    exact hrows
  · rw [hm, course, course, htracked, hloop]
    rfl

/-- A row performed, taken out from among the rows held. -/
theorem held_perm (h : row ∈ d.performing) :
    (row :: (d.loop.sent ++ d.queue ++ d.performing.erase row)).Perm d.held :=
  (List.perm_middle.symm.trans ((List.perm_cons_erase h).symm.append_left _))

theorem length_performing (h : row ∈ d.performing) : (d.performing.erase row).length + 1 = d.performing.length :=
  (List.perm_cons_erase h).length_eq.symm

/-- Each step. -/
theorem step (inv : Standing s kindOf d) {m : Move} {d' : Dispatcher} (h : d.step s kindOf m = some d') :
    Goes s kindOf d m d' := by
  have hrows := inv.rows
  cases m with
  | count =>
    simp only [Dispatcher.step] at h
    split at h
    next hloop =>
      obtain rfl := Option.some.inj h
      rw [hloop] at hrows
      have hcount := hrows.count_eq rfl
      have hroom := hrows.room
      split
      · exact inv.reloop rfl (by rw [hloop]; rfl) rfl (by rw [hloop]) (by rw [hloop]) (by rw [hloop]) hroom
          nofun rfl (by rw [hloop]; rfl)
      · refine inv.reloop rfl (by rw [hloop]; rfl) rfl (by rw [hloop]; rfl) (by rw [hloop]; rfl)
          (by rw [hloop]; exact .refl _) ?_ nofun rfl (by rw [hloop]; rfl)
        simp only [Loop.slots, Loop.inHand, List.length_nil] at hroom ⊢
        omega
    next => cases h
  | exclude now =>
    simp only [Dispatcher.step] at h
    split at h
    next free hloop =>
      obtain rfl := Option.some.inj h
      have hclosed := inv.closed
      rw [held, hloop] at hrows
      rw [hloop] at hclosed
      refine ⟨⟨inv.pool, hclosed, inv.returned, List.nodup_nil, hrows.exclude now⟩, fun id => ?_⟩
      rw [course, hloop]
      rfl
    next => cases h
  | query answer =>
    simp only [Dispatcher.step] at h
    split at h
    next pass hloop =>
      have hsorting (hm : d.deeds s (.query answer) = []) :
          Goes s kindOf d (.query answer) { d with loop := .sorting pass.rows } := by
        have hroom := hrows.room
        have hle := (hrows.pass pass hloop).le
        refine inv.reloop hm (by rw [hloop]; rfl) rfl (by rw [hloop]; rfl) (by rw [hloop]; rfl)
          (by rw [hloop]; exact .refl _) ?_ nofun rfl (by rw [hloop]; rfl)
        rw [hloop] at hroom
        simp only [Loop.slots, Loop.inHand] at hroom ⊢
        omega
      split at h
      next hless =>
        cases answer with
        | none =>
          obtain rfl := Option.some.inj h
          exact hsorting rfl
        | some a =>
          obtain ⟨hstands, ⟨⟩⟩ := Option.ite_none_right_eq_some.mp h
          have hclosed := inv.closed
          rw [held, hloop] at hrows
          rw [hloop] at hclosed
          refine ⟨⟨inv.pool, hclosed.trans (Accounted.next_shut _).symm, inv.returned, ?_, ?_⟩, fun id => ?_⟩
          · rw [show (pass.next (pass.rows ++ pass.leases s a)).drained = [] from Accounted.next_drained _]
            exact List.nodup_nil
          · rw [held, show (pass.next (pass.rows ++ pass.leases s a)).sent = [] from Accounted.next_sent _]
            exact hrows.query hstands
          · have hdeeds : d.deeds s (.query (some a)) =
                (pass.leases s a).map fun row => ⟨row.id, .leased row.attempt⟩ := by
              simp only [deeds, hloop, if_pos hless]
            rw [hdeeds, course, hloop]
            exact hrows.course_query hstands
      next hfull =>
        obtain rfl := Option.some.inj h
        refine hsorting ?_
        cases answer with
        | none => rfl
        | some a => simp only [deeds, hloop, if_neg hfull]
    next => cases h
  | sort order =>
    simp only [Dispatcher.step] at h
    split at h
    next rows hloop =>
      obtain ⟨⟨hperm, -⟩, ⟨⟩⟩ := Option.ite_none_right_eq_some.mp h
      have hroom := hrows.room
      refine inv.reloop rfl (by rw [hloop]; rfl) rfl (by rw [hloop]; rfl) (by rw [hloop]; rfl)
        (by rw [hloop]; exact hperm) ?_ nofun rfl (by rw [hloop]; rfl)
      rw [hloop] at hroom
      simp only [Loop.slots, Loop.inHand] at hroom ⊢
      rw [hperm.length_eq]
      exact hroom
    next => cases h
  | add =>
    simp only [Dispatcher.step] at h
    split at h
    next row rest hloop =>
      obtain rfl := Option.some.inj h
      have hclosed := inv.closed
      rw [held, hloop] at hrows
      rw [hloop] at hclosed
      refine ⟨⟨inv.pool, hclosed, inv.returned, List.nodup_nil, hrows.add⟩, fun id => ?_⟩
      rw [course, deeds, hloop]
      exact hrows.course_add
    next => cases h
  | send =>
    simp only [Dispatcher.step] at h
    split at h
    next row rest hloop =>
      obtain ⟨⟨hroom, hopen⟩, ⟨⟩⟩ := Option.ite_none_right_eq_some.mp h
      have hclosed := inv.closed
      have hslots := hrows.room
      rw [hloop] at hrows hclosed hslots
      have hperm : (d.queue ++ [row] ++ d.performing).Perm d.held := by
        rw [held, hloop]
        exact (List.perm_append_singleton row d.queue).append_right _
      refine ⟨⟨inv.pool, hclosed, fun hreturned => ?_, List.nodup_nil, ?_⟩, fun id => ?_⟩
      · exact absurd ((inv.returned hreturned).1.symm.trans hopen) nofun
      · have hnext : Accounted s kindOf d.tracked (.handing rest) d.held d.writing :=
          hrows.reloop rfl (.refl _) hslots nofun rfl
        exact hnext.perm hperm (.refl _)
      · rw [course, hloop]
        rfl
    next => cases h
  | batchDone =>
    simp only [Dispatcher.step] at h
    split at h
    next hloop =>
      obtain rfl := Option.some.inj h
      have hroom := hrows.room
      rw [hloop] at hroom
      exact inv.reloop rfl (by rw [hloop]; rfl) rfl (by rw [hloop]; rfl) (by rw [hloop]; rfl)
        (by rw [hloop]; exact .refl _) hroom nofun rfl (by rw [hloop]; rfl)
    next => cases h
  | stop =>
    simp only [Dispatcher.step] at h
    split at h
    next hloop =>
      obtain rfl := Option.some.inj h
      have hreturned := inv.returned
      rw [held, hloop] at hrows
      have hroom := hrows.room
      refine ⟨⟨inv.pool, rfl, fun h => ⟨rfl, (hreturned h).2⟩, List.nodup_nil, ?_⟩, fun id => ?_⟩
      · exact hrows.reloop rfl (.refl _) hroom nofun rfl
      · rw [course, hloop]
        rfl
    next => cases h
  | allReturned =>
    simp only [Dispatcher.step] at h
    split at h
    next hloop =>
      obtain ⟨hall, ⟨⟩⟩ := Option.ite_none_right_eq_some.mp h
      have hpool := inv.pool
      have hclosed := inv.closed
      have hroom := hrows.room
      rw [hloop] at hclosed
      have hperforming : d.performing = [] := List.eq_nil_of_length_eq_zero (by omega)
      have hqueue : d.queue = [] := by
        by_cases hzero : d.returned = 0
        · -- no workers, and no room for a row
          rw [held, List.length_append, List.length_append] at hroom
          exact List.eq_nil_of_length_eq_zero (by omega)
        · exact (inv.returned hzero).2
      have hheld : d.held = [] := by rw [held, hloop, hqueue, hperforming]; rfl
      rw [hheld, hloop] at hrows
      refine ⟨⟨inv.pool, hclosed, inv.returned, List.nodup_nil, ?_⟩, fun id => ?_⟩
      · rw [held, hqueue, hperforming]
        exact hrows.finish
      · rw [course, hloop]
        rfl
    next => cases h
  | drain =>
    simp only [Dispatcher.step] at h
    split at h
    next hloop =>
      obtain rfl := Option.some.inj h
      have hclosed := inv.closed
      rw [hloop] at hclosed
      rw [held, hloop] at hrows
      refine ⟨⟨inv.pool, hclosed, inv.returned, d.tracked.attempts.nodup, hrows.drain⟩, fun id => ?_⟩
      rw [course, hloop]
      exact hrows.course_drain
    next => cases h
  | release =>
    simp only [Dispatcher.step] at h
    split at h
    next leases hloop =>
      obtain rfl := Option.some.inj h
      have hclosed := inv.closed
      have hdrained := inv.drained
      rw [hloop] at hclosed hdrained
      rw [held, hloop] at hrows
      have hroom := hrows.room
      refine ⟨⟨inv.pool, hclosed, inv.returned, List.nodup_nil, ?_⟩, fun id => ?_⟩
      · exact hrows.reloop rfl (.refl _) hroom nofun rfl
      · rw [course, deeds, hloop]
        exact hrows.course_release hdrained
    next => cases h
  | take =>
    simp only [Dispatcher.step] at h
    split at h
    next row queue hqueue =>
      obtain ⟨hwaiting, ⟨⟩⟩ := Option.ite_none_right_eq_some.mp h
      have hpool := inv.pool
      have hheld : (d.loop.sent ++ queue ++ row :: d.performing).Perm d.held := by
        rw [held, hqueue, List.append_assoc, List.append_assoc]
        exact List.perm_middle.append_left _
      refine inv.idle rfl rfl rfl rfl ?_ (fun hreturned => ?_) (hrows.perm hheld (.refl _))
      · simp only [List.length_cons]
        omega
      · have := (inv.returned hreturned).2
        rw [hqueue] at this
        cases this
    next => cases h
  | leave =>
    obtain ⟨⟨hclosed, hqueue, hwaiting⟩, ⟨⟩⟩ := Option.ite_none_right_eq_some.mp h
    have hpool := inv.pool
    refine inv.idle rfl rfl rfl rfl ?_ (fun _ => ⟨hclosed, hqueue⟩) hrows
    show d.waiting - 1 + d.performing.length + d.writing.length + (d.returned + 1) = s.workers
    omega
  | drop row =>
    obtain ⟨⟨hrow, hnone⟩, -⟩ := Option.ite_none_right_eq_some.mp h
    -- every row leased is of a kind registered
    have hregistered := hrows.registered row
      (List.mem_append_right _ (List.mem_append_right _ hrow))
    rw [hnone] at hregistered
    cases hregistered
  | claim row =>
    obtain ⟨⟨hrow, -⟩, h⟩ := Option.ite_none_right_eq_some.mp h
    have hpool := inv.pool
    have hlength := length_performing hrow
    have hfirst := hrows.perm (held_perm hrow) (.refl _)
    cases hsettled : d.loop.settled with
    | false =>
      obtain ⟨hclaimed, hrows'⟩ := hfirst.claim hsettled
      rw [if_pos hclaimed] at h
      obtain rfl := Option.some.inj h
      refine ⟨⟨?_, inv.closed, inv.returned, inv.drained, hrows'⟩, fun id => ?_⟩
      · simp only [List.length_cons]
        omega
      · rw [deeds, if_pos hclaimed]
        exact hfirst.course_claim hsettled
    | true =>
      obtain ⟨hlost, hrows'⟩ := hfirst.claim_settled hsettled
      rw [if_neg (Bool.eq_false_iff.mp hlost)] at h
      obtain rfl := Option.some.inj h
      refine inv.idle ?_ rfl rfl rfl ?_ inv.returned hrows'
      · rw [deeds, if_neg (Bool.eq_false_iff.mp hlost)]
      · show d.waiting + 1 + (d.performing.erase row).length + d.writing.length + d.returned = s.workers
        omega
  | done row =>
    obtain ⟨hrow, ⟨⟩⟩ := Option.ite_none_right_eq_some.mp h
    have hpool := inv.pool
    have hlength := (List.perm_cons_erase hrow).length_eq
    have hfirst := hrows.perm (.refl _) (List.perm_cons_erase hrow).symm
    refine ⟨⟨?_, inv.closed, inv.returned, inv.drained, hfirst.done⟩, fun id => hfirst.course_done⟩
    rw [List.length_cons] at hlength
    show d.waiting + 1 + d.performing.length + (d.writing.erase row).length + d.returned = s.workers
    omega

end Standing

/-! ## Every run -/

variable {t : Recorded Dispatcher Deed} {d : Dispatcher}

/-- A run on the record, from the dispatcher's start. -/
abbrev Reaches (s : Settings) (kindOf : JobId → String) (t : Recorded Dispatcher Deed) : Prop :=
  Runs (recording (Dispatcher.step s kindOf) (Dispatcher.deeds s)) Always ⟨start s, []⟩ t

/-- In every run, what holds between steps holds, and each row has gone its course. -/
theorem Reaches.standing (hrun : Reaches s kindOf t) :
    Standing s kindOf t.state ∧
      ∀ id, runList Course.step .resting (actsOn id t.past) = some (t.state.course id) := by
  refine @Runs.keeps _ _ _ _ _ _ (fun t : Recorded Dispatcher Deed => Standing s kindOf t.state ∧
    ∀ id, runList Course.step .resting (actsOn id t.past) = some (t.state.course id))
    ⟨standing_start, fun id => rfl⟩ (fun t m u ⟨inv, hcourse⟩ _ hstep => ?_) hrun
  obtain ⟨hstate, hpast⟩ := recording_eq_some hstep
  obtain ⟨hinv, hgoes⟩ := inv.step hstate
  refine ⟨hinv, fun id => ?_⟩
  rw [hpast, actsOn_append, runList_append, hcourse, Option.bind_some, hgoes]

/-- Before the shutdown takes over, a row held is in the set at its attempt. -/
theorem Standing.course_held (inv : Standing s kindOf d) (hsettled : d.loop.settled = false) {row : Job}
    (hrow : row ∈ d.held) : d.course row.id = .inFlight row.attempt := by
  rw [course, courseOf, inv.rows.get?_held hsettled hrow]

/-- Once it has, no row is. -/
theorem Standing.course_settled (inv : Standing s kindOf d) (hsettled : d.loop.settled = true) (id : JobId)
    (attempt : Int) : d.course id ≠ .inFlight attempt ∧ d.course id ≠ .leased attempt := by
  have hhand : d.loop.inHand = [] := by
    cases hloop : d.loop with
    | waiting | releasing _ | finished => rfl
    | _ =>
      rw [hloop] at hsettled
      cases hsettled
  simp only [course, courseOf, inv.rows.get?_settled hsettled, hhand, List.find?_nil]
  constructor
  · split
    · rintro ⟨⟩
    · split <;> rintro ⟨⟩
  · split
    · rintro ⟨⟩
    · split <;> rintro ⟨⟩

/-- Each row leased and not yet with a worker has a worker waiting for it. -/
theorem Standing.unstarted_le (inv : Standing s kindOf d) (hopen : d.closed = false) :
    (d.loop.inHand ++ d.loop.sent ++ d.queue).length ≤ d.waiting := by
  have hpool := inv.pool
  have hroom := inv.rows.room
  have hreturned : d.returned = 0 := by
    by_contra hne
    exact absurd ((inv.returned hne).1.symm.trans hopen) nofun
  have hslots : d.loop.inHand.length ≤ d.loop.slots := by
    cases hloop : d.loop with
    | leasing pass => exact (inv.rows.pass pass hloop).le
    | _ => simp [Loop.inHand, Loop.slots]
  simp only [held, List.length_append] at hroom ⊢
  omega

/-- A send finds the channel open, with room. -/
theorem Standing.can_send (inv : Standing s kindOf d) {row : Job} {rest : List Job}
    (hloop : d.loop = .sending row rest) : ∃ d', d.step s kindOf .send = some d' := by
  have hroom := inv.rows.room
  have hclosed := inv.closed
  rw [hloop] at hclosed
  have hless : d.queue.length < s.workers := by
    simp only [held, hloop, Loop.sent, List.length_append, List.length_singleton] at hroom
    omega
  refine ⟨{ d with queue := d.queue ++ [row], loop := .handing rest }, ?_⟩
  simp only [Dispatcher.step, hloop]
  exact if_pos ⟨hless, hclosed⟩

/-- **Each lease has one taker.** In any run of one dispatcher: what became of a row is, in order, a course: a
lease, the set, and one taker, the worker that claims it at the attempt it was leased for and writes its outcome
or the shutdown that takes it over at that attempt and gives it back; and the course stands where the set and
the loop's hands have the row. A row on its way to the workers or with one is in the set at its attempt, until
the shutdown takes over, and after that none is in the set or in the loop's hands. Each row leased and not yet
with a worker has a worker waiting for it, and a send finds the channel open, with room. -/
theorem lease_law (hrun : Reaches s kindOf t) :
    (∀ id, runList Course.step .resting (actsOn id t.past) = some (t.state.course id)) ∧
      (t.state.loop.settled = false → ∀ row ∈ t.state.held, t.state.course row.id = .inFlight row.attempt) ∧
      (t.state.loop.settled = true → ∀ id attempt,
        t.state.course id ≠ .inFlight attempt ∧ t.state.course id ≠ .leased attempt) ∧
      (t.state.closed = false →
        (t.state.loop.inHand ++ t.state.loop.sent ++ t.state.queue).length ≤ t.state.waiting) ∧
      ∀ row rest, t.state.loop = .sending row rest → ∃ d, t.state.step s kindOf .send = some d := by
  obtain ⟨inv, hcourse⟩ := hrun.standing
  exact ⟨hcourse, fun hsettled _ hrow => inv.course_held hsettled hrow, inv.course_settled, inv.unstarted_le,
    fun _ _ hloop => inv.can_send hloop⟩

end Dispatcher

/-! ## A dispatcher with one worker -/

/-- One worker, for one kind. -/
def oneWorker : Settings where
  workers := 1
  lease := 600
  registry :=
    ⟨Keyed.empty.set ("send_email", { maxAttempts := 4, backoff := [5], maxInFlight := 0, backoff_ne := nofun })⟩

/-- A table with one row due. -/
def oneDue : Answer where
  counted := []
  jobs := [insertJob 7 "send_email" "{}" none none 4 0 0]
  locked := []

/-- Between the query's answer and `add` a row leased is not in the set. -/
theorem unlisted_before_add : ∃ t : Recorded Dispatcher Deed,
    runList (recording (Dispatcher.step oneWorker fun _ => "send_email") (Dispatcher.deeds oneWorker))
      ⟨.start oneWorker, []⟩ [.count, .exclude 10, .query (some oneDue)] = some t ∧
      actsOn 7 t.past = [.leased 1] ∧ 7 ∉ t.state.tracked.ids := by
  refine ⟨_, rfl, ?_, ?_⟩ <;> decide

/-- A row leased, handed to the worker and taken over by the shutdown, whose worker then comes too late. -/
def lateWorker : List Move :=
  let row := (leaseRows oneWorker 10 ["send_email"] [] 1 oneDue).headD (insertJob 7 "" "" none none 0 0 0)
  [.count, .exclude 10, .query (some oneDue), .sort [row], .add, .send, .take, .batchDone, .stop, .drain,
    .claim row, .leave, .release]

/-- It is leased once and taken once, and in no set at the end. -/
theorem lateWorker_course : ∃ t : Recorded Dispatcher Deed,
    runList (recording (Dispatcher.step oneWorker fun _ => "send_email") (Dispatcher.deeds oneWorker))
      ⟨.start oneWorker, []⟩ lateWorker = some t ∧
      actsOn 7 t.past = [.leased 1, .added 1, .drained 1, .released] ∧ t.state.course 7 = .resting := by
  have hrun : ∃ t : Recorded Dispatcher Deed,
      runList (recording (Dispatcher.step oneWorker fun _ => "send_email") (Dispatcher.deeds oneWorker))
        ⟨.start oneWorker, []⟩ lateWorker = some t ∧
        actsOn 7 t.past = [.leased 1, .added 1, .drained 1, .released] := ⟨_, rfl, by decide⟩
  obtain ⟨t, ht, hacts⟩ := hrun
  have hlaw := (Dispatcher.lease_law (.ofList lateWorker (.always _ _) ht)).1 7
  rw [hacts] at hlaw
  exact ⟨t, ht, hacts, (Option.some.inj hlaw).symm⟩

end Stoop.Jobs
