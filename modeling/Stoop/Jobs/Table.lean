import Mathlib.Data.List.Sort
import Mathlib.Data.List.Count

/-!
# The jobs table and its statements

The rows of `jobs` (`internal/db/migrations/00044_jobs.sql`, `00045_job_lanes.sql`) and the
statements of `internal/db/queries/jobs/jobs.sql` that move them. Each statement is a function from
the table to the table, run atomically, as Postgres runs one `UPDATE`; what `:execrows` reports is
`Table.matching` of the same condition.

The clock is always the caller's (`now` is an argument everywhere), so instants are plain integers,
in nanoseconds, and nothing here relates one caller's clock to another's.
-/

set_option autoImplicit false

namespace Stoop.Jobs

/-- An instant, in nanoseconds. -/
abbrev Time := Int

/-- A row's id (a UUID, compared only). -/
abbrev JobId := Nat

/-- What a run reports: each counter's name and value. -/
abbrev Counters := List (String × Int)

inductive State
  | queued | running | succeeded | discarded
  deriving DecidableEq, Repr

/-- A row of `jobs`. -/
structure Job where
  id : JobId
  kind : String
  args : String
  lane : Option String
  sequence : Option Int
  state : State
  attempt : Int
  maxAttempts : Int
  notBefore : Time
  leasedUntil : Option Time
  startedAt : Option Time
  finishedAt : Option Time
  error : String
  counters : Option Counters
  createdAt : Time
  deriving DecidableEq, Repr

/-- Whether the row still has work owed: `state IN ('queued', 'running')`. -/
def Job.unfinished (j : Job) : Bool := j.state == .queued || j.state == .running

/-- The `jobs` table. -/
abbrev Table := List Job

/-- `UPDATE jobs SET f WHERE p`. -/
def Table.update (t : Table) (p : Job → Bool) (f : Job → Job) : Table :=
  t.map fun j => if p j then f j else j

/-- The rows an `UPDATE … WHERE p` changes, which `:execrows` reports. -/
def Table.matching (t : Table) (p : Job → Bool) : Nat := t.countP p

/-- The rows of an update that keeps ids have the ids they had. -/
theorem Table.update_ids (t : Table) (p : Job → Bool) {f : Job → Job} (hf : ∀ j, (f j).id = j.id) :
    (t.update p f).map (·.id) = t.map (·.id) := by
  simp only [Table.update, List.map_map]
  refine List.map_congr_left fun j _ => ?_
  simp only [Function.comp_apply]
  split
  · exact hf j
  · rfl

/-- An update whose condition no row meets leaves the table as it is. -/
theorem Table.update_of_matching_zero {t : Table} {p : Job → Bool} (f : Job → Job)
    (h : t.matching p = 0) : t.update p f = t := by
  have hnone : ∀ j ∈ t, ¬ p j = true := List.countP_eq_zero.mp h
  calc t.update p f = t.map id := List.map_congr_left fun j hj => if_neg (hnone j hj)
    _ = t := List.map_id t

/-- A row after an update: the row it was, changed where the condition met it. -/
theorem Table.mem_update {t : Table} {p : Job → Bool} {f : Job → Job} {j' : Job}
    (h : j' ∈ t.update p f) : ∃ j ∈ t, j' = if p j then f j else j := by
  obtain ⟨j, hj, rfl⟩ := List.mem_map.mp h
  exact ⟨j, hj, rfl⟩

/-- The same, by whether the row was changed. -/
theorem Table.mem_update_cases {t : Table} {p : Job → Bool} {f : Job → Job} {j' : Job}
    (h : j' ∈ t.update p f) :
    ∃ j ∈ t, (p j = true ∧ j' = f j) ∨ (p j = false ∧ j' = j) := by
  obtain ⟨j, hj, rfl⟩ := Table.mem_update h
  refine ⟨j, hj, ?_⟩
  cases hp : p j with
  | true => exact .inl ⟨rfl, if_pos rfl⟩
  | false => exact .inr ⟨rfl, if_neg Bool.false_ne_true⟩

/-! ## Enqueueing -/

/-- The row `InsertJob` writes. -/
def insertJob (id : JobId) (kind args : String) (lane : Option String) (sequence : Option Int)
    (maxAttempts : Int) (notBefore now : Time) : Job where
  id := id
  kind := kind
  args := args
  lane := lane
  sequence := sequence
  state := .queued
  attempt := 0
  maxAttempts := maxAttempts
  notBefore := notBefore
  leasedUntil := none
  startedAt := none
  finishedAt := none
  error := ""
  counters := none
  createdAt := now

/-! ## Leasing -/

/-- `(o.sequence, o.id) < (c.sequence, c.id)`: SQL's row comparison, false when either sequence is
null. -/
def Job.before (o c : Job) : Bool :=
  match o.sequence, c.sequence with
  | some s, some s' => s < s' || (s == s' && o.id < c.id)
  | _, _ => false

/-- Whether a row is its lane's head: it has no lane, or no other unfinished row of the lane comes
before it. -/
def Job.isHead (t : Table) (c : Job) : Bool :=
  c.lane.isNone || !t.any fun o => o.lane == c.lane && o.unfinished && o.before c

/-- `leased_until IS NULL OR leased_until < now`: no lease, or one that lapsed. -/
def Job.leaseLapsed (now : Time) (c : Job) : Bool :=
  match c.leasedUntil with
  | none => true
  | some deadline => deadline < now

/-- What `LeaseJobs` is asked: the rows other statements hold locked at that moment (`SKIP LOCKED`)
are the environment's. -/
structure LeaseRequest where
  now : Time
  until_ : Time
  kinds : List String
  excluded : List JobId
  limit : Nat
  locked : List JobId
  deriving DecidableEq, Repr

/-- A row the lease query may take. -/
def LeaseRequest.takes (r : LeaseRequest) (t : Table) (c : Job) : Bool :=
  c.unfinished && r.kinds.contains c.kind && c.notBefore ≤ r.now && c.leaseLapsed r.now &&
    !r.excluded.contains c.id && c.isHead t && !r.locked.contains c.id

/-- Of a lane's finished rows, whether `o` stands before `o'` in `ORDER BY started_at DESC`: Postgres
puts nulls first there. -/
def Job.startedAfter (o o' : Job) : Bool :=
  match o.startedAt, o'.startedAt with
  | none, _ => true
  | some _, none => false
  | some s, some s' => s' ≤ s

/-- How long the lane's last started finished job ran; null without a lane or with nothing finished. -/
def Job.laneLastRan (t : Table) (c : Job) : Option Int :=
  if c.lane.isNone then none
  else
    match (t.filter fun o => o.lane == c.lane && o.finishedAt.isSome).insertionSort
        (fun o o' => o.startedAfter o') with
    | [] => none
    | o :: _ => o.finishedAt.bind fun done => o.startedAt.map fun began => done - began

/-- The lease order: the lane that last ran quickest first (nulls first), then the due time, then
the age. -/
def Job.leasesBefore (t : Table) (c c' : Job) : Bool :=
  let byRest := c.notBefore < c'.notBefore ||
    (c.notBefore == c'.notBefore && c.createdAt ≤ c'.createdAt)
  match c.laneLastRan t, c'.laneLastRan t with
  | none, none => byRest
  | none, some _ => true
  | some _, none => false
  | some ran, some ran' => ran < ran' || (ran == ran' && byRest)

/-- The ids `LeaseJobs` claims. -/
def LeaseRequest.picks (r : LeaseRequest) (t : Table) : List JobId :=
  (((t.filter (r.takes t)).insertionSort fun c c' => c.leasesBefore t c').take r.limit).map (·.id)

/-- A row as `LeaseJobs` leaves it: running, on a lease, one attempt further. -/
def LeaseRequest.leased (r : LeaseRequest) (j : Job) : Job :=
  { j with
    state := .running, leasedUntil := some r.until_, startedAt := some r.now, finishedAt := none
    attempt := j.attempt + 1 }

/-- The table `LeaseJobs` leaves. -/
def leaseJobs (r : LeaseRequest) (t : Table) : Table :=
  t.update (fun j => (r.picks t).contains j.id) r.leased

/-- The rows `LeaseJobs` returns: those it claimed, as it left them. -/
def leasedRows (r : LeaseRequest) (t : Table) : List Job :=
  (t.filter fun j => (r.picks t).contains j.id).map r.leased

/-! ## Outcomes

The outcome writes match the attempt a row was leased for. -/

/-- `id = id AND attempt = attempt`, the condition of every outcome write. -/
def Job.isAttempt (id : JobId) (attempt : Int) (j : Job) : Bool := j.id == id && j.attempt == attempt

/-- A write a worker makes about the row it leased. -/
inductive OutcomeWrite
  | finishJob (state : State) (now : Time) (error : String) (counters : Option Counters)
  | requeueJob (now notBefore : Time) (error : String) (counters : Option Counters)
  | handBackJob (now notBefore : Time) (error : String) (counters : Option Counters)
  | extendJobLease (until_ : Time)
  deriving DecidableEq, Repr

/-- The rows the write is about, for the row `(id, attempt)` it was leased for. `ExtendJobLease`
asks that the row still runs. -/
def OutcomeWrite.on (w : OutcomeWrite) (id : JobId) (attempt : Int) (j : Job) : Bool :=
  match w with
  | .extendJobLease _ => j.isAttempt id attempt && j.state == .running
  | _ => j.isAttempt id attempt

/-- What the write sets. -/
def OutcomeWrite.set (w : OutcomeWrite) (j : Job) : Job :=
  match w with
  | .finishJob state now error counters =>
    { j with
      state := state, finishedAt := some now, leasedUntil := none, error := error
      counters := counters, args := if state = .succeeded then "{}" else j.args }
  | .requeueJob now notBefore error counters =>
    { j with
      state := .queued, leasedUntil := none, finishedAt := some now, error := error
      counters := counters, notBefore := notBefore }
  | .handBackJob now notBefore error counters =>
    { j with
      state := .queued, leasedUntil := none, maxAttempts := j.maxAttempts + 1
      finishedAt := some now, error := error, counters := counters, notBefore := notBefore }
  | .extendJobLease until_ =>
    -- GREATEST passes over a null
    { j with leasedUntil := some (match j.leasedUntil with
        | none => until_
        | some deadline => max deadline until_) }

/-- The table an outcome write for `(id, attempt)` leaves. -/
def OutcomeWrite.run (w : OutcomeWrite) (id : JobId) (attempt : Int) (t : Table) : Table :=
  t.update (w.on id attempt) w.set

/-- The rows it changed. -/
def OutcomeWrite.changed (w : OutcomeWrite) (id : JobId) (attempt : Int) (t : Table) : Nat :=
  t.matching (w.on id attempt)

@[simp] theorem OutcomeWrite.set_id (w : OutcomeWrite) (j : Job) : (w.set j).id = j.id := by
  cases w <;> rfl

/-- No outcome write moves the attempt. -/
@[simp] theorem OutcomeWrite.set_attempt (w : OutcomeWrite) (j : Job) :
    (w.set j).attempt = j.attempt := by
  cases w <;> rfl

/-- A write about a row is about that row's id at that attempt. -/
theorem OutcomeWrite.on_spec {w : OutcomeWrite} {id : JobId} {attempt : Int} {j : Job}
    (h : w.on id attempt j = true) : j.id = id ∧ j.attempt = attempt := by
  cases w <;> simp_all [OutcomeWrite.on, Job.isAttempt]

/-! ## Release, discard, sweep -/

/-- The rows `ReleaseJobs` gives back: running, at the attempt they were leased for. -/
def releases (leases : List (JobId × Int)) (j : Job) : Bool :=
  j.state == .running && leases.contains (j.id, j.attempt)

/-- A row given back: queued, and the attempt the lease counted is taken off again. -/
def Job.released (j : Job) : Job :=
  { j with state := .queued, leasedUntil := none, attempt := j.attempt - 1 }

/-- `ReleaseJobs`: a dispatcher's in-flight rows at shutdown. -/
def releaseJobs (leases : List (JobId × Int)) (t : Table) : Table :=
  t.update (releases leases) Job.released

/-- `DiscardLane`: a lane's queued rows end. -/
def discardLane (lane : String) (now : Time) (error : String) (t : Table) : Table :=
  t.update (fun j => j.lane == some lane && j.state == .queued) fun j =>
    { j with
      state := .discarded, finishedAt := some now, leasedUntil := none, error := error
      args := "{}" }

/-- `SweepFinishedJobs`: rows finished before an instant are deleted. -/
def sweepFinishedJobs (before : Time) (t : Table) : Table :=
  t.filter fun j => j.unfinished || match j.finishedAt with
    | none => true
    | some done => before ≤ done

end Stoop.Jobs
