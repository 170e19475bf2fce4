import Stoop.Jobs.Inflight
import Stoop.Jobs.Steps

/-!
# Periodic kinds

`internal/jobs/schedule.go` and `job_schedules.sql`: a kind is scheduled at a start of the server, and any number of
dispatchers insert a run of it when it is due (`materialiseDue`). That is a transaction: `DueSchedules` finds the
due rows in the statement's snapshot and locks each, passing over one that another transaction holds and looking
again at one that was written since; what the transaction writes nobody sees before it commits.

A step is one statement, or the commit, so every interleaving of the transactions of any number of dispatchers, of
calls of `Schedule` and of all else that happens to the jobs (`World.step`) is a run. Ids are drawn fresh
(`rowid.New`): none is drawn twice.
-/

set_option autoImplicit false

namespace Stoop.Jobs

open Stoop.Lib

/-! ## The table -/

/-- A row of `job_schedules`. -/
structure ScheduleRow where
  kind : String
  intervalMs : Int
  enabled : Bool
  nextDue : Time
  lastJobId : Option JobId
  deriving DecidableEq, Repr

abbrev ScheduleRows := Keyed ScheduleRow.kind

/-- `time.Millisecond`. -/
def millisecond : Int := 1000000

/-- `ScheduleLead`: two minutes. -/
def scheduleLead : Int := 120000000000

structure UpsertScheduleParams where
  kind : String
  intervalMs : Int
  enabled : Bool
  firstDue : Time
  movedDue : Time

/-- What `Schedule` asks of the table; an interval below a millisecond is none. -/
def scheduleParams (kind : String) (every : Int) (now : Time) : UpsertScheduleParams :=
  if millisecond ≤ every then
    { kind := kind, intervalMs := every / millisecond, enabled := true, firstDue := now + scheduleLead
      movedDue := now + every }
  else
    { kind := kind, intervalMs := 0, enabled := false, firstDue := now + scheduleLead, movedDue := now }

/-- `UpsertSchedule`. -/
def upsertSchedule (arg : UpsertScheduleParams) (rows : ScheduleRows) : ScheduleRows :=
  match rows.get? arg.kind with
  | none => rows.set
      { kind := arg.kind, intervalMs := arg.intervalMs, enabled := arg.enabled, nextDue := arg.firstDue
        lastJobId := none }
  | some row => rows.set
      { row with
        intervalMs := arg.intervalMs, enabled := arg.enabled
        nextDue := if arg.enabled then min row.nextDue arg.movedDue else row.nextDue }

/-- `enabled AND next_due <= now`. -/
def ScheduleRow.due (row : ScheduleRow) (now : Time) : Bool := row.enabled && row.nextDue ≤ now

/-- Whether a run of a kind is queued or running. -/
def Table.owes (t : Table) (kind : String) : Bool := t.any fun j => j.kind == kind && j.unfinished

/-- `AdvanceSchedule`. -/
def advanceSchedule (kind : String) (nextDue : Time) (id : JobId) (rows : ScheduleRows) : ScheduleRows :=
  rows.map (fun row => if row.kind = kind then { row with nextDue := nextDue, lastJobId := some id } else row) fun row => by
    split <;> rfl

/-- `DisableSchedule`. -/
def disableSchedule (kind : String) (rows : ScheduleRows) : ScheduleRows :=
  rows.map (fun row => if row.kind = kind then { row with enabled := false } else row) fun row => by split <;> rfl

/-! ## The machine -/

/-- A transaction of `materialiseDue`: the clock it read, the kinds of the rows its statement found due, and the
rows it has locked so far, as they were then. -/
structure Materialise where
  id : Nat
  now : Time
  registry : Registry
  due : List String
  locked : List ScheduleRow

/-- Whether the transaction inserts a run for a row it locked: the kind is one this build performs. -/
def Materialise.runs (tx : Materialise) (row : ScheduleRow) : Bool :=
  (tx.registry.lookup row.kind).isSome && 0 < row.intervalMs

/-- The jobs, the schedules, the transactions that are open, and every id drawn so far. -/
structure Planner where
  world : World
  rows : ScheduleRows
  passes : Keyed Materialise.id
  drawn : List JobId

/-- Before any job. -/
def Planner.empty : Planner := ⟨World.empty, .empty, .empty, []⟩

/-- Whether an open transaction holds a kind's row locked. -/
def Planner.locks (s : Planner) (kind : String) : Bool :=
  s.passes.values.any fun tx => tx.locked.any fun row => row.kind == kind

/-- One step. A commit is given an id for each row locked, and draws it where it inserts a run. -/
inductive PlanLabel
  | job (a : Label)
  | schedule (registry : Registry) (kind : String) (every : Int) (now : Time)
  | dueSchedules (pass : Nat) (registry : Registry) (now : Time)
  | lock (pass : Nat) (kind : String)
  | commit (pass : Nat) (ids : List JobId)
  | rollback (pass : Nat)

namespace Planner

/-- Anything that happens to the jobs. -/
def work (s : Planner) (a : Label) : Option Planner :=
  if ∀ j ∈ a.enqueued, j.id ∉ s.drawn then
    (s.world.step a).map fun w => { s with world := w, drawn := s.drawn ++ a.enqueued.map (·.id) }
  else none

/-- What the loop of `materialiseDue` does for one row. -/
def materialise (tx : Materialise) (s : Planner) (row : ScheduleRow) (id : JobId) : Option Planner :=
  match tx.registry.lookup row.kind with
  | none => some { s with rows := disableSchedule row.kind s.rows }
  | some opts =>
    if row.intervalMs ≤ 0 then some { s with rows := disableSchedule row.kind s.rows }
    else
      (s.work (.insertJob id row.kind "{}" none none opts.maxAttempts tx.now tx.now)).map fun s =>
        { s with rows := advanceSchedule row.kind (tx.now + row.intervalMs * millisecond) id s.rows }

/-- The loop, over the rows locked. -/
def materialiseAll (tx : Materialise) : Planner → List (ScheduleRow × JobId) → Option Planner
  | s, [] => some s
  | s, (row, id) :: rest => (s.materialise tx row id).bind fun s => s.materialiseAll tx rest

/-- A transaction is over. -/
def close (s : Planner) (pass : Nat) : Planner := { s with passes := s.passes.filter (·.id != pass) }

def step (s : Planner) : PlanLabel → Option Planner
  | .job a => s.work a
  | .schedule registry kind every now =>
    if registry.lookup kind = none then some s
    -- the statement waits for the transaction that holds the row
    else if s.locks kind then none
    else some { s with rows := upsertSchedule (scheduleParams kind every now) s.rows }
  | .dueSchedules pass registry now =>
    if s.passes.has pass then none
    else
      let due := s.rows.values.filter fun row => row.due now && !s.world.jobs.owes row.kind
      some { s with passes := s.passes.set ⟨pass, now, registry, due.map (·.kind), []⟩ }
  | .lock pass kind =>
    (s.passes.get? pass).bind fun tx => (s.rows.get? kind).bind fun row =>
      if kind ∈ tx.due ∧ row.due tx.now ∧ s.locks kind = false then
        some { s with passes := s.passes.set { tx with locked := tx.locked ++ [row] } }
      else none
  | .commit pass ids =>
    (s.passes.get? pass).bind fun tx =>
      if ids.length = tx.locked.length then (s.close pass).materialiseAll tx (tx.locked.zip ids) else none
  | .rollback pass => some (s.close pass)

end Planner

/-! ## The record -/

/-- What happens to a kind's schedule: it was asked for, or a run of it was inserted. -/
inductive Mark
  | asked (kind : String) (every : Int) (now : Time)
  | ran (kind : String) (id : JobId) (intervalMs : Int) (now : Time)
  deriving DecidableEq, Repr

/-- The runs a transaction inserts. -/
def Materialise.marks (tx : Materialise) (rows : List (ScheduleRow × JobId)) : List Mark :=
  (rows.filter fun entry => tx.runs entry.1).map fun entry => .ran entry.1.kind entry.2 entry.1.intervalMs tx.now

/-- What a step puts on the record. -/
def Planner.marks (s : Planner) : PlanLabel → List Mark
  | .schedule registry kind every now => if registry.lookup kind = none then [] else [.asked kind every now]
  | .commit pass ids =>
    match s.passes.get? pass with
    | none => []
    | some tx => tx.marks (tx.locked.zip ids)
  | _ => []

/-- The machine with its record. -/
abbrev Plan := Recorded Planner Mark

def Plan.step : Plan → PlanLabel → Option Plan := recording Planner.step Planner.marks

def Plan.empty : Plan := ⟨Planner.empty, []⟩

/-- When a kind is due after what happened to it, if it is scheduled. -/
def dueAfter (kind : String) (due : Option Time) : Mark → Option Time
  | .asked k every now =>
    if k ≠ kind then due
    else
      match due with
      | none => some (now + scheduleLead)
      | some time => some (if millisecond ≤ every then min time (now + every) else time)
  | .ran k _ intervalMs now => if k = kind then some (now + intervalMs * millisecond) else due

/-- The runs of a kind on a record: their ids, and the clock they were inserted by. -/
def runsOf (kind : String) (past : List Mark) : List (JobId × Time) :=
  past.filterMap fun
    | .asked .. => none
    | .ran k id _ now => if k = kind then some (id, now) else none

/-- Each run of a kind came when what was recorded before it had it due. -/
def Timely (kind : String) : Option Time → List Mark → Prop
  | _, [] => True
  | due, mark :: marks =>
    (∀ id intervalMs now, mark = .ran kind id intervalMs now → ∃ time ∈ due, time ≤ now) ∧
      Timely kind (dueAfter kind due mark) marks

/-- What is asked of a step for runs to be a period apart, one at a time: kinds are scheduled with no shorter
interval and by a clock not behind that of a run on the record, and no transaction commits while another, open
still, has read a clock a period ahead of its own. -/
def Paced (period : Int) (t : Plan) : PlanLabel → Prop
  | .schedule _ kind every now =>
    (millisecond ≤ every → period ≤ every / millisecond * millisecond) ∧ ∀ run ∈ runsOf kind t.past, run.2 ≤ now
  | .commit pass _ =>
    match t.state.passes.get? pass with
    | none => True
    | some tx => ∀ other ∈ t.state.passes.values, other.id ≠ pass → other.now < tx.now + period
  | _ => True

instance (period : Int) (t : Plan) : (a : PlanLabel) → Decidable (Paced period t a)
  | .schedule _ _ _ _ => inferInstanceAs (Decidable (_ ∧ _))
  | .commit pass _ =>
    match h : t.state.passes.get? pass with
    | none => isTrue (by rw [Paced, h]; trivial)
    | some tx =>
      decidable_of_iff (∀ other ∈ t.state.passes.values, other.id ≠ pass → other.now < tx.now + period)
        (by rw [Paced, h])
  | .job _ | .dueSchedules _ _ _ | .lock _ _ | .rollback _ => isTrue trivial

/-- An id nobody has. -/
def Planner.Fresh (s : Planner) (id : JobId) : Prop :=
  id ∉ s.drawn ∧ id ∉ s.world.jobs.map (·.id) ∧ id ∉ s.world.leases

/-- A pass left alone inserts a run of a kind it finds due and performs. -/
def Comes (kind : String) (t : Plan) : Prop :=
  ∀ row registry now pass id, t.state.rows.get? kind = some row → row.due now = true → 0 < row.intervalMs →
    t.state.world.jobs.owes kind = false → t.state.locks kind = false → t.state.passes.has pass = false →
    (registry.lookup kind).isSome = true → t.state.Fresh id →
      ∃ u, runList Plan.step t [.dueSchedules pass registry now, .lock pass kind, .commit pass [id]] = some u ∧
        runsOf kind u.past = runsOf kind t.past ++ [(id, now)]

/-- A kind's runs, as a schedule is meant to have them. -/
structure OneAtATime (period : Int) (kind : String) (t : Plan) : Prop where
  /-- None comes before it is due. -/
  timely : Timely kind none t.past
  /-- They are a period apart. -/
  spaced : (runsOf kind t.past).Pairwise fun earlier later => earlier.2 + period ≤ later.2
  /-- When one was inserted, those before it had finished. -/
  single : (runsOf kind t.past).Pairwise fun earlier _ => t.state.world.Finished earlier.1
  /-- One that is due, with none unfinished, is inserted by the next pass. -/
  comes : Comes kind t

end Stoop.Jobs
