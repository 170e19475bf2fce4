import Stoop.Jobs.Table

/-!
# Dispatchers, their workers and the table they share

The machine of `internal/jobs`: any number of dispatchers lease rows of one table
(`dispatcher.go`, `leaseBatch`), hand them to workers that renew, finish, fail or hand back
(`worker.go`), and give back at shutdown what is still in flight (`shutdown`). A step is one
statement on the table or one move of a dispatcher's in-flight set (`inflight.go`), so every
interleaving of the statements of any number of dispatchers is a run.

A leased row in a worker's hands is a `Holder`. Its `phase` is where `inflight` keeps it: in
`attempts` (`performing`), in `writing`, or taken out by `drain`. Which lease of the row it was,
counting from one, is its `turn`: a ghost that no statement reads, by which a holder is stale when
the row has been leased again since.
-/

set_option autoImplicit false

namespace Stoop.Jobs

/-! ## How a failed attempt ends (`outcome.go`) -/

/-- A failure as `errors.As` sees it: its text, the wait `RetryIn` put on it, and whether `Discard`
or `NotAttempted` wraps it. -/
structure Failure where
  text : String
  retryAfter : Option Int
  discard : Bool
  notAttempted : Bool
  deriving DecidableEq, Repr

/-- A kind's retry policy after `withDefaults`: the backoff ladder has a step. -/
structure Options where
  maxAttempts : Int
  backoff : List Int
  maxInFlight : Int
  backoff_ne : backoff ≠ []

/-- How long after its creation a job may be handed back: an hour. -/
def handBackWindow : Int := 3600000000000

/-- Whether a failed attempt is given back rather than counted. -/
def handBack (err : Failure) (age : Int) : Bool :=
  err.notAttempted && !err.discard && age < handBackWindow

/-- The wait after a hand-back grows with the job's age, within the kind's ladder. -/
def handBackWait (age : Int) (opts : Options) : Int :=
  min (max age (opts.backoff.head opts.backoff_ne)) (opts.backoff.getLast opts.backoff_ne)

/-- The row's attempt and limit less the attempts handed back, each of which raised the row's
`max_attempts` past the kind's. -/
def tries (row : Job) (opts : Options) : Int × Int :=
  let handedBack := min (max (row.maxAttempts - opts.maxAttempts) 0) (max (row.attempt - 1) 0)
  (row.attempt - handedBack, row.maxAttempts - handedBack)

/-- How long a failed attempt waits before the next: the `RetryIn` wait, else the ladder's step, the
last repeating. -/
def retryWait (err : Failure) (attempt : Int) (opts : Options) : Int :=
  match err.retryAfter with
  | some after => after
  | none =>
    let step := min (max (attempt - 1) 0) (opts.backoff.length - 1)
    opts.backoff.getD step.toNat (opts.backoff.getLast opts.backoff_ne)

/-- The failure a row leased past its limit ends with, its performer never run. -/
def lapsedLease : Failure where
  text := "attempts exhausted: the lease lapsed"
  retryAfter := none
  discard := true
  notAttempted := false

/-- What the attempt came to: the performer's own result, unless the row was leased past its limit. -/
def performed (row : Job) (result : Option Failure) : Option Failure :=
  if row.attempt > row.maxAttempts then some lapsedLease else result

/-- `writeOutcome`: the write that records how an attempt ended. -/
def writeOutcome (row : Job) (opts : Options) (now : Time) (counters : Option Counters) :
    Option Failure → OutcomeWrite
  | none => .finishJob .succeeded now "" counters
  | some err =>
    let age := now - row.createdAt
    if handBack err age then
      .handBackJob now (now + handBackWait age opts) err.text counters
    else if err.discard || row.attempt ≥ row.maxAttempts then
      .finishJob .discarded now err.text counters
    else
      .requeueJob now (now + retryWait err (tries row opts).1 opts) err.text counters

/-! ## The machine -/

/-- Where a dispatcher's in-flight set keeps a leased row. -/
inductive Phase
  | performing | writing | drained
  deriving DecidableEq, Repr

/-- A leased row in a worker's hands: the row as `LeaseJobs` returned it. -/
structure Holder where
  dispatcher : Nat
  row : Job
  turn : Nat
  phase : Phase
  deriving DecidableEq, Repr

/-- The table, the rows in workers' hands, and every lease taken so far, oldest first (a ghost). -/
structure World where
  jobs : Table
  held : List Holder
  leases : List JobId
  deriving DecidableEq, Repr

/-- Before any job. -/
def World.empty : World := ⟨[], [], []⟩

/-- A lease by name: its row, and which lease of the row it is. -/
abbrev LeaseName := JobId × Nat

/-- The name of the lease a holder was handed. -/
def Holder.name (h : Holder) : LeaseName := (h.row.id, h.turn)

/-- How often a row has been leased. -/
def World.turns (w : World) (id : JobId) : Nat := w.leases.count id

/-- A holder is stale once its row has been leased again. -/
def World.Stale (w : World) (h : Holder) : Prop := h.turn < w.turns h.row.id

instance (w : World) (h : Holder) : Decidable (w.Stale h) :=
  inferInstanceAs (Decidable (_ < _))

/-- The ids a dispatcher keeps out of its own lease query. -/
def World.inflightIds (w : World) (dispatcher : Nat) : List JobId :=
  (w.held.filter (·.dispatcher == dispatcher)).map (·.row.id)

/-- A dispatcher's drained rows, with the attempts they were leased for. -/
def World.drainedLeases (w : World) (dispatcher : Nat) : List (JobId × Int) :=
  (w.held.filter fun h => h.dispatcher == dispatcher && h.phase == .drained).map
    fun h => (h.row.id, h.row.attempt)

/-- The holder of a lease, when it is in the phase given. -/
def World.holder? (w : World) (name : LeaseName) (phase : Phase) : Option Holder :=
  w.held.find? fun h => h.name == name && h.phase == phase

/-- The rows handed to a dispatcher's workers by one lease query. -/
def World.handed (w : World) (dispatcher : Nat) (rows : List Job) : List Holder :=
  rows.map fun row =>
    { dispatcher := dispatcher, row := row, turn := w.turns row.id + 1, phase := .performing }

/-- One atomic action. The instants, the lease's limit and what a performer makes of its job are
the environment's. -/
inductive Label
  | insertJob (id : JobId) (kind args : String) (lane : Option String) (sequence : Option Int)
      (maxAttempts : Int) (notBefore now : Time)
  | leaseJobs (dispatcher : Nat) (request : LeaseRequest)
  | extendJobLease (lease : LeaseName) (until_ : Time)
  | claim (lease : LeaseName)
  | writeOutcome (lease : LeaseName) (opts : Options) (now : Time) (counters : Option Counters)
      (result : Option Failure)
  | remove (lease : LeaseName)
  | drain (dispatcher : Nat)
  | releaseJobs (dispatcher : Nat)
  | crash (dispatcher : Nat)
  | discardLane (lane : String) (now : Time) (error : String)
  | sweepFinishedJobs (before : Time)

/-- One step. -/
def World.step (w : World) : Label → Option World
  | .insertJob id kind args lane sequence maxAttempts notBefore now =>
    -- a job's id is drawn fresh (rowid.New); a row has a lane exactly when it has a sequence
    -- (jobs_lane_sequence_check)
    if id ∈ w.jobs.map (·.id) ∨ id ∈ w.leases ∨ lane.isSome ≠ sequence.isSome then none
    else some { w with
      jobs := w.jobs ++ [insertJob id kind args lane sequence maxAttempts notBefore now] }
  | .leaseJobs dispatcher request =>
    let request := { request with excluded := w.inflightIds dispatcher }
    let rows := leasedRows request w.jobs
    some
      { jobs := leaseJobs request w.jobs
        held := w.held ++ w.handed dispatcher rows
        leases := w.leases ++ rows.map (·.id) }
  | .extendJobLease lease until_ =>
    (w.holder? lease .performing).map fun h =>
      { w with jobs := (OutcomeWrite.extendJobLease until_).run h.row.id h.row.attempt w.jobs }
  | .claim lease =>
    (w.holder? lease .performing).map fun _ =>
      { w with held := w.held.map fun h =>
          if h.name = lease then { h with phase := .writing } else h }
  | .writeOutcome lease opts now counters result =>
    (w.holder? lease .writing).map fun h =>
      { w with
        jobs := (Jobs.writeOutcome h.row opts now counters (performed h.row result)).run
          h.row.id h.row.attempt w.jobs
        held := w.held.filter fun g => g.name != lease }
  | .remove lease =>
    -- a worker handed a kind its registry does not have drops it, and writes nothing
    (w.holder? lease .performing).map fun _ =>
      { w with held := w.held.filter fun g => g.name != lease }
  | .drain dispatcher =>
    -- the workers of drained rows are cancelled before the release, and write nothing more
    some { w with held := w.held.map fun h =>
        if h.dispatcher = dispatcher ∧ h.phase = .performing then { h with phase := .drained } else h }
  | .releaseJobs dispatcher =>
    some { w with
      jobs := releaseJobs (w.drainedLeases dispatcher) w.jobs
      held := w.held.filter fun h => !(h.dispatcher == dispatcher && h.phase == .drained) }
  | .crash dispatcher =>
    some { w with held := w.held.filter (·.dispatcher != dispatcher) }
  | .discardLane lane now error => some { w with jobs := discardLane lane now error w.jobs }
  | .sweepFinishedJobs before => some { w with jobs := sweepFinishedJobs before w.jobs }

end Stoop.Jobs
