import Mathlib.Data.String.Basic
import Stoop.Lib.Keyed
import Stoop.Jobs.Caps

/-!
# One dispatcher from the inside

The lease loop, the workers and the shutdown of one dispatcher (`dispatcher.go`, `worker.go`), over the set of
rows in flight (`inflight.go`) and the channel between them. A step is one call on the set, one statement of a
lease, or one send or receive, so every interleaving of the three is a run.

The table is not the dispatcher's alone: a lease query answers from whatever rows stand there when it runs, and
the rows the count of a capped kind was made of may be others. What a query may rely on is that a row's kind is
never written (`kindOf`). Workers are alike, so of those that wait and those that have returned there is only a
number.
-/

set_option autoImplicit false

namespace Stoop.Jobs

open Stoop.Lib

/-! ## The set of rows in flight -/

/-- `inflight`: the rows leased whose outcome is nobody's yet, each with its attempt, and those a worker has
claimed and is writing the outcome for. -/
structure Inflight where
  attempts : Keyed (Prod.fst : JobId × Int → JobId)
  writing : Keyed (id : JobId → JobId)

namespace Inflight

def newInflight : Inflight := ⟨.empty, .empty⟩

def add (f : Inflight) (id : JobId) (attempt : Int) : Inflight :=
  { f with attempts := f.attempts.set (id, attempt) }

def remove (f : Inflight) (id : JobId) : Inflight × Bool :=
  ({ f with attempts := f.attempts.filter fun a => a.1 != id }, f.attempts.has id)

/-- `claim`: takes a finished row's outcome write for its worker; false when shutdown released the row first. -/
def claim (f : Inflight) (id : JobId) : Inflight × Bool :=
  if f.attempts.has id then
    (⟨f.attempts.filter fun a => a.1 != id, f.writing.set id⟩, true)
  else (f, false)

/-- `done`: ends a claim once the outcome is written. -/
def done (f : Inflight) (id : JobId) : Inflight :=
  { f with writing := f.writing.filter fun k => k != id }

/-- `drain`: empties the set of rows nobody has claimed, and lists them. -/
def drain (f : Inflight) : Inflight × List (JobId × Int) := ({ f with attempts := .empty }, f.attempts.values)

/-- `ids`: the rows in flight, claimed ones included. -/
def ids (f : Inflight) : List JobId := f.attempts.values.map (·.1) ++ f.writing.values

def count (f : Inflight) : Nat := f.attempts.values.length + f.writing.values.length

end Inflight

/-! ## The registry -/

/-- `Registry`: the kinds registered, with their options. All are registered before the dispatcher starts. -/
structure Registry where
  kinds : Keyed (Prod.fst : String × Options → String)

structure CappedKind where
  kind : String
  maxInFlight : Int

namespace Registry

/-- `uncappedKinds`, sorted. -/
def uncappedKinds (r : Registry) : List String :=
  ((r.kinds.values.filter fun entry => entry.2.maxInFlight ≤ 0).map (·.1)).insertionSort (· ≤ ·)

/-- `cappedKinds`, sorted by kind. -/
def cappedKinds (r : Registry) : List CappedKind :=
  ((r.kinds.values.filter fun entry => 0 < entry.2.maxInFlight).map fun entry =>
    ⟨entry.1, entry.2.maxInFlight⟩).insertionSort fun left right => left.kind ≤ right.kind

def lookup (r : Registry) (kind : String) : Option Options := (r.kinds.get? kind).map (·.2)

end Registry

/-- What a dispatcher is started with: `Config.Workers`, the lease, the registry. -/
structure Settings where
  workers : Nat
  lease : Int
  registry : Registry

/-! ## A pass of the lease loop -/

/-- `int32Column`. -/
def int32Column (count : Nat) : Nat := min count 2147483647

/-- The table as a pass finds it: what the count of a capped kind saw, and what the lease query saw, with the
rows others held locked. -/
structure Answer where
  counted : Table
  jobs : Table
  locked : List JobId

/-- A table has each row once, and a row's kind is the one it was inserted with. -/
def Answer.Stands (kindOf : JobId → String) (a : Answer) : Prop :=
  (a.jobs.map (·.id)).Nodup ∧ ∀ j ∈ a.jobs, j.kind = kindOf j.id

instance (kindOf : JobId → String) (a : Answer) : Decidable (a.Stands kindOf) :=
  inferInstanceAs (Decidable (_ ∧ _))

/-- The rows `LeaseJobs` returns for some kinds. -/
def leaseRows (s : Settings) (now : Time) (kinds : List String) (excluded : List JobId) (limit : Nat)
    (a : Answer) : List Job :=
  leasedRows
    { now := now, until_ := now + s.lease, kinds := kinds, excluded := excluded, limit := int32Column limit
      locked := a.locked }
    a.jobs

/-- `leaseCapped`: up to `free` rows of a kind, without taking its live leases past the cap. -/
def leaseCapped (s : Settings) (now : Time) (kind : CappedKind) (free : Nat) (excluded : List JobId)
    (a : Answer) : List Job :=
  let limit := min (free : Int) (kind.maxInFlight - countLiveLeases kind.kind now a.counted)
  if limit ≤ 0 then [] else leaseRows s now [kind.kind] excluded limit.toNat a

/-- `leaseDue`, between two of its queries: the capped kinds still to ask for, and the rows leased so far. -/
structure Pass where
  free : Nat
  excluded : List JobId
  now : Time
  capped : List CappedKind
  rows : List Job

/-- The rows the next query leases: the next capped kind's, or the uncapped kinds'. -/
def Pass.leases (s : Settings) (pass : Pass) (a : Answer) : List Job :=
  match pass.capped with
  | kind :: _ => leaseCapped s pass.now kind (pass.free - pass.rows.length) pass.excluded a
  | [] => leaseRows s pass.now s.registry.uncappedKinds pass.excluded (pass.free - pass.rows.length) a

/-- Where the lease loop stands. -/
inductive Loop
  | between
  | counted (free : Nat)
  | leasing (pass : Pass)
  | sorting (rows : List Job)
  | handing (rows : List Job)
  | sending (row : Job) (rest : List Job)
  | waiting
  | releasing (leases : List (JobId × Int))
  | finished

namespace Loop

/-- The rows a query has leased and the loop has not yet added to the set. -/
def inHand : Loop → List Job
  | leasing pass => pass.rows
  | sorting rows | handing rows => rows
  | sending _ rest => rest
  | _ => []

/-- The row that is in the set and not yet in the channel. -/
def sent : Loop → List Job
  | sending row _ => [row]
  | _ => []

/-- The rows taken over from the workers and not yet given back. -/
def drained : Loop → List (JobId × Int)
  | releasing leases => leases
  | _ => []

/-- Whether the loop has ended and the channel is closed. -/
def shut : Loop → Bool
  | waiting | releasing _ | finished => true
  | _ => false

/-- Whether the shutdown is past its wait for the workers. -/
def settled : Loop → Bool
  | releasing _ | finished => true
  | _ => false

end Loop

/-- After a query: the next one, or the end of the pass. -/
def Pass.next (pass : Pass) (rows : List Job) : Loop :=
  match pass.capped with
  | _ :: kinds => .leasing { pass with capped := kinds, rows := rows }
  | [] => .sorting rows

/-! ## The dispatcher -/

/-- A dispatcher: its set, its channel, its workers (those that wait, the rows of those that perform and of
those that write, those that have returned) and its loop. -/
structure Dispatcher where
  tracked : Inflight
  queue : List Job
  closed : Bool
  waiting : Nat
  performing : List Job
  writing : List Job
  returned : Nat
  loop : Loop

/-- `RunDispatcher` before its first tick. -/
def Dispatcher.start (s : Settings) : Dispatcher where
  tracked := .newInflight
  queue := []
  closed := false
  waiting := s.workers
  performing := []
  writing := []
  returned := 0
  loop := .between

/-- One atomic action of the loop, a worker or the shutdown. -/
inductive Move
  -- `leaseBatch`, from its count to its last send
  | count
  | exclude (now : Time)
  | query (answer : Option Answer)
  | sort (order : List Job)
  | add
  | send
  | batchDone
  -- the context has ended: `close(queue)` and `shutdown`, up to the return of `ReleaseJobs`
  | stop
  | allReturned
  | drain
  | release
  -- `work` and `perform`
  | take
  | leave
  | drop (row : Job)
  | claim (row : Job)
  | done (row : Job)

/-- The order rows are handed out in: due first, then older first. -/
def Job.dueBefore (left right : Job) : Prop :=
  left.notBefore < right.notBefore ∨ left.notBefore = right.notBefore ∧ left.createdAt ≤ right.createdAt

instance (left right : Job) : Decidable (left.dueBefore right) := inferInstanceAs (Decidable (_ ∨ _))

namespace Dispatcher

variable (s : Settings) (kindOf : JobId → String)

/-- One action, where it can be taken. Whether the batch was full only says whether the loop looks for more at
once, and a pass may follow at any time. -/
def step (d : Dispatcher) : Move → Option Dispatcher
  | .count =>
    match d.loop with
    | .between =>
      let free := s.workers - d.tracked.count
      some { d with loop := if free = 0 then .between else .counted free }
    | _ => none
  | .exclude now =>
    match d.loop with
    | .counted free =>
      some { d with
        loop := .leasing
          { free := free, excluded := d.tracked.ids, now := now, capped := s.registry.cappedKinds, rows := [] } }
    | _ => none
  | .query answer =>
    match d.loop with
    | .leasing pass =>
      if pass.rows.length < pass.free then
        match answer with
        -- a failed lease ends the pass
        | none => some { d with loop := .sorting pass.rows }
        | some a =>
          if a.Stands kindOf then some { d with loop := pass.next (pass.rows ++ pass.leases s a) } else none
      else some { d with loop := .sorting pass.rows }
    | _ => none
  | .sort order =>
    match d.loop with
    | .sorting rows =>
      if order.Perm rows ∧ order.Pairwise Job.dueBefore then some { d with loop := .handing order } else none
    | _ => none
  | .add =>
    match d.loop with
    | .handing (row :: rest) =>
      some { d with tracked := d.tracked.add row.id row.attempt, loop := .sending row rest }
    | _ => none
  | .send =>
    match d.loop with
    | .sending row rest =>
      -- a send on a full channel waits, on a closed one it panics
      if d.queue.length < s.workers ∧ d.closed = false then
        some { d with queue := d.queue ++ [row], loop := .handing rest }
      else none
    | _ => none
  | .batchDone =>
    match d.loop with
    | .handing [] => some { d with loop := .between }
    | _ => none
  | .stop =>
    match d.loop with
    | .between => some { d with closed := true, loop := .waiting }
    | _ => none
  | .allReturned =>
    match d.loop with
    | .waiting => if d.returned = s.workers then some { d with loop := .finished } else none
    | _ => none
  | .drain =>
    match d.loop with
    | .waiting => some { d with tracked := d.tracked.drain.1, loop := .releasing d.tracked.drain.2 }
    | _ => none
  | .release =>
    match d.loop with
    | .releasing _ => some { d with loop := .finished }
    | _ => none
  | .take =>
    match d.queue with
    | row :: queue =>
      if 0 < d.waiting then
        some { d with queue := queue, waiting := d.waiting - 1, performing := row :: d.performing }
      else none
    | [] => none
  | .leave =>
    if d.closed ∧ d.queue = [] ∧ 0 < d.waiting then
      some { d with waiting := d.waiting - 1, returned := d.returned + 1 }
    else none
  | .drop row =>
    if row ∈ d.performing ∧ s.registry.lookup row.kind = none then
      some { d with
        tracked := (d.tracked.remove row.id).1, performing := d.performing.erase row, waiting := d.waiting + 1 }
    else none
  | .claim row =>
    if row ∈ d.performing ∧ (s.registry.lookup row.kind).isSome then
      if (d.tracked.claim row.id).2 then
        some { d with
          tracked := (d.tracked.claim row.id).1, performing := d.performing.erase row
          writing := row :: d.writing }
      else some { d with performing := d.performing.erase row, waiting := d.waiting + 1 }
    else none
  | .done row =>
    if row ∈ d.writing then
      some { d with
        tracked := d.tracked.done row.id, writing := d.writing.erase row, waiting := d.waiting + 1 }
    else none

end Dispatcher

end Stoop.Jobs
