import Mathlib.Data.List.Sort
import Stoop.Channel.Rows

/-!
# Views: what a row's arrival does to the ranges, and what a range lets go of

The views of a log are the channel's (no root) and one per open thread. A view lists the rows that
belong to it and are shown, inside its range of ids.

## Ranges

`viewOf`, `withView`, `withoutView`, `inRange`, `belongs`, `referenced`, `shownRows`

## Rows in and out

`placed` (a row new to the log), `closedThread`, `pruned` (a view past `LOG_CAP`), `withFloor` (the
retention floor), `stretched` (rows held beyond an edge nothing lies beyond)
-/

set_option autoImplicit false

namespace Stoop.Channel

open Stoop.Lib

/-! ## Ranges -/

/-- The view of a root's thread, or of the channel. -/
def viewOf (log : ChannelLog) (rootId : Option Nat) : Option View :=
  match rootId with
  | none => some log.channel
  | some root => (log.threads.get? root).map Prod.snd

def withView (log : ChannelLog) (rootId : Option Nat) (view : View) : ChannelLog :=
  match rootId with
  | none => { log with channel := view }
  | some root => { log with threads := log.threads.set (root, view) }

def withoutView (log : ChannelLog) (rootId : Nat) : ChannelLog :=
  { log with threads := log.threads.filter fun thread => thread.1 != rootId }

def inRange (view : View) (id : Nat) : Bool :=
  match view.oldestId, view.newestId with
  | some oldest, some newest => decide (oldest ≤ id) && decide (id ≤ newest)
  | _, _ => false

/-- Whether a view lists the row, range aside. -/
def belongs (row : Message) (rootId : Option Nat) : Bool :=
  match rootId with
  | none => showsInChannel row
  | some root => row.threadRootId == some root

/-- Whether a row is listed by some view, or is the root of an open thread: what keeps it in the map
when a view lets go of it. -/
def referenced (log : ChannelLog) (row : Message) : Bool :=
  showsInChannel row && inRange log.channel row.id ||
    log.threads.has row.id ||
    match row.threadRootId with
    | some root => ((log.threads.get? root).map fun thread => inRange thread.2 row.id).getD false
    | none => false

/-- A view's shown rows, in no order. -/
def shownRows (log : ChannelLog) (rootId : Option Nat) : List Message :=
  let view := (viewOf log rootId).getD emptyView
  log.rows.values.filter fun row => belongs row rootId && inRange view row.id && isShown row

/-! ## Rows in -/

/-- A view once a row new to the log has come: inside the range it is shown already; beyond the
newest end it extends a live range and is counted on one that stops short; below the oldest end it
joins only a range nothing older lies beyond. -/
def extended (view : View) (id : Nat) : View :=
  if inRange view id then view
  else if (view.newestId.map fun newest => decide (newest < id)).getD true then
    if view.hasNewer then { view with pendingNewer := view.pendingNewer + 1 }
    else { view with newestId := some id, oldestId := some (view.oldestId.getD id) }
  else if !view.hasOlder then { view with oldestId := some id }
  else view

/-- A row new to the log, in one view that lists it, where there is that view. -/
def placedIn (log : ChannelLog) (rootId : Option Nat) (id : Nat) : ChannelLog :=
  match viewOf log rootId with
  | some view => withView log rootId (extended view id)
  | none => log

/-- A row new to the log, in each view that lists it. -/
def placed (log : ChannelLog) (row : Message) : ChannelLog :=
  let next := if showsInChannel row then placedIn log none row.id else log
  match row.threadRootId with
  | some root => placedIn next (some root) row.id
  | none => next

/-- Rows held beyond an edge nothing lies beyond on the server (arrived by an event while the page
was out) are inside the range after all. -/
def stretched (log : ChannelLog) (rootId : Option Nat) : ChannelLog :=
  match viewOf log rootId with
  | none => log
  | some view =>
    if view.hasNewer && view.hasOlder then log
    else
      let beyond := log.rows.values.filter fun row =>
        belongs row rootId && isShown row && !inRange view row.id
      let edges := beyond.foldl
        (fun (edges : Option Nat × Option Nat) row =>
          let newestId :=
            if !view.hasNewer && (edges.2.map fun newest => decide (newest < row.id)).getD true then
              some row.id
            else edges.2
          let oldestId :=
            if !view.hasOlder && (edges.1.map fun oldest => decide (row.id < oldest)).getD true then
              some row.id
            else edges.1
          (oldestId, newestId))
        (view.oldestId, view.newestId)
      withView log rootId { view with oldestId := edges.1, newestId := edges.2 }

/-! ## Rows out -/

/-- A thread's view closed: the view goes, and with it the rows only it kept. A row no view listed
stays as it was. -/
def closedThread (log : ChannelLog) (rootId : Nat) : ChannelLog :=
  if log.threads.has rootId then
    let next := withoutView log rootId
    let gone := log.rows.values.filter fun row => referenced log row && !referenced next row
    { next with rows := withoutRows next.rows (gone.map (·.id)) }
  else log

/-- The end of a view that pruning lets go of. -/
inductive Drop
  | oldest
  | newest
  deriving DecidableEq, Repr

/-- A view holds at most `LOG_CAP` shown rows: past that, the end away from the reader goes. A row
dropped from a view leaves the map unless another view still lists it. -/
def pruned (log : ChannelLog) (rootId : Option Nat) (drop : Drop) : ChannelLog :=
  match viewOf log rootId with
  | none => log
  | some view =>
    let shown := shownRows log rootId
    if shown.length ≤ LOG_CAP then log
    else
      let ids := (shown.map (·.id)).insertionSort (· ≤ ·)
      let narrowed :=
        match drop with
        | .newest => { view with newestId := (ids.take LOG_CAP).getLast?, hasNewer := true }
        | .oldest => { view with oldestId := (ids.drop (ids.length - LOG_CAP)).head?, hasOlder := true }
      let next := withView log rootId narrowed
      let gone := log.rows.values.filter fun row =>
        belongs row rootId && inRange view row.id && !inRange narrowed row.id &&
          !referenced next row
      { next with rows := withoutRows next.rows (gone.map (·.id)) }

/-- Whether the sweep takes, or will take, a row: a top-level one below the floor and not pinned; a
reply whose root is, where the root is held. -/
def belowFloor (rows : Rows) (row : Message) (floorId : Nat) : Bool :=
  match row.threadRootId with
  | some root =>
    decide (root < floorId) && ((rows.get? root).map fun root => !root.pinned).getD false
  | none => decide (row.id < floorId) && !row.pinned

/-- The later of two floors: the floor never moves back. -/
def laterFloor (floorId floor : Option Nat) : Option Nat :=
  match floorId, floor with
  | some floorId, some floor => some (if floor < floorId then floorId else floor)
  | some floorId, none => some floorId
  | none, floor => floor

/-- Rows below the retention floor are gone from the server with no tombstone and no event; the
floor on each answer is how a client learns. -/
def withFloor (log : ChannelLog) (floorId : Option Nat) : ChannelLog :=
  match laterFloor floorId log.floor with
  | none => log
  | some floor =>
    let gone := (log.rows.values.filter fun row => belowFloor log.rows row floor).map (·.id)
    { log with
      floor := some floor
      rows := withoutRows log.rows gone
      threads := log.threads.filter fun thread => !gone.contains thread.1 }

end Stoop.Channel
