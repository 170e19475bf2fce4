import Stoop.Lib.Machine
import Stoop.Lib.Keyed

/-!
# The UDP relay of a media port

`udpRelay` of `internal/tailnet/forward.go`: a flow is remembered by its peer's address, with the socket its
packets go to the host by. Three loops share the table of flows: the one that reads packets, which alone opens
flows (`run`), a pump for each flow opened, which carries replies back until a read or a write fails (`pump`),
and the reaper (`reap`).

A step is what one loop does under the lock, with what it does alone beside it: a dial with the insert after it,
a delete with the close after it. A flow dropped is looked up by the peer's address and by nothing else, so the
record of a run says of each socket closed which flow's end closed it (`Cause`).
-/

set_option autoImplicit false

namespace Stoop.Tailnet

open Stoop.Lib

variable {κ : Type}

def maxSessionsPerPort : Nat := 256

/-- `udpIdle`, in nanoseconds. -/
def udpIdle : Int := 90000000000

/-- A socket to the host, by when it was opened. -/
abbrev Socket := Nat

/-- `udpSession`, with the peer's address it is under. -/
structure Session (κ : Type) where
  key : κ
  host : Socket
  last : Int
  deriving DecidableEq, Repr

def Session.quietFor (s : Session κ) (now d : Int) : Bool := now - s.last > d

/-- Where the loop that reads packets stands. -/
inductive Reader (κ : Type)
  | reading
  -- no flow is under the address: it dials
  | opening (src : κ)
  -- `session` has returned the flow
  | found (src : κ) (host : Socket)
  | writing (src : κ) (host : Socket)
  | ended
  deriving DecidableEq, Repr

/-- `udpRelay`, with the number of sockets opened so far and the pumps at work. -/
structure UdpRelay (κ : Type) where
  sessions : Keyed (Session.key : Session κ → κ)
  full : Bool
  opened : Nat
  reader : Reader κ
  pumps : List (κ × Socket)
  /-- the flows the reaper's pass found quiet; it keeps their addresses -/
  stale : List (Session κ)

def newUDPRelay : UdpRelay κ where
  sessions := .empty
  full := false
  opened := 0
  reader := .reading
  pumps := []
  stale := []

/-- Why a socket is closed: a read or a write of a flow failed, a flow was quiet, the flow's peer already had
another, the relay shut down. -/
inductive Cause
  | failed (host : Socket)
  | quiet (host : Socket)
  | raced
  | shutdown
  deriving DecidableEq, Repr

/-- What happens to sockets. -/
inductive Event
  | opened (host : Socket)
  | foundQuiet (host : Socket) (since : Int)
  | closed (host : Socket) (cause : Cause)
  deriving DecidableEq, Repr

/-- What the loops do. The clock is read where the code reads it; whether a dial, a write or a read fails is the
environment's. -/
inductive Move (κ : Type)
  -- `run` and `session`
  | packet (src : κ)
  | dial (reached : Bool) (now : Int)
  | touch (now : Int)
  | write (sent : Bool)
  | stop
  -- `pump`
  | reply (host : Socket) (now : Int)
  | pumpEnds (src : κ) (host : Socket)
  -- `reap`
  | sweep (now : Int)
  -- the address noted at a place: the map is ranged over in any order
  | reap (place : Nat)
  deriving DecidableEq, Repr

namespace UdpRelay

variable [DecidableEq κ]

/-- `drop`: the flow under an address goes. -/
def drop (r : UdpRelay κ) (key : κ) : UdpRelay κ :=
  { r with sessions := r.sessions.filter fun s => s.key != key }

/-- The close a drop makes. -/
def dropped (r : UdpRelay κ) (key : κ) (cause : Cause) : List Event :=
  (r.sessions.get? key).toList.map fun s => .closed s.host cause

/-- `touch`, of the flow with a socket. -/
def touch (r : UdpRelay κ) (host : Socket) (now : Int) : UdpRelay κ :=
  { r with
    sessions := r.sessions.map (fun s => if s.host = host then { s with last := now } else s) fun s => by
      split <;> rfl }

/-- One step. -/
def step (r : UdpRelay κ) : Move κ → Option (UdpRelay κ)
  | .packet src =>
    match r.reader with
    | .reading =>
      match r.sessions.get? src with
      | some s => some { r with reader := .found src s.host }
      | none =>
        if r.sessions.values.length ≥ maxSessionsPerPort then some { r with full := true }
        else some { r with reader := .opening src }
    | _ => none
  | .dial reached now =>
    match r.reader with
    | .opening src =>
      if reached then
        match r.sessions.get? src with
        -- another packet from the same peer may have raced us here
        | some existing => some { r with opened := r.opened + 1, reader := .found src existing.host }
        | none =>
          some { r with
            sessions := r.sessions.set ⟨src, r.opened, now⟩, opened := r.opened + 1
            pumps := r.pumps ++ [(src, r.opened)], reader := .found src r.opened }
      else some { r with reader := .reading }
    | _ => none
  | .touch now =>
    match r.reader with
    | .found src host => some { r.touch host now with reader := .writing src host }
    | _ => none
  | .write sent =>
    match r.reader with
    | .writing src _ => some { (if sent then r else r.drop src) with reader := .reading }
    | _ => none
  | .stop =>
    -- the read failed: `run` returns, and `closeAll` with it
    match r.reader with
    | .reading => some { r with sessions := .empty, reader := .ended }
    | _ => none
  | .reply host now => if host ∈ r.pumps.map (·.2) then some (r.touch host now) else none
  | .pumpEnds src host =>
    if (src, host) ∈ r.pumps then some { r.drop src with pumps := r.pumps.erase (src, host) } else none
  | .sweep now =>
    match r.stale with
    | [] => some { r with stale := r.sessions.values.filter fun s => s.quietFor now udpIdle }
    | _ :: _ => none
  | .reap place =>
    match r.stale[place]? with
    | none => none
    | some s => some { r.drop s.key with stale := r.stale.eraseIdx place }

/-- What a step does to sockets. -/
def events (r : UdpRelay κ) : Move κ → List Event
  | .dial true _ =>
    match r.reader with
    | .opening src =>
      .opened r.opened :: if r.sessions.has src then [.closed r.opened .raced] else []
    | _ => []
  | .write false =>
    match r.reader with
    | .writing src host => r.dropped src (.failed host)
    | _ => []
  | .stop => r.sessions.values.map fun s => .closed s.host .shutdown
  | .pumpEnds src host => r.dropped src (.failed host)
  | .sweep now =>
    (r.sessions.values.filter fun s => s.quietFor now udpIdle).map fun s => .foundQuiet s.host (now - s.last)
  | .reap place =>
    match r.stale[place]? with
    | none => []
    | some s => r.dropped s.key (.quiet s.host)
  | _ => []

end UdpRelay

end Stoop.Tailnet
