import Mathlib.Data.List.Dedup
import Stoop.Lib.Machine
import Stoop.Lib.Keyed

/-!
# Who is online

One person in the gateway's presence tracker (`internal/realtime/presence.go`), with what the gateway
announces of them. `hold` serialises a person's changes with their announcements: a change that begins
under it publishes one space after the other before it lets go. A removal from a space takes no hold,
and comes at any moment.

A grace timer is armed for an entry and a generation, and one that was stopped may fire all the same:
every timer armed can fire at any later moment. So can one that ends do not disturb. The person's space
ids arrive in the order the caller has them; in which order spaces are told is nobody's.

`presence_told` says what holds in every run. An offline is announced while a connection is open in one
case, by design (`offline_while_open`): a connection back within the grace finds a space the person is
no longer in.
-/

set_option autoImplicit false

namespace Stoop.Realtime

open Stoop.Lib

/-! ## The tracker -/

/-- `PresenceChanged`, less the person it is of. -/
structure PresenceChanged where
  online : Bool
  dnd : Bool
  mobile : Bool
  deriving DecidableEq, Repr

def offline : PresenceChanged := ⟨false, false, false⟩

/-- A `presenceEntry`, and which of the person's entries it is: a timer is armed for one. Of its timers,
whether a grace runs. -/
structure PresenceEntry where
  made : Nat
  conns : Int
  mobileConns : Int
  mobile : Bool
  spaces : List String
  dnd : Bool
  dndUntil : Option Nat
  settle : Bool
  settling : Nat
  deriving DecidableEq, Repr

/-- What the others are to be told of an entry: `publishPresence`, online. -/
def PresenceEntry.shown (e : PresenceEntry) : PresenceChanged := ⟨true, e.dnd, e.mobile⟩

structure PresenceConn where
  id : Nat
  mobile : Bool
  deriving DecidableEq, Repr

/-- What a connection counts for among the mobile ones. -/
def PresenceConn.mobileCount (c : PresenceConn) : Int := if c.mobile then 1 else 0

/-- What the one who holds the person's lock still has to do. -/
inductive Held
  /-- tell the spaces dropped, and then read do not disturb again -/
  | connecting (spaceIds dropped added : List String) (mobileChanged : Bool)
  /-- tell these spaces -/
  | announcing (change : PresenceChanged) (spaceIds : List String)
  deriving DecidableEq, Repr

/-- The tracker and one person: their entry, the timers ever armed, their open connections, who holds
their lock, and what was announced, oldest first. Of the spaces they were taken out of, `gone` keeps
those they were not counted in again; no step reads it. -/
structure Presence where
  grace : Nat
  entry : Option PresenceEntry
  made : Nat
  armed : List (Nat × Nat)
  ending : List Nat
  conns : Keyed PresenceConn.id
  held : Option Held
  log : List (String × PresenceChanged)
  gone : List String

def newPresence (grace : Nat) : Presence := ⟨grace, none, 0, [], [], Keyed.empty, none, [], []⟩

def PresenceEntry.stopSettle (e : PresenceEntry) : PresenceEntry :=
  { e with settle := false, settling := e.settling + 1 }

def PresenceEntry.armSettle (e : PresenceEntry) : PresenceEntry :=
  let e := e.stopSettle
  { e with settle := true, settling := e.settling + 1 }

/-- An entry kept, with its grace timer armed. -/
def Presence.arm (s : Presence) (e : PresenceEntry) : Presence :=
  let e := e.armSettle
  { s with entry := some e, armed := (e.made, e.settling) :: s.armed }

/-- An entry kept, and every space told of it. -/
def Presence.everywhere (s : Presence) (e : PresenceEntry) : Presence :=
  { s with entry := some e, held := some (.announcing e.shown e.spaces) }

/-- `drop`, and the offline that follows it. -/
def Presence.drop (s : Presence) (e : PresenceEntry) : Presence :=
  { s with entry := none, held := some (.announcing offline e.spaces) }

/-- The entry a connection finds: the person's, or a new one. -/
def Presence.found (s : Presence) (mobile : Bool) : PresenceEntry :=
  s.entry.getD ⟨s.made, 0, 0, mobile, [], false, none, false, 0⟩

/-- The spaces that count an entry and that a connection does not name, where it finds no other open:
no connection was there to see the person leave them. -/
def PresenceEntry.dropped (e : PresenceEntry) (spaceIds : List String) : List String :=
  if e.conns = 0 then e.spaces.filter fun x => !spaceIds.contains x else []

def PresenceEntry.kept (e : PresenceEntry) (spaceIds : List String) : List String :=
  e.spaces.filter fun x => !(e.dropped spaceIds).contains x

/-- The spaces that count an entry from a connection on. -/
def PresenceEntry.added (e : PresenceEntry) (spaceIds : List String) : List String :=
  spaceIds.dedup.filter fun x => !(e.kept spaceIds).contains x

/-- An entry with one more connection. -/
def PresenceEntry.joined (e : PresenceEntry) (conn : PresenceConn) (spaceIds : List String) :
    PresenceEntry :=
  PresenceEntry.stopSettle { e with
    spaces := e.kept spaceIds ++ e.added spaceIds, conns := e.conns + 1
    mobileConns := e.mobileConns + conn.mobileCount }

/-- `connect`. -/
def Presence.connect (s : Presence) (conn : PresenceConn) (spaceIds : List String) : Presence :=
  let found := s.found conn.mobile
  let entry := found.joined conn spaceIds
  let onlyMobile := entry.mobileConns == entry.conns
  let mobileChanged := entry.mobile && !onlyMobile
  let s := { s with
    made := if s.entry.isNone then s.made + 1 else s.made
    conns := s.conns.set conn
    gone := s.gone.filter fun x => !(found.added spaceIds).contains x
    held := some
      (.connecting spaceIds (found.dropped spaceIds) (found.added spaceIds) mobileChanged) }
  if mobileChanged then { s with entry := some { entry with mobile := false } }
  else if !entry.mobile && onlyMobile then s.arm entry
  else { s with entry := some entry }

/-- `disconnect`; `now` skips the grace. -/
def Presence.disconnect (s : Presence) (conn : PresenceConn) (now : Bool) : Presence :=
  let s := { s with conns := s.conns.filter fun c => c.id != conn.id }
  match s.entry with
  | none => s
  | some e =>
    let e := { e with conns := e.conns - 1, mobileConns := e.mobileConns - conn.mobileCount }
    if 0 < e.conns then
      if e.mobile || e.mobileConns != e.conns then { s with entry := some e }
      else if s.grace = 0 then s.everywhere { e with mobile := true }
      else s.arm e
    else if now || s.grace = 0 then s.drop e
    else s.arm e

/-- `settleNow`: a grace timer fires. -/
def Presence.settleNow (s : Presence) (armed generation : Nat) : Presence :=
  match s.entry with
  | none => s
  | some e =>
    if e.made != armed || e.settling != generation then s
    else
      let e := { e with settle := false }
      if e.conns = 0 then s.drop e
      else if !e.mobile && e.mobileConns == e.conns then s.everywhere { e with mobile := true }
      else { s with entry := some e }

/-- `addSpace`, and its announcement. -/
def Presence.addSpace (s : Presence) (spaceId : String) : Presence :=
  match s.entry with
  | none => s
  | some e =>
    if e.spaces.contains spaceId then s
    else { s with
      entry := some { e with spaces := e.spaces ++ [spaceId] }
      gone := s.gone.filter fun x => x != spaceId, held := some (.announcing e.shown [spaceId]) }

/-- `removeSpace`. -/
def Presence.removeSpace (s : Presence) (spaceId : String) : Presence :=
  match s.entry with
  | none => s
  | some e => { s with
      entry := some { e with spaces := e.spaces.filter fun x => x != spaceId }
      gone := if e.spaces.contains spaceId then spaceId :: s.gone else s.gone }

/-- `setDnd`: an end already past reads as off. -/
def PresenceEntry.setDnd (e : PresenceEntry) (on : Bool) (dndUntil : Option Nat) (now : Nat) : PresenceEntry :=
  if !on || dndUntil.any fun t => decide (t ≤ now) then { e with dnd := false, dndUntil := none }
  else { e with dnd := on, dndUntil := dndUntil }

/-- `applyDoNotDisturb` under the lock: everywhere, if what the others see changed. -/
def Presence.setDnd (s : Presence) (on : Bool) (dndUntil : Option Nat) (now : Nat) : Presence :=
  match s.entry with
  | none => s
  | some e =>
    let e' := e.setDnd on dndUntil now
    let s := { s with ending := e'.dndUntil.toList ++ s.ending }
    if e.dnd != e'.dnd then s.everywhere e' else { s with entry := some e' }

/-- `endDnd`: do not disturb reached its end. -/
def Presence.endDnd (s : Presence) (atEnd : Nat) : Presence :=
  match s.entry with
  | none => s
  | some e =>
    if e.dnd && e.dndUntil == some atEnd then s.everywhere { e with dnd := false, dndUntil := none }
    else s

/-- `connectPresence` once the spaces dropped are told: do not disturb as it was looked up (nothing when
that failed), and then every space, or those newly counted and still counted. -/
def Presence.connected (s : Presence) (setting : Option (Bool × Option Nat)) (now : Nat)
    (added : List String) (mobileChanged : Bool) : Presence :=
  match s.entry with
  | none => { s with held := none }
  | some e =>
    let e' := setting.elim e fun set => e.setDnd set.1 set.2 now
    let s := { s with ending := (setting.bind fun _ => e'.dndUntil).toList ++ s.ending }
    if e.dnd != e'.dnd || mobileChanged then s.everywhere e'
    else { s with
      entry := some e', held := some (.announcing e'.shown (added.filter fun x => e'.spaces.contains x)) }

inductive PresenceStep
  | connect (conn : PresenceConn) (spaceIds : List String)
  | lookup (setting : Option (Bool × Option Nat)) (now : Nat)
  | disconnect (conn : Nat) (now : Bool)
  | fire (armed generation : Nat)
  | addSpace (spaceId : String)
  | removeSpace (spaceId : String)
  | setDnd (on : Bool) (dndUntil : Option Nat) (now : Nat)
  | endDnd (atEnd : Nat)
  | publish
  | release
  deriving DecidableEq, Repr

def Presence.step (s : Presence) : PresenceStep → Option Presence
  | .connect conn spaceIds =>
    if s.held.isNone && !s.conns.has conn.id then some (s.connect conn spaceIds) else none
  | .lookup setting now =>
    match s.held with
    | some (.connecting _ [] added mobileChanged) => some (s.connected setting now added mobileChanged)
    | _ => none
  | .disconnect conn now =>
    (s.conns.get? conn).bind fun c => if s.held.isNone then some (s.disconnect c now) else none
  | .fire armed generation =>
    if s.held.isNone && s.armed.contains (armed, generation) then some (s.settleNow armed generation)
    else none
  | .addSpace spaceId => if s.held.isNone then some (s.addSpace spaceId) else none
  | .removeSpace spaceId => some (s.removeSpace spaceId)
  | .setDnd on dndUntil now => if s.held.isNone then some (s.setDnd on dndUntil now) else none
  | .endDnd atEnd =>
    if s.held.isNone && s.ending.contains atEnd then some (s.endDnd atEnd) else none
  | .publish =>
    match s.held with
    | some (.connecting spaceIds (x :: dropped) added mobileChanged) =>
      some { s with
        held := some (.connecting spaceIds dropped added mobileChanged), log := s.log ++ [(x, offline)] }
    | some (.announcing change (x :: spaceIds)) =>
      some { s with held := some (.announcing change spaceIds), log := s.log ++ [(x, change)] }
    | _ => none
  | .release =>
    match s.held with
    | some (.announcing _ []) => some { s with held := none }
    | _ => none

/-! ## What the others were told -/

/-- The last that was announced in a space. -/
def said (log : List (String × PresenceChanged)) (x : String) : Option PresenceChanged :=
  (log.filter fun told => told.1 == x).getLast?.map (·.2)

/-- Whether the tracker counts the person in a space. -/
def Presence.counts (s : Presence) (x : String) : Bool := s.entry.any fun e => e.spaces.contains x

/-- Nothing was announced in a space, or an offline last. -/
def Quiet (log : List (String × PresenceChanged)) (x : String) : Prop :=
  ∀ change, said log x = some change → change.online = false

/-- The announcements match the tracker whenever nobody holds the lock: online with the tracker's flags
where it counts the person, and not online where it does not, the spaces they were taken out of aside
(there it is their removal the others hear of). And the tracker counts the open connections. -/
structure PresenceTold (s : Presence) : Prop where
  counted : s.held = none → ∀ e ∈ s.entry, ∀ x ∈ e.spaces, said s.log x = some e.shown
  uncounted : s.held = none → ∀ x, s.counts x = false → x ∉ s.gone → Quiet s.log x
  conns : ∀ e ∈ s.entry, e.conns = s.conns.values.length ∧ e.mobileConns = s.conns.values.countP (·.mobile)
  closed : s.entry = none → s.conns.values = []

/-- Where an offline may be announced: a space the tracker does not count the person in, because they
have neither a connection open nor a grace, or because the connection being made, the only one open, does
not name it. -/
def Presence.mayGoOffline (s : Presence) (x : String) : Prop :=
  s.counts x = false ∧ (s.entry = none ∨ ∃ spaceIds dropped added mobileChanged,
    s.held = some (.connecting spaceIds dropped added mobileChanged) ∧ x ∉ spaceIds ∧
      s.conns.values.length = 1)

/-- An offline is announced in no space but those allowed. -/
def OfflineOnly (s : Presence) (allowed : String → Prop) : Prop :=
  ∀ s' x change, s.step .publish = some s' → s'.log = s.log ++ [(x, change)] → change.online = false →
    allowed x

/-! ## What the lock's holder owes -/

/-- Whether the holder of the lock is still to tell a space that the person is online. -/
def Presence.owesOnline (s : Presence) (x : String) : Prop :=
  match s.held with
  | none => False
  | some (.connecting _ _ added mobileChanged) => mobileChanged = true ∨ x ∈ added
  | some (.announcing change spaceIds) => change.online = true ∧ x ∈ spaceIds

/-- Whether the holder of the lock is still to tell a space that the person is offline. -/
def Presence.owesOffline (s : Presence) (x : String) : Prop :=
  match s.held with
  | none => False
  | some (.connecting _ dropped _ _) => x ∈ dropped
  | some (.announcing change spaceIds) => change.online = false ∧ x ∈ spaceIds

/-- What the holder of the lock found: a connection back within the grace, alone, dropped spaces its
person is no longer in; what is announced online is the entry as it is, to spaces that count the person
or that they were taken out of since; and offline is announced of someone who has no entry. -/
def Presence.heldRight (s : Presence) : Prop :=
  match s.held with
  | none => True
  | some (.connecting spaceIds dropped _ _) => s.entry.isSome ∧
    ∀ x ∈ dropped, s.counts x = false ∧ x ∉ spaceIds ∧ s.conns.values.length = 1
  | some (.announcing change spaceIds) =>
    if change.online then (∃ e, s.entry = some e ∧ change = e.shown) ∧
      ∀ x ∈ spaceIds, s.counts x = true ∨ x ∈ s.gone
    else s.entry = none

/-- What holds between the steps. -/
structure Presence.Sound (s : Presence) : Prop where
  conns : ∀ e ∈ s.entry, e.conns = s.conns.values.length ∧ e.mobileConns = s.conns.values.countP (·.mobile)
  closed : s.entry = none → s.conns.values = []
  told : ∀ e ∈ s.entry, ∀ x ∈ e.spaces, s.owesOnline x ∨ said s.log x = some e.shown
  quiet : ∀ x, s.counts x = false → x ∉ s.gone → s.owesOffline x ∨ Quiet s.log x
  held : s.heldRight

section
variable {s s' : Presence} {e e' : PresenceEntry} {x : String}

@[simp] theorem counts_some (h : s.entry = some e) : s.counts x = e.spaces.contains x := by
  rw [Presence.counts, h, Option.any_some]

theorem counts_none (h : s.entry = none) : s.counts x = false := by
  rw [Presence.counts, h, Option.any_none]

/-- What is said last, after one more announcement. -/
theorem said_append (log : List (String × PresenceChanged)) (x y : String) (change : PresenceChanged) :
    said (log ++ [(x, change)]) y = if x = y then some change else said log y := by
  rw [said, List.filter_append]
  by_cases hxy : x = y <;> simp [said, hxy]

/-- With nobody holding the lock, nothing is owed. -/
theorem Presence.Sound.idle (h : s.Sound) (hheld : s.held = none) :
    (∀ e ∈ s.entry, ∀ x ∈ e.spaces, said s.log x = some e.shown) ∧
      ∀ x, s.counts x = false → x ∉ s.gone → Quiet s.log x := by
  refine ⟨fun e he x hx => (h.told e he x hx).resolve_left ?_,
    fun x hx hgone => (h.quiet x hx hgone).resolve_left ?_⟩
  · rw [Presence.owesOnline, hheld]
    exact id
  · rw [Presence.owesOffline, hheld]
    exact id

/-- An entry changed with nobody to be told: nothing the others see changed. -/
theorem Presence.Sound.silent (h : s.Sound) (hheld : s.held = none)
    {entry : Option PresenceEntry} {conns : Keyed PresenceConn.id} {made : Nat}
    {armed : List (Nat × Nat)} {ending : List Nat}
    (hentry : ∀ e' ∈ entry, ∃ e, s.entry = some e ∧ e'.spaces = e.spaces ∧ e'.shown = e.shown)
    (hnone : entry = none → s.entry = none ∧ conns.values = [])
    (hconns : ∀ e' ∈ entry, e'.conns = conns.values.length ∧ e'.mobileConns = conns.values.countP (·.mobile)) :
    ({ s with entry := entry, conns := conns, made := made, armed := armed, ending := ending } :
      Presence).Sound where
  conns := hconns
  closed hclosed := (hnone hclosed).2
  told e' he' x hx := by
    obtain ⟨e, he, hspaces, hshown⟩ := hentry e' he'
    rw [hspaces] at hx
    exact .inr ((h.idle hheld).1 e he x hx ▸ congrArg some hshown.symm)
  quiet x hx hgone := by
    refine .inr ((h.idle hheld).2 x ?_ hgone)
    cases hentry' : entry with
    | none => exact counts_none (hnone hentry').1
    | some e' =>
      obtain ⟨e, he, hspaces, -⟩ := hentry e' hentry'
      subst hentry'
      rw [counts_some rfl, hspaces] at hx
      rw [counts_some he, hx]
  held := by
    rw [Presence.heldRight, hheld]
    trivial

/-- An entry about to be announced to some of the spaces that count it, the others of which were told of it
as it is. -/
theorem Presence.Sound.announcing (hentry : s.entry = some e) {told : List String}
    (hnow : s.held = some (.announcing e.shown told))
    (hconns : e.conns = s.conns.values.length ∧ e.mobileConns = s.conns.values.countP (·.mobile))
    (hin : ∀ x ∈ told, x ∈ e.spaces) (htold : ∀ x ∈ e.spaces, x ∈ told ∨ said s.log x = some e.shown)
    (hquiet : ∀ x ∉ e.spaces, x ∉ s.gone → Quiet s.log x) : s.Sound where
  conns found hfound := by
    obtain rfl : e = found := Option.some.inj (hentry.symm.trans hfound)
    exact hconns
  closed hclosed := by
    rw [hentry] at hclosed
    cases hclosed
  told found hfound x hx := by
    obtain rfl : e = found := Option.some.inj (hentry.symm.trans hfound)
    rw [Presence.owesOnline, hnow]
    exact (htold x hx).imp_left fun hto => ⟨rfl, hto⟩
  quiet x hx hgone := by
    rw [counts_some hentry] at hx
    exact .inr (hquiet x (by simpa using hx) hgone)
  held := by
    rw [Presence.heldRight, hnow]
    refine ⟨⟨e, hentry, rfl⟩, fun x hx => .inl ?_⟩
    rw [counts_some hentry]
    simpa using hin x hx

/-- An entry changed, and every space that counts it to be told. -/
theorem Presence.Sound.everywhere {s₀ : Presence} (h : s₀.Sound) (hheld : s₀.held = none)
    (hentry : s₀.entry = some e) (hspaces : e'.spaces = e.spaces) (hlog : s.log = s₀.log)
    (hgone : s.gone = s₀.gone)
    (hconns : e'.conns = s.conns.values.length ∧ e'.mobileConns = s.conns.values.countP (·.mobile)) :
    (s.everywhere e').Sound := by
  refine Presence.Sound.announcing rfl rfl hconns (fun x hx => hx) (fun x hx => .inl hx) fun x hx hout => ?_
  rw [show (s.everywhere e').log = s₀.log from hlog]
  refine (h.idle hheld).2 x ?_ (hgone ▸ hout)
  rw [counts_some hentry, ← hspaces]
  simpa using hx

/-- An entry dropped, and every space that counted it to be told. -/
theorem Presence.Sound.drop {s₀ : Presence} (h : s₀.Sound) (hheld : s₀.held = none)
    (hentry : s₀.entry = some e) (hspaces : e'.spaces = e.spaces) (hlog : s.log = s₀.log)
    (hgone : s.gone = s₀.gone) (hconns : s.conns.values = []) : (s.drop e').Sound where
  conns := nofun
  closed _ := hconns
  told := nofun
  quiet x _ hout := by
    by_cases hx : x ∈ e'.spaces
    · exact .inl ⟨rfl, hx⟩
    · refine .inr ?_
      rw [show (s.drop e').log = s₀.log from hlog]
      refine (h.idle hheld).2 x ?_ (hgone ▸ hout)
      rw [counts_some hentry, ← hspaces]
      simpa using hx
  held := rfl

/-- What the tracker counts of a connection's person, theirs or a new one's. -/
theorem Presence.Sound.found (h : s.Sound) (mobile : Bool) :
    (s.found mobile).conns = s.conns.values.length ∧
      (s.found mobile).mobileConns = s.conns.values.countP (·.mobile) ∧
      ∀ x, s.counts x = (s.found mobile).spaces.contains x := by
  cases hentry : s.entry with
  | none =>
    have hclosed := h.closed hentry
    refine ⟨by simp [Presence.found, hentry, hclosed], by simp [Presence.found, hentry, hclosed], fun x => ?_⟩
    rw [counts_none hentry]
    simp [Presence.found, hentry]
  | some e =>
    have hfound : s.found mobile = e := by rw [Presence.found, hentry, Option.getD_some]
    rw [hfound]
    obtain ⟨hconns, hmobile⟩ := h.conns e hentry
    exact ⟨hconns, hmobile, fun x => counts_some hentry⟩

/-- A connection made: it tells the spaces dropped, and then those added or every one. -/
theorem Presence.Sound.connecting {s₀ : Presence} (h : s₀.Sound) (hheld : s₀.held = none)
    {conn : PresenceConn} {spaceIds : List String} {mobileChanged : Bool}
    (hnew : s₀.conns.get? conn.id = none) (hlog : s.log = s₀.log)
    (hconns : s.conns = s₀.conns.set conn)
    (hgone : s.gone = s₀.gone.filter fun x => !((s₀.found conn.mobile).added spaceIds).contains x)
    (hnow : s.held = some (.connecting spaceIds ((s₀.found conn.mobile).dropped spaceIds)
      ((s₀.found conn.mobile).added spaceIds) mobileChanged))
    (hentry : s.entry = some e)
    (hcounts : e.conns = (s₀.found conn.mobile).conns + 1 ∧
      e.mobileConns = (s₀.found conn.mobile).mobileConns + conn.mobileCount)
    (hspaces : e.spaces =
      (s₀.found conn.mobile).kept spaceIds ++ (s₀.found conn.mobile).added spaceIds)
    (hshown : mobileChanged = false → e.shown = (s₀.found conn.mobile).shown) : s.Sound := by
  obtain ⟨hlength, hmobile, hfound⟩ := h.found conn.mobile
  have hvalues : s.conns.values = s₀.conns.values ++ [conn] := hconns ▸ Keyed.values_set_new hnew
  have hkept : ∀ x, x ∈ (s₀.found conn.mobile).kept spaceIds →
      s₀.counts x = true ∧ x ∉ (s₀.found conn.mobile).dropped spaceIds := by
    intro x hx
    obtain ⟨hmem, hnot⟩ := List.mem_filter.mp hx
    exact ⟨by rw [hfound x]; simpa using hmem, by simpa using hnot⟩
  refine ⟨fun found hin => ?_, fun hclosed => ?_, fun found hin x hx => ?_, fun x hx hout => ?_, ?_⟩
  · obtain rfl : e = found := Option.some.inj (hentry.symm.trans hin)
    rw [hvalues, hcounts.1, hcounts.2, hlength, hmobile, List.countP_append, List.countP_singleton]
    cases hmob : conn.mobile <;> simp [PresenceConn.mobileCount, hmob]
  · rw [hentry] at hclosed
    cases hclosed
  · obtain rfl : e = found := Option.some.inj (hentry.symm.trans hin)
    rw [Presence.owesOnline, hnow]
    rw [hspaces] at hx
    rcases List.mem_append.mp hx with hkeep | hadd
    · -- counted before: told as it is, unless every space is told again
      cases hchanged : mobileChanged with
      | true => exact .inl (.inl rfl)
      | false =>
        have hcounted := (hkept x hkeep).1
        rw [Presence.counts, Option.any_eq_true] at hcounted
        obtain ⟨e₀, he₀, hin₀⟩ := hcounted
        have hfound₀ : s₀.found conn.mobile = e₀ := by rw [Presence.found, he₀, Option.getD_some]
        rw [hlog, hshown hchanged, hfound₀]
        exact .inr ((h.idle hheld).1 e₀ he₀ x (by simpa using hin₀))
    · exact .inl (.inr hadd)
  · rw [counts_some hentry, hspaces] at hx
    simp only [List.contains_eq_mem, List.mem_append, decide_eq_false_iff_not, not_or] at hx
    have hout₀ : x ∉ s₀.gone := by
      intro hgone₀
      refine hout (hgone ▸ List.mem_filter.mpr ⟨hgone₀, ?_⟩)
      simpa using hx.2
    rw [Presence.owesOffline, hnow, hlog]
    by_cases hcounted : s₀.counts x = true
    · refine .inl ?_
      rw [hfound x] at hcounted
      by_contra hstays
      exact hx.1 (List.mem_filter.mpr ⟨by simpa using hcounted, by simpa using hstays⟩)
    · exact .inr ((h.idle hheld).2 x (by simpa using hcounted) hout₀)
  · rw [Presence.heldRight, hnow]
    refine ⟨by rw [hentry]; rfl, fun x hx => ?_⟩
    have hdropped := hx
    unfold PresenceEntry.dropped at hdropped
    split at hdropped
    next hzero =>
      have hnamed : x ∉ spaceIds := by simpa using (List.mem_filter.mp hdropped).2
      refine ⟨?_, hnamed, ?_⟩
      · rw [counts_some hentry, hspaces]
        simp only [List.contains_eq_mem, List.mem_append, decide_eq_false_iff_not, not_or]
        refine ⟨fun hkeep => (hkept x hkeep).2 hx, fun hadd => hnamed ?_⟩
        exact List.mem_dedup.mp (List.mem_filter.mp hadd).1
      · rw [hvalues, List.length_append]
        rw [hzero] at hlength
        have hempty : s₀.conns.values.length = 0 := by omega
        rw [hempty]
        rfl
    next => cases hdropped

theorem Presence.Sound.connect (h : s.Sound) (hheld : s.held = none) {conn : PresenceConn}
    (hnew : s.conns.get? conn.id = none) (spaceIds : List String) : (s.connect conn spaceIds).Sound := by
  unfold Presence.connect
  simp only
  split
  next hchanged =>
    exact h.connecting hheld hnew rfl rfl rfl rfl rfl ⟨rfl, rfl⟩ rfl fun hnot =>
      absurd (hchanged.symm.trans hnot) nofun
  next =>
    split
    · exact h.connecting hheld hnew rfl rfl rfl rfl rfl ⟨rfl, rfl⟩ rfl fun _ => rfl
    · exact h.connecting hheld hnew rfl rfl rfl rfl rfl ⟨rfl, rfl⟩ rfl fun _ => rfl

/-- What the tracker counts once a connection closed. -/
theorem Presence.Sound.closing (h : s.Sound) (hentry : s.entry = some e) {conn : PresenceConn}
    (hconn : s.conns.get? conn.id = some conn) :
    let conns := s.conns.filter fun c => c.id != conn.id
    e.conns - 1 = conns.values.length ∧
      e.mobileConns - conn.mobileCount = conns.values.countP (·.mobile) := by
  obtain ⟨hlength, hmobile⟩ := h.conns e hentry
  have hall := Keyed.countP_filter_ne (fun _ => true) hconn
  have hsome := Keyed.countP_filter_ne (·.mobile) hconn
  simp only [List.countP_true, if_true] at hall
  constructor
  · rw [hlength, hall]
    simp
  · rw [hmobile, hsome]
    cases hmob : conn.mobile <;> simp [PresenceConn.mobileCount, hmob]

theorem Presence.Sound.disconnect (h : s.Sound) (hheld : s.held = none) {conn : PresenceConn}
    (hconn : s.conns.get? conn.id = some conn) (now : Bool) : (s.disconnect conn now).Sound := by
  unfold Presence.disconnect
  cases hentry : s.entry with
  | none =>
    have hclosed := h.closed hentry
    rw [Keyed.values] at hclosed
    simp [Keyed.get?, hclosed] at hconn
  | some e =>
    obtain ⟨hlength, hmobile⟩ := h.closing hentry hconn
    simp only
    -- the entry stays, and nobody is told
    have hstays : ∀ {e' : PresenceEntry} {armed}, e'.spaces = e.spaces → e'.shown = e.shown →
        e'.conns = e.conns - 1 → e'.mobileConns = e.mobileConns - conn.mobileCount →
        ({ s with
          entry := some e', conns := s.conns.filter fun c => c.id != conn.id, armed := armed } :
            Presence).Sound := by
      intro e' armed hspaces hshown hc hm
      refine h.silent hheld (fun found hfound => ⟨e, hentry, ?_⟩) (by rintro ⟨⟩) fun found hfound => ?_ <;>
        obtain rfl : e' = found := Option.some.inj hfound
      · exact ⟨hspaces, hshown⟩
      · exact ⟨hc.trans hlength, hm.trans hmobile⟩
    split
    next =>
      split
      next => refine hstays ?_ ?_ ?_ ?_ <;> rfl
      next =>
        split
        next =>
          refine h.everywhere hheld hentry ?_ ?_ ?_ ⟨hlength, hmobile⟩ <;> rfl
        next => refine hstays ?_ ?_ ?_ ?_ <;> rfl
    next hnone =>
      have hempty : (s.conns.filter fun c => c.id != conn.id).values = [] :=
        List.eq_nil_of_length_eq_zero (by omega)
      split
      next => exact h.drop hheld hentry rfl rfl rfl hempty
      next => refine hstays ?_ ?_ ?_ ?_ <;> rfl

theorem Presence.Sound.settleNow (h : s.Sound) (hheld : s.held = none) (armed generation : Nat) :
    (s.settleNow armed generation).Sound := by
  unfold Presence.settleNow
  cases hentry : s.entry with
  | none => exact h
  | some e =>
    obtain ⟨hlength, hmobile⟩ := h.conns e hentry
    simp only
    split
    next => exact h
    next =>
      split
      next hzero =>
        exact h.drop hheld hentry rfl rfl rfl (List.eq_nil_of_length_eq_zero (by omega))
      next =>
        split
        next => exact h.everywhere hheld hentry rfl rfl rfl ⟨hlength, hmobile⟩
        next =>
          refine h.silent hheld (fun found hfound => ⟨e, hentry, ?_⟩) nofun fun found hfound => ?_ <;>
            obtain rfl := Option.some.inj hfound
          · exact ⟨rfl, rfl⟩
          · exact ⟨hlength, hmobile⟩

theorem Presence.Sound.addSpace (h : s.Sound) (hheld : s.held = none) (spaceId : String) :
    (s.addSpace spaceId).Sound := by
  unfold Presence.addSpace
  cases hentry : s.entry with
  | none => exact h
  | some e =>
    simp only
    split
    next => exact h
    next hnew =>
      refine Presence.Sound.announcing rfl rfl (h.conns e hentry) (fun x hx => List.mem_append_right _ hx)
        (fun x hx => ?_) fun x hx hout => ?_
      · rcases List.mem_append.mp hx with hold | hadded
        · exact .inr ((h.idle hheld).1 e hentry x hold)
        · exact .inl hadded
      · simp only [List.mem_append, List.mem_singleton, not_or] at hx
        refine (h.idle hheld).2 x ?_ fun hgone => hout ?_
        · rw [counts_some hentry]
          simpa using hx.1
        · exact List.mem_filter.mpr ⟨hgone, by simpa using hx.2⟩

/-- Taking someone out of a space: it is the only one no longer counted, and among those they were taken
out of. -/
theorem removeSpace_spec (hentry : s.entry = some e) (spaceId : String) :
    ∃ e' gone, s.removeSpace spaceId = { s with entry := some e', gone := gone } ∧
      e'.shown = e.shown ∧ e'.conns = e.conns ∧ e'.mobileConns = e.mobileConns ∧
      (∀ x ∈ s.gone, x ∈ gone) ∧ (∀ x ∈ e'.spaces, x ∈ e.spaces) ∧
      ∀ x ∈ e.spaces, x ∈ e'.spaces ∨ x ∈ gone := by
  refine ⟨{ e with spaces := e.spaces.filter fun x => x != spaceId },
    if e.spaces.contains spaceId then spaceId :: s.gone else s.gone, ?_, rfl, rfl, rfl, ?_, ?_, ?_⟩
  · rw [Presence.removeSpace, hentry]
  · intro x hx
    split
    · exact List.mem_cons_of_mem _ hx
    · exact hx
  · intro x hx
    exact (List.mem_filter.mp hx).1
  · intro x hx
    by_cases hxy : x = spaceId
    · subst hxy
      simp [hx]
    · exact .inl (List.mem_filter.mpr ⟨hx, bne_iff_ne.mpr hxy⟩)

/-- What the holder of the lock found stands when they are taken out of a space meanwhile. -/
theorem Presence.Sound.heldRight_removeSpace (h : s.Sound) (hentry : s.entry = some e)
    {gone : List String} (hshown : e'.shown = e.shown) (hgone : ∀ x ∈ s.gone, x ∈ gone)
    (hstill : ∀ x ∈ e'.spaces, x ∈ e.spaces) (hout : ∀ x ∈ e.spaces, x ∈ e'.spaces ∨ x ∈ gone) :
    ({ s with entry := some e', gone := gone } : Presence).heldRight := by
  have hright := h.held
  rw [Presence.heldRight] at hright ⊢
  simp only
  split at hright
  next => trivial
  next spaceIds dropped added mobileChanged _ =>
    refine ⟨rfl, fun x hx => ?_⟩
    obtain ⟨hnot, hnamed, halone⟩ := hright.2 x hx
    refine ⟨?_, hnamed, halone⟩
    rw [counts_some hentry] at hnot
    rw [counts_some rfl]
    have hnot : x ∉ e.spaces := by simpa using hnot
    simpa using fun hx => hnot (hstill x hx)
  next change spaceIds _ =>
    split
    next honline =>
      rw [if_pos honline] at hright
      obtain ⟨⟨found, hfound, hchange⟩, hspaces⟩ := hright
      obtain rfl : e = found := Option.some.inj (hentry.symm.trans hfound)
      refine ⟨⟨e', rfl, hchange.trans hshown.symm⟩, fun x hx => ?_⟩
      rw [counts_some rfl]
      rcases hspaces x hx with hcounted | hgone'
      · rw [counts_some hentry] at hcounted
        exact (hout x (by simpa using hcounted)).imp_left fun hin => by simpa using hin
      · exact .inr (hgone x hgone')
    next hoff =>
      rw [if_neg hoff, hentry] at hright
      cases hright

theorem Presence.Sound.removeSpace (h : s.Sound) (spaceId : String) : (s.removeSpace spaceId).Sound := by
  cases hentry : s.entry with
  | none =>
    rw [Presence.removeSpace, hentry]
    exact h
  | some e =>
    obtain ⟨e', gone, heq, hshown, hconns, hmobile, hgone, hstill, hout⟩ := removeSpace_spec hentry spaceId
    rw [heq]
    refine ⟨fun found hfound => ?_, nofun, fun found hfound x hx => ?_, fun x hx hnot => ?_,
      h.heldRight_removeSpace hentry hshown hgone hstill hout⟩
    · obtain rfl : e' = found := Option.some.inj hfound
      exact ⟨hconns.trans (h.conns e hentry).1, hmobile.trans (h.conns e hentry).2⟩
    · obtain rfl : e' = found := Option.some.inj hfound
      rw [hshown]
      exact h.told e hentry x (hstill x hx)
    · -- counted before, they would be out of it
      refine h.quiet x ?_ fun hin => hnot (hgone x hin)
      rw [counts_some rfl] at hx
      rw [counts_some hentry]
      have hx : x ∉ e'.spaces := by simpa using hx
      simpa using fun hin => (hout x hin).elim hx hnot

/-- Do not disturb is all that setting it changes. -/
theorem PresenceEntry.setDnd_spec (e : PresenceEntry) (on : Bool) (dndUntil : Option Nat) (now : Nat) :
    (e.setDnd on dndUntil now).spaces = e.spaces ∧ (e.setDnd on dndUntil now).mobile = e.mobile ∧
      (e.setDnd on dndUntil now).conns = e.conns ∧
      (e.setDnd on dndUntil now).mobileConns = e.mobileConns := by
  unfold PresenceEntry.setDnd
  split <;> exact ⟨rfl, rfl, rfl, rfl⟩

theorem Presence.Sound.setDnd (h : s.Sound) (hheld : s.held = none) (on : Bool) (dndUntil : Option Nat)
    (now : Nat) : (s.setDnd on dndUntil now).Sound := by
  unfold Presence.setDnd
  cases hentry : s.entry with
  | none => exact h
  | some e =>
    obtain ⟨hspaces, hmobile, hconns, hmobileConns⟩ := e.setDnd_spec on dndUntil now
    obtain ⟨hlength, hcount⟩ := h.conns e hentry
    simp only
    generalize e.setDnd on dndUntil now = e' at *
    split
    next =>
      exact h.everywhere hheld hentry hspaces rfl rfl ⟨hconns.trans hlength, hmobileConns.trans hcount⟩
    next hsame =>
      have hdnd : e.dnd = e'.dnd := by simpa using hsame
      refine h.silent hheld (fun found hfound => ⟨e, hentry, ?_⟩) nofun fun found hfound => ?_ <;>
        obtain rfl := Option.some.inj hfound
      · exact ⟨hspaces, by rw [PresenceEntry.shown, PresenceEntry.shown, hdnd, hmobile]⟩
      · exact ⟨hconns.trans hlength, hmobileConns.trans hcount⟩

theorem Presence.Sound.endDnd (h : s.Sound) (hheld : s.held = none) (atEnd : Nat) :
    (s.endDnd atEnd).Sound := by
  unfold Presence.endDnd
  cases hentry : s.entry with
  | none => exact h
  | some e =>
    simp only
    split
    next =>
      refine h.everywhere hheld hentry ?_ ?_ ?_ ?_
      · rfl
      · rfl
      · rfl
      · exact h.conns e hentry
    next => exact h

/-- A connection that told the spaces dropped: do not disturb is applied, and the rest is to be told. -/
theorem Presence.Sound.connected (h : s.Sound) {spaceIds added : List String} {mobileChanged : Bool}
    (hheld : s.held = some (.connecting spaceIds [] added mobileChanged))
    (setting : Option (Bool × Option Nat)) (now : Nat) :
    (s.connected setting now added mobileChanged).Sound := by
  have hright := h.held
  rw [Presence.heldRight, hheld] at hright
  obtain ⟨e, hentry⟩ := Option.isSome_iff_exists.mp hright.1
  have hset : ∃ e', setting.elim e (fun set => e.setDnd set.1 set.2 now) = e' ∧ e'.spaces = e.spaces ∧
      e'.mobile = e.mobile ∧ e'.conns = e.conns ∧ e'.mobileConns = e.mobileConns := by
    cases setting with
    | none => exact ⟨e, rfl, rfl, rfl, rfl, rfl⟩
    | some set => exact ⟨_, rfl, e.setDnd_spec set.1 set.2 now⟩
  obtain ⟨e', hset, hspaces, hmobile, hconns, hmobileConns⟩ := hset
  obtain ⟨hlength, hcount⟩ := h.conns e hentry
  -- no space is owed an offline any more
  have hquiet : ∀ x ∉ e'.spaces, x ∉ s.gone → Quiet s.log x := by
    intro x hx hgone
    refine (h.quiet x ?_ hgone).resolve_left ?_
    · rw [counts_some hentry, ← hspaces]
      simpa using hx
    · rw [Presence.owesOffline, hheld]
      exact List.not_mem_nil
  have hcounted : e'.conns = s.conns.values.length ∧ e'.mobileConns = s.conns.values.countP (·.mobile) :=
    ⟨hconns.trans hlength, hmobileConns.trans hcount⟩
  unfold Presence.connected
  simp only [hentry, hset]
  split
  next =>
    exact Presence.Sound.announcing rfl rfl hcounted (fun x hx => hx) (fun x hx => .inl hx) hquiet
  next hsame =>
    simp only [Bool.or_eq_true, bne_iff_ne, not_or, not_not, Bool.not_eq_true] at hsame
    have hshown : e'.shown = e.shown := by
      rw [PresenceEntry.shown, PresenceEntry.shown, ← hsame.1, hmobile]
    refine Presence.Sound.announcing rfl rfl hcounted (fun x hx => ?_) (fun x hx => ?_) hquiet
    · exact by simpa using (List.mem_filter.mp hx).2
    · rcases h.told e hentry x (hspaces ▸ hx) with howed | hsaid
      · rw [Presence.owesOnline, hheld] at howed
        have hadded : x ∈ added := howed.resolve_left (by rw [hsame.2]; rintro ⟨⟩)
        exact .inl (List.mem_filter.mpr ⟨hadded, by simpa using hx⟩)
      · exact .inr (hsaid.trans (congrArg some hshown.symm))

/-- A space that hears an offline is quiet, and the others are as they were. -/
theorem quiet_append {log : List (String × PresenceChanged)} {change : PresenceChanged} {y : String}
    (htold : x = y → change.online = false) (hbefore : x ≠ y → Quiet log y) :
    Quiet (log ++ [(x, change)]) y := by
  intro told hsaid
  rw [said_append] at hsaid
  split at hsaid
  next hxy =>
    obtain rfl := Option.some.inj hsaid
    exact htold hxy
  next hxy => exact hbefore hxy told hsaid

/-- A space dropped told: it counts the person no more. -/
theorem Presence.Sound.tellDropped (h : s.Sound) {spaceIds dropped added : List String}
    {mobileChanged : Bool} (hheld : s.held = some (.connecting spaceIds (x :: dropped) added mobileChanged)) :
    ({ s with held := some (.connecting spaceIds dropped added mobileChanged),
              log := s.log ++ [(x, offline)] } : Presence).Sound := by
  have hright := h.held
  rw [Presence.heldRight, hheld] at hright
  refine ⟨h.conns, h.closed, fun e he y hy => ?_, fun y hy hgone => ?_,
    hright.1, fun y hy => hright.2 y (List.mem_cons_of_mem _ hy)⟩
  · have hne : x ≠ y := by
      rintro rfl
      have hnot := (hright.2 x List.mem_cons_self).1
      rw [counts_some (s := s) he] at hnot
      exact absurd hy (by simpa using hnot)
    rw [said_append, if_neg hne]
    have htold := h.told e he y hy
    rwa [Presence.owesOnline, hheld] at htold
  · have hquiet := h.quiet y hy hgone
    rw [Presence.owesOffline, hheld] at hquiet
    rcases hquiet with howed | hquiet
    · rcases List.mem_cons.mp howed with rfl | hlater
      · exact .inr (quiet_append (fun _ => rfl) fun hne => absurd rfl hne)
      · exact .inl hlater
    · exact .inr (quiet_append (fun _ => rfl) fun _ => hquiet)

/-- A space of an announcement told: it counts the person and hears what they are, or it counts them no
more and hears they are offline. -/
theorem Presence.Sound.tell (h : s.Sound) {change : PresenceChanged} {spaceIds : List String}
    (hheld : s.held = some (.announcing change (x :: spaceIds))) :
    ({ s with held := some (.announcing change spaceIds), log := s.log ++ [(x, change)] } :
      Presence).Sound := by
  have hright := h.held
  rw [Presence.heldRight, hheld] at hright
  simp only at hright
  refine ⟨h.conns, h.closed, fun e he y hy => ?_, fun y hy hgone => ?_, ?_⟩
  · have htold := h.told e he y hy
    rw [Presence.owesOnline, hheld] at htold
    rw [said_append]
    by_cases hxy : x = y
    · -- told what the entry is
      rw [if_pos hxy]
      split at hright
      next =>
        obtain ⟨⟨found, hfound, hchange⟩, -⟩ := hright
        obtain rfl : e = found := Option.some.inj (he.symm.trans hfound)
        exact .inr (congrArg some hchange)
      next =>
        rw [he] at hright
        cases hright
    · rw [if_neg hxy]
      exact htold.imp_left fun howed => ⟨howed.1, (List.mem_cons.mp howed.2).resolve_left (Ne.symm hxy)⟩
  · have hquiet := h.quiet y hy hgone
    rw [Presence.owesOffline, hheld] at hquiet
    -- were it an online, the space would count them or they would be out of it
    have htold : x = y → change.online = false := by
      rintro rfl
      split at hright
      next =>
        rcases hright.2 x List.mem_cons_self with hcounted | hout
        · exact absurd (hcounted.symm.trans hy) nofun
        · exact absurd hout hgone
      next hoff => exact Bool.eq_false_iff.mpr hoff
    rcases hquiet with ⟨hoff, howed⟩ | hquiet
    · rcases List.mem_cons.mp howed with rfl | hlater
      · exact .inr (quiet_append htold fun hne => absurd rfl hne)
      · exact .inl ⟨hoff, hlater⟩
    · exact .inr (quiet_append htold fun _ => hquiet)
  · simp only [Presence.heldRight]
    split
    next honline =>
      rw [if_pos honline] at hright
      exact ⟨hright.1, fun y hy => hright.2 y (List.mem_cons_of_mem _ hy)⟩
    next hoff =>
      rw [if_neg hoff] at hright
      exact hright

/-- One space told. -/
theorem Presence.Sound.publish (h : s.Sound) (hstep : s.step .publish = some s') : s'.Sound := by
  simp only [Presence.step] at hstep
  split at hstep
  next hheld =>
    cases hstep
    exact h.tellDropped hheld
  next hheld =>
    cases hstep
    exact h.tell hheld
  next => cases hstep

/-- The lock let go: everything is told. -/
theorem Presence.Sound.release (h : s.Sound) {change : PresenceChanged}
    (hheld : s.held = some (.announcing change [])) : ({ s with held := none } : Presence).Sound where
  conns := h.conns
  closed := h.closed
  told e he x hx := by
    have htold := h.told e he x hx
    rw [Presence.owesOnline, hheld] at htold
    exact .inr (htold.resolve_left fun howed => absurd howed.2 List.not_mem_nil)
  quiet x hx hgone := by
    have hquiet := h.quiet x hx hgone
    rw [Presence.owesOffline, hheld] at hquiet
    exact .inr (hquiet.resolve_left fun howed => absurd howed.2 List.not_mem_nil)
  held := trivial

/-- **What begins sound stays sound.** -/
theorem Presence.Sound.step {a : PresenceStep} (h : s.Sound) (hstep : s.step a = some s') : s'.Sound := by
  cases a with
  | connect conn spaceIds =>
    simp only [Presence.step] at hstep
    split at hstep
    next hready =>
      simp only [Bool.and_eq_true, Option.isNone_iff_eq_none, Keyed.has, Bool.not_eq_true',
        Option.isSome_eq_false_iff] at hready
      cases hstep
      exact h.connect hready.1 hready.2 spaceIds
    next => cases hstep
  | lookup setting now =>
    simp only [Presence.step] at hstep
    split at hstep
    next hheld =>
      cases hstep
      exact h.connected hheld setting now
    next => cases hstep
  | disconnect conn now =>
    obtain ⟨c, hget, hdone⟩ := Option.bind_eq_some_iff.mp hstep
    split at hdone
    next hready =>
      cases hdone
      obtain rfl : c.id = conn := Keyed.key_of_get? hget
      exact h.disconnect (Option.isNone_iff_eq_none.mp hready) hget now
    next => cases hdone
  | fire armed generation =>
    simp only [Presence.step] at hstep
    split at hstep
    next hready =>
      simp only [Bool.and_eq_true, Option.isNone_iff_eq_none] at hready
      cases hstep
      exact h.settleNow hready.1 armed generation
    next => cases hstep
  | addSpace spaceId =>
    simp only [Presence.step] at hstep
    split at hstep
    next hready =>
      cases hstep
      exact h.addSpace (Option.isNone_iff_eq_none.mp hready) spaceId
    next => cases hstep
  | removeSpace spaceId =>
    cases hstep
    exact h.removeSpace spaceId
  | setDnd on dndUntil now =>
    simp only [Presence.step] at hstep
    split at hstep
    next hready =>
      cases hstep
      exact h.setDnd (Option.isNone_iff_eq_none.mp hready) on dndUntil now
    next => cases hstep
  | endDnd atEnd =>
    simp only [Presence.step] at hstep
    split at hstep
    next hready =>
      simp only [Bool.and_eq_true, Option.isNone_iff_eq_none] at hready
      cases hstep
      exact h.endDnd hready.1 atEnd
    next => cases hstep
  | publish => exact h.publish hstep
  | release =>
    simp only [Presence.step] at hstep
    split at hstep
    next hheld =>
      cases hstep
      exact h.release hheld
    next => cases hstep

theorem sound_newPresence (grace : Nat) : (newPresence grace).Sound :=
  ⟨nofun, fun _ => rfl, nofun, fun _ _ _ => .inr nofun, trivial⟩

/-- **The announcements match the tracker**, in every run; and an offline is announced where the person
is counted no more. -/
theorem presence_told {grace : Nat} (h : Runs Presence.step Always (newPresence grace) s) :
    PresenceTold s ∧ OfflineOnly s s.mayGoOffline := by
  have hsound : s.Sound :=
    h.keeps (sound_newPresence grace) fun _ _ _ hsound _ hstep => hsound.step hstep
  refine ⟨⟨fun hheld => (hsound.idle hheld).1, fun hheld => (hsound.idle hheld).2, hsound.conns,
    hsound.closed⟩, fun s' y told hstep hlog hoff => ?_⟩
  have hright := hsound.held
  simp only [Presence.step] at hstep
  split at hstep
  next spaceIds x dropped added mobileChanged hheld =>
    cases hstep
    obtain ⟨rfl, -⟩ : x = y ∧ offline = told := by simpa using hlog
    rw [Presence.heldRight, hheld] at hright
    obtain ⟨hcounts, hnamed, halone⟩ := hright.2 x List.mem_cons_self
    exact ⟨hcounts, .inr ⟨_, _, _, _, hheld, hnamed, halone⟩⟩
  next change x spaceIds hheld =>
    cases hstep
    obtain ⟨-, rfl⟩ : x = y ∧ change = told := by simpa using hlog
    simp only [Presence.heldRight, hheld, hoff, Bool.false_eq_true, if_false] at hright
    exact ⟨counts_none hright, .inl hright⟩
  next => cases hstep

end

/-! ## Two runs -/

/-- A connection in one space, told, and closed: its grace runs. -/
def toldAndClosed : List PresenceStep :=
  [.connect ⟨1, false⟩ ["a"], .lookup none 0, .publish, .release, .disconnect 1 false]

/-- A connection back within the grace, whose timer fires all the same: nobody is told anything, and the
person is as they were heard of. -/
theorem presence_told_back :
    let steps := toldAndClosed ++ [.connect ⟨2, false⟩ ["a"], .lookup none 0, .release, .fire 0 3]
    ∃ s, runList Presence.step (newPresence 30) steps = some s ∧
      s.log = [("a", ⟨true, false, false⟩)] ∧ PresenceTold s ∧ OfflineOnly s s.mayGoOffline := by
  intro steps
  have hlog : (runList Presence.step (newPresence 30) steps).map (·.log) =
      some [("a", ⟨true, false, false⟩)] := by decide +kernel
  obtain ⟨s, hs, hlog⟩ := Option.map_eq_some_iff.mp hlog
  exact ⟨s, hs, hlog, presence_told (.ofList _ (.always _ _) hs)⟩

/-- **An offline with a connection open**: one back within the grace finds the person gone from a
space, and says so there. -/
theorem offline_while_open :
    ¬ ∀ grace s, Runs Presence.step Always (newPresence grace) s → PresenceTold s ∧
      OfflineOnly s fun _ => s.conns.values = [] ∧ ∀ e ∈ s.entry, e.settle = false := by
  intro claim
  have hrun : ((runList Presence.step (newPresence 30) (toldAndClosed ++ [.connect ⟨2, false⟩ []])).bind
      fun s => (s.step .publish).map fun s' => (s.conns.values.length, s'.log == s.log ++ [("a", offline)])) =
        some (1, true) := by decide +kernel
  obtain ⟨s, hs, hstep⟩ := Option.bind_eq_some_iff.mp hrun
  obtain ⟨s', hs', hfound⟩ := Option.map_eq_some_iff.mp hstep
  obtain ⟨hopen, hlog⟩ := Prod.ext_iff.mp hfound
  obtain ⟨hclosed, -⟩ := (claim 30 s (.ofList _ (.always _ _) hs)).2 s' "a" offline hs' (eq_of_beq hlog) rfl
  rw [hclosed] at hopen
  cases hopen

end Stoop.Realtime
