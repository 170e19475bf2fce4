import Mathlib
import Stoop.Lib.Machine
import Stoop.Webhooks.Tables

/-!
# Fan-outs at work

`FanOutWebhookEvent` (`internal/integrations/fanout.go`) runs in one transaction: it lists its space's enabled
hooks, and for each that wants the event looks for the event's delivery, and, where there is none, takes the
hook's next number and queues one. Runs of it stand beside one another, of the same event or of others, statement
by statement: a job whose outcome was never written is run again, maybe while its first run still goes on.
`step` is one statement of one run, a run's end, or what else writes these tables: a hook made, changed or
deleted, and a test sent.

A statement sees what is committed, and what its own transaction wrote. `NextOutgoingSequence` waits until no
other transaction has the hook's row, and finds it as it was left; an insert under an id another transaction
has written waits for that one to end. A run that fails, for whatever reason, leaves nothing: what an insert
finds taken, or a number of a hook that is gone, are such reasons.

`fan_out_once` holds in every state such steps lead to.
-/

set_option autoImplicit false

namespace Stoop.Webhooks

open Stoop.Lib

variable {ι : Type}

/-! ## Runs -/

/-- How far a run is: before it lists the hooks; before the next of them; past the look for its delivery; past
taking its number. -/
inductive Phase (ι : Type)
  | begun
  | next (todo : List RowId)
  | checked (hookID : RowId) (id : ι) (todo : List RowId)
  | taken (hookID : RowId) (id : ι) (sequence : Nat) (todo : List RowId)
  deriving DecidableEq

namespace Phase

/-- The hooks the run has yet to deal with. -/
def todo : Phase ι → List RowId
  | begun => []
  | next todo => todo
  | checked hookID _ todo | taken hookID _ _ todo => hookID :: todo

def taking : Phase ι → List (Change ι)
  | taken hookID _ sequence _ => [.take hookID sequence]
  | _ => []

end Phase

/-- A run of the job: its event, what it read before its transaction, the hooks that wanted the event when it
listed them, and the deliveries it has queued. -/
structure Run (ι : Type) where
  attempt : Nat
  event : OutgoingEvent
  spaceName : Text
  host : Text
  phase : Phase ι
  wanted : List RowId
  queued : List (Delivery ι)
  deriving DecidableEq

def Run.changes (r : Run ι) : List (Change ι) := r.queued.map .deliver ++ r.phase.taking

/-- A run that returned without an error: whether outgoing webhooks were on, and the hooks that wanted its event
when it read them. -/
structure Returned where
  event : OutgoingEvent
  outgoing : Bool
  subscribed : List RowId
  deriving DecidableEq

structure World (ι : Type) where
  tables : Tables ι
  runs : Keyed (Run.attempt : Run ι → Nat)
  outgoing : Bool
  returned : List Returned

/-- Nothing yet, and outgoing webhooks on. -/
def start : World ι := ⟨⟨Keyed.empty, [], []⟩, Keyed.empty, true, []⟩

/-- `ListEnabledOutgoingWebhooksBySpace`. -/
def listEnabledOutgoingWebhooksBySpace (t : Tables ι) (spaceID : Text) : List Hook :=
  (t.hooks.values.filter fun hook => hook.spaceID == spaceID && !hook.disabled).insertionSort
    fun a b => a.id.text ≤ b.id.text

/-- The hooks an event is for. -/
def subscribed (t : Tables ι) (ev : OutgoingEvent) : List RowId :=
  ((listEnabledOutgoingWebhooksBySpace t ev.spaceID).filter fun hook => hookWants hook ev).map Hook.id

/-- Whether a run has a hook's row. -/
def Run.locks (r : Run ι) (hookID : RowId) : Bool := r.changes.any fun c => c.hookID == hookID

def World.locked (w : World ι) (hookID : RowId) : Bool := w.runs.values.any fun r => r.locks hookID

/-- Whether a run other than this one has a hook's row. -/
def World.lockedBeside (w : World ι) (attempt : Nat) (hookID : RowId) : Bool :=
  w.runs.values.any fun r => r.attempt != attempt && r.locks hookID

/-- What a run does next; `fresh` and `jobID` are ids drawn for it. -/
inductive Move (ι : Type)
  | list
  | check (fresh : ι)
  | take
  | queue (jobID : Nat)

inductive Label (ι : Type)
  | begin (attempt : Nat) (ev : OutgoingEvent) (spaceName host : Text)
  | run (attempt : Nat) (move : Move ι)
  | commit (attempt : Nat)
  | fail (attempt : Nat)
  | createHook (hook : Hook)
  | changeHook (id : RowId) (channelID : Option Text) (eventTypes : List Text) (disabled : Bool)
  | deleteHook (id : RowId)
  | testWebhook (test : Delivery ι)
  | setOutgoing (on : Bool)

section
variable [DecidableEq ι] (u : UUIDs ι)

/-- `deliveryExists`, in a run's transaction. -/
def deliveryExists (t : Tables ι) (queued : List (Delivery ι)) (id : ι) : Bool :=
  t.rows.any (fun r => r.id == id) || queued.any fun d => d.id == id

/-- Whether a run's insert under an id has its way: no row has the id, and no transaction has written one. -/
def World.inserts (w : World ι) (id : ι) : Bool :=
  !w.tables.rows.any (fun r => r.id == id) && !w.runs.values.any fun r => r.queued.any fun d => d.id == id

/-- Whether no job is for a delivery of this id. -/
def Tables.unused (t : Tables ι) (id : ι) : Bool := !t.jobs.any fun j => j.args.deliveryID == id

/-- What is so of an id as it is drawn: it is derived from nothing, and nothing has it. -/
def World.drawn (w : World ι) (id : ι) : Bool := !u.version5 id && w.tables.unused id && w.inserts id

/-- One statement of a run. -/
def Run.step (w : World ι) (r : Run ι) : Move ι → Option (Run ι)
  | .list =>
    match r.phase with
    | .begun =>
      let wanted := subscribed w.tables r.event
      some { r with phase := .next wanted, wanted }
    | _ => none
  | .check fresh =>
    match r.phase with
    | .next (hookID :: todo) =>
      if w.drawn u fresh then
        let id := eventDeliveryID u r.event hookID fresh
        if deliveryExists w.tables r.queued id then some { r with phase := .next todo }
        else some { r with phase := .checked hookID id todo }
      else none
    | _ => none
  | .take =>
    match r.phase with
    | .checked hookID id todo =>
      if w.lockedBeside r.attempt hookID then none
      else (w.tables.hooks.get? hookID).map fun hook =>
        { r with phase := .taken hookID id (hook.sequence + 1) todo }
    | _ => none
  | .queue jobID =>
    match r.phase with
    | .taken hookID id sequence todo =>
      if w.inserts id && (!r.event.eventID.isEmpty || w.tables.unused id) then
        some { r with
          phase := .next todo
          queued := r.queued ++ [⟨id, hookID, r.event, r.spaceName, r.host, sequence, jobID⟩] }
      else none
    | _ => none

/-- A run's transaction commits: its deliveries take effect, and it returns. -/
def World.commit (w : World ι) (r : Run ι) : World ι where
  tables := (discipline u).applyAll w.tables r.changes
  runs := w.runs.filter fun r' => r'.attempt != r.attempt
  outgoing := w.outgoing
  returned := w.returned ++ [⟨r.event, true, r.wanted⟩]

/-- `TestWebhook`'s transaction, as it commits: a delivery under a random id, of no event. -/
def World.test (w : World ι) (test : Delivery ι) : Option (World ι) := do
  let hook ← w.tables.hooks.get? test.hookID
  if !hook.disabled && w.outgoing && !w.locked hook.id && test.event.eventID.isEmpty && w.drawn u test.id &&
    test.sequence == hook.sequence + 1 then some { w with tables := w.tables.apply (.deliver test) }
  else none

def step (w : World ι) : Label ι → Option (World ι)
  | .begin attempt ev spaceName host =>
    if w.outgoing then
      if w.runs.has attempt then none
      else some { w with runs := w.runs.set ⟨attempt, ev, spaceName, host, .begun, [], []⟩ }
    else some { w with returned := w.returned ++ [⟨ev, false, subscribed w.tables ev⟩] }
  | .commit attempt => do
    let r ← w.runs.get? attempt
    if r.phase = .next [] then some (w.commit u r) else none
  | .fail attempt => some { w with runs := w.runs.filter fun r => r.attempt != attempt }
  | .createHook hook =>
    if w.tables.hooks.has hook.id || w.tables.jobs.any (fun j => j.args.hookID == hook.id) ||
      hook.sequence != 0 then none
    else some { w with tables := { w.tables with hooks := w.tables.hooks.set hook } }
  | .changeHook id channelID eventTypes disabled =>
    if w.locked id then none
    else some { w with tables := { w.tables with
      hooks := w.tables.hooks.map
        (fun hook => if hook.id = id then { hook with channelID, eventTypes, disabled } else hook)
        fun hook => by split <;> rfl } }
  | .deleteHook id =>
    if w.locked id then none
    else some { w with tables := { w.tables with
      hooks := w.tables.hooks.filter fun hook => hook.id != id
      rows := w.tables.rows.filter fun r => r.webhookID != id } }
  | .testWebhook test => w.test u test
  | .setOutgoing on => some { w with outgoing := on }
  | .run attempt move => do
    let r ← w.runs.get? attempt
    let r' ← r.step u w move
    some { w with runs := w.runs.set r' }

end

/-! ## What every run keeps -/

/-- A delivery's event is the one a run fans out: of its id, or, if it has none, itself. -/
def Same (ev source : OutgoingEvent) : Prop := source.eventID = ev.eventID ∧ (ev.eventID = [] → source = ev)

/-- A job is there for an event and a hook. -/
def Told (t : Tables ι) (ev : OutgoingEvent) (hookID : RowId) : Prop :=
  ∃ j ∈ t.jobs, j.args.hookID = hookID ∧ Same ev j.source

/-- What is so of a run at work: the hooks it has dealt with have their jobs, or will; its ids are those of its
event and their hooks; and it deals with each hook once. -/
structure Run.Follows (u : UUIDs ι) (t : Tables ι) (r : Run ι) : Prop where
  covers : ∀ h ∈ r.wanted, h ∈ r.phase.todo ∨ h ∈ r.queued.map Delivery.hookID ∨ Told t r.event h
  named : ∀ h id todo, r.phase = .checked h id todo ∨ (∃ n, r.phase = .taken h id n todo) → Named u r.event h id
  events : ∀ d ∈ r.queued, d.event = r.event
  once : (r.phase.todo ++ r.queued.map Delivery.hookID).Nodup
  unlisted : r.phase = .begun → r.queued = []

structure World.Kept [DecidableEq ι] (u : UUIDs ι) (w : World ι) : Prop where
  orderly : Orderly (discipline u) Run.changes w.tables w.runs
  follows : ∀ r ∈ w.runs.values, r.Follows u w.tables
  returned : ∀ ret ∈ w.returned, ret.outgoing = true → ∀ h ∈ ret.subscribed, Told w.tables ret.event h

theorem subscribed_nodup (t : Tables ι) (ev : OutgoingEvent) : (subscribed t ev).Nodup := by
  have hsublist : ((t.hooks.values.filter fun hook => hook.spaceID == ev.spaceID && !hook.disabled).map
      Hook.id).Nodup := t.hooks.nodup.sublist (List.filter_sublist.map Hook.id)
  have hperm := List.perm_insertionSort (fun a b : Hook => a.id.text ≤ b.id.text)
    (t.hooks.values.filter fun hook => hook.spaceID == ev.spaceID && !hook.disabled)
  exact ((hperm.map Hook.id).nodup_iff.mpr hsublist).sublist (List.filter_sublist.map Hook.id)

/-- Jobs stay, and who has been told. -/
theorem Told.mono {t t' : Tables ι} {ev : OutgoingEvent} {h : RowId} (hjobs : ∀ j ∈ t.jobs, j ∈ t'.jobs)
    (told : Told t ev h) : Told t' ev h := by
  obtain ⟨j, hj, hrest⟩ := told
  exact ⟨j, hjobs j hj, hrest⟩

theorem Run.Follows.mono {u : UUIDs ι} {t t' : Tables ι} {r : Run ι} (hjobs : ∀ j ∈ t.jobs, j ∈ t'.jobs)
    (h : r.Follows u t) : r.Follows u t' where
  covers := fun hook hmem => (h.covers hook hmem).imp_right (·.imp_right (.mono hjobs))
  named := h.named
  events := h.events
  once := h.once
  unlisted := h.unlisted

section
variable {u : UUIDs ι} {t : Tables ι} {r : Run ι}

theorem mem_set {runs : Keyed (Run.attempt : Run ι → Nat)} {r' s : Run ι} (hs : s ∈ (runs.set r').values) :
    s = r' ∨ s ∈ runs.values := by
  rcases Keyed.get?_set_cases (Keyed.mem_values.mp hs) with ⟨_, heq⟩ | ⟨_, hold⟩
  · exact .inl heq.symm
  · exact .inr (Keyed.mem_values.mpr hold)

theorem not_locks_of_unlocked {w : World ι} {hookID : RowId} (h : w.locked hookID = false) {s : Run ι}
    (hs : s ∈ w.runs.values) {c : Change ι}
    (hc : c ∈ s.changes) : c.hookID ≠ hookID := by
  intro heq
  have hlocks := List.any_eq_false.mp h s hs
  exact hlocks (List.any_eq_true.mpr ⟨c, hc, beq_iff_eq.mpr heq⟩)

/-- Where a row has an event's id for a hook, a job was queued for them. -/
theorem told_of_row (sound : Sound u t) {ev : OutgoingEvent} {h : RowId} {id : ι} (hnamed : Named u ev h id)
    (hev : ev.eventID ≠ []) {row : Row ι} (hrow : row ∈ t.rows) (hid : row.id = id) : Told t ev h := by
  obtain ⟨j, hj, hargs, -, -⟩ := sound.job_of_row hrow
  have hdelivery : j.args.deliveryID = id := (congrArg DeliveryArgs.deliveryID hargs).trans hid
  obtain ⟨hevent, hhook⟩ := hnamed.inj (hdelivery ▸ sound.named j hj) hev
  exact ⟨j, hj, hhook, hevent, fun hnone => absurd hnone hev⟩

theorem mem_changes {c : Change ι} : c ∈ r.changes ↔ (∃ d ∈ r.queued, c = .deliver d) ∨ c ∈ r.phase.taking := by
  rw [Run.changes, List.mem_append, List.mem_map]
  exact or_congr_left ⟨fun ⟨d, hd, heq⟩ => ⟨d, hd, heq.symm⟩, fun ⟨d, hd, heq⟩ => ⟨d, hd, heq.symm⟩⟩

/-- What brings a delivery is one that is queued. -/
theorem queued_of_id {c : Change ι} {id : ι} (hc : c ∈ r.changes) (hid : c.id? = some id) :
    ∃ d ∈ r.queued, c = .deliver d ∧ d.id = id := by
  rcases mem_changes.mp hc with ⟨d, hd, rfl⟩ | htaking
  · exact ⟨d, hd, rfl, Option.some.inj hid⟩
  · cases hphase : r.phase with
    | taken hookID _ sequence _ =>
      rw [hphase] at htaking
      rw [List.mem_singleton.mp htaking] at hid
      contradiction
    | _ =>
      rw [hphase] at htaking
      contradiction

end

section
variable [DecidableEq ι] {u : UUIDs ι} {t : Tables ι} {w w' : World ι} {r r' : Run ι}

theorem jobs_apply (t : Tables ι) (d : Delivery ι) : (t.apply (.deliver d)).jobs = t.jobs ++ [d.job] := rfl

/-- The jobs a commit leaves: those there were, and those of its deliveries. -/
theorem jobs_applyAll (t : Tables ι) (ds : List (Delivery ι)) :
    ((discipline u).applyAll t (ds.map .deliver)).jobs = t.jobs ++ ds.map Delivery.job := by
  induction ds generalizing t with
  | nil => rw [List.map_nil, List.map_nil, List.append_nil]; rfl
  | cons d ds ih =>
    rw [List.map_cons, List.map_cons, Discipline.applyAll, List.foldl_cons, ← Discipline.applyAll, ih]
    change (t.apply (.deliver d)).jobs ++ _ = _
    rw [jobs_apply, List.append_assoc, List.singleton_append]

theorem version5_of_drawn {id : ι} (h : w.drawn u id = true) : u.version5 id = false := by
  simp only [World.drawn, Bool.and_eq_true, Bool.not_eq_true'] at h
  exact h.1.1

theorem unused_of_drawn {id : ι} (h : w.drawn u id = true) : ∀ j ∈ w.tables.jobs, j.args.deliveryID ≠ id := by
  simp only [World.drawn, Tables.unused, Bool.and_eq_true, Bool.not_eq_true', List.any_eq_false, beq_iff_eq] at h
  exact h.1.2

theorem inserts_of_drawn {id : ι} (h : w.drawn u id = true) : w.inserts id = true := by
  simp only [World.drawn, Bool.and_eq_true] at h
  exact h.2

/-- Where an insert has its way, no row has the id, and nothing queued has. -/
theorem inserts_iff {id : ι} : w.inserts id = true ↔
    (∀ row ∈ w.tables.rows, row.id ≠ id) ∧ ∀ r ∈ w.runs.values, ∀ d ∈ r.queued, d.id ≠ id := by
  simp only [World.inserts, Bool.and_eq_true, Bool.not_eq_true', List.any_eq_false, beq_iff_eq, List.any_eq_true,
    not_exists, not_and]

/-! ## One statement of a run -/

/-- **What a run's statement does.** -/
theorem Run.step_cases {move : Move ι} (h : r.step u w move = some r') :
    (r.phase = .begun ∧
      r' = { r with phase := .next (subscribed w.tables r.event), wanted := subscribed w.tables r.event }) ∨
    (∃ hookID todo id, r.phase = .next (hookID :: todo) ∧ Named u r.event hookID id ∧
      (deliveryExists w.tables r.queued id = true ∧ (r.event.eventID = [] → w.drawn u id = true) ∧
          r' = { r with phase := .next todo } ∨
        r' = { r with phase := .checked hookID id todo })) ∨
    (∃ hookID id todo hook, r.phase = .checked hookID id todo ∧ w.lockedBeside r.attempt hookID = false ∧
      w.tables.hooks.get? hookID = some hook ∧
      r' = { r with phase := .taken hookID id (hook.sequence + 1) todo }) ∨
    ∃ hookID id sequence todo jobID, r.phase = .taken hookID id sequence todo ∧ w.inserts id = true ∧
      (r.event.eventID ≠ [] ∨ w.tables.unused id = true) ∧
      r' = { r with
        phase := .next todo
        queued := r.queued ++ [⟨id, hookID, r.event, r.spaceName, r.host, sequence, jobID⟩] } := by
  cases move with
  | list =>
    rw [Run.step] at h
    split at h
    next hphase => exact .inl ⟨hphase, (Option.some.inj h).symm⟩
    next => contradiction
  | check fresh =>
    rw [Run.step] at h
    split at h
    next hookID todo hphase =>
      split at h
      next hdrawn =>
        have hnamed := named_eventDeliveryID (version5_of_drawn hdrawn) r.event hookID
        refine .inr (.inl ⟨hookID, todo, _, hphase, hnamed, ?_⟩)
        dsimp only at h
        split at h
        next hexists =>
          refine .inl ⟨hexists, fun hev => ?_, (Option.some.inj h).symm⟩
          rwa [eventDeliveryID, if_pos hev]
        next => exact .inr (Option.some.inj h).symm
      next => contradiction
    next => contradiction
  | take =>
    rw [Run.step] at h
    split at h
    next hookID id todo hphase =>
      split at h
      next => contradiction
      next hlocked =>
        obtain ⟨hook, hhook, heq⟩ := Option.map_eq_some_iff.mp h
        exact .inr (.inr (.inl ⟨hookID, id, todo, hook, hphase, eq_false_of_ne_true hlocked, hhook, heq.symm⟩))
    next => contradiction
  | queue jobID =>
    rw [Run.step] at h
    split at h
    next hookID id sequence todo hphase =>
      split at h
      next hguard =>
        obtain ⟨hinserts, hdrawn⟩ := Bool.and_eq_true_iff.mp hguard
        refine .inr (.inr (.inr ⟨hookID, id, sequence, todo, jobID, hphase, hinserts, ?_,
          (Option.some.inj h).symm⟩))
        rcases Bool.or_eq_true_iff.mp hdrawn with hev | hunused
        · exact .inl (by simpa using hev)
        · exact .inr hunused
      next => contradiction
    next => contradiction

/-- A run that has written what it had keeps out of the others' way as it did. -/
theorem orderly_same (h : Orderly (discipline u) Run.changes t w.runs) (hr : r ∈ w.runs.values)
    (hattempt : r'.attempt = r.attempt) (hchanges : r'.changes = r.changes) :
    Orderly (discipline u) Run.changes t (w.runs.set r') := by
  refine h.set ?_ ?_ ?_
  · rw [hchanges]
    exact h.fits r hr
  · rw [hchanges]
    exact h.within r hr
  · intro s hs hne c hc d hd
    rw [hchanges] at hd
    exact h.across s hs r hr (hattempt ▸ hne) c hc d hd

/-- A run's statement that brings changes of its own. -/
theorem World.Kept.set (kept : w.Kept u)
    (orderly : Orderly (discipline u) Run.changes w.tables (w.runs.set r')) (follows : r'.Follows u w.tables) :
    World.Kept u { w with runs := w.runs.set r' } where
  orderly := orderly
  follows := fun s hs => (mem_set hs).elim (fun heq => heq ▸ follows) (kept.follows s)
  returned := kept.returned

section
variable {hookID : RowId} {id : ι} {sequence : Nat} {todo : List RowId}

theorem kept_list (kept : w.Kept u) (hr : r ∈ w.runs.values) (hphase : r.phase = .begun)
    (hr' : r' = { r with phase := .next (subscribed w.tables r.event), wanted := subscribed w.tables r.event }) :
    World.Kept u { w with runs := w.runs.set r' } := by
  have follows := kept.follows r hr
  have hqueued := follows.unlisted hphase
  subst hr'
  refine kept.set (orderly_same kept.orderly hr rfl ?_) ⟨fun h hh => .inl hh, ?_, follows.events, ?_, nofun⟩
  · simp only [Run.changes, hphase, Phase.taking]
  · rintro h id todo (hnext | ⟨n, hnext⟩) <;> contradiction
  · dsimp only [Phase.todo]
    rw [hqueued, List.map_nil, List.append_nil]
    exact subscribed_nodup _ _

/-- The event's delivery is there, or was just queued: the run goes on to the next hook. -/
theorem kept_skip (kept : w.Kept u) (hr : r ∈ w.runs.values) (hphase : r.phase = .next (hookID :: todo))
    (hnamed : Named u r.event hookID id) (hexists : deliveryExists w.tables r.queued id = true)
    (hdrawn : r.event.eventID = [] → w.drawn u id = true) (hr' : r' = { r with phase := .next todo }) :
    World.Kept u { w with runs := w.runs.set r' } := by
  have follows := kept.follows r hr
  have hsound : Sound u w.tables := kept.orderly.sound
  have hfound : hookID ∈ r.queued.map Delivery.hookID ∨ Told w.tables r.event hookID := by
    have hev : r.event.eventID ≠ [] := by
      intro hev
      obtain ⟨hrows, hqueued⟩ := inserts_iff.mp (inserts_of_drawn (hdrawn hev))
      rcases Bool.or_eq_true_iff.mp hexists with hany | hany
      · obtain ⟨row, hrow, hid⟩ := List.any_eq_true.mp hany
        exact hrows row hrow (eq_of_beq hid)
      · obtain ⟨d, hd, hid⟩ := List.any_eq_true.mp hany
        exact hqueued r hr d hd (eq_of_beq hid)
    rcases Bool.or_eq_true_iff.mp hexists with hany | hany
    · obtain ⟨row, hrow, hid⟩ := List.any_eq_true.mp hany
      exact .inr (told_of_row hsound hnamed hev hrow (eq_of_beq hid))
    · obtain ⟨d, hd, hid⟩ := List.any_eq_true.mp hany
      have hfits : Fits u w.tables (.deliver d) :=
        kept.orderly.fits r hr _ (mem_changes.mpr (.inl ⟨d, hd, rfl⟩))
      have hd_named := hfits.named d rfl
      rw [eq_of_beq hid] at hd_named
      exact .inl (List.mem_map.mpr ⟨d, hd, (hnamed.inj hd_named hev).2⟩)
  have honce := follows.once
  rw [hphase] at honce
  subst hr'
  refine kept.set (orderly_same kept.orderly hr rfl ?_) ⟨fun h hh => ?_, ?_, follows.events, ?_, nofun⟩
  · simp only [Run.changes, hphase, Phase.taking]
  · have hcovers := follows.covers h hh
    rw [hphase] at hcovers
    rcases hcovers with htodo | hrest
    · rcases List.mem_cons.mp htodo with rfl | htodo
      · exact .inr hfound
      · exact .inl htodo
    · exact .inr hrest
  · rintro h id todo (hnext | ⟨n, hnext⟩) <;> contradiction
  · exact (List.nodup_cons.mp honce).2

theorem kept_checked (kept : w.Kept u) (hr : r ∈ w.runs.values) (hphase : r.phase = .next (hookID :: todo))
    (hnamed : Named u r.event hookID id) (hr' : r' = { r with phase := .checked hookID id todo }) :
    World.Kept u { w with runs := w.runs.set r' } := by
  have follows := kept.follows r hr
  subst hr'
  refine kept.set (orderly_same kept.orderly hr rfl ?_) ⟨fun h hh => ?_, ?_, follows.events, ?_, nofun⟩
  · simp only [Run.changes, hphase, Phase.taking]
  · have hcovers := follows.covers h hh
    rwa [hphase] at hcovers
  · rintro h id' todo' (hnext | ⟨n, hnext⟩)
    · obtain ⟨rfl, rfl, rfl⟩ := Phase.checked.inj hnext
      exact hnamed
    · contradiction
  · have honce := follows.once
    rwa [hphase] at honce

/-- A run takes a hook's next number: the hook's row is no other run's. -/
theorem kept_take (kept : w.Kept u) (hr : r ∈ w.runs.values) (hphase : r.phase = .checked hookID id todo)
    (hfree : w.lockedBeside r.attempt hookID = false) {hook : Hook}
    (hhook : w.tables.hooks.get? hookID = some hook)
    (hr' : r' = { r with phase := .taken hookID id (hook.sequence + 1) todo }) :
    World.Kept u { w with runs := w.runs.set r' } := by
  have follows := kept.follows r hr
  have hold : r.changes = r.queued.map .deliver := by
    simp only [Run.changes, hphase, Phase.taking, List.append_nil]
  have hnew : r'.changes = r.changes ++ [.take hookID (hook.sequence + 1)] := by
    rw [hold, hr']
    rfl
  have honce := follows.once
  rw [hphase, Phase.todo, List.cons_append, List.nodup_cons] at honce
  have hcases : ∀ c ∈ r'.changes, c ∈ r.changes ∨ c = .take hookID (hook.sequence + 1) := by
    intro c hc
    rw [hnew, List.mem_append, List.mem_singleton] at hc
    exact hc
  have horderly : Orderly (discipline u) Run.changes w.tables (w.runs.set r') := by
    refine kept.orderly.set (fun c hc => ?_) ?_ fun s hs hne c hc d hd => ?_
    · rcases hcases c hc with hc | rfl
      · exact kept.orderly.fits r hr c hc
      · exact ⟨⟨hook, hhook, rfl⟩, nofun, nofun⟩
    · rw [hnew]
      refine List.pairwise_append.mpr ⟨kept.orderly.within r hr, List.pairwise_singleton _ _, fun c hc d hd => ?_⟩
      rw [List.mem_singleton.mp hd]
      rw [hold] at hc
      obtain ⟨v, hv, rfl⟩ := List.mem_map.mp hc
      refine apart_of_hooks (fun heq => honce.1 ?_) (.inr rfl)
      exact List.mem_append_right _ (List.mem_map.mpr ⟨v, hv, heq⟩)
    · have hne' : s.attempt ≠ r.attempt := by rwa [hr'] at hne
      rcases hcases d hd with hd | rfl
      · exact kept.orderly.across s hs r hr hne' c hc d hd
      · refine apart_of_hooks (fun heq => ?_) (.inr rfl)
        have hlocks := List.any_eq_false.mp hfree s hs
        rw [Bool.and_eq_true, bne_iff_ne] at hlocks
        exact hlocks ⟨hne', List.any_eq_true.mpr ⟨c, hc, beq_iff_eq.mpr heq⟩⟩
  refine kept.set horderly ?_
  subst hr'
  refine ⟨fun h hh => ?_, ?_, follows.events, ?_, nofun⟩
  · have hcovers := follows.covers h hh
    rwa [hphase] at hcovers
  · rintro h id' todo' (hnext | ⟨n, hnext⟩)
    · contradiction
    · obtain ⟨rfl, rfl, rfl, rfl⟩ := Phase.taken.inj hnext
      exact follows.named _ _ _ (.inl hphase)
  · exact List.nodup_cons.mpr honce

/-- No job is for the delivery a run queues: of an event with an id, it would be this hook's, whose jobs have
their rows. -/
theorem jobs_fresh (sound : Sound u w.tables) (hnamed : Named u r.event hookID id)
    (hhook : w.tables.hooks.has hookID = true) (hinserts : w.inserts id = true)
    (hunused : r.event.eventID ≠ [] ∨ w.tables.unused id = true) :
    ∀ j ∈ w.tables.jobs, j.args.deliveryID ≠ id := by
  intro j hj heq
  rcases hunused with hev | hunused
  · obtain ⟨-, hsame⟩ := hnamed.inj (heq ▸ sound.named j hj) hev
    obtain ⟨row, hrow, hargs, -, -⟩ := sound.row_of_job hj (hsame ▸ hhook)
    exact (inserts_iff.mp hinserts).1 row hrow ((congrArg DeliveryArgs.deliveryID hargs).trans heq)
  · simp only [Tables.unused, Bool.not_eq_true', List.any_eq_false, beq_iff_eq] at hunused
    exact hunused j hj heq

/-- A run queues the delivery it has the number for. -/
theorem kept_queue (kept : w.Kept u) (hr : r ∈ w.runs.values) (hphase : r.phase = .taken hookID id sequence todo)
    (hinserts : w.inserts id = true) (hunused : r.event.eventID ≠ [] ∨ w.tables.unused id = true)
    {v : Delivery ι} (hv : v.id = id ∧ v.hookID = hookID ∧ v.event = r.event ∧ v.sequence = sequence)
    (hr' : r' = { r with phase := .next todo, queued := r.queued ++ [v] }) :
    World.Kept u { w with runs := w.runs.set r' } := by
  obtain ⟨rfl, rfl, hevent, rfl⟩ := hv
  have follows := kept.follows r hr
  have hsound : Sound u w.tables := kept.orderly.sound
  have hold : r.changes = r.queued.map .deliver ++ [.take v.hookID v.sequence] := by
    simp only [Run.changes, hphase, Phase.taking]
  have hnew : r'.changes = r.queued.map .deliver ++ [.deliver v] := by
    rw [hr']
    simp only [Run.changes, Phase.taking, List.map_append, List.map_cons, List.map_nil, List.append_nil]
  have htook : .take v.hookID v.sequence ∈ r.changes := by
    rw [hold]
    exact List.mem_append_right _ List.mem_cons_self
  have hcases : ∀ c ∈ r'.changes, c ∈ r.changes ∨ c = .deliver v := by
    intro c hc
    rw [hnew, List.mem_append, List.mem_singleton] at hc
    rw [hold, List.mem_append]
    exact hc.imp_left .inl
  have hnamed : Named u r.event v.hookID v.id := follows.named _ _ _ (.inr ⟨_, hphase⟩)
  have htakes : Fits u w.tables (.take v.hookID v.sequence) := kept.orderly.fits r hr _ htook
  have hfits : Fits u w.tables (.deliver v) := by
    obtain ⟨hook, hhook, hnumber⟩ := htakes.numbered
    have hfresh := jobs_fresh hsound hnamed (Keyed.has_eq_true.mpr ⟨hook, hhook⟩) hinserts hunused
    refine ⟨⟨hook, hhook, hnumber⟩, fun id hid => Option.some.inj hid ▸ hfresh, fun d hd => ?_⟩
    obtain rfl := Change.deliver.inj hd
    exact hevent ▸ hnamed
  -- who is apart from the number taken is apart from the delivery: no other has its id
  have hapart : ∀ s ∈ w.runs.values, ∀ c ∈ s.changes,
      c.Apart (.take v.hookID v.sequence) → c.Apart (.deliver v) := by
    intro s hs c hc htake
    refine ⟨htake.1, fun id hid hsame => ?_⟩
    obtain ⟨d, hd, -, hdid⟩ := queued_of_id hc hid
    exact (inserts_iff.mp hinserts).2 s hs d hd (hdid.trans (Option.some.inj hsame).symm)
  have horderly : Orderly (discipline u) Run.changes w.tables (w.runs.set r') := by
    refine kept.orderly.set (fun c hc => ?_) ?_ fun s hs hne c hc d hd => ?_
    · rcases hcases c hc with hc | rfl
      · exact kept.orderly.fits r hr c hc
      · exact hfits
    · have hwithin := kept.orderly.within r hr
      rw [hold] at hwithin
      obtain ⟨hqueued, -, hcross⟩ := List.pairwise_append.mp hwithin
      rw [hnew]
      refine List.pairwise_append.mpr ⟨hqueued, List.pairwise_singleton _ _, fun c hc d hd => ?_⟩
      rw [List.mem_singleton.mp hd]
      exact hapart r hr c (by rw [hold]; exact List.mem_append_left _ hc) (hcross c hc _ List.mem_cons_self)
    · have hne' : s.attempt ≠ r.attempt := by rwa [hr'] at hne
      rcases hcases d hd with hd | rfl
      · exact kept.orderly.across s hs r hr hne' c hc d hd
      · exact hapart s hs c hc (kept.orderly.across s hs r hr hne' c hc _ htook)
  refine kept.set horderly ?_
  have honce := follows.once
  rw [hphase, Phase.todo, List.cons_append] at honce
  subst hr'
  refine ⟨fun h hh => ?_, ?_, fun d hd => ?_, ?_, nofun⟩
  · have hcovers := follows.covers h hh
    rw [hphase, Phase.todo, List.mem_cons] at hcovers
    dsimp only [Phase.todo]
    rw [List.map_append, List.mem_append, List.map_singleton, List.mem_singleton]
    tauto
  · rintro h id' todo' (hnext | ⟨n, hnext⟩) <;> contradiction
  · rcases List.mem_append.mp hd with hd | hd
    · exact follows.events d hd
    · rw [List.mem_singleton.mp hd]
      exact hevent
  · dsimp only [Phase.todo]
    rw [List.map_append, List.map_singleton, ← List.append_assoc]
    exact (List.perm_append_singleton v.hookID _).nodup_iff.mpr honce

/-- **A run commits**: every hook that wanted its event has its job. -/
theorem kept_commit (kept : w.Kept u) (hr : r ∈ w.runs.values) (hphase : r.phase = .next []) :
    World.Kept u (w.commit u r) := by
  have follows := kept.follows r hr
  have hchanges : r.changes = r.queued.map .deliver := by
    simp only [Run.changes, hphase, Phase.taking, List.append_nil]
  have hjobs : (w.commit u r).tables.jobs = w.tables.jobs ++ r.queued.map Delivery.job := by
    simp only [World.commit, hchanges, jobs_applyAll]
  have hmono : ∀ j ∈ w.tables.jobs, j ∈ (w.commit u r).tables.jobs := by
    intro j hj
    rw [hjobs]
    exact List.mem_append_left _ hj
  refine ⟨kept.orderly.commit hr, fun s hs => (kept.follows s (List.mem_of_mem_filter hs)).mono hmono,
    fun ret hret hon h hh => ?_⟩
  rcases List.mem_append.mp hret with hret | hret
  · exact (kept.returned ret hret hon h hh).mono hmono
  · obtain rfl := List.mem_singleton.mp hret
    have hcovers := follows.covers h hh
    rw [hphase] at hcovers
    rcases hcovers with htodo | hqueued | told
    · exact absurd htodo List.not_mem_nil
    · obtain ⟨d, hd, rfl⟩ := List.mem_map.mp hqueued
      refine ⟨d.job, ?_, rfl, ?_⟩
      · rw [hjobs]
        exact List.mem_append_right _ (List.mem_map_of_mem hd)
      · have hevent : d.job.source = r.event := follows.events d hd
        exact ⟨congrArg OutgoingEvent.eventID hevent, fun _ => hevent⟩
    · exact told.mono hmono

/-! ## What else writes the tables -/

/-- Other tables that are sound, that every run's changes fit, and that have all the jobs. -/
theorem kept_tables {t : Tables ι} (kept : w.Kept u) (sound : Sound u t) (hjobs : ∀ j ∈ w.tables.jobs, j ∈ t.jobs)
    (hfits : ∀ s ∈ w.runs.values, ∀ c ∈ s.changes, Fits u w.tables c → Fits u t c) :
    World.Kept u { w with tables := t } where
  orderly := ⟨sound, fun s hs c hc => hfits s hs c hc (kept.orderly.fits s hs c hc), kept.orderly.within,
    kept.orderly.across⟩
  follows := fun s hs => (kept.follows s hs).mono hjobs
  returned := fun ret hret hon h hh => (kept.returned ret hret hon h hh).mono hjobs

theorem kept_createHook (kept : w.Kept u) {hook : Hook} (hnew : w.tables.hooks.has hook.id = false)
    (hjobs : ∀ j ∈ w.tables.jobs, j.args.hookID ≠ hook.id) :
    World.Kept u { w with tables := { w.tables with hooks := w.tables.hooks.set hook } } := by
  have hother : ∀ k, k ≠ hook.id → (w.tables.hooks.set hook).get? k = w.tables.hooks.get? k := by
    intro k hk
    rw [Keyed.get?_set, if_neg hk.symm]
  refine kept_tables kept (Sound.hooks kept.orderly.sound (fun j hj => ?_) fun j hj found hfound => ?_)
    (fun _ hj => hj) fun s hs c hc fits => ⟨?_, fits.fresh, fits.named⟩
  · rw [Keyed.has, Keyed.has, hother _ (hjobs j hj)]
  · rw [hother _ (hjobs j hj)] at hfound
    exact ⟨found, hfound, rfl⟩
  · obtain ⟨found, hfound, hnumber⟩ := fits.numbered
    refine ⟨found, ?_, hnumber⟩
    rwa [hother]
    intro heq
    have hhas := Keyed.has_eq_true.mpr ⟨found, hfound⟩
    rw [heq, hnew] at hhas
    contradiction

/-- A hook's settings, but for its number, are changed. -/
theorem kept_changeHook (kept : w.Kept u) (f : Hook → Hook) (hid : ∀ hook, (f hook).id = hook.id)
    (hsequence : ∀ hook, (f hook).sequence = hook.sequence) :
    World.Kept u { w with tables := { w.tables with hooks := w.tables.hooks.map f hid } } := by
  refine kept_tables kept (Sound.hooks kept.orderly.sound (fun j _ => ?_) fun j _ found hfound => ?_)
    (fun _ hj => hj) fun s hs c hc fits => ⟨?_, fits.fresh, fits.named⟩
  · rw [Keyed.has, Keyed.get?_map, Option.isSome_map, Keyed.has]
  · rw [Keyed.get?_map, Option.map_eq_some_iff] at hfound
    obtain ⟨old, hold, rfl⟩ := hfound
    exact ⟨old, hold, (hsequence old).symm⟩
  · obtain ⟨found, hfound, hnumber⟩ := fits.numbered
    refine ⟨f found, ?_, hnumber.trans (by rw [hsequence])⟩
    rw [Keyed.get?_map, hfound, Option.map_some]

theorem kept_deleteHook (kept : w.Kept u) {id : RowId} (hfree : w.locked id = false) :
    World.Kept u { w with tables := { w.tables with
      hooks := w.tables.hooks.filter fun hook => hook.id != id
      rows := w.tables.rows.filter fun r => r.webhookID != id } } := by
  refine kept_tables kept (sound_deleteHook kept.orderly.sound id) (fun _ hj => hj)
    fun s hs c hc fits => ⟨?_, fits.fresh, fits.named⟩
  obtain ⟨found, hfound, hnumber⟩ := fits.numbered
  refine ⟨found, ?_, hnumber⟩
  rw [Keyed.get?_filter_ne, if_neg (not_locks_of_unlocked hfree hs hc), hfound]

theorem kept_test (kept : w.Kept u) {test : Delivery ι} (hw : w.test u test = some w') : w'.Kept u := by
  obtain ⟨hook, hhook, hrest⟩ := Option.bind_eq_some_iff.mp hw
  obtain ⟨hguard, ⟨⟩⟩ := Option.ite_none_right_eq_some.mp hrest
  simp only [Bool.and_eq_true, Bool.not_eq_true', beq_iff_eq, List.isEmpty_iff] at hguard
  obtain ⟨⟨⟨⟨-, hfree⟩, hevent⟩, hdrawn⟩, hnumber⟩ := hguard
  have hsound : Sound u w.tables := kept.orderly.sound
  have hid : hook.id = test.hookID := Keyed.key_of_get? hhook
  have hfits : Fits u w.tables (.deliver test) := by
    refine ⟨⟨hook, hhook, hnumber⟩, fun id hid => Option.some.inj hid ▸ unused_of_drawn hdrawn, fun d hd => ?_⟩
    obtain rfl := Change.deliver.inj hd
    rw [Named, if_pos hevent]
    exact version5_of_drawn hdrawn
  refine kept_tables kept (sound_apply hsound hfits) (fun j hj => ?_) fun s hs c hc hc_fits => ?_
  · rw [jobs_apply]
    exact List.mem_append_left _ hj
  · refine fits_apply hsound hfits ⟨?_, fun id hid hsame => ?_⟩ hc_fits
    · exact fun heq => not_locks_of_unlocked hfree hs hc (heq.symm.trans hid.symm)
    · obtain ⟨d, hd, -, hdid⟩ := queued_of_id hc hsame
      exact (inserts_iff.mp (inserts_of_drawn hdrawn)).2 s hs d hd (hdid.trans (Option.some.inj hid).symm)

end

/-- **Every step keeps what is kept.** -/
theorem kept_step {label : Label ι} (kept : w.Kept u) (hw : step u w label = some w') : w'.Kept u := by
  cases label with
  | begin attempt ev spaceName host =>
    rw [step] at hw
    split at hw
    · split at hw
      · contradiction
      · obtain rfl := Option.some.inj hw
        refine kept.set (kept.orderly.set ?_ List.Pairwise.nil ?_) ⟨?_, ?_, ?_, List.nodup_nil, fun _ => rfl⟩
        · exact fun _ hc => absurd hc List.not_mem_nil
        · exact fun _ _ _ _ _ _ hd => absurd hd List.not_mem_nil
        · exact fun _ hh => absurd hh List.not_mem_nil
        · rintro h id todo (hnext | ⟨n, hnext⟩) <;> contradiction
        · exact fun _ hd => absurd hd List.not_mem_nil
    · obtain rfl := Option.some.inj hw
      refine ⟨kept.orderly, kept.follows, fun ret hret hon => ?_⟩
      rcases List.mem_append.mp hret with hret | hret
      · exact kept.returned ret hret hon
      · rw [List.mem_singleton.mp hret] at hon
        contradiction
  | run attempt move =>
    obtain ⟨r, hget, hrest⟩ := Option.bind_eq_some_iff.mp hw
    obtain ⟨r', hr', heq⟩ := Option.bind_eq_some_iff.mp hrest
    obtain rfl := Option.some.inj heq
    have hr : r ∈ w.runs.values := (Keyed.get?_eq_some.mp hget).1
    rcases Run.step_cases hr' with ⟨hphase, hr'⟩ | ⟨hookID, todo, id, hphase, hnamed, hfound | hr'⟩ |
      ⟨hookID, id, todo, hook, hphase, hfree, hhook, hr'⟩ |
      ⟨hookID, id, sequence, todo, jobID, hphase, hinserts, hunused, hr'⟩
    · exact kept_list kept hr hphase hr'
    · exact kept_skip kept hr hphase hnamed hfound.1 hfound.2.1 hfound.2.2
    · exact kept_checked kept hr hphase hnamed hr'
    · exact kept_take kept hr hphase hfree hhook hr'
    · exact kept_queue kept hr hphase hinserts hunused ⟨rfl, rfl, rfl, rfl⟩ hr'
  | commit attempt =>
    obtain ⟨r, hget, hrest⟩ := Option.bind_eq_some_iff.mp hw
    obtain ⟨hphase, ⟨⟩⟩ := Option.ite_none_right_eq_some.mp hrest
    exact kept_commit kept (Keyed.get?_eq_some.mp hget).1 hphase
  | fail attempt =>
    obtain rfl := Option.some.inj hw
    exact ⟨kept.orderly.drop _, fun s hs => kept.follows s (List.mem_of_mem_filter hs), kept.returned⟩
  | createHook hook =>
    rw [step] at hw
    split at hw
    next => contradiction
    next hguard =>
      obtain rfl := Option.some.inj hw
      simp only [Bool.or_eq_true, not_or, Bool.not_eq_true, List.any_eq_false, beq_iff_eq] at hguard
      exact kept_createHook kept hguard.1.1 hguard.1.2
  | changeHook id channelID eventTypes disabled =>
    rw [step] at hw
    split at hw
    next => contradiction
    next =>
      obtain rfl := Option.some.inj hw
      exact kept_changeHook kept _ _ fun hook => by split <;> rfl
  | deleteHook id =>
    rw [step] at hw
    split at hw
    next => contradiction
    next hfree =>
      obtain rfl := Option.some.inj hw
      exact kept_deleteHook kept (eq_false_of_ne_true hfree)
  | testWebhook test => exact kept_test kept hw
  | setOutgoing on =>
    obtain rfl := Option.some.inj hw
    exact ⟨kept.orderly, kept.follows, kept.returned⟩

theorem kept_start : (start : World ι).Kept u where
  orderly := .idle
    { matched := rfl
      distinct := List.nodup_nil
      named := fun _ hj => absurd hj List.not_mem_nil
      laned := fun _ hj => absurd hj List.not_mem_nil
      increasing := .nil
      counted := fun _ hj => absurd hj List.not_mem_nil }
  follows := fun _ hr => absurd hr List.not_mem_nil
  returned := fun _ hret => absurd hret List.not_mem_nil

/-- **The run lemma.** -/
theorem kept_of_runs (h : Runs (step u) Always start w) : w.Kept u :=
  h.keeps kept_start fun _ _ _ kept _ hstep => kept_step kept hstep

/-! ## The law -/

end

/-! ## Events without an id, and outgoing webhooks off -/

/-- UUIDs that keep what they are made of. -/
def sampleUUIDs : UUIDs (Bool × Text) where
  newSHA1 := fun name => (true, name)
  version5 := Prod.fst
  version5_newSHA1 := fun _ => rfl
  newSHA1_injective := fun h => (Prod.mk.inj h).2

def sampleHook : Hook := ⟨⟨['h'], by decide⟩, ['s'], none, [['m']], false, 0⟩

def sampleEvent (eventID : Text) : OutgoingEvent := ⟨eventID, ['m'], ['s'], ['c'], [], 0⟩

/-- A run of the job that finds no delivery, from its start to its commit. -/
def wholeRun (attempt : Nat) (ev : OutgoingEvent) (drawn : Text) : List (Label (Bool × Text)) :=
  [.begin attempt ev [] [], .run attempt .list, .run attempt (.check (false, drawn)), .run attempt .take,
    .run attempt (.queue attempt), .commit attempt]

/-- One run of labels, and what is so where it ends. -/
theorem exists_runs (labels : List (Label (Bool × Text))) (P : World (Bool × Text) → Bool)
    (h : (runList (step sampleUUIDs) start labels).any P = true) :
    ∃ w, Runs (step sampleUUIDs) Always start w ∧ P w = true := by
  obtain ⟨w, hw, hp⟩ := (Option.any_eq_true _ _).mp h
  exact ⟨w, .ofList labels (EachStep.always labels _) hw, hp⟩

end Stoop.Webhooks
