import Stoop.Lib.Commits

/-!
# Outgoing webhooks' tables, and what one delivery writes

A hook takes the events of its space (`hookWants`); each event it takes is a delivery: the hook's next sequence
number, a row of the log, a job in the hook's lane, and the job's id on the row (`enqueueFor`, `queueDelivery`,
`internal/integrations/fanout.go`). A delivery's id is derived from the event's id and the hook's, or random for
an event without an id (`eventDeliveryID`).

What attempts learn of a delivery, and a hook's URL, secret and name, are left out. So are redeliveries, which
send an old body again under its old number, and the sweep of finished rows: the log here is what fan-outs and
tests write.

`discipline` is how deliveries of transactions at work keep out of each other's way: by the hook's row, which
`NextOutgoingSequence` locks until the transaction ends.
-/

set_option autoImplicit false

namespace Stoop.Webhooks

open Stoop.Lib

abbrev Text := List Char

/-! ## Hooks and events -/

/-- A row's id as text: a UUID, which has no colon. -/
structure RowId where
  text : Text
  plain : ':' ∉ text
  deriving DecidableEq, Repr

structure OutgoingEvent where
  eventID : Text
  type : Text
  spaceID : Text
  channelID : Text
  data : Text
  time : Nat
  deriving DecidableEq, Repr

structure Hook where
  id : RowId
  spaceID : Text
  channelID : Option Text
  eventTypes : List Text
  disabled : Bool
  sequence : Nat
  deriving DecidableEq, Repr

def hookWants (hook : Hook) (ev : OutgoingEvent) : Bool :=
  if !hook.eventTypes.contains ev.type then false
  else hook.channelID.isNone || ev.channelID.isEmpty || hook.channelID == some ev.channelID

/-! ## Ids -/

/-- The UUIDs: `uuid.NewSHA1` makes a version 5 one of a name, and no two names make the same. -/
structure UUIDs (ι : Type) where
  newSHA1 : Text → ι
  version5 : ι → Bool
  version5_newSHA1 : ∀ name, version5 (newSHA1 name) = true
  newSHA1_injective : ∀ {name name' : Text}, newSHA1 name = newSHA1 name' → name = name'

variable {ι : Type}

def deliveryName (eventID : Text) (hookID : RowId) : Text :=
  "stoop:webhook-delivery:".toList ++ (eventID ++ ':' :: hookID.text)

/-- `eventDeliveryID`; `fresh` is what `rowid.New` makes, should it be called. -/
def eventDeliveryID (u : UUIDs ι) (ev : OutgoingEvent) (hookID : RowId) (fresh : ι) : ι :=
  if ev.eventID = [] then fresh else u.newSHA1 (deliveryName ev.eventID hookID)

/-- Nothing but the event's id and the hook's makes a name. -/
theorem deliveryName_inj {e e' : Text} {h h' : RowId} (heq : deliveryName e h = deliveryName e' h') :
    e = e' ∧ h = h' := by
  have hrest : e ++ ':' :: h.text = e' ++ ':' :: h'.text := List.append_cancel_left heq
  rcases List.append_eq_append_iff.mp hrest with ⟨between, hl, hr⟩ | ⟨between, hl, hr⟩
  · cases between with
    | nil =>
      rw [List.append_nil] at hl
      rw [List.nil_append] at hr
      cases h
      cases h'
      cases (List.cons.inj hr).2
      exact ⟨hl.symm, rfl⟩
    | cons c between =>
      obtain ⟨-, htext⟩ := List.cons.inj hr
      exact absurd (htext ▸ List.mem_append_right between List.mem_cons_self) h.plain
  · cases between with
    | nil =>
      rw [List.append_nil] at hl
      rw [List.nil_append] at hr
      cases h
      cases h'
      cases (List.cons.inj hr).2
      exact ⟨hl, rfl⟩
    | cons c between =>
      obtain ⟨-, htext⟩ := List.cons.inj hr
      exact absurd (htext ▸ List.mem_append_right between List.mem_cons_self) h'.plain

/-! ## Rows and jobs -/

/-- The delivery body. -/
structure Envelope (ι : Type) where
  id : ι
  type : Text
  ts : Nat
  host : Text
  spaceID : Text
  spaceName : Text
  data : Text
  deriving DecidableEq, Repr

structure DeliveryArgs (ι : Type) where
  deliveryID : ι
  hookID : RowId
  event : Text
  sequence : Nat
  body : Envelope ι
  deriving DecidableEq, Repr

/-- A row of the log, and the event it is for, of which the table keeps what is in the id and the body. -/
structure Row (ι : Type) where
  id : ι
  webhookID : RowId
  eventType : Text
  sequence : Nat
  body : Envelope ι
  jobID : Option Nat
  source : OutgoingEvent
  deriving DecidableEq, Repr

/-- A `deliver_webhook` job, and the event it is for. -/
structure Job (ι : Type) where
  id : Nat
  args : DeliveryArgs ι
  lane : RowId
  laneSequence : Nat
  source : OutgoingEvent
  deriving DecidableEq, Repr

structure Tables (ι : Type) where
  hooks : Keyed Hook.id
  rows : List (Row ι)
  jobs : List (Job ι)

/-! ## Statements -/

inductive Statement (ι : Type)
  | nextOutgoingSequence (hookID : RowId)
  | insertDelivery (row : Row ι)
  | enqueueInLane (job : Job ι)
  | setDeliveryJob (id : ι) (jobID : Nat)

/-- `SET sequence = sequence + 1` of one hook's row. -/
def bump (hookID : RowId) (hooks : Keyed Hook.id) : Keyed Hook.id :=
  hooks.map (fun hook => if hook.id = hookID then { hook with sequence := hook.sequence + 1 } else hook)
    fun hook => by split <;> rfl

def Tables.run [DecidableEq ι] (t : Tables ι) : Statement ι → Tables ι
  | .nextOutgoingSequence hookID => { t with hooks := bump hookID t.hooks }
  | .insertDelivery row => { t with rows := t.rows ++ [row] }
  | .enqueueInLane job => { t with jobs := t.jobs ++ [job] }
  | .setDeliveryJob id jobID =>
    { t with rows := t.rows.map fun row => if row.id = id then { row with jobID := some jobID } else row }

/-- A delivery: what `enqueueFor` is called with, and the numbers it is given. -/
structure Delivery (ι : Type) where
  id : ι
  hookID : RowId
  event : OutgoingEvent
  spaceName : Text
  host : Text
  sequence : Nat
  jobID : Nat
  deriving DecidableEq, Repr

namespace Delivery

def args (d : Delivery ι) : DeliveryArgs ι where
  deliveryID := d.id
  hookID := d.hookID
  event := d.event.type
  sequence := d.sequence
  body := ⟨d.id, d.event.type, d.event.time, d.host, d.event.spaceID, d.spaceName, d.event.data⟩

/-- The row as it is inserted. -/
def row (d : Delivery ι) : Row ι :=
  ⟨d.args.deliveryID, d.args.hookID, d.args.event, d.args.sequence, d.args.body, none, d.event⟩

def job (d : Delivery ι) : Job ι := ⟨d.jobID, d.args, d.args.hookID, d.args.sequence, d.event⟩

/-- `enqueueFor`, with `queueDelivery`: the statements of one delivery. -/
def enqueueFor (d : Delivery ι) : List (Statement ι) :=
  [.nextOutgoingSequence d.hookID, .insertDelivery d.row, .enqueueInLane d.job, .setDeliveryJob d.id d.jobID]

end Delivery

/-! ## What the tables keep -/

/-- A row, without its job's id, as its job has it. -/
def Row.args (r : Row ι) : DeliveryArgs ι := ⟨r.id, r.webhookID, r.eventType, r.sequence, r.body⟩

/-- An id made for an event and a hook: derived from both, or random for an event without an id. -/
def Named (u : UUIDs ι) (ev : OutgoingEvent) (hookID : RowId) (id : ι) : Prop :=
  if ev.eventID = [] then u.version5 id = false else id = u.newSHA1 (deliveryName ev.eventID hookID)

/-- What every committed state keeps: the rows are those of the jobs whose hook is there, no two jobs are for one
delivery, and a hook's are numbered upwards. -/
structure Sound (u : UUIDs ι) (t : Tables ι) : Prop where
  matched : t.rows.map (fun r => (r.args, r.jobID, r.source)) =
    (t.jobs.filter fun j => t.hooks.has j.args.hookID).map fun j => (j.args, some j.id, j.source)
  distinct : (t.jobs.map (·.args.deliveryID)).Nodup
  named : ∀ j ∈ t.jobs, Named u j.source j.args.hookID j.args.deliveryID
  laned : ∀ j ∈ t.jobs, j.lane = j.args.hookID ∧ j.laneSequence = j.args.sequence
  increasing : t.jobs.Pairwise fun a b => a.args.hookID = b.args.hookID → a.args.sequence < b.args.sequence
  counted : ∀ j ∈ t.jobs, ∀ hook, t.hooks.get? j.args.hookID = some hook → j.args.sequence ≤ hook.sequence

/-- What a transaction at work has of a hook: its next number taken, or a delivery queued. -/
inductive Change (ι : Type)
  | take (hookID : RowId) (sequence : Nat)
  | deliver (d : Delivery ι)

namespace Change

def hookID : Change ι → RowId
  | .take hookID _ => hookID
  | .deliver d => d.hookID

def sequence : Change ι → Nat
  | .take _ sequence => sequence
  | .deliver d => d.sequence

/-- The delivery a change brings, if it has got that far. -/
def id? : Change ι → Option ι
  | .take _ _ => none
  | .deliver d => some d.id

end Change

/-- A change's statements as they take effect; what has only taken a number has none to commit yet. -/
def Tables.apply [DecidableEq ι] (t : Tables ι) : Change ι → Tables ι
  | .take _ _ => t
  | .deliver d => d.enqueueFor.foldl Tables.run t

/-- Where a change finds the hook: as many numbers taken as before its own, and no job for its delivery. -/
structure Fits (u : UUIDs ι) (t : Tables ι) (c : Change ι) : Prop where
  numbered : ∃ hook, t.hooks.get? c.hookID = some hook ∧ c.sequence = hook.sequence + 1
  fresh : ∀ id, c.id? = some id → ∀ j ∈ t.jobs, j.args.deliveryID ≠ id
  named : ∀ d, c = .deliver d → Named u d.event d.hookID d.id

/-- Changes of different hooks and of different deliveries. -/
def Change.Apart (c d : Change ι) : Prop :=
  c.hookID ≠ d.hookID ∧ ∀ id, c.id? = some id → d.id? ≠ some id

/-! ## What a delivery does -/

theorem get?_bump (hookID k : RowId) (hooks : Keyed Hook.id) :
    (bump hookID hooks).get? k = (hooks.get? k).map fun hook =>
      if k = hookID then { hook with sequence := hook.sequence + 1 } else hook := by
  rw [bump, Keyed.get?_map]
  cases h : hooks.get? k with
  | none => rfl
  | some hook => rw [Option.map_some, Option.map_some, Keyed.key_of_get? h]

theorem has_bump (hookID k : RowId) (hooks : Keyed Hook.id) : (bump hookID hooks).has k = hooks.has k := by
  rw [Keyed.has, get?_bump, Option.isSome_map, Keyed.has]

theorem get?_bump_ne {hookID k : RowId} (hne : k ≠ hookID) (hooks : Keyed Hook.id) :
    (bump hookID hooks).get? k = hooks.get? k := by
  rw [get?_bump]
  simp only [hne, if_false, Option.map_id']

section
variable {u : UUIDs ι} {t : Tables ι} {c d : Change ι}

/-- **An id is made for one event and hook**, unless it was drawn. -/
theorem Named.inj {ev ev' : OutgoingEvent} {h h' : RowId} {id : ι} (hnamed : Named u ev h id)
    (hnamed' : Named u ev' h' id) (hev : ev.eventID ≠ []) : ev'.eventID = ev.eventID ∧ h' = h := by
  rw [Named, if_neg hev] at hnamed
  by_cases hev' : ev'.eventID = []
  · rw [Named, if_pos hev', hnamed, u.version5_newSHA1] at hnamed'
    contradiction
  · rw [Named, if_neg hev'] at hnamed'
    exact deliveryName_inj (u.newSHA1_injective (hnamed'.symm.trans hnamed))

theorem named_eventDeliveryID {fresh : ι} (hfresh : u.version5 fresh = false) (ev : OutgoingEvent) (h : RowId) :
    Named u ev h (eventDeliveryID u ev h fresh) := by
  unfold Named eventDeliveryID
  split
  · exact hfresh
  · rfl

theorem apart_of_hooks (hhooks : c.hookID ≠ d.hookID) (hid : c.id? = none ∨ d.id? = none) :
    c.Apart d := by
  refine ⟨hhooks, fun id hc hd => ?_⟩
  rcases hid with h | h
  · rw [h] at hc
    contradiction
  · rw [h] at hd
    contradiction

/-- Every row has its job. -/
theorem Sound.job_of_row (sound : Sound u t) {r : Row ι} (hr : r ∈ t.rows) :
    ∃ j ∈ t.jobs, j.args = r.args ∧ j.source = r.source ∧ r.jobID = some j.id := by
  have hmem : (r.args, r.jobID, r.source) ∈ t.rows.map fun r => (r.args, r.jobID, r.source) :=
    List.mem_map_of_mem hr
  rw [sound.matched] at hmem
  obtain ⟨j, hj, heq⟩ := List.mem_map.mp hmem
  obtain ⟨hargs, hrest⟩ := Prod.mk.inj heq
  obtain ⟨hjob, hsource⟩ := Prod.mk.inj hrest
  exact ⟨j, List.mem_of_mem_filter hj, hargs, hsource, hjob.symm⟩

/-- Every job whose hook is there has its row. -/
theorem Sound.row_of_job (sound : Sound u t) {j : Job ι} (hj : j ∈ t.jobs)
    (hhook : t.hooks.has j.args.hookID = true) :
    ∃ r ∈ t.rows, r.args = j.args ∧ r.source = j.source ∧ r.jobID = some j.id := by
  have hmem : (j.args, some j.id, j.source) ∈
      (t.jobs.filter fun j => t.hooks.has j.args.hookID).map fun j => (j.args, some j.id, j.source) :=
    List.mem_map_of_mem (List.mem_filter.mpr ⟨hj, hhook⟩)
  rw [← sound.matched] at hmem
  obtain ⟨r, hr, heq⟩ := List.mem_map.mp hmem
  obtain ⟨hargs, hrest⟩ := Prod.mk.inj heq
  obtain ⟨hjob, hsource⟩ := Prod.mk.inj hrest
  exact ⟨r, hr, hargs, hsource, hjob⟩

theorem Fits.rows_fresh {v : Delivery ι} (sound : Sound u t) (fits : Fits u t (.deliver v)) :
    ∀ r ∈ t.rows, r.id ≠ v.id := by
  intro r hr heq
  obtain ⟨j, hj, hargs, -⟩ := sound.job_of_row hr
  exact fits.fresh v.id rfl j hj ((congrArg DeliveryArgs.deliveryID hargs).trans heq)

/-- Hooks among which the same are there, with the numbers they had, keep the tables sound. -/
theorem Sound.hooks (sound : Sound u t) {hooks : Keyed Hook.id}
    (hhas : ∀ j ∈ t.jobs, hooks.has j.args.hookID = t.hooks.has j.args.hookID)
    (hsequence : ∀ j ∈ t.jobs, ∀ hook, hooks.get? j.args.hookID = some hook →
      ∃ old, t.hooks.get? j.args.hookID = some old ∧ old.sequence = hook.sequence) :
    Sound u { t with hooks } where
  matched := by
    rw [sound.matched]
    exact congrArg _ (List.filter_congr fun j hj => (hhas j hj).symm)
  distinct := sound.distinct
  named := sound.named
  laned := sound.laned
  increasing := sound.increasing
  counted := by
    intro j hj hook hhook
    obtain ⟨old, hold, hsame⟩ := hsequence j hj hook hhook
    exact hsame ▸ sound.counted j hj old hold

/-- A hook deleted takes its rows along. -/
theorem sound_deleteHook (sound : Sound u t) (id : RowId) :
    Sound u ⟨t.hooks.filter fun hook => hook.id != id, t.rows.filter fun r => r.webhookID != id, t.jobs⟩ where
  matched := by
    have hrows : (t.rows.filter fun r => r.webhookID != id).map (fun r => (r.args, r.jobID, r.source)) =
        (t.rows.map fun r => (r.args, r.jobID, r.source)).filter fun p => p.1.hookID != id := by
      rw [List.filter_map]
      rfl
    rw [hrows, sound.matched, List.filter_map, List.filter_filter]
    have hhas : ∀ k, (t.hooks.filter fun hook => hook.id != id).has k = (k != id && t.hooks.has k) := by
      intro k
      rw [Keyed.has, Keyed.get?_filter_ne, Keyed.has]
      by_cases hk : k = id <;> simp [hk]
    exact congrArg _ (List.filter_congr fun j _ => (hhas j.args.hookID).symm)
  distinct := sound.distinct
  named := sound.named
  laned := sound.laned
  increasing := sound.increasing
  counted := fun j hj hook hhook => sound.counted j hj hook (Keyed.get?_filter_eq_some hhook).1

/-- No two jobs are for one event and hook, if the event has an id. -/
theorem Sound.jobs_once (sound : Sound u t) :
    t.jobs.Pairwise fun a b => a.source.eventID ≠ [] → a.source.eventID = b.source.eventID →
      a.args.hookID ≠ b.args.hookID := by
  have hpairs := List.pairwise_map.mp sound.distinct
  refine hpairs.imp_of_mem fun {a b} ha hb hne hev hsame hhook => hne ?_
  have hnamed := sound.named a ha
  have hnamed' := sound.named b hb
  rw [Named, if_neg hev] at hnamed
  rw [Named, ← hsame, if_neg hev, ← hhook] at hnamed'
  exact hnamed.trans hnamed'.symm

/-- What is so of two jobs, the earlier first, is so of their rows. -/
theorem Sound.rows_pairwise (sound : Sound u t)
    {R : DeliveryArgs ι × OutgoingEvent → DeliveryArgs ι × OutgoingEvent → Prop}
    (h : t.jobs.Pairwise fun a b => R (a.args, a.source) (b.args, b.source)) :
    t.rows.Pairwise fun a b => R (a.args, a.source) (b.args, b.source) := by
  have hjobs : ((t.jobs.filter fun j => t.hooks.has j.args.hookID).map fun j =>
      (j.args, some j.id, j.source)).Pairwise fun p q => R (p.1, p.2.2) (q.1, q.2.2) :=
    List.pairwise_map.mpr (h.sublist List.filter_sublist)
  rw [← sound.matched] at hjobs
  have hrows := List.pairwise_map.mp hjobs
  exact hrows

variable [DecidableEq ι]

/-- **What a delivery's statements do**: the hook's number goes up, and its row and its job are there, the row
with the job's id. -/
theorem apply_deliver {v : Delivery ι} (hfresh : ∀ r ∈ t.rows, r.id ≠ v.id) :
    t.apply (.deliver v) =
      ⟨bump v.hookID t.hooks, t.rows ++ [{ v.row with jobID := some v.jobID }], t.jobs ++ [v.job]⟩ := by
  have hold : t.rows.map (fun row => if row.id = v.id then { row with jobID := some v.jobID } else row) =
      t.rows := by
    conv => rhs; rw [← List.map_id t.rows]
    exact List.map_congr_left fun r hr => if_neg (hfresh r hr)
  have hnew : (if v.row.id = v.id then { v.row with jobID := some v.jobID } else v.row) =
      { v.row with jobID := some v.jobID } := if_pos rfl
  simp only [Tables.apply, Delivery.enqueueFor, List.foldl_cons, List.foldl_nil, Tables.run, List.map_append,
    List.map_cons, List.map_nil, hold, hnew]

theorem sound_apply (sound : Sound u t) (fits : Fits u t c) : Sound u (t.apply c) := by
  cases c with
  | take hookID sequence => exact sound
  | deliver v =>
    obtain ⟨hook, hhook, hnumber⟩ := fits.numbered
    have hhas : t.hooks.has v.hookID = true := Keyed.has_eq_true.mpr ⟨hook, hhook⟩
    rw [apply_deliver (fits.rows_fresh sound)]
    refine ⟨?_, ?_, ?_, ?_, ?_, ?_⟩
    · simp only [has_bump]
      rw [List.map_append, List.filter_append, List.map_append, sound.matched]
      have hnew : [v.job].filter (fun j => t.hooks.has j.args.hookID) = [v.job] :=
        List.filter_eq_self.mpr fun j hj => by rw [List.mem_singleton.mp hj]; exact hhas
      rw [hnew]
      rfl
    · rw [List.map_append]
      refine List.nodup_append.mpr ⟨sound.distinct, List.nodup_singleton _, ?_⟩
      intro id hid id' hid'
      obtain ⟨j, hj, rfl⟩ := List.mem_map.mp hid
      rw [List.mem_singleton.mp hid']
      exact fits.fresh v.id rfl j hj
    · intro j hj
      rcases List.mem_append.mp hj with hj | hj
      · exact sound.named j hj
      · rw [List.mem_singleton.mp hj]
        exact fits.named v rfl
    · intro j hj
      rcases List.mem_append.mp hj with hj | hj
      · exact sound.laned j hj
      · rw [List.mem_singleton.mp hj]
        exact ⟨rfl, rfl⟩
    · refine List.pairwise_append.mpr ⟨sound.increasing, List.pairwise_singleton _ _, fun j hj j' hj' hsame => ?_⟩
      rw [List.mem_singleton.mp hj'] at hsame ⊢
      have hle := sound.counted j hj hook (hsame ▸ hhook)
      have hseq : v.job.args.sequence = hook.sequence + 1 := hnumber
      omega
    · intro j hj hook' hhook'
      rw [get?_bump, Option.map_eq_some_iff] at hhook'
      obtain ⟨old, hold, rfl⟩ := hhook'
      rcases List.mem_append.mp hj with hj | hj
      · have hle := sound.counted j hj old hold
        split
        · exact Nat.le_succ_of_le hle
        · exact hle
      · rw [List.mem_singleton.mp hj] at hold ⊢
        have hsame : hook = old := Option.some.inj (hhook.symm.trans hold)
        rw [if_pos (show v.job.args.hookID = v.hookID from rfl), ← hsame]
        exact Nat.le_of_eq hnumber

theorem fits_apply (sound : Sound u t) (fits : Fits u t c) (apart : c.Apart d) (hd : Fits u t d) :
    Fits u (t.apply c) d := by
  cases c with
  | take hookID sequence => exact hd
  | deliver v =>
    rw [apply_deliver (fits.rows_fresh sound)]
    refine ⟨?_, fun id hid j hj => ?_, hd.named⟩
    · have hne : d.hookID ≠ v.hookID := apart.1.symm
      rw [get?_bump_ne hne]
      exact hd.numbered
    · rcases List.mem_append.mp hj with hj | hj
      · exact hd.fresh id hid j hj
      · rw [List.mem_singleton.mp hj]
        exact fun heq => apart.2 v.id rfl (hid.trans (congrArg some heq.symm))

/-- **Deliveries written beside one another.** -/
def discipline (u : UUIDs ι) : Discipline (Tables ι) (Change ι) where
  apply := Tables.apply
  Sound := Sound u
  Fits := Fits u
  Apart := Change.Apart
  symm := fun h => ⟨h.1.symm, fun id hid hc => h.2 id hc hid⟩
  sound := sound_apply
  fits := fits_apply

end

end Stoop.Webhooks
