import Mathlib.Logic.Function.Basic
import Stoop.Files.Sweep

/-!
# A new avatar or icon, through crashes and retries

An upload is stored as it was sent, under a pending row, and a `normalise_image` job in its target's lane
makes it the target's image (`internal/files/normalise.go`): decode and re-encode, write the blob again,
ready the row, point the person or space at it, delete the file it replaced. The rows and the blobs are two
stores and each call on either is a step of its own. A call can fail having done nothing or having done
its work, the process can end between any two, and the job then runs again from its first call.

The jobs of a lane run one at a time, in order. Lanes run beside each other, and beside whatever else takes
files nothing points at, accounts and spaces.

## Main results

* `image_survives`: in every run, what a target points at is a ready file with its bytes stored; no call of
  a job takes a file, or the bytes of one, that something points at; and a lane that is idle after a job
  that succeeded has its target pointing at that job's image.

What carries the runs is `Sound`: for each attempt, what its next call relies on (`World.Ready`), and for
each call, that nothing of another lane moves (`Beside`).
-/

set_option autoImplicit false

namespace Stoop.Files.Normalise

open Stoop.Lib

/-! ## The stores -/

/-- Who shows an image: a person their avatar, a space its icon. -/
inductive Target
  | user (id : Nat)
  | space (id : Nat)
  deriving DecidableEq, Repr

def Target.kind : Target → Kind
  | .user _ => .avatar
  | .space _ => .spaceIcon

/-- A blob's key, `{kind}/{id}`. -/
structure StorageKey where
  kind : Kind
  id : Nat
  deriving DecidableEq, Repr

def storageKey (kind : Kind) (id : Nat) : StorageKey := ⟨kind, id⟩

/-- A row of `files`, as an image upload has it. -/
structure FileRow where
  id : Nat
  kind : Kind
  ownerID : Nat
  spaceID : Option Nat
  pending : Bool
  storageKey : StorageKey
  deriving DecidableEq, Repr

/-- Whose image a row was uploaded for: an icon's row is its space's, an avatar's its person's. -/
def FileRow.target (file : FileRow) : Target :=
  match file.spaceID with
  | some space => .space space
  | none => .user file.ownerID

/-- A row of `users` or `spaces`: an account that was deleted keeps its row. -/
structure Holder where
  target : Target
  deleted : Bool := false
  current : Option Nat := none
  deriving DecidableEq, Repr

def AvatarSize : Nat := 256
def SpaceIconSize : Nat := 512

/-- The square an avatar or icon is scaled to. -/
def imageSize : Kind → Nat
  | .spaceIcon => SpaceIconSize
  | _ => AvatarSize

/-! ## Jobs -/

/-- What an attempt returns: nothing wrong, `ErrImageUnusable`, or an error to retry on. -/
inductive Outcome
  | succeeded
  | unusable
  | failed
  deriving DecidableEq, Repr

/-- Where an attempt stands: the call it makes next, with what it has read. `deleteRow` and `deleteBlob`
are `deleteFile`, with the key it was given and what the attempt returns after it. -/
inductive Stage (Bytes : Type)
  | getFile
  | openBlob (file : FileRow)
  | decode (file : FileRow) (data : Bytes)
  | putBlob (file : FileRow) (encoded : Bytes)
  | readyRow (file : FileRow)
  | pointAt (file : FileRow)
  | getSpace (file : FileRow) (previous : Option Nat)
  | askChat
  | askAuth (fromChat : Bool)
  | deleteRow (id : Nat) (key : Option StorageKey) (outcome : Outcome)
  | deleteBlob (key : StorageKey) (outcome : Outcome)
  | returned (outcome : Outcome)
  deriving DecidableEq, Repr

/-- A job being performed. -/
structure Attempt (Bytes : Type) where
  fileID : Nat
  lastAttempt : Bool
  stage : Stage Bytes
  deriving DecidableEq, Repr

/-- A target's lane: the files of the jobs that wait, in order, the one that runs, and the last that left
the lane, with what became of it. -/
structure Lane (Bytes : Type) where
  waiting : List Nat := []
  running : Option (Attempt Bytes) := none
  ended : Option (Nat × Outcome) := none
  deriving DecidableEq, Repr

/-- The two stores, the rows that point at files, and the lanes. `made` counts the ids given. -/
structure World (Bytes : Type) where
  files : Keyed FileRow.id
  blobs : Keyed (Prod.fst : StorageKey × Bytes → StorageKey)
  holders : Keyed Holder.target
  lanes : Target → Lane Bytes
  made : Nat

variable {Bytes : Type}

/-- People and spaces, with no image, and no upload yet. -/
def World.start (holders : Keyed Holder.target) : World Bytes :=
  { files := Keyed.empty, blobs := Keyed.empty, lanes := fun _ => {}, made := 0
    holders := holders.map (fun holder => { holder with current := none }) fun _ => rfl }

/-- The file a target points at. -/
def World.pointsAt (w : World Bytes) (t : Target) : Option Nat := (w.holders.get? t).bind (·.current)

/-- Whether a module points at a file: chat its icons, auth its avatars. -/
def World.refers (w : World Bytes) (kind : Kind) (id : Nat) : Bool :=
  w.holders.values.any fun holder => holder.target.kind == kind && holder.current == some id

/-! ## What a call does to the stores -/

/-- `ReadyPendingFile`, where its row is there and pending. -/
def World.ready (w : World Bytes) (id : Nat) : World Bytes :=
  match (w.files.get? id).filter (·.pending) with
  | some file => { w with files := w.files.set { file with pending := false } }
  | none => w

/-- The swap of a target's pointer: a file that is gone refuses it (the foreign key). -/
def World.point (w : World Bytes) (t : Target) (id : Nat) : World Bytes :=
  match w.holders.get? t with
  | some holder =>
    if w.files.has id then { w with holders := w.holders.set { holder with current := some id } } else w
  | none => w

/-- `DeleteFile`, with what it does to a pointer at the row (`ON DELETE SET NULL`). -/
def World.deleteRow (w : World Bytes) (id : Nat) : World Bytes :=
  { w with
    files := w.files.filter fun file => file.id != id
    holders := w.holders.map
      (fun holder => { holder with
        current := if holder.current = some id then none else holder.current })
      fun _ => rfl }

def World.putBlob (w : World Bytes) (key : StorageKey) (data : Bytes) : World Bytes :=
  { w with blobs := w.blobs.set (key, data) }

def World.deleteBlob (w : World Bytes) (key : StorageKey) : World Bytes :=
  { w with blobs := w.blobs.filter fun blob => blob.1 != key }

/-! ## One call -/

/-- What becomes of a call: an answer, or an error, with its work done or not. -/
inductive Fate
  | answered
  | refused
  | unheard
  deriving DecidableEq, Repr

/-- A write's work under a fate. -/
def Fate.run (fate : Fate) (work : World Bytes → World Bytes) (w : World Bytes) : World Bytes :=
  match fate with
  | .refused => w
  | .answered | .unheard => work w

/-- `failNormalise`: the last attempt looks whether its file is one to delete. -/
def Attempt.fail (a : Attempt Bytes) : Stage Bytes := if a.lastAttempt then .askChat else .returned .failed

/-- The file that was replaced is deleted, unless there is none or it is the image itself. -/
def replaced (file : FileRow) : Option Nat → Stage Bytes
  | some previous =>
    if previous = file.id then .returned .succeeded else .deleteRow previous none .succeeded
  | none => .returned .succeeded

/-- `deleteFile` once the row's deletion has failed: the blob goes where its key was given. -/
def rowKept (outcome : Outcome) : Option StorageKey → Stage Bytes
  | some key => .deleteBlob key outcome
  | none => .returned outcome

variable (processImage : Bytes → Nat → Option Bytes)

/-- An attempt's next call: what it leaves of the stores, and where the attempt stands then. -/
def Attempt.call (w : World Bytes) (t : Target) (a : Attempt Bytes) (fate : Fate) :
    Option (World Bytes × Stage Bytes) :=
  match a.stage, fate with
  | .getFile, .answered =>
    match w.files.get? a.fileID with
    | none => some (w, .returned .unusable)
    | some file => some (w, if file.pending then .openBlob file else .pointAt file)
  | .openBlob file, .answered =>
    match w.blobs.get? file.storageKey with
    | none => some (w, a.fail)
    | some blob => some (w, .decode file blob.2)
  | .decode file data, .answered =>
    match processImage data (imageSize file.kind) with
    | none => some (w, .deleteRow file.id (some file.storageKey) .unusable)
    | some encoded => some (w, .putBlob file encoded)
  | .putBlob file encoded, fate =>
    some (fate.run (·.putBlob file.storageKey encoded) w,
      if fate = .answered then .readyRow file else a.fail)
  | .readyRow file, .answered =>
    match (w.files.get? file.id).filter (·.pending) with
    | none => some (w, .deleteRow file.id (some file.storageKey) .unusable)
    | some row => some (w.ready file.id, .pointAt { row with pending := false })
  | .readyRow file, fate => some (fate.run (·.ready file.id) w, a.fail)
  | .pointAt file, .answered =>
    match w.holders.get? t with
    -- the account or space is gone
    | none => some (w, .deleteRow file.id (some file.storageKey) .unusable)
    | some holder =>
      if w.files.has file.id then
        some (w.point t file.id, match t with
          | .user _ => replaced file holder.current
          | .space _ => .getSpace file holder.current)
      else some (w, a.fail)
  | .pointAt file, fate => some (fate.run (·.point t file.id) w, a.fail)
  | .getSpace file previous, .answered =>
    match w.holders.get? t with
    | none => some (w, .deleteRow file.id (some file.storageKey) .unusable)
    | some _ => some (w, replaced file previous)
  | .askChat, .answered => some (w, .askAuth (w.refers .spaceIcon a.fileID))
  | .askAuth fromChat, .answered =>
    some (w, if fromChat || w.refers .avatar a.fileID then .returned .failed
      else .deleteRow a.fileID none .failed)
  | .deleteRow id key outcome, .answered =>
    match w.files.get? id with
    | none => some (w, rowKept outcome key)
    | some file => some (w.deleteRow id, .deleteBlob file.storageKey outcome)
  | .deleteRow id key outcome, fate => some (fate.run (·.deleteRow id) w, rowKept outcome key)
  | .deleteBlob key outcome, fate => some (fate.run (·.deleteBlob key) w, .returned outcome)
  -- a read that fails
  | .getFile, _ | .openBlob _, _ | .decode _ _, _ | .getSpace _ _, _ => some (w, a.fail)
  -- a reference check that fails leaves the file to the sweep
  | .askChat, _ | .askAuth _, _ => some (w, .returned .failed)
  | .returned _, _ => none

/-! ## The steps -/

/-- One atomic action. -/
inductive Label (Bytes : Type)
  | upload (t : Target) (uploader : Nat) (position : Nat) (data : Bytes)
  | start (t : Target) (lastAttempt : Bool)
  | call (t : Target) (fate : Fate)
  | crash (t : Target)
  | settle (t : Target) (again : Bool)
  | lapse (t : Target)
  | deleteAccount (user : Nat)
  | deleteSpace (space : Nat)
  | sweep (id : Nat)
  deriving DecidableEq, Repr

/-- The pending row of an upload: `storePendingImage`. -/
def pendingRow (t : Target) (uploader id : Nat) : FileRow :=
  { id := id, kind := t.kind, pending := true, storageKey := storageKey t.kind id
    ownerID := match t with
      | .user user => user
      | .space _ => uploader
    spaceID := match t with
      | .user _ => none
      | .space space => some space }

def World.setLane (w : World Bytes) (t : Target) (lane : Lane Bytes) : World Bytes :=
  { w with lanes := Function.update w.lanes t lane }

/-- A job leaves its lane. -/
def Lane.end (lane : Lane Bytes) (id : Nat) (outcome : Outcome) : Lane Bytes :=
  { lane with running := none, ended := some (id, outcome) }

/-- A job goes back to the front of its lane, to be tried again. -/
def Lane.retry (lane : Lane Bytes) (id : Nat) : Lane Bytes :=
  { lane with running := none, waiting := id :: lane.waiting }

/-- One step. -/
def World.step (w : World Bytes) : Label Bytes → Option (World Bytes)
  | .upload t uploader position data =>
    let lane := w.lanes t
    let waiting := lane.waiting.take position ++ w.made :: lane.waiting.drop position
    some { w.setLane t { lane with waiting := waiting } with
      files := w.files.set (pendingRow t uploader w.made)
      blobs := w.blobs.set (storageKey t.kind w.made, data)
      made := w.made + 1 }
  | .start t lastAttempt =>
    match (w.lanes t).running, (w.lanes t).waiting with
    | none, id :: rest =>
      some (w.setLane t { w.lanes t with
        waiting := rest, running := some ⟨id, lastAttempt, .getFile⟩ })
    | _, _ => none
  | .call t fate =>
    match (w.lanes t).running with
    | none => none
    | some a => (a.call processImage w t fate).map fun done =>
      done.1.setLane t { w.lanes t with running := some { a with stage := done.2 } }
  | .crash t =>
    match (w.lanes t).running with
    | none => none
    | some a => some (w.setLane t ((w.lanes t).retry a.fileID))
  | .settle t again =>
    match (w.lanes t).running with
    | some ⟨id, lastAttempt, .returned .failed⟩ =>
      -- the last attempt can still be handed back
      if again then some (w.setLane t ((w.lanes t).retry id))
      else if lastAttempt then some (w.setLane t ((w.lanes t).end id .failed)) else none
    | some ⟨id, _, .returned outcome⟩ => some (w.setLane t ((w.lanes t).end id outcome))
    | _ => none
  | .lapse t =>
    -- the attempts ran out with the lease of the last
    match (w.lanes t).running, (w.lanes t).waiting with
    | none, id :: rest => some (w.setLane t ({ w.lanes t with waiting := rest }.end id .failed))
    | _, _ => none
  | .deleteAccount user =>
    some { w with
      holders := w.holders.map
        (fun holder =>
          if holder.target = .user user then { holder with deleted := true, current := none }
          else holder)
        fun holder => by split <;> rfl }
  | .deleteSpace space =>
    -- its files go with it, and their blobs are left to the sweep
    some { w with
      holders := w.holders.filter fun holder => holder.target != .space space
      files := w.files.filter fun file => file.spaceID != some space }
  | .sweep id =>
    match w.files.get? id with
    | none => none
    | some file =>
      if w.holders.values.any fun holder => holder.current == some id then none
      else some ((w.deleteRow id).deleteBlob file.storageKey)

/-! ## What holds between two calls -/

/-- The jobs of a lane, by their files. -/
def Lane.jobs (lane : Lane Bytes) : List Nat := lane.running.toList.map (·.fileID) ++ lane.waiting

/-- A file something may show: its row is its target's, readied, and its bytes are stored. -/
def World.Stored (w : World Bytes) (t : Target) (id : Nat) : Prop :=
  ∃ row, w.files.get? id = some row ∧ row.target = t ∧ row.pending = false ∧
    w.blobs.has row.storageKey = true

/-- A job's file: its row, while it is there, is the lane's target's, and once it is readied its bytes
are stored, while there is someone to show it. -/
structure World.Queued (w : World Bytes) (t : Target) (id : Nat) : Prop where
  given : id < w.made
  target : ∀ row, w.files.get? id = some row → row.target = t
  stored : ∀ row, w.files.get? id = some row → row.pending = false → w.holders.has t = true →
    w.blobs.has row.storageKey = true

/-- A target that is there shows a file. -/
def World.Shows (w : World Bytes) (t : Target) (id : Nat) : Prop :=
  ∀ holder, w.holders.get? t = some holder → holder.deleted = false → holder.current = some id

/-- A file a lane may delete the row of. -/
structure World.Loose (w : World Bytes) (t : Target) (id : Nat) : Prop where
  given : id < w.made
  unpointed : w.pointsAt t ≠ some id
  target : ∀ row, w.files.get? id = some row → row.target = t

/-- A blob a lane may delete: no file of another target has it, and none that was readied for one that
is there. -/
structure World.Spent (w : World Bytes) (t : Target) (key : StorageKey) : Prop where
  given : key.id < w.made
  target : ∀ id row, w.files.get? id = some row → row.storageKey = key → row.target = t
  unused : ∀ id row, w.files.get? id = some row → row.storageKey = key →
    row.pending = true ∨ w.holders.get? t = none

/-- What an attempt has read of its file's row. -/
structure World.Read (w : World Bytes) (id : Nat) (file : FileRow) : Prop where
  own : file.id = id
  key : file.storageKey.id = id
  same : ∀ row, w.files.get? id = some row → row.storageKey = file.storageKey

/-- A file whose row, while it is there, is pending. -/
def World.Unready (w : World Bytes) (id : Nat) : Prop :=
  ∀ row, w.files.get? id = some row → row.pending = true

/-- **What an attempt's next call relies on.** -/
def World.Ready (w : World Bytes) (t : Target) (id : Nat) : Stage Bytes → Prop
  | .getFile | .askChat => True
  | .openBlob file | .decode file _ | .putBlob file _ => w.Read id file ∧ w.Unready id
  | .readyRow file =>
    w.Read id file ∧ w.Unready id ∧
      (w.files.has id = true → w.blobs.has file.storageKey = true)
  | .pointAt file =>
    w.Read id file ∧ ∀ row, w.files.get? id = some row → row.pending = false
  | .getSpace file previous =>
    w.Read id file ∧ w.Shows t id ∧ ∀ old ∈ previous, old ≠ id → w.Loose t old
  | .askAuth fromChat => fromChat = false → t.kind = .spaceIcon → w.pointsAt t ≠ some id
  | .deleteRow old key outcome =>
    w.Loose t old ∧ (∀ k ∈ key, w.Spent t k) ∧ (outcome = .succeeded → w.Shows t id)
  | .deleteBlob key outcome => w.Spent t key ∧ (outcome = .succeeded → w.Shows t id)
  | .returned outcome => outcome = .succeeded → w.Shows t id

/-- **What holds in every state reached.** -/
structure Sound (w : World Bytes) : Prop where
  given : ∀ id row, w.files.get? id = some row → id < w.made
  keyed : ∀ id row, w.files.get? id = some row → row.storageKey.id = id
  shown : ∀ t id, w.pointsAt t = some id → w.Stored t id
  queued : ∀ t, ∀ id ∈ (w.lanes t).jobs, w.Queued t id
  ready : ∀ t a, (w.lanes t).running = some a → w.Ready t a.fileID a.stage
  idle : ∀ t id, (w.lanes t).jobs = [] → (w.lanes t).ended = some (id, .succeeded) → w.Shows t id

/-! ## The stores, looked up -/

theorem pointsAt_eq_some {w : World Bytes} {t : Target} {id : Nat} :
    w.pointsAt t = some id ↔ ∃ holder, w.holders.get? t = some holder ∧ holder.current = some id := by
  rw [World.pointsAt, Option.bind_eq_some_iff]

@[simp] theorem blobs_ready (w : World Bytes) (id : Nat) : (w.ready id).blobs = w.blobs := by
  unfold World.ready
  split <;> rfl

@[simp] theorem holders_ready (w : World Bytes) (id : Nat) : (w.ready id).holders = w.holders := by
  unfold World.ready
  split <;> rfl

@[simp] theorem lanes_ready (w : World Bytes) (id : Nat) : (w.ready id).lanes = w.lanes := by
  unfold World.ready
  split <;> rfl

@[simp] theorem made_ready (w : World Bytes) (id : Nat) : (w.ready id).made = w.made := by
  unfold World.ready
  split <;> rfl

/-- A row once one is readied: the readied one, or as it was. -/
theorem get?_ready {w : World Bytes} {id k : Nat} {row' : FileRow}
    (h : (w.ready id).files.get? k = some row') :
    ∃ row, w.files.get? k = some row ∧
      (row' = row ∨ k = id ∧ row.pending = true ∧ row' = { row with pending := false }) := by
  unfold World.ready at h
  split at h
  next file hfile =>
    obtain ⟨hget, hpending⟩ := Option.filter_eq_some_iff.mp hfile
    have hid : file.id = id := Keyed.key_of_get? hget
    rcases Keyed.get?_set_cases h with ⟨hk, rfl⟩ | ⟨-, hk⟩
    · have hk : file.id = k := hk
      exact ⟨file, by rw [← hk, hid, hget], .inr ⟨hk.symm.trans hid, hpending, rfl⟩⟩
    · exact ⟨row', hk, .inl rfl⟩
  next => exact ⟨row', h, .inl rfl⟩

/-- A row that is not pending stays as it is. -/
theorem get?_ready_of_ready {w : World Bytes} {id k : Nat} {row : FileRow}
    (h : w.files.get? k = some row) (hpending : k = id → row.pending = false) :
    (w.ready id).files.get? k = some row := by
  unfold World.ready
  split
  next file hfile =>
    obtain ⟨hget, hpend⟩ := Option.filter_eq_some_iff.mp hfile
    have hid : file.id = id := Keyed.key_of_get? hget
    have hne : file.id ≠ k := by
      rintro rfl
      rw [hid, hget] at h
      obtain rfl := Option.some.inj h
      rw [hpending hid] at hpend
      cases hpend
    rw [Keyed.get?_set, if_neg hne, h]
  next => exact h

@[simp] theorem files_point (w : World Bytes) (t : Target) (id : Nat) :
    (w.point t id).files = w.files := by
  unfold World.point
  split
  · split <;> rfl
  · rfl

@[simp] theorem blobs_point (w : World Bytes) (t : Target) (id : Nat) :
    (w.point t id).blobs = w.blobs := by
  unfold World.point
  split
  · split <;> rfl
  · rfl

@[simp] theorem lanes_point (w : World Bytes) (t : Target) (id : Nat) :
    (w.point t id).lanes = w.lanes := by
  unfold World.point
  split
  · split <;> rfl
  · rfl

@[simp] theorem made_point (w : World Bytes) (t : Target) (id : Nat) :
    (w.point t id).made = w.made := by
  unfold World.point
  split
  · split <;> rfl
  · rfl

/-- A holder once a pointer is swapped: as it was, or the target's, pointing at the file. -/
theorem get?_point {w : World Bytes} {t t' : Target} {id : Nat} {holder' : Holder}
    (h : (w.point t id).holders.get? t' = some holder') :
    ∃ holder, w.holders.get? t' = some holder ∧ (holder' = holder ∨
      t' = t ∧ w.files.has id = true ∧ holder' = { holder with current := some id }) := by
  unfold World.point at h
  split at h
  next holder hholder =>
    split at h
    next hhas =>
      have hkey : holder.target = t := Keyed.key_of_get? hholder
      rcases Keyed.get?_set_cases h with ⟨hk, rfl⟩ | ⟨-, hk⟩
      · have hk : holder.target = t' := hk
        exact ⟨holder, by rw [← hk, hkey, hholder], .inr ⟨hk.symm.trans hkey, hhas, rfl⟩⟩
      · exact ⟨holder', hk, .inl rfl⟩
    next => exact ⟨holder', h, .inl rfl⟩
  next => exact ⟨holder', h, .inl rfl⟩

theorem get?_point_of_ne {w : World Bytes} {t t' : Target} {id : Nat} (hne : t' ≠ t) :
    (w.point t id).holders.get? t' = w.holders.get? t' := by
  unfold World.point
  split
  next holder hholder =>
    split
    · have hkey : holder.target ≠ t' := fun hk => hne (hk.symm.trans (Keyed.key_of_get? hholder))
      rw [Keyed.get?_set, if_neg hkey]
    · rfl
  next => rfl

theorem get?_deleteRow (w : World Bytes) (id k : Nat) :
    (w.deleteRow id).files.get? k = if k = id then none else w.files.get? k :=
  Keyed.get?_filter_ne w.files id k

/-- A file nothing points at may go without a pointer's being cleared. -/
theorem holders_deleteRow {w : World Bytes} {id : Nat} (h : ∀ t, w.pointsAt t ≠ some id) (t : Target) :
    (w.deleteRow id).holders.get? t = w.holders.get? t := by
  rw [World.deleteRow, Keyed.get?_map]
  cases hholder : w.holders.get? t with
  | none => rfl
  | some holder =>
    have hne : holder.current ≠ some id := fun hcur => h t (pointsAt_eq_some.mpr ⟨holder, hholder, hcur⟩)
    simp [hne]

/-! ## What leaves a lane alone -/

/-- A change of the stores as a target's lane sees it: none of its rows changes, none whose file it
points at goes, no blob of a row that stays goes, and its holder stays as it was or is a deleted
account's. -/
structure Beside (t : Target) (w w' : World Bytes) : Prop where
  made : w.made ≤ w'.made
  rows : ∀ id row', id < w.made → w'.files.get? id = some row' → ∃ row, w.files.get? id = some row ∧
    row'.storageKey = row.storageKey ∧ row'.target = row.target ∧ (row.target = t → row' = row)
  blobs : ∀ id row', id < w.made → w'.files.get? id = some row' → row'.target = t →
    w.blobs.has row'.storageKey = true → w'.blobs.has row'.storageKey = true
  holder : ∀ holder', w'.holders.get? t = some holder' → ∃ holder, w.holders.get? t = some holder ∧
    (holder' = holder ∨ holder'.current = none ∧ holder'.deleted = true)
  pointed : ∀ id row, w'.pointsAt t = some id → w.files.get? id = some row → row.target = t →
    w'.files.get? id = some row

section Beside

variable {w w' : World Bytes} {t : Target} {id : Nat}

theorem Beside.refl (t : Target) (w : World Bytes) : Beside t w w where
  made := Nat.le_refl _
  rows _ row' _ h := ⟨row', h, rfl, rfl, fun _ => rfl⟩
  blobs _ _ _ _ _ h := h
  holder holder' h := ⟨holder', h, .inl rfl⟩
  pointed _ _ _ h _ := h

theorem Beside.pointsAt (h : Beside t w w') (hid : w'.pointsAt t = some id) : w.pointsAt t = some id := by
  obtain ⟨holder', hholder', hcurrent⟩ := pointsAt_eq_some.mp hid
  obtain ⟨holder, hholder, rfl | ⟨hnone, -⟩⟩ := h.holder holder' hholder'
  · exact pointsAt_eq_some.mpr ⟨_, hholder, hcurrent⟩
  · rw [hnone] at hcurrent
    cases hcurrent

theorem Beside.has (h : Beside t w w') (hhas : w'.holders.has t = true) : w.holders.has t = true := by
  obtain ⟨holder', hholder'⟩ := Keyed.has_eq_true.mp hhas
  obtain ⟨holder, hholder, -⟩ := h.holder holder' hholder'
  exact Keyed.has_eq_true.mpr ⟨holder, hholder⟩

theorem Beside.gone (h : Beside t w w') (hgone : w.holders.get? t = none) :
    w'.holders.get? t = none := by
  cases hholder' : w'.holders.get? t with
  | none => rfl
  | some holder' =>
    obtain ⟨holder, hholder, -⟩ := h.holder holder' hholder'
    rw [hgone] at hholder
    cases hholder

theorem Beside.shows (h : Beside t w w') (hshows : w.Shows t id) : w'.Shows t id := by
  intro holder' hholder' hstays
  obtain ⟨holder, hholder, rfl | ⟨-, hdeleted⟩⟩ := h.holder holder' hholder'
  · exact hshows _ hholder hstays
  · rw [hdeleted] at hstays
    cases hstays

theorem Beside.queued (h : Beside t w w') (hqueued : w.Queued t id) : w'.Queued t id where
  given := Nat.lt_of_lt_of_le hqueued.given h.made
  target row' hrow' := by
    obtain ⟨row, hrow, -, htarget, -⟩ := h.rows id row' hqueued.given hrow'
    exact htarget.trans (hqueued.target row hrow)
  stored row' hrow' hready hhas := by
    obtain ⟨row, hrow, -, htarget, hsame⟩ := h.rows id row' hqueued.given hrow'
    obtain rfl := hsame (hqueued.target row hrow)
    exact h.blobs id _ hqueued.given hrow' (hqueued.target _ hrow)
      (hqueued.stored _ hrow hready (h.has hhas))

theorem Beside.stored (h : Beside t w w') (hid : w'.pointsAt t = some id) (hgiven : id < w.made)
    (hstored : w.Stored t id) : w'.Stored t id := by
  obtain ⟨row, hrow, htarget, hready, hblob⟩ := hstored
  have hrow' := h.pointed id row hid hrow htarget
  exact ⟨row, hrow', htarget, hready, h.blobs id row hgiven hrow' htarget hblob⟩

theorem Beside.loose (h : Beside t w w') (hloose : w.Loose t id) : w'.Loose t id where
  given := Nat.lt_of_lt_of_le hloose.given h.made
  unpointed hid := hloose.unpointed (h.pointsAt hid)
  target row' hrow' := by
    obtain ⟨row, hrow, -, htarget, -⟩ := h.rows id row' hloose.given hrow'
    exact htarget.trans (hloose.target row hrow)

theorem Beside.spent (h : Beside t w w') (hkeyed : ∀ id row, w'.files.get? id = some row →
    row.storageKey.id = id) {key : StorageKey} (hspent : w.Spent t key) : w'.Spent t key where
  given := Nat.lt_of_lt_of_le hspent.given h.made
  target id row' hrow' hkey := by
    have hgiven : id < w.made := hkeyed id row' hrow' ▸ hkey.symm ▸ hspent.given
    obtain ⟨row, hrow, hsame, htarget, -⟩ := h.rows id row' hgiven hrow'
    exact htarget.trans (hspent.target id row hrow (hsame.symm.trans hkey))
  unused id row' hrow' hkey := by
    have hgiven : id < w.made := hkeyed id row' hrow' ▸ hkey.symm ▸ hspent.given
    obtain ⟨row, hrow, hsame, -, hown⟩ := h.rows id row' hgiven hrow'
    have hkey' := hsame.symm.trans hkey
    obtain rfl := hown (hspent.target id row hrow hkey')
    exact (hspent.unused id _ hrow hkey').imp_right h.gone

theorem Beside.read (h : Beside t w w') (hgiven : id < w.made) {file : FileRow}
    (hread : w.Read id file) : w'.Read id file where
  own := hread.own
  key := hread.key
  same row' hrow' := by
    obtain ⟨row, hrow, hsame, -, -⟩ := h.rows id row' hgiven hrow'
    exact hsame.trans (hread.same row hrow)

/-- A row of the lane's own, after: it was there before. -/
theorem Beside.own (h : Beside t w w') (hqueued : w.Queued t id) {row : FileRow}
    (hrow : w'.files.get? id = some row) : w.files.get? id = some row := by
  obtain ⟨row', hrow', -, -, hsame⟩ := h.rows id row hqueued.given hrow
  obtain rfl := hsame (hqueued.target row' hrow')
  exact hrow'

/-- **What an attempt relies on outlasts what goes on beside its lane.** -/
theorem Beside.ready (h : Beside t w w') (hkeyed : ∀ id row, w'.files.get? id = some row →
    row.storageKey.id = id) (hqueued : w.Queued t id) {stage : Stage Bytes}
    (hready : w.Ready t id stage) : w'.Ready t id stage := by
  cases stage with
  | getFile | askChat => trivial
  | openBlob file | decode file _ | putBlob file _ =>
    exact ⟨h.read hqueued.given hready.1, fun row hrow => hready.2 row (h.own hqueued hrow)⟩
  | readyRow file =>
    obtain ⟨hread, hpending, hblob⟩ := hready
    refine ⟨h.read hqueued.given hread, fun row hrow => hpending row (h.own hqueued hrow), fun hhas => ?_⟩
    obtain ⟨row, hrow⟩ := Keyed.has_eq_true.mp hhas
    have hbefore := h.own hqueued hrow
    have hkey := hread.same row hbefore
    have hheld := hblob (Keyed.has_eq_true.mpr ⟨row, hbefore⟩)
    rw [← hkey] at hheld ⊢
    exact h.blobs id row hqueued.given hrow (hqueued.target row hbefore) hheld
  | pointAt file =>
    exact ⟨h.read hqueued.given hready.1, fun row hrow => hready.2 row (h.own hqueued hrow)⟩
  | getSpace file previous =>
    obtain ⟨hread, hshows, hprevious⟩ := hready
    exact ⟨h.read hqueued.given hread, h.shows hshows,
      fun old hold hne => h.loose (hprevious old hold hne)⟩
  | askAuth fromChat => exact fun hchat hkind hid => hready hchat hkind (h.pointsAt hid)
  | deleteRow old key outcome =>
    obtain ⟨hloose, hkey, hshows⟩ := hready
    exact ⟨h.loose hloose, fun k hk => h.spent hkeyed (hkey k hk), fun ho => h.shows (hshows ho)⟩
  | deleteBlob key outcome => exact ⟨h.spent hkeyed hready.1, fun ho => h.shows (hready.2 ho)⟩
  | returned outcome => exact fun ho => h.shows (hready ho)

end Beside

/-! ## What a call does, from inside its lane -/

/-- Between two states, no file something points at went, and no bytes of one. -/
def Spares (w w' : World Bytes) : Prop :=
  ∀ t id row, w.pointsAt t = some id → w.files.get? id = some row →
    w'.files.has id = true ∧ (w.blobs.has row.storageKey = true → w'.blobs.has row.storageKey = true)

/-- A change of the stores by a lane's attempt: every other lane is left alone, the lane's files stay as
its jobs need them, and what its target points at is there to be shown. -/
structure Within (t : Target) (w w' : World Bytes) : Prop where
  others : ∀ t', t' ≠ t → Beside t' w w'
  lanes : w'.lanes = w.lanes
  made : w'.made = w.made
  rows : ∀ id row', w'.files.get? id = some row' → ∃ row, w.files.get? id = some row ∧
    row'.storageKey = row.storageKey
  queued : ∀ id, w.Queued t id → w'.Queued t id
  shown : ∀ id, w'.pointsAt t = some id → w'.Stored t id
  spares : Spares w w'

section Within

variable {w : World Bytes} {t : Target} {id : Nat}

theorem Within.refl (inv : Sound w) (t : Target) : Within t w w where
  others t' _ := .refl t' w
  lanes := rfl
  made := rfl
  rows _ row' h := ⟨row', h, rfl⟩
  queued _ h := h
  shown id h := inv.shown t id h
  spares _ _ row _ hrow := ⟨Keyed.has_eq_true.mpr ⟨row, hrow⟩, id⟩

theorem within_ready (inv : Sound w) (hqueued : w.Queued t id)
    (hblob : ∀ row, w.files.get? id = some row → w.blobs.has row.storageKey = true) :
    Within t w (w.ready id) where
  others t' hne :=
    { made := by rw [made_ready]
      rows := by
        intro k row' _ hrow'
        obtain ⟨row, hrow, rfl | ⟨rfl, -, rfl⟩⟩ := get?_ready hrow'
        · exact ⟨_, hrow, rfl, rfl, fun _ => rfl⟩
        · exact ⟨row, hrow, rfl, rfl, fun ht => absurd (ht.symm.trans (hqueued.target row hrow)) hne⟩
      blobs := fun _ _ _ _ _ hheld => by rwa [blobs_ready]
      holder := fun holder' h => by
        rw [holders_ready] at h
        exact ⟨holder', h, .inl rfl⟩
      pointed := fun k row _ hrow ht =>
        get?_ready_of_ready hrow fun hk => absurd (ht.symm.trans (hqueued.target row (hk ▸ hrow))) hne }
  lanes := lanes_ready w id
  made := made_ready w id
  rows k row' hrow' := by
    obtain ⟨row, hrow, rfl | ⟨-, -, rfl⟩⟩ := get?_ready hrow'
    · exact ⟨_, hrow, rfl⟩
    · exact ⟨row, hrow, rfl⟩
  queued k hk :=
    { given := by rw [made_ready]; exact hk.given
      target := by
        intro row' hrow'
        obtain ⟨row, hrow, rfl | ⟨-, -, rfl⟩⟩ := get?_ready hrow'
        · exact hk.target _ hrow
        · exact hk.target row hrow
      stored := by
        intro row' hrow' hready hhas
        rw [holders_ready] at hhas
        rw [blobs_ready]
        obtain ⟨row, hrow, rfl | ⟨rfl, -, rfl⟩⟩ := get?_ready hrow'
        · exact hk.stored _ hrow hready hhas
        · exact hblob row hrow }
  shown k hk := by
    rw [World.pointsAt, holders_ready] at hk
    obtain ⟨row, hrow, htarget, hready, hheld⟩ := inv.shown t k hk
    exact ⟨row, get?_ready_of_ready hrow fun _ => hready, htarget, hready, by rwa [blobs_ready]⟩
  spares t' k row hk hrow := by
    obtain ⟨row', hrow', -, hready, -⟩ := inv.shown t' k hk
    rw [blobs_ready]
    exact ⟨Keyed.has_eq_true.mpr ⟨row', get?_ready_of_ready hrow' fun _ => hready⟩, fun hheld => hheld⟩

/-- The swap: the target points at a readied file whose bytes are stored. -/
theorem within_point (inv : Sound w) (hqueued : w.Queued t id)
    (hready : ∀ row, w.files.get? id = some row → row.pending = false) :
    Within t w (w.point t id) where
  others t' hne :=
    { made := by rw [made_point]
      rows := fun _ row' _ h => by
        rw [files_point] at h
        exact ⟨row', h, rfl, rfl, fun _ => rfl⟩
      blobs := fun _ _ _ _ _ hheld => by rwa [blobs_point]
      holder := fun holder' h => by
        rw [get?_point_of_ne hne] at h
        exact ⟨holder', h, .inl rfl⟩
      pointed := fun _ _ _ hrow _ => by rwa [files_point] }
  lanes := lanes_point w t id
  made := made_point w t id
  rows _ row' h := by
    rw [files_point] at h
    exact ⟨row', h, rfl⟩
  queued k hk :=
    { given := by rw [made_point]; exact hk.given
      target := fun row hrow => hk.target row (files_point w t id ▸ hrow)
      stored := by
        intro row hrow hpending hhas
        rw [files_point] at hrow
        rw [blobs_point]
        obtain ⟨holder', hholder'⟩ := Keyed.has_eq_true.mp hhas
        obtain ⟨holder, hholder, -⟩ := get?_point hholder'
        exact hk.stored row hrow hpending (Keyed.has_eq_true.mpr ⟨holder, hholder⟩) }
  shown k hk := by
    obtain ⟨holder', hholder', hcurrent⟩ := pointsAt_eq_some.mp hk
    simp only [World.Stored, files_point, blobs_point]
    obtain ⟨holder, hholder, rfl | ⟨-, hhas, rfl⟩⟩ := get?_point hholder'
    · exact inv.shown t k (pointsAt_eq_some.mpr ⟨_, hholder, hcurrent⟩)
    · obtain rfl : id = k := Option.some.inj hcurrent
      obtain ⟨row, hrow⟩ := Keyed.has_eq_true.mp hhas
      exact ⟨row, hrow, hqueued.target row hrow, hready row hrow,
        hqueued.stored row hrow (hready row hrow) (Keyed.has_eq_true.mpr ⟨holder, hholder⟩)⟩
  spares _ _ row _ hrow := by
    rw [files_point, blobs_point]
    exact ⟨Keyed.has_eq_true.mpr ⟨row, hrow⟩, fun hheld => hheld⟩

/-- What a lane may delete nothing points at. -/
theorem World.Loose.unpointed_all (inv : Sound w) (hloose : w.Loose t id) (t' : Target) :
    w.pointsAt t' ≠ some id := by
  intro hid
  obtain ⟨row, hrow, htarget, -⟩ := inv.shown t' id hid
  exact hloose.unpointed (htarget.symm.trans (hloose.target row hrow) ▸ hid)

theorem within_deleteRow (inv : Sound w) (hloose : w.Loose t id) : Within t w (w.deleteRow id) := by
  have hholders : ∀ t', (w.deleteRow id).holders.get? t' = w.holders.get? t' :=
    holders_deleteRow (hloose.unpointed_all inv)
  have hpoints : ∀ t', (w.deleteRow id).pointsAt t' = w.pointsAt t' := fun t' => by
    rw [World.pointsAt, hholders, World.pointsAt]
  have hrows : ∀ k row, (w.deleteRow id).files.get? k = some row → w.files.get? k = some row := by
    intro k row hrow
    rw [get?_deleteRow] at hrow
    split at hrow
    · cases hrow
    · exact hrow
  have hkeeps : ∀ t' k row, w.pointsAt t' = some k → w.files.get? k = some row →
      (w.deleteRow id).files.get? k = some row := by
    intro t' k row hk hrow
    rw [get?_deleteRow, if_neg, hrow]
    rintro rfl
    exact hloose.unpointed_all inv t' hk
  exact
    { others := fun t' _ =>
        { made := Nat.le_refl _
          rows := fun k row _ h => ⟨row, hrows k row h, rfl, rfl, fun _ => rfl⟩
          blobs := fun _ _ _ _ _ hheld => hheld
          holder := fun holder' h => ⟨holder', hholders t' ▸ h, .inl rfl⟩
          pointed := fun k row hk hrow _ => hkeeps t' k row (hpoints t' ▸ hk) hrow }
      lanes := rfl
      made := rfl
      rows := fun k row h => ⟨row, hrows k row h, rfl⟩
      queued := fun k hk =>
        { given := hk.given
          target := fun row hrow => hk.target row (hrows k row hrow)
          stored := fun row hrow hready hhas =>
            hk.stored row (hrows k row hrow) hready (by rwa [Keyed.has, hholders] at hhas) }
      shown := fun k hk => by
        rw [hpoints] at hk
        obtain ⟨row, hrow, hstored⟩ := inv.shown t k hk
        exact ⟨row, hkeeps t k row hk hrow, hstored⟩
      spares := fun t' k row hk hrow =>
        ⟨Keyed.has_eq_true.mpr ⟨row, hkeeps t' k row hk hrow⟩, fun hheld => hheld⟩ }

theorem has_putBlob (w : World Bytes) (key k : StorageKey) (data : Bytes)
    (h : w.blobs.has k = true) : (w.putBlob key data).blobs.has k = true := by
  rw [Keyed.has, World.putBlob, Keyed.get?_set]
  split
  · rfl
  · exact h

theorem within_putBlob (inv : Sound w) (key : StorageKey) (data : Bytes) :
    Within t w (w.putBlob key data) where
  others t' _ :=
    { made := Nat.le_refl _
      rows := fun _ row _ h => ⟨row, h, rfl, rfl, fun _ => rfl⟩
      blobs := fun _ _ _ _ _ hheld => has_putBlob w key _ data hheld
      holder := fun holder h => ⟨holder, h, .inl rfl⟩
      pointed := fun _ _ _ hrow _ => hrow }
  lanes := rfl
  made := rfl
  rows _ row h := ⟨row, h, rfl⟩
  queued k hk :=
    { given := hk.given
      target := hk.target
      stored := fun row hrow hready hhas => has_putBlob w key _ data (hk.stored row hrow hready hhas) }
  shown k hk := by
    obtain ⟨row, hrow, htarget, hready, hheld⟩ := inv.shown t k hk
    exact ⟨row, hrow, htarget, hready, has_putBlob w key _ data hheld⟩
  spares _ _ row _ hrow := ⟨Keyed.has_eq_true.mpr ⟨row, hrow⟩, has_putBlob w key _ data⟩

theorem has_deleteBlob {w : World Bytes} {key k : StorageKey} (hne : k ≠ key) :
    (w.deleteBlob key).blobs.has k = w.blobs.has k := by
  rw [Keyed.has, World.deleteBlob, Keyed.get?_filter_ne w.blobs key k, if_neg hne, Keyed.has]

theorem within_deleteBlob (inv : Sound w) {key : StorageKey} (hspent : w.Spent t key) :
    Within t w (w.deleteBlob key) := by
  -- a readied file with someone to show it has another key
  have hready : ∀ k row, w.files.get? k = some row → row.pending = false →
      w.holders.has row.target = true → w.blobs.has row.storageKey = true →
      (w.deleteBlob key).blobs.has row.storageKey = true := by
    intro k row hrow hpending hhas hheld
    rw [has_deleteBlob, hheld]
    intro hkey
    rcases hspent.unused k row hrow hkey with hpend | hgone
    · rw [hpending] at hpend
      cases hpend
    · rw [hspent.target k row hrow hkey, Keyed.has, hgone] at hhas
      cases hhas
  exact
    { others := fun t' hne =>
        { made := Nat.le_refl _
          rows := fun _ row _ h => ⟨row, h, rfl, rfl, fun _ => rfl⟩
          blobs := fun k row _ hrow ht hheld => by
            rw [has_deleteBlob fun hkey => hne (ht.symm.trans (hspent.target k row hrow hkey)), hheld]
          holder := fun holder h => ⟨holder, h, .inl rfl⟩
          pointed := fun _ _ _ hrow _ => hrow }
      lanes := rfl
      made := rfl
      rows := fun _ row h => ⟨row, h, rfl⟩
      queued := fun k hk =>
        { given := hk.given
          target := hk.target
          stored := fun row hrow hpending hhas => hready k row hrow hpending
            (hk.target row hrow ▸ hhas) (hk.stored row hrow hpending hhas) }
      shown := fun k hk => by
        obtain ⟨holder, hholder, -⟩ := pointsAt_eq_some.mp hk
        obtain ⟨row, hrow, htarget, hpending, hheld⟩ := inv.shown t k hk
        exact ⟨row, hrow, htarget, hpending, hready k row hrow hpending
          (htarget.symm ▸ Keyed.has_eq_true.mpr ⟨holder, hholder⟩) hheld⟩
      spares := fun t' k row hk hrow => by
        obtain ⟨holder, hholder, -⟩ := pointsAt_eq_some.mp hk
        obtain ⟨row', hrow', htarget, hpending, -⟩ := inv.shown t' k hk
        obtain rfl := Option.some.inj (hrow.symm.trans hrow')
        exact ⟨Keyed.has_eq_true.mpr ⟨row, hrow⟩, hready k row hrow hpending
          (htarget.symm ▸ Keyed.has_eq_true.mpr ⟨holder, hholder⟩)⟩ }

end Within

/-! ## One call of an attempt -/

section Call

variable {w w' : World Bytes} {t : Target} {a : Attempt Bytes} {stage : Stage Bytes}

/-- Nothing an attempt returns on but success shows anything. -/
theorem ready_fail : w.Ready t a.fileID a.fail := by
  unfold Attempt.fail
  split
  · trivial
  · exact nofun

/-- What the job made of its own file is spent, where the row is still pending or nobody shows it. -/
theorem spent_own (inv : Sound w) {id : Nat} (hqueued : w.Queued t id) {file : FileRow}
    (hread : w.Read id file)
    (hunused : ∀ row, w.files.get? id = some row → row.pending = true ∨ w.holders.get? t = none) :
    w.Spent t file.storageKey where
  given := hread.key ▸ hqueued.given
  target k row hrow hkey := by
    have hk : id = k := by rw [← hread.key, ← hkey, inv.keyed k row hrow]
    exact hqueued.target row (hk ▸ hrow)
  unused k row hrow hkey := by
    have hk : id = k := by rw [← hread.key, ← hkey, inv.keyed k row hrow]
    exact hunused row (hk ▸ hrow)

/-- The job's own file may go while it is pending or nobody shows it. -/
theorem loose_own (inv : Sound w) {id : Nat} (hqueued : w.Queued t id)
    (hunused : ∀ row, w.files.get? id = some row → row.pending = true ∨ w.holders.get? t = none) :
    w.Loose t id where
  given := hqueued.given
  unpointed hid := by
    obtain ⟨row, hrow, -, hready, -⟩ := inv.shown t id hid
    rcases hunused row hrow with hpending | hgone
    · rw [hready] at hpending
      cases hpending
    · rw [World.pointsAt, hgone] at hid
      cases hid
  target := hqueued.target

/-- Giving the job's file up: its row and its blob go. -/
theorem ready_discard (inv : Sound w) (hqueued : w.Queued t a.fileID) {file : FileRow}
    (hread : w.Read a.fileID file)
    (hunused : ∀ row, w.files.get? a.fileID = some row →
      row.pending = true ∨ w.holders.get? t = none) :
    w.Ready t a.fileID (.deleteRow file.id (some file.storageKey) .unusable) := by
  refine ⟨hread.own ▸ loose_own inv hqueued hunused, fun k hk => ?_, nofun⟩
  obtain rfl := Option.some.inj hk
  exact spent_own inv hqueued hread hunused

/-- The file that was replaced may go: nothing points at it once the target shows its image. -/
theorem ready_replaced {file : FileRow} {previous : Option Nat} (hown : file.id = a.fileID)
    (hshows : w.Shows t a.fileID) (hloose : ∀ old ∈ previous, old ≠ a.fileID → w.Loose t old) :
    w.Ready t a.fileID (replaced file previous) := by
  cases previous with
  | none => exact fun _ => hshows
  | some old =>
    simp only [replaced]
    split
    next => exact fun _ => hshows
    next hne => exact ⟨hloose old rfl (hown ▸ hne), nofun, fun _ => hshows⟩

theorem ready_rowKept {id : Nat} {key : Option StorageKey} {outcome : Outcome}
    (hkey : ∀ k ∈ key, w.Spent t k) (hshows : outcome = .succeeded → w.Shows t id) :
    w.Ready t id (rowKept outcome key) := by
  cases key with
  | none => exact hshows
  | some k => exact ⟨hkey k rfl, hshows⟩

/-- After the row was readied: what is left is the swap. -/
theorem ready_readied {id : Nat} {file row : FileRow} (hread : w.Read id file)
    (hrow : w.files.get? id = some row) (hpending : row.pending = true) :
    (w.ready id).Ready t id (.pointAt { row with pending := false }) := by
  have hid : row.id = id := Keyed.key_of_get? hrow
  have hready : w.ready id = { w with files := w.files.set { row with pending := false } } := by
    simp only [World.ready, hrow, Option.filter_some, hpending, if_true]
  have hget : (w.ready id).files.get? id = some { row with pending := false } := by
    rw [hready, Keyed.get?_set, if_pos hid]
  refine ⟨⟨hid, (hread.same row hrow).symm ▸ hread.key, fun row' hrow' => ?_⟩, fun row' hrow' => ?_⟩
  · obtain rfl := Option.some.inj (hget.symm.trans hrow')
    rfl
  · obtain rfl := Option.some.inj (hget.symm.trans hrow')
    rfl

/-- After the swap: the target shows the image, and what it showed before is loose. -/
theorem swapped (inv : Sound w) {id : Nat} {holder : Holder} (hholder : w.holders.get? t = some holder)
    (hhas : w.files.has id = true) :
    (w.point t id).Shows t id ∧ ∀ old ∈ holder.current, old ≠ id → (w.point t id).Loose t old := by
  have hkey : holder.target = t := Keyed.key_of_get? hholder
  have hget : (w.point t id).holders.get? t = some { holder with current := some id } := by
    simp only [World.point, hholder, hhas, if_true]
    rw [Keyed.get?_set, if_pos hkey]
  constructor
  · intro holder' hholder' _
    obtain rfl := Option.some.inj (hget.symm.trans hholder')
    rfl
  · intro old hold hne
    have hpoints : w.pointsAt t = some old := pointsAt_eq_some.mpr ⟨holder, hholder, hold⟩
    obtain ⟨row, hrow, htarget, -⟩ := inv.shown t old hpoints
    refine ⟨?_, ?_, fun row' hrow' => ?_⟩
    · rw [made_point]
      exact inv.given old row hrow
    · rw [World.pointsAt, hget]
      exact fun heq => hne (Option.some.inj heq).symm
    · rw [files_point, hrow] at hrow'
      rw [← Option.some.inj hrow', htarget]

/-- After a row was deleted: no row has its blob's key. -/
theorem spent_deleted (inv : Sound w) {id : Nat} {row : FileRow} (hrow : w.files.get? id = some row) :
    (w.deleteRow id).Spent t row.storageKey := by
  have hnone : ∀ k row', (w.deleteRow id).files.get? k = some row' →
      row'.storageKey ≠ row.storageKey := by
    intro k row' hrow' hkey
    rw [get?_deleteRow] at hrow'
    split at hrow'
    · cases hrow'
    next hne => exact hne (by rw [← inv.keyed k row' hrow', hkey, inv.keyed id row hrow])
  refine ⟨?_, fun k row' hrow' hkey => absurd hkey (hnone k row' hrow'),
    fun k row' hrow' hkey => absurd hkey (hnone k row' hrow')⟩
  rw [inv.keyed id row hrow]
  exact inv.given id row hrow

theorem World.Loose.shows (inv : Sound w) {id k : Nat} (hloose : w.Loose t id) (h : w.Shows t k) :
    (w.deleteRow id).Shows t k := by
  intro holder hholder
  rw [holders_deleteRow (hloose.unpointed_all inv)] at hholder
  exact h holder hholder

theorem World.Spent.deleteRow {key : StorageKey} (hspent : w.Spent t key) (id : Nat) :
    (w.deleteRow id).Spent t key where
  given := hspent.given
  target k row hrow := by
    rw [get?_deleteRow] at hrow
    split at hrow
    · cases hrow
    · exact hspent.target k row hrow
  unused k row hrow hkey := by
    rw [get?_deleteRow] at hrow
    split at hrow
    · cases hrow
    · refine (hspent.unused k row hrow hkey).imp_right fun hgone => ?_
      rw [World.deleteRow, Keyed.get?_map, hgone, Option.map_none]

/-- The reference check finds a target that points at the file. -/
theorem refers_of_pointsAt {id : Nat} (h : w.pointsAt t = some id) : w.refers t.kind id = true := by
  obtain ⟨holder, hholder, hcurrent⟩ := pointsAt_eq_some.mp h
  have hkey : holder.target = t := Keyed.key_of_get? hholder
  exact List.any_eq_true.mpr ⟨holder, Keyed.mem_values.mpr (by rw [hkey, hholder]),
    by simp [hkey, hcurrent]⟩

/-- **What a call leaves**: every other lane alone, and what the attempt's next call relies on. -/
theorem call_within (inv : Sound w) (hrunning : (w.lanes t).running = some a) {fate : Fate}
    (h : a.call processImage w t fate = some (w', stage)) :
    Within t w w' ∧ w'.Ready t a.fileID stage := by
  have hqueued : w.Queued t a.fileID := inv.queued t a.fileID (by
    rw [Lane.jobs, hrunning]
    exact List.mem_cons_self)
  have hready := inv.ready t a hrunning
  obtain ⟨id, lastAttempt, current⟩ := a
  cases current with
  | getFile =>
    cases fate with
    | answered =>
      simp only [Attempt.call] at h
      split at h
      next => cases h; exact ⟨.refl inv t, by rintro ⟨⟩⟩
      next file hfile =>
        cases h
        have hread : w.Read id file :=
          ⟨Keyed.key_of_get? hfile, inv.keyed id file hfile,
            fun row hrow => by rw [Option.some.inj (hrow.symm.trans hfile)]⟩
        refine ⟨.refl inv t, ?_⟩
        split
        next hpending =>
          exact ⟨hread, fun row hrow => by rwa [Option.some.inj (hrow.symm.trans hfile)]⟩
        next hpending =>
          exact ⟨hread, fun row hrow => by
            rwa [Option.some.inj (hrow.symm.trans hfile), ← Bool.not_eq_true]⟩
    | refused | unheard => cases h; exact ⟨.refl inv t, ready_fail⟩
  | openBlob file =>
    cases fate with
    | answered =>
      simp only [Attempt.call] at h
      split at h
      next => cases h; exact ⟨.refl inv t, ready_fail⟩
      next => cases h; exact ⟨.refl inv t, hready⟩
    | refused | unheard => cases h; exact ⟨.refl inv t, ready_fail⟩
  | decode file data =>
    cases fate with
    | answered =>
      simp only [Attempt.call] at h
      split at h
      next =>
        cases h
        exact ⟨.refl inv t, ready_discard inv hqueued hready.1 fun row hrow => .inl (hready.2 row hrow)⟩
      next => cases h; exact ⟨.refl inv t, hready⟩
    | refused | unheard => cases h; exact ⟨.refl inv t, ready_fail⟩
  | putBlob file encoded =>
    have hput := @within_putBlob _ w t inv file.storageKey encoded
    cases fate with
    | answered =>
      cases h
      refine ⟨hput, ⟨hready.1.own, hready.1.key, hready.1.same⟩, hready.2, fun _ => ?_⟩
      show (w.blobs.set (file.storageKey, encoded)).has file.storageKey = true
      rw [Keyed.has, Keyed.get?_set, if_pos rfl]
      rfl
    | refused => cases h; exact ⟨.refl inv t, ready_fail⟩
    | unheard => cases h; exact ⟨hput, ready_fail⟩
  | readyRow file =>
    obtain ⟨hread, hpending, hblob⟩ := hready
    have hid : file.id = id := hread.own
    have hwithin : Within t w (w.ready file.id) := by
      rw [hid]
      refine within_ready inv hqueued fun row hrow => ?_
      rw [hread.same row hrow]
      exact hblob (Keyed.has_eq_true.mpr ⟨row, hrow⟩)
    cases fate with
    | answered =>
      simp only [Attempt.call] at h
      split at h
      next =>
        cases h
        exact ⟨.refl inv t, ready_discard inv hqueued hread fun row hrow => .inl (hpending row hrow)⟩
      next row hrow =>
        cases h
        obtain ⟨hget, hpend⟩ := Option.filter_eq_some_iff.mp hrow
        rw [hid] at hwithin hget ⊢
        exact ⟨hwithin, ready_readied hread hget hpend⟩
    | refused => cases h; exact ⟨.refl inv t, ready_fail⟩
    | unheard => cases h; exact ⟨hwithin, ready_fail⟩
  | pointAt file =>
    obtain ⟨hread, hreadied⟩ := hready
    have hid : file.id = id := hread.own
    have hwithin : Within t w (w.point t file.id) := hid ▸ within_point inv hqueued hreadied
    cases fate with
    | answered =>
      simp only [Attempt.call] at h
      split at h
      next hgone =>
        cases h
        exact ⟨.refl inv t, ready_discard inv hqueued hread fun _ _ => .inr hgone⟩
      next holder hholder =>
        split at h
        next hhas =>
          cases h
          rw [hid] at hwithin hhas ⊢
          obtain ⟨hshows, hloose⟩ := swapped inv hholder hhas
          refine ⟨hwithin, ?_⟩
          cases t with
          | user user => exact ready_replaced hid hshows hloose
          | space space =>
            refine ⟨⟨hread.own, hread.key, fun row hrow => ?_⟩, hshows, hloose⟩
            rw [files_point] at hrow
            exact hread.same row hrow
        next => cases h; exact ⟨.refl inv t, ready_fail⟩
    | refused => cases h; exact ⟨.refl inv t, ready_fail⟩
    | unheard => cases h; exact ⟨hwithin, ready_fail⟩
  | getSpace file previous =>
    obtain ⟨hread, hshows, hloose⟩ := hready
    cases fate with
    | answered =>
      simp only [Attempt.call] at h
      split at h
      next hgone =>
        cases h
        exact ⟨.refl inv t, ready_discard inv hqueued hread fun _ _ => .inr hgone⟩
      next => cases h; exact ⟨.refl inv t, ready_replaced hread.own hshows hloose⟩
    | refused | unheard => cases h; exact ⟨.refl inv t, ready_fail⟩
  | askChat =>
    cases fate with
    | answered =>
      cases h
      refine ⟨.refl inv t, fun hchat hkind hid => ?_⟩
      have hrefers := refers_of_pointsAt hid
      rw [hkind, hchat] at hrefers
      cases hrefers
    | refused | unheard => cases h; exact ⟨.refl inv t, by rintro ⟨⟩⟩
  | askAuth fromChat =>
    cases fate with
    | answered =>
      cases h
      refine ⟨.refl inv t, ?_⟩
      split
      next => rintro ⟨⟩
      next hunreferenced =>
        refine ⟨⟨hqueued.given, fun hid => ?_, hqueued.target⟩, by rintro _ ⟨⟩, by rintro ⟨⟩⟩
        rw [Bool.or_eq_true, not_or, Bool.not_eq_true] at hunreferenced
        obtain ⟨hchat, hauth⟩ := hunreferenced
        cases t with
        | user user => exact hauth (refers_of_pointsAt hid)
        | space space => exact hready hchat rfl hid
    | refused | unheard => cases h; exact ⟨.refl inv t, by rintro ⟨⟩⟩
  | deleteRow old key outcome =>
    obtain ⟨hloose, hkey, hshows⟩ := hready
    have hwithin := within_deleteRow inv hloose
    cases fate with
    | answered =>
      simp only [Attempt.call] at h
      split at h
      next => cases h; exact ⟨.refl inv t, ready_rowKept hkey hshows⟩
      next row hrow =>
        cases h
        exact ⟨hwithin, spent_deleted inv hrow, fun ho => hloose.shows inv (hshows ho)⟩
    | refused => cases h; exact ⟨.refl inv t, ready_rowKept hkey hshows⟩
    | unheard =>
      cases h
      exact ⟨hwithin, ready_rowKept (fun k hk => (hkey k hk).deleteRow old)
        fun ho => hloose.shows inv (hshows ho)⟩
  | deleteBlob key outcome =>
    obtain ⟨hspent, hshows⟩ := hready
    have hwithin := within_deleteBlob inv hspent
    cases fate with
    | refused => cases h; exact ⟨.refl inv t, hshows⟩
    | answered | unheard => cases h; exact ⟨hwithin, hshows⟩
  | returned outcome => cases fate <;> cases h

end Call

/-! ## Every step -/

section Step

variable {w w' : World Bytes} {t : Target} {lane : Lane Bytes}

/-- What holds but for one lane. -/
structure Elsewhere (t : Target) (w : World Bytes) : Prop where
  given : ∀ id row, w.files.get? id = some row → id < w.made
  keyed : ∀ id row, w.files.get? id = some row → row.storageKey.id = id
  shown : ∀ t' id, w.pointsAt t' = some id → w.Stored t' id
  queued : ∀ t', t' ≠ t → ∀ id ∈ (w.lanes t').jobs, w.Queued t' id
  ready : ∀ t', t' ≠ t → ∀ a, (w.lanes t').running = some a → w.Ready t' a.fileID a.stage
  idle : ∀ t', t' ≠ t → ∀ id, (w.lanes t').jobs = [] → (w.lanes t').ended = some (id, .succeeded) →
    w.Shows t' id

theorem given_of_stored {id : Nat} (given : ∀ id row, w.files.get? id = some row → id < w.made)
    (h : w.Stored t id) : id < w.made := by
  obtain ⟨row, hrow, -⟩ := h
  exact given id row hrow

theorem Sound.elsewhere (inv : Sound w) (t : Target) : Elsewhere t w where
  given := inv.given
  keyed := inv.keyed
  shown := inv.shown
  queued t' _ := inv.queued t'
  ready t' _ := inv.ready t'
  idle t' _ := inv.idle t'

/-- A lane set to what its jobs and its attempt allow. -/
theorem Elsewhere.setLane (h : Elsewhere t w) (queued : ∀ id ∈ lane.jobs, w.Queued t id)
    (ready : ∀ a, lane.running = some a → w.Ready t a.fileID a.stage)
    (idle : ∀ id, lane.jobs = [] → lane.ended = some (id, .succeeded) → w.Shows t id) :
    Sound (w.setLane t lane) := by
  have hb : ∀ t', Beside t' w (w.setLane t lane) := fun t' =>
    { made := Nat.le_refl _
      rows := fun _ row _ hrow => ⟨row, hrow, rfl, rfl, fun _ => rfl⟩
      blobs := fun _ _ _ _ _ hheld => hheld
      holder := fun holder hholder => ⟨holder, hholder, .inl rfl⟩
      pointed := fun _ _ _ hrow _ => hrow }
  have hself : (w.setLane t lane).lanes t = lane := Function.update_self ..
  have hother : ∀ t', t' ≠ t → (w.setLane t lane).lanes t' = w.lanes t' :=
    fun t' hne => Function.update_of_ne hne ..
  refine ⟨h.given, h.keyed, fun t' id hid => ?_, fun t' id hid => ?_, fun t' a ha => ?_,
    fun t' id hjobs hended => ?_⟩
  · have hstored := h.shown t' id hid
    exact (hb t').stored hid (given_of_stored h.given hstored) hstored
  · by_cases ht : t' = t
    · subst ht
      rw [hself] at hid
      exact (hb t').queued (queued id hid)
    · rw [hother t' ht] at hid
      exact (hb t').queued (h.queued t' ht id hid)
  · by_cases ht : t' = t
    · subst ht
      rw [hself] at ha
      have hqueued := queued a.fileID (by rw [Lane.jobs, ha]; exact List.mem_cons_self)
      exact (hb t').ready h.keyed hqueued (ready a ha)
    · rw [hother t' ht] at ha
      have hqueued := h.queued t' ht a.fileID (by rw [Lane.jobs, ha]; exact List.mem_cons_self)
      exact (hb t').ready h.keyed hqueued (h.ready t' ht a ha)
  · by_cases ht : t' = t
    · subst ht
      rw [hself] at hjobs hended
      exact (hb t').shows (idle id hjobs hended)
    · rw [hother t' ht] at hjobs hended
      exact (hb t').shows (h.idle t' ht id hjobs hended)

theorem Within.elsewhere (inv : Sound w) (h : Within t w w') : Elsewhere t w' := by
  have keyed : ∀ id row', w'.files.get? id = some row' → row'.storageKey.id = id := by
    intro id row' hrow'
    obtain ⟨row, hrow, hsame⟩ := h.rows id row' hrow'
    rw [hsame, inv.keyed id row hrow]
  refine ⟨fun id row' hrow' => ?_, keyed, fun t' id hid => ?_, fun t' ht id hid => ?_,
    fun t' ht a ha => ?_, fun t' ht id hjobs hended => ?_⟩
  · obtain ⟨row, hrow, -⟩ := h.rows id row' hrow'
    rw [h.made]
    exact inv.given id row hrow
  · by_cases ht : t' = t
    · subst ht
      exact h.shown id hid
    · have hstored := inv.shown t' id ((h.others t' ht).pointsAt hid)
      exact (h.others t' ht).stored hid (given_of_stored inv.given hstored) hstored
  · rw [h.lanes] at hid
    exact (h.others t' ht).queued (inv.queued t' id hid)
  · rw [h.lanes] at ha
    have hqueued := inv.queued t' a.fileID (by rw [Lane.jobs, ha]; exact List.mem_cons_self)
    exact (h.others t' ht).ready keyed hqueued (inv.ready t' a ha)
  · rw [h.lanes] at hjobs hended
    exact (h.others t' ht).shows (inv.idle t' id hjobs hended)

/-- A change beside every lane. -/
theorem Sound.beside (inv : Sound w) (h : ∀ t, Beside t w w') (hlanes : w'.lanes = w.lanes)
    (given : ∀ id row, w'.files.get? id = some row → id < w'.made)
    (keyed : ∀ id row, w'.files.get? id = some row → row.storageKey.id = id) : Sound w' where
  given := given
  keyed := keyed
  shown t id hid := by
    have hstored := inv.shown t id ((h t).pointsAt hid)
    exact (h t).stored hid (given_of_stored inv.given hstored) hstored
  queued t id hid := (h t).queued (inv.queued t id (hlanes ▸ hid))
  ready t a ha := by
    rw [hlanes] at ha
    have hqueued := inv.queued t a.fileID (by rw [Lane.jobs, ha]; exact List.mem_cons_self)
    exact (h t).ready keyed hqueued (inv.ready t a ha)
  idle t id hjobs hended := (h t).shows (inv.idle t id (hlanes ▸ hjobs) (hlanes ▸ hended))

/-! ### Uploads -/

theorem sound_uploaded (inv : Sound w) (t : Target) (uploader : Nat) (data : Bytes) :
    Sound { w with
      files := w.files.set (pendingRow t uploader w.made)
      blobs := w.blobs.set (storageKey t.kind w.made, data)
      made := w.made + 1 } := by
  have hrows : ∀ id row', (w.files.set (pendingRow t uploader w.made)).get? id = some row' →
      id = w.made ∧ row' = pendingRow t uploader w.made ∨ w.files.get? id = some row' := by
    intro id row' hrow'
    rcases Keyed.get?_set_cases hrow' with ⟨hk, rfl⟩ | ⟨-, hrow⟩
    · exact .inl ⟨hk.symm, rfl⟩
    · exact .inr hrow
  refine inv.beside (fun t' => ?_) rfl (fun id row' hrow' => ?_) fun id row' hrow' => ?_
  · refine
      { made := Nat.le_succ _
        rows := fun id row' hid hrow' => ?_
        blobs := fun id row' _ _ _ hheld => ?_
        holder := fun holder h => ⟨holder, h, .inl rfl⟩
        pointed := fun id row _ hrow _ => ?_ }
    · rcases hrows id row' hrow' with ⟨rfl, -⟩ | hrow
      · exact absurd hid (Nat.lt_irrefl _)
      · exact ⟨row', hrow, rfl, rfl, fun _ => rfl⟩
    · exact has_putBlob w (storageKey t.kind w.made) _ data hheld
    · rw [Keyed.get?_set, if_neg, hrow]
      exact fun hk => Nat.lt_irrefl _ ((show w.made = id from hk) ▸ inv.given id row hrow)
  · rcases hrows id row' hrow' with ⟨rfl, -⟩ | hrow
    · exact Nat.lt_succ_self _
    · exact Nat.lt_succ_of_lt (inv.given id row' hrow)
  · rcases hrows id row' hrow' with ⟨rfl, rfl⟩ | hrow
    · rfl
    · exact inv.keyed id row' hrow

/-- A file just uploaded is one its job can be queued for. -/
theorem queued_uploaded (w : World Bytes) (t : Target) (uploader : Nat) (data : Bytes) :
    World.Queued { w with
      files := w.files.set (pendingRow t uploader w.made)
      blobs := w.blobs.set (storageKey t.kind w.made, data)
      made := w.made + 1 } t w.made := by
  have hrow : ∀ row, (w.files.set (pendingRow t uploader w.made)).get? w.made = some row →
      row = pendingRow t uploader w.made := by
    intro row h
    rw [Keyed.get?_set, if_pos (show (pendingRow t uploader w.made).id = w.made from rfl)] at h
    exact (Option.some.inj h).symm
  refine ⟨Nat.lt_succ_self _, fun row h => ?_, fun row h hready => ?_⟩
  · rw [hrow row h]
    cases t <;> rfl
  · rw [hrow row h] at hready
    cases hready

/-! ### What goes on beside the lanes -/

theorem beside_deleteAccount (w : World Bytes) (user : Nat) (t : Target) :
    Beside t w { w with
      holders := w.holders.map
        (fun holder =>
          if holder.target = .user user then { holder with deleted := true, current := none }
          else holder)
        fun holder => by split <;> rfl } where
  made := Nat.le_refl _
  rows _ row _ h := ⟨row, h, rfl, rfl, fun _ => rfl⟩
  blobs _ _ _ _ _ h := h
  holder holder' h := by
    rw [Keyed.get?_map] at h
    obtain ⟨holder, hholder, rfl⟩ := Option.map_eq_some_iff.mp h
    refine ⟨holder, hholder, ?_⟩
    split
    · exact .inr ⟨rfl, rfl⟩
    · exact .inl rfl
  pointed _ _ _ h _ := h

theorem beside_deleteSpace (w : World Bytes) (space : Nat) (t : Target) :
    Beside t w { w with
      holders := w.holders.filter fun holder => holder.target != .space space
      files := w.files.filter fun file => file.spaceID != some space } where
  made := Nat.le_refl _
  rows _ row _ h := ⟨row, (Keyed.get?_filter_eq_some h).1, rfl, rfl, fun _ => rfl⟩
  blobs _ _ _ _ _ h := h
  holder holder h := ⟨holder, (Keyed.get?_filter_eq_some h).1, .inl rfl⟩
  pointed id row hid hrow ht := by
    obtain ⟨holder, hholder, -⟩ := pointsAt_eq_some.mp hid
    obtain ⟨hget, hstays⟩ := Keyed.get?_filter_eq_some hholder
    have hkey : holder.target = t := Keyed.key_of_get? hget
    -- the space is not the row's
    have hspace : row.spaceID ≠ some space := by
      intro hspace
      rw [FileRow.target, hspace] at ht
      rw [hkey, ← ht] at hstays
      simp at hstays
    rw [Keyed.get?_filter, hrow]
    exact Option.filter_some_pos (bne_iff_ne.mpr hspace)

theorem beside_sweep {id : Nat} {file : FileRow} (inv : Sound w) (hfile : w.files.get? id = some file)
    (hunpointed : ∀ t, w.pointsAt t ≠ some id) (t : Target) :
    Beside t w ((w.deleteRow id).deleteBlob file.storageKey) := by
  have hholders : ∀ t', (w.deleteRow id).holders.get? t' = w.holders.get? t' :=
    holders_deleteRow hunpointed
  have hrows : ∀ k row, (w.deleteRow id).files.get? k = some row →
      w.files.get? k = some row ∧ k ≠ id := by
    intro k row hrow
    rw [get?_deleteRow] at hrow
    split at hrow
    · cases hrow
    next hne => exact ⟨hrow, hne⟩
  exact
    { made := Nat.le_refl _
      rows := fun k row _ h => ⟨row, (hrows k row h).1, rfl, rfl, fun _ => rfl⟩
      blobs := fun k row _ h _ hheld => by
        obtain ⟨hrow, hne⟩ := hrows k row h
        refine (has_deleteBlob fun hkey => hne ?_).trans hheld
        rw [← inv.keyed k row hrow, hkey, inv.keyed id file hfile]
      holder := fun holder h => ⟨holder, hholders t ▸ h, .inl rfl⟩
      pointed := fun k row hk hrow _ => by
        have hpoints : w.pointsAt t = some k := by
          rwa [World.pointsAt, World.deleteBlob, hholders] at hk
        show (w.deleteRow id).files.get? k = some row
        rw [get?_deleteRow, if_neg, hrow]
        rintro rfl
        exact hunpointed t hpoints }

/-! ### The step lemma -/

theorem mem_jobs_waiting {id : Nat} (h : id ∈ lane.waiting) : id ∈ lane.jobs :=
  List.mem_append_right _ h

theorem mem_jobs_running {a : Attempt Bytes} (h : lane.running = some a) : a.fileID ∈ lane.jobs := by
  rw [Lane.jobs, h]
  exact List.mem_cons_self

/-- A job that leaves its lane, or goes back to the front of it. -/
theorem Sound.left (inv : Sound w) {id : Nat} {outcome : Outcome}
    (hwaiting : ∀ k ∈ lane.waiting, k ∈ (w.lanes t).jobs)
    (hshows : outcome = .succeeded → w.Shows t id) : Sound (w.setLane t (lane.end id outcome)) := by
  refine (inv.elsewhere t).setLane (fun k hk => inv.queued t k (hwaiting k hk)) (fun a ha => ?_)
    fun k _ hended => ?_
  · cases ha
  · cases hended
    exact hshows rfl

theorem Sound.retried (inv : Sound w) {a : Attempt Bytes} (ha : (w.lanes t).running = some a) :
    Sound (w.setLane t ((w.lanes t).retry a.fileID)) := by
  refine (inv.elsewhere t).setLane (fun k hk => ?_) (fun a' ha' => ?_) fun k hjobs => ?_
  · rcases List.mem_cons.mp hk with rfl | hwaiting
    · exact inv.queued t _ (mem_jobs_running ha)
    · exact inv.queued t k (mem_jobs_waiting hwaiting)
  · cases ha'
  · cases hjobs

/-- **The step lemma.** -/
theorem Sound.step (inv : Sound w) {label : Label Bytes} (h : w.step processImage label = some w') :
    Sound w' := by
  cases label with
  | upload t uploader position data =>
    obtain rfl := Option.some.inj h
    refine ((sound_uploaded inv t uploader data).elsewhere t).setLane (fun id hid => ?_) ?_ ?_
    · simp only [Lane.jobs, List.mem_append, List.mem_cons] at hid
      have hold : id ∈ (w.lanes t).jobs → World.Queued _ t id :=
        (sound_uploaded inv t uploader data).queued t id
      rcases hid with hrunning | htake | rfl | hdrop
      · exact hold (List.mem_append_left _ hrunning)
      · exact hold (mem_jobs_waiting (List.mem_of_mem_take htake))
      · exact queued_uploaded w t uploader data
      · exact hold (mem_jobs_waiting (List.mem_of_mem_drop hdrop))
    · exact (sound_uploaded inv t uploader data).ready t
    · intro id hjobs
      simp [Lane.jobs] at hjobs
  | start t lastAttempt =>
    simp only [World.step] at h
    split at h
    next id rest hrunning hwaiting =>
      obtain rfl := Option.some.inj h
      refine (inv.elsewhere t).setLane (fun k hk => inv.queued t k (mem_jobs_waiting ?_)) ?_ (by rintro _ ⟨⟩)
      · rw [hwaiting]
        exact hk
      · intro a ha
        obtain rfl := Option.some.inj ha
        trivial
    next => cases h
  | call t fate =>
    simp only [World.step] at h
    split at h
    next => cases h
    next a ha =>
      obtain ⟨⟨w₁, stage⟩, hcall, rfl⟩ := Option.map_eq_some_iff.mp h
      obtain ⟨hwithin, hready⟩ := call_within processImage inv ha hcall
      refine (hwithin.elsewhere inv).setLane (fun k hk => hwithin.queued k (inv.queued t k ?_)) ?_ (by rintro _ ⟨⟩)
      · rw [Lane.jobs, ha]
        exact hk
      · intro a' ha'
        obtain rfl := Option.some.inj ha'
        exact hready
  | crash t =>
    simp only [World.step] at h
    split at h
    next => cases h
    next a ha =>
      obtain rfl := Option.some.inj h
      exact inv.retried ha
  | settle t again =>
    simp only [World.step] at h
    split at h
    next id lastAttempt ha =>
      split at h
      next =>
        obtain rfl := Option.some.inj h
        exact inv.retried ha
      next =>
        split at h
        next =>
          obtain rfl := Option.some.inj h
          exact inv.left (fun k hk => mem_jobs_waiting hk) (by rintro ⟨⟩)
        next => cases h
    next id lastAttempt outcome _ ha =>
      obtain rfl := Option.some.inj h
      exact inv.left (fun k hk => mem_jobs_waiting hk) (inv.ready t _ ha)
    next => cases h
  | lapse t =>
    simp only [World.step] at h
    split at h
    next id rest hrunning hwaiting =>
      obtain rfl := Option.some.inj h
      refine inv.left (fun k hk => mem_jobs_waiting ?_) (by rintro ⟨⟩)
      rw [hwaiting]
      exact List.mem_cons_of_mem _ hk
    next => cases h
  | deleteAccount user =>
    obtain rfl := Option.some.inj h
    exact inv.beside (beside_deleteAccount w user) rfl inv.given inv.keyed
  | deleteSpace space =>
    obtain rfl := Option.some.inj h
    exact inv.beside (beside_deleteSpace w space) rfl
      (fun id row hrow => inv.given id row (Keyed.get?_filter_eq_some hrow).1)
      fun id row hrow => inv.keyed id row (Keyed.get?_filter_eq_some hrow).1
  | sweep id =>
    simp only [World.step] at h
    split at h
    next => cases h
    next file hfile =>
      split at h
      next => cases h
      next hnone =>
        obtain rfl := Option.some.inj h
        have hunpointed : ∀ t, w.pointsAt t ≠ some id := fun t ht => by
          obtain ⟨holder, hholder, hcurrent⟩ := pointsAt_eq_some.mp ht
          refine hnone (List.any_eq_true.mpr ⟨holder, Keyed.mem_values.mpr ?_, by simp [hcurrent]⟩)
          rw [Keyed.key_of_get? hholder, hholder]
        have hrows : ∀ k row, (w.deleteRow id).files.get? k = some row → w.files.get? k = some row := by
          intro k row hrow
          rw [get?_deleteRow] at hrow
          split at hrow
          · cases hrow
          · exact hrow
        exact inv.beside (beside_sweep inv hfile hunpointed) rfl
          (fun k row hrow => inv.given k row (hrows k row hrow))
          fun k row hrow => inv.keyed k row (hrows k row hrow)

theorem sound_start (holders : Keyed Holder.target) : Sound (World.start holders : World Bytes) where
  given _ _ h := by cases h
  keyed _ _ h := by cases h
  shown t id h := by
    obtain ⟨holder', hholder', hcurrent⟩ := pointsAt_eq_some.mp h
    rw [World.start, Keyed.get?_map] at hholder'
    obtain ⟨holder, -, rfl⟩ := Option.map_eq_some_iff.mp hholder'
    cases hcurrent
  queued _ _ h := by cases h
  ready _ _ h := by cases h
  idle _ _ _ h := by cases h

/-- **The run lemma.** -/
theorem Sound.run {holders : Keyed Holder.target}
    (h : Runs (World.step processImage) Always (World.start holders) w) : Sound w :=
  h.keeps (sound_start holders) fun _ _ _ inv _ hstep => inv.step processImage hstep

end Step

/-! ## What the runs keep -/

/-- What a target points at is there to be shown: its row, readied, and its bytes. -/
def Intact (w : World Bytes) : Prop := ∀ t id, w.pointsAt t = some id → w.Stored t id

/-- A lane left idle by a job that succeeded has its target, if it is there, showing that job's image. -/
def ShowsLast (w : World Bytes) : Prop :=
  ∀ t id, (w.lanes t).jobs = [] → (w.lanes t).ended = some (id, .succeeded) → w.Shows t id

/-- A call takes no file that something points at, nor the bytes of one. -/
theorem call_spares {w w' : World Bytes} {t : Target} {fate : Fate} (inv : Sound w)
    (h : w.step processImage (.call t fate) = some w') : Spares w w' := by
  simp only [World.step] at h
  split at h
  next => cases h
  next a ha =>
    obtain ⟨⟨w₁, stage⟩, hcall, rfl⟩ := Option.map_eq_some_iff.mp h
    exact (call_within processImage inv ha hcall).1.spares

/-- **A new image survives crashes and retries.** -/
theorem image_survives {holders : Keyed Holder.target} {w : World Bytes}
    (h : Runs (World.step processImage) Always (World.start holders) w) :
    Intact w ∧
      (∀ t fate w', w.step processImage (.call t fate) = some w' → Spares w w') ∧ ShowsLast w := by
  have inv : Sound w := Sound.run processImage h
  exact ⟨inv.shown, fun t fate w' hstep => call_spares processImage inv hstep, inv.idle⟩

/-! ## A run -/

/-- An encoder of bytes that are numbers: 0 does not decode. -/
def encodeNumber (data size : Nat) : Option Nat := if data = 0 then none else some (data + size)

/-- One space, and nothing else. -/
def oneSpace : Keyed Holder.target := Keyed.empty.set { target := .space 1 }

/-- Two icons for a space. The first job crashes with its blob written, and its last attempt swaps the
pointer without hearing of it; the second job replaces it. -/
def twoIcons : List (Label Nat) :=
  let t := .space 1
  let answered := Label.call t .answered
  [.upload t 7 0 5, .upload t 7 1 6,
    .start t false, answered, answered, answered, answered, .crash t,
    .start t true, answered, answered, answered, answered, answered, .call t .unheard, answered,
    answered, .settle t false,
    .start t false, answered, answered, answered, answered, answered, answered, answered, answered,
    answered, .settle t false]

/-- The space shows the second icon at the end, and the first is gone. -/
theorem twoIcons_survive :
    ∃ w : World Nat, runList (World.step encodeNumber) (World.start oneSpace) twoIcons = some w ∧
      Intact w ∧ ShowsLast w ∧ w.pointsAt (.space 1) = some 1 ∧ w.files.has 0 = false := by
  have hrun : ∀ w, runList (World.step encodeNumber) (World.start oneSpace) twoIcons = some w →
      Intact w ∧ ShowsLast w := fun w hw =>
    have survives := image_survives encodeNumber (Runs.ofList twoIcons (EachStep.always _ _) hw)
    ⟨survives.1, survives.2.2⟩
  exact ⟨_, rfl, (hrun _ rfl).1, (hrun _ rfl).2, by decide, by decide⟩

end Stoop.Files.Normalise
