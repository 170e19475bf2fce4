import Mathlib.Data.List.Sort
import Stoop.Lib.Machine
import Stoop.Lib.Keyed

/-!
# The file sweep, beside the sends and pointer moves that make a file one in use

`Sweep` pages the files older than the grace period, asks chat and then auth which of them they still
point at, and deletes the rest one statement at a time (`internal/files/sweep.go`). Each question and each
delete is a step here, and so is what makes a reference: a send's insert of the attachments it claimed
before (`internal/chat/attachments.go`), and a pointer's move.

Nothing asks again with the delete. A sweep dooms a file from the answer that leaves it out to the
statement that takes it, and takes a file in use exactly where a reference to it is made in between:
`sweep_spares_used` is the runs in which none is (`ClearOfSweeps`), `sweep_takes_claimed` one with a send
of an old upload. The grace period is what makes that rare: `young_not_doomed` says a sweep dooms no file
younger than it.

The second half of a sweep, which takes blobs no row names, touches no row and is left out.
-/

set_option autoImplicit false

namespace Stoop.Files

open Stoop.Lib

/-! ## The tables -/

inductive Kind
  | avatar
  | spaceIcon
  | attachment
  | linkPreview
  | attachmentThumbnail
  deriving DecidableEq, Repr

/-- A row of `files`. -/
structure File where
  id : Nat
  kind : Kind
  ownerID : Nat
  spaceID : Option Nat := none
  privateChannelID : Option Nat := none
  createdAt : Nat
  expired : Bool := false
  thumbnailOf : Option Nat := none
  deriving DecidableEq, Repr

/-- The modules that point at files. -/
inductive Owner
  | chat
  | auth
  deriving DecidableEq, Repr

/-- What holds a reference: a row of `message_attachments`, a link preview's image, a space's icon, a
person's avatar. -/
inductive Holder
  | message (id : Nat)
  | preview (url : Nat)
  | icon (space : Nat)
  | avatar (user : Nat)
  deriving DecidableEq, Repr

def Holder.owner : Holder → Owner
  | .message _ | .preview _ | .icon _ => .chat
  | .avatar _ => .auth

structure Reference where
  holder : Holder
  file : Nat
  deriving DecidableEq, Repr

/-- The files, and what points at them. -/
structure Tables where
  files : Keyed File.id
  references : List Reference

namespace Tables

/-- Whether a module points at a file: `ReferencedFileIDs` and `ReferencedAvatarFileIDs`. -/
def refers (t : Tables) (owner : Owner) (file : Nat) : Bool :=
  t.references.any fun ref => ref.holder.owner == owner && ref.file == file

/-- Whether anything points at a file. -/
def inUse (t : Tables) (file : Nat) : Bool := t.references.any fun ref => ref.file == file

end Tables

/-- Whether a row goes with these: one of them, or a thumbnail of one. -/
def File.goesWith (ids : List Nat) (file : File) : Bool :=
  ids.contains file.id || file.thumbnailOf.any ids.contains

/-- The rows `DeleteFilesByIDs` returns. -/
def Tables.taken (t : Tables) (ids : List Nat) : List File := t.files.values.filter (·.goesWith ids)

/-- `DeleteFilesByIDs`, with what the references to a file do then: an attachment's row goes, a pointer is
cleared. -/
def Tables.deleteFilesByIDs (t : Tables) (ids : List Nat) : Tables :=
  { files := t.files.filter fun file => !file.goesWith ids
    references := t.references.filter fun ref => !((t.taken ids).map (·.id)).contains ref.file }

/-- `ExpireFiles`: the files with some marked expired. -/
def Tables.expire (t : Tables) (ids : List Nat) : Tables :=
  { t with
    files := t.files.map (fun file => { file with expired := file.expired || ids.contains file.id })
      fun _ => rfl }

/-! ## Claims -/

def maxAttachments : Nat := 10

/-- Where a send goes: its sender, the channel's space, and the channel itself if it is private. -/
structure Target where
  userID : Nat
  spaceID : Option Nat
  privateChannelID : Option Nat
  deriving DecidableEq, Repr

/-- Whether an upload is one the send may claim. -/
def claimable (target : Target) (file : File) : Bool :=
  file.kind == .attachment && file.ownerID == target.userID && file.spaceID == target.spaceID &&
    file.privateChannelID == target.privateChannelID && !file.expired

/-- `claimAttachments`: every id names a pending attachment the caller uploaded for this channel. -/
def claimAttachments (t : Tables) (target : Target) (ids : List Nat) : Bool :=
  decide (ids.length ≤ maxAttachments) && decide ids.Nodup &&
    ids.all fun id => (t.files.get? id).any (claimable target)

/-- `insertAttachments`: the rows' keys are the files (`UNIQUE`), and a file that is gone refuses its row
(the foreign key). -/
def insertAttachments (t : Tables) (message : Nat) (ids : List Nat) : Tables :=
  if ids.all fun id => t.files.has id && !t.references.any fun ref =>
      match ref.holder with
      | .message _ => ref.file == id
      | _ => false then
    { t with references := t.references ++ ids.map fun id => ⟨.message message, id⟩ }
  else t

/-- A pointer moved to a file, or cleared: `SetAvatar`, `SetSpaceIcon`, `SetLinkPreview`. -/
def setPointer (t : Tables) (holder : Holder) (file : Option Nat) : Tables :=
  { t with
    references := (t.references.filter fun ref => ref.holder != holder) ++
      (file.map fun id => ⟨holder, id⟩).toList }

/-- The kind of file a pointer takes. -/
def Holder.kind : Holder → Kind
  | .message _ => .attachment
  | .preview _ => .linkPreview
  | .icon _ => .spaceIcon
  | .avatar _ => .avatar

theorem Holder.kind_ne (holder : Holder) : holder.kind ≠ .attachmentThumbnail := by
  cases holder <;> exact nofun

/-! ## Sweeps -/

def sweepBatch : Nat := 500

/-- Where a sweep is. -/
inductive Stage
  | list
  | askChat (rows : List Nat)
  | askAuth (rows fromChat : List Nat)
  /-- both have answered: the rows it has not come to yet, and those referenced -/
  | delete (rest referenced : List Nat) (more : Bool)
  deriving DecidableEq, Repr

/-- A running `Sweep`: its cutoff, the last id listed, and where it is. -/
structure Sweep where
  id : Nat
  before : Nat
  after : Option Nat
  stage : Stage
  deriving DecidableEq, Repr

/-- `ListFilesOlderThan`: a thumbnail is left out while its original is live. -/
def listFilesOlderThan (t : Tables) (before : Nat) (after : Option Nat) : List Nat :=
  (((t.files.values.filter fun file =>
    decide (file.createdAt < before) && (after.map fun id => decide (id < file.id)).getD true &&
      !(file.thumbnailOf.any fun original => (t.files.get? original).any fun row => !row.expired)).map
      (·.id)).insertionSort (· ≤ ·)).take sweepBatch

/-- One step of a sweep: the tables, and where it goes on; nothing where its rows are done. -/
def Sweep.next (t : Tables) (sweep : Sweep) : Tables × Option Sweep :=
  match sweep.stage with
  | .list =>
    match listFilesOlderThan t sweep.before sweep.after with
    | [] => (t, none)
    | row :: rows =>
      (t, some { sweep with after := (row :: rows).getLast?, stage := .askChat (row :: rows) })
  | .askChat rows => (t, some { sweep with stage := .askAuth rows (rows.filter (t.refers .chat)) })
  | .askAuth rows fromChat =>
    let more := decide (rows.length = sweepBatch)
    (t, some { sweep with stage := .delete rows (fromChat ++ rows.filter (t.refers .auth)) more })
  | .delete (row :: rest) referenced more =>
    (if referenced.contains row then t else t.deleteFilesByIDs [row],
      some { sweep with stage := .delete rest referenced more })
  | .delete [] _ more => (t, if more then some { sweep with stage := .list } else none)

/-- Whether a sweep will take a file whatever the module answers from now on: the module has been asked,
the file was not in its answer, and the sweep has not come to it. -/
def Stage.dooms (stage : Stage) (owner : Owner) (file : Nat) : Bool :=
  match stage, owner with
  | .askAuth rows fromChat, .chat => rows.contains file && !fromChat.contains file
  | .delete rest referenced _, _ => rest.contains file && !referenced.contains file
  | _, _ => false

/-! ## Everything at once -/

/-- A send between its claim and its insert. -/
structure Send where
  id : Nat
  ids : List Nat
  deriving DecidableEq, Repr

/-- The clock, the tables, the last file id drawn, and what is at work. -/
structure World where
  now : Nat
  tables : Tables
  lastFile : Nat
  sends : Keyed Send.id
  sweeps : Keyed Sweep.id

inductive Label
  | tick (span : Nat)
  | upload (file : File)
  | createThumbnail (id original : Nat)
  | claimAttachments (send : Nat) (target : Target) (ids : List Nat)
  | insertAttachments (send message : Nat)
  | setPointer (holder : Holder) (file : Option Nat)
  /-- a message goes, and its attachments' rows with it -/
  | deleteMessage (message : Nat)
  /-- `DeleteFiles`, or a replaced image's row -/
  | deleteFiles (ids : List Nat)
  | expireFiles (ids : List Nat)
  | startSweep (id : Nat)
  | sweep (id : Nat)
  /-- it failed or was cut off -/
  | stopSweep (id : Nat)
  deriving DecidableEq, Repr

/-- The world under a grace period. -/
def World.step (grace : Nat) (w : World) : Label → Option World
  | .tick span => some { w with now := w.now + span }
  | .upload file =>
    if file.id ≤ w.lastFile ∨ file.kind = .attachmentThumbnail then none
    else
      let row := { file with createdAt := w.now, expired := false, thumbnailOf := none }
      some { w with tables := { w.tables with files := w.tables.files.set row }, lastFile := file.id }
  | .createThumbnail id original =>
    if id ≤ w.lastFile then none
    else
      (w.tables.files.get? original).map fun row =>
        let thumbnail := { row with
          id := id, kind := .attachmentThumbnail, createdAt := w.now, thumbnailOf := some original }
        { w with
          tables := { w.tables with files := w.tables.files.set thumbnail }
          lastFile := id }
  | .claimAttachments send target ids =>
    if w.sends.has send then none
    else if claimAttachments w.tables target ids then some { w with sends := w.sends.set ⟨send, ids⟩ }
    else some w
  | .insertAttachments send message =>
    (w.sends.get? send).map fun s =>
      { w with
        tables := insertAttachments w.tables message s.ids
        sends := w.sends.filter fun other => other.id != send }
  | .setPointer holder file =>
    -- a pointer's column refers to `files`, and each is moved to a file of its own kind
    if file.all fun id => (w.tables.files.get? id).any fun row => row.kind == holder.kind then
      match holder with
      | .message _ => none
      | _ => some { w with tables := setPointer w.tables holder file }
    else none
  | .deleteMessage message =>
    some { w with tables := { w.tables with
      references := w.tables.references.filter fun ref => ref.holder != .message message } }
  | .deleteFiles ids => some { w with tables := w.tables.deleteFilesByIDs ids }
  | .expireFiles ids => some { w with tables := w.tables.expire ids }
  | .startSweep id =>
    if w.sweeps.has id then none
    else some { w with sweeps := w.sweeps.set ⟨id, w.now - grace, none, .list⟩ }
  | .sweep id =>
    (w.sweeps.get? id).map fun sweep =>
      let done := sweep.next w.tables
      { w with
        tables := done.1
        sweeps := match done.2 with
          | some next => w.sweeps.set next
          | none => w.sweeps.filter fun other => other.id != id }
  | .stopSweep id => some { w with sweeps := w.sweeps.filter fun other => other.id != id }

/-- A row a sweep deleted, and whether anything pointed at it then. -/
structure Swept where
  file : Nat
  inUse : Bool
  deriving DecidableEq, Repr

/-- The rows a sweep's next step deletes. -/
def Sweep.takes (t : Tables) (sweep : Sweep) : List Swept :=
  match sweep.stage with
  | .delete (row :: _) referenced _ =>
    if referenced.contains row then [] else (t.taken [row]).map fun file => ⟨file.id, t.inUse file.id⟩
  | _ => []

/-- The rows a step deletes, where it is a sweep's. -/
def swept (w : World) : Label → List Swept
  | .sweep id => ((w.sweeps.get? id).map (Sweep.takes w.tables)).getD []
  | _ => []

/-- The references a step makes. -/
def refersTo (w : World) : Label → List Reference
  | .insertAttachments send message =>
    ((w.sends.get? send).map fun s => s.ids.map fun id => ⟨.message message, id⟩).getD []
  | .setPointer holder file => (file.map fun id => ⟨holder, id⟩).toList
  | _ => []

/-- No reference is made to a file a running sweep has found unreferenced and has not come to. -/
def ClearOfSweeps (w : World) (a : Label) : Prop :=
  ∀ ref ∈ refersTo w a, ∀ sweep ∈ w.sweeps.values, sweep.stage.dooms ref.holder.owner ref.file = false

instance (w : World) (a : Label) : Decidable (ClearOfSweeps w a) :=
  inferInstanceAs (Decidable (∀ ref ∈ refersTo w a, ∀ sweep ∈ w.sweeps.values, _))

/-! ## What a step does to the tables -/

/-- What a sweep's step does to the tables: nothing, or it takes a row no module answered for. -/
theorem next_tables (t : Tables) (sweep : Sweep) :
    (sweep.next t).1 = t ∨ ∃ row, (sweep.next t).1 = t.deleteFilesByIDs [row] := by
  unfold Sweep.next
  split
  · split <;> exact .inl rfl
  · exact .inl rfl
  · exact .inl rfl
  · next row rest referenced more _ =>
    by_cases hmem : referenced.contains row = true
    · exact .inl (if_pos hmem)
    · exact .inr ⟨row, if_neg hmem⟩
  · exact .inl rfl

/-- What a step can do to the tables and the ids drawn. -/
inductive Change (w : World) (a : Label) : Tables → Nat → Prop
  | same : Change w a w.tables w.lastFile
  | made (row : File) (fresh : w.lastFile < row.id) (now : row.createdAt = w.now)
      (kind : row.thumbnailOf ≠ none → row.kind = .attachmentThumbnail) :
      Change w a { w.tables with files := w.tables.files.set row } row.id
  | inserted (send : Send) (message : Nat) (work : send ∈ w.sends.values)
      (refs : refersTo w a = send.ids.map fun id => ⟨.message message, id⟩) :
      Change w a (insertAttachments w.tables message send.ids) w.lastFile
  | pointed (holder : Holder) (file : Option Nat)
      (kind : ∀ id ∈ file, ∃ row, w.tables.files.get? id = some row ∧ row.kind = holder.kind)
      (refs : refersTo w a = (file.map fun id => ⟨holder, id⟩).toList) :
      Change w a (setPointer w.tables holder file) w.lastFile
  | dropped (keep : Reference → Bool) :
      Change w a { w.tables with references := w.tables.references.filter keep } w.lastFile
  | deleted (ids : List Nat) : Change w a (w.tables.deleteFilesByIDs ids) w.lastFile
  | expired (ids : List Nat) : Change w a (w.tables.expire ids) w.lastFile

variable {grace : Nat} {w w' : World} {a : Label}

theorem change_of_step (h : w.step grace a = some w') : Change w a w'.tables w'.lastFile := by
  cases a with
  | upload file =>
    simp only [World.step] at h
    split at h
    · cases h
    · next hfresh =>
      cases h
      simp only [not_or, Nat.not_le] at hfresh
      exact .made _ hfresh.1 rfl fun hnone => absurd rfl hnone
  | createThumbnail id original =>
    simp only [World.step] at h
    split at h
    · cases h
    · next hfresh =>
      obtain ⟨row, _, rfl⟩ := Option.map_eq_some_iff.mp h
      exact .made { row with
        id := id, kind := .attachmentThumbnail, createdAt := w.now, thumbnailOf := some original }
        (Nat.not_le.mp hfresh) rfl fun _ => rfl
  | claimAttachments send target ids =>
    simp only [World.step] at h
    split at h
    · cases h
    · split at h <;> cases h <;> exact .same
  | insertAttachments send message =>
    obtain ⟨s, hs, rfl⟩ := Option.map_eq_some_iff.mp h
    exact .inserted s message (Keyed.mem_values.mpr (Keyed.key_of_get? hs ▸ hs))
      (by simp only [refersTo, hs, Option.map_some, Option.getD_some])
  | setPointer holder file =>
    simp only [World.step] at h
    split at h
    · next hkind =>
      split at h
      · cases h
      · cases h
        refine .pointed holder file (fun id hid => ?_) rfl
        rw [Option.mem_def] at hid
        subst hid
        obtain ⟨row, hrow, heq⟩ := (Option.any_eq_true _ _).mp hkind
        exact ⟨row, hrow, eq_of_beq heq⟩
    · cases h
  | deleteMessage message =>
    cases h
    exact .dropped fun ref => ref.holder != .message message
  | deleteFiles ids =>
    cases h
    exact .deleted ids
  | expireFiles ids =>
    cases h
    exact .expired ids
  | startSweep id =>
    simp only [World.step] at h
    split at h
    · cases h
    · cases h
      exact .same
  | sweep id =>
    obtain ⟨sweep, _, rfl⟩ := Option.map_eq_some_iff.mp h
    rcases next_tables w.tables sweep with heq | ⟨row, heq⟩
    · simp only [heq]
      exact .same
    · simp only [heq]
      exact .deleted [row]
  | tick _ | stopSweep _ =>
    cases h
    exact .same

/-! ## References -/

theorem refers_eq_true {t : Tables} {owner : Owner} {file : Nat} :
    t.refers owner file = true ↔ ∃ ref ∈ t.references, ref.holder.owner = owner ∧ ref.file = file := by
  simp [Tables.refers]

theorem inUse_eq_true {t : Tables} {file : Nat} :
    t.inUse file = true ↔ ∃ owner, t.refers owner file = true := by
  simp only [Tables.inUse, refers_eq_true, List.any_eq_true, beq_iff_eq]
  constructor
  · rintro ⟨ref, hmem, hfile⟩
    exact ⟨_, ref, hmem, rfl, hfile⟩
  · rintro ⟨_, ref, hmem, _, hfile⟩
    exact ⟨ref, hmem, hfile⟩

theorem mem_insertAttachments {t : Tables} {message : Nat} {ids : List Nat} {ref : Reference}
    (h : ref ∈ (insertAttachments t message ids).references) :
    ref ∈ t.references ∨
      (ref ∈ ids.map fun id => (⟨.message message, id⟩ : Reference)) ∧ ∀ id ∈ ids, t.files.has id = true := by
  simp only [insertAttachments] at h
  split at h
  · next hall =>
    rcases List.mem_append.mp h with hold | hnew
    · exact .inl hold
    · refine .inr ⟨hnew, fun id hid => ?_⟩
      exact (Bool.and_eq_true_iff.mp (List.all_eq_true.mp hall id hid)).1
  · exact .inl h

/-- A reference a step makes: to a file that is there, of the kind its holder takes or claimed by a send. -/
structure MadeTo (w : World) (a : Label) (ref : Reference) : Prop where
  made : ref ∈ refersTo w a
  file : ∃ row, w.tables.files.get? ref.file = some row ∧
    (row.kind = ref.holder.kind ∨ ∃ send ∈ w.sends.values, ref.file ∈ send.ids)

/-- **What a step does to the references**: each was there, or is one the step makes. -/
theorem references_step (h : w.step grace a = some w') {ref : Reference}
    (hmem : ref ∈ w'.tables.references) : ref ∈ w.tables.references ∨ MadeTo w a ref := by
  have change := change_of_step h
  generalize w'.tables = t at change hmem
  generalize w'.lastFile = last at change
  cases change with
  | same | made _ _ _ _ | expired _ => exact .inl hmem
  | dropped _ | deleted _ => exact .inl (List.mem_of_mem_filter hmem)
  | inserted send message work refs =>
    rcases mem_insertAttachments hmem with hold | ⟨hnew, hthere⟩
    · exact .inl hold
    · obtain ⟨id, hid, rfl⟩ := List.mem_map.mp hnew
      obtain ⟨row, hrow⟩ := Keyed.has_eq_true.mp (hthere id hid)
      exact .inr ⟨refs ▸ hnew, row, hrow, .inr ⟨send, work, hid⟩⟩
  | pointed holder file kind refs =>
    rcases List.mem_append.mp hmem with hold | hnew
    · exact .inl (List.mem_of_mem_filter hold)
    · obtain ⟨id, hid, rfl⟩ := Option.map_eq_some_iff.mp (Option.mem_toList.mp hnew)
      obtain ⟨row, hrow, hkind⟩ := kind id hid
      exact .inr ⟨refs ▸ hnew, row, hrow, .inl hkind⟩

/-! ## Files -/

/-- What a file keeps from the upload on. -/
structure SameFile (row old : File) : Prop where
  kind : row.kind = old.kind
  createdAt : row.createdAt = old.createdAt
  thumbnailOf : row.thumbnailOf = old.thumbnailOf

/-- A file a step makes: under a fresh id, of the moment, a thumbnail only of an original. -/
structure Made (w w' : World) (row : File) : Prop where
  fresh : w.lastFile < row.id
  drawn : row.id ≤ w'.lastFile
  now : row.createdAt = w.now
  kind : row.thumbnailOf ≠ none → row.kind = .attachmentThumbnail

theorem lastFile_step (h : w.step grace a = some w') : w.lastFile ≤ w'.lastFile := by
  have change := change_of_step h
  generalize w'.tables = t at change
  generalize w'.lastFile = last at change ⊢
  cases change with
  | made row fresh now kind => exact fresh.le
  | same | inserted _ _ _ _ | pointed _ _ _ _ | dropped _ | deleted _ | expired _ => exact Nat.le_refl _

theorem files_insertAttachments (t : Tables) (message : Nat) (ids : List Nat) :
    (insertAttachments t message ids).files = t.files := by
  simp only [insertAttachments]
  split <;> rfl

/-- **What a step does to the files**: a row was there, the same but for its expiry, or is made. -/
theorem files_step (h : w.step grace a = some w') {id : Nat} {row : File}
    (hrow : w'.tables.files.get? id = some row) :
    (∃ old, w.tables.files.get? id = some old ∧ SameFile row old) ∨ Made w w' row := by
  have same (hrow : w.tables.files.get? id = some row) :
      ∃ old, w.tables.files.get? id = some old ∧ SameFile row old := ⟨row, hrow, rfl, rfl, rfl⟩
  have change := change_of_step h
  generalize w'.tables = t at change hrow
  generalize hlast : w'.lastFile = last at change
  cases change with
  | made made fresh now kind =>
    rcases Keyed.get?_set_cases hrow with ⟨_, rfl⟩ | ⟨_, hold⟩
    · exact .inr ⟨fresh, hlast ▸ Nat.le_refl _, now, kind⟩
    · exact .inl (same hold)
  | inserted send message work refs => exact .inl (same (files_insertAttachments .. ▸ hrow))
  | deleted ids => exact .inl (same (Keyed.get?_filter_eq_some hrow).1)
  | expired ids =>
    simp only [Tables.expire, Keyed.get?_map, Option.map_eq_some_iff] at hrow
    obtain ⟨old, hold, rfl⟩ := hrow
    exact .inl ⟨old, hold, rfl, rfl, rfl⟩
  | same | pointed _ _ _ _ | dropped _ => exact .inl (same hrow)

/-- A reference that outlives a deletion outlives it with its file. -/
theorem get?_deleteFilesByIDs {t : Tables} {ids : List Nat} {ref : Reference} {row : File}
    (h : ref ∈ (t.deleteFilesByIDs ids).references) (hrow : t.files.get? ref.file = some row) :
    (t.deleteFilesByIDs ids).files.get? ref.file = some row := by
  have hkept : ref.file ∉ (t.taken ids).map (·.id) := by
    have := (List.mem_filter.mp h).2
    simpa using this
  have hkey := Keyed.key_of_get? hrow
  have hgoes : row.goesWith ids = false := by
    cases hgoes : row.goesWith ids with
    | false => rfl
    | true =>
      refine absurd (List.mem_map.mpr ⟨row, List.mem_filter.mpr ⟨?_, hgoes⟩, hkey⟩) hkept
      exact Keyed.mem_values.mpr (hkey ▸ hrow)
  rw [Tables.deleteFilesByIDs, Keyed.get?_filter, hrow, Option.filter_some_pos (by simp [hgoes])]

/-- A file that is still referred to is still there, and still of its kind. -/
theorem referred_step (h : w.step grace a = some w') {ref : Reference} {row : File}
    (hdrawn : ref.file ≤ w.lastFile) (href : ref ∈ w'.tables.references)
    (hrow : w.tables.files.get? ref.file = some row) :
    ∃ row', w'.tables.files.get? ref.file = some row' ∧ SameFile row' row := by
  have change := change_of_step h
  generalize w'.tables = t at change href ⊢
  generalize w'.lastFile = last at change
  have same (h : t.files.get? ref.file = some row) :
      ∃ row', t.files.get? ref.file = some row' ∧ SameFile row' row := ⟨row, h, rfl, rfl, rfl⟩
  cases change with
  | made made fresh now kind =>
    refine same ?_
    rw [Keyed.get?_set, if_neg (Nat.ne_of_gt (Nat.lt_of_le_of_lt hdrawn fresh)), hrow]
  | inserted send message work refs => exact same ((files_insertAttachments ..).symm ▸ hrow)
  | deleted ids => exact same (get?_deleteFilesByIDs href hrow)
  | expired ids =>
    refine ⟨{ row with expired := row.expired || ids.contains row.id }, ?_, rfl, rfl, rfl⟩
    simp only [Tables.expire, Keyed.get?_map, hrow, Option.map_some]
  | same | pointed _ _ _ _ | dropped _ => exact same hrow

/-! ## What always holds -/

/-- The files are what their ids say: drawn, thumbnails apart from originals, and referred to only as
originals. A send at work has claimed attachments. -/
structure Filed (w : World) : Prop where
  drawn : ∀ id row, w.tables.files.get? id = some row → id ≤ w.lastFile
  thumbnails : ∀ id row, w.tables.files.get? id = some row →
    row.thumbnailOf ≠ none → row.kind = .attachmentThumbnail
  claims : ∀ send ∈ w.sends.values, ∀ id ∈ send.ids, id ≤ w.lastFile ∧
    ∀ row, w.tables.files.get? id = some row → row.kind = .attachment
  originals : ∀ ref ∈ w.tables.references, ∃ row,
    w.tables.files.get? ref.file = some row ∧ row.kind ≠ .attachmentThumbnail

/-- The claims at work: each was at work, or names attachments that are there. -/
theorem sends_step (h : w.step grace a = some w') {send : Send} (hmem : send ∈ w'.sends.values) :
    send ∈ w.sends.values ∨ ∀ id ∈ send.ids, ∃ row,
      w.tables.files.get? id = some row ∧ row.kind = .attachment := by
  cases a with
  | claimAttachments id target ids =>
    simp only [World.step] at h
    split at h
    · cases h
    · split at h
      · next hclaim =>
        cases h
        rcases Keyed.get?_set_cases (Keyed.mem_values.mp hmem) with ⟨_, rfl⟩ | ⟨_, hold⟩
        · refine .inr fun file hfile => ?_
          have hall := List.all_eq_true.mp (Bool.and_eq_true_iff.mp hclaim).2 file hfile
          obtain ⟨row, hrow, hclaimable⟩ := (Option.any_eq_true _ _).mp hall
          refine ⟨row, hrow, ?_⟩
          simp only [claimable, Bool.and_eq_true, beq_iff_eq] at hclaimable
          exact hclaimable.1.1.1.1
        · exact .inl (Keyed.mem_values.mpr hold)
      · cases h
        exact .inl hmem
  | upload _ | startSweep _ =>
    simp only [World.step] at h
    split at h
    · cases h
    · cases h
      exact .inl hmem
  | createThumbnail id original =>
    simp only [World.step] at h
    split at h
    · cases h
    · obtain ⟨_, _, rfl⟩ := Option.map_eq_some_iff.mp h
      exact .inl hmem
  | insertAttachments id message =>
    obtain ⟨s, _, rfl⟩ := Option.map_eq_some_iff.mp h
    exact .inl (List.mem_of_mem_filter hmem)
  | setPointer holder file =>
    simp only [World.step] at h
    split at h
    · split at h
      · cases h
      · cases h
        exact .inl hmem
    · cases h
  | sweep id =>
    obtain ⟨sweep, _, rfl⟩ := Option.map_eq_some_iff.mp h
    exact .inl hmem
  | tick _ | deleteMessage _ | deleteFiles _ | expireFiles _ | stopSweep _ =>
    cases h
    exact .inl hmem

theorem Filed.step (inv : Filed w) (h : w.step grace a = some w') : Filed w' := by
  have hdrawn : ∀ id row, w'.tables.files.get? id = some row → id ≤ w'.lastFile := fun id row hrow => by
    rcases files_step h hrow with ⟨old, hold, _⟩ | made
    · exact (inv.drawn id old hold).trans (lastFile_step h)
    · exact Keyed.key_of_get? hrow ▸ made.drawn
  refine ⟨hdrawn, fun id row hrow hthumbnail => ?_, fun send hsend id hid => ?_, fun ref href => ?_⟩
  · rcases files_step h hrow with ⟨old, hold, same⟩ | made
    · exact same.kind.trans (inv.thumbnails id old hold (same.thumbnailOf ▸ hthumbnail))
    · exact made.kind hthumbnail
  · rcases sends_step h hsend with hold | hclaimed
    · obtain ⟨hle, hkind⟩ := inv.claims send hold id hid
      refine ⟨hle.trans (lastFile_step h), fun row hrow => ?_⟩
      rcases files_step h hrow with ⟨old, hfile, same⟩ | made
      · exact same.kind.trans (hkind old hfile)
      · exact absurd (Keyed.key_of_get? hrow ▸ made.fresh) (Nat.not_lt.mpr hle)
    · obtain ⟨old, hold, hkind⟩ := hclaimed id hid
      have hle := inv.drawn id old hold
      refine ⟨hle.trans (lastFile_step h), fun row hrow => ?_⟩
      rcases files_step h hrow with ⟨old', hold', same⟩ | made
      · rw [hold, Option.some.injEq] at hold'
        exact same.kind.trans (hold' ▸ hkind)
      · exact absurd (Keyed.key_of_get? hrow ▸ made.fresh) (Nat.not_lt.mpr hle)
  · have original : ∃ row, w.tables.files.get? ref.file = some row ∧ row.kind ≠ .attachmentThumbnail := by
      rcases references_step h href with hold | hnew
      · exact inv.originals ref hold
      · obtain ⟨row, hrow, hkind | ⟨send, hsend, hid⟩⟩ := hnew.file
        · exact ⟨row, hrow, hkind ▸ ref.holder.kind_ne⟩
        · exact ⟨row, hrow, by simp [(inv.claims send hsend _ hid).2 row hrow]⟩
    obtain ⟨row, hrow, hkind⟩ := original
    obtain ⟨row', hrow', same⟩ := referred_step h (inv.drawn _ _ hrow) href hrow
    exact ⟨row', hrow', same.kind ▸ hkind⟩

/-! ## What a sweep does to what it dooms -/

/-- A sweep dooms only what the module it asked did not answer for. -/
theorem next_dooms {t : Tables} {sweep next : Sweep} (h : (sweep.next t).2 = some next) {owner : Owner}
    {file : Nat} (href : t.refers owner file = true) (hold : sweep.stage.dooms owner file = false) :
    next.stage.dooms owner file = false := by
  unfold Sweep.next at h
  split at h
  · split at h
    · cases h
    · cases h
      cases owner <;> rfl
  · next rows _ =>
    cases h
    cases owner with
    | chat =>
      simp only [Stage.dooms, Bool.and_eq_false_iff]
      by_cases hmem : file ∈ rows
      · exact .inr (by simp [hmem, href])
      · exact .inl (by simp [hmem])
    | auth => rfl
  · next rows fromChat hstage =>
    cases h
    rw [hstage] at hold
    by_cases hmem : file ∈ rows
    · have : file ∈ fromChat ++ rows.filter (t.refers .auth) := by
        cases owner with
        | chat =>
          simp only [Stage.dooms, Bool.and_eq_false_iff] at hold
          rcases hold with hnot | hin
          · exact absurd hmem (by simpa using hnot)
          · exact List.mem_append_left _ (by simpa using hin)
        | auth => exact List.mem_append_right _ (List.mem_filter.mpr ⟨hmem, href⟩)
      simp [Stage.dooms, this]
    · simp [Stage.dooms, hmem]
  · next row rest referenced more hstage =>
    cases h
    rw [hstage] at hold
    simp only [Stage.dooms, Bool.and_eq_false_iff] at hold ⊢
    rcases hold with hnot | hin
    · exact .inl (by simp only [List.contains_cons, Bool.or_eq_false_iff] at hnot; exact hnot.2)
    · exact .inr hin
  · split at h
    · cases h
      cases owner <;> rfl
    · cases h

/-- The sweeps at work after a step: each was, has gone on, or begins. -/
theorem sweeps_step (h : w.step grace a = some w') {sweep : Sweep} (hmem : sweep ∈ w'.sweeps.values) :
    sweep ∈ w.sweeps.values ∨
      (∃ id before, a = .sweep id ∧ w.sweeps.get? id = some before ∧ (before.next w.tables).2 = some sweep) ∨
      sweep.stage = .list ∧ sweep.before = w.now - grace := by
  cases a with
  | startSweep id =>
    simp only [World.step] at h
    split at h
    · cases h
    · cases h
      rcases Keyed.get?_set_cases (Keyed.mem_values.mp hmem) with ⟨_, rfl⟩ | ⟨_, hold⟩
      · exact .inr (.inr ⟨rfl, rfl⟩)
      · exact .inl (Keyed.mem_values.mpr hold)
  | sweep id =>
    obtain ⟨before, hbefore, rfl⟩ := Option.map_eq_some_iff.mp h
    simp only at hmem
    split at hmem
    · next later hlater =>
      rcases Keyed.get?_set_cases (Keyed.mem_values.mp hmem) with ⟨_, rfl⟩ | ⟨_, hold⟩
      · exact .inr (.inl ⟨id, before, rfl, hbefore, hlater⟩)
      · exact .inl (Keyed.mem_values.mpr hold)
    · exact .inl (List.mem_of_mem_filter hmem)
  | stopSweep id =>
    cases h
    exact .inl (List.mem_of_mem_filter hmem)
  | upload _ =>
    simp only [World.step] at h
    split at h
    · cases h
    · cases h
      exact .inl hmem
  | createThumbnail id original =>
    simp only [World.step] at h
    split at h
    · cases h
    · obtain ⟨_, _, rfl⟩ := Option.map_eq_some_iff.mp h
      exact .inl hmem
  | claimAttachments id target ids =>
    simp only [World.step] at h
    split at h
    · cases h
    · split at h <;> cases h <;> exact .inl hmem
  | insertAttachments id message =>
    obtain ⟨s, _, rfl⟩ := Option.map_eq_some_iff.mp h
    exact .inl hmem
  | setPointer holder file =>
    simp only [World.step] at h
    split at h
    · split at h
      · cases h
      · cases h
        exact .inl hmem
    · cases h
  | tick _ | deleteMessage _ | deleteFiles _ | expireFiles _ =>
    cases h
    exact .inl hmem

/-! ## Runs -/

/-- No running sweep dooms a file something points at. -/
def Spared (w : World) : Prop :=
  ∀ sweep ∈ w.sweeps.values, ∀ ref ∈ w.tables.references,
    sweep.stage.dooms ref.holder.owner ref.file = false

theorem Spared.step (inv : Spared w) (clear : ClearOfSweeps w a) (h : w.step grace a = some w') :
    Spared w' := by
  intro sweep hsweep ref href
  rcases sweeps_step h hsweep with hold | ⟨id, before, rfl, hbefore, hnext⟩ | ⟨hlist, _⟩
  · rcases references_step h href with hthere | hmade
    · exact inv sweep hold ref hthere
    · exact clear ref hmade.made sweep hold
  · have hthere : ref ∈ w.tables.references := by
      rcases references_step h href with hthere | hmade
      · exact hthere
      · exact absurd hmade.made List.not_mem_nil
    have hmem : before ∈ w.sweeps.values := Keyed.mem_values.mpr (Keyed.key_of_get? hbefore ▸ hbefore)
    exact next_dooms hnext (refers_eq_true.mpr ⟨ref, hthere, rfl, rfl⟩) (inv before hmem ref hthere)
  · rw [hlist]
    cases ref.holder.owner <;> rfl

/-- **What a sweep takes is not in use**, where it dooms nothing in use. -/
theorem swept_unused (files : Filed w) (inv : Spared w) {s : Swept} (h : s ∈ swept w a) :
    s.inUse = false := by
  cases a with
  | sweep id =>
    cases hsweep : w.sweeps.get? id with
    | none => simp [swept, hsweep] at h
    | some sweep =>
      have hmem : sweep ∈ w.sweeps.values := Keyed.mem_values.mpr (Keyed.key_of_get? hsweep ▸ hsweep)
      simp only [swept, hsweep, Option.map_some, Option.getD_some, Sweep.takes] at h
      split at h
      · next row rest referenced more hstage =>
        split at h
        · exact absurd h List.not_mem_nil
        · next hnot =>
          obtain ⟨file, hfile, rfl⟩ := List.mem_map.mp h
          obtain ⟨hthere, hgoes⟩ := List.mem_filter.mp hfile
          rw [Keyed.mem_values] at hthere
          refine Bool.eq_false_iff.mpr fun hused => ?_
          obtain ⟨owner, hrefers⟩ := inUse_eq_true.mp hused
          obtain ⟨ref, href, rfl, hid⟩ := refers_eq_true.mp hrefers
          simp only [File.goesWith, Bool.or_eq_true] at hgoes
          rcases hgoes with hself | hthumbnail
          · -- the row itself: the sweep dooms it
            have hdoomed := inv sweep hmem ref href
            rw [hstage, hid] at hdoomed
            simp only [List.contains_cons, List.contains_nil, Bool.or_false, beq_iff_eq] at hself
            simp [Stage.dooms, hself] at hdoomed
            exact hnot (by simpa using hdoomed)
          · -- a thumbnail of it: nothing points at one
            obtain ⟨original, hrow, hkind⟩ := files.originals ref href
            rw [hid, hthere, Option.some.injEq] at hrow
            subst hrow
            refine hkind (files.thumbnails _ _ hthere fun hnone => ?_)
            rw [hnone] at hthumbnail
            cases hthumbnail
      · exact absurd h List.not_mem_nil
  | _ => exact absurd h List.not_mem_nil

/-- Nothing stored yet, and nothing at work. -/
def World.start : World := ⟨0, ⟨Keyed.empty, []⟩, 0, Keyed.empty, Keyed.empty⟩

theorem Filed.start : Filed World.start :=
  ⟨fun _ _ h => (nomatch h), fun _ _ h => (nomatch h), fun _ h => absurd h List.not_mem_nil,
    fun _ h => absurd h List.not_mem_nil⟩

/-- Everything a sweep has taken was in nobody's use. -/
def SparesUsed (past : List Swept) : Prop := ∀ s ∈ past, s.inUse = false

instance (past : List Swept) : Decidable (SparesUsed past) := inferInstanceAs (Decidable (∀ s ∈ past, _))

/-- **A sweep takes no file in use**: in every run in which no reference is made to a file a running sweep
has found unreferenced and has not come to. -/
theorem sweep_spares_used {grace : Nat} {r : Recorded World Swept}
    (run : Runs (recording (World.step grace) swept) (fun r a => ClearOfSweeps r.state a)
      ⟨World.start, []⟩ r) : SparesUsed r.past :=
  run.past_holds (fun w => Filed w ∧ Spared w) (fun s => Swept.inUse s = false)
    ⟨Filed.start, fun _ h => absurd h List.not_mem_nil⟩ (fun _ h => absurd h List.not_mem_nil)
    (fun _ _ _ inv clear hstep => ⟨inv.1.step hstep, inv.2.step clear hstep⟩)
    fun _ _ inv _ _ hs => swept_unused inv.1 inv.2 hs

/-! ## What the grace period is for -/

/-- The rows of a sweep that it has not come to. -/
def Stage.rows : Stage → List Nat
  | .list => []
  | .askChat rows => rows
  | .askAuth rows _ => rows
  | .delete rest _ _ => rest

/-- A sweep's rows were made before its cutoff, and its cutoff is a grace period ago. -/
structure Aged (grace : Nat) (w : World) : Prop where
  cutoff : ∀ sweep ∈ w.sweeps.values, sweep.before ≤ w.now - grace
  rows : ∀ sweep ∈ w.sweeps.values, ∀ id ∈ sweep.stage.rows, id ≤ w.lastFile ∧
    ∀ row, w.tables.files.get? id = some row → row.createdAt < sweep.before

theorem mem_listFilesOlderThan {t : Tables} {before : Nat} {after : Option Nat} {id : Nat}
    (h : id ∈ listFilesOlderThan t before after) :
    ∃ row, t.files.get? id = some row ∧ row.createdAt < before := by
  have hmem := (List.mem_insertionSort _).mp (List.mem_of_mem_take h)
  obtain ⟨row, hrow, rfl⟩ := List.mem_map.mp hmem
  obtain ⟨hthere, hold⟩ := List.mem_filter.mp hrow
  refine ⟨row, Keyed.mem_values.mp hthere, ?_⟩
  simp only [Bool.and_eq_true, decide_eq_true_eq] at hold
  exact hold.1.1

/-- A sweep goes on with rows it has, or lists them. -/
theorem next_rows {t : Tables} {sweep next : Sweep} (h : (sweep.next t).2 = some next) :
    next.before = sweep.before ∧ ∀ id ∈ next.stage.rows,
      id ∈ sweep.stage.rows ∨ ∃ row, t.files.get? id = some row ∧ row.createdAt < sweep.before := by
  unfold Sweep.next at h
  split at h
  · split at h
    · cases h
    · next row rows hlist =>
      cases h
      refine ⟨rfl, fun id hid => .inr ?_⟩
      rw [← show listFilesOlderThan t sweep.before sweep.after = row :: rows from hlist] at hid
      exact mem_listFilesOlderThan hid
  · next rows hstage =>
    cases h
    exact ⟨rfl, fun id hid => .inl (hstage ▸ hid)⟩
  · next rows fromChat hstage =>
    cases h
    exact ⟨rfl, fun id hid => .inl (hstage ▸ hid)⟩
  · next row rest referenced more hstage =>
    cases h
    exact ⟨rfl, fun id hid => .inl (hstage ▸ List.mem_cons_of_mem _ hid)⟩
  · split at h
    · cases h
      exact ⟨rfl, fun id hid => absurd hid List.not_mem_nil⟩
    · cases h

theorem now_step (h : w.step grace a = some w') : w.now ≤ w'.now := by
  cases a with
  | tick span =>
    cases h
    exact Nat.le_add_right _ _
  | upload _ | startSweep _ =>
    simp only [World.step] at h
    split at h
    · cases h
    · cases h
      exact Nat.le_refl _
  | createThumbnail id original =>
    simp only [World.step] at h
    split at h
    · cases h
    · obtain ⟨_, _, rfl⟩ := Option.map_eq_some_iff.mp h
      exact Nat.le_refl _
  | claimAttachments id target ids =>
    simp only [World.step] at h
    split at h
    · cases h
    · split at h <;> cases h <;> exact Nat.le_refl _
  | insertAttachments _ _ | sweep _ =>
    obtain ⟨_, _, rfl⟩ := Option.map_eq_some_iff.mp h
    exact Nat.le_refl _
  | setPointer holder file =>
    simp only [World.step] at h
    split at h
    · split at h
      · cases h
      · cases h
        exact Nat.le_refl _
    · cases h
  | deleteMessage _ | deleteFiles _ | expireFiles _ | stopSweep _ =>
    cases h
    exact Nat.le_refl _

theorem Aged.step (files : Filed w) (inv : Aged grace w) (h : w.step grace a = some w') : Aged grace w' := by
  have kept {id before : Nat} (hle : id ≤ w.lastFile)
      (hrows : ∀ row, w.tables.files.get? id = some row → row.createdAt < before) :
      id ≤ w'.lastFile ∧ ∀ row, w'.tables.files.get? id = some row → row.createdAt < before := by
    refine ⟨hle.trans (lastFile_step h), fun row hrow => ?_⟩
    rcases files_step h hrow with ⟨old, hold, same⟩ | made
    · exact same.createdAt ▸ hrows old hold
    · exact absurd (Keyed.key_of_get? hrow ▸ made.fresh) (Nat.not_lt.mpr hle)
  have hnow := now_step h
  refine ⟨fun sweep hsweep => ?_, fun sweep hsweep id hid => ?_⟩
  · rcases sweeps_step h hsweep with hold | ⟨_, before, rfl, hbefore, hnext⟩ | ⟨_, hcutoff⟩
    · have := inv.cutoff sweep hold
      omega
    · have := inv.cutoff before (Keyed.mem_values.mpr (Keyed.key_of_get? hbefore ▸ hbefore))
      have := (next_rows hnext).1
      omega
    · omega
  · rcases sweeps_step h hsweep with hold | ⟨_, before, rfl, hbefore, hnext⟩ | ⟨hlist, _⟩
    · obtain ⟨hle, hrows⟩ := inv.rows sweep hold id hid
      exact kept hle hrows
    · obtain ⟨hcutoff, hrows⟩ := next_rows hnext
      rw [hcutoff]
      rcases hrows id hid with hmem | ⟨row, hrow, hlt⟩
      · have hthere : before ∈ w.sweeps.values := Keyed.mem_values.mpr (Keyed.key_of_get? hbefore ▸ hbefore)
        obtain ⟨hle, hrows⟩ := inv.rows before hthere id hmem
        exact kept hle hrows
      · refine kept (files.drawn id row hrow) fun other hother => ?_
        rw [hrow, Option.some.injEq] at hother
        exact hother ▸ hlt
    · rw [hlist] at hid
      exact absurd hid List.not_mem_nil

theorem dooms_rows {stage : Stage} {owner : Owner} {file : Nat} (h : stage.dooms owner file = true) :
    file ∈ stage.rows := by
  unfold Stage.dooms at h
  split at h
  · exact List.contains_iff_mem.mp (Bool.and_eq_true_iff.mp h).1
  · exact List.contains_iff_mem.mp (Bool.and_eq_true_iff.mp h).1
  · cases h

/-- **A reference to a file within the grace period is clear of every sweep**: a day is the whole of what
keeps a sweep and a slow composer apart. -/
theorem young_clear {grace : Nat} {w : World} {a : Label}
    (run : Runs (World.step grace) Always World.start w)
    (young : ∀ ref ∈ refersTo w a, ∃ row, w.tables.files.get? ref.file = some row ∧
      w.now ≤ row.createdAt + grace) : ClearOfSweeps w a := by
  have aged : Filed w ∧ Aged grace w :=
    @Runs.keeps _ _ _ _ _ _ (fun w => Filed w ∧ Aged grace w)
      ⟨Filed.start, fun _ h => absurd h List.not_mem_nil, fun _ h => absurd h List.not_mem_nil⟩
      (fun _ _ _ inv _ hstep => ⟨inv.1.step hstep, inv.2.step inv.1 hstep⟩) run
  intro ref href sweep hsweep
  refine Bool.eq_false_iff.mpr fun hdoomed => ?_
  obtain ⟨row, hrow, hyoung⟩ := young ref href
  have hold := (aged.2.rows sweep hsweep ref.file (dooms_rows hdoomed)).2 row hrow
  have hcutoff := aged.2.cutoff sweep hsweep
  omega

/-! ## A send before the sweep, and a send in the middle of it -/

/-- An upload, two days, and the sweep that finds it. -/
def overdue : List Label :=
  [.upload { id := 1, kind := .attachment, ownerID := 7, createdAt := 0 }, .tick 48, .startSweep 1]

def sentFirst : List Label :=
  overdue ++ [.claimAttachments 1 ⟨7, none, none⟩ [1], .insertAttachments 1 9,
    .sweep 1, .sweep 1, .sweep 1, .sweep 1, .sweep 1]

/-- The send comes after the sweep has asked chat. -/
def sentBetween : List Label :=
  overdue ++ [.claimAttachments 1 ⟨7, none, none⟩ [1], .sweep 1, .sweep 1, .sweep 1, .insertAttachments 1 9,
    .sweep 1]

/-- The file stays. -/
theorem sentFirst_spared :
    ((runList (recording (World.step 24) swept) ⟨World.start, []⟩ sentFirst).map fun r =>
        (r.state.tables.files.has 1, r.past)) = some (true, []) ∧
      ∀ r, runList (recording (World.step 24) swept) ⟨World.start, []⟩ sentFirst = some r →
        SparesUsed r.past :=
  ⟨by decide, fun _ h => sweep_spares_used (Runs.ofList sentFirst (by decide) h)⟩

/-- **A message whose file is gone**: the upload is claimed between the sweep's question and its delete. -/
theorem sweep_takes_claimed :
    ¬ ∀ (grace : Nat) (r : Recorded World Swept),
      Runs (recording (World.step grace) swept) Always ⟨World.start, []⟩ r → SparesUsed r.past := by
  intro claim
  refine absurd (claim 24
    ((runList (recording (World.step 24) swept) ⟨World.start, []⟩ sentBetween).getD ⟨World.start, []⟩)
    (Runs.ofList sentBetween (EachStep.always _ _) rfl)) ?_
  decide

end Stoop.Files
