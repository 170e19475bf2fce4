import Mathlib
import Stoop.Lib.Machine

/-!
# The storage quota, with uploads at work beside one another

An upload is measured against the operator's quota twice: before any of its bytes are taken (`checkQuota`), which is the
cheap early answer, and where its row is inserted (`insertUnderQuota`), under an advisory lock and with the usage summed
in the same transaction, which is the one that holds. Beside them come the writes nobody measures: thumbnails, link
previews, and an avatar or icon readied at another size than it was sent in.

Each stored file here knows the bytes it was let in with, which its row does not. Those add up to no more than the
highest quota an upload went by, whatever came between the steps of whatever upload (`quota_holds`).
-/

set_option autoImplicit false

namespace Stoop.Files.Quota

open Stoop.Lib

/-! ## The check -/

/-- `a + b` of two `int64`s. -/
def addInt64 (a b : Int) : Int := (a + b).bmod (2 ^ 64)

/-- `fits`: the message aside, whether it answers nil. -/
def fits (used size quota : Int) : Bool := !(addInt64 used size > quota)

theorem le_of_fits {used size quota : Int} (h : fits used size quota = true) (hlow : 0 ≤ used + size)
    (hhigh : used + size < 2 ^ 63) : used + size ≤ quota := by
  have hsum : addInt64 used size = used + size := Int.bmod_eq_of_le (by omega) (by omega)
  simpa [fits, hsum] using h

/-! ## What is stored -/

/-- A row of `files`, with how many of its bytes were measured when it was let in. -/
structure File where
  id : Nat
  size : Nat
  pending : Bool
  expired : Bool
  thumbnailOf : Option Nat
  measured : Nat
  measured_le : measured ≤ size
  deriving DecidableEq, Repr

namespace File

/-- What it adds to `StorageUsage`. -/
def bytes (f : File) : Nat := if f.expired then 0 else f.size

def measuredBytes (f : File) : Nat := if f.expired then 0 else f.measured

/-- `ReadyPendingFile`'s size in place of the one it was sent in. -/
def ready (f : File) (size : Nat) : File :=
  { f with size, pending := false, measured := min f.measured size, measured_le := Nat.min_le_right _ _ }

def expire (f : File) : File := { f with expired := true }

theorem measuredBytes_le (f : File) : f.measuredBytes ≤ f.bytes := by
  unfold measuredBytes bytes
  split
  · exact Nat.le_refl 0
  · exact f.measured_le

end File

/-- `StorageUsage`. -/
def usage (files : List File) : Nat := (files.map File.bytes).sum

def measured (files : List File) : Nat := (files.map File.measuredBytes).sum

/-- What is stored that nobody measured. -/
def unmeasured (files : List File) : Nat := (files.map fun f => f.bytes - f.measuredBytes).sum

theorem usage_eq (files : List File) : usage files = measured files + unmeasured files := by
  induction files with
  | nil => rfl
  | cons f files ih =>
    have hf := f.measuredBytes_le
    simp only [usage, measured, unmeasured, List.map_cons, List.sum_cons] at ih ⊢
    omega

/-- Fewer files, or files with fewer measured bytes, measure less. -/
theorem measured_map_le {files : List File} {g : File → File} (hg : ∀ f, (g f).measuredBytes ≤ f.measuredBytes) :
    measured (files.map g) ≤ measured files := by
  induction files with
  | nil => exact Nat.le_refl 0
  | cons f files ih =>
    simp only [measured, List.map_cons, List.sum_cons] at ih ⊢
    exact Nat.add_le_add (hg f) ih

theorem measured_filter_le (files : List File) (p : File → Bool) : measured (files.filter p) ≤ measured files := by
  induction files with
  | nil => exact Nat.le_refl 0
  | cons f files ih =>
    rw [List.filter_cons]
    split
    · simp only [measured, List.map_cons, List.sum_cons] at ih ⊢
      exact Nat.add_le_add_left ih _
    · simp only [measured, List.map_cons, List.sum_cons] at ih ⊢
      exact Nat.le_trans ih (Nat.le_add_left _ _)

/-! ## Uploads at work -/

/-- An upload: an attachment, or an avatar or icon stored as sent (`pending`). -/
structure Upload where
  id : Nat
  size : Nat
  pending : Bool
  deriving DecidableEq, Repr

/-- How far a transaction of `insertUnderQuota` that has the lock has come. -/
inductive Stage
  | locked
  | summed (used : Nat)
  | inserted
  deriving DecidableEq, Repr

structure Holder where
  upload : Upload
  quota : Int
  stage : Stage
  deriving DecidableEq, Repr

structure World where
  files : List File
  /-- Uploads past the early check, their blobs on the way. -/
  begun : List Upload
  /-- Uploads in `insertUnderQuota` with the quota they read, waiting for the lock. -/
  waiting : List (Upload × Int)
  /-- The one that has the lock: `pg_advisory_xact_lock` is nobody else's until its transaction ends. -/
  holder : Option Holder
  deriving DecidableEq, Repr

inductive Label
  /-- `checkQuota`, with the quota the policy answers. -/
  | checkQuota (upload : Upload) (quota : Int)
  /-- `insertUnderQuota` reads the quota; with none it inserts at once. -/
  | readQuota (upload : Upload) (quota : Int)
  | lockStorageQuota (upload : Upload) (quota : Int)
  | storageUsage
  | insert
  | commit
  /-- A transaction that fails, or whose upload does not fit. -/
  | rollback
  | createThumbnail (id size original : Nat)
  | storeLinkPreviewImage (id size : Nat)
  | readyPendingFile (id size : Nat)
  | deleteFilesByIDs (ids : List Nat)
  | deleteThumbnailsOf (ids : List Nat)
  | expireFiles (ids : List Nat)
  deriving DecidableEq, Repr

/-- A row let in with all its bytes measured. -/
def File.letIn (upload : Upload) : File :=
  ⟨upload.id, upload.size, upload.pending, false, none, upload.size, Nat.le_refl _⟩

/-- A row nobody measures. -/
def File.unmeasured (id size : Nat) (pending : Bool) (thumbnailOf : Option Nat) : File :=
  ⟨id, size, pending, false, thumbnailOf, 0, Nat.zero_le _⟩

namespace World

def step (w : World) : Label → Option World
  | .checkQuota upload quota =>
    if quota ≤ 0 ∨ fits (usage w.files) upload.size quota = true then some { w with begun := upload :: w.begun } else none
  | .readQuota upload quota =>
    if upload ∈ w.begun then
      let begun := w.begun.erase upload
      if quota ≤ 0 then some { w with begun, files := .unmeasured upload.id upload.size upload.pending none :: w.files }
      else some { w with begun, waiting := (upload, quota) :: w.waiting }
    else none
  | .lockStorageQuota upload quota =>
    if (upload, quota) ∈ w.waiting ∧ w.holder = none then
      some { w with waiting := w.waiting.erase (upload, quota), holder := some ⟨upload, quota, .locked⟩ }
    else none
  | .storageUsage =>
    match w.holder with
    | some ⟨upload, quota, .locked⟩ => some { w with holder := some ⟨upload, quota, .summed (usage w.files)⟩ }
    | _ => none
  | .insert =>
    match w.holder with
    | some ⟨upload, quota, .summed used⟩ =>
      if fits used upload.size quota then some { w with holder := some ⟨upload, quota, .inserted⟩ } else none
    | _ => none
  | .commit =>
    match w.holder with
    | some ⟨upload, _, .inserted⟩ => some { w with holder := none, files := .letIn upload :: w.files }
    | _ => none
  | .rollback => if w.holder.isSome then some { w with holder := none } else none
  | .createThumbnail id size original =>
    -- no row comes back when the original already has one
    if w.files.any fun f => f.thumbnailOf == some original then some w
    else some { w with files := .unmeasured id size false (some original) :: w.files }
  | .storeLinkPreviewImage id size => some { w with files := .unmeasured id size false none :: w.files }
  | .readyPendingFile id size =>
    some { w with files := w.files.map fun f => if f.id = id ∧ f.pending = true then f.ready size else f }
  | .deleteFilesByIDs ids =>
    some { w with files := w.files.filter fun f => !(ids.contains f.id || f.thumbnailOf.any ids.contains) }
  | .deleteThumbnailsOf ids => some { w with files := w.files.filter fun f => !f.thumbnailOf.any ids.contains }
  | .expireFiles ids => some { w with files := w.files.map fun f => if ids.contains f.id then f.expire else f }

end World

/-! ## The law -/

/-- What `fits` adds up. -/
def Holder.sum (h : Holder) : Nat :=
  match h.stage with
  | .summed used => used + h.upload.size
  | .locked | .inserted => 0

/-- A run's next label: a quota read is set, and no higher than `high`, and what is stored adds up to an `int64`. -/
def Within (high : Nat) (w : World) : Label → Prop
  | .readQuota _ quota => 0 < quota ∧ quota ≤ high
  | .insert => ∀ h ∈ w.holder, h.sum < 2 ^ 63
  | .checkQuota _ _ | .lockStorageQuota _ _ | .storageUsage | .commit | .rollback | .createThumbnail _ _ _
  | .storeLinkPreviewImage _ _ | .readyPendingFile _ _ | .deleteFilesByIDs _ | .deleteThumbnailsOf _ | .expireFiles _ =>
    True

instance Within.decide (high : Nat) (w : World) : (label : Label) → Decidable (Within high w label)
  | .readQuota _ quota => inferInstanceAs (Decidable (0 < quota ∧ quota ≤ high))
  | .insert => inferInstanceAs (Decidable (∀ h ∈ w.holder, h.sum < 2 ^ 63))
  | .checkQuota _ _ | .lockStorageQuota _ _ | .storageUsage | .commit | .rollback | .createThumbnail _ _ _
  | .storeLinkPreviewImage _ _ | .readyPendingFile _ _ | .deleteFilesByIDs _ | .deleteThumbnailsOf _ | .expireFiles _ =>
    isTrue trivial

/-- What the transaction with the lock may count on: nobody else lets measured bytes in. -/
def Stage.Holds (stage : Stage) (high size bytes : Nat) : Prop :=
  match stage with
  | .locked => True
  | .summed used => bytes ≤ used
  | .inserted => bytes + size ≤ high

structure Sound (high : Nat) (w : World) : Prop where
  within : measured w.files ≤ high
  waiting : ∀ p ∈ w.waiting, p.2 ≤ high
  holder : ∀ h ∈ w.holder, h.quota ≤ high ∧ h.stage.Holds high h.upload.size (measured w.files)

variable {high : Nat} {w w' : World} {label : Label}

theorem Stage.Holds.mono {stage : Stage} {size bytes bytes' : Nat} (h : stage.Holds high size bytes)
    (hle : bytes' ≤ bytes) : stage.Holds high size bytes' := by
  cases stage with
  | locked => trivial
  | summed used => exact Nat.le_trans hle h
  | inserted => exact Nat.le_trans (Nat.add_le_add_right hle size) h

/-- Files change, and their measured bytes do not grow. -/
theorem Sound.files {files : List File} (h : Sound high w) (hle : measured files ≤ measured w.files) :
    Sound high { w with files } where
  within := Nat.le_trans hle h.within
  waiting := h.waiting
  holder holder hh := ⟨(h.holder holder hh).1, (h.holder holder hh).2.mono hle⟩

theorem measured_unmeasured (id size : Nat) (pending : Bool) (thumbnailOf : Option Nat) (files : List File) :
    measured (.unmeasured id size pending thumbnailOf :: files) = measured files :=
  Nat.zero_add _

theorem measuredBytes_ready (f : File) (size : Nat) : (f.ready size).measuredBytes ≤ f.measuredBytes := by
  show (if f.expired then 0 else min f.measured size) ≤ f.measuredBytes
  unfold File.measuredBytes
  split
  · exact Nat.le_refl 0
  · exact Nat.min_le_left f.measured size

theorem measuredBytes_expire (f : File) : f.expire.measuredBytes ≤ f.measuredBytes := Nat.zero_le _

/-- Every step keeps the measured bytes within the highest quota. -/
theorem Sound.step (h : Sound high w) (hok : Within high w label) (hstep : w.step label = some w') : Sound high w' := by
  cases label with
  | checkQuota upload quota =>
    simp only [World.step] at hstep
    split at hstep
    · obtain rfl := Option.some.inj hstep
      exact { h with }
    · cases hstep
  | readQuota upload quota =>
    simp only [World.step, if_neg (Int.not_le.mpr hok.1)] at hstep
    split at hstep
    · obtain rfl := Option.some.inj hstep
      refine { h with waiting := ?_ }
      intro p hp
      rcases List.mem_cons.mp hp with rfl | hp
      · exact hok.2
      · exact h.waiting p hp
    · cases hstep
  | lockStorageQuota upload quota =>
    simp only [World.step] at hstep
    split at hstep
    next hin =>
      obtain rfl := Option.some.inj hstep
      refine { h with waiting := fun p hp => h.waiting p (List.mem_of_mem_erase hp), holder := ?_ }
      rintro holder ⟨⟩
      exact ⟨h.waiting _ hin.1, trivial⟩
    · cases hstep
  | storageUsage =>
    simp only [World.step] at hstep
    split at hstep
    next upload quota hholder =>
      obtain rfl := Option.some.inj hstep
      refine { h with holder := ?_ }
      rintro holder ⟨⟩
      refine ⟨(h.holder _ hholder).1, ?_⟩
      show measured w.files ≤ usage w.files
      rw [usage_eq]
      exact Nat.le_add_right _ _
    · cases hstep
  | insert =>
    simp only [World.step] at hstep
    split at hstep
    next upload quota used hholder =>
      split at hstep
      next hfits =>
        obtain rfl := Option.some.inj hstep
        obtain ⟨hquota, hused⟩ := h.holder _ hholder
        have hsmall : used + upload.size < 2 ^ 63 := hok _ hholder
        have hsum := le_of_fits hfits (by omega) (by omega)
        refine { h with holder := ?_ }
        rintro holder ⟨⟩
        refine ⟨hquota, ?_⟩
        have hmeasured : measured w.files ≤ used := hused
        have hhigh : quota ≤ high := hquota
        show measured w.files + upload.size ≤ high
        omega
      · cases hstep
    · cases hstep
  | commit =>
    simp only [World.step] at hstep
    split at hstep
    next upload quota hholder =>
      obtain rfl := Option.some.inj hstep
      have hroom : measured w.files + upload.size ≤ high := (h.holder _ hholder).2
      refine ⟨?_, h.waiting, fun _ hh => (nomatch hh)⟩
      show upload.size + measured w.files ≤ high
      omega
    · cases hstep
  | rollback =>
    simp only [World.step] at hstep
    split at hstep
    · obtain rfl := Option.some.inj hstep
      exact { h with holder := fun _ hh => (nomatch hh) }
    · cases hstep
  | createThumbnail id size original =>
    simp only [World.step] at hstep
    split at hstep
    · obtain rfl := Option.some.inj hstep
      exact h
    · obtain rfl := Option.some.inj hstep
      exact h.files (Nat.le_of_eq (measured_unmeasured ..))
  | storeLinkPreviewImage id size =>
    obtain rfl := Option.some.inj hstep
    exact h.files (Nat.le_of_eq (measured_unmeasured ..))
  | readyPendingFile id size =>
    obtain rfl := Option.some.inj hstep
    refine h.files (measured_map_le fun f => ?_)
    split
    · exact measuredBytes_ready f size
    · exact Nat.le_refl _
  | deleteFilesByIDs ids =>
    obtain rfl := Option.some.inj hstep
    exact h.files (measured_filter_le _ _)
  | deleteThumbnailsOf ids =>
    obtain rfl := Option.some.inj hstep
    exact h.files (measured_filter_le _ _)
  | expireFiles ids =>
    obtain rfl := Option.some.inj hstep
    refine h.files (measured_map_le fun f => ?_)
    split
    · exact measuredBytes_expire f
    · exact Nat.le_refl _

/-- Nothing at work over the files there are. -/
def World.start (files : List File) : World := ⟨files, [], [], none⟩

theorem Sound.start {files : List File} (h : measured files ≤ high) : Sound high (.start files) where
  within := h
  waiting _ hp := nomatch hp
  holder _ hh := nomatch hh

/-- **The quota holds.** However many uploads pass the early check beside one another, what is stored is within the
highest quota they went by, but for what nobody measured. -/
theorem quota_holds {files : List File} (hstart : measured files ≤ high)
    (run : Runs World.step (Within high) (.start files) w) : usage w.files ≤ high + unmeasured w.files := by
  have h : Sound high w :=
    run.keeps (.start hstart) fun _ _ _ h hok hstep => h.step hok hstep
  rw [usage_eq]
  exact Nat.add_le_add_right h.within _

/-- Two uploads that fit the quota alone, and not together; both pass the early check. -/
def both : List Label :=
  [.checkQuota ⟨1, 6, false⟩ 10, .checkQuota ⟨2, 7, true⟩ 10, .readQuota ⟨1, 6, false⟩ 10, .readQuota ⟨2, 7, true⟩ 10,
    .lockStorageQuota ⟨2, 7, true⟩ 10, .storageUsage, .insert, .commit, .readyPendingFile 2 8,
    .lockStorageQuota ⟨1, 6, false⟩ 10, .storageUsage, .rollback, .createThumbnail 3 4 2]

theorem quota_holds_both : ∃ w, runList World.step (.start []) both = some w ∧ usage w.files = 12 ∧
    usage w.files ≤ 10 + unmeasured w.files := by
  have husage : (runList World.step (.start []) both).map (fun w => usage w.files) = some 12 := by decide
  obtain ⟨w, hw, h12⟩ := Option.map_eq_some_iff.mp husage
  exact ⟨w, hw, h12, @quota_holds 10 w [] (Nat.zero_le 10) (.ofList both (by decide) hw)⟩

-- The second does not fit once the first is in: its transaction can only be given up.
example : runList World.step (.start []) (both.take 11 ++ [.insert]) = none := by decide

end Stoop.Files.Quota
