import Mathlib.Logic.Function.Basic
import Stoop.Lib.Machine
import Stoop.Upgrade.Compose

/-!
# Upgrades and rollbacks of an install directory

An upgrade stages the new bundle as `.next` files, plans, asks, backs up, and then switches: each bundle
file that was staged takes its place, and the one it replaces is kept as `.prev`. A rollback puts the
`.prev` files back and parks what they replace (`internal/upgrade`). Each command runs alone, no file
operation fails, and what docker, the release index and the operator answer is given with the command.

## Main results

* `upgrade_stops`: an upgrade that stops before its switch changes no bundle file.
* `rollback_iff`: over every run of commands, a rollback leaves each bundle file as it was before the upgrade
  it undoes exactly where that upgrade's bundle and the `.prev` files from before it allow (`Fits`).
* `restore_iff`: the restore commands name the Postgres the backup was dumped with exactly where the stack
  runs its own, or the new compose file pins the default major, or none.
* `commands_keep_iff`: the three together, for every command of every run.

The `.prev` files are kept one by one, and only where a file is replaced: a companion the bundle lacks keeps a
`.prev` of an earlier upgrade, and one the bundle brings anew has none.
-/

set_option autoImplicit false

namespace Stoop.Upgrade

open Stoop.Lib

/-! ## The install directory -/

/-- The files of a release bundle. -/
inductive Bundled
  | compose
  | livekitYaml
  | livekitEntrypoint
  deriving DecidableEq, Repr

/-- The rest of the bundle, mounted by the compose file. -/
def companions : List Bundled := [.livekitYaml, .livekitEntrypoint]

/-- A bundle file, and the copies of it that commands keep: `.next`, `.prev` and `.rolledback`. -/
inductive Copy
  | current
  | next
  | prev
  | rolledBack
  deriving DecidableEq, Repr

/-- The files of an install directory that a command reads or writes: `.env`, and `env.example.next`. -/
inductive Name
  | bundled (file : Bundled) (copy : Copy)
  | env
  | envNext
  deriving DecidableEq, Repr

/-- A directory: each file's text, where there is one. -/
abbrev Dir := Name → Option Text

namespace Dir

def write (dir : Dir) (name : Name) (text : Text) : Dir := Function.update dir name (some text)

def remove (dir : Dir) (name : Name) : Dir := Function.update dir name none

/-- A file under another name, in place of what was there; a file that is not there stays away. -/
def rename (dir : Dir) (old new : Name) : Dir :=
  match dir old with
  | some text => (dir.write new text).remove old
  | none => dir

end Dir

/-! ## What a command is given -/

/-- A release, as far as its files could be fetched. -/
structure Release where
  compose : Option Text
  example? : Option Text
  companion : Bundled → Option Text

/-- A compose file given with `--file`: one of the directory's own, or another. -/
inductive Given
  | own (name : Name)
  | other (text : Option Text)
  deriving DecidableEq, Repr

inductive Source
  | file (given : Given)
  | release

structure Options where
  source : Source
  planOnly : Bool := false
  yes : Bool := false

/-- What the new image says it will do to the database. -/
structure Report where
  refused : Bool := false
  contract : Bool := false
  deriving DecidableEq, Repr

/-- How the backup went: its directory, whether the stack runs its own Postgres, and whether the dump and
the archive came out. -/
structure BackupRun where
  dir : Text
  bundled : Bool
  done : Bool
  deriving DecidableEq, Repr

/-- What the world answers an upgrade: `running` is the version that came up, `oldest` the oldest release
that can start against the database then. -/
structure Answers where
  docker : Bool := true
  release : Option Release := none
  plan : Option Report := some {}
  reply : Text := []
  backup : BackupRun
  running : Text := []
  oldest : Option Text := none

/-! ## Upgrade -/

/-- `preflight`: the release the install pins. -/
def preflight (dir : Dir) (docker : Bool) : Option Text :=
  if docker && (dir .env).isSome then
    (dir (.bundled .compose .current)).bind fun compose =>
      if TagOf compose = [] then none else some (TagOf compose)
  else none

/-- Takes the staged files away. -/
def cleanupNext (dir : Dir) : Dir :=
  companions.foldl (fun dir file => dir.remove (.bundled file .next))
    ((dir.remove (.bundled .compose .next)).remove .envNext)

/-- A compose file given, read before the staged files are cleared. -/
def Given.read (dir : Dir) : Given → Option Text
  | .own name => dir name
  | .other text => text

/-- A companion staged, where the release has it. -/
def stageCompanion (release : Release) (dir : Dir) (file : Bundled) : Dir :=
  match release.companion file with
  | some text => dir.write (.bundled file .next) text
  | none => dir

/-- The new bundle as `.next` files, and the compose file among them, if it could be had. -/
def stageFiles (dir : Dir) (source : Source) (release : Option Release) : Dir × Option Text :=
  match source with
  | .file given =>
    match given.read dir with
    | none => (dir, none)
    | some text => ((cleanupNext dir).write (.bundled .compose .next) text, some text)
  | .release =>
    match release with
    | none => (cleanupNext dir, none)
    | some release =>
      match release.compose, release.example? with
      | some compose, some text =>
        (companions.foldl (stageCompanion release)
          (((cleanupNext dir).write (.bundled .compose .next) compose).write .envNext text), some compose)
      | _, _ => (cleanupNext dir, none)

/-- `stage`, with the release the staged compose file pins. -/
def stage (dir : Dir) (source : Source) (release : Option Release) : Dir × Option Text :=
  let staged := stageFiles dir source release
  (staged.1, staged.2.bind fun compose => if TagOf compose = [] then none else some (TagOf compose))

/-- The Postgres major that dumps and restores an operator's own server, when the compose file pins
none. -/
def defaultPostgresMajor : Text := ['1', '6']

/-- `postgresMajor`: the major the staged compose file pins. -/
def postgresMajor (dir : Dir) : Text :=
  let major := PostgresMajor ((dir (.bundled .compose .next)).getD [])
  if major = [] then defaultPostgresMajor else major

/-- `checkTarget`: no older release, and no move of Postgres. -/
def checkTarget (dir : Dir) (current target : Text) : Bool :=
  let now := PostgresMajor ((dir (.bundled .compose .current)).getD [])
  let then? := PostgresMajor ((dir (.bundled .compose .next)).getD [])
  !Older target current && (now == [] || then? == [] || now == then?)

/-- `confirm`: the reply, white space aside. -/
def confirm (yes : Bool) (reply : Text) : Bool :=
  yes || ["y".toList, "Y".toList, "yes".toList, "YES".toList].contains reply

/-- A backup: where it went, whether the stack's own Postgres was dumped, and else the major of the image
that dumped the operator's. -/
structure BackupInfo where
  dir : Text
  bundled : Bool
  dumpedWith : Option Text
  deriving DecidableEq, Repr

def backup (dir : Dir) (run : BackupRun) : Option BackupInfo :=
  if run.done then
    some ⟨run.dir, run.bundled, if run.bundled then none else some (postgresMajor dir)⟩
  else none

/-- An upgrade once its backup is taken. -/
structure SwitchPlan where
  current : Text
  target : Text
  backup : BackupInfo
  contract : Bool
  deriving DecidableEq, Repr

/-- The upgrade between its staging and its switch: nothing where it stops. -/
def planSwitch (dir : Dir) (o : Options) (a : Answers) (current target : Text) : Option SwitchPlan :=
  if target = current || !checkTarget dir current target then none
  else
    a.plan.bind fun report =>
      if report.refused || o.planOnly || !confirm o.yes a.reply then none
      else (backup dir a.backup).map fun info => ⟨current, target, info, report.contract⟩

/-! ## The switch -/

/-- Keeps the current file as `.prev` and moves the staged one into place. -/
def swapIn (dir : Dir) (file : Bundled) : Dir :=
  let kept :=
    match dir (.bundled file .current) with
    | some old => dir.write (.bundled file .prev) old
    | none => dir
  kept.rename (.bundled file .next) (.bundled file .current)

/-- A companion, where it was staged. -/
def swapCompanion (dir : Dir) (file : Bundled) : Dir :=
  if (dir (.bundled file .next)).isSome then swapIn dir file else dir

def swapFiles (dir : Dir) : Dir := companions.foldl swapCompanion (swapIn dir .compose)

/-- The lines of the restore runbook, with the backup's paths. -/
inductive RestoreLine
  | stopStoop
  | recreateDatabase
  | restoreBundled (dump : Text)
  | restoreOwn (major : Text) (dump : Text)
  | exportURL
  | unpackUploads (dir : Text)
  | putBack
  deriving DecidableEq, Repr

/-- The Postgres major a line names. -/
def RestoreLine.major : RestoreLine → Option Text
  | .restoreOwn major _ => some major
  | _ => none

def restoreCommands (dir : Dir) (backup : BackupInfo) : List RestoreLine :=
  let dump := backup.dir ++ "/stoop.dump".toList
  (if backup.bundled then [.stopStoop, .recreateDatabase, .restoreBundled dump]
    else [.stopStoop, .restoreOwn (postgresMajor dir) dump, .exportURL]) ++
    [.unpackUploads backup.dir, .putBack]

/-- The way back a failed switch prints. -/
inductive WayBack
  | rollback
  | restore (lines : List RestoreLine)
  deriving DecidableEq, Repr

/-- How an upgrade ended. -/
inductive Ended
  | stopped
  | upgraded (backup : BackupInfo)
  | failed (backup : BackupInfo) (way : WayBack)
  deriving DecidableEq, Repr

/-- Whether the old release can still start: a fact about the database by then, and the plan's only where
that did not say. -/
def SwitchPlan.canStart (plan : SwitchPlan) (a : Answers) : Bool :=
  match a.oldest with
  | some oldest => !Older plan.current oldest
  | none => !plan.contract

def switchTo (dir : Dir) (plan : SwitchPlan) (a : Answers) : Dir × Ended :=
  let swapped := swapFiles dir
  if a.running = plan.target then (swapped.remove .envNext, .upgraded plan.backup)
  else
    (swapped, .failed plan.backup
      (if plan.canStart a then .rollback else .restore (restoreCommands swapped plan.backup)))

/-- `Upgrade`: what it leaves of the directory, and how it ended. -/
def upgrade (dir : Dir) (o : Options) (a : Answers) : Dir × Ended :=
  match preflight dir a.docker with
  | none => (dir, .stopped)
  | some current =>
    let staged := stage dir o.source a.release
    match staged.2.bind (planSwitch staged.1 o a current) with
    | none => (cleanupNext staged.1, .stopped)
    | some plan => switchTo staged.1 plan a

/-! ## Rollback -/

/-- What the world answers a rollback. -/
structure RollbackAnswers where
  docker : Bool := true
  oldest : Option Text := none
  yes : Bool := false
  reply : Text := []
  deriving DecidableEq, Repr

/-- A companion put back, where an upgrade kept one. -/
def putBack (dir : Dir) (file : Bundled) : Dir :=
  if (dir (.bundled file .prev)).isSome then
    (dir.rename (.bundled file .current) (.bundled file .rolledBack)).rename
      (.bundled file .prev) (.bundled file .current)
  else dir

def putBackFiles (dir : Dir) : Dir :=
  companions.foldl putBack
    ((dir.rename (.bundled .compose .current) (.bundled .compose .rolledBack)).rename
      (.bundled .compose .prev) (.bundled .compose .current))

/-- Whether a rollback goes through: there is a file to go back to, the running image says its release
can start, and the operator agrees. -/
def goesBack (dir : Dir) (a : RollbackAnswers) : Bool :=
  match preflight dir a.docker, dir (.bundled .compose .prev), a.oldest with
  | some _, some prev, some oldest =>
    TagOf prev != [] && !Older (TagOf prev) oldest && confirm a.yes a.reply
  | _, _, _ => false

/-- `Rollback`, whether or not the stack then comes up. -/
def rollback (dir : Dir) (a : RollbackAnswers) : Dir := if goesBack dir a then putBackFiles dir else dir

/-! ## Runs of commands -/

/-- The bundle files an upgrade's switch replaces: the compose file, and the companions its release
has. -/
def brings (o : Options) (a : Answers) : Bundled → Bool
  | .compose => true
  | file =>
    match o.source with
    | .file _ => false
    | .release => (a.release.bind (·.companion file)).isSome

/-- A switch that no rollback has undone: the directory its upgrade began with, and what it brought. -/
structure Switched where
  before : Dir
  brings : Bundled → Bool

/-- A directory, and the last switch there. No command reads `last`. -/
structure World where
  dir : Dir
  last : Option Switched

def World.start (dir : Dir) : World := ⟨dir, none⟩

inductive Label
  | upgrade (o : Options) (a : Answers)
  | rollback (a : RollbackAnswers)

/-- One command. -/
def World.step (w : World) : Label → Option World
  | .upgrade o a =>
    let done := upgrade w.dir o a
    some ⟨done.1, if done.2 = .stopped then w.last else some ⟨w.dir, brings o a⟩⟩
  | .rollback a => some ⟨rollback w.dir a, if goesBack w.dir a then none else w.last⟩

/-- The bundle files alike in two directories. -/
def SameFiles (dir dir' : Dir) : Prop :=
  ∀ file, dir (.bundled file .current) = dir' (.bundled file .current)

instance (dir dir' : Dir) : Decidable (SameFiles dir dir') :=
  decidable_of_iff (∀ file ∈ [Bundled.compose, .livekitYaml, .livekitEntrypoint],
      dir (.bundled file .current) = dir' (.bundled file .current))
    ⟨fun h file => h file (by cases file <;> decide), fun h file _ => h file⟩

/-- The restore commands name no Postgres but the one that dumped the backup. -/
def SameMajor (info : BackupInfo) (lines : List RestoreLine) : Prop :=
  ∀ line ∈ lines, ∀ major ∈ line.major, info.dumpedWith = some major

/-- **Where a rollback undoes a switch**: a file the upgrade brought was there before, and one it did not
bring has no `.prev` from before it, or one with what the file holds. -/
def Fits (s : Switched) : Prop :=
  ∀ file, if s.brings file then (s.before (.bundled file .current)).isSome
    else s.before (.bundled file .prev) = none ∨
      s.before (.bundled file .prev) = s.before (.bundled file .current)

/-! ## The directory, name by name -/

section Dir

variable {dir : Dir} {name a b : Name}

theorem write_self (text : Text) : dir.write name text name = some text := Function.update_self ..

theorem write_of_ne (h : a ≠ name) (text : Text) : dir.write name text a = dir a :=
  Function.update_of_ne h ..

theorem remove_self : dir.remove name name = none := Function.update_self ..

theorem remove_of_ne (h : a ≠ name) : dir.remove name a = dir a := Function.update_of_ne h ..

theorem rename_of_ne (ha : name ≠ a) (hb : name ≠ b) : dir.rename a b name = dir name := by
  cases htext : dir a with
  | some text => simp only [Dir.rename, htext, remove_of_ne ha, write_of_ne hb]
  | none => simp only [Dir.rename, htext]

/-- What is under the new name: the file, where there was one. -/
theorem rename_new (h : b ≠ a) : dir.rename a b b = (dir a).or (dir b) := by
  cases htext : dir a with
  | some text => simp only [Dir.rename, htext, remove_of_ne h, write_self, Option.some_or]
  | none => simp only [Dir.rename, htext, Option.none_or]

theorem rename_old : dir.rename a b a = none := by
  cases htext : dir a with
  | some text => simp only [Dir.rename, htext, remove_self]
  | none => simp only [Dir.rename, htext]

end Dir

/-! ## Staging -/

theorem yaml_ne : Bundled.livekitYaml ≠ .compose := nofun
theorem entrypoint_ne : Bundled.livekitEntrypoint ≠ .compose := nofun
theorem yaml_ne_entrypoint : Bundled.livekitYaml ≠ .livekitEntrypoint := nofun

/-- Clearing and staging touch no file in place, and none kept. -/
theorem cleanupNext_kept (dir : Dir) {file : Bundled} {copy : Copy} (h : copy ≠ .next) :
    cleanupNext dir (.bundled file copy) = dir (.bundled file copy) := by
  have hne : ∀ other, Name.bundled file copy ≠ .bundled other .next := fun other heq => by
    cases heq
    exact h rfl
  have henv : Name.bundled file copy ≠ .envNext := nofun
  simp only [cleanupNext, companions, List.foldl_cons, List.foldl_nil]
  rw [remove_of_ne (hne _), remove_of_ne (hne _), remove_of_ne henv, remove_of_ne (hne _)]

theorem cleanupNext_next (dir : Dir) (file : Bundled) :
    cleanupNext dir (.bundled file .next) = none := by
  cases file <;> rfl

theorem stageCompanion_other (release : Release) (dir : Dir) {file other : Bundled} {copy : Copy}
    (h : copy ≠ .next ∨ other ≠ file) :
    stageCompanion release dir file (.bundled other copy) = dir (.bundled other copy) := by
  have hne : Name.bundled other copy ≠ .bundled file .next := by
    rintro heq
    cases heq
    rcases h with h | h <;> exact h rfl
  cases htext : release.companion file with
  | some text => simp only [stageCompanion, htext, write_of_ne hne]
  | none => simp only [stageCompanion, htext]

theorem stageCompanion_next (release : Release) (dir : Dir) (file : Bundled) :
    stageCompanion release dir file (.bundled file .next) =
      (release.companion file).or (dir (.bundled file .next)) := by
  cases htext : release.companion file with
  | some text => simp only [stageCompanion, htext, write_self, Option.some_or]
  | none => simp only [stageCompanion, htext, Option.none_or]

/-- Staging leaves every file in place as it was, and every copy but the staged ones. -/
theorem stageFiles_kept (dir : Dir) (source : Source) (release : Option Release) {file : Bundled}
    {copy : Copy} (h : copy ≠ .next) :
    (stageFiles dir source release).1 (.bundled file copy) = dir (.bundled file copy) := by
  have hne : ∀ other, Name.bundled file copy ≠ .bundled other .next := fun other heq => by
    cases heq
    exact h rfl
  have henv : Name.bundled file copy ≠ .envNext := nofun
  cases source with
  | file given =>
    cases hread : given.read dir with
    | none => simp only [stageFiles, hread]
    | some text => simp only [stageFiles, hread, write_of_ne (hne _), cleanupNext_kept dir h]
  | release =>
    cases release with
    | none => exact cleanupNext_kept dir h
    | some release =>
      simp only [stageFiles]
      split
      · simp only [companions, List.foldl_cons, List.foldl_nil]
        rw [stageCompanion_other _ _ (.inl h), stageCompanion_other _ _ (.inl h), write_of_ne henv,
          write_of_ne (hne _), cleanupNext_kept dir h]
      · exact cleanupNext_kept dir h

/-- The compose file staged, and which companions stand beside it. -/
theorem stageFiles_next {dir : Dir} {o : Options} {a : Answers} {compose : Text}
    (h : (stageFiles dir o.source a.release).2 = some compose) :
    (stageFiles dir o.source a.release).1 (.bundled .compose .next) = some compose ∧
      ∀ file, ((stageFiles dir o.source a.release).1 (.bundled file .next)).isSome = brings o a file := by
  cases hsource : o.source with
  | file given =>
    rw [hsource] at h
    cases hread : given.read dir with
    | none =>
      simp only [stageFiles, hread] at h
      cases h
    | some text =>
      simp only [stageFiles, hread, Option.some.injEq] at h ⊢
      subst h
      refine ⟨write_self _, fun file => ?_⟩
      cases file with
      | compose => rfl
      | livekitYaml | livekitEntrypoint =>
        simp only [brings, hsource]
        rfl
  | release =>
    rw [hsource] at h
    cases hrelease : a.release with
    | none =>
      rw [hrelease] at h
      cases h
    | some release =>
      rw [hrelease] at h
      simp only [stageFiles] at h ⊢
      split at h
      next text example? htext hexample =>
        cases h
        simp only [companions, List.foldl_cons, List.foldl_nil]
        refine ⟨?_, fun file => ?_⟩
        · rw [stageCompanion_other _ _ (.inr entrypoint_ne.symm), stageCompanion_other _ _ (.inr yaml_ne.symm)]
          rfl
        · cases file with
          | compose =>
            rw [stageCompanion_other _ _ (.inr entrypoint_ne.symm), stageCompanion_other _ _ (.inr yaml_ne.symm)]
            rfl
          | livekitYaml =>
            rw [stageCompanion_other _ _ (.inr yaml_ne_entrypoint), stageCompanion_next]
            simp only [brings, hsource, hrelease]
            exact congrArg Option.isSome (Option.or_none ..)
          | livekitEntrypoint =>
            rw [stageCompanion_next, stageCompanion_other _ _ (.inr yaml_ne_entrypoint.symm)]
            simp only [brings, hsource, hrelease]
            exact congrArg Option.isSome (Option.or_none ..)
      next => cases h

/-! ## Switching and putting back -/

theorem swapIn_current {dir : Dir} {file : Bundled} :
    swapIn dir file (.bundled file .current) =
      (dir (.bundled file .next)).or (dir (.bundled file .current)) := by
  have hprev : Name.bundled file .current ≠ .bundled file .prev := nofun
  have hnext : Name.bundled file .next ≠ .bundled file .prev := nofun
  have hmoved : Name.bundled file .current ≠ .bundled file .next := nofun
  cases hold : dir (.bundled file .current) with
  | some old =>
    simp only [swapIn, hold]
    rw [rename_new hmoved, write_of_ne hprev, write_of_ne hnext, hold]
  | none =>
    simp only [swapIn, hold]
    rw [rename_new hmoved, hold]

theorem swapIn_prev {dir : Dir} {file : Bundled} :
    swapIn dir file (.bundled file .prev) =
      (dir (.bundled file .current)).or (dir (.bundled file .prev)) := by
  have hnext : Name.bundled file .prev ≠ .bundled file .next := nofun
  have hcurrent : Name.bundled file .prev ≠ .bundled file .current := nofun
  cases hold : dir (.bundled file .current) with
  | some old =>
    simp only [swapIn, hold]
    rw [rename_of_ne hnext hcurrent, write_self, Option.some_or]
  | none =>
    simp only [swapIn, hold]
    rw [rename_of_ne hnext hcurrent, Option.none_or]

theorem swapIn_other {dir : Dir} {file other : Bundled} (h : other ≠ file) (copy : Copy) :
    swapIn dir file (.bundled other copy) = dir (.bundled other copy) := by
  have hne : ∀ copy', Name.bundled other copy ≠ .bundled file copy' := fun copy' heq => by
    cases heq
    exact h rfl
  cases hold : dir (.bundled file .current) with
  | some old =>
    simp only [swapIn, hold]
    rw [rename_of_ne (hne _) (hne _), write_of_ne (hne _)]
  | none =>
    simp only [swapIn, hold]
    rw [rename_of_ne (hne _) (hne _)]

theorem swapCompanion_other {dir : Dir} {file other : Bundled} (h : other ≠ file) (copy : Copy) :
    swapCompanion dir file (.bundled other copy) = dir (.bundled other copy) := by
  by_cases hnext : (dir (.bundled file .next)).isSome = true
  · simp only [swapCompanion, hnext, if_true, swapIn_other h]
  · simp only [swapCompanion, if_neg hnext]

/-- What a companion's switch leaves in place and as `.prev`. -/
theorem swapCompanion_self (dir : Dir) (file : Bundled) :
    swapCompanion dir file (.bundled file .current) =
        (dir (.bundled file .next)).or (dir (.bundled file .current)) ∧
      swapCompanion dir file (.bundled file .prev) =
        if (dir (.bundled file .next)).isSome then
          (dir (.bundled file .current)).or (dir (.bundled file .prev))
        else dir (.bundled file .prev) := by
  by_cases hnext : (dir (.bundled file .next)).isSome = true
  · simp only [swapCompanion, hnext, if_true, swapIn_current, swapIn_prev, and_self]
  · have hnone : dir (.bundled file .next) = none := Option.not_isSome_iff_eq_none.mp hnext
    rw [swapCompanion, if_neg hnext, if_neg hnext, hnone, Option.none_or]
    exact ⟨rfl, rfl⟩

/-- **The switch, file by file.** -/
theorem swapFiles_file {dir : Dir} (hnext : (dir (.bundled .compose .next)).isSome = true)
    (file : Bundled) :
    swapFiles dir (.bundled file .current) =
        (dir (.bundled file .next)).or (dir (.bundled file .current)) ∧
      swapFiles dir (.bundled file .prev) =
        if (dir (.bundled file .next)).isSome then
          (dir (.bundled file .current)).or (dir (.bundled file .prev))
        else dir (.bundled file .prev) := by
  simp only [swapFiles, companions, List.foldl_cons, List.foldl_nil]
  cases file with
  | compose =>
    simp only [swapCompanion_other entrypoint_ne.symm, swapCompanion_other yaml_ne.symm, swapIn_current,
      swapIn_prev, if_pos hnext, and_self]
  | livekitYaml =>
    simp only [swapCompanion_other yaml_ne_entrypoint, swapCompanion_self, swapIn_other yaml_ne, and_self]
  | livekitEntrypoint =>
    simp only [swapCompanion_self, swapCompanion_other yaml_ne_entrypoint.symm,
      swapIn_other entrypoint_ne, and_self]

theorem putBack_other {dir : Dir} {file other : Bundled} (h : other ≠ file) (copy : Copy) :
    putBack dir file (.bundled other copy) = dir (.bundled other copy) := by
  have hne : ∀ copy', Name.bundled other copy ≠ .bundled file copy' := fun copy' heq => by
    cases heq
    exact h rfl
  by_cases hprev : (dir (.bundled file .prev)).isSome = true
  · simp only [putBack, hprev, if_true, rename_of_ne (hne _) (hne _)]
  · simp only [putBack, if_neg hprev]

/-- A file put back from its `.prev`, if it has one. -/
theorem renamed_back (dir : Dir) (file : Bundled) (h : (dir (.bundled file .prev)).isSome = true) :
    (dir.rename (.bundled file .current) (.bundled file .rolledBack)).rename
        (.bundled file .prev) (.bundled file .current) (.bundled file .current) =
      dir (.bundled file .prev) := by
  have hmoved : Name.bundled file .current ≠ .bundled file .prev := nofun
  have hcurrent : Name.bundled file .prev ≠ .bundled file .current := nofun
  have hparked : Name.bundled file .prev ≠ .bundled file .rolledBack := nofun
  obtain ⟨prev, hprev⟩ := Option.isSome_iff_exists.mp h
  rw [rename_new hmoved, rename_of_ne hcurrent hparked, hprev, Option.some_or]

theorem putBack_self (dir : Dir) (file : Bundled) :
    putBack dir file (.bundled file .current) =
      (dir (.bundled file .prev)).or (dir (.bundled file .current)) := by
  by_cases hprev : (dir (.bundled file .prev)).isSome = true
  · obtain ⟨prev, hsome⟩ := Option.isSome_iff_exists.mp hprev
    rw [putBack, if_pos hprev, renamed_back dir file hprev, hsome, Option.some_or]
  · have hnone : dir (.bundled file .prev) = none := Option.not_isSome_iff_eq_none.mp hprev
    rw [putBack, if_neg hprev, hnone, Option.none_or]

/-- **The rollback, file by file.** -/
theorem putBackFiles_file {dir : Dir} (hprev : (dir (.bundled .compose .prev)).isSome = true)
    (file : Bundled) :
    putBackFiles dir (.bundled file .current) =
      (dir (.bundled file .prev)).or (dir (.bundled file .current)) := by
  obtain ⟨prev, hsome⟩ := Option.isSome_iff_exists.mp hprev
  have hother : ∀ (other : Bundled) copy, other ≠ .compose →
      (dir.rename (.bundled .compose .current) (.bundled .compose .rolledBack)).rename
        (.bundled .compose .prev) (.bundled .compose .current) (.bundled other copy) =
          dir (.bundled other copy) := by
    intro other copy h
    have hne : ∀ copy', Name.bundled other copy ≠ .bundled .compose copy' := fun copy' heq => by
      cases heq
      exact h rfl
    rw [rename_of_ne (hne _) (hne _), rename_of_ne (hne _) (hne _)]
  simp only [putBackFiles, companions, List.foldl_cons, List.foldl_nil]
  cases file with
  | compose =>
    rw [putBack_other entrypoint_ne.symm, putBack_other yaml_ne.symm, renamed_back dir _ hprev, hsome,
      Option.some_or]
  | livekitYaml =>
    rw [putBack_other yaml_ne_entrypoint, putBack_self, hother _ _ yaml_ne, hother _ _ yaml_ne]
  | livekitEntrypoint =>
    rw [putBack_self, putBack_other yaml_ne_entrypoint.symm, putBack_other yaml_ne_entrypoint.symm,
      hother _ _ entrypoint_ne, hother _ _ entrypoint_ne]

/-! ## What an upgrade does -/

/-- The switch an upgrade comes to, if it does not stop before. -/
def planned (dir : Dir) (o : Options) (a : Answers) : Option SwitchPlan :=
  let staged := stage dir o.source a.release
  (preflight dir a.docker).bind fun current => staged.2.bind (planSwitch staged.1 o a current)

/-- What an upgrade that stopped leaves, and what one that switched did. -/
theorem upgrade_cases (dir : Dir) (o : Options) (a : Answers) :
    (planned dir o a = none ∧ (upgrade dir o a).2 = .stopped ∧ ∀ file copy, copy ≠ .next →
      (upgrade dir o a).1 (.bundled file copy) = dir (.bundled file copy)) ∨
    ∃ compose plan, planned dir o a = some plan ∧
      (stageFiles dir o.source a.release).2 = some compose ∧
      (dir (.bundled .compose .current)).isSome = true ∧
      backup (stageFiles dir o.source a.release).1 a.backup = some plan.backup ∧
      upgrade dir o a = switchTo (stageFiles dir o.source a.release).1 plan a := by
  have hkept := fun (file : Bundled) (copy : Copy) (h : copy ≠ .next) =>
    @stageFiles_kept dir o.source a.release file copy h
  cases hpreflight : preflight dir a.docker with
  | none =>
    have hsame : upgrade dir o a = (dir, .stopped) := by simp only [upgrade, hpreflight]
    rw [hsame]
    exact .inl ⟨by simp only [planned, hpreflight, Option.bind_none], rfl, fun _ _ _ => rfl⟩
  | some current =>
    have hthere : (dir (.bundled .compose .current)).isSome = true := by
      unfold preflight at hpreflight
      split at hpreflight
      · obtain ⟨compose, hcompose, -⟩ := Option.bind_eq_some_iff.mp hpreflight
        rw [hcompose, Option.isSome_some]
      · cases hpreflight
    cases hplan : (stage dir o.source a.release).2.bind
        (planSwitch (stage dir o.source a.release).1 o a current) with
    | none =>
      have hstopped : upgrade dir o a = (cleanupNext (stage dir o.source a.release).1, .stopped) := by
        simp only [upgrade, hpreflight, hplan]
      rw [hstopped]
      refine .inl ⟨by simp only [planned, hpreflight, Option.bind_some, hplan], rfl, fun file copy h => ?_⟩
      exact (cleanupNext_kept _ h).trans (hkept file copy h)
    | some plan =>
      obtain ⟨target, htarget, hplanned⟩ := Option.bind_eq_some_iff.mp hplan
      obtain ⟨compose, hcompose, -⟩ := Option.bind_eq_some_iff.mp htarget
      have hcomes : planned dir o a = some plan := by
        simp only [planned, hpreflight, Option.bind_some, hplan]
      have hswitch : upgrade dir o a = switchTo (stage dir o.source a.release).1 plan a := by
        simp only [upgrade, hpreflight, hplan]
      refine .inr ⟨compose, plan, hcomes, hcompose, hthere, ?_, hswitch⟩
      unfold planSwitch at hplanned
      split at hplanned
      · cases hplanned
      · obtain ⟨report, -, hreport⟩ := Option.bind_eq_some_iff.mp hplanned
        split at hreport
        · cases hreport
        · obtain ⟨info, hinfo, rfl⟩ := Option.map_eq_some_iff.mp hreport
          exact hinfo

/-- A switch ends up or failed, and what it leaves of the bundle files is the staged ones swapped in. -/
theorem switchTo_cases (dir : Dir) (plan : SwitchPlan) (a : Answers) :
    (switchTo dir plan a).2 ≠ .stopped ∧
      (∀ file copy, (switchTo dir plan a).1 (.bundled file copy) = swapFiles dir (.bundled file copy)) ∧
      ∀ info lines, (switchTo dir plan a).2 = .failed info (.restore lines) ↔
        (a.running ≠ plan.target ∧ plan.canStart a = false) ∧
          info = plan.backup ∧ lines = restoreCommands (swapFiles dir) plan.backup := by
  unfold switchTo
  simp only
  split
  next hup =>
    have henv : ∀ file copy, Name.bundled file copy ≠ .envNext := nofun
    exact ⟨nofun, fun file copy => remove_of_ne (henv file copy), fun info lines =>
      ⟨nofun, fun h => absurd hup h.1.1⟩⟩
  next hdown =>
    refine ⟨nofun, fun _ _ => rfl, fun info lines => ?_⟩
    cases hstart : plan.canStart a with
    | true => simp
    | false =>
      simp only [Bool.false_eq_true, if_false, Ended.failed.injEq, WayBack.restore.injEq]
      exact ⟨fun ⟨hinfo, hlines⟩ => ⟨⟨hdown, trivial⟩, hinfo.symm, hlines.symm⟩,
        fun ⟨_, hinfo, hlines⟩ => ⟨hinfo.symm, hlines.symm⟩⟩

/-- **An upgrade that stops before its switch changes no bundle file.** -/
theorem upgrade_stops {dir : Dir} {o : Options} {a : Answers} (h : (upgrade dir o a).2 = .stopped) :
    SameFiles (upgrade dir o a).1 dir := by
  intro file
  rcases upgrade_cases dir o a with ⟨-, -, hkept⟩ | ⟨compose, plan, -, -, -, -, hswitch⟩
  · exact hkept file .current nofun
  · rw [hswitch] at h
    exact absurd h (switchTo_cases _ plan a).1

/-- When an upgrade ends with the restore commands, and which. -/
theorem upgrade_restores {dir : Dir} {o : Options} {a : Answers} (info : BackupInfo)
    (lines : List RestoreLine) :
    (upgrade dir o a).2 = .failed info (.restore lines) ↔
      ∃ plan, planned dir o a = some plan ∧ (a.running ≠ plan.target ∧ plan.canStart a = false) ∧
        info = plan.backup ∧
        lines = restoreCommands (swapFiles (stageFiles dir o.source a.release).1) plan.backup := by
  rcases upgrade_cases dir o a with ⟨hnone, hstopped, -⟩ | ⟨compose, plan, hplan, -, -, -, hswitch⟩
  · rw [hstopped, hnone]
    exact ⟨nofun, nofun⟩
  · rw [hswitch, (switchTo_cases _ plan a).2.2 info lines, hplan]
    simp only [Option.some.injEq, exists_eq_left']

/-- Once switched, no compose file is staged: the major is the default. -/
theorem postgresMajor_swapped (dir : Dir) :
    postgresMajor (swapFiles dir) = defaultPostgresMajor := by
  have hgone : swapFiles dir (.bundled .compose .next) = none := by
    simp only [swapFiles, companions, List.foldl_cons, List.foldl_nil]
    rw [swapCompanion_other entrypoint_ne.symm, swapCompanion_other yaml_ne.symm, swapIn]
    exact rename_old
  rw [postgresMajor, hgone]
  rfl

/-- The stack's own Postgres was dumped, or the new compose file pins the default major or none. -/
def DefaultMajor (dir : Dir) (o : Options) (a : Answers) : Prop :=
  a.backup.bundled = true ∨ ∀ compose ∈ (stageFiles dir o.source a.release).2,
    PostgresMajor compose = [] ∨ PostgresMajor compose = defaultPostgresMajor

/-- **The restore commands name the Postgres that dumped the backup** exactly there. -/
theorem restore_iff {dir : Dir} {o : Options} {a : Answers} {plan : SwitchPlan}
    (h : planned dir o a = some plan) :
    SameMajor plan.backup (restoreCommands (swapFiles (stageFiles dir o.source a.release).1) plan.backup) ↔
      DefaultMajor dir o a := by
  rcases upgrade_cases dir o a with ⟨hnone, -⟩ | ⟨compose, plan', hplan, hcompose, -, hbackup, hswitch⟩
  · cases hnone.symm.trans h
  · obtain rfl := Option.some.inj (hplan.symm.trans h)
    obtain ⟨hnext, -⟩ := stageFiles_next hcompose
    unfold backup at hbackup
    split at hbackup
    next =>
      have hinfo := Option.some.inj hbackup
      have hswapped := postgresMajor_swapped (stageFiles dir o.source a.release).1
      rw [← hinfo, DefaultMajor, hcompose]
      cases hbundled : a.backup.bundled with
      | true =>
        refine ⟨fun _ => .inl rfl, fun _ line hline major hmajor => ?_⟩
        simp only [restoreCommands, if_true, List.cons_append, List.nil_append, List.mem_cons,
          List.not_mem_nil, or_false] at hline
        rcases hline with rfl | rfl | rfl | rfl | rfl <;> cases hmajor
      | false =>
        have hsame : SameMajor
            { dir := a.backup.dir, bundled := false
              dumpedWith := some (postgresMajor (stageFiles dir o.source a.release).1) }
            (restoreCommands (swapFiles (stageFiles dir o.source a.release).1)
              { dir := a.backup.dir, bundled := false
                dumpedWith := some (postgresMajor (stageFiles dir o.source a.release).1) }) ↔
            postgresMajor (stageFiles dir o.source a.release).1 = defaultPostgresMajor := by
          simp [SameMajor, restoreCommands, RestoreLine.major, hswapped]
        simp only [Bool.false_eq_true, if_false, false_or, Option.mem_def, Option.some.injEq,
          forall_eq'] at hsame ⊢
        rw [hsame, postgresMajor, hnext, Option.getD_some]
        by_cases hnone : PostgresMajor compose = []
        · simp [hnone]
        · simp [hnone]
    next => cases hbackup

/-! ## Every run -/

/-- What a switch that no rollback has undone left of each bundle file. -/
structure Switched.Left (s : Switched) (dir : Dir) : Prop where
  compose : s.brings .compose = true ∧ (s.before (.bundled .compose .current)).isSome = true
  prev : ∀ file, dir (.bundled file .prev) =
    if s.brings file then (s.before (.bundled file .current)).or (s.before (.bundled file .prev))
    else s.before (.bundled file .prev)
  kept : ∀ file, s.brings file = false →
    dir (.bundled file .current) = s.before (.bundled file .current)
  brought : ∀ file, s.brings file = true → (dir (.bundled file .current)).isSome = true

/-- The last switch's leavings stand in the directory. -/
def World.Sound (w : World) : Prop := ∀ s ∈ w.last, s.Left w.dir

theorem Switched.Left.same {s : Switched} {dir dir' : Dir} (h : s.Left dir)
    (hsame : ∀ file copy, copy ≠ .next → dir' (.bundled file copy) = dir (.bundled file copy)) :
    s.Left dir' where
  compose := h.compose
  prev file := (hsame file .prev nofun).trans (h.prev file)
  kept file hfile := (hsame file .current nofun).trans (h.kept file hfile)
  brought file hfile := by rw [hsame file .current nofun, h.brought file hfile]

/-- **The step lemma.** -/
theorem World.Sound.step {w w' : World} {label : Label} (inv : w.Sound) (h : w.step label = some w') :
    w'.Sound := by
  cases label with
  | upgrade o a =>
    obtain rfl := Option.some.inj h
    rcases upgrade_cases w.dir o a with
      ⟨-, hstopped, hkept⟩ | ⟨compose, plan, -, hcompose, hthere, -, hswitch⟩
    · intro s hs
      simp only [hstopped, if_true] at hs
      exact (inv s hs).same hkept
    · obtain ⟨hended, hfiles, -⟩ := switchTo_cases (stageFiles w.dir o.source a.release).1 plan a
      obtain ⟨hnext, hbrings⟩ := stageFiles_next hcompose
      have hkept := fun (file : Bundled) (copy : Copy) (hc : copy ≠ .next) =>
        @stageFiles_kept w.dir o.source a.release file copy hc
      have hsome : ((stageFiles w.dir o.source a.release).1 (.bundled .compose .next)).isSome = true := by
        rw [hnext, Option.isSome_some]
      intro s hs
      simp only [hswitch, if_neg hended] at hs ⊢
      obtain rfl := Option.some.inj hs
      refine ⟨⟨rfl, hthere⟩, fun file => ?_, fun file hfile => ?_, fun file hfile => ?_⟩
      · rw [hfiles, (swapFiles_file hsome file).2, hbrings, hkept file .current nofun,
          hkept file .prev nofun]
      · have hnone := (hbrings file).trans hfile
        rw [Option.isSome_eq_false_iff, Option.isNone_iff_eq_none] at hnone
        rw [hfiles, (swapFiles_file hsome file).1, hkept file .current nofun, hnone, Option.none_or]
      · rw [hfiles, (swapFiles_file hsome file).1, Option.isSome_or, (hbrings file).trans hfile,
          Bool.true_or]
  | rollback a =>
    obtain rfl := Option.some.inj h
    intro s hs
    simp only at hs ⊢
    split at hs
    · cases hs
    next hstays =>
      rw [rollback, if_neg hstays]
      exact inv s hs

theorem World.Sound.run {dir : Dir} {w : World} (h : Runs World.step Always (World.start dir) w) :
    w.Sound :=
  @Runs.keeps _ _ _ _ _ _ World.Sound (fun _ hs => by cases hs)
    (fun _ _ _ inv _ hstep => inv.step hstep) h

/-- **A rollback undoes the last switch** exactly where that one fits. -/
theorem rollback_iff {w : World} {s : Switched} {a : RollbackAnswers} (inv : w.Sound)
    (hlast : w.last = some s) (hgoes : goesBack w.dir a = true) :
    SameFiles (rollback w.dir a) s.before ↔ Fits s := by
  have left : s.Left w.dir := inv s hlast
  have hprev : (w.dir (.bundled .compose .prev)).isSome = true := by
    unfold goesBack at hgoes
    split at hgoes
    next hprev _ => rw [hprev, Option.isSome_some]
    next => cases hgoes
  have hfile : ∀ file, rollback w.dir a (.bundled file .current) = s.before (.bundled file .current) ↔
      if s.brings file then (s.before (.bundled file .current)).isSome = true
      else s.before (.bundled file .prev) = none ∨
        s.before (.bundled file .prev) = s.before (.bundled file .current) := by
    intro file
    rw [rollback, if_pos hgoes, putBackFiles_file hprev file, left.prev file]
    cases hbrings : s.brings file with
    | true =>
      rw [if_pos rfl, if_pos rfl]
      obtain ⟨new, hnew⟩ := Option.isSome_iff_exists.mp (left.brought file hbrings)
      cases hold : s.before (.bundled file .current) with
      | some old => simp
      | none =>
        rw [Option.none_or, hnew]
        cases s.before (.bundled file .prev) <;> simp
    | false =>
      rw [if_neg Bool.false_ne_true, if_neg Bool.false_ne_true, left.kept file hbrings]
      cases s.before (.bundled file .prev) <;> simp
  exact forall_congr' hfile

/-- What the commands of a run are to keep to: an upgrade that stops changes no bundle file, the restore
commands name the Postgres that dumped the backup, and a rollback leaves the bundle files as they were
before the upgrade it undoes. -/
def Keeps (w : World) : Label → Prop
  | .upgrade o a =>
    ((upgrade w.dir o a).2 = .stopped → SameFiles (upgrade w.dir o a).1 w.dir) ∧
      ∀ info lines, (upgrade w.dir o a).2 = .failed info (.restore lines) → SameMajor info lines
  | .rollback a =>
    ∀ s, w.last = some s → goesBack w.dir a = true → SameFiles (rollback w.dir a) s.before

/-- Where they do. -/
def Clear (w : World) : Label → Prop
  | .upgrade o a =>
    -- The new version stays away, and the old one cannot start against the database by then.
    ∀ plan, planned w.dir o a = some plan → a.running ≠ plan.target → plan.canStart a = false →
      DefaultMajor w.dir o a
  | .rollback a => ∀ s, w.last = some s → goesBack w.dir a = true → Fits s

/-- **The commands of every run.** -/
theorem commands_keep_iff {dir : Dir} {w : World} (h : Runs World.step Always (World.start dir) w)
    (label : Label) : Keeps w label ↔ Clear w label := by
  have inv : w.Sound := World.Sound.run h
  cases label with
  | upgrade o a =>
    constructor
    · intro hkeeps plan hplan hdown hlost
      have hended := (upgrade_restores _ _).mpr ⟨plan, hplan, ⟨hdown, hlost⟩, rfl, rfl⟩
      exact (restore_iff hplan).mp (hkeeps.2 _ _ hended)
    · intro hclear
      refine ⟨upgrade_stops, fun info lines hended => ?_⟩
      obtain ⟨plan, hplan, ⟨hdown, hlost⟩, rfl, rfl⟩ := (upgrade_restores _ _).mp hended
      exact (restore_iff hplan).mpr (hclear plan hplan hdown hlost)
  | rollback a =>
    exact forall_congr' fun s => forall_congr' fun hlast => forall_congr' fun hgoes =>
      rollback_iff inv hlast hgoes

/-! ## Two runs -/

/-- A compose file that pins a stoop image, and nothing else. -/
def pinning (version : Char) : Text := "image: stoop:".toList ++ [version]

/-- An install of release 1 with one companion. -/
def installed : Dir
  | .bundled .compose .current => some (pinning '1')
  | .bundled .livekitYaml .current => some ['a']
  | .env => some []
  | _ => none

/-- Release 2, which brings the companion anew. -/
def releaseTwo : Release where
  compose := some (pinning '2')
  example? := some []
  companion
    | .livekitYaml => some ['b']
    | _ => none

def backedUp : BackupRun := { dir := ['b'], bundled := true, done := true }

/-- The upgrade to release 2, and then to a compose file of release 3 alone. -/
def toTwo : Label :=
  .upgrade { source := .release, yes := true }
    { release := some releaseTwo, backup := backedUp, running := ['2'] }

def toThree : Label :=
  .upgrade { source := .file (.other (some (pinning '3'))), yes := true }
    { backup := backedUp, running := ['3'] }

def goBack : RollbackAnswers := { oldest := some ['1'], yes := true }

def worldAfter (commands : List Label) : World :=
  (runList World.step (World.start installed) commands).getD (World.start installed)

/-- After one upgrade the rollback puts both files back. -/
theorem one_upgrade_undone :
    Keeps (worldAfter [toTwo]) (.rollback goBack) ∧ goesBack (worldAfter [toTwo]).dir goBack = true := by
  refine ⟨(commands_keep_iff (Runs.ofList [toTwo] (EachStep.always _ _) rfl) (.rollback goBack)).mpr ?_,
    by decide⟩
  intro s hlast _
  obtain rfl := Option.some.inj (hlast.symm.trans (rfl : (worldAfter [toTwo]).last =
    some ⟨installed, brings { source := .release, yes := true }
      { release := some releaseTwo, backup := backedUp, running := ['2'] }⟩))
  intro file
  cases file <;> decide

/-- **Two upgrades mix**: a rollback of the second puts back the companion from before the first. -/
theorem two_upgrades_mix :
    ¬ ∀ dir w, Runs World.step Always (World.start dir) w → ∀ label, Keeps w label := by
  intro claim
  have hkeeps := claim installed (worldAfter [toTwo, toThree])
    (Runs.ofList [toTwo, toThree] (EachStep.always _ _) rfl) (.rollback goBack)
  have hmixed : ¬ SameFiles (rollback (worldAfter [toTwo, toThree]).dir goBack)
      (worldAfter [toTwo]).dir := by decide
  exact hmixed (hkeeps ⟨(worldAfter [toTwo]).dir, _⟩ rfl (by decide))

end Stoop.Upgrade
