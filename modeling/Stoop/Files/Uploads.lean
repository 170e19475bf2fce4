import Mathlib.Data.List.Perm.Basic
import Mathlib.Logic.Function.Basic
import Stoop.Lib.Keyed
import Stoop.Lib.Machine

/-!
# Upload slots: an app's queue and the server's allowance

Two counters bound how many uploads an account has under way, and neither sees the other. The server's is `Inflight`: a
handler takes a slot before it reads the body and gives it back as it returns, and past the limit answers 429. An app's
is `Slots`, the queue `uploadSlots` closes over: a fourth upload waits for one of the three before it to settle.

The machine here puts both in one world, with every app, every account and the requests on their way between them.
What an app resolves is not resumed at once: `waiting.shift()?.()` settles a promise, and the one who awaited it runs in
a later microtask, with `running` not yet raised. Those are `woken`.
-/

set_option autoImplicit false

namespace Stoop.Files.Uploads

open Stoop.Lib

/-! ## What the server counts -/

/-- `files.MaxInflightUploads`. -/
def MaxInflightUploads : Nat := 3

structure Held where
  key : Nat
  count : Nat
  deriving DecidableEq, Repr

/-- How many uploads each account has under way. -/
structure Inflight where
  limit : Nat
  byKey : Keyed Held.key

namespace Inflight

def new (limit : Nat) : Inflight := ⟨limit, .empty⟩

/-- `byKey[key]`: no entry reads as 0. -/
def count (i : Inflight) (key : Nat) : Nat := ((i.byKey.get? key).map Held.count).getD 0

/-- A slot for `key`, if it has one left. -/
def acquire (i : Inflight) (key : Nat) : Option Inflight :=
  if i.count key ≥ i.limit then none
  else some { i with byKey := i.byKey.set ⟨key, i.count key + 1⟩ }

def release (i : Inflight) (key : Nat) : Inflight :=
  if i.count key ≤ 1 then { i with byKey := i.byKey.filter fun held => held.key != key }
  else { i with byKey := i.byKey.set ⟨key, i.count key - 1⟩ }

/-- Every entry is of an account with an upload under way. -/
def Positive (i : Inflight) : Prop := ∀ key held, i.byKey.get? key = some held → 0 < held.count

variable {i i' : Inflight} {key : Nat}

theorem acquire_eq_some (h : i.acquire key = some i') :
    i.count key < i.limit ∧ i'.limit = i.limit ∧
      ∀ k, i'.count k = i.count k + if key = k then 1 else 0 := by
  unfold acquire at h
  split at h
  · cases h
  next hroom =>
    obtain rfl := Option.some.inj h
    refine ⟨Nat.lt_of_not_le hroom, rfl, ?_⟩
    intro k
    rw [count, Keyed.get?_set]
    by_cases hk : key = k
    · subst hk
      simp
    · simp [hk, count]

theorem acquire_eq_none : i.acquire key = none ↔ i.limit ≤ i.count key := by
  simp only [acquire, ge_iff_le, ite_eq_left_iff, reduceCtorEq, imp_false, not_not]

@[simp] theorem release_limit : (i.release key).limit = i.limit := by
  unfold release
  split <;> rfl

theorem count_release (k : Nat) : (i.release key).count k = i.count k - if key = k then 1 else 0 := by
  unfold release
  split
  next hlast =>
    rw [count, Keyed.get?_filter_ne]
    by_cases hk : k = key
    · subst hk
      simp only [if_true, Option.map_none, Option.getD_none]
      omega
    · simp [hk, Ne.symm hk, count]
  next =>
    rw [count, Keyed.get?_set]
    by_cases hk : key = k
    · subst hk
      simp
    · simp [hk, count]

theorem Positive.acquire (h : i.Positive) (hacq : i.acquire key = some i') : i'.Positive := by
  unfold Inflight.acquire at hacq
  split at hacq
  · cases hacq
  obtain rfl := Option.some.inj hacq
  intro k held hget
  obtain ⟨-, rfl⟩ | ⟨-, hold⟩ := Keyed.get?_set_cases hget
  · exact Nat.succ_pos _
  · exact h k held hold

theorem Positive.release (h : i.Positive) : (i.release key).Positive := by
  intro k held hget
  unfold Inflight.release at hget
  split at hget
  · exact h k held (Keyed.get?_filter_eq_some hget).1
  next hmore =>
    obtain ⟨-, rfl⟩ | ⟨-, hold⟩ := Keyed.get?_set_cases hget
    · show 0 < i.count key - 1
      omega
    · exact h k held hold

end Inflight

/-! ## What an app queues -/

/-- `attachments.MAX_PARALLEL_UPLOADS`. -/
def MAX_PARALLEL_UPLOADS : Nat := 3

/-- One upload: the app that waits for its answer, if one does, and the account its credential is of. -/
structure Upload where
  app : Option Nat
  account : Nat
  id : Nat
  deriving DecidableEq, Repr

/-- What `uploadSlots` closes over, and the waiters resolved but not yet resumed. -/
structure Slots where
  running : Nat
  waiting : List Upload
  woken : List Upload
  deriving DecidableEq, Repr

namespace Slots

def uploadSlots : Slots := ⟨0, [], []⟩

/-- An upload asks for a slot: the queue after it, and the upload if it starts at once. -/
def withUploadSlot (max : Nat) (s : Slots) (upload : Upload) : Slots × List Upload :=
  if s.running ≥ max then ({ s with waiting := s.waiting ++ [upload] }, [])
  else ({ s with running := s.running + 1 }, [upload])

/-- The first waiter resolved goes on past its `await`. -/
def resume (s : Slots) : Option (Slots × Upload) :=
  match s.woken with
  | [] => none
  | upload :: woken => some ({ s with running := s.running + 1, woken := woken }, upload)

/-- A task settled: the `finally` block. -/
def settled (s : Slots) : Slots :=
  { running := s.running - 1, waiting := s.waiting.drop 1, woken := s.woken ++ s.waiting.take 1 }

end Slots

/-! ## Both, and what is on its way between them -/

structure World where
  slots : Nat → Slots
  inflight : Inflight
  /-- Requests the server has not come to yet. -/
  sent : List Upload
  /-- Requests whose handler holds a slot. -/
  held : List Upload
  /-- Answers their app has not seen yet. -/
  answered : List Upload

inductive Event
  | called (upload : Upload)
  | started (upload : Upload)
  | refused (upload : Upload)
  deriving DecidableEq, Repr

inductive Label
  /-- Somebody uploads: through an app's queue, or with no queue at all. -/
  | call (upload : Upload)
  | resume (app : Nat)
  /-- `UploadHandler` comes to a request whose credential is good. -/
  | arrive (upload : Upload)
  /-- The handler returns. Its slot goes back first: an answer this short is flushed once the handler is done. -/
  | reply (upload : Upload)
  /-- The app sees the answer. -/
  | settle (upload : Upload)
  /-- The connection fails before the server comes to the request. -/
  | lose (upload : Upload)
  /-- The app gives up on a request that the server is at, or will come to: its handler works for nobody. -/
  | abandon (upload : Upload)
  deriving DecidableEq, Repr

namespace World

def start (limit : Nat) : World := ⟨fun _ => .uploadSlots, .new limit, [], [], []⟩

/-- An app's slots once the task of one of its uploads has settled. -/
def settleFor (w : World) (upload : Upload) : Nat → Slots :=
  match upload.app with
  | none => w.slots
  | some app => Function.update w.slots app (w.slots app).settled

def act (max : Nat) (w : World) : Label → Option (World × List Event)
  | .call upload =>
    match upload.app with
    | none => some ({ w with sent := upload :: w.sent }, [.called upload, .started upload])
    | some app =>
      let (s, now) := (w.slots app).withUploadSlot max upload
      some ({ w with slots := Function.update w.slots app s, sent := now ++ w.sent },
        .called upload :: now.map .started)
  | .resume app =>
    (w.slots app).resume.map fun (s, upload) =>
      ({ w with slots := Function.update w.slots app s, sent := upload :: w.sent }, [.started upload])
  | .arrive upload =>
    if upload ∈ w.sent then
      match w.inflight.acquire upload.account with
      | some inflight =>
        some ({ w with inflight, sent := w.sent.erase upload, held := upload :: w.held }, [])
      | none =>
        some ({ w with sent := w.sent.erase upload, answered := upload :: w.answered }, [.refused upload])
    else none
  | .reply upload =>
    if upload ∈ w.held then
      some ({ w with inflight := w.inflight.release upload.account, held := w.held.erase upload
                     answered := upload :: w.answered }, [])
    else none
  | .settle upload =>
    if upload ∈ w.answered then
      some ({ w with slots := w.settleFor upload, answered := w.answered.erase upload }, [])
    else none
  | .lose upload =>
    if upload ∈ w.sent then
      some ({ w with slots := w.settleFor upload, sent := w.sent.erase upload }, [])
    else none
  | .abandon upload =>
    if upload ∈ w.held then
      some ({ w with slots := w.settleFor upload
                     held := { upload with app := none } :: w.held.erase upload }, [])
    else if upload ∈ w.sent then
      some ({ w with slots := w.settleFor upload
                     sent := { upload with app := none } :: w.sent.erase upload }, [])
    else none

end World

/-- One step, with what happened in it on the record. -/
def step (max : Nat) (r : Recorded World Event) (label : Label) : Option (Recorded World Event) :=
  (r.state.act max label).map fun (w, events) => ⟨w, r.past ++ events⟩

end Stoop.Files.Uploads
