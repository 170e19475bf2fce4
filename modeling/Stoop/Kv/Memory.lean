import Mathlib
import Stoop.Lib.Machine
import Stoop.Lib.Keyed

/-!
# The in-process store

`internal/kv/memory.go`: a map from keys to values, each with the time at which it is gone, bounded in how
many it holds. An entry that has expired may still be in the map: it is dropped when its key is next looked
at, when a write sweeps, when the entries are counted, or when it is found by a full store making room.

A call reads the clock as often as the source does (`Readings`), and each reading is no earlier than the one
before. A walk of the map is in the order the runtime chose, which is any order of all its keys. Go's lock
makes each call one step.

## Lookups

What the helpers take is under a lookup: an expired entry (`Drops`), or the entry a full store gives up.
-/

set_option autoImplicit false

namespace Stoop.Kv

open Stoop.Lib

variable {κ α τ : Type}

/-! ## The store -/

/-- `memoryEntry`, with the key it is under. -/
structure MemoryEntry (κ α τ : Type) where
  key : κ
  value : α
  expires : τ
  deriving DecidableEq, Repr

abbrev Entries (κ α τ : Type) := Keyed (@MemoryEntry.key κ α τ)

/-- `memoryStore`: `lastSweep` is none before the first sweep, and `clock` what the clock last read. -/
structure MemoryStore (κ α τ : Type) where
  cap : Nat
  entries : Entries κ α τ
  lastSweep : Option τ
  clock : τ

/-- `Open`. -/
def MemoryStore.new (cap : Nat) (clock : τ) : MemoryStore κ α τ := ⟨cap, Keyed.empty, none, clock⟩

/-- What `change` answers: what to store, its ttl, and whether to keep it at all. -/
structure Change (α τ : Type) where
  next : α
  ttl : τ
  keep : Bool
  deriving DecidableEq, Repr

/-- A new entry needs a ttl. -/
inductive Refused
  | noTTL
  deriving DecidableEq, Repr

/-- What one write reads off the clock: to sweep, to drop what the sweep finds, to look the key up, to make
room, and to set the expiry. -/
structure Readings (τ : Type) where
  sweep : τ
  drop : τ
  live : τ
  room : τ
  write : τ
  deriving DecidableEq, Repr

/-- How many entries a full store looks at to pick the one to evict. -/
def evictSample : Nat := 16

section Calls

variable [DecidableEq κ] [LinearOrder τ]

/-- `dropExpiredLocked`. -/
def dropExpired (s : MemoryStore κ α τ) (now : τ) : MemoryStore κ α τ :=
  { s with entries := s.entries.filter fun entry => decide (now < entry.expires) }

/-- `delete(s.entries, key)`. -/
def remove (s : MemoryStore κ α τ) (key : κ) : MemoryStore κ α τ :=
  { s with entries := s.entries.filter fun entry => entry.key != key }

/-- `liveLocked`: the entry under key unless it has expired, in which case it is dropped on the way. -/
def liveEntry (s : MemoryStore κ α τ) (key : κ) (now : τ) : MemoryStore κ α τ × Option (MemoryEntry κ α τ) :=
  match s.entries.get? key with
  | none => (s, none)
  | some entry => if now < entry.expires then (s, some entry) else (remove s key, none)

/-- The one to go of those seen, once another is: the first, or one that expires before the one so far. -/
def sooner (soonest : Option (MemoryEntry κ α τ)) (entry : MemoryEntry κ α τ) : MemoryEntry κ α τ :=
  match soonest with
  | none => entry
  | some prior => if entry.expires < prior.expires then entry else prior

/-- The loop of `makeRoomLocked` over what is still to be walked: `seen` entries are behind, the soonest of
them to expire is `soonest`. -/
def pick (now : τ) (seen : Nat) (soonest : Option (MemoryEntry κ α τ)) :
    List (MemoryEntry κ α τ) → Option (MemoryEntry κ α τ)
  | [] => soonest
  | entry :: rest =>
    if entry.expires ≤ now then some entry
    else if seen + 1 = evictSample then some (sooner soonest entry)
    else pick now (seen + 1) (some (sooner soonest entry)) rest

/-- The entries of a walk, in its order. -/
def walked (entries : Entries κ α τ) (walk : List κ) : List (MemoryEntry κ α τ) :=
  walk.filterMap entries.get?

/-- The entry `makeRoomLocked` deletes. -/
def victim (s : MemoryStore κ α τ) (now : τ) (walk : List κ) : Option (MemoryEntry κ α τ) :=
  if s.entries.values.length < s.cap then none else pick now 0 none (walked s.entries walk)

/-- `makeRoomLocked`. -/
def makeRoom (s : MemoryStore κ α τ) (now : τ) (walk : List κ) : MemoryStore κ α τ :=
  match victim s now walk with
  | none => s
  | some entry => remove s entry.key

variable [AddCommGroup τ] (sweepEvery : τ)

/-- `sweepLocked`: a write pays for a full scan once in `sweepEvery`. -/
def sweep (s : MemoryStore κ α τ) (r : Readings τ) : MemoryStore κ α τ :=
  if ∃ last ∈ s.lastSweep, r.sweep - last < sweepEvery then s
  else dropExpired { s with lastSweep := some r.sweep } r.drop

/-- What `Set` and `Update` begin with: the sweep, and the entry under the key. -/
def ready (s : MemoryStore κ α τ) (key : κ) (r : Readings τ) : MemoryStore κ α τ × Option (MemoryEntry κ α τ) :=
  liveEntry (sweep sweepEvery s r) key r.live

def get (s : MemoryStore κ α τ) (key : κ) (now : τ) : MemoryStore κ α τ × Option α :=
  ((liveEntry s key now).1, (liveEntry s key now).2.map (·.value))

def set (s : MemoryStore κ α τ) (key : κ) (value : α) (ttl : τ) (r : Readings τ) (walk : List κ) :
    MemoryStore κ α τ :=
  let (s, found) := ready sweepEvery s key r
  let s := if found.isSome then s else makeRoom s r.room walk
  { s with entries := s.entries.set ⟨key, value, r.write + ttl⟩ }

def update (s : MemoryStore κ α τ) (key : κ) (change : Option α → Change α τ) (r : Readings τ)
    (walk : List κ) : MemoryStore κ α τ × Except Refused Unit :=
  let (s, found) := ready sweepEvery s key r
  let c := change (found.map (·.value))
  if !c.keep then (remove s key, .ok ())
  else match found with
    | none =>
      if c.ttl ≤ 0 then (s, .error .noTTL)
      else
        let s := makeRoom s r.room walk
        ({ s with entries := s.entries.set ⟨key, c.next, r.write + c.ttl⟩ }, .ok ())
    | some entry =>
      -- a ttl of zero leaves the entry's expiry as it was
      let expires := if 0 < c.ttl then r.write + c.ttl else entry.expires
      ({ s with entries := s.entries.set ⟨key, c.next, expires⟩ }, .ok ())

/-! ## Steps -/

/-- One call on a store, with what it reads off the clock and the order in which it walks the map. -/
inductive Call (κ α τ : Type)
  | get (key : κ) (now : τ)
  | set (key : κ) (value : α) (ttl : τ) (r : Readings τ) (walk : List κ)
  | update (key : κ) (change : Option α → Change α τ) (r : Readings τ) (walk : List κ)
  | delete (key : κ)
  | len (now : τ)

/-- Each reading is no earlier than the one before it. -/
def Readings.Forward (clock : τ) (r : Readings τ) : Prop :=
  clock ≤ r.sweep ∧ r.sweep ≤ r.drop ∧ r.drop ≤ r.live ∧ r.live ≤ r.room ∧ r.room ≤ r.write

instance (clock : τ) (r : Readings τ) : Decidable (r.Forward clock) := inferInstanceAs (Decidable (_ ∧ _))

/-- A walk of the map visits each key once. -/
def Walks (entries : Entries κ α τ) (walk : List κ) : Prop :=
  walk.Nodup ∧ ∀ entry ∈ entries.values, entry.key ∈ walk

instance (entries : Entries κ α τ) (walk : List κ) : Decidable (Walks entries walk) :=
  inferInstanceAs (Decidable (_ ∧ _))

/-- One call, where the clock has not gone back and the walk is one of the map. -/
def step (s : MemoryStore κ α τ) : Call κ α τ → Option (MemoryStore κ α τ)
  | .get key now => if s.clock ≤ now then some { (get s key now).1 with clock := now } else none
  | .set key value ttl r walk =>
    if r.Forward s.clock ∧ Walks s.entries walk then
      some { set sweepEvery s key value ttl r walk with clock := r.write }
    else none
  | .update key change r walk =>
    if r.Forward s.clock ∧ Walks s.entries walk then
      some { (update sweepEvery s key change r walk).1 with clock := r.write }
    else none
  | .delete key => some (remove s key)
  | .len now => if s.clock ≤ now then some { dropExpired s now with clock := now } else none

end Calls

/-! ## The cap stays -/

section Cap

variable [LinearOrder τ] {s : MemoryStore κ α τ} {r : Readings τ} {key : κ} {now : τ} {walk : List κ}

@[simp] theorem dropExpired_cap : (dropExpired s now).cap = s.cap := rfl

@[simp] theorem sweep_cap [AddCommGroup τ] {sweepEvery : τ} : (sweep sweepEvery s r).cap = s.cap := by
  unfold sweep
  split <;> rfl

variable [DecidableEq κ]

@[simp] theorem liveEntry_cap : (liveEntry s key now).1.cap = s.cap := by
  unfold liveEntry
  split
  · rfl
  · split <;> rfl

@[simp] theorem makeRoom_cap : (makeRoom s now walk).cap = s.cap := by
  unfold makeRoom
  split <;> rfl

@[simp] theorem ready_cap [AddCommGroup τ] {sweepEvery : τ} : (ready sweepEvery s key r).1.cap = s.cap :=
  liveEntry_cap.trans sweep_cap

end Cap

/-! ## Lookups -/

section Lookups

variable {s s' : MemoryStore κ α τ} {entry : MemoryEntry κ α τ} {key k : κ} {now now' : τ} {walk : List κ}
variable [DecidableEq κ]

theorem get?_remove : (remove s key).entries.get? k = if k = key then none else s.entries.get? k :=
  Keyed.get?_filter_ne _ _ _

theorem mem_walked {entries : Entries κ α τ} (h : entry ∈ walked entries walk) :
    entries.get? entry.key = some entry := by
  obtain ⟨key, -, hget⟩ := List.mem_filterMap.mp h
  rwa [Keyed.key_of_get? hget]

variable [LinearOrder τ]

/-- What is under each key of the second store is what was under it in the first, where that had not expired
by then. -/
def Drops (now : τ) (s s' : MemoryStore κ α τ) : Prop :=
  ∀ key, s'.entries.get? key = s.entries.get? key ∨
    s'.entries.get? key = none ∧ ∃ entry, s.entries.get? key = some entry ∧ entry.expires ≤ now

theorem Drops.refl (now : τ) (s : MemoryStore κ α τ) : Drops now s s := fun _ => .inl rfl

theorem Drops.trans {s'' : MemoryStore κ α τ} (h : Drops now s s') (h' : Drops now' s' s'') (hle : now ≤ now') :
    Drops now' s s'' := by
  intro key
  rcases h' key with hsame | ⟨hgone, entry, hentry, hexp⟩
  · rcases h key with hfirst | ⟨hgone, entry, hentry, hexp⟩
    · exact .inl (hsame.trans hfirst)
    · exact .inr ⟨hsame.trans hgone, entry, hentry, le_trans hexp hle⟩
  · rcases h key with hfirst | ⟨hnone, -⟩
    · exact .inr ⟨hgone, entry, hfirst ▸ hentry, hexp⟩
    · rw [hnone] at hentry
      cases hentry

theorem Drops.mono (h : Drops now s s') (hle : now ≤ now') : Drops now' s s' := h.trans (.refl now' s') hle

/-- What is there was there. -/
theorem Drops.get? (h : Drops now s s') (hentry : s'.entries.get? key = some entry) :
    s.entries.get? key = some entry := by
  rcases h key with hsame | ⟨hgone, -⟩
  · exact hsame ▸ hentry
  · rw [hgone] at hentry
    cases hentry

theorem Drops.mem (h : Drops now s s') (hentry : entry ∈ s'.entries.values) : entry ∈ s.entries.values :=
  Keyed.mem_values.mpr (h.get? (Keyed.mem_values.mp hentry))

/-- What has not expired stays. -/
theorem Drops.stays (h : Drops now s s') (hentry : s.entries.get? key = some entry)
    (hlive : now < entry.expires) : s'.entries.get? key = some entry := by
  rcases h key with hsame | ⟨-, gone, hgone, hexp⟩
  · rw [hsame, hentry]
  · rw [hentry, Option.some.injEq] at hgone
    subst hgone
    exact absurd hlive (not_lt_of_ge hexp)

theorem drops_dropExpired (s : MemoryStore κ α τ) (now : τ) : Drops now s (dropExpired s now) := by
  intro key
  simp only [dropExpired, Keyed.get?_filter]
  cases h : s.entries.get? key with
  | none => exact .inl rfl
  | some entry =>
    by_cases hlive : now < entry.expires
    · exact .inl (Option.filter_some_pos (decide_eq_true hlive))
    · exact .inr ⟨Option.filter_some_neg (by simpa using hlive), entry, rfl, le_of_not_gt hlive⟩

theorem drops_liveEntry (s : MemoryStore κ α τ) (key : κ) (now : τ) : Drops now s (liveEntry s key now).1 := by
  unfold liveEntry
  split
  next => exact .refl _ _
  next entry hentry =>
    split
    · exact .refl _ _
    · next hexp =>
      intro k
      rw [get?_remove]
      split
      next hk => exact .inr ⟨rfl, entry, hk ▸ hentry, le_of_not_gt hexp⟩
      next => exact .inl rfl

/-- `liveLocked` answers an entry that is there and has not expired. -/
theorem liveEntry_some (h : (liveEntry s key now).2 = some entry) :
    (liveEntry s key now).1 = s ∧ s.entries.get? key = some entry ∧ now < entry.expires := by
  unfold liveEntry at h ⊢
  cases hentry : s.entries.get? key with
  | none =>
    rw [hentry] at h
    cases h
  | some held =>
    simp only [hentry] at h ⊢
    by_cases hlive : now < held.expires
    · rw [if_pos hlive] at h ⊢
      obtain rfl := Option.some.inj h
      exact ⟨rfl, rfl, hlive⟩
    · rw [if_neg hlive] at h
      cases h

/-- Where it answers none, the key is free. -/
theorem liveEntry_none (h : (liveEntry s key now).2 = none) :
    (liveEntry s key now).1.entries.get? key = none := by
  unfold liveEntry at h ⊢
  cases hentry : s.entries.get? key with
  | none => exact hentry
  | some held =>
    simp only [hentry] at h ⊢
    by_cases hlive : now < held.expires
    · rw [if_pos hlive] at h
      cases h
    · rw [if_neg hlive, get?_remove, if_pos rfl]

end Lookups

section Room

/-! ## Making room -/

variable {s : MemoryStore κ α τ} {entry : MemoryEntry κ α τ} {k : κ} {now : τ} {walk : List κ} [LinearOrder τ]

theorem sooner_spec (soonest : Option (MemoryEntry κ α τ)) (entry : MemoryEntry κ α τ) :
    (sooner soonest entry = entry ∨ soonest = some (sooner soonest entry)) ∧
      (sooner soonest entry).expires ≤ entry.expires ∧
      ∀ prior ∈ soonest, (sooner soonest entry).expires ≤ prior.expires := by
  cases soonest with
  | none => exact ⟨.inl rfl, le_rfl, nofun⟩
  | some prior =>
    simp only [sooner, Option.mem_some_iff, forall_eq']
    split
    next hlt => exact ⟨.inl rfl, le_rfl, le_of_lt hlt⟩
    next hlt => exact ⟨.inr rfl, le_of_not_gt hlt, le_rfl⟩

/-- What the loop picks is among what it looked at, and either has expired or is the soonest to, of entries
none of which has. -/
theorem pick_spec {seen : Nat} {soonest : Option (MemoryEntry κ α τ)} {l : List (MemoryEntry κ α τ)}
    (hseen : seen < evictSample) (hentry : pick now seen soonest l = some entry) :
    (soonest = some entry ∨ entry ∈ l.take (evictSample - seen)) ∧
      (entry.expires ≤ now ∧ entry ∈ l.take (evictSample - seen) ∨
        (∀ prior ∈ soonest, entry.expires ≤ prior.expires) ∧
        ∀ other ∈ l.take (evictSample - seen), now < other.expires ∧ entry.expires ≤ other.expires) := by
  induction l generalizing seen soonest with
  | nil =>
    obtain rfl : soonest = some entry := hentry
    refine ⟨.inl rfl, .inr ⟨?_, ?_⟩⟩
    · rintro prior ⟨⟩
      exact le_rfl
    · simp
  | cons head rest ih =>
    obtain ⟨left, hleft⟩ : ∃ left, evictSample - seen = left + 1 := ⟨evictSample - seen - 1, by omega⟩
    rw [hleft, List.take_succ_cons]
    rw [pick] at hentry
    by_cases hexp : head.expires ≤ now
    · rw [if_pos hexp] at hentry
      obtain rfl := Option.some.inj hentry
      exact ⟨.inr List.mem_cons_self, .inl ⟨hexp, List.mem_cons_self⟩⟩
    · rw [if_neg hexp] at hentry
      obtain ⟨hfrom, hhead, hprior⟩ := sooner_spec soonest head
      by_cases hlast : seen + 1 = evictSample
      · rw [if_pos hlast] at hentry
        obtain rfl := Option.some.inj hentry
        obtain rfl : left = 0 := by omega
        simp only [List.take_zero, List.mem_singleton, forall_eq]
        refine ⟨hfrom.symm, .inr ⟨hprior, lt_of_not_ge hexp, hhead⟩⟩
      · rw [if_neg hlast] at hentry
        have hrest : evictSample - (seen + 1) = left := by omega
        obtain ⟨hin, hbeats⟩ := ih (by omega) hentry
        rw [hrest] at hin hbeats
        refine ⟨?_, ?_⟩
        · rcases hin with hin | hin
          · obtain rfl := Option.some.inj hin
            rcases hfrom with hfrom | hfrom
            · rw [hfrom]
              exact .inr List.mem_cons_self
            · exact .inl hfrom
          · exact .inr (List.mem_cons_of_mem _ hin)
        · rcases hbeats with ⟨hgone, hmem⟩ | ⟨hbeats, hothers⟩
          · exact .inl ⟨hgone, List.mem_cons_of_mem _ hmem⟩
          · have hle := hbeats _ rfl
            refine .inr ⟨fun prior hp => le_trans hle (hprior prior hp), ?_⟩
            rw [List.forall_mem_cons]
            exact ⟨⟨lt_of_not_ge hexp, le_trans hle hhead⟩, hothers⟩

theorem pick_isSome {seen : Nat} {soonest : Option (MemoryEntry κ α τ)} {l : List (MemoryEntry κ α τ)}
    (h : soonest.isSome ∨ l ≠ []) : (pick now seen soonest l).isSome := by
  induction l generalizing seen soonest with
  | nil => exact h.resolve_right (· rfl)
  | cons head rest ih =>
    rw [pick]
    split
    · rfl
    · split
      · rfl
      · exact ih (.inl rfl)

variable [DecidableEq κ]

/-- What a full store gives up: an entry it looked at, expired, or soonest to be where none was. -/
theorem victim_spec (h : victim s now walk = some entry) :
    s.cap ≤ s.entries.values.length ∧ s.entries.get? entry.key = some entry ∧
      entry ∈ (walked s.entries walk).take evictSample ∧
      (entry.expires ≤ now ∨
        ∀ other ∈ (walked s.entries walk).take evictSample,
          now < other.expires ∧ entry.expires ≤ other.expires) := by
  unfold victim at h
  split at h
  · cases h
  next hfull =>
    obtain ⟨hin, hbeats⟩ := pick_spec (by decide) h
    have hmem := hin.resolve_left nofun
    exact ⟨Nat.not_lt.mp hfull, mem_walked (List.mem_of_mem_take hmem), hmem,
      hbeats.imp And.left And.right⟩

theorem get?_makeRoom : (makeRoom s now walk).entries.get? k =
    if (victim s now walk).map (·.key) = some k then none else s.entries.get? k := by
  unfold makeRoom
  cases victim s now walk with
  | none => rfl
  | some entry => simp only [get?_remove, Option.map_some, Option.some.injEq, eq_comm]

theorem get?_makeRoom_none (h : s.entries.get? k = none) : (makeRoom s now walk).entries.get? k = none := by
  rw [get?_makeRoom, h, ite_self]

theorem get?_makeRoom_of_ne (hentry : s.entries.get? k = some entry) (hne : victim s now walk ≠ some entry) :
    (makeRoom s now walk).entries.get? k = some entry := by
  rw [get?_makeRoom, if_neg, hentry]
  intro hkey
  obtain ⟨gone, hgone, rfl⟩ := Option.map_eq_some_iff.mp hkey
  exact hne (hgone.trans ((victim_spec hgone).2.1.symm.trans hentry))

/-- A full store makes room, where the walk is one of its map. -/
theorem length_makeRoom (hcap : 1 ≤ s.cap) (hlen : s.entries.values.length ≤ s.cap)
    (hwalk : ∀ entry ∈ s.entries.values, entry.key ∈ walk) :
    (makeRoom s now walk).entries.values.length < s.cap := by
  by_cases hfull : s.entries.values.length < s.cap
  · rw [makeRoom, victim, if_pos hfull]
    exact hfull
  · obtain ⟨held, hheld⟩ := List.exists_mem_of_length_pos (by omega : 0 < s.entries.values.length)
    have hwalked : held ∈ walked s.entries walk :=
      List.mem_filterMap.mpr ⟨held.key, hwalk held hheld, Keyed.mem_values.mp hheld⟩
    have hsome : (victim s now walk).isSome := by
      rw [victim, if_neg hfull]
      exact pick_isSome (.inr (List.ne_nil_of_mem hwalked))
    obtain ⟨entry, hentry⟩ := Option.isSome_iff_exists.mp hsome
    have hless := Keyed.length_filter_ne (victim_spec hentry).2.1
    rw [makeRoom, hentry]
    dsimp only [remove]
    omega

end Room

end Stoop.Kv
