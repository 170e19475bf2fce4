import Mathlib.Data.Nat.Basic
import Mathlib.Algebra.Order.Group.Int
import Stoop.Kv.Memory

/-!
# What the in-process store promises

Every call comes down to one description (`step_spec`): entries that had expired go, the entry a full store
gives up goes, and the entry under the call's own key is what the call makes of it. What holds over any run
follows: the store holds no more than its cap (`bounded`), and a live entry stays until something is done to
its key, or a new key takes its room.

What a full store gives up need not mean that all it holds is live: it looks at no more than `evictSample` of
its entries, so an expired one outside the sample stays while a live one goes (`live_goes_beside_expired`).
-/

set_option autoImplicit false

namespace Stoop.Kv

open Stoop.Lib

variable {κ α τ : Type} [DecidableEq κ] [LinearOrder τ]

/-! ## Before a write -/

section Ready

variable [AddCommGroup τ] {sweepEvery : τ} {s : MemoryStore κ α τ} {r : Readings τ} {key : κ}
variable {entry : MemoryEntry κ α τ}

theorem drops_sweep : Drops r.drop s (sweep sweepEvery s r) := by
  unfold sweep
  split
  · exact .refl _ _
  · exact drops_dropExpired { s with lastSweep := some r.sweep } r.drop

theorem drops_ready (h : r.drop ≤ r.live) : Drops r.live s (ready sweepEvery s key r).1 :=
  drops_sweep.trans (drops_liveEntry _ key r.live) h

theorem ready_some (h : (ready sweepEvery s key r).2 = some entry) :
    (ready sweepEvery s key r).1.entries.get? key = some entry ∧ s.entries.get? key = some entry ∧
      r.live < entry.expires := by
  obtain ⟨hsame, hentry, hlive⟩ := liveEntry_some h
  refine ⟨?_, drops_sweep.get? hentry, hlive⟩
  rw [ready, hsame]
  exact hentry

theorem ready_none (h : (ready sweepEvery s key r).2 = none) :
    (ready sweepEvery s key r).1.entries.get? key = none := liveEntry_none h

end Ready

/-! ## What is live -/

/-- The value under a key, where it has not expired. -/
def live (s : MemoryStore κ α τ) (key : κ) (now : τ) : Option α :=
  ((s.entries.get? key).filter fun entry => decide (now < entry.expires)).map (·.value)

theorem live_of_lt {s : MemoryStore κ α τ} {key : κ} {now : τ} {entry : MemoryEntry κ α τ}
    (h : s.entries.get? key = some entry) (hlive : now < entry.expires) : live s key now = some entry.value := by
  simp [live, h, hlive, Option.filter]

theorem live_of_le {s : MemoryStore κ α τ} {key : κ} {now : τ} {entry : MemoryEntry κ α τ}
    (h : s.entries.get? key = some entry) (hexp : entry.expires ≤ now) : live s key now = none := by
  simp [live, h, not_lt_of_ge hexp, Option.filter]

theorem liveEntry_eq_filter (s : MemoryStore κ α τ) (key : κ) (now : τ) :
    (liveEntry s key now).2 = (s.entries.get? key).filter fun entry => decide (now < entry.expires) := by
  unfold liveEntry
  cases h : s.entries.get? key with
  | none => rfl
  | some entry => by_cases hlive : now < entry.expires <;> simp [hlive, Option.filter]

theorem liveEntry_map (s : MemoryStore κ α τ) (key : κ) (now : τ) :
    (liveEntry s key now).2.map (·.value) = live s key now :=
  congrArg _ (liveEntry_eq_filter s key now)

/-- What has not expired by then is live in both or in neither. -/
theorem Drops.live_eq {s s' : MemoryStore κ α τ} {key : κ} {now : τ} (h : Drops now s s') :
    live s' key now = live s key now := by
  unfold live
  rcases h key with hsame | ⟨hgone, entry, hentry, hexp⟩
  · rw [hsame]
  · rw [hgone, hentry, Option.filter_some_neg (by simpa using hexp), Option.filter_none]

theorem Drops.earlier {s s' : MemoryStore κ α τ} {key : κ} {now now' : τ} (h : Drops now s s')
    (hle : now ≤ now') : live s' key now' = live s key now' := (h.mono hle).live_eq

/-! ## What a call does -/

/-- What a call does to the map, once the entries that had expired where it looked are dropped. -/
inductive Act (κ α τ : Type)
  | look
  /-- `Update` refuses a new entry without a ttl -/
  | refuse
  | empty (key : κ)
  | overwrite (entry : MemoryEntry κ α τ)
  | add (entry : MemoryEntry κ α τ) (room : τ) (walk : List κ)

/-- `s.entries[key] = entry`. -/
def put (s : MemoryStore κ α τ) (entry : MemoryEntry κ α τ) : MemoryStore κ α τ :=
  { s with entries := s.entries.set entry }

def perform (s : MemoryStore κ α τ) : Act κ α τ → MemoryStore κ α τ
  | .look => s
  | .refuse => s
  | .empty key => remove s key
  | .overwrite entry => put s entry
  | .add entry room walk => put (makeRoom s room walk) entry

section Calls

variable [AddCommGroup τ] (sweepEvery : τ)

/-- The store once a call has dropped what had expired where it looked. -/
def looked (s : MemoryStore κ α τ) : Call κ α τ → MemoryStore κ α τ
  | .get key now => (liveEntry s key now).1
  | .set key _ _ r _ => (ready sweepEvery s key r).1
  | .update key _ r _ => (ready sweepEvery s key r).1
  | .delete _ => s
  | .len now => dropExpired s now

/-- What a call does then. -/
def act (s : MemoryStore κ α τ) : Call κ α τ → Act κ α τ
  | .get _ _ => .look
  | .len _ => .look
  | .delete key => .empty key
  | .set key value ttl r walk =>
    let entry := ⟨key, value, r.write + ttl⟩
    if (ready sweepEvery s key r).2.isSome then .overwrite entry else .add entry r.room walk
  | .update key change r walk =>
    let found := (ready sweepEvery s key r).2
    let c := change (found.map (·.value))
    if !c.keep then .empty key
    else match found with
      | none => if c.ttl ≤ 0 then .refuse else .add ⟨key, c.next, r.write + c.ttl⟩ r.room walk
      | some entry => .overwrite ⟨key, c.next, if 0 < c.ttl then r.write + c.ttl else entry.expires⟩

variable {sweepEvery} {s s' : MemoryStore κ α τ} {call : Call κ α τ} {key : κ} {r : Readings τ} {walk : List κ}

theorem set_eq_perform (s : MemoryStore κ α τ) (key : κ) (value : α) (ttl : τ) (r : Readings τ) (walk : List κ) :
    set sweepEvery s key value ttl r walk =
      perform (ready sweepEvery s key r).1 (act sweepEvery s (.set key value ttl r walk)) := by
  by_cases hfound : (ready sweepEvery s key r).2.isSome <;> simp [set, act, hfound, perform, put]

theorem update_eq_perform (s : MemoryStore κ α τ) (key : κ) (change : Option α → Change α τ) (r : Readings τ)
    (walk : List κ) :
    (update sweepEvery s key change r walk).1 =
      perform (ready sweepEvery s key r).1 (act sweepEvery s (.update key change r walk)) := by
  simp only [update, act]
  split
  · rfl
  · cases hfound : (ready sweepEvery s key r).2 with
    | none => by_cases httl : (change none).ttl ≤ 0 <;> simp [httl, perform, put]
    | some entry => rfl

/-- **A step**: what had expired where the call looked goes, and then what the call does is done. -/
theorem step_eq_perform (hstep : step sweepEvery s call = some s') :
    s.clock ≤ s'.clock ∧ Drops s'.clock s (looked sweepEvery s call) ∧
      s'.cap = (perform (looked sweepEvery s call) (act sweepEvery s call)).cap ∧
      s'.entries = (perform (looked sweepEvery s call) (act sweepEvery s call)).entries := by
  cases call with
  | get key now =>
    obtain ⟨hle, ⟨⟩⟩ := Option.ite_none_right_eq_some.mp hstep
    exact ⟨hle, drops_liveEntry s key now, rfl, rfl⟩
  | len now =>
    obtain ⟨hle, ⟨⟩⟩ := Option.ite_none_right_eq_some.mp hstep
    exact ⟨hle, drops_dropExpired s now, rfl, rfl⟩
  | delete key =>
    obtain ⟨⟩ := hstep
    exact ⟨le_rfl, .refl _ _, rfl, rfl⟩
  | set key value ttl r walk =>
    obtain ⟨⟨⟨hsweep, hdrop, hlive, hroom, hwrite⟩, -⟩, ⟨⟩⟩ := Option.ite_none_right_eq_some.mp hstep
    have hafter : r.live ≤ r.write := hroom.trans hwrite
    exact ⟨hsweep.trans (hdrop.trans (hlive.trans hafter)), (drops_ready hlive).mono hafter,
      (congrArg MemoryStore.cap (set_eq_perform s key value ttl r walk) :),
      (congrArg MemoryStore.entries (set_eq_perform s key value ttl r walk) :)⟩
  | update key change r walk =>
    obtain ⟨⟨⟨hsweep, hdrop, hlive, hroom, hwrite⟩, -⟩, ⟨⟩⟩ := Option.ite_none_right_eq_some.mp hstep
    have hafter : r.live ≤ r.write := hroom.trans hwrite
    exact ⟨hsweep.trans (hdrop.trans (hlive.trans hafter)), (drops_ready hlive).mono hafter,
      (congrArg MemoryStore.cap (update_eq_perform s key change r walk) :),
      (congrArg MemoryStore.entries (update_eq_perform s key change r walk) :)⟩

/-- The key a call writes to. -/
def Call.writes : Call κ α τ → Option κ
  | .set key _ _ _ _ => some key
  | .update key _ _ _ => some key
  | _ => none

/-- What a call stores is under its own key, and its key is free where it adds. -/
theorem act_puts {entry : MemoryEntry κ α τ} :
    (act sweepEvery s call = .overwrite entry →
      call.writes = some entry.key ∧ ∃ prior, (looked sweepEvery s call).entries.get? entry.key = some prior) ∧
    ∀ room walk, act sweepEvery s call = .add entry room walk →
      call.writes = some entry.key ∧ (looked sweepEvery s call).entries.get? entry.key = none := by
  cases call with
  | get key now | len now | delete key => exact ⟨by rintro ⟨⟩, by rintro _ _ ⟨⟩⟩
  | set key value ttl r walk =>
    simp only [act]
    cases hfound : (ready sweepEvery s key r).2 with
    | none =>
      refine ⟨by rintro ⟨⟩, ?_⟩
      rintro _ _ ⟨⟩
      exact ⟨rfl, ready_none hfound⟩
    | some prior =>
      refine ⟨?_, by rintro _ _ ⟨⟩⟩
      rintro ⟨⟩
      exact ⟨rfl, prior, (ready_some hfound).1⟩
  | update key change r walk =>
    simp only [act]
    split
    · exact ⟨by rintro ⟨⟩, by rintro _ _ ⟨⟩⟩
    · cases hfound : (ready sweepEvery s key r).2 with
      | none =>
        dsimp only
        split
        · exact ⟨by rintro ⟨⟩, by rintro _ _ ⟨⟩⟩
        · refine ⟨by rintro ⟨⟩, ?_⟩
          rintro _ _ ⟨⟩
          exact ⟨rfl, ready_none hfound⟩
      | some prior =>
        refine ⟨?_, by rintro _ _ ⟨⟩⟩
        rintro ⟨⟩
        exact ⟨rfl, prior, (ready_some hfound).1⟩

/-- The calls that empty a key: `Delete`, and an `Update` whose `change` drops what it is shown. -/
theorem act_empty (h : act sweepEvery s call = .empty key) :
    call = .delete key ∨ ∃ change r walk, call = .update key change r walk ∧
      (change ((ready sweepEvery s key r).2.map (·.value))).keep = false := by
  cases call with
  | get key now | len now => cases h
  | delete key =>
    obtain ⟨⟩ := h
    exact .inl rfl
  | set key value ttl r walk =>
    simp only [act] at h
    split at h <;> cases h
  | update key change r walk =>
    simp only [act] at h
    split at h
    next hkeep =>
      obtain ⟨⟩ := h
      exact .inr ⟨change, r, walk, rfl, by simpa using hkeep⟩
    next =>
      split at h
      · split at h <;> cases h
      · cases h

/-! ## Lookups after a call -/

/-- An entry that has not expired stays, unless the call is told to empty its key, writes there, or takes its
room. -/
theorem stays_or {entry : MemoryEntry κ α τ} (hstep : step sweepEvery s call = some s')
    (hentry : s.entries.get? entry.key = some entry) (hlive : s'.clock < entry.expires) :
    s'.entries.get? entry.key = some entry ∨
      (call.writes = some entry.key ∧ ∃ written, s'.entries.get? entry.key = some written) ∨
      act sweepEvery s call = .empty entry.key ∨
      ∃ added room walk, act sweepEvery s call = .add added room walk ∧
        victim (looked sweepEvery s call) room walk = some entry := by
  obtain ⟨-, hdrops, -, hentries⟩ := step_eq_perform hstep
  have hmid := hdrops.stays hentry hlive
  rw [hentries]
  cases hact : act sweepEvery s call with
  | look | refuse => exact .inl hmid
  | empty key =>
    by_cases hkey : entry.key = key
    · exact .inr (.inr (.inl (hkey ▸ rfl)))
    · left
      rw [perform, get?_remove, if_neg hkey, hmid]
  | overwrite written =>
    by_cases hkey : written.key = entry.key
    · refine .inr (.inl ⟨hkey ▸ (act_puts.1 hact).1, written, ?_⟩)
      rw [perform, put, Keyed.get?_set, if_pos hkey]
    · left
      rw [perform, put, Keyed.get?_set, if_neg hkey, hmid]
  | add added room walk =>
    by_cases hkey : added.key = entry.key
    · refine .inr (.inl ⟨hkey ▸ (act_puts.2 _ _ hact).1, added, ?_⟩)
      rw [perform, put, Keyed.get?_set, if_pos hkey]
    · by_cases hvictim : victim (looked sweepEvery s call) room walk = some entry
      · exact .inr (.inr (.inr ⟨added, room, walk, rfl, hvictim⟩))
      · left
        rw [perform, put, Keyed.get?_set, if_neg hkey]
        exact get?_makeRoom_of_ne hmid hvictim

/-- Under a key the call does not name, what was there stays, unless it had expired or its room is taken. -/
theorem others (hstep : step sweepEvery s call = some s') (hwrites : call.writes ≠ some key)
    (hempty : act sweepEvery s call ≠ .empty key) :
    s'.entries.get? key = s.entries.get? key ∨
      s'.entries.get? key = none ∧ ∃ entry, s.entries.get? key = some entry ∧
        (entry.expires ≤ s'.clock ∨ ∃ added room walk, act sweepEvery s call = .add added room walk ∧
          victim (looked sweepEvery s call) room walk = some entry) := by
  obtain ⟨-, hdrops, -, hentries⟩ := step_eq_perform hstep
  have hmid : ∀ P : MemoryEntry κ α τ → Prop,
      (looked sweepEvery s call).entries.get? key = s.entries.get? key ∨
        (looked sweepEvery s call).entries.get? key = none ∧
          ∃ entry, s.entries.get? key = some entry ∧ (entry.expires ≤ s'.clock ∨ P entry) := by
    intro P
    obtain hstays | ⟨hnone, entry, hentry, hexp⟩ := hdrops key
    · exact .inl hstays
    · exact .inr ⟨hnone, entry, hentry, .inl hexp⟩
  rw [hentries]
  cases hact : act sweepEvery s call with
  | look | refuse =>
    exact hmid _
  | empty k =>
    have hne : key ≠ k := fun h => hempty (h ▸ hact)
    rw [perform, get?_remove, if_neg hne]
    exact hmid _
  | overwrite written =>
    have hne : written.key ≠ key := fun h => hwrites (h ▸ (act_puts.1 hact).1)
    rw [perform, put, Keyed.get?_set, if_neg hne]
    exact hmid _
  | add added room walk =>
    have hne : added.key ≠ key := fun h => hwrites (h ▸ (act_puts.2 _ _ hact).1)
    rw [perform, put, Keyed.get?_set, if_neg hne, get?_makeRoom]
    split
    next hvictim =>
      obtain ⟨entry, hentry, rfl⟩ := Option.map_eq_some_iff.mp hvictim
      exact .inr ⟨rfl, entry, hdrops.get? (victim_spec hentry).2.1, .inr ⟨added, room, walk, rfl, hentry⟩⟩
    next => exact hmid _

/-! ## The cap -/

theorem length_looked : (looked sweepEvery s call).entries.values.length ≤ s.entries.values.length := by
  have filtered : ∀ (s : MemoryStore κ α τ) (p : MemoryEntry κ α τ → Bool),
      (s.entries.filter p).values.length ≤ s.entries.values.length := fun s p => List.length_filter_le _ _
  have hlive : ∀ (s : MemoryStore κ α τ) (key : κ) (now : τ),
      (liveEntry s key now).1.entries.values.length ≤ s.entries.values.length := by
    intro s key now
    unfold liveEntry
    split
    · exact le_rfl
    · split
      · exact le_rfl
      · exact filtered _ _
  have hsweep : ∀ r : Readings τ,
      (sweep sweepEvery s r).entries.values.length ≤ s.entries.values.length := by
    intro r
    unfold sweep
    split
    · exact le_rfl
    · exact filtered _ _
  cases call with
  | get key now => exact hlive s key now
  | set key value ttl r walk => exact (hlive _ key r.live).trans (hsweep r)
  | update key change r walk => exact (hlive _ key r.live).trans (hsweep r)
  | delete key => exact le_rfl
  | len now => exact filtered _ _

@[simp] theorem looked_cap : (looked sweepEvery s call).cap = s.cap := by
  cases call <;> simp [looked]

/-- What a call walks, where it adds: each key of the map it started from, before it writes. -/
theorem act_walks {entry : MemoryEntry κ α τ} {room : τ} (hstep : step sweepEvery s call = some s')
    (hact : act sweepEvery s call = .add entry room walk) :
    room ≤ s'.clock ∧ ∀ e ∈ s.entries.values, e.key ∈ walk := by
  cases call with
  | get key now | len now | delete key => cases hact
  | set key value ttl r order =>
    obtain ⟨⟨⟨-, -, -, -, hwrite⟩, hwalks⟩, ⟨⟩⟩ := Option.ite_none_right_eq_some.mp hstep
    simp only [act] at hact
    split at hact
    · cases hact
    · obtain ⟨⟩ := hact
      exact ⟨hwrite, hwalks.2⟩
  | update key change r order =>
    obtain ⟨⟨⟨-, -, -, -, hwrite⟩, hwalks⟩, ⟨⟩⟩ := Option.ite_none_right_eq_some.mp hstep
    simp only [act] at hact
    split at hact
    · cases hact
    · split at hact
      · split at hact
        · cases hact
        · obtain ⟨⟩ := hact
          exact ⟨hwrite, hwalks.2⟩
      · cases hact

/-- A store that holds no more than its cap holds no more than it after a call. -/
theorem step_bounded (hcap : 1 ≤ s.cap) (hlen : s.entries.values.length ≤ s.cap)
    (hstep : step sweepEvery s call = some s') : s'.cap = s.cap ∧ s'.entries.values.length ≤ s.cap := by
  obtain ⟨-, hdrops, hcaps, hentries⟩ := step_eq_perform hstep
  have hmid : (looked sweepEvery s call).entries.values.length ≤ s.cap := length_looked.trans hlen
  rw [hcaps, hentries]
  cases hact : act sweepEvery s call with
  | look | refuse => exact ⟨looked_cap, hmid⟩
  | empty key => exact ⟨looked_cap, (List.length_filter_le _ _).trans hmid⟩
  | overwrite entry =>
    obtain ⟨prior, hprior⟩ := (act_puts.1 hact).2
    exact ⟨looked_cap, (Keyed.length_set hprior).trans_le hmid⟩
  | add entry room walk =>
    have hfree := (act_puts.2 _ _ hact).2
    have hroom : (makeRoom (looked sweepEvery s call) room walk).entries.values.length < _ :=
      length_makeRoom (hcap.trans_eq looked_cap.symm) (hmid.trans_eq looked_cap.symm) fun e he => (act_walks hstep hact).2 e (hdrops.mem he)
    refine ⟨makeRoom_cap.trans looked_cap, ?_⟩
    rw [perform, put, Keyed.values_set_new (get?_makeRoom_none hfree), List.length_append]
    exact Nat.succ_le_of_lt (hroom.trans_eq looked_cap)

/-- No run holds more than the cap. -/
theorem bounded {cap : Nat} {start : τ} (hcap : 1 ≤ cap)
    (hrun : Runs (step sweepEvery) Always (MemoryStore.new cap start : MemoryStore κ α τ) s) :
    s.cap = cap ∧ s.entries.values.length ≤ cap := by
  refine @Runs.keeps _ _ _ _ _ _ (fun t => t.cap = cap ∧ t.entries.values.length ≤ cap) ⟨rfl, Nat.zero_le _⟩
    (fun t call u ⟨hsame, hlen⟩ _ hstep => ?_) hrun
  obtain ⟨hsame', hlen'⟩ := step_bounded (hsame ▸ hcap) (hsame ▸ hlen) hstep
  exact ⟨hsame'.trans hsame, hsame ▸ hlen'⟩

/-! ## The promises -/

/-- Where a call looks a key up for its caller, and when. -/
def Call.looks : Call κ α τ → Option (κ × τ)
  | .get key now => some (key, now)
  | .update key _ r _ => some (key, r.live)
  | _ => none

variable (sweepEvery) in
/-- What it is shown there: the value `Get` answers, or the one `change` is called with. -/
def shown (s : MemoryStore κ α τ) : Call κ α τ → Option α
  | .get key now => (get s key now).2
  | .update key _ r _ => (ready sweepEvery s key r).2.map (·.value)
  | _ => none

variable (sweepEvery) in
/-- The error a call answers. -/
def answer (s : MemoryStore κ α τ) : Call κ α τ → Except Refused Unit
  | .update key change r walk => (update sweepEvery s key change r walk).2
  | _ => .ok ()

variable (sweepEvery) in
/-- A full store gives an entry up for a new key: of the entries it looks at none has expired, and none is to
expire sooner. -/
def Evicts (s : MemoryStore κ α τ) (call : Call κ α τ) (entry : MemoryEntry κ α τ) : Prop :=
  ∃ added room walk, act sweepEvery s call = .add added room walk ∧
    (looked sweepEvery s call).entries.get? added.key = none ∧
    (looked sweepEvery s call).entries.values.length = s.cap ∧
    victim (looked sweepEvery s call) room walk = some entry ∧
    ∀ other ∈ (walked (looked sweepEvery s call).entries walk).take evictSample,
      room < other.expires ∧ entry.expires ≤ other.expires

theorem Evicts.unique {entry entry' : MemoryEntry κ α τ} (h : Evicts sweepEvery s call entry)
    (h' : Evicts sweepEvery s call entry') : entry = entry' := by
  obtain ⟨added, room, walk, hact, -, -, hvictim, -⟩ := h
  obtain ⟨added', room', walk', hact', -, -, hvictim', -⟩ := h'
  obtain ⟨⟩ := hact.symm.trans hact'
  exact Option.some.inj (hvictim.symm.trans hvictim')

theorem ready_live {now : τ} (h : r.drop ≤ r.live) (hnow : now = r.live) :
    (ready sweepEvery s key r).2.map (·.value) = live s key now := by
  rw [ready, liveEntry_map, drops_sweep.earlier h, hnow]

theorem shown_eq_live {now : τ} (hstep : step sweepEvery s call = some s')
    (hlooks : call.looks = some (key, now)) : shown sweepEvery s call = live s key now := by
  cases call with
  | get key now =>
    obtain ⟨⟩ := hlooks
    exact liveEntry_map s _ _
  | update key change r walk =>
    obtain ⟨⟩ := hlooks
    obtain ⟨⟨⟨-, -, hlive, -⟩, -⟩, -⟩ := Option.ite_none_right_eq_some.mp hstep
    exact ready_live hlive rfl
  | set key value ttl r walk | delete key | len now => cases hlooks

theorem act_of_error {e : Refused} (h : answer sweepEvery s call = .error e) :
    act sweepEvery s call = .refuse := by
  cases call with
  | get key now | set key value ttl r walk | delete key | len now => cases h
  | update key change r walk =>
    simp only [answer, update] at h
    simp only [act]
    split at h
    · cases h
    next hkeep =>
      rw [if_neg hkeep]
      cases hfound : (ready sweepEvery s key r).2 with
      | none =>
        simp only [hfound] at h ⊢
        split at h
        next httl => rw [if_pos httl]
        · cases h
      | some entry =>
        simp only [hfound] at h
        cases h

/-- **What the store promises**, in any run and of the call after it: it holds no more than its cap; what a
call is shown has not expired; a live entry leaves by a `Delete`, by an `Update` that drops it, or as the one
entry a full store gives up, and changes where its key is written; and a call that answers an error leaves
every live entry as it was. -/
theorem promises_kept {cap : Nat} {start : τ} (hcap : 1 ≤ cap)
    (hrun : Runs (step sweepEvery) Always (MemoryStore.new cap start : MemoryStore κ α τ) s)
    (hstep : step sweepEvery s call = some s') :
    s'.entries.values.length ≤ cap ∧
      (∀ key now, call.looks = some (key, now) → shown sweepEvery s call = live s key now) ∧
      (∀ entry, s.entries.get? entry.key = some entry → s'.clock < entry.expires →
        s'.entries.get? entry.key = some entry ∨
          (call.writes = some entry.key ∧ ∃ written, s'.entries.get? entry.key = some written) ∨
          call = .delete entry.key ∨
          (∃ change r walk, call = .update entry.key change r walk ∧
            (change (live s entry.key r.live)).keep = false) ∨
          Evicts sweepEvery s call entry) ∧
      (∀ entry entry', Evicts sweepEvery s call entry → Evicts sweepEvery s call entry' → entry = entry') ∧
      ∀ e, answer sweepEvery s call = .error e →
        ∀ entry, s.entries.get? entry.key = some entry → s'.clock < entry.expires →
          s'.entries.get? entry.key = some entry := by
  obtain ⟨hsame, hlen⟩ := bounded hcap hrun
  obtain ⟨-, hdrops, -, hentries⟩ := step_eq_perform hstep
  refine ⟨?_, fun key now => shown_eq_live hstep, ?_, fun _ _ => Evicts.unique, ?_⟩
  · exact hsame ▸ (step_bounded (hsame ▸ hcap) (hsame ▸ hlen) hstep).2
  · intro entry hentry hlive
    rcases stays_or hstep hentry hlive with hstays | hwrites | hempty | ⟨added, room, walk, hact, hvictim⟩
    · exact .inl hstays
    · exact .inr (.inl hwrites)
    · rcases act_empty hempty with rfl | ⟨change, r, walk, rfl, hkeep⟩
      · exact .inr (.inr (.inl rfl))
      · obtain ⟨⟨⟨-, -, hready, -⟩, -⟩, -⟩ := Option.ite_none_right_eq_some.mp hstep
        rw [ready_live hready rfl] at hkeep
        exact .inr (.inr (.inr (.inl ⟨change, r, walk, rfl, hkeep⟩)))
    · obtain ⟨hfull, -, -, hleast⟩ := victim_spec hvictim
      have hroom := (act_walks hstep hact).1
      refine .inr (.inr (.inr (.inr ⟨added, room, walk, hact, (act_puts.2 _ _ hact).2, ?_, hvictim, ?_⟩)))
      · exact Nat.le_antisymm (length_looked.trans (hsame ▸ hlen)) (by simpa only [looked_cap] using hfull)
      · exact hleast.resolve_left fun hexp => absurd (hexp.trans hroom) (not_le_of_gt hlive)
  · intro e herror entry hentry hlive
    rw [hentries, act_of_error herror]
    exact hdrops.stays hentry hlive

end Calls

/-! ## A sample is not the store -/

/-- What a write reads off the clock when the clock stands still. -/
def Readings.at (now : τ) : Readings τ := ⟨now, now, now, now, now⟩

/-- Sixteen entries that last half a minute, and then one that lasts ten seconds, in seconds. -/
def filled : List (Call Nat Unit Int) :=
  (List.range 17).map fun key => .set key () (if key = 16 then 10 else 30) (.at 0) (List.range 17)

/-- Twenty seconds on a new key comes, and the walk begins with the sixteen. -/
def newcomer : Call Nat Unit Int := .set 17 () 30 (.at 20) (List.range 17)

/-- A live entry is evicted though the store is not full of live entries: the one that had expired was not
among those looked at. -/
theorem live_goes_beside_expired : ∃ s s' : MemoryStore Nat Unit Int,
    runList (step 60) (MemoryStore.new 17 0) filled = some s ∧ step 60 s newcomer = some s' ∧
      live s 0 20 = some () ∧ live s' 0 20 = none ∧
      ∃ entry, s.entries.get? 16 = some entry ∧ s'.entries.get? 16 = some entry ∧ entry.expires ≤ 20 := by
  refine ⟨_, _, rfl, rfl, ?_, ?_, ⟨16, (), 10⟩, ?_, ?_, ?_⟩ <;> decide

/-- The promises of the call that evicts it. -/
theorem newcomer_kept : ∃ s s' : MemoryStore Nat Unit Int,
    Runs (step 60) Always (MemoryStore.new 17 0) s ∧ step 60 s newcomer = some s' ∧
      s'.entries.values.length ≤ 17 := by
  have hrun : ∃ s : MemoryStore Nat Unit Int, runList (step 60) (MemoryStore.new 17 0) filled = some s ∧
      ∃ s', step 60 s newcomer = some s' := ⟨_, rfl, _, rfl⟩
  obtain ⟨s, hs, s', hs'⟩ := hrun
  have hruns : Runs (step 60) Always (MemoryStore.new 17 0) s := .ofList filled (.always _ _) hs
  exact ⟨s, s', hruns, hs', (promises_kept (by decide) hruns hs').1⟩

end Stoop.Kv
