import Mathlib.Data.Nat.Notation
import Mathlib.Logic.Basic

/-!
# Replicas of a versioned map

A server holds a map whose every write takes the next number and stamps the one entry it changes. A
replica holds copies of entries with their stamps, gathered from snapshots read at different
moments, from notifications of single writes, and from passes that read everything stamped above a
position page after page. `Timeline` is the server, `Replica` the holder of copies, and `Converging`
what keeps a replica's promise: its position is one through which every copy it holds is current,
and a copy that is wrong at its own stamp is above the position and leaves a pass owed.

## The server

`Timeline`: the copy of every entry at every moment

## Merging

`merge`: a copy of a higher stamp wins, and on a tie the one that arrives, where `ties` says so

## The invariant and its rules

`Converging`, and one rule for each thing that can happen: `arrive`, `first`, `notified`,
`skipped`, `begin`, `passed`, `settled`
-/

set_option autoImplicit false

namespace Stoop.Lib

variable {κ γ : Type}

/-- A copy of an entry: the stamp of the write it comes from, and what it says. -/
structure Copy (γ : Type) where
  seq : ℕ
  content : γ
  deriving DecidableEq, Repr

/-! ## The server -/

/-- A server's entries through time: the copy of each entry after the first `k` writes. An entry
changes only by a write, which stamps it with its own number, and stays once it is there. -/
structure Timeline (κ γ : Type) where
  copy : ℕ → κ → Option (Copy γ)
  seq_le : ∀ {k i c}, copy k i = some c → c.seq ≤ k
  steady : ∀ {k j i c}, copy k i = some c → c.seq ≤ j → j ≤ k → copy j i = some c
  stays : ∀ {k i c}, copy k i = some c → ∃ d, copy (k + 1) i = some d
  unique : ∀ {k i j c d}, copy k i = some c → copy k j = some d → c.seq = d.seq → i = j

namespace Timeline

variable (T : Timeline κ γ) {i j : κ} {k l w : ℕ} {c d x : Copy γ}

/-- An entry that is there stays there. -/
theorem later (h : T.copy k i = some c) (hkl : k ≤ l) : ∃ d, T.copy l i = some d := by
  induction hkl with
  | refl => exact ⟨c, h⟩
  | step _ ih => exact ih.elim fun _ hd => T.stays hd

/-- A later copy is the same, or stamped after the earlier moment. -/
theorem same_or_after (h : T.copy k i = some c) (hl : T.copy l i = some d) (hkl : k ≤ l) :
    d = c ∨ k < d.seq := by
  by_cases hd : d.seq ≤ k
  · exact .inl (Option.some.inj ((T.steady hl hd hkl).symm.trans h))
  · exact .inr (Nat.lt_of_not_le hd)

/-- Stamps only rise. -/
theorem seq_mono (h : T.copy k i = some c) (hl : T.copy l i = some d) (hkl : k ≤ l) :
    c.seq ≤ d.seq := by
  rcases T.same_or_after h hl hkl with rfl | hlt
  · exact Nat.le_refl _
  · exact Nat.le_trans (T.seq_le h) (Nat.le_of_lt hlt)

/-- A write leaves every other entry as it was. -/
theorem frame (hw : T.copy (w + 1) i = some x) (hx : x.seq = w + 1) (hji : j ≠ i)
    (h : T.copy w j = some c) : T.copy (w + 1) j = some c := by
  obtain ⟨d, hd⟩ := T.stays h
  rcases T.same_or_after h hd (Nat.le_succ w) with rfl | hlt
  · exact hd
  · have hle := T.seq_le hd
    exact absurd (T.unique hd hw (by omega)) hji

/-- Whether a stamp is one a write gave to the entry. -/
def Stamps (w : ℕ) (i : κ) : Prop := ∃ c, T.copy w i = some c ∧ c.seq = w

/-- A stamp of an entry is at most the stamp the entry has at any later moment. -/
theorem Stamps.le (h : T.Stamps w i) (hl : T.copy l i = some d) (hwl : w ≤ l) : w ≤ d.seq := by
  obtain ⟨c, hc, rfl⟩ := h
  exact T.seq_mono hc hl hwl

end Timeline

/-! ## Merging -/

/-- Whether a copy that arrives replaces the one held. -/
def Copy.Beats (ties : Bool) (x held : Copy γ) : Prop :=
  held.seq < x.seq ∨ ties = true ∧ held.seq = x.seq

instance (ties : Bool) (x held : Copy γ) : Decidable (x.Beats ties held) :=
  inferInstanceAs (Decidable (_ ∨ _))

/-- What is held once a copy has arrived. -/
def merge (ties : Bool) : Option (Copy γ) → Option (Copy γ) → Option (Copy γ)
  | held, none => held
  | none, some x => some x
  | some held, some x => if x.Beats ties held then some x else some held

section
variable {ties : Bool} {held arriving : Option (Copy γ)} {c x y : Copy γ}

@[simp] theorem merge_none_right (held : Option (Copy γ)) : merge ties held none = held := by
  cases held <;> rfl

@[simp] theorem merge_none_left (arriving : Option (Copy γ)) :
    merge ties none arriving = arriving := by
  cases arriving <;> rfl

/-- What is held after a merge was held before, or arrived. -/
theorem merge_cases (h : merge ties held arriving = some c) :
    (arriving = some c ∧ ∀ y, held = some y → c.Beats ties y) ∨
      (held = some c ∧ ∀ x, arriving = some x → ¬ x.Beats ties c) := by
  cases arriving with
  | none => exact .inr ⟨by simpa using h, fun _ hx => nomatch hx⟩
  | some x =>
    cases held with
    | none =>
      obtain rfl : x = c := by simpa using h
      exact .inl ⟨rfl, fun _ hy => nomatch hy⟩
    | some y =>
      simp only [merge] at h
      split at h
      next hb =>
        obtain rfl := Option.some.inj h
        exact .inl ⟨rfl, fun _ hy => Option.some.inj hy ▸ hb⟩
      next hb =>
        obtain rfl := Option.some.inj h
        exact .inr ⟨rfl, fun _ hx => Option.some.inj hx ▸ hb⟩

/-- What is held stays held, at its stamp or a higher one. -/
theorem merge_of_held (h : held = some y) :
    ∃ c, merge ties held arriving = some c ∧ y.seq ≤ c.seq := by
  subst h
  cases arriving with
  | none => exact ⟨y, rfl, Nat.le_refl _⟩
  | some x =>
    simp only [merge]
    split
    next hb => exact ⟨x, rfl, by rcases hb with h | ⟨-, h⟩ <;> omega⟩
    next => exact ⟨y, rfl, Nat.le_refl _⟩

/-- What arrives is held, or lost to a copy of at least its stamp. -/
theorem merge_of_arriving (h : arriving = some x) :
    ∃ c, merge ties held arriving = some c ∧ x.seq ≤ c.seq ∧
      (c.seq = x.seq → ties = true → c = x) := by
  subst h
  cases held with
  | none => exact ⟨x, rfl, Nat.le_refl _, fun _ _ => rfl⟩
  | some y =>
    simp only [merge]
    split
    next => exact ⟨x, rfl, Nat.le_refl _, fun _ _ => rfl⟩
    next hb =>
      simp only [Copy.Beats, not_or, not_and] at hb
      exact ⟨y, rfl, Nat.le_of_not_lt hb.1, fun heq ht => absurd heq (hb.2 ht)⟩

end

/-! ## The invariant -/

/-- A holder of copies: its position, the highest stamp a notification has carried, whether a pass
is owed, and whether a first snapshot has set the position. -/
structure Replica (κ γ : Type) where
  held : κ → Option (Copy γ)
  seq : ℕ
  seenSeq : ℕ
  owed : Bool
  opened : Bool

/-- A pass over everything stamped above a position: where it started, how far its pages reached,
and the moment its next page was asked for. -/
structure Pass where
  start : ℕ
  since : ℕ
  asked : ℕ
  deriving DecidableEq, Repr

/-- What a pass has seen to so far. `covered`: what its pages reached is held, and as the server had
it. `reached`: what the position has come to include since the pass started is held. -/
structure Pass.Covers (T : Timeline κ γ) (r : Replica κ γ) (p : Pass) : Prop where
  opened : r.opened = true
  start_le : p.start ≤ r.seq
  start_since : p.start ≤ p.since
  since_asked : p.since ≤ p.asked
  covered : ∀ {i c}, T.copy p.asked i = some c → p.start < c.seq → c.seq ≤ p.since →
    ∃ h, r.held i = some h ∧ c.seq ≤ h.seq ∧ (h.seq = c.seq → h = c)
  reached : ∀ {i c}, T.copy r.seq i = some c → p.start < c.seq →
    ∃ h, r.held i = some h ∧ c.seq ≤ h.seq

/-- A replica that keeps its promise after `n` writes, of which it was told of some: each copy it
holds has a stamp of its entry; one at or below the position is current there; and one that is wrong
at its own stamp is there by a notification, and leaves a pass owed. -/
structure Converging (T : Timeline κ γ) (n : ℕ) (told : ℕ → Prop) (r : Replica κ γ)
    (passes : List Pass) : Prop where
  seq_le : r.seq ≤ n
  unopened : r.opened = false → r.seq = 0
  stamped : ∀ {i c}, r.held i = some c → c.seq ≤ n ∧ T.Stamps c.seq i
  current : ∀ {i c}, r.held i = some c → c.seq ≤ r.seq → T.copy r.seq i = some c
  wrong : ∀ {i c}, r.held i = some c → T.copy c.seq i ≠ some c →
    told c.seq ∧ c.seq ≤ r.seenSeq ∧ (r.opened = true → r.owed = true)
  asked_le : ∀ p ∈ passes, p.asked ≤ n
  covers : ∀ p ∈ passes, p.Covers T r

/-- A snapshot read between two moments: copies of some entries, each as it was at some moment
between. -/
def Timeline.Read (T : Timeline κ γ) (lo hi : ℕ) (page : κ → Option (Copy γ)) : Prop :=
  ∀ i x, page i = some x → ∃ k, lo ≤ k ∧ k ≤ hi ∧ T.copy k i = some x

/-- A snapshot read at one moment is of that moment. -/
theorem Timeline.Read.copy {T : Timeline κ γ} {k : ℕ} {page : κ → Option (Copy γ)}
    (h : T.Read k k page) {i : κ} {x : Copy γ} (hx : page i = some x) : T.copy k i = some x := by
  obtain ⟨k', hlo, hhi, hcopy⟩ := h i x hx
  rwa [Nat.le_antisymm hhi hlo] at hcopy

/-- The replica once a snapshot's copies are merged into it, the server's winning a tie. -/
def Replica.arrive (r : Replica κ γ) (page : κ → Option (Copy γ)) : Replica κ γ :=
  { r with held := fun i => merge true (r.held i) (page i) }

/-- The replica at a position a snapshot set: a pass is owed if a notification was seen above it. -/
def Replica.position (r : Replica κ γ) (seq : ℕ) : Replica κ γ :=
  { r with seq := seq, owed := decide (seq < r.seenSeq) }

/-- A snapshot is clear of the position when nothing it brings, at or below the position, has been
written since at or below the position, or else a newer copy is held. -/
def Replica.Clear (T : Timeline κ γ) (r : Replica κ γ) (page : κ → Option (Copy γ)) : Prop :=
  ∀ i x, page i = some x → x.seq ≤ r.seq →
    T.copy r.seq i = some x ∨ ∃ h, r.held i = some h ∧ x.seq < h.seq

/-- The replica once it is told of write `w`. The next write, where what it says is covered, moves
the position; any other leaves a pass owed. -/
def Replica.tell (r : Replica κ γ) (w : ℕ) (covered : Bool) : Replica κ γ :=
  let next := r.opened && covered && w == r.seq + 1
  { r with
    seenSeq := max w r.seenSeq
    seq := if next then w else r.seq
    owed := r.owed || (r.opened && !next) }

/-- The copy of an entry once write `w` to it is told: the one held, when it is no older; the whole
entry as written; or the held one patched, which is right if what it patched was current. -/
inductive Replica.Took (T : Timeline κ γ) (r : Replica κ γ) (w : ℕ) (i : κ) (c' : Copy γ) : Prop
  | kept (held : r.held i = some c') (le : w ≤ c'.seq)
  | whole (written : T.copy w i = some c') (stamp : c'.seq = w)
      (newer : ∀ c, r.held i = some c → c.seq < w)
  | patched {c : Copy γ} (held : r.held i = some c) (newer : c.seq < w) (stamp : c'.seq = w)
      (right : T.copy (w - 1) i = some c → T.copy w i = some c')

theorem Replica.Took.le {T : Timeline κ γ} {r : Replica κ γ} {w : ℕ} {i : κ} {c' : Copy γ}
    (h : r.Took T w i c') : w ≤ c'.seq := by
  cases h with
  | kept _ hle => exact hle
  | whole _ hstamp _ => exact Nat.le_of_eq hstamp.symm
  | patched _ _ hstamp _ => exact Nat.le_of_eq hstamp.symm

theorem Replica.Took.held_or {T : Timeline κ γ} {r : Replica κ γ} {w : ℕ} {i : κ} {c' : Copy γ}
    (h : r.Took T w i c') : r.held i = some c' ∨ c'.seq = w := by
  cases h with
  | kept hkept _ => exact .inl hkept
  | whole _ hstamp _ => exact .inr hstamp
  | patched _ _ hstamp _ => exact .inr hstamp

/-- A copy that was held is held still, or a newer one is. -/
theorem Replica.Took.keeps {T : Timeline κ γ} {r : Replica κ γ} {w : ℕ} {i : κ} {c c' : Copy γ}
    (h : r.Took T w i c') (hheld : r.held i = some c) : c' = c ∨ c.seq < c'.seq := by
  cases h with
  | kept hkept _ => exact .inl (Option.some.inj (hkept.symm.trans hheld))
  | whole _ hstamp hnewer => exact .inr (hstamp ▸ hnewer c hheld)
  | patched hpatched hnewer hstamp _ =>
    obtain rfl := Option.some.inj (hpatched.symm.trans hheld)
    exact .inr (hstamp ▸ hnewer)

/-- Being told of a write moves the position to it, where it is the next, or nowhere. -/
theorem Replica.tell_cases (r : Replica κ γ) (w : ℕ) :
    (r.opened = true ∧ w = r.seq + 1 ∧ (r.tell w true).seq = w) ∨
      (r.opened = true → w ≠ r.seq + 1) ∧ (r.tell w true).seq = r.seq := by
  simp only [Replica.tell, Bool.and_true]
  by_cases hnext : (r.opened && w == r.seq + 1) = true
  · obtain ⟨hopened, hsucc⟩ := Bool.and_eq_true_iff.mp hnext
    exact .inl ⟨hopened, eq_of_beq hsucc, if_pos hnext⟩
  · refine .inr ⟨fun hopened hsucc => hnext ?_, if_neg hnext⟩
    rw [hopened, hsucc, beq_self_eq_true, Bool.and_true]

/-- A pass owed stays owed, and a write that is not the next leaves one owed. -/
theorem Replica.tell_owed {r : Replica κ γ} {w : ℕ}
    (h : r.owed = true ∨ r.opened = true ∧ w ≠ r.seq + 1) : (r.tell w true).owed = true := by
  simp only [Replica.tell, Bool.and_true, Bool.or_eq_true, Bool.and_eq_true, Bool.not_eq_true',
    Bool.and_eq_false_iff, beq_eq_false_iff_ne]
  exact h.imp_right fun ⟨hopened, hne⟩ => ⟨hopened, .inr hne⟩

/-- A copy stamped `w` that is merged without the benefit of a tie is taken where it is newer, and
else what was held is kept. -/
theorem Replica.took_merge {T : Timeline κ γ} {r : Replica κ γ} {w : ℕ} {i : κ} {x : Copy γ}
    (hx : x.seq = w) (hnone : r.held i = none → r.Took T w i x)
    (hnewer : ∀ c, r.held i = some c → c.seq < w → r.Took T w i x) :
    ∃ c', merge false (r.held i) (some x) = some c' ∧ r.Took T w i c' := by
  cases hheld : r.held i with
  | none => exact ⟨x, rfl, hnone hheld⟩
  | some c =>
    by_cases hlt : c.seq < w
    · exact ⟨x, by rw [merge, if_pos (.inl (hx ▸ hlt))], hnewer c hheld hlt⟩
    · refine ⟨c, ?_, .kept hheld (Nat.le_of_not_lt hlt)⟩
      rw [merge, if_neg]
      rintro (h | ⟨h, -⟩)
      · omega
      · cases h

namespace Converging

variable {T : Timeline κ γ} {n k w lo hi : ℕ} {told told' : ℕ → Prop} {r : Replica κ γ}
  {passes passes' : List Pass} {page : κ → Option (Copy γ)}

/-- A replica that owes nothing holds every copy as it was written. -/
theorem right (inv : Converging T n told r passes) (hopened : r.opened = true)
    (howed : r.owed = false) {i : κ} {c : Copy γ} (h : r.held i = some c) :
    T.copy c.seq i = some c := by
  refine Classical.byContradiction fun hwrong => ?_
  have := (inv.wrong h hwrong).2.2 hopened
  rw [howed] at this
  cases this

/-- Nothing is promised of a replica that holds nothing. -/
theorem start (T : Timeline κ γ) (n : ℕ) (told : ℕ → Prop) :
    Converging T n told ⟨fun _ => none, 0, 0, false, false⟩ [] where
  seq_le := Nat.zero_le n
  unopened := fun _ => rfl
  stamped := fun h => nomatch h
  current := fun h => nomatch h
  wrong := fun h => nomatch h
  asked_le := fun _ hp => absurd hp List.not_mem_nil
  covers := fun _ hp => absurd hp List.not_mem_nil

/-- Passes can be given up, and a replica told more. -/
theorem weaken (inv : Converging T n told r passes) (htold : ∀ w, told w → told' w)
    (hsub : ∀ p ∈ passes', p ∈ passes) : Converging T n told' r passes' where
  seq_le := inv.seq_le
  unopened := inv.unopened
  stamped := inv.stamped
  current := inv.current
  wrong h hw := ⟨htold _ (inv.wrong h hw).1, (inv.wrong h hw).2⟩
  asked_le p hp := inv.asked_le p (hsub p hp)
  covers p hp := inv.covers p (hsub p hp)

/-- Owing a pass breaks no promise. -/
theorem owe (inv : Converging T n told r passes) :
    Converging T n told { r with owed := true } passes where
  seq_le := inv.seq_le
  unopened := inv.unopened
  stamped := inv.stamped
  current := inv.current
  wrong h hw := ⟨(inv.wrong h hw).1, (inv.wrong h hw).2.1, fun _ => rfl⟩
  asked_le := inv.asked_le
  covers p hp :=
    let hc := inv.covers p hp
    ⟨hc.opened, hc.start_le, hc.start_since, hc.since_asked, hc.covered, hc.reached⟩

/-- **More writes break no promise.** Nothing the invariant says is about a moment to come. -/
theorem grow {T' : Timeline κ γ} {n' : ℕ} (inv : Converging T n told r passes) (hn : n ≤ n')
    (hT : ∀ k, k ≤ n → T'.copy k = T.copy k) : Converging T' n' told r passes where
  seq_le := Nat.le_trans inv.seq_le hn
  unopened := inv.unopened
  stamped h := by
    obtain ⟨hle, hs⟩ := inv.stamped h
    exact ⟨Nat.le_trans hle hn, by rw [Timeline.Stamps, hT _ hle]; exact hs⟩
  current h hle := by
    rw [hT _ inv.seq_le]
    exact inv.current h hle
  wrong h hw := by
    rw [hT _ (inv.stamped h).1] at hw
    exact inv.wrong h hw
  asked_le p hp := Nat.le_trans (inv.asked_le p hp) hn
  covers p hp := by
    have hc := inv.covers p hp
    refine ⟨hc.opened, hc.start_le, hc.start_since, hc.since_asked, ?_, ?_⟩
    · rw [hT _ (inv.asked_le p hp)]
      exact hc.covered
    · rw [hT _ inv.seq_le]
      exact hc.reached

/-! ### Snapshots -/

/-- A merged copy was held, or is the snapshot's. -/
theorem arrive_held {i : κ} {c : Copy γ} (h : (r.arrive page).held i = some c) :
    page i = some c ∨ r.held i = some c ∧ ∀ x, page i = some x → x.seq < c.seq := by
  rcases merge_cases h with ⟨hp, -⟩ | ⟨hh, hbeat⟩
  · exact .inl hp
  · refine .inr ⟨hh, fun x hx => ?_⟩
    have hnot := hbeat x hx
    simp only [Copy.Beats, true_and, not_or] at hnot
    omega

/-- A snapshot's copy is a copy as it was written. -/
theorem read_right (hread : T.Read lo hi page) {i : κ} {x : Copy γ} (hx : page i = some x) :
    T.copy x.seq i = some x ∧ x.seq ≤ hi := by
  obtain ⟨k, -, hle, hcopy⟩ := hread i x hx
  have hseq := T.seq_le hcopy
  exact ⟨T.steady hcopy (Nat.le_refl _) hseq, Nat.le_trans hseq hle⟩

/-- What is held after a merge is at a stamp at least as high, and where the stamp is the same it is
the same copy, or the one the server wrote. -/
theorem arrive_keeps (hread : T.Read lo hi page) {i : κ} {c h : Copy γ}
    (hc : T.copy c.seq i = some c) (hh : r.held i = some h) (hle : c.seq ≤ h.seq)
    (heq : h.seq = c.seq → h = c) :
    ∃ h', (r.arrive page).held i = some h' ∧ c.seq ≤ h'.seq ∧ (h'.seq = c.seq → h' = c) := by
  obtain ⟨h', hh', hle'⟩ := @merge_of_held _ true _ (page i) _ hh
  refine ⟨h', hh', Nat.le_trans hle hle', fun hseq => ?_⟩
  rcases arrive_held hh' with hp | ⟨hheld, -⟩
  · have hright := (read_right hread hp).1
    rw [hseq, hc] at hright
    exact (Option.some.inj hright).symm
  · obtain rfl := Option.some.inj (hh.symm.trans hheld)
    exact heq hseq

/-- **A snapshot clear of the position breaks no promise.** -/
theorem arrive (inv : Converging T n told r passes) (hread : T.Read lo hi page) (hn : hi ≤ n)
    (hclear : r.Clear T page) : Converging T n told (r.arrive page) passes where
  seq_le := inv.seq_le
  unopened := inv.unopened
  stamped {i c} h := by
    rcases arrive_held h with hp | ⟨hh, -⟩
    · obtain ⟨hright, hle⟩ := read_right hread hp
      exact ⟨Nat.le_trans hle hn, c, hright, rfl⟩
    · exact inv.stamped hh
  current {i c} h hle := by
    rcases arrive_held h with hp | ⟨hh, -⟩
    · rcases hclear i c hp hle with hcur | ⟨h', hh', hlt⟩
      · exact hcur
      · -- a newer copy would have been kept
        obtain ⟨d, hd, hge⟩ := @merge_of_held _ true _ (page i) _ hh'
        obtain rfl := Option.some.inj (hd.symm.trans h)
        omega
    · exact inv.current hh hle
  wrong {i c} h hw := by
    rcases arrive_held h with hp | ⟨hh, -⟩
    · exact absurd (read_right hread hp).1 hw
    · exact inv.wrong hh hw
  asked_le := inv.asked_le
  covers p hp := by
    have hc := inv.covers p hp
    refine ⟨hc.opened, hc.start_le, hc.start_since, hc.since_asked, ?_, ?_⟩
    · intro i c hcopy hlt hle
      obtain ⟨h, hh, hge, heq⟩ := hc.covered hcopy hlt hle
      exact arrive_keeps hread (T.steady hcopy (Nat.le_refl _) (T.seq_le hcopy)) hh hge heq
    · intro i c hcopy hlt
      obtain ⟨h, hh, hge⟩ := hc.reached hcopy hlt
      obtain ⟨h', hh', hge'⟩ := @merge_of_held _ true _ (page i) _ hh
      exact ⟨h', hh', Nat.le_trans hge hge'⟩

/-- **The first snapshot sets the position.** It may leave behind a copy it does not bring only
where the server still had that copy at the position. -/
theorem first (inv : Converging T n told r []) (hopened : r.opened = false)
    (hread : T.Read lo hi page) (hn : hi ≤ n) {p : ℕ} (hlo : p ≤ lo) (hp : p ≤ n)
    (hclear : ∀ i c, r.held i = some c → page i = none → c.seq ≤ p → T.copy p i = some c) :
    Converging T n told ({ (r.arrive page).position p with opened := true }) [] := by
  -- at or below the position, a merged copy is the server's there
  have hcurrent : ∀ {i c}, (r.arrive page).held i = some c → c.seq ≤ p → T.copy p i = some c := by
    intro i c h hle
    rcases arrive_held h with hpage | ⟨hh, hbeaten⟩
    · obtain ⟨k, hk, -, hcopy⟩ := hread i c hpage
      exact T.steady hcopy hle (Nat.le_trans hlo hk)
    · cases hpage : page i with
      | none => exact hclear i c hh hpage hle
      | some x =>
        obtain ⟨k, hk, -, hcopy⟩ := hread i x hpage
        have hs : c.seq ≤ x.seq :=
          (inv.stamped hh).2.le T hcopy (Nat.le_trans hle (Nat.le_trans hlo hk))
        exact absurd (hbeaten x hpage) (by omega)
  have hmerged := inv.arrive hread hn fun i x hx hle => by
    rw [inv.unopened hopened] at hle ⊢
    exact .inl (T.steady (read_right hread hx).1 hle (Nat.zero_le _))
  refine ⟨hp, nofun, hmerged.stamped, hcurrent, ?_,
    fun _ hp => absurd hp List.not_mem_nil, fun _ hp => absurd hp List.not_mem_nil⟩
  intro i c h hw
  obtain ⟨htold, hseen, -⟩ := hmerged.wrong h hw
  refine ⟨htold, hseen, fun _ => decide_eq_true ?_⟩
  have hlt : p < c.seq := Nat.lt_of_not_le fun hle =>
    hw (T.steady (hcurrent h hle) (Nat.le_refl _) hle)
  exact Nat.lt_of_lt_of_le hlt hseen

/-! ### Notifications -/

/-- Where a write is the next after the position, the copy it leaves is the one written: one already at
its stamp came with a snapshot, and what is patched is current. -/
theorem took_next (inv : Converging T n told r passes) {i : κ} {c' : Copy γ} (hfresh : ¬ told w)
    (hsucc : w = r.seq + 1) (htook : r.Took T w i c') (hseq : c'.seq = w) : T.copy w i = some c' := by
  cases htook with
  | kept hheld _ =>
    refine Classical.byContradiction fun hwrong => hfresh ?_
    rw [← hseq] at hwrong ⊢
    exact (inv.wrong hheld hwrong).1
  | whole hwritten _ _ => exact hwritten
  | patched hheld hnewer _ hright =>
    refine hright ?_
    rw [hsucc, Nat.add_sub_cancel]
    exact inv.current hheld (by omega)

/-- At or below the position it comes to, the copies held after a notification are current. -/
theorem took_current (inv : Converging T n told r passes) {i : κ} {x : Copy γ}
    (hw : T.copy w i = some x) (hx : x.seq = w) (hfresh : ¬ told w) (habove : r.seq < w)
    {held' : κ → Option (Copy γ)} {c' : Copy γ} (hframe : ∀ j, j ≠ i → held' j = r.held j)
    (hat : held' i = some c') (htook : r.Took T w i c') {j : κ} {c : Copy γ} (hc : held' j = some c)
    (hle : c.seq ≤ (r.tell w true).seq) : T.copy (r.tell w true).seq j = some c := by
  rcases r.tell_cases w with ⟨-, hsucc, hseq⟩ | ⟨-, hseq⟩ <;> rw [hseq] at hle ⊢
  · by_cases hj : j = i
    · subst hj
      obtain rfl := Option.some.inj (hat.symm.trans hc)
      exact inv.took_next hfresh hsucc htook (Nat.le_antisymm hle htook.le)
    · rw [hframe j hj] at hc
      -- a copy of another entry cannot be stamped `w`
      have hne : c.seq ≠ w := by
        intro hstamp
        obtain ⟨d, hd, hds⟩ := (inv.stamped hc).2
        rw [hstamp] at hd hds
        exact hj (T.unique hd hw (hds.trans hx.symm))
      have hcur := inv.current hc (by omega)
      rw [hsucc] at hw hx ⊢
      exact T.frame hw hx hj hcur
  · by_cases hj : j = i
    · subst hj
      obtain rfl := Option.some.inj (hat.symm.trans hc)
      exact absurd (Nat.le_trans htook.le hle) (Nat.not_le.mpr habove)
    · rw [hframe j hj] at hc
      exact inv.current hc hle

/-- A pass has seen to no less after a notification. -/
theorem covers_tell {p : Pass} (hc : p.Covers T r) {i : κ} {x : Copy γ} (hw : T.copy w i = some x)
    (hx : x.seq = w) {held' : κ → Option (Copy γ)} {c' : Copy γ}
    (hframe : ∀ j, j ≠ i → held' j = r.held j) (hat : held' i = some c') (htook : r.Took T w i c') :
    p.Covers T ({ r with held := held' }.tell w true) := by
  have hseq := { r with held := held' }.tell_cases w
  -- what was held is held at a stamp at least as high, and a higher one where it changed
  have hkeeps : ∀ {j h}, r.held j = some h → ∃ h', held' j = some h' ∧ (h' = h ∨ h.seq < h'.seq) := by
    intro j h hh
    by_cases hj : j = i
    · subst hj
      exact ⟨c', hat, htook.keeps hh⟩
    · exact ⟨h, by rw [hframe j hj, hh], .inl rfl⟩
  refine ⟨hc.opened, ?_, hc.start_since, hc.since_asked, ?_, ?_⟩
  · have hstart := hc.start_le
    rcases hseq with ⟨-, hsucc, hseq⟩ | ⟨-, hseq⟩ <;> rw [hseq]
    · simp only at hsucc
      omega
    · exact hstart
  · intro j c hcopy hlt hle
    obtain ⟨h, hh, hge, heq⟩ := hc.covered hcopy hlt hle
    obtain ⟨h', hh', rfl | hlt'⟩ := hkeeps hh
    · exact ⟨h', hh', hge, heq⟩
    · exact ⟨h', hh', by omega, fun hseq' => by omega⟩
  · intro j c hcopy hlt
    have hold : T.copy r.seq j = some c → ∃ h', held' j = some h' ∧ c.seq ≤ h'.seq := by
      intro hcopy
      obtain ⟨h, hh, hge⟩ := hc.reached hcopy hlt
      obtain ⟨h', hh', rfl | hlt'⟩ := hkeeps hh
      · exact ⟨h', hh', hge⟩
      · exact ⟨h', hh', by omega⟩
    rcases hseq with ⟨-, hsucc, hseq⟩ | ⟨-, hseq⟩ <;> rw [hseq] at hcopy
    · by_cases hj : j = i
      · subst hj
        obtain rfl := Option.some.inj (hw.symm.trans hcopy)
        exact ⟨c', hat, hx ▸ htook.le⟩
      · have hne : c.seq ≠ w := fun hstamp => hj (T.unique hcopy hw (by rw [hx, hstamp]))
        have hle := T.seq_le hcopy
        simp only at hsucc
        exact hold (T.steady hcopy (by omega) (by omega))
    · exact hold hcopy

/-- **A notification breaks no promise.** Each write is told at most once, so a copy already at its
stamp came with a snapshot; and the next write patches only what is current. -/
theorem notified (inv : Converging T n told r passes) {i : κ} {x : Copy γ}
    (hw : T.copy w i = some x) (hx : x.seq = w) (hn : w ≤ n) (hfresh : ¬ told w)
    (habove : r.seq < w) {held' : κ → Option (Copy γ)} {c' : Copy γ}
    (hframe : ∀ j, j ≠ i → held' j = r.held j) (hat : held' i = some c')
    (htook : r.Took T w i c') :
    Converging T n (fun v => told v ∨ v = w) ({ r with held := held' }.tell w true) passes := by
  have hmoves := { r with held := held' }.tell_cases w
  -- a wrong copy held before was told of before, and its pass is owed still
  have hbefore : ∀ {j c}, r.held j = some c → T.copy c.seq j ≠ some c →
      (told c.seq ∨ c.seq = w) ∧ c.seq ≤ max w r.seenSeq ∧
        (r.opened = true → ({ r with held := held' }.tell w true).owed = true) := by
    intro j c hc hwrong
    obtain ⟨htold, hseen, howed⟩ := inv.wrong hc hwrong
    exact ⟨.inl htold, Nat.le_trans hseen (Nat.le_max_right _ _), fun ho =>
      Replica.tell_owed (.inl (howed ho))⟩
  refine ⟨?_, fun hopened => ?_, fun {j c} hc => ?_,
    fun hc hle => inv.took_current hw hx hfresh habove hframe hat htook hc hle, fun {j c} hc hwrong => ?_,
    inv.asked_le, fun p hp => covers_tell (inv.covers p hp) hw hx hframe hat htook⟩
  · rcases hmoves with ⟨-, -, hseq⟩ | ⟨-, hseq⟩ <;> rw [hseq]
    · exact hn
    · exact inv.seq_le
  · have hopened : r.opened = false := hopened
    rcases hmoves with ⟨hopen, -, -⟩ | ⟨-, hseq⟩
    · exact absurd (hopened.symm.trans hopen) (by rintro ⟨⟩)
    · rw [hseq]
      exact inv.unopened hopened
  · have hc : held' j = some c := hc
    by_cases hj : j = i
    · subst hj
      obtain rfl := Option.some.inj (hat.symm.trans hc)
      rcases htook.held_or with hkept | hstamp
      · exact inv.stamped hkept
      · exact hstamp.symm ▸ ⟨hn, x, hw, hx⟩
    · rw [hframe j hj] at hc
      exact inv.stamped hc
  · have hc : held' j = some c := hc
    by_cases hj : j = i
    · subst hj
      obtain rfl := Option.some.inj (hat.symm.trans hc)
      rcases htook.held_or with hkept | hstamp
      · exact hbefore hkept hwrong
      · refine ⟨.inr hstamp, hstamp ▸ Nat.le_max_left _ _, fun ho => Replica.tell_owed (.inr ⟨ho, ?_⟩)⟩
        exact fun hsucc => hwrong (hstamp.symm ▸ inv.took_next hfresh hsucc htook hstamp)
    · rw [hframe j hj] at hc
      exact hbefore hc hwrong

/-- A notification that finds nothing to patch breaks no promise: a pass is owed. -/
theorem skipped (inv : Converging T n told r passes) (w : ℕ) :
    Converging T n told (r.tell w false) passes := by
  have hseq : (r.tell w false).seq = r.seq := by
    simp only [Replica.tell, Bool.and_false, Bool.false_and, Bool.false_eq_true, if_false]
  refine ⟨hseq ▸ inv.seq_le, fun ho => hseq ▸ inv.unopened ho, inv.stamped, ?_, ?_, inv.asked_le, ?_⟩
  · intro i c hc hle
    rw [hseq] at hle ⊢
    exact inv.current hc hle
  · intro i c hc hwrong
    obtain ⟨htold, hseen, howed⟩ := inv.wrong hc hwrong
    exact ⟨htold, Nat.le_trans hseen (Nat.le_max_right _ _), fun ho => by
      simp only [Replica.tell, howed ho, Bool.true_or]⟩
  · intro p hp
    have hc := inv.covers p hp
    exact ⟨hc.opened, hseq ▸ hc.start_le, hc.start_since, hc.since_asked, hc.covered,
      hseq ▸ hc.reached⟩

/-! ### Passes -/

/-- **A pass starts from the position**, with nothing yet to see to. -/
theorem begin (inv : Converging T n told r passes) (hopened : r.opened = true) :
    Converging T n told r (passes ++ [⟨r.seq, r.seq, n⟩]) where
  seq_le := inv.seq_le
  unopened := inv.unopened
  stamped := inv.stamped
  current := inv.current
  wrong := inv.wrong
  asked_le p hp := by
    rcases List.mem_append.mp hp with hp | hp
    · exact inv.asked_le p hp
    · obtain rfl := List.mem_singleton.mp hp
      exact Nat.le_refl n
  covers p hp := by
    rcases List.mem_append.mp hp with hp | hp
    · exact inv.covers p hp
    · obtain rfl := List.mem_singleton.mp hp
      refine ⟨hopened, Nat.le_refl _, Nat.le_refl _, inv.seq_le, ?_, ?_⟩
      · exact fun _ hlt hle => absurd hlt (Nat.not_lt.mpr hle)
      · exact fun hcopy hlt => absurd hlt (Nat.not_lt.mpr (T.seq_le hcopy))

/-- A page of a pass brings nothing the position has passed over. -/
theorem clear_of_covers {p : Pass} (hc : p.Covers T r) (hread : T.Read k k page)
    (hk : p.asked ≤ k) (habove : ∀ i x, page i = some x → p.since < x.seq) : r.Clear T page := by
  intro i x hx hle
  have hcopy := hread.copy hx
  have hstart := Nat.lt_of_le_of_lt hc.start_since (habove i x hx)
  obtain ⟨d, hd⟩ : ∃ d, T.copy r.seq i = some d :=
    T.later (T.steady hcopy (Nat.le_refl _) (T.seq_le hcopy)) hle
  rcases Nat.le_total r.seq k with hrk | hkr
  · exact .inl (T.steady hcopy hle hrk)
  · rcases T.same_or_after hcopy hd hkr with rfl | hlt
    · exact .inl hd
    · have hxk := T.seq_le hcopy
      have hsa := hc.since_asked
      have hss := hc.start_since
      obtain ⟨h, hh, hge⟩ := hc.reached hd (by omega)
      exact .inr ⟨h, hh, by omega⟩

/-- What a pass has seen to once it merged a page that brings everything stamped from its position
through `since'`. -/
theorem covered_of_page {p : Pass} (hc : p.Covers T r) (hread : T.Read k k page)
    (hk : p.asked ≤ k) {since' : ℕ}
    (hbrings : ∀ i c, T.copy k i = some c → p.since < c.seq → c.seq ≤ since' → page i = some c)
    {i : κ} {c : Copy γ} (hcopy : T.copy k i = some c) (hlt : p.start < c.seq)
    (hle : c.seq ≤ since') :
    ∃ h, (r.arrive page).held i = some h ∧ c.seq ≤ h.seq ∧ (h.seq = c.seq → h = c) := by
  by_cases hold : c.seq ≤ p.since
  · obtain ⟨h, hh, hge, heq⟩ := hc.covered
      (T.steady hcopy (Nat.le_trans hold hc.since_asked) hk) hlt hold
    exact arrive_keeps hread (T.steady hcopy (Nat.le_refl _) (T.seq_le hcopy)) hh hge heq
  · obtain ⟨h, hh, hge, heq⟩ := @merge_of_arriving _ true (r.held i) _ _
      (hbrings i c hcopy (Nat.lt_of_not_le hold) hle)
    exact ⟨h, hh, hge, fun hseq => heq hseq rfl⟩

/-- **A page that leaves more to come** takes its pass on to the last stamp it brought. -/
theorem passed (inv : Converging T n told r passes) {p : Pass} (hp : p ∈ passes)
    (hread : T.Read k k page) (hk : p.asked ≤ k) (hn : k ≤ n) {since' : ℕ}
    (hsince : p.since ≤ since') (hle : since' ≤ k)
    (habove : ∀ i x, page i = some x → p.since < x.seq)
    (hbrings : ∀ i c, T.copy k i = some c → p.since < c.seq → c.seq ≤ since' → page i = some c)
    (hsub : ∀ q ∈ passes', q ∈ passes ∨ q = ⟨p.start, since', n⟩) :
    Converging T n told (r.arrive page) passes' := by
  have hc := inv.covers p hp
  have hmerged := inv.arrive hread hn (clear_of_covers hc hread hk habove)
  refine ⟨hmerged.seq_le, hmerged.unopened, hmerged.stamped, hmerged.current, hmerged.wrong, ?_, ?_⟩
  · intro q hq
    rcases hsub q hq with hq | rfl
    · exact inv.asked_le q hq
    · exact Nat.le_refl n
  · intro q hq
    rcases hsub q hq with hq | rfl
    · exact hmerged.covers q hq
    · refine ⟨hc.opened, hc.start_le, Nat.le_trans hc.start_since hsince,
        Nat.le_trans hle hn, ?_, (hmerged.covers p hp).reached⟩
      intro i c hcopy hlt hle'
      exact covered_of_page hc hread hk hbrings
        (T.steady hcopy (Nat.le_trans hle' hle) hn) hlt hle'

/-- **The last page of a pass moves the position**, to any moment no later than the page's. -/
theorem settled (inv : Converging T n told r passes) {p : Pass} (hp : p ∈ passes)
    (hread : T.Read k k page) (hk : p.asked ≤ k) (hn : k ≤ n) {top : ℕ} (htop : top ≤ k)
    (habove : ∀ i x, page i = some x → p.since < x.seq)
    (hbrings : ∀ i c, T.copy k i = some c → p.since < c.seq → page i = some c)
    (hsub : ∀ q ∈ passes', q ∈ passes) :
    Converging T n told ((r.arrive page).position (max r.seq top)) passes' := by
  have hc := inv.covers p hp
  have hmerged := inv.arrive hread hn (clear_of_covers hc hread hk habove)
  have hcov : ∀ {i c}, T.copy k i = some c → p.start < c.seq →
      ∃ h, (r.arrive page).held i = some h ∧ c.seq ≤ h.seq ∧ (h.seq = c.seq → h = c) :=
    fun hcopy hlt => covered_of_page hc hread hk
      (fun i c hcopy hlt _ => hbrings i c hcopy hlt) hcopy hlt (T.seq_le hcopy)
  have hcurrent : ∀ {i c}, (r.arrive page).held i = some c → c.seq ≤ max r.seq top →
      T.copy (max r.seq top) i = some c := by
    intro i c hheld hle
    rcases Nat.le_total top r.seq with htr | hrt
    · rw [Nat.max_eq_left htr] at hle ⊢
      exact hmerged.current hheld hle
    · rw [Nat.max_eq_right hrt] at hle ⊢
      have hstamped := (hmerged.stamped hheld).2
      obtain ⟨d, hd, hds⟩ := hstamped
      obtain ⟨q, hq⟩ := T.later hd (Nat.le_trans hle htop)
      have hcq : c.seq ≤ q.seq := hds ▸ T.seq_mono hd hq (Nat.le_trans hle htop)
      by_cases hstart : p.start < q.seq
      · obtain ⟨h, hh, hge, heq⟩ := hcov hq hstart
        obtain rfl := Option.some.inj (hh.symm.trans hheld)
        obtain rfl := heq (Nat.le_antisymm hcq hge)
        exact T.steady hq hle htop
      · -- not written since the pass started: current at the old position, and still
        have hqs : q.seq ≤ r.seq := Nat.le_trans (Nat.le_of_not_lt hstart) hc.start_le
        have hcur := hmerged.current hheld (Nat.le_trans hcq hqs)
        have hsame := T.steady hq hqs (Nat.le_trans hrt htop)
        obtain rfl := Option.some.inj (hsame.symm.trans hcur)
        exact T.steady hq hle htop
  refine ⟨Nat.max_le.mpr ⟨inv.seq_le, Nat.le_trans htop hn⟩, ?_, hmerged.stamped, hcurrent, ?_,
    fun q hq => inv.asked_le q (hsub q hq), ?_⟩
  · intro ho
    have ho : r.opened = false := ho
    rw [hc.opened] at ho
    cases ho
  · intro i c hheld hwrong
    obtain ⟨htold, hseen, -⟩ := hmerged.wrong hheld hwrong
    refine ⟨htold, hseen, fun _ => decide_eq_true ?_⟩
    have hlt : max r.seq top < c.seq := Nat.lt_of_not_le fun hle =>
      hwrong (T.steady (hcurrent hheld hle) (Nat.le_refl _) hle)
    exact Nat.lt_of_lt_of_le hlt hseen
  · intro q hq
    have hcq := hmerged.covers q (hsub q hq)
    refine ⟨hcq.opened, Nat.le_trans hcq.start_le (Nat.le_max_left _ _), hcq.start_since,
      hcq.since_asked, hcq.covered, ?_⟩
    intro i c hcopy hlt
    have hcopy : T.copy (max r.seq top) i = some c := hcopy
    by_cases hold : c.seq ≤ r.seq
    · exact hcq.reached (T.steady hcopy hold (Nat.le_max_left _ _)) hlt
    · have hck := T.seq_le hcopy
      have hmax : max r.seq top = top := by omega
      rw [hmax] at hcopy
      obtain ⟨d, hd⟩ := T.later hcopy htop
      have hcd := T.seq_mono hcopy hd htop
      have hstart := hc.start_le
      obtain ⟨h, hh, hge, -⟩ := hcov hd (by omega)
      exact ⟨h, hh, Nat.le_trans hcd hge⟩

end Converging

end Stoop.Lib
