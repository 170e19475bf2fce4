import Mathlib.Data.List.Pairwise
import Stoop.Lib.Keyed

/-!
# Commits: transactions that write beside one another

A transaction reads what is committed, writes changes nobody else sees, and applies them, in order, to
whatever is committed when it ends. Between a change's being written and its being applied others commit,
so what it was written by need not still be so.

A `Discipline` names what saves that: what every committed state keeps (`Sound`), what a change finds
where it is applied (`Fits`), and which changes keep out of each other's way (`Apart`), with the two laws
that hold them together. `Orderly` is a state with transactions at work that follow it, and each thing a
transaction does keeps it so: one begins or writes more (`set`), one is given up (`drop`), one commits
(`commit`).
-/

set_option autoImplicit false

namespace Stoop.Lib

variable {σ χ τ κ : Type}

/-- What committed states keep, and what changes may be written beside one another to keep it. -/
structure Discipline (σ χ : Type) where
  apply : σ → χ → σ
  Sound : σ → Prop
  Fits : σ → χ → Prop
  Apart : χ → χ → Prop
  symm : ∀ {c d : χ}, Apart c d → Apart d c
  sound : ∀ {s : σ} {c : χ}, Sound s → Fits s c → Sound (apply s c)
  fits : ∀ {s : σ} {c d : χ}, Sound s → Fits s c → Apart c d → Fits s d → Fits (apply s c) d

namespace Discipline

variable (disc : Discipline σ χ) {s : σ} {c d : χ} {cs : List χ}

/-- Changes applied one after the other. -/
def applyAll (s : σ) (cs : List χ) : σ := cs.foldl disc.apply s

variable {disc}

/-- **What each change of a commit keeps, the commit keeps**: each is applied to a sound state it fits. -/
theorem applyAll_keeps {P : σ → Prop}
    (keep : ∀ s c, disc.Sound s → disc.Fits s c → c ∈ cs → P s → P (disc.apply s c)) (sound : disc.Sound s)
    (fits : ∀ c ∈ cs, disc.Fits s c) (within : cs.Pairwise disc.Apart) (h : P s) :
    P (disc.applyAll s cs) := by
  induction cs generalizing s with
  | nil => exact h
  | cons c cs ih =>
    obtain ⟨hapart, hwithin⟩ := List.pairwise_cons.mp within
    have hc : disc.Fits s c := fits c List.mem_cons_self
    refine ih (fun s d hs hd hmem => keep s d hs hd (List.mem_cons_of_mem c hmem)) (disc.sound sound hc) ?_
      hwithin (keep s c sound hc List.mem_cons_self h)
    intro d hd
    exact disc.fits sound hc (hapart d hd) (fits d (List.mem_cons_of_mem c hd))

theorem sound_applyAll (sound : disc.Sound s) (fits : ∀ c ∈ cs, disc.Fits s c) (within : cs.Pairwise disc.Apart) :
    disc.Sound (disc.applyAll s cs) :=
  applyAll_keeps (fun _ _ hs hc _ _ => disc.sound hs hc) sound fits within sound

/-- What keeps out of the way of each change of a commit fits what the commit leaves. -/
theorem fits_applyAll (sound : disc.Sound s) (fits : ∀ c ∈ cs, disc.Fits s c) (within : cs.Pairwise disc.Apart)
    (apart : ∀ c ∈ cs, disc.Apart c d) (hd : disc.Fits s d) : disc.Fits (disc.applyAll s cs) d :=
  applyAll_keeps (P := fun s => disc.Fits s d) (fun _ c hs hc hmem hd => disc.fits hs hc (apart c hmem) hd)
    sound fits within hd

end Discipline

/-- A sound state, and transactions at work whose changes fit it and keep out of each other's way. -/
structure Orderly (disc : Discipline σ χ) {key : τ → κ} (written : τ → List χ) (s : σ) (active : Keyed key) :
    Prop where
  sound : disc.Sound s
  fits : ∀ t ∈ active.values, ∀ c ∈ written t, disc.Fits s c
  within : ∀ t ∈ active.values, (written t).Pairwise disc.Apart
  across : ∀ t ∈ active.values, ∀ u ∈ active.values, key t ≠ key u →
    ∀ c ∈ written t, ∀ d ∈ written u, disc.Apart c d

namespace Orderly

variable {disc : Discipline σ χ} {key : τ → κ} {written : τ → List χ} {s : σ} {active : Keyed key} {t : τ}

/-- Nothing is at work. -/
theorem idle (sound : disc.Sound s) : Orderly disc written s (Keyed.empty : Keyed key) where
  sound := sound
  fits := fun _ h => absurd h List.not_mem_nil
  within := fun _ h => absurd h List.not_mem_nil
  across := fun _ h => absurd h List.not_mem_nil

/-- Transactions given up. -/
theorem drop (h : Orderly disc written s active) (p : τ → Bool) : Orderly disc written s (active.filter p) where
  sound := h.sound
  fits := fun t ht => h.fits t (List.mem_of_mem_filter ht)
  within := fun t ht => h.within t (List.mem_of_mem_filter ht)
  across := fun t ht u hu => h.across t (List.mem_of_mem_filter ht) u (List.mem_of_mem_filter hu)

/-- Of two changes written, each keeps out of the other's way. -/
theorem apart (h : Orderly disc written s active) {u : τ} (ht : t ∈ active.values) (hu : u ∈ active.values)
    {c d : χ} (hc : c ∈ written t) (hd : d ∈ written u) (hne : c ≠ d) : disc.Apart c d := by
  by_cases hkeys : key t = key u
  · obtain rfl := List.inj_on_of_nodup_map active.nodup ht hu hkeys
    have : Std.Symm disc.Apart := ⟨fun _ _ => disc.symm⟩
    exact (h.within t ht).forall hc hd hne
  · exact h.across t ht u hu hkeys c hc d hd

variable [DecidableEq κ]

/-- **A transaction commits**: what it leaves is sound, and what the others have written fits it. -/
theorem commit (h : Orderly disc written s active) (ht : t ∈ active.values) :
    Orderly disc written (disc.applyAll s (written t)) (active.filter fun u => key u != key t) where
  sound := Discipline.sound_applyAll h.sound (h.fits t ht) (h.within t ht)
  fits := by
    intro u hu d hd
    obtain ⟨hmem, hne⟩ := List.mem_filter.mp hu
    have hkeys : key t ≠ key u := fun heq => bne_iff_ne.mp hne heq.symm
    exact Discipline.fits_applyAll h.sound (h.fits t ht) (h.within t ht)
      (fun c hc => h.across t ht u hmem hkeys c hc d hd) (h.fits u hmem d hd)
  within := (h.drop _).within
  across := (h.drop _).across

/-- **A transaction begins, or writes more**: `t` takes the place of the one under its key. -/
theorem set (h : Orderly disc written s active) (fits : ∀ c ∈ written t, disc.Fits s c)
    (within : (written t).Pairwise disc.Apart)
    (across : ∀ u ∈ active.values, key u ≠ key t → ∀ c ∈ written u, ∀ d ∈ written t, disc.Apart c d) :
    Orderly disc written s (active.set t) := by
  have hcases : ∀ u ∈ (active.set t).values, u = t ∨ key u ≠ key t ∧ u ∈ active.values := by
    intro u hu
    rcases Keyed.get?_set_cases (Keyed.mem_values.mp hu) with ⟨_, heq⟩ | ⟨hne, hold⟩
    · exact .inl heq.symm
    · exact .inr ⟨hne.symm, Keyed.mem_values.mpr hold⟩
  refine ⟨h.sound, fun u hu => ?_, fun u hu => ?_, fun u hu v hv hkeys => ?_⟩
  · rcases hcases u hu with heq | ⟨_, hold⟩
    · exact heq ▸ fits
    · exact h.fits u hold
  · rcases hcases u hu with heq | ⟨_, hold⟩
    · exact heq ▸ within
    · exact h.within u hold
  · rcases hcases u hu with hut | ⟨hune, huold⟩ <;> rcases hcases v hv with hvt | ⟨hvne, hvold⟩
    · exact absurd (congrArg key (hut.trans hvt.symm)) hkeys
    · rw [hut]
      exact fun c hc d hd => disc.symm (across v hvold hvne d hd c hc)
    · rw [hvt]
      exact across u huold hune
    · exact h.across u huold v hvold hkeys

end Orderly

end Stoop.Lib
