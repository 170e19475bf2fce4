import Stoop.Lib.Keyed

/-!
# Indexed tables: rows under their keys, and a unique index over some of them

An `Indexed key mark` is a map of rows under their keys in which no two rows carry one mark, where a row
need carry none: a table with a unique index over the rows that meet a condition. A row is put in its
place (`put`) or made of the one there (`update`) only where the index lets it, so that what the index
forbids cannot be built.

The laws say when a row is let (`put_unmarked`, `put_free`), when it is refused (`put_refused`), and what a
write that was let leaves to be looked up.
-/

set_option autoImplicit false

namespace Stoop.Lib

variable {κ α γ : Type}

/-- Rows under their keys, and under their marks where they carry one. -/
structure Indexed (key : α → κ) (mark : α → Option γ) where
  rows : Keyed key
  unique : ∀ a ∈ rows.values, ∀ b ∈ rows.values, ∀ g ∈ mark a, g ∈ mark b → key a = key b

namespace Indexed

variable {key : α → κ} {mark : α → Option γ}

def empty : Indexed key mark := ⟨Keyed.empty, fun _ h => absurd h List.not_mem_nil⟩

/-- The rows that satisfy `p`. -/
def filter (t : Indexed key mark) (p : α → Bool) : Indexed key mark :=
  ⟨t.rows.filter p, fun a ha b hb =>
    t.unique a (List.mem_of_mem_filter ha) b (List.mem_of_mem_filter hb)⟩

/-- Each row changed to one that carries no mark, under the key it has. -/
def unmark (t : Indexed key mark) (f : α → α) (hkey : ∀ a, key (f a) = key a) (hmark : ∀ a, mark (f a) = none) :
    Indexed key mark :=
  ⟨t.rows.map f hkey, fun a ha _ _ g hg => by
    obtain ⟨x, _, rfl⟩ := List.mem_map.mp ha
    rw [hmark x] at hg
    cases hg⟩

/-- A row carries a mark alone. -/
theorem eq_of_mark (t : Indexed key mark) {a b : α} {g : γ} (ha : a ∈ t.rows.values) (hb : b ∈ t.rows.values)
    (hga : g ∈ mark a) (hgb : g ∈ mark b) : a = b :=
  List.inj_on_of_nodup_map t.rows.nodup ha hb (t.unique a ha b hb g hga hgb)

variable [DecidableEq κ]

/-- The row under a key. -/
def get? (t : Indexed key mark) (k : κ) : Option α := t.rows.get? k

/-- Whether a key is there. -/
def has (t : Indexed key mark) (k : κ) : Bool := t.rows.has k

theorem get?_unmark (t : Indexed key mark) {f : α → α} (hkey : ∀ a, key (f a) = key a)
    (hmark : ∀ a, mark (f a) = none) (k : κ) :
    (t.unmark f hkey hmark).get? k = (t.get? k).map f :=
  Keyed.get?_map _ _ hkey _

theorem get?_filter (t : Indexed key mark) (p : α → Bool) (k : κ) :
    (t.filter p).get? k = (t.get? k).filter p :=
  Keyed.get?_filter _ _ _

variable [DecidableEq γ]

/-- A row put in its place, if no other carries its mark. -/
def put (t : Indexed key mark) (a : α) : Option (Indexed key mark) :=
  if h : ∀ b ∈ (t.rows.set a).values, ∀ c ∈ (t.rows.set a).values, ∀ g ∈ mark b, g ∈ mark c → key b = key c then
    some ⟨t.rows.set a, h⟩
  else none

/-- The row under a key, made another as the function has it; nothing where there is none, or the function
or the index refuses it. -/
def update (t : Indexed key mark) (k : κ) (f : α → Option α) : Option (Indexed key mark) :=
  (t.get? k).bind fun a => (f a).bind t.put

variable {t t' : Indexed key mark} {a : α} {k : κ}

/-! ## What a write leaves to be looked up -/

theorem put_eq_some (h : t.put a = some t') : t'.rows = t.rows.set a := by
  simp only [put] at h
  split at h
  · exact Option.some.inj h ▸ rfl
  · cases h

theorem get?_put (h : t.put a = some t') (k : κ) : t'.get? k = if key a = k then some a else t.get? k := by
  rw [get?, put_eq_some h, Keyed.get?_set]
  rfl

/-- **An update writes one row** that was there, as its function makes it. -/
theorem update_eq_some {f : α → Option α} (h : t.update k f = some t') :
    ∃ a b, t.get? k = some a ∧ f a = some b ∧ t'.rows = t.rows.set b := by
  obtain ⟨a, ha, hrest⟩ := Option.bind_eq_some_iff.mp h
  obtain ⟨b, hb, hput⟩ := Option.bind_eq_some_iff.mp hrest
  exact ⟨a, b, ha, hb, put_eq_some hput⟩

/-! ## When a row is let -/

/-- A row whose mark no other carries is let. -/
theorem put_free (h : ∀ b ∈ t.rows.values, key b ≠ key a → ∀ g ∈ mark a, g ∉ mark b) :
    (t.put a).isSome = true := by
  simp only [put]
  split
  · rfl
  · next hrefused =>
    refine absurd (fun b hb c hc g hgb hgc => ?_) hrefused
    rcases Keyed.get?_set_cases (Keyed.mem_values.mp hb) with ⟨_, rfl⟩ | ⟨hne, hold⟩
    · rcases Keyed.get?_set_cases (Keyed.mem_values.mp hc) with ⟨_, rfl⟩ | ⟨hne', hold'⟩
      · rfl
      · exact absurd hgc (h c (Keyed.mem_values.mpr hold') (Ne.symm hne') g hgb)
    · rcases Keyed.get?_set_cases (Keyed.mem_values.mp hc) with ⟨_, rfl⟩ | ⟨hne', hold'⟩
      · exact absurd hgb (h b (Keyed.mem_values.mpr hold) (Ne.symm hne) g hgc)
      · exact t.unique b (Keyed.mem_values.mpr hold) c (Keyed.mem_values.mpr hold') g hgb hgc

/-- A row that carries no mark is let. -/
theorem put_unmarked (h : mark a = none) : (t.put a).isSome = true := by
  refine put_free fun b _ _ g hg => ?_
  rw [h] at hg
  cases hg

/-- A row whose mark another carries is refused. -/
theorem put_refused {b : α} {g : γ} (hb : b ∈ t.rows.values) (hne : key b ≠ key a) (hgb : g ∈ mark b)
    (hga : g ∈ mark a) : t.put a = none := by
  simp only [put]
  split
  · next h =>
    have hself : a ∈ (t.rows.set a).values := Keyed.mem_values.mpr (Keyed.get?_set_self _ _)
    have hother : b ∈ (t.rows.set a).values := by
      rw [Keyed.mem_values, Keyed.get?_set, if_neg (Ne.symm hne)]
      exact Keyed.mem_values.mp hb
    exact absurd (h b hother a hself g hgb hga) hne
  · rfl

end Indexed

end Stoop.Lib
