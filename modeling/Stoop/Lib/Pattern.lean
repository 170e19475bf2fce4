import Mathlib.Data.List.Basic
import Mathlib.Data.List.TakeWhile
import Mathlib.Data.List.Forall2
import Mathlib.Tactic.Tauto

/-!
# Patterns: regular expressions as a script matches them

A pattern is tried at a place of a text, and there are ways it can match there, in an order: a repetition tries its
longest run first, an alternative its left side first. The match is the first way that goes through (`first`).
Which ways there are does not depend on the order: `Matches` is what they are, constructor by constructor, and
where all of them take the same words the order does not matter (`first_eq_some`).

`matchAll` is a search through the whole text, from the end of each match to the next; `replaceAll` puts other
words where the matches are.
-/

set_option autoImplicit false

namespace Stoop.Lib

/-- A pattern over a text's items. `rep` repeats a class; `ahead` looks and takes nothing. -/
inductive Pattern (α : Type)
  | empty
  | one (p : α → Bool)
  | seq (a b : Pattern α)
  | alt (a b : Pattern α)
  | rep (p : α → Bool) (least : Nat) (most : Option Nat)
  | group (k : Nat) (a : Pattern α)
  | start
  | finish
  | ahead (a : Pattern α)

/-- What the groups of a pattern took. -/
abbrev Captures (α : Type) := List (Nat × List α)

structure Match (α : Type) where
  start : Nat
  text : List α
  groups : Captures α

namespace Pattern

variable {α : Type}

/-! ## Ways to match -/

/-- How many items a run of a class may be, longest first. -/
def runs (p : α → Bool) (least : Nat) (most : Option Nat) (text : List α) : List Nat :=
  let run := (text.takeWhile p).length
  let longest := most.elim run (min run)
  (List.range' least (longest + 1 - least)).reverse

/-- The ways a pattern matches at an offset, in the order they are tried: how many items each takes, and what its
groups took. -/
def ways : Pattern α → (offset : Nat) → List α → List (Nat × Captures α)
  | empty, _, _ => [(0, [])]
  | one p, _, text => if text.head?.any p then [(1, [])] else []
  | seq a b, offset, text =>
    (a.ways offset text).flatMap fun (n, gs) =>
      (b.ways (offset + n) (text.drop n)).map fun (n', gs') => (n + n', gs ++ gs')
  | alt a b, offset, text => a.ways offset text ++ b.ways offset text
  | rep p least most, _, text => (runs p least most text).map fun n => (n, [])
  | group k a, offset, text => (a.ways offset text).map fun (n, gs) => (n, (k, text.take n) :: gs)
  | start, offset, _ => if offset = 0 then [(0, [])] else []
  | finish, _, text => if text.isEmpty then [(0, [])] else []
  | ahead a, offset, text =>
    match a.ways offset text with
    | [] => []
    | (_, gs) :: _ => [(0, gs)]

theorem ways_empty (offset : Nat) (text : List α) : (empty : Pattern α).ways offset text = [(0, [])] := rfl

theorem ways_one (p : α → Bool) (offset : Nat) (text : List α) :
    (one p).ways offset text = if text.head?.any p then [(1, [])] else [] := rfl

theorem ways_alt (a b : Pattern α) (offset : Nat) (text : List α) :
    (alt a b).ways offset text = a.ways offset text ++ b.ways offset text := rfl

theorem ways_start (offset : Nat) (text : List α) :
    (start : Pattern α).ways offset text = if offset = 0 then [(0, [])] else [] := rfl

theorem ways_finish (offset : Nat) (text : List α) :
    (finish : Pattern α).ways offset text = if text.isEmpty then [(0, [])] else [] := rfl

theorem ways_ahead (a : Pattern α) (offset : Nat) (text : List α) :
    (ahead a).ways offset text = ((a.ways offset text).head?.map fun w => (0, w.2)).toList := by
  show (match a.ways offset text with | [] => [] | (_, gs) :: _ => [(0, gs)]) = _
  cases a.ways offset text <;> rfl

/-- What a pattern takes at an offset, and its groups. -/
def first (a : Pattern α) (offset : Nat) (text : List α) : Option (List α × Captures α) :=
  (a.ways offset text).head?.map fun (n, gs) => (text.take n, gs)

/-- Patterns one after another. -/
def seqs : List (Pattern α) → Pattern α
  | [] => empty
  | a :: as => seq a (seqs as)

/-- The items themselves, by the class of each. -/
def lit (classes : List (α → Bool)) : Pattern α := seqs (classes.map one)

/-! ## What matches -/

/-- Whether a pattern can take these words at an offset, with the rest of the text after them. -/
def Matches (a : Pattern α) (offset : Nat) (t rest : List α) (gs : Captures α) : Prop :=
  (t.length, gs) ∈ a.ways offset (t ++ rest)

variable {a b : Pattern α} {offset : Nat} {t rest text : List α} {gs : Captures α} {p : α → Bool}

theorem mem_runs {least : Nat} {most : Option Nat} {n : Nat} :
    n ∈ runs p least most text ↔
      least ≤ n ∧ (∀ m ∈ most, n ≤ m) ∧ n ≤ (text.takeWhile p).length := by
  cases most with
  | none =>
    simp only [runs, Option.elim_none, List.mem_reverse, List.mem_range'_1, Option.not_mem_none, false_imp_iff,
      implies_true, true_and]
    omega
  | some m =>
    simp only [runs, Option.elim_some, List.mem_reverse, List.mem_range'_1, Option.mem_def, Option.some.injEq,
      forall_eq']
    omega

theorem le_takeWhile_iff {n : Nat} :
    n ≤ (text.takeWhile p).length ↔ n ≤ text.length ∧ ∀ c ∈ text.take n, p c = true := by
  induction text generalizing n with
  | nil => simp
  | cons c text ih =>
    cases n with
    | zero => simp
    | succ n =>
      rw [List.takeWhile_cons, List.take_succ_cons, List.forall_mem_cons]
      cases hc : p c with
      | false => simp
      | true => simp [ih]

/-- No way takes more than there is. -/
theorem le_of_mem_ways {w : Nat × Captures α} (h : w ∈ a.ways offset text) : w.1 ≤ text.length := by
  induction a generalizing offset text w with
  | empty =>
    obtain rfl := List.mem_singleton.mp h
    exact Nat.zero_le _
  | one p =>
    cases text with
    | nil => exact nomatch h
    | cons c text =>
      rw [ways_one, List.mem_ite_nil_right, List.mem_singleton] at h
      rw [h.2]
      exact Nat.succ_le_succ (Nat.zero_le _)
  | seq a b iha ihb =>
    obtain ⟨⟨n, gs⟩, hn, hmap⟩ := List.mem_flatMap.mp h
    obtain ⟨⟨n', gs'⟩, hn', rfl⟩ := List.mem_map.mp hmap
    have hfirst := iha hn
    have hsecond := ihb hn'
    rw [List.length_drop] at hsecond
    dsimp only at hfirst hsecond ⊢
    omega
  | alt a b iha ihb =>
    obtain h | h := List.mem_append.mp h
    · exact iha h
    · exact ihb h
  | rep p least most =>
    obtain ⟨n, hn, rfl⟩ := List.mem_map.mp h
    exact (le_takeWhile_iff.mp (mem_runs.mp hn).2.2).1
  | group k a ih =>
    obtain ⟨⟨n, gs⟩, hn, rfl⟩ := List.mem_map.mp h
    exact @ih offset text (n, gs) hn
  | start =>
    rw [ways_start, List.mem_ite_nil_right, List.mem_singleton] at h
    rw [h.2]
    exact Nat.zero_le _
  | finish =>
    rw [ways_finish, List.mem_ite_nil_right, List.mem_singleton] at h
    rw [h.2]
    exact Nat.zero_le _
  | ahead a ih =>
    rw [ways_ahead, Option.mem_toList] at h
    obtain ⟨w', -, rfl⟩ := Option.map_eq_some_iff.mp h
    exact Nat.zero_le _

theorem matches_empty : Matches (empty : Pattern α) offset t rest gs ↔ t = [] ∧ gs = [] := by
  rw [Matches, ways_empty, List.mem_singleton, Prod.mk.injEq, List.length_eq_zero_iff]

theorem matches_one : Matches (one p) offset t rest gs ↔ (∃ c, t = [c] ∧ p c = true) ∧ gs = [] := by
  rw [Matches, ways_one, List.mem_ite_nil_right, List.mem_singleton, Prod.mk.injEq]
  constructor
  · rintro ⟨hp, hlength, hgs⟩
    obtain ⟨c, rfl⟩ := List.length_eq_one_iff.mp hlength
    exact ⟨⟨c, rfl, hp⟩, hgs⟩
  · rintro ⟨⟨c, rfl, hp⟩, hgs⟩
    exact ⟨hp, rfl, hgs⟩

theorem matches_seq : Matches (seq a b) offset t rest gs ↔
    ∃ t₁ t₂ gs₁ gs₂, t = t₁ ++ t₂ ∧ gs = gs₁ ++ gs₂ ∧ a.Matches offset t₁ (t₂ ++ rest) gs₁ ∧
      b.Matches (offset + t₁.length) t₂ rest gs₂ := by
  constructor
  · intro h
    obtain ⟨⟨n, gs₁⟩, hn, hmap⟩ := List.mem_flatMap.mp h
    obtain ⟨⟨n', gs₂⟩, hn', heq⟩ := List.mem_map.mp hmap
    rw [Prod.mk.injEq] at heq
    obtain ⟨hlength, rfl⟩ := heq
    have htake : (t.take n).length = n := List.length_take_of_le (by omega)
    have hdrop : (t.drop n).length = n' := by
      rw [List.length_drop]
      omega
    refine ⟨t.take n, t.drop n, gs₁, gs₂, (List.take_append_drop n t).symm, rfl, ?_, ?_⟩
    · rw [Matches, ← List.append_assoc, List.take_append_drop, htake]
      exact hn
    · rw [Matches, htake, hdrop]
      rwa [List.drop_append_of_le_length (by omega)] at hn'
  · rintro ⟨t₁, t₂, gs₁, gs₂, rfl, rfl, h₁, h₂⟩
    rw [Matches, List.append_assoc] at *
    refine List.mem_flatMap.mpr ⟨_, h₁, List.mem_map.mpr ⟨(t₂.length, gs₂), ?_, ?_⟩⟩
    · rw [List.drop_left]
      exact h₂
    · rw [List.length_append]

theorem matches_alt : Matches (alt a b) offset t rest gs ↔
    a.Matches offset t rest gs ∨ b.Matches offset t rest gs := List.mem_append

theorem matches_rep {least : Nat} {most : Option Nat} : Matches (rep p least most) offset t rest gs ↔
    (least ≤ t.length ∧ (∀ m ∈ most, t.length ≤ m) ∧ ∀ c ∈ t, p c = true) ∧ gs = [] := by
  have hmem : Matches (rep p least most) offset t rest gs ↔ t.length ∈ runs p least most (t ++ rest) ∧
    gs = [] := by
    constructor
    · intro h
      obtain ⟨n, hn, heq⟩ := List.mem_map.mp h
      rw [Prod.mk.injEq] at heq
      exact ⟨heq.1 ▸ hn, heq.2.symm⟩
    · rintro ⟨hn, rfl⟩
      exact List.mem_map.mpr ⟨_, hn, rfl⟩
  rw [hmem, mem_runs, le_takeWhile_iff, List.take_left, List.length_append]
  refine and_congr_left fun _ => and_congr_right fun _ => and_congr_right fun _ => ?_
  exact and_iff_right (Nat.le_add_right _ _)

theorem matches_group {k : Nat} : Matches (group k a) offset t rest gs ↔
    ∃ gs', gs = (k, t) :: gs' ∧ a.Matches offset t rest gs' := by
  constructor
  · intro h
    obtain ⟨⟨n, gs'⟩, hn, heq⟩ := List.mem_map.mp h
    rw [Prod.mk.injEq] at heq
    obtain ⟨rfl, rfl⟩ := heq
    exact ⟨gs', by rw [List.take_left], hn⟩
  · rintro ⟨gs', rfl, h⟩
    refine List.mem_map.mpr ⟨_, h, ?_⟩
    dsimp only
    rw [List.take_left]

theorem matches_start : Matches (start : Pattern α) offset t rest gs ↔ (t = [] ∧ offset = 0) ∧ gs = [] := by
  rw [Matches, ways_start, List.mem_ite_nil_right, List.mem_singleton, Prod.mk.injEq, List.length_eq_zero_iff]
  tauto

theorem matches_finish : Matches (finish : Pattern α) offset t rest gs ↔ (t = [] ∧ rest = []) ∧ gs = [] := by
  rw [Matches, ways_finish, List.mem_ite_nil_right, List.mem_singleton, Prod.mk.injEq, List.length_eq_zero_iff,
    List.isEmpty_iff, List.append_eq_nil_iff]
  tauto

theorem matches_seqs_nil : Matches (seqs [] : Pattern α) offset t rest gs ↔ t = [] ∧ gs = [] := matches_empty

theorem matches_seqs_cons {as : List (Pattern α)} : Matches (seqs (a :: as)) offset t rest gs ↔
    ∃ t₁ t₂ gs₁ gs₂, t = t₁ ++ t₂ ∧ gs = gs₁ ++ gs₂ ∧ a.Matches offset t₁ (t₂ ++ rest) gs₁ ∧
      (seqs as).Matches (offset + t₁.length) t₂ rest gs₂ := matches_seq

theorem matches_ahead : Matches (ahead a) offset t rest gs ↔
    t = [] ∧ ∃ w ws, a.ways offset rest = w :: ws ∧ gs = w.2 := by
  have hways : Matches (ahead a) offset t rest gs ↔
      ∃ w ws, a.ways offset (t ++ rest) = w :: ws ∧ t.length = 0 ∧ gs = w.2 := by
    rw [Matches, ways_ahead]
    cases a.ways offset (t ++ rest) with
    | nil => simp
    | cons w ws => simp
  rw [hways]
  constructor
  · rintro ⟨w, ws, hw, hlength, hgs⟩
    obtain rfl := List.length_eq_zero_iff.mp hlength
    exact ⟨rfl, w, ws, hw, hgs⟩
  · rintro ⟨rfl, w, ws, hw, hgs⟩
    exact ⟨w, ws, hw, rfl, hgs⟩

/-- The end of a run: nothing is ahead, or an item that is not of the class. -/
theorem matches_runEnd : Matches (ahead (alt (one fun c => !p c) finish)) offset t rest gs ↔
    t = [] ∧ gs = [] ∧ ∀ c ∈ rest.head?, p c = false := by
  rw [matches_ahead]
  refine and_congr_right fun _ => ?_
  cases rest with
  | nil => simp [ways_alt, ways_one, ways_finish]
  | cons c rest => cases hc : p c <;> simp [ways_alt, ways_one, ways_finish, hc]

/-! ### Patterns of one class after another -/

/-- A pattern that takes one item of each of these classes, and has no groups. -/
def Fixed (a : Pattern α) (classes : List (α → Bool)) : Prop :=
  ∀ offset t rest gs, Matches a offset t rest gs ↔ List.Forall₂ (fun p c => p c = true) classes t ∧ gs = []

theorem fixed_one : Fixed (one p) [p] := by
  intro offset t rest gs
  rw [matches_one, List.forall₂_cons_left_iff]
  refine and_congr_left fun _ => exists_congr fun c => ?_
  constructor
  · rintro ⟨rfl, hp⟩
    exact ⟨[], hp, .nil, rfl⟩
  · rintro ⟨t', hp, hnil, rfl⟩
    rw [List.forall₂_nil_left_iff.mp hnil]
    exact ⟨rfl, hp⟩

theorem fixed_rep {n : Nat} : Fixed (rep p n (some n)) (List.replicate n p) := by
  intro offset t rest gs
  rw [matches_rep]
  refine and_congr_left fun _ => ?_
  have hsame : List.Forall₂ (fun p c => p c = true) (List.replicate n p) t ↔
      n = t.length ∧ ∀ c ∈ t, p c = true := by
    induction t generalizing n with
    | nil => cases n <;> simp [List.replicate_succ]
    | cons c t ih =>
      cases n with
      | zero => simp
      | succ n =>
        rw [List.replicate_succ, List.forall₂_cons, ih, List.length_cons, List.forall_mem_cons,
          Nat.add_right_cancel_iff]
        tauto
  rw [hsame]
  constructor
  · rintro ⟨hleast, hmost, hall⟩
    exact ⟨Nat.le_antisymm hleast (hmost n rfl), hall⟩
  · rintro ⟨rfl, hall⟩
    exact ⟨Nat.le_refl _, fun m hm => Nat.le_of_eq (Option.some.inj hm), hall⟩

theorem fixed_nil : Fixed (seqs [] : Pattern α) [] := by
  intro offset t rest gs
  rw [matches_seqs_nil, List.forall₂_nil_left_iff]

theorem fixed_cons {as : List (Pattern α)} {classes classes' : List (α → Bool)} (ha : Fixed a classes)
    (has : Fixed (seqs as) classes') : Fixed (seqs (a :: as)) (classes ++ classes') := by
  intro offset t rest gs
  rw [matches_seqs_cons]
  constructor
  · rintro ⟨t₁, t₂, gs₁, gs₂, rfl, rfl, h₁, h₂⟩
    obtain ⟨hclasses, rfl⟩ := (ha _ _ _ _).mp h₁
    obtain ⟨hclasses', rfl⟩ := (has _ _ _ _).mp h₂
    exact ⟨List.rel_append hclasses hclasses', rfl⟩
  · rintro ⟨hall, rfl⟩
    have hsplit := List.forall₂_take classes.length hall
    have hsplit' := List.forall₂_drop classes.length hall
    rw [List.take_left] at hsplit
    rw [List.drop_left] at hsplit'
    exact ⟨_, _, [], [], (List.take_append_drop classes.length t).symm, rfl, (ha _ _ _ _).mpr ⟨hsplit, rfl⟩,
      (has _ _ _ _).mpr ⟨hsplit', rfl⟩⟩

theorem fixed_lit (classes : List (α → Bool)) : Fixed (lit classes) classes := by
  induction classes with
  | nil => exact fixed_nil
  | cons p classes ih => exact fixed_cons fixed_one ih

/-! ## The match at a place -/

theorem matches_of_first {m : List α × Captures α} (h : a.first offset text = some m) :
    ∃ rest, text = m.1 ++ rest ∧ a.Matches offset m.1 rest m.2 := by
  obtain ⟨⟨n, gs⟩, hhead, rfl⟩ := Option.map_eq_some_iff.mp h
  have hmem := List.mem_of_head? hhead
  have hle := le_of_mem_ways hmem
  refine ⟨text.drop n, (List.take_append_drop n text).symm, ?_⟩
  rw [Matches, List.take_append_drop, List.length_take_of_le hle]
  exact hmem

theorem first_eq_none : a.first offset text = none ↔
    ∀ t rest gs, text = t ++ rest → ¬a.Matches offset t rest gs := by
  constructor
  · rintro h t rest gs rfl hmatches
    rw [first, Option.map_eq_none_iff, List.head?_eq_none_iff] at h
    rw [Matches, h] at hmatches
    exact nomatch hmatches
  · intro h
    cases hfirst : a.first offset text with
    | none => rfl
    | some m =>
      obtain ⟨rest, htext, hmatches⟩ := matches_of_first hfirst
      exact absurd hmatches (h _ _ _ htext)

/-- Where all the ways take the same words, with the same groups, these are the match. -/
theorem first_eq_some (h : a.Matches offset t rest gs)
    (hall : ∀ t' rest' gs', t ++ rest = t' ++ rest' → a.Matches offset t' rest' gs' → t' = t ∧ gs' = gs) :
    a.first offset (t ++ rest) = some (t, gs) := by
  cases hfirst : a.first offset (t ++ rest) with
  | none => exact absurd h (first_eq_none.mp hfirst t rest gs rfl)
  | some m =>
    obtain ⟨rest', htext, hmatches⟩ := matches_of_first hfirst
    obtain ⟨h₁, h₂⟩ := hall _ _ _ htext hmatches
    rw [← h₁, ← h₂]

/-! ## The matches of a text -/

/-- The matches from an offset on, the first `skip` items left out. -/
def matchAllFrom (a : Pattern α) : (skip offset : Nat) → List α → List (Match α)
  | _ + 1, _, [] => []
  | skip + 1, offset, _ :: rest => matchAllFrom a skip (offset + 1) rest
  | 0, offset, [] => ((a.first offset []).map fun (t, gs) => ⟨offset, t, gs⟩).toList
  | 0, offset, c :: rest =>
    match a.first offset (c :: rest) with
    | none => matchAllFrom a 0 (offset + 1) rest
    | some (t, gs) => ⟨offset, t, gs⟩ :: matchAllFrom a (t.length - 1) (offset + 1) rest

/-- Every match of a text, from the end of one to the next. -/
def matchAll (a : Pattern α) (text : List α) : List (Match α) := a.matchAllFrom 0 0 text

theorem matchAllFrom_succ (skip : Nat) (c : α) :
    a.matchAllFrom (skip + 1) offset (c :: rest) = a.matchAllFrom skip (offset + 1) rest := rfl

theorem matchAllFrom_nil : a.matchAllFrom 0 offset [] =
    ((a.first offset []).map fun (t, gs) => ⟨offset, t, gs⟩).toList := rfl

theorem matchAllFrom_cons (c : α) : a.matchAllFrom 0 offset (c :: rest) =
    match a.first offset (c :: rest) with
    | none => a.matchAllFrom 0 (offset + 1) rest
    | some (t, gs) => ⟨offset, t, gs⟩ :: a.matchAllFrom (t.length - 1) (offset + 1) rest := rfl

theorem matchAllFrom_skip (skipped : List α) :
    a.matchAllFrom skipped.length offset (skipped ++ rest) = a.matchAllFrom 0 (offset + skipped.length) rest := by
  induction skipped generalizing offset with
  | nil => rfl
  | cons c skipped ih =>
    rw [List.length_cons, List.cons_append, matchAllFrom_succ, ih, Nat.add_right_comm, Nat.add_assoc]

theorem matchAllFrom_miss {c : α} (h : a.first offset (c :: rest) = none) :
    a.matchAllFrom 0 offset (c :: rest) = a.matchAllFrom 0 (offset + 1) rest := by
  rw [matchAllFrom_cons, h]

theorem matchAllFrom_hit (hne : t ≠ []) (h : a.first offset (t ++ rest) = some (t, gs)) :
    a.matchAllFrom 0 offset (t ++ rest) = ⟨offset, t, gs⟩ :: a.matchAllFrom 0 (offset + t.length) rest := by
  obtain ⟨c, cs, rfl⟩ := List.exists_cons_of_ne_nil hne
  rw [List.cons_append] at h ⊢
  rw [matchAllFrom_cons, h]
  dsimp only
  rw [List.length_cons, Nat.add_sub_cancel, matchAllFrom_skip, Nat.add_right_comm, Nat.add_assoc]

/-- A match of a text stands in it, past what was left out. -/
theorem mem_matchAllFrom {skip : Nat} {m : Match α} (h : m ∈ a.matchAllFrom skip offset text) :
    ∃ before rest, text = before ++ (m.text ++ rest) ∧ skip ≤ before.length ∧ m.start = offset + before.length ∧
      a.Matches m.start m.text rest m.groups := by
  induction text generalizing skip offset with
  | nil =>
    cases skip with
    | succ skip => exact nomatch h
    | zero =>
      rw [matchAllFrom_nil, Option.mem_toList, Option.map_eq_some_iff] at h
      obtain ⟨⟨t, gs⟩, hfirst, rfl⟩ := h
      obtain ⟨rest, htext, hmatches⟩ := matches_of_first hfirst
      exact ⟨[], rest, htext, Nat.le_refl _, rfl, hmatches⟩
  | cons c text ih =>
    have hnext : ∀ {skip' : Nat}, skip ≤ skip' + 1 → m ∈ a.matchAllFrom skip' (offset + 1) text →
        ∃ before rest, c :: text = before ++ (m.text ++ rest) ∧ skip ≤ before.length ∧
          m.start = offset + before.length ∧ a.Matches m.start m.text rest m.groups := by
      intro skip' hle hm
      obtain ⟨before, rest, htext, hskip, hstart, hmatches⟩ := ih hm
      refine ⟨c :: before, rest, by rw [htext, List.cons_append], ?_, ?_, hmatches⟩
      · rw [List.length_cons]
        omega
      · rw [hstart, List.length_cons]
        omega
    cases skip with
    | succ skip => exact hnext (Nat.le_refl _) h
    | zero =>
      rw [matchAllFrom_cons] at h
      split at h
      · exact hnext (Nat.zero_le _) h
      · next t gs hfirst =>
        obtain rfl | h := List.mem_cons.mp h
        · obtain ⟨rest, htext, hmatches⟩ := matches_of_first hfirst
          exact ⟨[], rest, htext, Nat.le_refl _, rfl, hmatches⟩
        · exact hnext (Nat.zero_le _) h

/-- No match of a text starts before the one before it ends. -/
theorem pairwise_matchAllFrom (hne : ∀ offset t rest gs, a.Matches offset t rest gs → t ≠ []) (skip : Nat) :
    (a.matchAllFrom skip offset text).Pairwise fun m m' => m.start + m.text.length ≤ m'.start := by
  induction text generalizing skip offset with
  | nil =>
    cases skip with
    | succ skip => exact .nil
    | zero =>
      rw [matchAllFrom_nil]
      cases a.first offset [] with
      | none => exact .nil
      | some m => exact List.pairwise_singleton _ _
  | cons c text ih =>
    cases skip with
    | succ skip => exact ih skip
    | zero =>
      rw [matchAllFrom_cons]
      split
      · exact ih 0
      · next t gs hfirst =>
        obtain ⟨rest, -, hmatches⟩ := matches_of_first hfirst
        have hpos := List.length_pos_of_ne_nil (hne _ _ _ _ hmatches)
        refine .cons (fun m hm => ?_) (ih _)
        obtain ⟨before, _, -, hskip, hstart, -⟩ := mem_matchAllFrom hm
        dsimp only at hpos ⊢
        omega

/-- An item that no match is about, put at a text's end, makes no difference. -/
theorem matchAllFrom_snoc {c : α} (hfirst : ∀ offset text, a.first offset (text ++ [c]) = a.first offset text)
    (hnil : ∀ offset, a.first offset [] = none) (skip : Nat) :
    a.matchAllFrom skip offset (text ++ [c]) = a.matchAllFrom skip offset text := by
  have hend : ∀ skip offset, a.matchAllFrom skip offset [] = [] := by
    intro skip offset
    cases skip with
    | succ skip => rfl
    | zero => rw [matchAllFrom_nil, hnil, Option.map_none, Option.toList_none]
  induction text generalizing skip offset with
  | nil =>
    rw [List.nil_append, hend]
    cases skip with
    | succ skip => exact hend skip _
    | zero => rw [matchAllFrom_miss ((hfirst offset []).trans (hnil offset)), hend]
  | cons d text ih =>
    cases skip with
    | succ skip => exact ih skip
    | zero =>
      have hhere := hfirst offset (d :: text)
      rw [List.cons_append] at hhere ⊢
      rw [matchAllFrom_cons, matchAllFrom_cons, hhere, ih]
      split
      · rfl
      · rw [ih]

end Pattern

/-! ## Other words in place of some -/

/-- A text with other words in place of some: from `last` on, each replacement being where it starts and stops,
and what is put there. -/
def spliceFrom {α : Type} (text : List α) : (last : Nat) → List (Nat × Nat × List α) → List α
  | last, [] => text.drop last
  | last, (start, stop, words) :: later => (text.take start).drop last ++ words ++ spliceFrom text stop later

/-- A text with other words in place of a pattern's matches. -/
def Pattern.replaceAll {α : Type} (a : Pattern α) (write : Match α → List α) (text : List α) : List α :=
  spliceFrom text 0 ((a.matchAll text).map fun m => (m.start, m.start + m.text.length, write m))

section Splice

variable {α : Type} {before here words rest : List α} {last : Nat}

/-- Up to its end nothing is left to put elsewhere. -/
theorem spliceFrom_nil (h : last ≤ before.length) : spliceFrom (before ++ here) last [] =
    before.drop last ++ here :=
  List.drop_append_of_le_length h

/-- What is kept so far, then what is put, then the rest after the words it is put for. -/
theorem spliceFrom_cons (later : List (Nat × Nat × List α)) :
    spliceFrom (before ++ here) last ((before.length, before.length + rest.length, words) :: later) =
      before.drop last ++ (words ++ spliceFrom (before ++ here) (before.length + rest.length) later) := by
  rw [spliceFrom, List.take_left, List.append_assoc]

theorem drop_eq_append {low high : Nat} (h : low ≤ high) (text : List α) :
    text.drop low = (text.take high).drop low ++ text.drop high := by
  have hsplit := congrArg (List.drop low) (List.take_append_drop high text)
  rw [← hsplit, List.drop_append]
  obtain hshort | hlong := Nat.le_total high text.length
  · have hzero : low - (text.take high).length = 0 := by
      rw [List.length_take]
      omega
    rw [hzero, List.drop_zero]
  · rw [List.drop_of_length_le hlong, List.drop_nil]

/-- With what was there put back, a text is as it was. -/
theorem spliceFrom_same (text : List α) (spans : List (Nat × Nat)) {last : Nat}
    (hsorted : spans.Pairwise fun x y => x.2 ≤ y.1) (hspans : ∀ x ∈ spans, last ≤ x.1 ∧ x.1 ≤ x.2) :
    spliceFrom text last (spans.map fun x => (x.1, x.2, (text.take x.2).drop x.1)) = text.drop last := by
  induction spans generalizing last with
  | nil => rfl
  | cons x spans ih =>
    obtain ⟨hbetween, hlater⟩ := List.pairwise_cons.mp hsorted
    obtain ⟨hx, hothers⟩ := List.forall_mem_cons.mp hspans
    have hrest := ih hlater fun y hy => ⟨hbetween y hy, (hothers y hy).2⟩
    rw [List.map_cons, spliceFrom, hrest, List.append_assoc, ← drop_eq_append hx.2, ← drop_eq_append hx.1]

theorem infix_drop {last low high : Nat} (hlast : last ≤ low) (hle : low ≤ high) (text : List α) :
    (text.take high).drop low <:+: text.drop last := by
  rw [drop_eq_append (Nat.le_trans hlast hle) text, drop_eq_append hlast (text.take high)]
  exact ⟨_, _, rfl⟩

/-- Words that no replacement is about are still there, together. -/
theorem infix_spliceFrom {text : List α} {low high : Nat} (later : List (Nat × Nat × List α)) {last : Nat}
    (hlast : last ≤ low) (hle : low ≤ high) (h : ∀ r ∈ later, high ≤ r.1 ∨ r.2.1 ≤ low) :
    (text.take high).drop low <:+: spliceFrom text last later := by
  induction later generalizing last with
  | nil => exact infix_drop hlast hle text
  | cons r later ih =>
    obtain ⟨hr, hlater⟩ := List.forall_mem_cons.mp h
    obtain hbefore | hafter := hr
    · have htake : text.take high = (text.take r.1).take high := by rw [List.take_take, Nat.min_eq_left hbefore]
      rw [spliceFrom, htake, List.append_assoc]
      exact (infix_drop hlast hle (text.take r.1)).trans (List.infix_append [] _ _)
    · rw [spliceFrom]
      exact (ih hafter hlater).trans (List.suffix_append _ _).isInfix

end Splice

end Stoop.Lib
