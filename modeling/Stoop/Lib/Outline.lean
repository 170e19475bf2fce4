import Mathlib.Data.List.Basic

/-!
# Outlines: nested lists made from rows with depths

A row says how deep it lies, its list's kind and its content. `Nest.add` puts rows in one after another: it
keeps the lists in which a row may still come, innermost first, each by its place in the outline, and
changes the outline at a place. `rows` reads an outline out again, entry by entry, each with its depth and
its number in its list.

## What a row is put in as

`rows_nest`: where no row lies more than one deeper than the one before it, reading out what the rows made
gives the rows, in turn, each numbered by `tally`: one more than the rows of its kind just above it at its
depth, deeper rows skipped.
-/

set_option autoImplicit false

namespace Stoop.Lib.Outline

mutual

/-- A list of a kind. -/
inductive NestedList (κ α : Type)
  | list (kind : κ) (entries : List (Entry κ α))

/-- An entry of a list, and the lists inside it. -/
inductive Entry (κ α : Type)
  | entry (content : α) (nested : List (NestedList κ α))

end

structure Row (κ α : Type) where
  depth : Nat
  kind : κ
  content : α
  deriving DecidableEq, Repr

/-- Where a list lies: among the outermost ones, and from there, innermost step first, which entry to go
into and which of the lists in it to take. -/
structure Place where
  first : Nat
  steps : List (Nat × Nat)
  deriving DecidableEq, Repr

variable {κ α β : Type}

namespace NestedList

def kind : NestedList κ α → κ
  | .list kind _ => kind

def entries : NestedList κ α → List (Entry κ α)
  | .list _ entries => entries

def onEntries (f : List (Entry κ α) → List (Entry κ α)) : NestedList κ α → NestedList κ α
  | .list kind entries => .list kind (f entries)

end NestedList

namespace Entry

def nested : Entry κ α → List (NestedList κ α)
  | .entry _ nested => nested

def onNested (f : List (NestedList κ α) → List (NestedList κ α)) : Entry κ α → Entry κ α
  | .entry content nested => .entry content (f nested)

end Entry

/-! ## Places -/

/-- A place one step further in. -/
def Place.inside (place : Place) (step : Nat × Nat) : Place := { place with steps := step :: place.steps }

/-- The list at a place. -/
def listAt (roots : List (NestedList κ α)) (first : Nat) : List (Nat × Nat) → Option (NestedList κ α)
  | [] => roots[first]?
  | step :: steps => do
    let list ← listAt roots first steps
    let entry ← list.entries[step.1]?
    entry.nested[step.2]?

/-- The change of a list's entries that changes those of a list inside. -/
def through (f : List (Entry κ α) → List (Entry κ α)) (step : Nat × Nat) (entries : List (Entry κ α)) :
    List (Entry κ α) :=
  entries.modify step.1 (Entry.onNested fun lists => lists.modify step.2 (NestedList.onEntries f))

/-- The outline with the entries of the list at a place changed. -/
def changeAt (f : List (Entry κ α) → List (Entry κ α)) (roots : List (NestedList κ α)) (first : Nat) :
    List (Nat × Nat) → List (NestedList κ α)
  | [] => roots.modify first (NestedList.onEntries f)
  | step :: steps => changeAt (through f step) roots first steps

/-! ## Putting rows in -/

/-- An outline, and the lists in which a row may still come, innermost first, each with its depth. -/
structure Nest (κ α : Type) where
  roots : List (NestedList κ α)
  stack : List (Nat × Place)

namespace Nest

/-- The step into a list started now inside the list at a place: at the end of its last entry. -/
def nextStep (s : Nest κ α) (place : Place) : Option (Nat × Nat) := do
  let list ← listAt s.roots place.first place.steps
  let last ← list.entries.getLast?
  return (list.entries.length - 1, last.nested.length)

/-- A list of one row, inside the last entry of the innermost list that is left or outermost. -/
def start (s : Nest κ α) (row : Row κ α) : Nest κ α :=
  let list : NestedList κ α := .list row.kind [.entry row.content []]
  match s.stack.head?.bind fun top => (s.nextStep top.2).map fun step => (top.2, step) with
  | some (place, step) =>
    { roots := changeAt (fun entries => entries.modify step.1 (Entry.onNested (· ++ [list])))
        s.roots place.first place.steps
      stack := (row.depth, place.inside step) :: s.stack }
  | none => { roots := s.roots ++ [list], stack := (row.depth, ⟨s.roots.length, []⟩) :: s.stack }

variable [DecidableEq κ]

/-- The deeper lists left, then the row put in the list of its depth and kind, or in one of its own. -/
def add (s : Nest κ α) (row : Row κ α) : Nest κ α :=
  match s.stack.dropWhile fun top => decide (row.depth < top.1) with
  | [] => start ⟨s.roots, []⟩ row
  | top :: stack =>
    if top.1 = row.depth then
      if (listAt s.roots top.2.first top.2.steps).map NestedList.kind = some row.kind then
        ⟨changeAt (· ++ [.entry row.content []]) s.roots top.2.first top.2.steps, top :: stack⟩
      else start ⟨s.roots, stack⟩ row
    else start ⟨s.roots, top :: stack⟩ row

end Nest

/-- The outline of some rows. -/
def nest [DecidableEq κ] (rows : List (Row κ α)) : List (NestedList κ α) :=
  (rows.foldl Nest.add ⟨[], []⟩).roots

/-! ## Reading an outline out -/

section
variable (write : Nat → κ → Nat → α → β)

mutual

/-- A list's entries in turn, each with its depth, its list's kind and its number, what is inside it after
it. -/
def listRows (depth : Nat) : NestedList κ α → List β
  | .list kind entries => entriesRows depth kind 1 entries

def entryRows (depth : Nat) (kind : κ) (number : Nat) : Entry κ α → List β
  | .entry content nested => write depth kind number content :: rows (depth + 1) nested

def entriesRows (depth : Nat) (kind : κ) (number : Nat) : List (Entry κ α) → List β
  | [] => []
  | entry :: entries => entryRows depth kind number entry ++ entriesRows depth kind (number + 1) entries

/-- Lists read out one after another. -/
def rows (depth : Nat) : List (NestedList κ α) → List β
  | [] => []
  | list :: lists => listRows depth list ++ rows depth lists

end

/-- How many rows of a kind stand just above at a depth, `above` latest first: deeper ones are skipped, one
less deep or of another kind ends the count. -/
def tally [DecidableEq κ] (depth : Nat) (kind : κ) : List (Row κ α) → Nat
  | [] => 0
  | row :: above =>
    if row.depth < depth then 0
    else if row.depth = depth then if row.kind = kind then tally depth kind above + 1 else 0
    else tally depth kind above

/-- Rows as they read by themselves, after the rows above, latest first. -/
def numbered [DecidableEq κ] : List (Row κ α) → List (Row κ α) → List β
  | _, [] => []
  | above, row :: below =>
    write row.depth row.kind (tally row.depth row.kind above + 1) row.content :: numbered (row :: above) below

end

/-- No row is more than one deeper than the one before, the first no deeper than the limit. -/
def Stepped : Nat → List (Row κ α) → Prop
  | _, [] => True
  | limit, row :: below => row.depth ≤ limit ∧ Stepped (row.depth + 1) below

/-! ## Lists that are last -/

section
variable {roots : List (NestedList κ α)} {first : Nat} {steps : List (Nat × Nat)} {list : NestedList κ α}

/-- A place whose list is the last of its neighbours, as each list around it is, in the last entry. -/
inductive EndsAt (roots : List (NestedList κ α)) (first : Nat) : List (Nat × Nat) → NestedList κ α → Prop
  | here (before : List (NestedList κ α)) (list : NestedList κ α) (hroots : roots = before ++ [list])
      (hfirst : first = before.length) : EndsAt roots first [] list
  | inside (steps : List (Nat × Nat)) (kind : κ) (entries : List (Entry κ α)) (content : α)
      (before : List (NestedList κ α)) (list : NestedList κ α)
      (around : EndsAt roots first steps (.list kind (entries ++ [.entry content (before ++ [list])]))) :
      EndsAt roots first ((entries.length, before.length) :: steps) list

theorem modify_concat {γ : Type} (f : γ → γ) (before : List γ) (last : γ) :
    (before ++ [last]).modify before.length f = before ++ [f last] := by
  induction before with
  | nil => rfl
  | cons b before ih => rw [List.cons_append, List.length_cons, List.modify_succ_cons, ih, List.cons_append]

theorem through_concat (f : List (Entry κ α) → List (Entry κ α)) (entries : List (Entry κ α)) (content : α)
    (before : List (NestedList κ α)) (list : NestedList κ α) :
    through f (entries.length, before.length) (entries ++ [.entry content (before ++ [list])]) =
      entries ++ [.entry content (before ++ [list.onEntries f])] := by
  simp only [through, modify_concat, Entry.onNested]

theorem EndsAt.listAt_eq (h : EndsAt roots first steps list) : listAt roots first steps = some list := by
  induction h with
  | here before list hroots hfirst =>
    rw [listAt, hroots, hfirst]
    exact List.getElem?_concat_length
  | inside steps kind entries content before list _ ih =>
    simp only [listAt, ih, NestedList.entries, Option.bind_eq_bind, Option.bind_some,
      List.getElem?_concat_length, Entry.nested]

/-- A changed list still ends the outline. -/
theorem EndsAt.changed (h : EndsAt roots first steps list) (f : List (Entry κ α) → List (Entry κ α)) :
    EndsAt (changeAt f roots first steps) first steps (list.onEntries f) := by
  induction h generalizing f with
  | here before list hroots hfirst =>
    subst hroots hfirst
    exact .here before _ (modify_concat _ _ _) rfl
  | inside steps kind entries content before list _ ih =>
    refine .inside steps kind entries content before _ ?_
    have around := ih (through f (entries.length, before.length))
    rwa [NestedList.onEntries, through_concat] at around

/-- A change further in leaves a list with as many entries. -/
theorem changeAt_append (f : List (Entry κ α) → List (Entry κ α)) (step : Nat × Nat)
    (inner : List (Nat × Nat)) :
    ∃ g : List (Entry κ α) → List (Entry κ α), (∀ entries, (g entries).length = entries.length) ∧
      changeAt f roots first (step :: (inner ++ steps)) = changeAt g roots first steps := by
  induction inner generalizing f step with
  | nil => exact ⟨through f step, fun _ => List.length_modify .., rfl⟩
  | cons step' inner ih => exact ih (through f step) step'

/-! ## What is read out -/

variable (write : Nat → κ → Nat → α → β)

theorem rows_append (depth : Nat) (lists lists' : List (NestedList κ α)) :
    rows write depth (lists ++ lists') = rows write depth lists ++ rows write depth lists' := by
  induction lists with
  | nil => rfl
  | cons list lists ih => simp only [List.cons_append, rows, ih, List.append_assoc]

theorem rows_singleton (depth : Nat) (list : NestedList κ α) :
    rows write depth [list] = listRows write depth list := by
  rw [rows, rows, List.append_nil]

theorem entriesRows_append (depth : Nat) (kind : κ) (number : Nat) (entries entries' : List (Entry κ α)) :
    entriesRows write depth kind number (entries ++ entries') =
      entriesRows write depth kind number entries ++
        entriesRows write depth kind (number + entries.length) entries' := by
  induction entries generalizing number with
  | nil => rfl
  | cons entry entries ih =>
    simp only [List.cons_append, entriesRows, ih, List.append_assoc, List.length_cons,
      Nat.add_right_comm number 1, Nat.add_assoc]

theorem entriesRows_singleton (depth : Nat) (kind : κ) (number : Nat) (entry : Entry κ α) :
    entriesRows write depth kind number [entry] = entryRows write depth kind number entry := by
  rw [entriesRows, entriesRows, List.append_nil]

/-- What is read out ends with the last list, changed or not. -/
theorem EndsAt.rows_eq (h : EndsAt roots first steps list) :
    ∃ above, rows write 0 roots = above ++ listRows write steps.length list ∧
      ∀ f, rows write 0 (changeAt f roots first steps) =
        above ++ listRows write steps.length (list.onEntries f) := by
  induction h with
  | here before list hroots hfirst =>
    subst hroots hfirst
    refine ⟨rows write 0 before, ?_, fun f => ?_⟩
    · rw [rows_append, rows_singleton, List.length_nil]
    · rw [changeAt, modify_concat, rows_append, rows_singleton, List.length_nil]
  | inside steps kind entries content before list _ ih =>
    obtain ⟨above, hrows, hchanged⟩ := ih
    have last : ∀ list' : NestedList κ α,
        listRows write steps.length (.list kind (entries ++ [.entry content (before ++ [list'])])) =
          (entriesRows write steps.length kind 1 entries ++
            write steps.length kind (1 + entries.length) content :: rows write (steps.length + 1) before) ++
            listRows write (steps.length + 1) list' := by
      intro list'
      rw [listRows, entriesRows_append, entriesRows_singleton, entryRows, rows_append, rows_singleton,
        ← List.cons_append, List.append_assoc]
    refine ⟨above ++ (entriesRows write steps.length kind 1 entries ++
      write steps.length kind (1 + entries.length) content :: rows write (steps.length + 1) before), ?_,
      fun f => ?_⟩
    · rw [hrows, last, ← List.append_assoc above, List.length_cons]
    · rw [changeAt, hchanged, NestedList.onEntries, through_concat, last,
        ← List.append_assoc above, List.length_cons]

end

/-! ## What the rows put in read as -/

section
variable [DecidableEq κ]

theorem tally_cons (depth : Nat) (kind : κ) (row : Row κ α) (above : List (Row κ α)) :
    tally depth kind (row :: above) =
      if row.depth < depth then 0
      else if row.depth = depth then if row.kind = kind then tally depth kind above + 1 else 0
      else tally depth kind above := rfl

theorem tally_cons_deeper {depth : Nat} {kind : κ} {row : Row κ α} {above : List (Row κ α)}
    (h : depth < row.depth) : tally depth kind (row :: above) = tally depth kind above := by
  rw [tally_cons, if_neg (Nat.lt_asymm h), if_neg (Nat.ne_of_gt h)]

theorem tally_cons_same {row : Row κ α} {above : List (Row κ α)} :
    tally row.depth row.kind (row :: above) = tally row.depth row.kind above + 1 := by
  rw [tally_cons, if_neg (Nat.lt_irrefl _), if_pos rfl, if_pos rfl]

theorem tally_cons_other {kind : κ} {row : Row κ α} {above : List (Row κ α)} (h : kind ≠ row.kind) :
    tally row.depth kind (row :: above) = 0 := by
  rw [tally_cons, if_neg (Nat.lt_irrefl _), if_pos rfl, if_neg h.symm]

theorem tally_cons_shallower {depth : Nat} {kind : κ} {row : Row κ α} {above : List (Row κ α)}
    (h : row.depth < depth) : tally depth kind (row :: above) = 0 := by
  rw [tally_cons, if_pos h]

/-- The lists in which a row may come when the innermost is at these steps. -/
def opened (first : Nat) : List (Nat × Nat) → List (Nat × Place)
  | [] => [(0, ⟨first, []⟩)]
  | step :: steps => (steps.length + 1, ⟨first, step :: steps⟩) :: opened first steps

theorem opened_eq_cons (first : Nat) (steps : List (Nat × Nat)) :
    ∃ stack, opened first steps = (steps.length, ⟨first, steps⟩) :: stack := by
  cases steps with
  | nil => exact ⟨[], rfl⟩
  | cons step steps => exact ⟨opened first steps, rfl⟩

/-- Leaving the deeper lists leaves those of the steps as far as the depth. -/
theorem dropWhile_opened (first : Nat) {depth : Nat} {steps : List (Nat × Nat)} (h : depth ≤ steps.length) :
    ∃ inner steps', steps = inner ++ steps' ∧ steps'.length = depth ∧
      (opened first steps).dropWhile (fun top => decide (depth < top.1)) = opened first steps' := by
  induction steps with
  | nil =>
    obtain rfl : depth = 0 := Nat.le_zero.mp h
    exact ⟨[], [], rfl, rfl, rfl⟩
  | cons step steps ih =>
    rcases Nat.lt_or_ge depth (steps.length + 1) with hlt | hge
    · obtain ⟨inner, steps', rfl, hlength, hdrop⟩ := ih (Nat.le_of_lt_succ hlt)
      refine ⟨step :: inner, steps', rfl, hlength, ?_⟩
      rw [opened, List.dropWhile_cons, if_pos (decide_eq_true hlt), hdrop]
    · refine ⟨[], step :: steps, rfl, Nat.le_antisymm hge h, ?_⟩
      rw [opened, List.dropWhile_cons, if_neg (by simpa using hge)]

/-- A list in which a row may still come, with the rows so far: it ends the outline, and holds the entries
that are counted at its depth. -/
def Counts (roots : List (NestedList κ α)) (first : Nat) (above : List (Row κ α))
    (steps : List (Nat × Nat)) : Prop :=
  ∃ kind entries, EndsAt roots first steps (.list kind entries) ∧ entries ≠ [] ∧
    tally steps.length kind above = entries.length ∧ ∀ other, other ≠ kind → tally steps.length other above = 0

/-- An outline as the rows so far make it, the last of them at the depth of the innermost list. -/
structure Holds (s : Nest κ α) (above : List (Row κ α)) (depth : Nat) : Prop where
  opened_lists : ∃ first steps, s.stack = opened first steps ∧ steps.length = depth ∧
    ∀ steps', steps' <:+ steps → Counts s.roots first above steps'
  tally_deeper : ∀ deeper kind, depth < deeper → tally deeper kind above = 0

section
variable {roots : List (NestedList κ α)} {first : Nat} {steps : List (Nat × Nat)} {above : List (Row κ α)}
  {row : Row κ α}

/-- A change further in, and a deeper row, leave a list what it holds and what is counted. -/
theorem Counts.under {f : List (Entry κ α) → List (Entry κ α)} {inner : List (Nat × Nat)}
    (h : Counts roots first above steps) (hdepth : steps.length < row.depth)
    (hf : inner = [] → ∀ entries, (f entries).length = entries.length) :
    Counts (changeAt f roots first (inner ++ steps)) first (row :: above) steps := by
  obtain ⟨kind, entries, hends, hne, hcount, hother⟩ := h
  obtain ⟨g, hlength, hchange⟩ : ∃ g : List (Entry κ α) → List (Entry κ α),
      (∀ entries, (g entries).length = entries.length) ∧
        changeAt f roots first (inner ++ steps) = changeAt g roots first steps := by
    cases inner with
    | nil => exact ⟨f, hf rfl, rfl⟩
    | cons step inner => exact changeAt_append f step inner
  refine ⟨kind, g entries, ?_, ?_, ?_, fun other hkind => ?_⟩
  · rw [hchange]
    exact hends.changed g
  · exact List.ne_nil_of_length_pos (hlength entries ▸ List.length_pos_of_ne_nil hne)
  · rw [tally_cons_deeper hdepth, hcount, hlength]
  · rw [tally_cons_deeper hdepth, hother other hkind]

/-- A row at the end of the list of its depth and kind. -/
theorem Counts.push (h : Counts roots first above steps) (hdepth : steps.length = row.depth)
    (hkind : (listAt roots first steps).map NestedList.kind = some row.kind) :
    Counts (changeAt (· ++ [.entry row.content []]) roots first steps) first (row :: above) steps := by
  obtain ⟨kind, entries, hends, hne, hcount, hother⟩ := h
  rw [hends.listAt_eq] at hkind
  obtain rfl : kind = row.kind := Option.some.inj hkind
  refine ⟨row.kind, entries ++ [.entry row.content []], hends.changed _, by simp, ?_, fun other hne => ?_⟩
  · rw [hdepth, tally_cons_same, ← hdepth, hcount, List.length_append, List.length_singleton]
  · rw [hdepth, tally_cons_other hne]

/-- A list started by a row holds what is counted. -/
theorem counts_started (hends : EndsAt roots first steps (.list row.kind [.entry row.content []]))
    (hdepth : steps.length = row.depth) (hnone : tally row.depth row.kind above = 0) :
    Counts roots first (row :: above) steps := by
  refine ⟨row.kind, _, hends, List.cons_ne_nil _ _, ?_, fun other hne => ?_⟩
  · rw [hdepth, tally_cons_same, hnone, List.length_singleton]
  · rw [hdepth, tally_cons_other hne]

/-- An outline reads as before, and then the row, numbered. -/
def Adds (write : Nat → κ → Nat → α → β) (roots : List (NestedList κ α)) (above : List (Row κ α))
    (row : Row κ α) (s : Nest κ α) : Prop :=
  Holds s (row :: above) row.depth ∧
    rows write 0 s.roots =
      rows write 0 roots ++ [write row.depth row.kind (tally row.depth row.kind above + 1) row.content]

theorem tally_cons_eq_zero {deeper : Nat} (kind : κ) (h : row.depth < deeper) :
    tally deeper kind (row :: above) = 0 := tally_cons_shallower h

/-- The row goes on the list of its depth and kind. -/
theorem push_adds (write : Nat → κ → Nat → α → β)
    (hcounts : ∀ steps', steps' <:+ steps → Counts roots first above steps') (hdepth : steps.length = row.depth)
    (hkind : (listAt roots first steps).map NestedList.kind = some row.kind) :
    Adds write roots above row
      ⟨changeAt (· ++ [.entry row.content []]) roots first steps, opened first steps⟩ := by
  have hlast := hcounts steps (List.suffix_refl steps)
  refine ⟨⟨⟨first, steps, rfl, hdepth, fun steps' hsuffix => ?_⟩, fun _ kind => tally_cons_eq_zero kind⟩, ?_⟩
  · obtain ⟨inner, rfl⟩ := hsuffix
    cases inner with
    | nil => exact hlast.push hdepth hkind
    | cons step inner =>
      refine (hcounts steps' ⟨step :: inner, rfl⟩).under ?_ nofun
      rw [← hdepth, List.length_append, List.length_cons]
      omega
  · obtain ⟨kind, entries, hends, -, hcount, -⟩ := hlast
    rw [hends.listAt_eq] at hkind
    obtain rfl : kind = row.kind := Option.some.inj hkind
    obtain ⟨before, hrows, hchanged⟩ := hends.rows_eq write
    rw [hchanged, hrows, NestedList.onEntries, listRows, listRows, entriesRows_append,
      entriesRows_singleton, entryRows, rows, ← hdepth, hcount, List.append_assoc, Nat.add_comm 1]

/-- The row starts a list inside the last entry of the innermost list that is left. -/
theorem start_inside_adds (write : Nat → κ → Nat → α → β)
    (hcounts : ∀ steps', steps' <:+ steps → Counts roots first above steps')
    (hdepth : row.depth = steps.length + 1) (hnone : tally row.depth row.kind above = 0) :
    Adds write roots above row (Nest.start ⟨roots, opened first steps⟩ row) := by
  obtain ⟨kind, entries, hends, hne, -, -⟩ := hcounts steps (List.suffix_refl steps)
  obtain ⟨stack, hstack⟩ := opened_eq_cons first steps
  obtain ⟨earlier, last, rfl⟩ := (List.eq_nil_or_concat' entries).resolve_left hne
  obtain ⟨content, nested⟩ := last
  set list : NestedList κ α := .list row.kind [.entry row.content []] with hlist
  have hstep : Nest.nextStep ⟨roots, opened first steps⟩ ⟨first, steps⟩ =
      some (earlier.length, nested.length) := by
    simp [Nest.nextStep, hends.listAt_eq, NestedList.entries, Entry.nested]
  have hstart : Nest.start ⟨roots, opened first steps⟩ row =
      ⟨changeAt (fun entries => entries.modify earlier.length (Entry.onNested (· ++ [list]))) roots first steps,
        opened first ((earlier.length, nested.length) :: steps)⟩ := by
    have htop : (opened first steps).head? = some (steps.length, ⟨first, steps⟩) := by
      rw [hstack, List.head?_cons]
    simp only [Nest.start, htop, Option.bind_some, hstep, Option.map_some, opened, Place.inside, hdepth, hlist]
  have hmodify : (earlier ++ [Entry.entry content nested]).modify earlier.length
      (Entry.onNested (· ++ [list])) = earlier ++ [.entry content (nested ++ [list])] := by
    rw [modify_concat, Entry.onNested]
  have hinner := hends.changed fun entries => entries.modify earlier.length (Entry.onNested (· ++ [list]))
  rw [NestedList.onEntries, hmodify] at hinner
  rw [hstart]
  refine ⟨⟨⟨first, _, rfl, hdepth.symm, fun steps' hsuffix => ?_⟩, fun _ kind => tally_cons_eq_zero kind⟩, ?_⟩
  · rcases List.suffix_cons_iff.mp hsuffix with rfl | ⟨inner, rfl⟩
    · exact counts_started (.inside steps kind earlier content nested list hinner) hdepth.symm hnone
    · refine (hcounts steps' ⟨inner, rfl⟩).under ?_ fun _ entries => List.length_modify ..
      rw [hdepth, List.length_append]
      omega
  · obtain ⟨before, hrows, hchanged⟩ := hends.rows_eq write
    rw [hchanged, hrows, NestedList.onEntries, hmodify, hnone, hdepth, hlist]
    simp only [listRows, entriesRows_append, entriesRows, entryRows, rows_append, rows, List.append_nil,
      List.append_assoc, List.cons_append, Nat.zero_add]

/-- The row starts an outermost list. -/
theorem start_outermost_adds (write : Nat → κ → Nat → α → β) (hdepth : row.depth = 0)
    (hnone : tally row.depth row.kind above = 0) :
    Adds write roots above row (Nest.start ⟨roots, []⟩ row) := by
  refine ⟨⟨⟨roots.length, [], ?_, hdepth.symm, fun steps' hsuffix => ?_⟩,
    fun _ kind => tally_cons_eq_zero kind⟩, ?_⟩
  · rw [opened, ← hdepth]
    rfl
  · obtain rfl := List.suffix_nil.mp hsuffix
    exact counts_started (.here roots _ rfl rfl) hdepth.symm hnone
  · rw [hnone]
    change rows write 0 (roots ++ [_]) = _
    rw [rows_append, rows_singleton, listRows, entriesRows_singleton, entryRows, rows, hdepth]

/-- **What putting a row in does**: the outline reads as before, and then the row. -/
theorem add_adds (write : Nat → κ → Nat → α → β) {s : Nest κ α} {depth : Nat} (h : Holds s above depth)
    (hstep : row.depth ≤ depth + 1) : Adds write s.roots above row (s.add row) := by
  obtain ⟨⟨first, steps, hstack, hlength, hcounts⟩, hdeeper⟩ := h
  obtain ⟨roots, stack⟩ := s
  obtain rfl : stack = opened first steps := hstack
  rcases Nat.lt_or_ge depth row.depth with hlt | hge
  · -- one deeper than the row before: no list is left, and none counts anything at that depth
    have hdepth : row.depth = steps.length + 1 := by omega
    obtain ⟨rest, hcons⟩ := opened_eq_cons first steps
    have hdrop : (opened first steps).dropWhile (fun top => decide (row.depth < top.1)) = opened first steps := by
      rw [hcons, List.dropWhile_cons, if_neg (by simp [hdepth])]
    have hadd : Nest.add ⟨roots, opened first steps⟩ row = Nest.start ⟨roots, opened first steps⟩ row := by
      rw [Nest.add, hdrop, hcons]
      exact if_neg (by simp only; omega)
    rw [hadd]
    exact start_inside_adds write hcounts hdepth (hdeeper _ _ hlt)
  · obtain ⟨inner, left, rfl, hleft, hdrop⟩ := dropWhile_opened first (hlength ▸ hge)
    have hcounts' : ∀ steps', steps' <:+ left → Counts roots first above steps' :=
      fun steps' hsuffix => hcounts steps' (hsuffix.trans (List.suffix_append inner left))
    obtain ⟨kind, entries, hends, hne, hcount, hother⟩ := hcounts' left (List.suffix_refl left)
    have hkindAt : (listAt roots first left).map NestedList.kind = some kind := by
      rw [hends.listAt_eq, Option.map_some, NestedList.kind]
    by_cases hkind : kind = row.kind
    · obtain ⟨rest, hcons⟩ := opened_eq_cons first left
      have hadd : Nest.add ⟨roots, opened first (inner ++ left)⟩ row =
          ⟨changeAt (· ++ [.entry row.content []]) roots first left, opened first left⟩ := by
        rw [Nest.add, hdrop, hcons]
        simp only [hleft, hkindAt, hkind, if_true]
      rw [hadd]
      exact push_adds write hcounts' hleft (hkindAt.trans (congrArg some hkind))
    · have hnone : tally row.depth row.kind above = 0 := hleft ▸ hother row.kind (Ne.symm hkind)
      have hsome : some kind ≠ some row.kind := fun h => hkind (Option.some.inj h)
      cases left with
      | nil =>
        have hadd : Nest.add ⟨roots, opened first (inner ++ [])⟩ row = Nest.start ⟨roots, []⟩ row := by
          rw [Nest.add, hdrop, opened]
          simp only [← hleft, List.length_nil, hkindAt, hsome, if_true, if_false]
        rw [hadd]
        exact start_outermost_adds write hleft.symm hnone
      | cons step left =>
        have hadd : Nest.add ⟨roots, opened first (inner ++ step :: left)⟩ row =
            Nest.start ⟨roots, opened first left⟩ row := by
          rw [Nest.add, hdrop, opened]
          simp only [← hleft, List.length_cons, hkindAt, hsome, if_true, if_false]
        rw [hadd]
        exact start_inside_adds write
          (fun steps' hsuffix => hcounts' steps' (hsuffix.trans (List.suffix_cons step left))) hleft.symm hnone

end

/-- Rows put in after others read, after them, as they number themselves. -/
theorem rows_foldl_add (write : Nat → κ → Nat → α → β) {below above : List (Row κ α)} {s : Nest κ α}
    {depth : Nat} (h : Holds s above depth) (hstepped : Stepped (depth + 1) below) :
    rows write 0 (below.foldl Nest.add s).roots = rows write 0 s.roots ++ numbered write above below := by
  induction below generalizing s above depth with
  | nil => rw [List.foldl_nil, numbered, List.append_nil]
  | cons row below ih =>
    obtain ⟨holds, reads⟩ := add_adds write h hstepped.1
    rw [List.foldl_cons, ih holds hstepped.2, reads, numbered, List.append_assoc, List.singleton_append]

/-- **Reading out what rows made gives the rows**, numbered, where each follows from the one before it. -/
theorem rows_nest (write : Nat → κ → Nat → α → β) {below : List (Row κ α)} (h : Stepped 0 below) :
    rows write 0 (nest below) = numbered write [] below := by
  cases below with
  | nil => rfl
  | cons row below =>
    obtain ⟨holds, reads⟩ :=
      (start_outermost_adds write (Nat.le_zero.mp h.1) rfl : Adds write [] [] row (Nest.start ⟨[], []⟩ row))
    rw [nest, List.foldl_cons]
    change rows write 0 (below.foldl Nest.add (Nest.start ⟨[], []⟩ row)).roots = _
    rw [rows_foldl_add write holds h.2, reads, numbered]
    rfl

theorem numbered_append (write : Nat → κ → Nat → α → β) (above rows rows' : List (Row κ α)) :
    numbered write above (rows ++ rows') =
      numbered write above rows ++ numbered write (rows.reverse ++ above) rows' := by
  induction rows generalizing above with
  | nil => rfl
  | cons row rows ih =>
    rw [List.cons_append, numbered, numbered, ih, List.reverse_cons, List.append_assoc, List.singleton_append,
      List.cons_append]

end

end Stoop.Lib.Outline
