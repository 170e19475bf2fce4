import Stoop.Editor.Lines

/-!
# The phone's lists, as they look and as they are sent

A line of the phone's field has a block (`BlockInfo`, `BlockBox`), which every way of making one normalises:
four levels, and none off a list. After an edit `normaliseDepths` holds each list line to one level deeper than
the one before; `marker` counts a numbered line's number back over the lines before it; `Document.lines` hands
the lines over with their groups numbered. The Kotlin and the Swift are the same walks
(`richtext/EditorBlocks.kt`, `Editor/EditorBlocks.swift`).

The text is taken as its lines. The empty last line after a line break has no character: it reads as a
paragraph, and `normaliseDepths`, which passes over it, has nothing after it.

`field_list_sent`: levelling again changes nothing, what `linesToDoc` leaves is left, the document is the same
before and after, and a numbered line shows the number it is written with.
-/

set_option autoImplicit false

namespace Stoop.Editor.Phone

open Stoop.Lib.Outline

/-! ## Blocks -/

/-- `MAX_DEPTH`. -/
def maxDepth : Int := 3

structure BlockInfo where
  block : Block
  depth : Int
  group : Int
  lang : Option Text
  deriving DecidableEq, Repr

def BlockInfo.normalised (b : BlockInfo) : BlockInfo where
  block := b.block
  depth := if b.block.isList then max 0 (min b.depth maxDepth) else 0
  group := if b.block = .code then b.group else 0
  lang := if b.block = .code then b.lang else none

theorem normalised_normalised (b : BlockInfo) : b.normalised.normalised = b.normalised := by
  simp only [BlockInfo.normalised]
  split <;> split <;> simp
  all_goals unfold maxDepth; omega

/-- The block of a line: a normalised one. -/
structure LineBlock extends BlockInfo where
  isNormalised : toBlockInfo.normalised = toBlockInfo
  deriving DecidableEq

namespace LineBlock

def make (b : BlockInfo) : LineBlock := ⟨b.normalised, normalised_normalised b⟩

/-- `with`: the block at another level. -/
def withDepth (b : LineBlock) (depth : Int) : LineBlock := make { b.toBlockInfo with depth }

def isList (b : LineBlock) : Bool := b.block.isList

variable {b : LineBlock}

theorem depth_bounds (b : LineBlock) : 0 ≤ b.depth ∧ b.depth ≤ 3 := by
  have h := congrArg BlockInfo.depth b.isNormalised
  simp only [BlockInfo.normalised, maxDepth] at h
  split at h <;> omega

theorem group_eq (h : b.isList = true) : b.group = 0 := by
  have hgroup := congrArg BlockInfo.group b.isNormalised
  simp only [BlockInfo.normalised] at hgroup
  rw [← hgroup, if_neg]
  intro hcode
  rw [isList, hcode] at h
  contradiction

theorem lang_eq (h : b.isList = true) : b.lang = none := by
  have hlang := congrArg BlockInfo.lang b.isNormalised
  simp only [BlockInfo.normalised] at hlang
  rw [← hlang, if_neg]
  intro hcode
  rw [isList, hcode] at h
  contradiction

theorem withDepth_depth (b : LineBlock) : b.withDepth b.depth = b := by
  cases b with
  | mk info h => simp only [withDepth, make, h]

/-- A list line at another level. -/
theorem withDepth_of_isList (h : b.isList = true) {depth : Int} (hnonneg : 0 ≤ depth) (hle : depth ≤ 3) :
    (b.withDepth depth).toBlockInfo = { b.toBlockInfo with depth } := by
  have hlist : b.block.isList = true := h
  have hcode : b.block ≠ .code := by
    intro hcode
    rw [hcode] at hlist
    contradiction
  simp only [withDepth, make, BlockInfo.normalised, hlist, hcode, if_true, if_false, group_eq h, lang_eq h,
    maxDepth]
  rw [Int.min_eq_left hle, Int.max_eq_right hnonneg]

end LineBlock

structure Line where
  block : LineBlock
  runs : List EditorRun
  deriving DecidableEq

def Line.isList (line : Line) : Bool := line.block.isList

/-! ## Levels -/

/-- The walk of `normaliseDepths` from a line on: the lines, and the numbers of those changed. -/
def normaliseDepthsFrom (before : Int) (index : Nat) : List Line → List Line × List Nat
  | [] => ([], [])
  | line :: lines =>
    if line.block.isList then
      let depth := min line.block.depth (before + 1)
      let (rest, changed) := normaliseDepthsFrom depth (index + 1) lines
      if depth = line.block.depth then (line :: rest, changed)
      else ({ line with block := line.block.withDepth depth } :: rest, index :: changed)
    else
      let (rest, changed) := normaliseDepthsFrom (-1) (index + 1) lines
      (line :: rest, changed)

def normaliseDepths (text : List Line) : List Line × List Nat := normaliseDepthsFrom (-1) 0 text

/-! ## Markers -/

/-- The loop of `marker`, back over the lines before, latest first. -/
def countBack (depth : Int) (number : Nat) : List LineBlock → Nat
  | [] => number
  | b :: back =>
    if b.isList && decide (depth ≤ b.depth) then
      if b.depth = depth then
        if b.block = .ordered then countBack depth (number + 1) back else number
      else countBack depth number back
    else number

def bullets : List Text := [['•'], ['◦'], ['▪'], ['•']]

/-- The marker drawn at a line, if any; there is none past the end. -/
def marker (blocks : List LineBlock) (index : Nat) : Option Text := do
  let block ← blocks[index]?
  if !block.isList then none
  else if block.block = .bullet then bullets[(min block.depth 3).toNat]?
  else some (numeral (countBack block.depth 1 (blocks.take index).reverse) ++ ['.'])

example : marker [.make ⟨.ordered, 0, 0, none⟩, .make ⟨.bullet, 1, 0, none⟩, .make ⟨.ordered, 0, 0, none⟩] 2 =
    some ['2', '.'] := by decide

/-! ## Lines out -/

inductive Family
  | paragraph
  | quote
  | list
  | code
  deriving DecidableEq, Repr

def family : Block → Family
  | .paragraph => .paragraph
  | .quote => .quote
  | .bullet | .ordered => .list
  | .code => .code

/-- Whether a line starts a group, after a line of a family and a code block's group, if after any. -/
def startsGroup (previous : Option (Family × Int)) (b : LineBlock) : Bool :=
  match previous with
  | none => true
  | some (previousFamily, previousCode) =>
    family b.block == .paragraph || family b.block != previousFamily ||
      family b.block == .code && previousCode != b.group

def linesFrom (group : Int) (previous : Option (Family × Int)) : List Line → List EditorLine
  | [] => []
  | line :: text =>
    let b := line.block
    let group := if startsGroup previous b then group + 1 else group
    ⟨b.block, b.depth, group, b.lang, line.runs⟩ :: linesFrom group (some (family b.block, b.group)) text

/-- `Document.lines`. -/
def lines (text : List Line) : List EditorLine := linesFrom (-1) none text

/-! ## The lines handed over -/

section
variable {b : LineBlock} {group before : Int} {previous : Option (Family × Int)} {text : List Line}

theorem family_of_isList (h : b.isList = true) : family b.block = .list := by
  revert h
  rw [LineBlock.isList]
  cases b.block <;> simp [Block.isList, family]

theorem startsGroup_isList (h : b.isList = true) (code : Int) :
    startsGroup (some (.list, code)) b = false := by
  rw [startsGroup, family_of_isList h]
  rfl

theorem startsGroup_congr {b' : LineBlock} (hblock : b.block = b'.block) (hgroup : b.group = b'.group) :
    startsGroup previous b = startsGroup previous b' := by
  unfold startsGroup
  rw [hblock, hgroup]

theorem linesFrom_cons (line : Line) : linesFrom group previous (line :: text) =
    ⟨line.block.block, line.block.depth, if startsGroup previous line.block then group + 1 else group,
      line.block.lang, line.runs⟩ ::
      linesFrom (if startsGroup previous line.block then group + 1 else group)
        (some (family line.block.block, line.block.group)) text := rfl

theorem linesFrom_append (text' : List Line) : ∃ group' previous',
    linesFrom group previous (text ++ text') =
      linesFrom group previous text ++ linesFrom group' previous' text' := by
  induction text generalizing group previous with
  | nil => exact ⟨group, previous, rfl⟩
  | cons line text ih =>
    obtain ⟨group', previous', heq⟩ := @ih (if startsGroup previous line.block then group + 1 else group)
      (some (family line.block.block, line.block.group))
    exact ⟨group', previous', by rw [List.cons_append, linesFrom_cons, heq, linesFrom_cons, List.cons_append]⟩

/-- List lines side by side are handed over in one group. -/
theorem together_linesFrom (group : Int) (previous : Option (Family × Int)) (text : List Line) :
    Together (linesFrom group previous text) := by
  induction text generalizing group previous with
  | nil => exact .nil
  | cons line text ih =>
    rw [linesFrom_cons, Together, List.isChain_cons]
    refine ⟨fun next hnext hline hlist => ?_, ih _ _⟩
    cases text with
    | nil => exact absurd hnext (by simp [linesFrom])
    | cons line' text =>
      rw [linesFrom_cons, List.head?_cons, Option.mem_some_iff] at hnext
      subst hnext
      dsimp only
      rw [family_of_isList hline, startsGroup_isList hlist]
      rfl

theorem normaliseDepthsFrom_plain {line : Line} (h : line.block.isList = false) (index : Nat) :
    normaliseDepthsFrom before index (line :: text) =
      (line :: (normaliseDepthsFrom (-1) (index + 1) text).1, (normaliseDepthsFrom (-1) (index + 1) text).2) := by
  rw [normaliseDepthsFrom, if_neg (ne_true_of_eq_false h)]

/-- A list line is put at the level it is held to. -/
theorem normaliseDepthsFrom_listed {line : Line} (h : line.block.isList = true) (index : Nat) :
    (normaliseDepthsFrom before index (line :: text)).1 =
      { line with block := line.block.withDepth (min line.block.depth (before + 1)) } ::
        (normaliseDepthsFrom (min line.block.depth (before + 1)) (index + 1) text).1 := by
  rw [normaliseDepthsFrom, if_pos h]
  by_cases hsame : min line.block.depth (before + 1) = line.block.depth
  · simp only [hsame, if_true, LineBlock.withDepth_depth]
  · simp only [hsame, if_false]

theorem normaliseDepthsFrom_level {line : Line} (h : line.block.isList = true)
    (hlevel : line.block.depth ≤ before + 1) (index : Nat) :
    normaliseDepthsFrom before index (line :: text) =
      (line :: (normaliseDepthsFrom line.block.depth (index + 1) text).1,
        (normaliseDepthsFrom line.block.depth (index + 1) text).2) := by
  have hsame : min line.block.depth (before + 1) = line.block.depth := Int.min_eq_left hlevel
  rw [normaliseDepthsFrom, if_pos h]
  simp only [hsame, if_true]

theorem heldDepth_eq (hbefore : -1 ≤ before) (b : LineBlock) :
    heldDepth before b.depth = min b.depth (before + 1) := by
  have hbounds := b.depth_bounds
  unfold heldDepth maxListDepth
  omega

/-- A line as it is put at its level. -/
theorem leveled_block (hbefore : -1 ≤ before) (h : b.isList = true) :
    (b.withDepth (min b.depth (before + 1))).toBlockInfo =
      { b.toBlockInfo with depth := heldDepth before b.depth } := by
  have hbounds := b.depth_bounds
  rw [heldDepth_eq hbefore]
  exact LineBlock.withDepth_of_isList h (by omega) (by omega)

/-- **What `normaliseDepths` leaves is what `linesToDoc` would level to.** -/
theorem linesFrom_normaliseDepthsFrom (hbefore : -1 ≤ before) (index : Nat) :
    linesFrom group previous (normaliseDepthsFrom before index text).1 =
      settled before (linesFrom group previous text) := by
  induction text generalizing group previous before index with
  | nil => rfl
  | cons line text ih =>
    rw [linesFrom_cons]
    cases h : line.block.isList with
    | false =>
      have hplain : line.block.block.isList = false := h
      simp only [settled, EditorLine.isList, hplain, normaliseDepthsFrom_plain h, linesFrom_cons,
        ih (Int.le_refl _), Bool.false_eq_true, if_false]
    | true =>
      have hinfo := leveled_block hbefore h
      have hblock := congrArg BlockInfo.block hinfo
      have hgroup := congrArg BlockInfo.group hinfo
      have hnext : -1 ≤ min line.block.depth (before + 1) := by
        have := line.block.depth_bounds
        omega
      have hlisted : line.block.block.isList = true := h
      rw [normaliseDepthsFrom_listed h, linesFrom_cons, ih hnext]
      simp only [settled, EditorLine.isList, hlisted, if_true, startsGroup_congr hblock hgroup, hinfo,
        heldDepth_eq hbefore]

/-- **Levelling again changes nothing.** -/
theorem normaliseDepthsFrom_again (hbefore : -1 ≤ before) (index : Nat) :
    normaliseDepthsFrom before index (normaliseDepthsFrom before index text).1 =
      ((normaliseDepthsFrom before index text).1, []) := by
  induction text generalizing before index with
  | nil => rfl
  | cons line text ih =>
    cases h : line.block.isList with
    | false => rw [normaliseDepthsFrom_plain h, normaliseDepthsFrom_plain h, ih (Int.le_refl _)]
    | true =>
      have hbounds := line.block.depth_bounds
      obtain ⟨leveled, hleveled⟩ : ∃ leveled : Line,
          leveled = { line with block := line.block.withDepth (min line.block.depth (before + 1)) } := ⟨_, rfl⟩
      have hdepth : leveled.block.depth = min line.block.depth (before + 1) := by
        rw [hleveled]
        exact (congrArg BlockInfo.depth (leveled_block hbefore h)).trans (heldDepth_eq hbefore _)
      have hlist : leveled.block.isList = true := hleveled ▸ h
      rw [normaliseDepthsFrom_listed h, ← hleveled,
        normaliseDepthsFrom_level hlist (hdepth ▸ Int.min_le_right ..), hdepth, ih (by omega)]

/-- A line that comes out at its level comes out as it was. -/
theorem normaliseDepthsFrom_kept (hbefore : -1 ≤ before) (index : Nat) {i : Nat} {line : Line}
    (hline : text[i]? = some line) :
    ∃ line', (normaliseDepthsFrom before index text).1[i]? = some line' ∧
      (line'.block.depth = line.block.depth → line' = line) := by
  induction text generalizing before index i with
  | nil => contradiction
  | cons first text ih =>
    have hbounds := first.block.depth_bounds
    cases h : first.block.isList with
    | false =>
      rw [normaliseDepthsFrom_plain h]
      cases i with
      | zero => exact ⟨line, hline, fun _ => rfl⟩
      | succ i => exact ih (Int.le_refl _) (index + 1) hline
    | true =>
      rw [normaliseDepthsFrom_listed h]
      cases i with
      | zero =>
        obtain rfl : first = line := Option.some.inj hline
        refine ⟨_, rfl, fun hdepth => ?_⟩
        have hsame : min first.block.depth (before + 1) = first.block.depth := by
          rw [← heldDepth_eq hbefore]
          exact (congrArg BlockInfo.depth (leveled_block hbefore h)).symm.trans hdepth
        rw [hsame, LineBlock.withDepth_depth]
      | succ i => exact ih (by omega) (index + 1) hline

end

/-! ## Numbers -/

section
variable {text above back : List Line} {group : Int} {previous : Option (Family × Int)}

/-- A line's row, as the list that holds it has it. -/
def lineRow (line : Line) : Row ListKind (List InlineNode) :=
  ⟨line.block.depth.toNat, listType line.block.block, paragraph line.runs⟩

/-- What comes of a line handed over does not go by its group. -/
theorem map_linesFrom {γ : Type} (f : EditorLine → γ) (g : Line → γ)
    (h : ∀ line group, f ⟨line.block.block, line.block.depth, group, line.block.lang, line.runs⟩ = g line)
    (group : Int) (previous : Option (Family × Int)) (text : List Line) :
    (linesFrom group previous text).map f = text.map g := by
  induction text generalizing group previous with
  | nil => rfl
  | cons line text ih => rw [linesFrom_cons, List.map_cons, h, ih, List.map_cons]

theorem listType_eq_ordered {block : Block} : listType block = .orderedList ↔ block = .ordered := by
  unfold listType
  split <;> simp_all

/-- Counting back over lines is counting their rows, as far as they are list lines. -/
theorem countBack_eq {depth : Int} (hdepth : 0 ≤ depth) (number : Nat) (back : List Line) :
    countBack depth number (back.map Line.block) =
      number + tally depth.toNat .orderedList ((back.takeWhile Line.isList).map lineRow) := by
  induction back generalizing number with
  | nil => rfl
  | cons line back ih =>
    have hbounds := line.block.depth_bounds
    rw [List.map_cons, countBack]
    cases h : line.isList with
    | false =>
      have hblock : line.block.isList = false := h
      rw [hblock, Bool.false_and, if_neg Bool.false_ne_true, List.takeWhile_cons_of_neg (ne_true_of_eq_false h)]
      rfl
    | true =>
      have hblock : line.block.isList = true := h
      have hrow : (lineRow line).depth = line.block.depth.toNat := rfl
      rw [List.takeWhile_cons_of_pos h, List.map_cons, tally, hblock, Bool.true_and, hrow]
      rcases Int.lt_trichotomy line.block.depth depth with hlt | heq | hgt
      · have hback : ¬depth ≤ line.block.depth := Int.not_le.mpr hlt
        have hrow : line.block.depth.toNat < depth.toNat := by omega
        simp only [hback, hrow, decide_false, Bool.false_eq_true, if_true, if_false, Nat.add_zero]
      · subst heq
        simp only [Int.le_refl, decide_true, Nat.lt_irrefl, if_true, if_false, lineRow, listType_eq_ordered]
        split
        · rw [ih]
          omega
        · rfl
      · have hback : depth ≤ line.block.depth := Int.le_of_lt hgt
        have hrow : ¬line.block.depth.toNat < depth.toNat ∧ line.block.depth.toNat ≠ depth.toNat := by omega
        simp only [hback, (Int.ne_of_lt hgt).symm, hrow.1, hrow.2, decide_true, if_true, if_false, ih]

theorem rowsAbove_linesFrom (group : Int) (previous : Option (Family × Int)) (above : List Line) :
    rowsAbove (linesFrom group previous above) = (above.reverse.takeWhile Line.isList).map lineRow := by
  have hrows : (linesFrom group previous above).map (fun l => (l.isList, itemRow l)) =
      above.map fun line => (line.isList, lineRow line) :=
    map_linesFrom _ _ (fun _ _ => rfl) group previous above
  have htake : ∀ {γ : Type} (p : γ → Bool) (f : γ → Row ListKind (List InlineNode)) (xs : List γ),
      (xs.takeWhile p).map f = ((xs.map fun x => (p x, f x)).takeWhile Prod.fst).map Prod.snd := by
    intro γ p f xs
    rw [List.takeWhile_map, List.map_map]
    rfl
  rw [rowsAbove, htake, List.map_reverse, hrows, ← List.map_reverse, ← htake]

/-- The marker of a numbered line is the number its row has. -/
theorem marker_eq {line : Line} (hordered : line.block.block = .ordered) (above below : List Line) :
    marker ((above ++ line :: below).map Line.block) above.length =
      some (numeral (tally line.block.depth.toNat .orderedList
        ((above.reverse.takeWhile Line.isList).map lineRow) + 1) ++ ['.']) := by
  have hat : ((above ++ line :: below).map Line.block)[above.length]? = some line.block := by
    rw [List.map_append, List.map_cons]
    simp
  have htake : (((above ++ line :: below).map Line.block).take above.length).reverse =
      above.reverse.map Line.block := by
    simp
  have hlist : line.block.isList = true := by
    rw [LineBlock.isList, hordered]
    rfl
  rw [marker, hat, htake]
  simp only [Option.bind_eq_bind, Option.bind_some, hlist, hordered,
    countBack_eq line.block.depth_bounds.1, Nat.add_comm 1]
  rfl

end

/-! ## What is written -/

section
variable {inline : List InlineNode → Text} {escapeLineStart : Text → Text}

/-- A line with words in it is not left off, nor is what comes before it. -/
theorem rdropWhile_keeps {above rest : List Text} {line : Text} (h : line ≠ []) :
    ∃ rest', (above ++ line :: rest).rdropWhile List.isEmpty = above ++ line :: rest' := by
  have hline : ¬line.isEmpty = true := by simpa using h
  induction rest using List.reverseRecOn with
  | nil => exact ⟨[], by rw [List.rdropWhile_concat_neg _ _ _ hline]⟩
  | append_singleton rest last ih =>
    rw [← List.cons_append, ← List.append_assoc]
    by_cases hlast : last.isEmpty = true
    · rw [List.rdropWhile_concat_pos _ _ _ hlast]
      exact ih
    · rw [List.rdropWhile_concat_neg _ _ _ hlast]
      exact ⟨rest ++ [last], by rw [List.append_assoc, List.cons_append]⟩

theorem markdownLines_linesToDoc {ls : List EditorLine} {above rest : List Text} {line : Text} (hline : line ≠ [])
    (h : writeBlocks inline escapeLineStart (blocksOf ls) = above ++ line :: rest) :
    ∃ rest', markdownLines inline escapeLineStart (linesToDoc ls) = above ++ line :: rest' := by
  have hdoc : linesToDoc ls = blocksOf ls := by
    rw [linesToDoc]
    cases hblocks : blocksOf ls with
    | nil =>
      rw [hblocks, writeBlocks, List.flatMap_nil] at h
      exact absurd h (by simp)
    | cons node nodes => rfl
  rw [markdownLines, hdoc, h]
  exact rdropWhile_keeps hline

/-- A numbered line is written as it is drawn: indented to its level, its number before its words. -/
theorem ordered_written {text : List Line} (hlevel : (normaliseDepths text).1 = text) {above below : List Line}
    {line : Line} (htext : text = above ++ line :: below) (hordered : line.block.block = .ordered) :
    ∃ drawn rest, marker (text.map Line.block) above.length = some drawn ∧
      markdownLines inline escapeLineStart (linesToDoc (lines text)) =
        writeBlocks inline escapeLineStart (blocksOf (lines above)) ++
          (indent line.block.depth.toNat ++ (drawn ++ [' ']) ++ inline (paragraph line.runs)) :: rest := by
  obtain ⟨group, previous, hlines⟩ :
      ∃ group previous, lines text = lines above ++ linesFrom group previous (line :: below) := by
    rw [htext]
    exact linesFrom_append (line :: below)
  have htogether : Together (lines text) := together_linesFrom (-1) none text
  have hsettled : settled (-1) (lines text) = lines text := by
    rw [lines, ← linesFrom_normaliseDepthsFrom (Int.le_refl _) 0]
    exact congrArg (linesFrom (-1) none) hlevel
  rw [linesFrom_cons] at hlines
  rw [hlines] at htogether hsettled
  have hlist : line.block.block.isList = true := by
    rw [hordered]
    rfl
  obtain ⟨rest, hwrites⟩ :=
    @writeBlocks_item inline escapeLineStart _ (lines above) _ htogether hlist hsettled
  have htype : listType line.block.block = .orderedList := listType_eq_ordered.mpr hordered
  have hrows : rowsAbove (lines above) = (above.reverse.takeWhile Line.isList).map lineRow :=
    rowsAbove_linesFrom (-1) none above
  rw [← hlines, htype] at hwrites
  have hitem : ∀ n content, itemText inline line.block.depth.toNat .orderedList n content =
      indent line.block.depth.toNat ++ ((numeral n ++ ['.']) ++ [' ']) ++ inline content := by
    intro n content
    rw [itemText, List.append_assoc (numeral n)]
    rfl
  obtain ⟨rest', hkept⟩ := markdownLines_linesToDoc (by rw [hitem]; simp) hwrites
  have hmarker := marker_eq hordered above below
  rw [← htext, ← hrows] at hmarker
  exact ⟨_, rest', hmarker, by rw [hkept, hitem]⟩

/-- **The phone's list looks as it is sent.** -/
theorem field_list_sent (inline : List InlineNode → Text) (escapeLineStart : Text → Text) (text : List Line) :
    normaliseDepths (normaliseDepths text).1 = ((normaliseDepths text).1, []) ∧
    (∀ (i : Nat) (line : Line), text[i]? = some line →
      (relevelled (lines text))[i]?.map EditorLine.depth = some line.block.depth →
      (normaliseDepths text).1[i]? = some line) ∧
    relevelled (lines (normaliseDepths text).1) = lines (normaliseDepths text).1 ∧
    linesToDoc (lines (normaliseDepths text).1) = linesToDoc (lines text) ∧
    ((normaliseDepths text).1 = text → ∀ (above : List Line) (line : Line) (below : List Line),
      text = above ++ line :: below → line.block.block = .ordered →
        ∃ drawn rest, marker (text.map Line.block) above.length = some drawn ∧
          markdownLines inline escapeLineStart (linesToDoc (lines text)) =
            writeBlocks inline escapeLineStart (blocksOf (lines above)) ++
              (indent line.block.depth.toNat ++ (drawn ++ [' ']) ++ inline (paragraph line.runs)) :: rest) := by
  have hagain : normaliseDepths (normaliseDepths text).1 = ((normaliseDepths text).1, []) :=
    normaliseDepthsFrom_again (Int.le_refl _) 0
  have hlevel : ∀ text, relevelled (lines text) = lines (normaliseDepths text).1 := by
    intro text
    exact (relevelled_eq (together_linesFrom (-1) none text)).trans
      (linesFrom_normaliseDepthsFrom (Int.le_refl _) 0).symm
  have hdepths : ∀ text, (lines text).map EditorLine.depth = text.map (·.block.depth) :=
    map_linesFrom _ _ (fun _ _ => rfl) (-1) none
  refine ⟨hagain, fun i line hline hdepth => ?_, ?_, ?_, fun hsettled above line below htext hordered =>
    ordered_written hsettled htext hordered⟩
  · obtain ⟨line', hline', hkept⟩ := normaliseDepthsFrom_kept (Int.le_refl _) 0 hline
    rw [hlevel, ← List.getElem?_map, hdepths, List.getElem?_map, normaliseDepths, hline'] at hdepth
    rw [normaliseDepths, hline', hkept (Option.some.inj hdepth)]
  · rw [hlevel, hagain]
  · rw [← hlevel, linesToDoc_relevelled]

end

end Stoop.Editor.Phone
