import Mathlib.Data.List.Chain
import Mathlib.Data.List.DropRight
import Stoop.Lib.Outline

/-!
# Editor lines as a document, and what it writes

The phone's editor hands over lines, each with its block (`EditorLine`). `linesToDoc`
(`web/src/core/editor/lines.ts`) makes the document of them, lists nested by their lines' levels, and
`toMarkdown` (`web/src/core/editor/markdown.ts`) writes it. The words of one line are written by `inline`, and
kept from reading as a block by `escapeLineStart`: neither looks past its line, and nothing here depends on
what they write, so both are any functions.

## Lists

`lists` holds each line to one level deeper than the line before (`held`), and nests. `written_lists`: what a
list writes is its lines, in turn, each with its number.

## Pieces

`linesToDoc` takes lines piece by piece (`chunks`). `chunks_append`: lines after one that is no list item,
starting with one that is, are taken by themselves. `relevelled` is `linesToDoc`'s levelling alone.
-/

set_option autoImplicit false

namespace Stoop.Editor

open Stoop.Lib.Outline

abbrev Text := List Char

/-! ## Lines -/

inductive Block
  | paragraph
  | quote
  | bullet
  | ordered
  | code
  deriving DecidableEq, Repr

def Block.isList (block : Block) : Bool := block == .bullet || block == .ordered

inductive EditorMark
  | bold
  | italic
  | underline
  | strike
  | code
  | spoiler
  deriving DecidableEq, Repr

inductive MentionKind
  | person
  | group
  | channel
  deriving DecidableEq, Repr

structure MentionRef where
  kind : MentionKind
  id : Text
  handle : Text
  deriving DecidableEq, Repr

inductive EditorRun
  | text (text : Text) (marks : List EditorMark) (href : Option Text)
  | mention (mention : MentionRef) (marks : List EditorMark)
  deriving DecidableEq, Repr

structure EditorLine where
  block : Block
  depth : Int
  group : Int
  lang : Option Text
  runs : List EditorRun
  deriving DecidableEq, Repr

def EditorLine.isList (l : EditorLine) : Bool := l.block.isList

/-! ## The document -/

inductive Mark
  | format (type : EditorMark)
  | link (href : Text)
  deriving DecidableEq, Repr

/-- What a paragraph holds. -/
inductive InlineNode
  | text (text : Text) (marks : List Mark)
  | mention (attrs : MentionRef) (marks : List Mark)
  deriving DecidableEq, Repr

inductive ListKind
  | bulletList
  | orderedList
  deriving DecidableEq, Repr

/-- A block of the document; a list's items hold a paragraph each, and the lists inside them. -/
inductive DocNode
  | paragraph (content : List InlineNode)
  | blockquote (paragraphs : List (List InlineNode))
  | list (list : NestedList ListKind (List InlineNode))
  | codeBlock (language : Option Text) (text : Text)

def runText : EditorRun → Text
  | .text text _ _ => text
  | .mention _ _ => []

/-- A link's mark; an empty address makes none. -/
def linkMark : Option Text → List Mark
  | none => []
  | some href => if href.isEmpty then [] else [.link href]

def inlineNodes : EditorRun → List InlineNode
  | .text text marks href => if text.isEmpty then [] else [.text text (marks.map .format ++ linkMark href)]
  | .mention mention marks => [.mention mention (marks.map .format)]

def paragraph (runs : List EditorRun) : List InlineNode := runs.flatMap inlineNodes

/-! ## Nesting -/

/-- `MAX_LIST_DEPTH`. -/
def maxListDepth : Int := 3

/-- The loop's `l`: each line with its level held to one deeper than the line before, to four levels and to
none below the first. -/
def held (before : Int) : List EditorLine → List EditorLine
  | [] => []
  | line :: lines =>
    let depth := max 0 (min line.depth (min (before + 1) maxListDepth))
    { line with depth } :: held depth lines

def listType (block : Block) : ListKind := if block = .ordered then .orderedList else .bulletList

def itemRow (l : EditorLine) : Row ListKind (List InlineNode) :=
  ⟨l.depth.toNat, listType l.block, paragraph l.runs⟩

/-- `lists`: the stack of open lists is the outline's. -/
def lists (lines : List EditorLine) : List (NestedList ListKind (List InlineNode)) :=
  nest ((held (-1) lines).map itemRow)

/-- Whether a line goes with a piece's first. -/
def joins (first l : EditorLine) : Bool :=
  first.block != .paragraph && l.group == first.group &&
    (l.block == first.block || first.isList && l.isList)

/-- The pieces the loop takes lines by: each one's first line, and those that go with it. -/
def chunks : List EditorLine → List (EditorLine × List EditorLine)
  | [] => []
  | first :: rest => (first, rest.takeWhile (joins first)) :: chunks (rest.dropWhile (joins first))
  termination_by lines => lines.length
  decreasing_by exact Nat.lt_succ_of_le (List.dropWhile_sublist _).length_le

def nodesOf (first : EditorLine) (rest : List EditorLine) : List DocNode :=
  match first.block with
  | .paragraph => [.paragraph (paragraph first.runs)]
  | .quote => [.blockquote ((first :: rest).map fun l => paragraph l.runs)]
  | .code => [.codeBlock first.lang (['\n'].intercalate ((first :: rest).map fun l => l.runs.flatMap runText))]
  | .bullet | .ordered => (lists (first :: rest)).map .list

/-- The document's blocks; lines that are none make none. -/
def blocksOf (lines : List EditorLine) : List DocNode :=
  (chunks lines).flatMap fun piece => nodesOf piece.1 piece.2

def linesToDoc (lines : List EditorLine) : List DocNode :=
  match blocksOf lines with
  | [] => [.paragraph []]
  | content => content

/-- `linesToDoc`'s levelling alone: the lines as its lists hold them. -/
def relevelled (lines : List EditorLine) : List EditorLine :=
  (chunks lines).flatMap fun piece =>
    if piece.1.isList then held (-1) (piece.1 :: piece.2) else piece.1 :: piece.2

/-! ## Markdown -/

def numeral (n : Nat) : Text := (toString n).toList

section
variable (inline : List InlineNode → Text) (escapeLineStart : Text → Text)

def indent (depth : Nat) : Text := (List.replicate (min depth 3) [' ', ' ']).flatten

/-- An item's line; the number only counts where it is written. -/
def itemText (depth : Nat) (type : ListKind) (n : Nat) (content : List InlineNode) : Text :=
  match type with
  | .orderedList => indent depth ++ (numeral n ++ ['.', ' ']) ++ inline content
  | .bulletList => indent depth ++ ['-', ' '] ++ inline content

def quoteText (content : List InlineNode) : Text :=
  if (inline content).isEmpty then ['>'] else ['>', ' '] ++ inline content

def fence : Text := ['\x60', '\x60', '\x60']

/-- `block`: the lines a block writes. -/
def writeBlock : DocNode → List Text
  | .paragraph content => [escapeLineStart (inline content)]
  | .blockquote paragraphs => paragraphs.map (quoteText inline)
  | .list list => listRows (itemText inline) 0 list
  | .codeBlock language text => (fence ++ language.getD []) :: (text.splitOn '\n' ++ [fence])

def writeBlocks (doc : List DocNode) : List Text := doc.flatMap (writeBlock inline escapeLineStart)

/-- The lines of `toMarkdown`, the blank ones at the end left off. -/
def markdownLines (doc : List DocNode) : List Text :=
  (writeBlocks inline escapeLineStart doc).rdropWhile List.isEmpty

def toMarkdown (doc : List DocNode) : Text := ['\n'].intercalate (markdownLines inline escapeLineStart doc)

end

/-! ## Lines held -/

section
variable {before : Int} {line : EditorLine} {lines : List EditorLine}

/-- The level `held` gives a line. -/
def heldDepth (before depth : Int) : Int := max 0 (min depth (min (before + 1) maxListDepth))

theorem held_cons : held before (line :: lines) =
    { line with depth := heldDepth before line.depth } :: held (heldDepth before line.depth) lines := rfl

theorem heldDepth_nonneg (before depth : Int) : 0 ≤ heldDepth before depth := Int.le_max_left ..

theorem heldDepth_le {before : Int} (h : -1 ≤ before) (depth : Int) : heldDepth before depth ≤ before + 1 := by
  unfold heldDepth
  omega

theorem heldDepth_heldDepth (before depth : Int) :
    heldDepth before (heldDepth before depth) = heldDepth before depth := by
  unfold heldDepth
  omega

theorem held_held : held before (held before lines) = held before lines := by
  induction lines generalizing before with
  | nil => rfl
  | cons line lines ih =>
    rw [held_cons, held_cons]
    dsimp only
    rw [heldDepth_heldDepth, ih]

theorem length_held (before : Int) (lines : List EditorLine) : (held before lines).length = lines.length := by
  induction lines generalizing before with
  | nil => rfl
  | cons line lines ih => rw [held_cons, List.length_cons, ih, List.length_cons]

theorem held_append (lines' : List EditorLine) :
    ∃ before', held before (lines ++ lines') = held before lines ++ held before' lines' := by
  induction lines generalizing before with
  | nil => exact ⟨before, rfl⟩
  | cons line lines ih =>
    obtain ⟨before', heq⟩ := @ih (heldDepth before line.depth)
    exact ⟨before', by rw [List.cons_append, held_cons, heq, held_cons, List.cons_append]⟩

/-- The rows of held lines each follow from the one before. -/
theorem stepped_held (h : -1 ≤ before) :
    Stepped (before + 1).toNat ((held before lines).map itemRow) := by
  induction lines generalizing before with
  | nil => trivial
  | cons line lines ih =>
    have hnonneg := heldDepth_nonneg before line.depth
    have hle := heldDepth_le h line.depth
    rw [held_cons, List.map_cons]
    refine ⟨Int.toNat_le_toNat hle, ?_⟩
    have := @ih (heldDepth before line.depth) (by omega)
    rwa [Int.toNat_add hnonneg (by decide)] at this

end

/-! ## What lists write -/

section
variable {inline : List InlineNode → Text} {escapeLineStart : Text → Text}

theorem writeBlocks_append (doc doc' : List DocNode) :
    writeBlocks inline escapeLineStart (doc ++ doc') =
      writeBlocks inline escapeLineStart doc ++ writeBlocks inline escapeLineStart doc' :=
  List.flatMap_append

theorem writeBlocks_lists (ls : List (NestedList ListKind (List InlineNode))) :
    writeBlocks inline escapeLineStart (ls.map .list) = rows (itemText inline) 0 ls := by
  induction ls with
  | nil => rfl
  | cons list ls ih =>
    rw [List.map_cons, writeBlocks, List.flatMap_cons, rows, ← ih]
    rfl

/-- **What a run of list lines writes**: its lines in turn, as they are held, each with its number. -/
theorem written_lists (lines : List EditorLine) :
    writeBlocks inline escapeLineStart ((lists lines).map .list) =
      numbered (itemText inline) [] ((held (-1) lines).map itemRow) := by
  rw [writeBlocks_lists, lists, rows_nest _ (stepped_held (Int.le_refl _))]

end

/-! ## Pieces -/

section
variable {first l : EditorLine} {lines lines' rest : List EditorLine}

theorem chunks_cons (first : EditorLine) (rest : List EditorLine) :
    chunks (first :: rest) = (first, rest.takeWhile (joins first)) :: chunks (rest.dropWhile (joins first)) := by
  rw [chunks]

theorem joins_iff_of_isList (h : first.isList = true) :
    joins first l = true ↔ l.group = first.group ∧ l.isList = true := by
  have hblock : first.block ≠ .paragraph := by
    intro hparagraph
    rw [EditorLine.isList, hparagraph] at h
    contradiction
  simp only [joins, h, Bool.true_and, Bool.and_eq_true, Bool.or_eq_true, bne_iff_ne, beq_iff_eq]
  refine ⟨fun ⟨⟨_, hgroup⟩, hl⟩ => ⟨hgroup, hl.elim (fun heq => ?_) id⟩,
    fun ⟨hgroup, hl⟩ => ⟨⟨hblock, hgroup⟩, .inr hl⟩⟩
  rw [EditorLine.isList, heq]
  exact h

/-- A list item goes with no line that is none. -/
theorem joins_eq_false (hfirst : first.isList = false) (hl : l.isList = true) : joins first l = false := by
  have hblock : (l.block == first.block) = false := by
    refine beq_false_of_ne fun heq => ?_
    rw [EditorLine.isList, heq] at hl
    exact Bool.noConfusion (hl.symm.trans hfirst)
  rw [joins, hblock, hfirst, Bool.false_and, Bool.or_false, Bool.and_false]

/-- The lines so far end with one that is no list item, or are none. -/
def EndsPlain (lines : List EditorLine) : Prop := ∀ l, lines.getLast? = some l → l.isList = false

/-- The lines start with a list item, or are none. -/
def StartsListed (lines : List EditorLine) : Prop := ∀ l, lines.head? = some l → l.isList = true

theorem EndsPlain.dropWhile (h : EndsPlain (first :: rest)) : EndsPlain (rest.dropWhile (joins first)) := by
  intro l hl
  refine h l ?_
  have hsplit : first :: rest = (first :: rest.takeWhile (joins first)) ++ rest.dropWhile (joins first) := by
    rw [List.cons_append, List.takeWhile_append_dropWhile]
  rw [hsplit, List.getLast?_append, hl, Option.some_or]

/-- A run stops at the end of a list when what comes next does not go on with it. -/
theorem takeWhile_append_stop {γ : Type} {p : γ → Bool} {xs ys : List γ}
    (h : (∀ x ∈ xs, p x = true) → ∀ y, ys.head? = some y → p y = false) :
    (xs ++ ys).takeWhile p = xs.takeWhile p ∧ (xs ++ ys).dropWhile p = xs.dropWhile p ++ ys := by
  induction xs with
  | nil =>
    cases ys with
    | nil => exact ⟨rfl, rfl⟩
    | cons y ys =>
      have hy : ¬p y = true := ne_true_of_eq_false (h (fun _ hx => absurd hx List.not_mem_nil) y rfl)
      exact ⟨List.takeWhile_cons_of_neg hy, List.dropWhile_cons_of_neg hy⟩
  | cons x xs ih =>
    rw [List.cons_append]
    by_cases hx : p x = true
    · obtain ⟨htake, hdrop⟩ := ih fun hxs => h (List.forall_mem_cons.mpr ⟨hx, hxs⟩)
      rw [List.takeWhile_cons_of_pos hx, List.takeWhile_cons_of_pos hx, List.dropWhile_cons_of_pos hx,
        List.dropWhile_cons_of_pos hx, htake, hdrop]
      exact ⟨rfl, rfl⟩
    · rw [List.takeWhile_cons_of_neg hx, List.takeWhile_cons_of_neg hx, List.dropWhile_cons_of_neg hx,
        List.dropWhile_cons_of_neg hx, List.cons_append]
      exact ⟨rfl, rfl⟩

/-- A list item does not go on with lines that end with one that is none. -/
theorem joins_after_plain (hplain : EndsPlain (first :: rest)) (hall : ∀ x ∈ rest, joins first x = true)
    (hl : l.isList = true) : joins first l = false := by
  cases hfirst : first.isList with
  | false => exact joins_eq_false hfirst hl
  | true =>
    have hlast := hplain _ (List.getLast?_eq_some_getLast (List.cons_ne_nil first rest))
    rcases List.mem_cons.mp (List.getLast_mem (List.cons_ne_nil first rest)) with heq | hmem
    · rw [heq, hfirst] at hlast
      contradiction
    · rw [((joins_iff_of_isList hfirst).mp (hall _ hmem)).2] at hlast
      contradiction

/-- **Pieces stop at a list's start**: lines after one that is no list item, starting with one that is, are
taken by themselves. -/
theorem chunks_append (hlines : EndsPlain lines) (hlines' : StartsListed lines') :
    chunks (lines ++ lines') = chunks lines ++ chunks lines' := by
  induction lines using chunks.induct with
  | case1 => rw [List.nil_append, chunks, List.nil_append]
  | case2 first rest ih =>
    obtain ⟨htake, hdrop⟩ := @takeWhile_append_stop _ (joins first) rest lines'
      fun hall y hy => joins_after_plain hlines hall (hlines' y hy)
    rw [List.cons_append, chunks_cons, chunks_cons, htake, hdrop, ih hlines.dropWhile, List.cons_append]

end

/-! ## Lists that lie together -/

/-- List items side by side share their group. -/
def Together (lines : List EditorLine) : Prop :=
  lines.IsChain fun a b => a.isList = true → b.isList = true → a.group = b.group

section
variable {first l : EditorLine} {lines lines' rest : List EditorLine} {before : Int}

/-- Where items that lie together share their group, a list's piece is all of them. -/
theorem span_joins {a : EditorLine} (ha : a.isList = true) (hfirst : first.isList = true)
    (hgroup : a.group = first.group) (h : Together (a :: rest)) :
    rest.takeWhile (joins first) = rest.takeWhile EditorLine.isList ∧
      rest.dropWhile (joins first) = rest.dropWhile EditorLine.isList := by
  induction rest generalizing a with
  | nil => exact ⟨rfl, rfl⟩
  | cons b rest ih =>
    obtain ⟨hab, hrest⟩ := List.isChain_cons_cons.mp h
    by_cases hb : b.isList = true
    · have hbgroup : b.group = first.group := (hab ha hb).symm.trans hgroup
      have hjoins : joins first b = true := (joins_iff_of_isList hfirst).mpr ⟨hbgroup, hb⟩
      obtain ⟨htake, hdrop⟩ := ih hb hbgroup hrest
      rw [List.takeWhile_cons_of_pos hjoins, List.takeWhile_cons_of_pos hb, List.dropWhile_cons_of_pos hjoins,
        List.dropWhile_cons_of_pos hb, htake, hdrop]
      exact ⟨rfl, rfl⟩
    · have hjoins : ¬joins first b = true := fun hj => hb ((joins_iff_of_isList hfirst).mp hj).2
      rw [List.takeWhile_cons_of_neg hjoins, List.takeWhile_cons_of_neg hb, List.dropWhile_cons_of_neg hjoins,
        List.dropWhile_cons_of_neg hb]
      exact ⟨rfl, rfl⟩

theorem nodesOf_listed (hfirst : first.isList = true) (rest : List EditorLine) :
    nodesOf first rest = (lists (first :: rest)).map .list := by
  cases hblock : first.block <;> simp_all [nodesOf, EditorLine.isList, Block.isList]

/-- The lines before the first that is no list item make lists. -/
theorem blocksOf_listed (hfirst : first.isList = true) (h : Together (first :: rest)) :
    blocksOf (first :: rest) =
      (lists (first :: rest.takeWhile EditorLine.isList)).map .list ++
        blocksOf (rest.dropWhile EditorLine.isList) := by
  obtain ⟨htake, hdrop⟩ := span_joins hfirst hfirst rfl h
  rw [blocksOf, chunks_cons, htake, hdrop, List.flatMap_cons, nodesOf_listed hfirst]
  rfl

theorem blocksOf_startsListed (hlines : StartsListed lines) (h : Together lines) :
    blocksOf lines =
      (lists (lines.takeWhile EditorLine.isList)).map .list ++
        blocksOf (lines.dropWhile EditorLine.isList) := by
  cases lines with
  | nil => rfl
  | cons first rest =>
    have hfirst : first.isList = true := hlines first rfl
    rw [blocksOf_listed hfirst h, List.takeWhile_cons_of_pos hfirst, List.dropWhile_cons_of_pos hfirst]

theorem blocksOf_append (hlines : EndsPlain lines) (hlines' : StartsListed lines') :
    blocksOf (lines ++ lines') = blocksOf lines ++ blocksOf lines' := by
  rw [blocksOf, chunks_append hlines hlines', List.flatMap_append]
  rfl

/-! ## Levels over all lines -/

/-- Every list item held to one deeper than the item just before it. -/
def settled (before : Int) : List EditorLine → List EditorLine
  | [] => []
  | l :: ls =>
    if l.isList then { l with depth := heldDepth before l.depth } :: settled (heldDepth before l.depth) ls
    else l :: settled (-1) ls

theorem settled_plain_append (hplain : ∀ l ∈ lines, l.isList = false) (hne : lines ≠ []) :
    settled before (lines ++ lines') = lines ++ settled (-1) lines' := by
  induction lines generalizing before with
  | nil => contradiction
  | cons l lines ih =>
    obtain ⟨hl, hlines⟩ := List.forall_mem_cons.mp hplain
    rw [List.cons_append, settled, if_neg (ne_true_of_eq_false hl), List.cons_append]
    cases lines with
    | nil => rfl
    | cons l' lines => rw [ih hlines (List.cons_ne_nil l' lines)]

theorem settled_listed_append (hlisted : ∀ l ∈ lines, l.isList = true)
    (hplain : ∀ l, lines'.head? = some l → l.isList = false) :
    settled before (lines ++ lines') = held before lines ++ settled (-1) lines' := by
  induction lines generalizing before with
  | nil =>
    cases lines' with
    | nil => rfl
    | cons l lines' =>
      have hl := ne_true_of_eq_false (hplain l rfl)
      rw [List.nil_append, held, List.nil_append, settled, if_neg hl, settled, if_neg hl]
  | cons l lines ih =>
    obtain ⟨hl, hlines⟩ := List.forall_mem_cons.mp hlisted
    rw [List.cons_append, settled, if_pos hl, held_cons, ih hlines, List.cons_append]

theorem length_settled (before : Int) (lines : List EditorLine) :
    (settled before lines).length = lines.length := by
  induction lines generalizing before with
  | nil => rfl
  | cons l lines ih =>
    rw [settled]
    split <;> rw [List.length_cons, List.length_cons, ih]

theorem settled_append (hlines : EndsPlain lines) (hstart : lines ≠ [] ∨ before = -1) :
    settled before (lines ++ lines') = settled before lines ++ settled (-1) lines' := by
  induction lines generalizing before with
  | nil =>
    obtain rfl := hstart.resolve_left (· rfl)
    rfl
  | cons l lines ih =>
    have hrest : EndsPlain lines := by
      intro l' hl'
      refine hlines l' ?_
      rw [← List.singleton_append, List.getLast?_append, hl', Option.some_or]
    rw [List.cons_append, settled, settled]
    split
    next hl =>
      have hne : lines ≠ [] := by
        rintro rfl
        exact Bool.noConfusion (hl.symm.trans (hlines l rfl))
      rw [ih hrest (.inl hne), List.cons_append]
    next => rw [ih hrest (.inr rfl), List.cons_append]

theorem head_dropWhile_plain {p : EditorLine → Bool} (h : (lines.dropWhile p).head? = some l) : p l = false := by
  have := List.head?_dropWhile_not p lines
  rw [h] at this
  exact this

theorem relevelled_cons (first : EditorLine) (rest : List EditorLine) :
    relevelled (first :: rest) =
      (if first.isList then held (-1) (first :: rest.takeWhile (joins first))
        else first :: rest.takeWhile (joins first)) ++ relevelled (rest.dropWhile (joins first)) := by
  rw [relevelled, chunks_cons, List.flatMap_cons]
  rfl

/-- **`linesToDoc` levels list items by those just before them**, where they lie together. -/
theorem relevelled_eq (h : Together lines) : relevelled lines = settled (-1) lines := by
  induction lines using chunks.induct with
  | case1 => rw [relevelled, chunks, settled, List.flatMap_nil]
  | case2 first rest ih =>
    have hsuffix : Together (rest.dropWhile (joins first)) :=
      List.IsChain.suffix h ((List.dropWhile_suffix _).trans (List.suffix_cons first rest))
    have hsplit : first :: rest =
        (first :: rest.takeWhile (joins first)) ++ rest.dropWhile (joins first) := by
      rw [List.cons_append, List.takeWhile_append_dropWhile]
    rw [relevelled_cons, ih hsuffix]
    conv => rhs; rw [hsplit]
    by_cases hfirst : first.isList = true
    · obtain ⟨htake, hdrop⟩ := span_joins hfirst hfirst rfl h
      rw [if_pos hfirst, settled_listed_append]
      · intro l hl
        rcases List.mem_cons.mp hl with rfl | hl
        · exact hfirst
        · exact ((joins_iff_of_isList hfirst).mp (List.mem_takeWhile_imp hl)).2
      · intro l hl
        rw [hdrop] at hl
        exact head_dropWhile_plain hl
    · rw [if_neg hfirst, settled_plain_append _ (List.cons_ne_nil _ _)]
      intro l hl
      rcases List.mem_cons.mp hl with rfl | hl
      · exact eq_false_of_ne_true hfirst
      · refine eq_false_of_ne_true fun hlist => ?_
        have := joins_eq_false (eq_false_of_ne_true hfirst) hlist
        rw [List.mem_takeWhile_imp hl] at this
        contradiction

/-! ## Levelled lines -/

/-- Lines of the same blocks and groups. -/
def Alike (lines lines' : List EditorLine) : Prop :=
  lines.map (fun l => (l.block, l.group)) = lines'.map fun l => (l.block, l.group)

theorem joins_congr {first' l' : EditorLine} (hfirst : (first.block, first.group) = (first'.block, first'.group))
    (hl : (l.block, l.group) = (l'.block, l'.group)) : joins first l = joins first' l' := by
  obtain ⟨hb, hg⟩ := Prod.mk.inj hfirst
  obtain ⟨hb', hg'⟩ := Prod.mk.inj hl
  simp only [joins, EditorLine.isList, hb, hg, hb', hg']

theorem alike_held (before : Int) (lines : List EditorLine) : Alike (held before lines) lines := by
  induction lines generalizing before with
  | nil => rfl
  | cons l lines ih => exact congrArg ((l.block, l.group) :: ·) (ih (heldDepth before l.depth))

theorem alike_relevelled (lines : List EditorLine) : Alike (relevelled lines) lines := by
  induction lines using chunks.induct with
  | case1 => rw [relevelled, chunks, List.flatMap_nil, Alike]
  | case2 first rest ih =>
    have hpiece : Alike
        (if first.isList then held (-1) (first :: rest.takeWhile (joins first))
          else first :: rest.takeWhile (joins first)) (first :: rest.takeWhile (joins first)) := by
      split
      · exact alike_held (-1) _
      · exact rfl
    rw [relevelled_cons, Alike, List.map_append, hpiece, ih, ← List.map_append, List.cons_append,
      List.takeWhile_append_dropWhile]

theorem Alike.mem (h : Alike lines lines') {l : EditorLine} (hl : l ∈ lines) :
    ∃ l' ∈ lines', (l.block, l.group) = (l'.block, l'.group) := by
  have hmem : (l.block, l.group) ∈ lines'.map fun l => (l.block, l.group) :=
    h ▸ List.mem_map_of_mem hl
  obtain ⟨l', hl', heq⟩ := List.mem_map.mp hmem
  exact ⟨l', hl', heq.symm⟩

theorem Alike.head (h : Alike lines lines') {l : EditorLine} (hl : lines.head? = some l) :
    ∃ l', lines'.head? = some l' ∧ (l.block, l.group) = (l'.block, l'.group) := by
  have hhead := congrArg List.head? h
  rw [List.head?_map, List.head?_map, hl, Option.map_some] at hhead
  obtain ⟨l', hl', heq⟩ := Option.map_eq_some_iff.mp hhead.symm
  exact ⟨l', hl', heq.symm⟩

/-- Lines alike to a piece, before lines alike to what comes after it, are a piece. -/
theorem chunks_alike {first' : EditorLine} {rest' left : List EditorLine}
    (hpiece : Alike (first' :: rest') (first :: rest.takeWhile (joins first)))
    (hleft : Alike left (rest.dropWhile (joins first))) :
    chunks (first' :: (rest' ++ left)) = (first', rest') :: chunks left := by
  obtain ⟨hfirst, hrest⟩ := List.cons.inj hpiece
  have hall : ∀ x ∈ rest', joins first' x = true := by
    intro x hx
    obtain ⟨y, hy, heq⟩ := Alike.mem hrest hx
    rw [joins_congr hfirst heq]
    exact List.mem_takeWhile_imp hy
  have hstop : ∀ y, left.head? = some y → joins first' y = false := by
    intro y hy
    obtain ⟨z, hz, heq⟩ := hleft.head hy
    rw [joins_congr hfirst heq]
    exact head_dropWhile_plain hz
  obtain ⟨htake, hdrop⟩ := takeWhile_append_stop fun _ => hstop
  rw [chunks_cons, htake, hdrop, List.takeWhile_eq_self_iff.mpr hall, List.dropWhile_eq_nil_iff.mpr hall,
    List.nil_append]

theorem lists_held (lines : List EditorLine) : lists (held (-1) lines) = lists lines := by
  rw [lists, held_held, lists]

/-- **Levelled lines make the same document.** -/
theorem blocksOf_relevelled (lines : List EditorLine) : blocksOf (relevelled lines) = blocksOf lines := by
  induction lines using chunks.induct with
  | case1 => rw [relevelled, chunks, List.flatMap_nil]
  | case2 first rest ih =>
    have hleft := alike_relevelled (rest.dropWhile (joins first))
    rw [relevelled_cons]
    conv => rhs; rw [blocksOf, chunks_cons, List.flatMap_cons, ← blocksOf, ← ih]
    by_cases hfirst : first.isList = true
    · obtain ⟨first', rest', hheld⟩ :
          ∃ first' rest', held (-1) (first :: rest.takeWhile (joins first)) = first' :: rest' := ⟨_, _, rfl⟩
      have halike := alike_held (-1) (first :: rest.takeWhile (joins first))
      rw [hheld] at halike
      have hfirst' : first'.isList = true := by
        rwa [EditorLine.isList, (Prod.mk.inj (List.cons.inj halike).1).1]
      rw [if_pos hfirst, hheld, List.cons_append, blocksOf, chunks_alike halike hleft, List.flatMap_cons,
        nodesOf_listed hfirst', nodesOf_listed hfirst, ← hheld, lists_held]
      rfl
    · rw [if_neg hfirst, List.cons_append, blocksOf, chunks_alike rfl hleft, List.flatMap_cons]
      rfl

theorem linesToDoc_relevelled (lines : List EditorLine) : linesToDoc (relevelled lines) = linesToDoc lines := by
  rw [linesToDoc, blocksOf_relevelled, linesToDoc]

end

/-! ## What an item writes -/

section
variable {inline : List InlineNode → Text} {escapeLineStart : Text → Text}
variable {l : EditorLine} {lines above below : List EditorLine}

/-- The rows of the list items just above, latest first. -/
def rowsAbove (above : List EditorLine) : List (Row ListKind (List InlineNode)) :=
  (above.reverse.takeWhile EditorLine.isList).map itemRow

/-- List items by themselves write what they number themselves as. -/
theorem writeBlocks_listed (hlisted : ∀ l ∈ lines, l.isList = true) (h : Together lines) :
    writeBlocks inline escapeLineStart (blocksOf lines) =
      numbered (itemText inline) [] ((held (-1) lines).map itemRow) := by
  have hstarts : StartsListed lines := fun l hl => hlisted l (List.mem_of_head? hl)
  rw [blocksOf_startsListed hstarts h, List.takeWhile_eq_self_iff.mpr hlisted,
    List.dropWhile_eq_nil_iff.mpr hlisted, writeBlocks_append, written_lists, blocksOf, chunks]
  exact List.append_nil _

theorem endsPlain_rdropWhile (lines : List EditorLine) : EndsPlain (lines.rdropWhile EditorLine.isList) := by
  intro l hl
  obtain ⟨hne, rfl⟩ := List.mem_getLast?_eq_getLast hl
  exact eq_false_of_ne_true (List.rdropWhile_last_not EditorLine.isList lines hne)

/-- Levelled lines stay so without those above that end with no list item, as far as the list goes. -/
theorem held_of_settled {run : List EditorLine} (hlines : EndsPlain lines)
    (hrun : ∀ l ∈ run, l.isList = true) (hbelow : ∀ l, below.head? = some l → l.isList = false)
    (hlevel : settled (-1) (lines ++ (run ++ below)) = lines ++ (run ++ below)) : held (-1) run = run := by
  rw [settled_append hlines (.inr rfl), settled_listed_append hrun hbelow] at hlevel
  exact (List.append_inj (List.append_inj hlevel (length_settled _ _)).2 (length_held _ _)).1

/-- **What a list item writes**: on levelled lines, after what the lines above it write comes its own line, its
number one more than the items counted above it. -/
theorem writeBlocks_item (h : Together (above ++ l :: below)) (hl : l.isList = true)
    (hlevel : settled (-1) (above ++ l :: below) = above ++ l :: below) :
    ∃ rest, writeBlocks inline escapeLineStart (blocksOf (above ++ l :: below)) =
      writeBlocks inline escapeLineStart (blocksOf above) ++
        itemText inline l.depth.toNat (listType l.block)
          (tally l.depth.toNat (listType l.block) (rowsAbove above) + 1) (paragraph l.runs) :: rest := by
  -- the list items just above, and the lines above those
  obtain ⟨run, hrun⟩ : ∃ run, run = above.rtakeWhile EditorLine.isList := ⟨_, rfl⟩
  obtain ⟨lines, hlines⟩ : ∃ lines, lines = above.rdropWhile EditorLine.isList := ⟨_, rfl⟩
  have habove : above = lines ++ run := by rw [hrun, hlines, List.rdropWhile_append_rtakeWhile]
  have hplain : EndsPlain lines := hlines ▸ endsPlain_rdropWhile above
  have hlisted : ∀ x ∈ run, x.isList = true := fun x hx => List.mem_rtakeWhile_imp (hrun ▸ hx)
  have hrows : rowsAbove above = (run.map itemRow).reverse := by
    rw [rowsAbove, hrun, List.rtakeWhile, List.map_reverse, List.reverse_reverse]
  have hsplit : run ++ l :: below =
      (run ++ l :: below.takeWhile EditorLine.isList) ++ below.dropWhile EditorLine.isList := by
    rw [List.append_assoc, List.cons_append, List.takeWhile_append_dropWhile]
  have hitems : ∀ x ∈ run ++ l :: below.takeWhile EditorLine.isList, x.isList = true := by
    intro x hx
    rcases List.mem_append.mp hx with hx | hx
    · exact hlisted x hx
    · rcases List.mem_cons.mp hx with rfl | hx
      · exact hl
      · exact List.mem_takeWhile_imp hx
  have hall : above ++ l :: below = lines ++ (run ++ l :: below) := by rw [habove, List.append_assoc]
  rw [hall] at h hlevel ⊢
  have hrest : Together (run ++ l :: below) := List.IsChain.right_of_append h
  have hstarts : StartsListed (run ++ l :: below) := by
    intro x hx
    rw [hsplit, List.head?_append,
      List.head?_eq_some_head (List.append_ne_nil_of_right_ne_nil _ (List.cons_ne_nil _ _)), Option.some_or] at hx
    exact hitems x (Option.some.inj hx ▸ List.head_mem _)
  have hstop := fun y (hy : (below.dropWhile EditorLine.isList).head? = some y) => head_dropWhile_plain hy
  obtain ⟨htake, hdrop⟩ := takeWhile_append_stop fun _ => hstop
  rw [← hsplit, List.takeWhile_eq_self_iff.mpr hitems] at htake
  have hheld : held (-1) (run ++ l :: below.takeWhile EditorLine.isList) =
      run ++ l :: below.takeWhile EditorLine.isList :=
    held_of_settled hplain hitems hstop (hsplit ▸ hlevel)
  have hheld_run : held (-1) run = run := by
    obtain ⟨before, heq⟩ := @held_append (-1) run (l :: below.takeWhile EditorLine.isList)
    exact (List.append_inj (heq.symm.trans hheld) (length_held _ _)).1
  have hstarts_run : StartsListed run := fun x hx => hlisted x (List.mem_of_head? hx)
  rw [blocksOf_append hplain hstarts, writeBlocks_append, blocksOf_startsListed hstarts hrest, htake,
    writeBlocks_append, written_lists, hheld, hrows, habove, blocksOf_append hplain hstarts_run,
    writeBlocks_append, writeBlocks_listed hlisted (List.IsChain.left_of_append hrest), hheld_run,
    List.map_append, List.map_cons, numbered_append, List.append_nil, numbered]
  exact ⟨_, by simp only [List.append_assoc, List.cons_append, itemRow]; rfl⟩

end

end Stoop.Editor
