import Stoop.Markdown.Agreement

/-!
# The two parsers' blocks agree

The server adds a line at a time to the last block it is of the kind of; the client reads the whole run
of lines a block owns. Both split the content into the longest runs of lines of one kind, and parse
each line's text as prose.

## What a line is

`lineKind`, `proseAt`, `prose`

## The blocks

`parseLines_run`, `readBlock_prose`, `blocks_agree`
-/

set_option autoImplicit false

namespace Stoop.Markdown

/-! ## What a line is -/

theorem mem_intercalate {c : Char} {lines : List Text} (h : c ∈ ['\n'].intercalate lines) :
    c = '\n' ∨ ∃ line ∈ lines, c ∈ line := by
  induction lines with
  | nil => cases h
  | cons line lines ih =>
    by_cases hnil : lines = []
    · subst hnil
      rw [List.intercalate_singleton] at h
      exact .inr ⟨line, List.mem_cons_self .., h⟩
    · rw [List.intercalate_cons_of_ne_nil hnil, List.mem_append, List.mem_append,
        List.mem_singleton] at h
      rcases h with (h | h) | h
      · exact .inr ⟨line, List.mem_cons_self .., h⟩
      · exact .inl h
      · exact (ih h).imp_right fun ⟨l, hl, hc⟩ => ⟨l, List.mem_cons_of_mem _ hl, hc⟩

namespace Server

/-- The kind of block a line is added to, when it starts no fence. -/
def lineKind (line : Text) : Option BlockKind :=
  if (fenceOneLine line).isSome || fenceOpen line then none
  else if (listLine line).isSome then some .list
  else if (quoteLine line).isSome then some .quote
  else some .lines

/-- Where a line's prose starts. -/
def proseAt (line : Text) : Nat := (listLine line).getD ((quoteLine line).getD 0)

/-- The texts of the lines that are read as prose: past the next `skip`, which belong to a fence. -/
def prose : (skip : Nat) → List Text → List Text
  | _, [] => []
  | skip + 1, _ :: rest => prose skip rest
  | 0, line :: rest =>
    if (fenceOneLine line).isSome then prose 0 rest
    else if fenceOpen line then prose ((rest.takeWhile (!fenceClose ·)).length + 1) rest
    else line.drop (proseAt line) :: prose 0 rest

/-- A block with one more line of its kind. -/
def Block.add (nodes : List InlineNode) (block : Block) : Block :=
  match block.kind with
  | .list => { block with items := block.items ++ [nodes] }
  | _ => { block with lines := block.lines ++ [nodes] }

/-- A block's lines of nodes. -/
def Block.runs (block : Block) : List (List InlineNode) :=
  match block.kind with
  | .list => block.items
  | _ => block.lines

end Server

/-- A block of a kind with lines of nodes. -/
def TreeBlock.ofKind (kind : Server.BlockKind) (runs : List (List Node)) : TreeBlock :=
  match kind with
  | .lines => .lines runs
  | .quote => .quote runs
  | .list => .list runs
  | .code => .code []

namespace Server

variable {kind : BlockKind} {line : Text} {rest : List Text} {blocks : List Block}

@[simp] theorem Block.add_kind (nodes : List InlineNode) (block : Block) :
    (block.add nodes).kind = block.kind := by
  rw [Block.add]
  split <;> rfl

@[simp] theorem Block.add_runs (nodes : List InlineNode) (block : Block) :
    (block.add nodes).runs = block.runs ++ [nodes] := by
  obtain ⟨kind, lines, items, text⟩ := block
  cases kind <;> rfl

theorem Block.tree_ofKind {block : Block} (h : block.kind ≠ .code) :
    block.tree = .ofKind block.kind (block.runs.map trees) := by
  obtain ⟨kind, lines, items, text⟩ := block
  cases kind with
  | code => exact absurd rfl h
  | _ => rfl

theorem lineKind_ne_code : lineKind line ≠ some .code := by
  rw [lineKind]
  split
  · simp
  · split
    · simp
    · split <;> simp

/-- A line that is no prose, and no fence on its own, opens one. -/
theorem fenceOpen_of_kind (hkind : lineKind line = none) (hone : fenceOneLine line = none) :
    fenceOpen line = true := by
  by_contra hopen
  rw [lineKind, hone, Option.isSome_none, Bool.false_or, if_neg hopen] at hkind
  split at hkind
  · cases hkind
  · split at hkind <;> cases hkind

/-- **One line of prose** is added to the last block, if it is of the line's kind, or else starts one. -/
theorem parseLines_prose (hkind : lineKind line = some kind) (start : Nat) (blocks : List Block)
    (rest : List Text) :
    parseLines start 0 blocks (line :: rest) =
      parseLines (start + byteLength line + 1) 0
        (last kind (·.add (parseInlineAt (line.drop (proseAt line)) (start + proseAt line) true))
          blocks) rest := by
  rw [lineKind] at hkind
  split at hkind
  next => cases hkind
  next hfence =>
    rw [Bool.or_eq_true, not_or, Bool.not_eq_true, Bool.not_eq_true, Option.isSome_eq_false_iff,
      Option.isNone_iff_eq_none] at hfence
    have hadd : ∀ (kind : BlockKind) (nodes : List InlineNode) (add : Block → Block),
        (∀ block : Block, block.kind = kind → add block = block.add nodes) →
        last kind add blocks = last kind (·.add nodes) blocks := by
      intro kind nodes add hadd
      rw [last, last]
      split
      next block hlast =>
        split
        next hk => rw [hadd block hk]
        next => rw [hadd _ rfl]
      next => rw [hadd _ rfl]
    rw [parseLines]
    simp only [hfence.1, hfence.2, Bool.false_eq_true, if_false]
    cases hlist : listLine line with
    | some item =>
      rw [hlist] at hkind
      cases hkind
      simp only [proseAt, hlist, Option.getD_some]
      rw [hadd .list _ _ fun block hk => ?_]
      rw [Block.add, hk]
    | none =>
      rw [hlist] at hkind
      cases hquote : quoteLine line with
      | some quoted =>
        rw [hquote] at hkind
        cases hkind
        simp only [proseAt, hlist, hquote, Option.getD_some, Option.getD_none]
        rw [hadd .quote _ _ fun block hk => ?_]
        rw [Block.add, hk]
      | none =>
        rw [hquote] at hkind
        cases hkind
        simp only [proseAt, hlist, hquote, Option.getD_none, List.drop_zero, Nat.add_zero]
        rw [hadd .lines _ _ fun block hk => ?_]
        rw [Block.add, hk]

/-- **A run of lines of a kind** is added to the last block, line by line. -/
theorem parseLines_run {run : List Text} {tree : Text → List Node} (rest : List Text)
    (hkind : ∀ line ∈ run, lineKind line = some kind)
    (htree : ∀ line ∈ run, ∀ base own,
      trees (parseInlineAt (line.drop (proseAt line)) base own) = tree line)
    (start : Nat) (blocks : List Block) {block : Block} (hblock : block.kind = kind) :
    ∃ start' block', parseLines start 0 (blocks ++ [block]) (run ++ rest) =
        parseLines start' 0 (blocks ++ [block']) rest ∧ block'.kind = kind ∧
      block'.runs.map trees = block.runs.map trees ++ run.map tree := by
  induction run generalizing start block with
  | nil => exact ⟨start, block, rfl, hblock, (List.append_nil _).symm⟩
  | cons line run ih =>
    rw [List.forall_mem_cons] at hkind htree
    have hlast : ∀ nodes, last kind (·.add nodes) (blocks ++ [block]) =
        blocks ++ [block.add nodes] := by
      intro nodes
      simp [last, hblock]
    have hadd :
        (block.add (parseInlineAt (line.drop (proseAt line)) (start + proseAt line) true)).kind =
          kind := by
      rw [Block.add_kind, hblock]
    obtain ⟨start', block', hparsed, hkind', hruns⟩ :=
      ih hkind.2 htree.2 (start + byteLength line + 1) hadd
    refine ⟨start', block', ?_, hkind', ?_⟩
    · rw [List.cons_append, parseLines_prose hkind.1, hlast, hparsed]
    · rw [hruns, Block.add_runs, List.map_append, List.map_cons, List.map_nil, htree.1,
        List.map_cons, List.append_assoc]
      rfl

theorem parseLines_skip (start skip : Nat) (blocks : List Block) (lines : List Text) :
    ∃ start', parseLines start skip blocks lines = parseLines start' 0 blocks (lines.drop skip) := by
  induction skip generalizing start lines with
  | zero => exact ⟨start, rfl⟩
  | succ skip ih =>
    cases lines with
    | nil => exact ⟨start, rfl⟩
    | cons line rest => exact ih (start + byteLength line + 1) rest

theorem prose_skip (skip : Nat) (lines : List Text) :
    prose skip lines = prose 0 (lines.drop skip) := by
  induction skip generalizing lines with
  | zero => rfl
  | succ skip ih =>
    cases lines with
    | nil => rfl
    | cons line rest => exact ih rest

/-- Prose is what a line has from a place on. -/
theorem mem_prose {skip : Nat} {lines : List Text} {source : Text} (h : source ∈ prose skip lines) :
    ∃ line ∈ lines, ∃ start, source = line.drop start := by
  induction lines generalizing skip with
  | nil => cases skip <;> cases h
  | cons line rest ih =>
    have hrest : ∀ {skip}, source ∈ prose skip rest →
        ∃ l ∈ line :: rest, ∃ start, source = l.drop start := fun h => by
      obtain ⟨l, hl, hsource⟩ := ih h
      exact ⟨l, List.mem_cons_of_mem _ hl, hsource⟩
    cases skip with
    | succ skip => exact hrest h
    | zero =>
      rw [prose] at h
      split at h
      next => exact hrest h
      next =>
        split at h
        next => exact hrest h
        next =>
          rcases List.mem_cons.mp h with rfl | h
          · exact ⟨line, List.mem_cons_self .., _, rfl⟩
          · exact hrest h

theorem prose_cons_of_kind (hkind : lineKind line = some kind) :
    prose 0 (line :: rest) = line.drop (proseAt line) :: prose 0 rest := by
  rw [lineKind] at hkind
  split at hkind
  next => cases hkind
  next hfence =>
    rw [Bool.or_eq_true, not_or] at hfence
    rw [prose, if_neg hfence.1, if_neg hfence.2]

/-- The prose of a run of lines of a kind, and of what follows. -/
theorem prose_run {run : List Text} (hkind : ∀ line ∈ run, lineKind line = some kind) :
    prose 0 (run ++ rest) = (run.map fun line => line.drop (proseAt line)) ++ prose 0 rest := by
  induction run with
  | nil => rfl
  | cons line run ih =>
    rw [List.forall_mem_cons] at hkind
    rw [List.cons_append, prose_cons_of_kind hkind.1, ih hkind.2]
    rfl

/-- A list row starts no fence: its bullet is the first thing on the line. -/
theorem afterFence_of_listLine (h : (listLine line).isSome = true) : afterFence line = none := by
  simp only [listLine] at h
  generalize hspaces : (line.take 6).takeWhile (· == ' ') = spaces at h
  have hstart : spaces <+: line :=
    hspaces ▸ (List.takeWhile_prefix _).trans (List.take_prefix _ _)
  have hall : ∀ c ∈ spaces, goSpace c = true := by
    intro c hc
    rw [← hspaces] at hc
    have hspace := List.mem_takeWhile_imp hc
    rw [beq_iff_eq.mp hspace]
    rfl
  obtain ⟨beyond, rfl⟩ := hstart
  rw [List.drop_left] at h
  cases beyond with
  | nil => cases h
  | cons c tail =>
    have hc : goSpace c = false ∧ c ≠ backtick := by
      by_contra hno
      have hbullet : bulletLength (c :: tail) = none := by
        have hclass : (c == '-' || c == '*') = false ∧ isDigit c = false := by
          rw [not_and_or, Bool.not_eq_false, not_not] at hno
          rcases hno with hspace | rfl
          · simp only [goSpace, List.contains_iff_mem, List.mem_cons, List.not_mem_nil,
              or_false] at hspace
            rcases hspace with rfl | rfl | rfl | rfl | rfl <;> decide
          · decide
        rw [bulletLength, hclass.1]
        simp [hclass.2]
      rw [hbullet] at h
      cases h
    rw [afterFence, List.dropWhile_append_of_pos hall, List.dropWhile_cons, hc.1]
    simp [fence, hc.2.symm]

theorem mem_oneLineCode {text code : Text} (h : oneLineCode text = some code) : code ⊆ text := by
  induction text generalizing code with
  | nil => cases h
  | cons c text ih =>
    rw [oneLineCode] at h
    split at h
    next =>
      rw [← Option.some.inj h]
      exact List.cons_subset_cons c (List.nil_subset _)
    next =>
      obtain ⟨code', hcode', rfl⟩ := Option.map_eq_some_iff.mp h
      exact List.cons_subset_cons c (ih hcode')

theorem mem_afterFence {after : Text} (h : afterFence line = some after) : after ⊆ line := by
  simp only [afterFence] at h
  split at h
  next =>
    rw [← Option.some.inj h]
    exact fun c hc => (List.dropWhile_suffix _).subset (List.mem_of_mem_drop hc)
  next => cases h

/-- What holds of the blocks, and of the last with one more line, holds when a line is added. -/
theorem last_forall {P : Block → Prop} {nodes : List InlineNode} (hkind : kind ≠ .code)
    (hadd : ∀ block, (P block ∨ block = { kind := block.kind }) → block.kind ≠ .code →
      P (block.add nodes))
    (h : ∀ block ∈ blocks, P block) : ∀ block ∈ last kind (·.add nodes) blocks, P block := by
  have hnew : P (({ kind := kind } : Block).add nodes) := hadd _ (.inr rfl) hkind
  rw [last]
  split
  next block hlast =>
    split
    next hk =>
      rw [List.forall_mem_append]
      refine ⟨fun b hb => h b ((List.dropLast_prefix _).subset hb),
        List.forall_mem_singleton.mpr ?_⟩
      exact hadd block (.inl (h block (List.mem_of_getLast? hlast))) (by rw [hk]; exact hkind)
    next => exact List.forall_mem_append.mpr ⟨h, List.forall_mem_singleton.mpr hnew⟩
  next => exact List.forall_mem_singleton.mpr hnew

/-- **What holds of every block** the server parses: of a fence's, and of a block with one more line of
prose if it held before or the block is new. -/
theorem parseLines_forall {P : Block → Prop} {all lines : List Text} (hlines : lines ⊆ all)
    (hcode : ∀ text : Text, (∀ c ∈ text, c = '\n' ∨ ∃ line ∈ all, c ∈ line) →
      P { kind := .code, text := tokensAsText text })
    (hadd : ∀ block, (P block ∨ block = { kind := block.kind }) → block.kind ≠ .code →
      ∀ line ∈ all, ∀ base, P (block.add (parseInlineAt (line.drop (proseAt line)) base true)))
    (start skip : Nat) (h : ∀ block ∈ blocks, P block) :
    ∀ block ∈ parseLines start skip blocks lines, P block := by
  induction lines generalizing start skip blocks with
  | nil => cases skip <;> exact h
  | cons line rest ih =>
    obtain ⟨hline, hrest⟩ := List.cons_subset.mp hlines
    cases skip with
    | succ skip => exact ih hrest _ _ h
    | zero =>
      have hfence : ∀ text : Text, (∀ c ∈ text, c = '\n' ∨ ∃ line ∈ all, c ∈ line) →
          ∀ block ∈ blocks ++ [({ kind := .code, text := tokensAsText text } : Block)], P block :=
        fun text htext => List.forall_mem_append.mpr
          ⟨h, List.forall_mem_singleton.mpr (hcode text htext)⟩
      cases hkind : lineKind line with
      | some kind =>
        rw [parseLines_prose hkind]
        refine ih hrest _ _ (last_forall ?_ (fun block hblock hne => ?_) h)
        · rintro rfl
          exact lineKind_ne_code hkind
        · exact hadd block hblock hne line hline _
      | none =>
        rw [parseLines]
        cases hone : fenceOneLine line with
        | some code =>
          obtain ⟨after, hafter, hcodeAfter⟩ := Option.bind_eq_some_iff.mp hone
          exact ih hrest _ _ (hfence code fun c hc =>
            .inr ⟨line, hline, mem_afterFence hafter (mem_oneLineCode hcodeAfter hc)⟩)
        | none =>
          simp only [fenceOpen_of_kind hkind hone, if_true]
          refine ih hrest _ _ (hfence _ fun c hc => (mem_intercalate hc).imp_right ?_)
          rintro ⟨l, hl, hcl⟩
          exact ⟨l, hrest ((List.takeWhile_prefix _).subset hl), hcl⟩

end Server

/-! ## The client's readers -/

section
variable {line : Text} {rest : List Text}

theorem lineKind_list (halike : AllAlike line) :
    (Client.listLine line).isSome = (Server.lineKind line == some .list) := by
  have hsome : (Client.listLine line).isSome = (Server.listLine line).isSome := by
    have h := congrArg Option.isSome (listLine_eq halike)
    rwa [Option.isSome_map, Option.isSome_map] at h
  rw [hsome, Server.lineKind]
  cases hlist : (Server.listLine line).isSome with
  | true =>
    have hfence := Server.afterFence_of_listLine hlist
    rw [Server.fenceOneLine, Server.fenceOpen, hfence]
    rfl
  | false =>
    cases (Server.fenceOneLine line).isSome || Server.fenceOpen line <;>
      cases (Server.quoteLine line).isSome <;> rfl

theorem startsFence_eq (halike : AllAlike line) :
    ((Client.fenceOneLine line).isSome || (Client.fenceOpen line).isSome) =
      ((Server.fenceOneLine line).isSome || Server.fenceOpen line) := by
  rw [fenceOneLine_eq halike, fenceOpen_eq halike]

theorem lineKind_quote (halike : AllAlike line) :
    (!Client.startsOther false line && (Client.quoteLine line).isSome) =
      (Server.lineKind line == some .quote) := by
  have hlist := congrArg Option.isSome (listLine_eq halike)
  have hquote := congrArg Option.isSome (quoteLine_eq halike)
  rw [Option.isSome_map, Option.isSome_map] at hlist
  rw [Option.isSome_map] at hquote
  rw [Client.startsOther, startsFence_eq halike, hlist, hquote, Server.lineKind]
  cases (Server.fenceOneLine line).isSome || Server.fenceOpen line <;>
    cases (Server.listLine line).isSome <;> cases (Server.quoteLine line).isSome <;> rfl

theorem lineKind_lines (halike : AllAlike line) :
    (!Client.startsOther true line) = (Server.lineKind line == some .lines) := by
  have hlist := congrArg Option.isSome (listLine_eq halike)
  have hquote := congrArg Option.isSome (quoteLine_eq halike)
  rw [Option.isSome_map, Option.isSome_map] at hlist
  rw [Option.isSome_map] at hquote
  rw [Client.startsOther, startsFence_eq halike, hlist, hquote, Server.lineKind]
  cases (Server.fenceOneLine line).isSome || Server.fenceOpen line <;>
    cases (Server.listLine line).isSome <;> cases (Server.quoteLine line).isSome <;> rfl

theorem readCodeblock_none (halike : AllAlike line) {kind : Server.BlockKind}
    (hkind : Server.lineKind line = some kind) : Client.readCodeblock (line :: rest) = none := by
  rw [Server.lineKind] at hkind
  split at hkind
  next => cases hkind
  next hfence =>
    rw [Bool.or_eq_true, not_or, Bool.not_eq_true, Bool.not_eq_true] at hfence
    rw [← fenceOneLine_eq halike, ← fenceOpen_eq halike, Option.isSome_eq_false_iff,
      Option.isSome_eq_false_iff, Option.isNone_iff_eq_none, Option.isNone_iff_eq_none] at hfence
    rw [Client.readCodeblock, hfence.1, hfence.2]
    rfl

/-- What a line of prose is read as. -/
def proseTree (line : Text) : List Node :=
  Client.trees (Client.parseInline (line.drop (Server.proseAt line)))

theorem listRows_tree {rows : List Text} (halike : ∀ line ∈ rows, AllAlike line)
    (hkind : ∀ line ∈ rows, (Client.listLine line).isSome = true) :
    ((rows.filterMap Client.listLine).map Client.listItem).map
      (fun item => Client.trees item.content) = rows.map proseTree := by
  induction rows with
  | nil => rfl
  | cons line rows ih =>
    rw [List.forall_mem_cons] at halike hkind
    obtain ⟨row, hrow⟩ := Option.isSome_iff_exists.mp hkind.1
    have hlist := listLine_eq halike.1
    rw [hrow, Option.map_some] at hlist
    obtain ⟨item, hitem, htext⟩ := Option.map_eq_some_iff.mp hlist.symm
    rw [List.filterMap_cons_some hrow, List.map_cons, List.map_cons, ih halike.2 hkind.2,
      List.map_cons, proseTree, Server.proseAt, hitem, Option.getD_some, htext]
    rfl

theorem quoteLine_of_kind (hkind : Server.lineKind line = some .quote) :
    Server.listLine line = none ∧ (Server.quoteLine line).isSome = true := by
  rw [Server.lineKind] at hkind
  split at hkind
  next => cases hkind
  next =>
    split at hkind
    next => cases hkind
    next hlist =>
      split at hkind
      next hquote =>
        rw [Bool.not_eq_true, Option.isSome_eq_false_iff, Option.isNone_iff_eq_none] at hlist
        exact ⟨hlist, hquote⟩
      next => cases hkind

theorem quotedLines_tree {quoted : List Text} (halike : ∀ line ∈ quoted, AllAlike line)
    (hkind : ∀ line ∈ quoted, Server.lineKind line = some .quote) :
    ((quoted.filterMap Client.quoteLine).map Client.parseInline).map Client.trees =
      quoted.map proseTree := by
  induction quoted with
  | nil => rfl
  | cons line quoted ih =>
    rw [List.forall_mem_cons] at halike hkind
    obtain ⟨hlist, hquote⟩ := quoteLine_of_kind hkind.1
    obtain ⟨start, hstart⟩ := Option.isSome_iff_exists.mp hquote
    have hclient := quoteLine_eq halike.1
    rw [hstart, Option.map_some] at hclient
    rw [List.filterMap_cons_some hclient, List.map_cons, List.map_cons, ih halike.2 hkind.2,
      List.map_cons, proseTree, Server.proseAt, hlist, hstart]
    rfl

/-- A line of prose that is no list row has nothing before its text, or is quoted. -/
theorem proseAt_of_lines (hkind : Server.lineKind line = some .lines) :
    Server.proseAt line = 0 := by
  rw [Server.lineKind] at hkind
  split at hkind
  next => cases hkind
  next =>
    split at hkind
    next => cases hkind
    next hlist =>
      split at hkind
      next => cases hkind
      next hquote =>
        rw [Bool.not_eq_true, Option.isSome_eq_false_iff, Option.isNone_iff_eq_none] at hlist hquote
        rw [Server.proseAt, hlist, hquote]
        rfl

theorem kind_of_takeWhile {kind : Server.BlockKind} {l : Text}
    (h : l ∈ rest.takeWhile (Server.lineKind · == some kind)) :
    Server.lineKind l = some kind := by
  have hk := List.mem_takeWhile_imp h
  exact beq_iff_eq.mp hk

/-- **The client reads the whole run of lines of a kind.** -/
theorem readBlock_prose (halike : ∀ l ∈ line :: rest, AllAlike l) {kind : Server.BlockKind}
    (hkind : Server.lineKind line = some kind) :
    (Client.readBlock line rest).1.tree =
        .ofKind kind ((line :: rest.takeWhile (Server.lineKind · == some kind)).map proseTree) ∧
      (Client.readBlock line rest).2 = rest.dropWhile (Server.lineKind · == some kind) := by
  rw [List.forall_mem_cons] at halike
  have hcode : Client.readCodeblock (line :: rest) = none := readCodeblock_none halike.1 hkind
  have hrun : ∀ kind', (line :: rest).takeWhile (Server.lineKind · == some kind') =
      if kind = kind' then line :: rest.takeWhile (Server.lineKind · == some kind') else [] := by
    intro kind'
    rw [List.takeWhile_cons, hkind]
    by_cases hk : kind = kind'
    · simp [hk]
    · simp [hk]
  have hlist : (line :: rest).takeWhile (fun l => (Client.listLine l).isSome) =
      (line :: rest).takeWhile (Server.lineKind · == some .list) :=
    takeWhile_alike fun l hl => lineKind_list (List.forall_mem_cons.mpr halike l hl)
  have hquote : (line :: rest).takeWhile
        (fun l => !Client.startsOther false l && (Client.quoteLine l).isSome) =
      (line :: rest).takeWhile (Server.lineKind · == some .quote) :=
    takeWhile_alike fun l hl => lineKind_quote (List.forall_mem_cons.mpr halike l hl)
  have hlines : rest.takeWhile (fun l => !Client.startsOther true l) =
      rest.takeWhile (Server.lineKind · == some .lines) :=
    takeWhile_alike fun l hl => lineKind_lines (halike.2 l hl)
  have hdrop : (line :: rest).drop
        (line :: rest.takeWhile (Server.lineKind · == some kind)).length =
      rest.dropWhile (Server.lineKind · == some kind) := by
    rw [List.length_cons, List.drop_succ_cons, drop_takeWhile_length]
  have halikeRun : ∀ l ∈ line :: rest.takeWhile (Server.lineKind · == some kind), AllAlike l :=
    List.forall_mem_cons.mpr
      ⟨halike.1, fun l hl => halike.2 l ((List.takeWhile_prefix _).subset hl)⟩
  have hkindRun : ∀ l ∈ line :: rest.takeWhile (Server.lineKind · == some kind),
      Server.lineKind l = some kind :=
    List.forall_mem_cons.mpr ⟨hkind, fun l hl => kind_of_takeWhile hl⟩
  cases kind with
  | code => exact absurd hkind Server.lineKind_ne_code
  | list =>
    have hread : Client.readBlock line rest = (.list ((
          (line :: rest.takeWhile (Server.lineKind · == some .list)).filterMap
            Client.listLine).map Client.listItem),
        rest.dropWhile (Server.lineKind · == some .list)) := by
      rw [Client.readBlock, hcode, Client.readList]
      simp only [hlist, hrun, if_true, if_neg (List.cons_ne_nil _ _), hdrop]
      rfl
    rw [hread]
    refine ⟨congrArg TreeBlock.list (listRows_tree halikeRun fun l hl => ?_), rfl⟩
    rw [lineKind_list (halikeRun l hl), hkindRun l hl]
    rfl
  | quote =>
    have hno : Client.readList (line :: rest) = none := by
      simp only [Client.readList, hlist, hrun]
      rfl
    have hread : Client.readBlock line rest = (.quote ((
          (line :: rest.takeWhile (Server.lineKind · == some .quote)).filterMap
            Client.quoteLine).map Client.parseInline),
        rest.dropWhile (Server.lineKind · == some .quote)) := by
      rw [Client.readBlock, hcode, hno, Client.readQuote]
      simp only [hquote, hrun, if_true, if_neg (List.cons_ne_nil _ _), hdrop]
      rfl
    rw [hread]
    exact ⟨congrArg TreeBlock.quote (quotedLines_tree halikeRun hkindRun), rfl⟩
  | lines =>
    have hno : Client.readList (line :: rest) = none := by
      simp only [Client.readList, hlist, hrun]
      rfl
    have hno' : Client.readQuote (line :: rest) = none := by
      simp only [Client.readQuote, hquote, hrun]
      rfl
    have hread : Client.readBlock line rest = (.lines (
          (line :: rest.takeWhile (Server.lineKind · == some .lines)).map Client.parseInline),
        rest.dropWhile (Server.lineKind · == some .lines)) := by
      rw [Client.readBlock, hcode, hno, hno', Client.readLines]
      simp only [hlines, drop_takeWhile_length]
      rfl
    rw [hread]
    refine ⟨congrArg TreeBlock.lines ?_, rfl⟩
    rw [List.map_map]
    refine List.map_congr_left fun l hl => ?_
    rw [proseTree, proseAt_of_lines (hkindRun l hl)]
    rfl

/-- **The client reads a fence to its end.** -/
theorem readBlock_code (halike : ∀ l ∈ line :: rest, AllAlike l) :
    (∀ code, Server.fenceOneLine line = some code →
      (Client.readBlock line rest).1.tree = .code (tokensAsText code) ∧
        (Client.readBlock line rest).2 = rest) ∧
      (Server.fenceOneLine line = none → Server.fenceOpen line = true →
        (Client.readBlock line rest).1.tree =
            .code (tokensAsText (['\n'].intercalate (rest.takeWhile (!Server.fenceClose ·)))) ∧
          (Client.readBlock line rest).2 =
            rest.drop ((rest.takeWhile (!Server.fenceClose ·)).length + 1)) := by
  rw [List.forall_mem_cons] at halike
  have hbody : rest.takeWhile (!Client.fenceClose ·) = rest.takeWhile (!Server.fenceClose ·) :=
    takeWhile_alike fun l hl => congrArg Bool.not (fenceClose_eq (halike.2 l hl))
  constructor
  · intro code hcode
    rw [Client.readBlock, Client.readCodeblock, fenceOneLine_eq halike.1, hcode]
    exact ⟨congrArg TreeBlock.code (tokensAsText_eq code), rfl⟩
  · intro hnone hopen
    rw [← fenceOpen_eq halike.1] at hopen
    obtain ⟨lang, hlang⟩ := Option.isSome_iff_exists.mp hopen
    rw [Client.readBlock, Client.readCodeblock, fenceOneLine_eq halike.1, hnone, hlang]
    refine ⟨congrArg TreeBlock.code (by rw [hbody, tokensAsText_eq]), ?_⟩
    rw [← hbody]
    rfl

end

/-! ## The blocks -/

/-- Content read as prose without an address by the fold. -/
def NoFoldIn (lines : List Text) : Prop := ∀ source ∈ Server.prose 0 lines, NoFold source

/-- What a line of prose without an address by the fold is read as, the server reads it as. -/
theorem parseInlineAt_tree {line : Text} (halike : AllAlike line)
    (hfold : NoFold (line.drop (Server.proseAt line))) (base : Nat) (own : Bool) :
    Server.trees (Server.parseInlineAt (line.drop (Server.proseAt line)) base own) =
      proseTree line :=
  ((parse_simulates _ [] (Nat.lt_succ_self _) (halike.drop _) hfold).trees base own).symm

/-- Blocks that the first line isn't added to the last of. -/
def Apart (blocks : List Server.Block) (lines : List Text) : Prop :=
  ∀ block ∈ blocks.getLast?, ∀ line ∈ lines.head?, Server.lineKind line ≠ some block.kind

/-- From any line on, the server adds to the blocks it has what the client reads. -/
def BlocksAgree (fuel : Nat) (lines : List Text) : Prop :=
  ∀ start blocks, Apart blocks lines →
    (Server.parseLines start 0 blocks lines).map (·.tree) =
      blocks.map (·.tree) ++ (Client.parseBlocks fuel lines).map (·.tree)

section
variable {line : Text} {rest : List Text} {fuel : Nat}

/-- A fence, and then the lines after it. -/
theorem blocksAgree_code (halike : ∀ l ∈ line :: rest, AllAlike l)
    (hkind : Server.lineKind line = none)
    (ih : ∀ skip, Server.prose 0 (line :: rest) = Server.prose 0 (rest.drop skip) →
      BlocksAgree fuel (rest.drop skip)) :
    BlocksAgree (fuel + 1) (line :: rest) := by
  intro start blocks _
  have hadded : ∀ (text : Text) (skip start : Nat),
      Server.prose 0 (line :: rest) = Server.prose 0 (rest.drop skip) →
      (Client.readBlock line rest).1.tree = .code text ∧
        (Client.readBlock line rest).2 = rest.drop skip →
      (Server.parseLines start skip (blocks ++ [{ kind := .code, text }]) rest).map (·.tree) =
        blocks.map (·.tree) ++ (Client.parseBlocks (fuel + 1) (line :: rest)).map (·.tree) := by
    rintro text skip start hprose ⟨htree, hread⟩
    obtain ⟨start', hskip⟩ := Server.parseLines_skip start skip
      (blocks ++ [{ kind := .code, text }]) rest
    have hapart : Apart (blocks ++ [{ kind := .code, text }]) (rest.drop skip) := by
      intro block hblock line _
      rw [List.getLast?_concat, Option.mem_some_iff] at hblock
      rw [← hblock]
      exact Server.lineKind_ne_code
    rw [hskip, ih skip hprose start' _ hapart, Client.parseBlocks, List.map_cons, hread, htree,
      List.map_append, List.append_assoc]
    rfl
  obtain ⟨honeRead, hopenRead⟩ := readBlock_code halike
  cases hone : Server.fenceOneLine line with
  | some code =>
    rw [Server.parseLines, hone]
    exact hadded _ 0 _ (by rw [Server.prose, hone]; rfl) (honeRead code hone)
  | none =>
    have hopen := Server.fenceOpen_of_kind hkind hone
    rw [Server.parseLines, hone]
    simp only [hopen, if_true]
    refine hadded _ _ _ ?_ (hopenRead hone hopen)
    rw [Server.prose, hone, if_neg (by simp), if_pos hopen, Server.prose_skip]

/-- A run of lines of a kind, and then the lines after it. -/
theorem blocksAgree_prose {kind : Server.BlockKind} (halike : ∀ l ∈ line :: rest, AllAlike l)
    (hfold : NoFoldIn (line :: rest)) (hkind : Server.lineKind line = some kind)
    (ih : ∀ beyond, beyond <:+ rest → NoFoldIn beyond → BlocksAgree fuel beyond) :
    BlocksAgree (fuel + 1) (line :: rest) := by
  intro start blocks hapart
  obtain ⟨htree, hread⟩ := readBlock_prose halike hkind
  generalize hrun : rest.takeWhile (Server.lineKind · == some kind) = run at htree
  generalize hbeyond : rest.dropWhile (Server.lineKind · == some kind) = beyond at hread
  have hkindRun : ∀ l ∈ run, Server.lineKind l = some kind :=
    fun l hl => kind_of_takeWhile (hrun ▸ hl)
  obtain rfl : rest = run ++ beyond := by
    rw [← hrun, ← hbeyond, List.takeWhile_append_dropWhile]
  -- the prose is the line's, the run's and what follows
  have hprose : Server.prose 0 (line :: (run ++ beyond)) = _ := Server.prose_cons_of_kind hkind
  rw [Server.prose_run hkindRun] at hprose
  rw [NoFoldIn, hprose, List.forall_mem_cons, List.forall_mem_append] at hfold
  obtain ⟨hfoldLine, hfoldRun, hfoldBeyond⟩ := hfold
  rw [List.forall_mem_cons, List.forall_mem_append] at halike
  -- the line starts a block, since the last is of another kind
  have hlast : ∀ nodes, Server.last kind (·.add nodes) blocks =
      blocks ++ [({ kind := kind } : Server.Block).add nodes] := by
    intro nodes
    rw [Server.last]
    split
    next block hblock =>
      rw [if_neg]
      rintro rfl
      exact hapart block hblock line rfl hkind
    next hnil =>
      rw [List.getLast?_eq_none_iff.mp hnil]
      rfl
  have hne : kind ≠ .code := by
    rintro rfl
    exact Server.lineKind_ne_code hkind
  have htreeRun : ∀ l ∈ run, ∀ base own,
      Server.trees (Server.parseInlineAt (l.drop (Server.proseAt l)) base own) = proseTree l :=
    fun l hl => parseInlineAt_tree (halike.2.1 l hl)
      (hfoldRun _ (List.mem_map_of_mem (f := fun line => line.drop (Server.proseAt line)) hl))
  obtain ⟨start', block, hparsed, hblock, hruns⟩ :=
    Server.parseLines_run beyond hkindRun htreeRun (start + byteLength line + 1) blocks
      (show (({ kind := kind } : Server.Block).add (Server.parseInlineAt
        (line.drop (Server.proseAt line)) (start + Server.proseAt line) true)).kind = kind by
        rw [Server.Block.add_kind])
  -- what follows is of another kind than the run
  have hapart' : Apart (blocks ++ [block]) beyond := by
    intro last hlast l hl hk
    rw [List.getLast?_concat, Option.mem_some_iff] at hlast
    rw [← hlast, hblock] at hk
    cases beyond with
    | nil => cases hl
    | cons l' beyond =>
      cases hl
      have hnot := List.head_dropWhile_not (Server.lineKind · == some kind)
        (l := run ++ l :: beyond) (by rw [hbeyond]; exact List.cons_ne_nil _ _)
      simp only [hbeyond, List.head_cons, hk, beq_self_eq_true, Bool.true_eq_false] at hnot
  have hblockTree : block.tree = (Client.readBlock line (run ++ beyond)).1.tree := by
    rw [htree, Server.Block.tree_ofKind (by rw [hblock]; exact hne), hblock, hruns,
      Server.Block.add_runs, List.map_append, List.map_cons, List.map_cons,
      parseInlineAt_tree halike.1 hfoldLine]
    cases kind <;> rfl
  rw [Server.parseLines_prose hkind, hlast, hparsed,
    ih beyond (List.suffix_append _ _) hfoldBeyond start' _ hapart', Client.parseBlocks,
    List.map_cons, hread, ← hblockTree, List.map_append, List.append_assoc]
  rfl

end

/-- **Both split the lines into the same blocks.** -/
theorem blocks_agree (fuel : Nat) {lines : List Text} (hfuel : lines.length ≤ fuel)
    (halike : ∀ line ∈ lines, AllAlike line) (hfold : NoFoldIn lines) :
    BlocksAgree fuel lines := by
  induction fuel generalizing lines with
  | zero =>
    obtain rfl := List.length_eq_zero_iff.mp (Nat.le_zero.mp hfuel)
    exact fun _ _ _ => (List.append_nil _).symm
  | succ fuel ih =>
    cases lines with
    | nil => exact fun _ _ _ => (List.append_nil _).symm
    | cons line rest =>
      rw [List.length_cons, Nat.add_le_add_iff_right] at hfuel
      have halikeRest := (List.forall_mem_cons.mp halike).2
      cases hkind : Server.lineKind line with
      | none =>
        refine blocksAgree_code halike hkind fun skip hprose => ?_
        refine ih ?_ (fun l hl => halikeRest l (List.mem_of_mem_drop hl)) ?_
        · rw [List.length_drop]
          omega
        · rwa [NoFoldIn, hprose] at hfold
      | some kind =>
        refine blocksAgree_prose halike hfold hkind fun beyond hsuffix hbeyond => ?_
        exact ih (hsuffix.length_le.trans hfuel) (fun l hl => halikeRest l (hsuffix.subset hl))
          hbeyond

end Stoop.Markdown
