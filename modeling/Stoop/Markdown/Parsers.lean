import Stoop.Markdown.Blocks

/-!
# The two parsers agree

On content whose whitespace both class alike, and where the server takes no address by the fold of "ſ"
to "s", both read the same tree, and so the same words, links and tokens.

## The words

`parseFrom_words_alike`, `plainText_eq`

## The links

`links_not_byFold`: the client takes no address by the fold

## The parsers

`parsers_agree`, `long_s_parts_them`
-/

set_option autoImplicit false

namespace Stoop.Markdown

/-! ## The words -/

theorem Server.Found.words_alike {parse : Server.Parser} {source : Text} {base length : Nat}
    {own : Bool} {node : Server.InlineNode} (h : Server.Found parse source base own node length)
    (halike : AllAlike source)
    (ih : ∀ inside, Server.Calls parse source inside →
      ∀ base own, AllAlike (words (Server.trees (parse inside base own)))) :
    AllAlike node.tree.words := by
  have hchildren : ∀ inside base own, Server.Calls parse source inside →
      AllAlike (Server.InlineNode.styled (parse inside base own)).tree.words := by
    intro inside base own hcalls
    rw [Server.InlineNode.tree, Node.words]
    exact ih inside hcalls base own
  cases h with
  | token token rest hsource =>
    have htoken : AllAlike token.text := fun c hc => halike c (hsource ▸ List.mem_append_left _ hc)
    have hread := htoken.tokensAsText
    rw [← List.append_nil token.text, tokensAsText_token, tokensAsText_nil, List.append_nil] at hread
    simpa only [Server.InlineNode.tree, tokenParts_text, Node.words] using hread
  | @code code rest hsource =>
    rw [Server.InlineNode.tree, Node.words]
    refine AllAlike.tokensAsText fun c hc => halike c ?_
    rw [hsource]
    exact List.mem_cons_of_mem _ (List.mem_append_left _ hc)
  | @url url hurl =>
    obtain ⟨c, rest, -, hstart, -⟩ := Server.urlAt_spec hurl
    rw [Server.InlineNode.tree, Node.words]
    exact fun c hc => halike c (((Server.trimURL_starts url).trans hstart).subset hc)
  | @label label href _ hlabel hlink =>
    have hinside := ih _ (.label hlabel) 0 false
    cases hparsed : parse (tokensAsText label) 0 false with
    | nil =>
      obtain ⟨rest, rfl, -⟩ := Server.labelAt_spec hlabel
      rw [Server.InlineNode.tree, Node.words]
      intro c hc
      refine halike c ?_
      simp only [List.mem_cons, List.mem_append]
      tauto
    | cons child children =>
      rw [hparsed, Server.trees] at hinside
      rw [Server.InlineNode.tree, Node.words]
      exact hinside
  | both hstars hclose =>
    rw [Server.InlineNode.tree, Node.words, Server.trees, words, Server.trees, words,
      List.append_nil]
    exact hchildren _ _ _ (.both hstars hclose)
  | starRun hboth hopened hend => exact hchildren _ _ _ (.starRun hboth hopened hend)
  | inner hboth hmark hopened hclose hno hbars =>
    exact hchildren _ _ _ (.inner hboth hmark hopened hclose hno hbars)
  | spoiler hopened hclose => exact hchildren _ _ _ (.spoiler hopened hclose)

theorem flush_words_alike {text : Text} (htext : AllAlike text) :
    AllAlike (words (Server.trees (Server.flush text))) := by
  rw [Server.flush]
  split
  · exact AllAlike.nil
  · simpa [Server.trees, Server.InlineNode.tree, words, Node.words] using htext

/-- A text's words have no character that its source hasn't, but for "@" and "#". -/
theorem parseFrom_words_alike (n : Nat) {source text : Text} (hn : source.length ≤ n)
    (hsource : AllAlike source) (htext : AllAlike text) (base : Nat) (own : Bool) :
    AllAlike (words (Server.trees (Server.parseFrom source base own text))) := by
  induction n generalizing source text base own with
  | zero =>
    obtain rfl := List.length_eq_zero_iff.mp (Nat.le_zero.mp hn)
    exact flush_words_alike htext
  | succ n ih =>
    cases source with
    | nil => exact flush_words_alike htext
    | cons c rest =>
      rw [List.length_cons, Nat.add_le_add_iff_right] at hn
      have hrest : ∀ {m : Nat} {text : Text} (base : Nat), 0 < m → AllAlike text →
          AllAlike (words (Server.trees
            (Server.parseFrom ((c :: rest).drop m) base own text))) := by
        intro m text base hm htext
        have hlength := List.length_drop (i := m) (l := c :: rest)
        rw [List.length_cons] at hlength
        exact ih (by omega) (hsource.drop m) htext base own
      rw [Server.parseFrom_cons]
      cases hescape : Server.escapedAt (c :: rest) with
      | some escaped =>
        obtain ⟨after, hafter⟩ := Server.escapedAt_spec hescape
        have hescaped : Alike escaped := hsource escaped (by rw [hafter]; simp)
        exact hrest (m := 2) (base + 2) (by omega) (htext.concat hescaped)
      | none =>
        cases hfound : Server.nodeAt Server.parseInlineAt (c :: rest) base own with
        | none => exact hrest (m := 1) (base + c.utf8Size) (by omega) (htext.concat hsource.head)
        | some found =>
          obtain ⟨node, length⟩ := found
          have hnode := Server.found_of_nodeAt hfound
          have hwords : AllAlike node.tree.words :=
            hnode.words_alike hsource fun inside hcalls base own => by
              have hshorter := hcalls.shorter
              rw [List.length_cons] at hshorter
              exact ih (by omega) (hsource.calls hcalls) AllAlike.nil base own
          simp only [Server.trees_append, Server.trees, words_append, words]
          exact (flush_words_alike htext).append
            (hwords.append (hrest (base + byteLength ((c :: rest).take length)) hnode.length_le.1 AllAlike.nil))

/-! ## Plain text -/

/-- A block with a line of words, all of characters both class alike. -/
def Wordy (parts : List Text) : Prop := parts ≠ [] ∧ ∀ part ∈ parts, AllAlike part

theorem Server.Block.parts_tree (block : Server.Block) : block.parts = block.tree.parts := by
  obtain ⟨kind, lines, items, text⟩ := block
  have hruns : ∀ runs : List (List Server.InlineNode),
      runs.map Server.inlineString = (runs.map Server.trees).map words := fun runs => by
    rw [List.map_map]
    exact List.map_congr_left fun run _ => Server.inlineString_tree run
  cases kind with
  | code => rfl
  | list => exact hruns items
  | lines => exact hruns lines
  | quote => exact hruns lines

theorem Server.Block.parts_add {block : Server.Block} (h : block.kind ≠ .code)
    (nodes : List Server.InlineNode) :
    (block.add nodes).parts = block.parts ++ [Server.inlineString nodes] := by
  obtain ⟨kind, lines, items, text⟩ := block
  cases kind with
  | code => exact absurd rfl h
  | _ => exact List.map_append

theorem mem_intercalate_of_mem {c : Char} {line : Text} {lines : List Text} (hline : line ∈ lines)
    (hc : c ∈ line) : c ∈ ['\n'].intercalate lines := by
  induction lines with
  | nil => cases hline
  | cons line' lines ih =>
    rcases List.mem_cons.mp hline with rfl | hline
    · by_cases hnil : lines = []
      · rw [hnil, List.intercalate_singleton]
        exact hc
      · rw [List.intercalate_cons_of_ne_nil hnil, List.append_assoc]
        exact List.mem_append_left _ hc
    · rw [List.intercalate_cons_of_ne_nil (List.ne_nil_of_mem hline)]
      exact List.mem_append_right _ (ih hline)

theorem intercalate_alike {lines : List Text} (h : ∀ line ∈ lines, AllAlike line) :
    AllAlike (['\n'].intercalate lines) := by
  intro c hc
  rcases mem_intercalate hc with rfl | ⟨line, hline, hc⟩
  · decide
  · exact h line hline c hc

theorem mem_of_line {content line : Text} {c : Char} (hline : line ∈ content.splitOn '\n')
    (hc : c ∈ line) : c ∈ content := by
  have hmem := mem_intercalate_of_mem hline hc
  rwa [List.intercalate_splitOn] at hmem

theorem lines_alike {content : Text} (h : AllAlike content) :
    ∀ line ∈ content.splitOn '\n', AllAlike line :=
  fun _ hline c hc => h c (mem_of_line hline hc)

/-- Every block has words, of characters both class alike. -/
theorem parseLines_wordy {lines : List Text} (halike : ∀ line ∈ lines, AllAlike line) :
    ∀ block ∈ Server.parseLines 0 0 [] lines, Wordy block.parts := by
  refine Server.parseLines_forall (List.Subset.refl _) (fun text htext => ?_)
    (fun block hblock hne line hline base => ?_) 0 0 fun block hblock =>
      absurd hblock List.not_mem_nil
  · refine ⟨List.cons_ne_nil _ _, List.forall_mem_singleton.mpr (AllAlike.tokensAsText ?_)⟩
    intro c hc
    rcases htext c hc with rfl | ⟨line, hline, hc⟩
    · decide
    · exact halike line hline c hc
  · have hwords : AllAlike (Server.inlineString
        (Server.parseInlineAt (line.drop (Server.proseAt line)) base true)) := by
      rw [Server.inlineString_tree, Server.parseInlineAt_eq]
      exact parseFrom_words_alike _ (Nat.le_refl _) ((halike line hline).drop _) AllAlike.nil _ _
    rw [Server.Block.parts_add hne]
    refine ⟨by simp, List.forall_mem_append.mpr ⟨?_, List.forall_mem_singleton.mpr hwords⟩⟩
    rcases hblock with hblock | hnew
    · exact hblock.2
    · rw [hnew, Server.Block.parts]
      intro part hpart
      split at hpart
      next hk => exact absurd hk hne
      next => exact absurd hpart List.not_mem_nil
      next => exact absurd hpart List.not_mem_nil
      next => exact absurd hpart List.not_mem_nil

theorem intercalate_flatMap {blocks : List TreeBlock} (h : ∀ block ∈ blocks, block.parts ≠ []) :
    ['\n'].intercalate (blocks.flatMap (·.parts)) =
      ['\n'].intercalate (blocks.map fun block => ['\n'].intercalate block.parts) := by
  have happend : ∀ parts parts' : List Text, parts ≠ [] → parts' ≠ [] →
      ['\n'].intercalate (parts ++ parts') =
        ['\n'].intercalate parts ++ ['\n'] ++ ['\n'].intercalate parts' := by
    intro parts parts' hparts hparts'
    induction parts with
    | nil => exact absurd rfl hparts
    | cons part parts ih =>
      by_cases hnil : parts = []
      · subst hnil
        rw [List.singleton_append, List.intercalate_cons_of_ne_nil hparts',
          List.intercalate_singleton]
      · rw [List.cons_append, List.intercalate_cons_of_ne_nil (by simp [hnil]), ih hnil,
          List.intercalate_cons_of_ne_nil hnil]
        simp only [List.append_assoc]
  induction blocks with
  | nil => rfl
  | cons block blocks ih =>
    obtain ⟨hblock, hblocks⟩ := List.forall_mem_cons.mp h
    rw [List.flatMap_cons, List.map_cons]
    cases blocks with
    | nil => rw [List.flatMap_nil, List.append_nil, List.map_nil, List.intercalate_singleton]
    | cons block' blocks =>
      have hne : (block' :: blocks).flatMap (·.parts) ≠ [] := by
        rw [List.flatMap_cons]
        exact List.append_ne_nil_of_left_ne_nil (List.forall_mem_cons.mp hblocks).1 _
      rw [happend _ _ hblock hne, ih hblocks, List.intercalate_cons_of_ne_nil (by simp)]

theorem textLines_eq (content : Text) : Client.textLines content =
    ['\n'].intercalate (((Client.parseMarkdown content).map (·.tree)).map fun block =>
      ['\n'].intercalate block.parts) := by
  have hwords : ∀ runs : List (List Client.Inline),
      runs.map Client.inlineText = (runs.map Client.trees).map words := fun runs => by
    rw [List.map_map]
    exact List.map_congr_left fun run _ => Client.inlineText_tree run
  rw [Client.textLines, List.map_map]
  refine congrArg _ (List.map_congr_left fun block _ => ?_)
  cases block with
  | lines runs => exact congrArg (List.intercalate ['\n']) (hwords runs)
  | quote runs => exact congrArg (List.intercalate ['\n']) (hwords runs)
  | list items =>
    have hitems : (items.map Client.ListItem.content).map Client.trees =
        items.map fun item => Client.trees item.content := by
      rw [List.map_map]
      rfl
    have hcontents := (hwords (items.map Client.ListItem.content)).trans
      (congrArg (List.map words) hitems)
    exact congrArg (List.intercalate ['\n']) hcontents
  | codeblock text lang => rw [Function.comp, Client.Block.tree, TreeBlock.parts,
      List.intercalate_singleton]

theorem withoutBreaks_eq {run text : Text} (h : AllAlike text) :
    Client.withoutBreaks jsSpace run text = Server.withoutBreaks goSpace run text := by
  induction text generalizing run with
  | nil => rfl
  | cons c text ih =>
    rw [Client.withoutBreaks, Server.withoutBreaks, h.head.js, ih h.tail, ih h.tail]

theorem withoutBreaks_alike {run text : Text} (hrun : AllAlike run) (h : AllAlike text) :
    AllAlike (Server.withoutBreaks goSpace run text) := by
  have hbreak : ∀ {run : Text}, AllAlike run →
      AllAlike (if run.contains '\n' then [' '] else run) := by
    intro run hrun
    split
    · exact List.forall_mem_singleton.mpr (by decide)
    · exact hrun
  induction text generalizing run with
  | nil => exact hbreak hrun
  | cons c text ih =>
    rw [Server.withoutBreaks]
    split
    next => exact ih (hrun.concat h.head) h.tail
    next => exact (hbreak hrun).append (List.forall_mem_cons.mpr ⟨h.head, ih AllAlike.nil h.tail⟩)

theorem trimmed_eq {text : Text} (h : AllAlike text) :
    Client.trimmed jsSpace text = Server.trimmed unicodeIsSpace text := by
  have hboth : ∀ {text : Text}, AllAlike text →
      text.dropWhile jsSpace = text.dropWhile unicodeIsSpace := fun h =>
    dropWhile_alike fun c hc => by rw [(h c hc).js, (h c hc).unicode]
  rw [Client.trimmed, Server.trimmed, hboth h, hboth fun c hc => h c ?_]
  rw [List.mem_reverse] at hc
  exact (List.dropWhile_suffix _).subset hc

/-- Trees that are equal are the same words. -/
theorem plainText_eq {content : Text} (halike : AllAlike content)
    (htrees : (Server.parseMarkdown content).map (·.tree) =
      (Client.parseMarkdown content).map (·.tree)) :
    Client.plainText content = Server.plainText content := by
  have hwordy : ∀ block ∈ Server.parseMarkdown content, Wordy block.parts :=
    parseLines_wordy (lines_alike halike)
  have hparts : (Server.parseMarkdown content).flatMap (·.parts) =
      ((Server.parseMarkdown content).map (·.tree)).flatMap (·.parts) := by
    rw [List.flatMap_map]
    exact List.flatMap_congr fun block _ => block.parts_tree
  have hwords : Client.textLines content =
      ['\n'].intercalate ((Server.parseMarkdown content).flatMap (·.parts)) := by
    rw [textLines_eq, ← htrees, hparts]
    refine (intercalate_flatMap fun block hblock => ?_).symm
    obtain ⟨b, hb, rfl⟩ := List.mem_map.mp hblock
    rw [← b.parts_tree]
    exact (hwordy b hb).1
  have hwordsAlike : AllAlike (Client.textLines content) := by
    rw [hwords]
    refine intercalate_alike fun part hpart => ?_
    obtain ⟨b, hb, hpart⟩ := List.mem_flatMap.mp hpart
    exact (hwordy b hb).2 part hpart
  rw [Client.plainText, Server.plainText, ← hwords, withoutBreaks_eq hwordsAlike]
  exact trimmed_eq (withoutBreaks_alike AllAlike.nil hwordsAlike)

/-! ## The links -/

/-- No address of a tree is one only by the fold. -/
def Unfolded (nodes : List Node) : Prop := ∀ href ∈ links nodes, byFold href = false

theorem Unfolded.append {nodes nodes' : List Node} (h : Unfolded nodes) (h' : Unfolded nodes') :
    Unfolded (nodes ++ nodes') := by
  rw [Unfolded, links_append, List.forall_mem_append]
  exact ⟨h, h'⟩

theorem unfolded_singleton {node : Node} (h : ∀ href ∈ node.links, byFold href = false) :
    Unfolded [node] := by
  rwa [Unfolded, links, links, List.append_nil]

/-- An address that isn't the client's has no start that is one by the fold. -/
theorem byFold_of_starts {href url : Text} (hstarts : href <+: url) (h : byFold url = false) :
    byFold href = false := by
  obtain ⟨rest, rfl⟩ := hstarts
  rw [byFold, beq_eq_false_iff_ne] at h ⊢
  intro hfold
  have hlt := (List.getElem?_eq_some_iff.mp hfold).1
  exact h (by rw [List.getElem?_append_left hlt, hfold])

theorem client_urlAt_byFold {source url : Text} (h : Client.urlAt source = some url) :
    byFold source = false := by
  by_contra hfold
  rw [Bool.not_eq_false] at hfold
  rw [Client.urlAt, urlScheme_byFold hfold] at h
  cases h

theorem client_urlAt_starts {source url : Text} (h : Client.urlAt source = some url) :
    url <+: source := by
  rw [Client.urlAt, urlScheme_eq (client_urlAt_byFold h)] at h
  split at h
  next => cases h
  next scheme after hscheme =>
    obtain ⟨rfl, -⟩ := urlScheme_append hscheme
    split at h
    next => cases h
    next =>
      rw [← Option.some.inj h, List.prefix_append_right_inj]
      exact List.takeWhile_prefix _

theorem client_urlWhole_byFold {text : Text} (h : Client.urlWhole text = true) :
    byFold text = false := by
  by_contra hfold
  rw [Bool.not_eq_false] at hfold
  rw [Client.urlWhole, urlScheme_byFold hfold] at h
  cases h

theorem client_labelAt_byFold {source label href : Text} {length : Nat}
    (h : Client.labelAt source = some (label, href, length)) : byFold href = false := by
  unfold Client.labelAt at h
  split at h
  next =>
    split at h
    next => cases h
    next =>
      simp only at h
      split at h
      next =>
        split at h
        next => cases h
        next =>
          split at h
          next => cases h
          next =>
            split at h
            next => cases h
            next hwhole =>
              simp only [Option.some.injEq, Prod.mk.injEq] at h
              rw [← h.2.1]
              exact client_urlWhole_byFold (by simpa using hwhole)
      next => cases h
  next => cases h

/-- A style links what its inside does. -/
theorem delimitedBy_unfolded {parse : Client.Parser} {source : Text}
    (ih : ∀ inside, Unfolded (Client.trees (parse inside))) {delim : Text × Client.Style}
    {node : Client.Inline} {length : Nat}
    (h : Client.delimitedBy parse source delim = some (node, length)) : Unfolded [node.tree] := by
  have hstyled : ∀ (style : Client.Style) inside,
      Unfolded [(Client.Inline.styled style (parse inside)).tree] := by
    intro style inside
    refine unfolded_singleton ?_
    rw [Client.Inline.tree, Node.links]
    exact ih inside
  obtain ⟨mark, style⟩ := delim
  rw [Client.delimitedBy] at h
  simp only at h
  split at h
  next => cases h
  next c rest hopened =>
    split at h
    next children runEnd hrun =>
      obtain ⟨rfl, -⟩ := Prod.mk.inj (Option.some.inj h)
      split at hrun
      next =>
        rw [Client.closeOnStarRun] at hrun
        split at hrun
        next => cases hrun
        next =>
          simp only at hrun
          split at hrun
          next =>
            obtain ⟨rfl, -⟩ := Prod.mk.inj (Option.some.inj hrun)
            exact hstyled _ _
          next => cases hrun
      next => cases hrun
    next => cases h
    next =>
      obtain ⟨rfl, -⟩ := Prod.mk.inj (Option.some.inj h)
      exact hstyled _ _

/-- What a construct links is the client's own address, or in its inside. -/
theorem matchNode_unfolded {parse : Client.Parser} {source : Text}
    (ih : ∀ inside, Unfolded (Client.trees (parse inside))) {node : Client.Inline} {length : Nat}
    (h : Client.matchNode parse source = some (node, length)) : Unfolded [node.tree] := by
  simp only [Client.matchNode, Option.orElse_eq_some] at h
  rcases h with h | ⟨-, h | ⟨-, h | ⟨-, h | ⟨-, h | ⟨-, h⟩⟩⟩⟩⟩
  · obtain ⟨found, -, hpair⟩ := Option.map_eq_some_iff.mp h
    obtain ⟨rfl, -⟩ := Prod.mk.inj hpair
    exact unfolded_singleton (by simp [Client.Inline.tree, Node.links])
  · cases source with
    | nil => cases h
    | cons c rest =>
      simp only [Client.code] at h
      split at h
      next =>
        obtain ⟨rfl, -⟩ := Prod.mk.inj (Option.some.inj h)
        exact unfolded_singleton (by simp [Client.Inline.tree, Node.links])
      next => cases h
  · obtain ⟨url, hurl, hpair⟩ := Option.map_eq_some_iff.mp h
    obtain ⟨rfl, -⟩ := Prod.mk.inj hpair
    refine unfolded_singleton ?_
    rw [Client.Inline.tree, Node.links, trimUrl_eq]
    exact List.forall_mem_singleton.mpr (byFold_of_starts
      ((Server.trimURL_starts url).trans (client_urlAt_starts hurl)) (client_urlAt_byFold hurl))
  · rw [Client.labelledLink] at h
    split at h
    next => cases h
    next label href _ hlabel =>
      simp only at h
      split at h
      next => cases h
      next =>
        obtain ⟨rfl, -⟩ := Prod.mk.inj (Option.some.inj h)
        refine unfolded_singleton ?_
        rw [Client.Inline.tree, Node.links]
        exact List.forall_mem_singleton.mpr (client_labelAt_byFold hlabel)
  · rw [Client.boldItalic] at h
    split at h
    next =>
      obtain ⟨close, -, hpair⟩ := Option.map_eq_some_iff.mp h
      obtain ⟨rfl, -⟩ := Prod.mk.inj hpair
      refine unfolded_singleton ?_
      rw [Client.Inline.tree, Node.links, Client.trees, Client.trees, Client.Inline.tree, links,
        Node.links, links, List.append_nil]
      exact ih _
    next => cases h
  · obtain ⟨delim, -, hby⟩ := List.exists_of_findSome?_eq_some h
    exact delimitedBy_unfolded ih hby

/-- **The client takes no address by the fold.** -/
theorem parse_unfolded (fuel : Nat) (source text : Text) :
    Unfolded (Client.trees (Client.parseInlineFrom fuel source text)) := by
  have hflush : ∀ text, Unfolded (Client.trees (Client.flush text)) := by
    intro text
    rw [Client.flush]
    split <;> simp [Unfolded, Client.trees, Client.Inline.tree, links, Node.links]
  induction fuel generalizing source text with
  | zero => exact hflush text
  | succ fuel ih =>
    cases source with
    | nil => exact hflush text
    | cons c rest =>
      rw [Client.parseInlineFrom]
      split
      next => exact ih _ _
      next =>
        split
        next node length hnode =>
          rw [Client.trees_append, Client.trees]
          exact (hflush text).append
            ((matchNode_unfolded (fun inside => ih inside []) hnode).append (ih _ _))
        next => exact ih _ _

theorem parseInline_unfolded (source : Text) : Unfolded (Client.trees (Client.parseInline source)) :=
  parse_unfolded _ source []

/-- A block's lines are all parsed by the inline parser. -/
theorem readBlock_unfolded (line : Text) (rest : List Text) :
    ∀ run ∈ (Client.readBlock line rest).1.tree.runs, Unfolded run := by
  have hruns : ∀ sources : List Text,
      ∀ run ∈ (sources.map Client.parseInline).map Client.trees, Unfolded run := by
    intro sources run hrun
    rw [List.map_map] at hrun
    obtain ⟨source, -, rfl⟩ := List.mem_map.mp hrun
    exact parseInline_unfolded source
  have hcode : ∀ {block : Client.Block} {after : List Text},
      Client.readCodeblock (line :: rest) = some (block, after) →
        ∀ run ∈ block.tree.runs, Unfolded run := by
    intro block after h
    rw [Client.readCodeblock] at h
    split at h
    next =>
      obtain ⟨rfl, -⟩ := Prod.mk.inj (Option.some.inj h)
      exact fun run hrun => absurd hrun List.not_mem_nil
    next =>
      obtain ⟨lang, -, hpair⟩ := Option.map_eq_some_iff.mp h
      obtain ⟨rfl, -⟩ := Prod.mk.inj hpair
      exact fun run hrun => absurd hrun List.not_mem_nil
  have hlist : ∀ {block : Client.Block} {after : List Text},
      Client.readList (line :: rest) = some (block, after) →
        ∀ run ∈ block.tree.runs, Unfolded run := by
    intro block after h
    simp only [Client.readList] at h
    split at h
    next => cases h
    next =>
      obtain ⟨rfl, -⟩ := Prod.mk.inj (Option.some.inj h)
      intro run hrun
      rw [Client.Block.tree, TreeBlock.runs, List.map_map] at hrun
      obtain ⟨row, -, rfl⟩ := List.mem_map.mp hrun
      exact parseInline_unfolded row.2.2
  have hquote : ∀ {block : Client.Block} {after : List Text},
      Client.readQuote (line :: rest) = some (block, after) →
        ∀ run ∈ block.tree.runs, Unfolded run := by
    intro block after h
    simp only [Client.readQuote] at h
    split at h
    next => cases h
    next =>
      obtain ⟨rfl, -⟩ := Prod.mk.inj (Option.some.inj h)
      exact hruns _
  rw [Client.readBlock]
  cases hread : (Client.readCodeblock (line :: rest) <|> Client.readList (line :: rest) <|>
      Client.readQuote (line :: rest)) with
  | none => exact hruns _
  | some read =>
    obtain ⟨block, after⟩ := read
    simp only [Option.orElse_eq_some] at hread
    rcases hread with h | ⟨-, h | ⟨-, h⟩⟩
    · exact hcode h
    · exact hlist h
    · exact hquote h

/-- **The client links no address by the fold.** -/
theorem links_not_byFold (content : Text) :
    ∀ href ∈ linksOf ((Client.parseMarkdown content).map (·.tree)), byFold href = false := by
  have hblocks : ∀ fuel lines, ∀ block ∈ Client.parseBlocks fuel lines,
      ∀ run ∈ block.tree.runs, Unfolded run := by
    intro fuel lines
    induction fuel generalizing lines with
    | zero => exact fun block hblock => absurd hblock List.not_mem_nil
    | succ fuel ih =>
      cases lines with
      | nil => exact fun block hblock => absurd hblock List.not_mem_nil
      | cons line rest =>
        exact List.forall_mem_cons.mpr ⟨readBlock_unfolded line rest, ih _⟩
  intro href hhref
  obtain ⟨tree, htree, hhref⟩ := List.mem_flatMap.mp hhref
  obtain ⟨block, hblock, rfl⟩ := List.mem_map.mp htree
  obtain ⟨run, hrun, hhref⟩ := List.mem_flatMap.mp hhref
  exact hblocks _ _ block hblock run hrun href hhref

/-! ## The parsers -/

/-- Content whose whitespace characters are spaces, tabs and line feeds. -/
def PlainSpaced (content : Text) : Prop :=
  ∀ c ∈ content, unicodeIsSpace c = true ∨ jsSpace c = true → c ∈ [' ', '\t', '\n']

instance (content : Text) : Decidable (PlainSpaced content) :=
  List.decidableBAll (fun c => unicodeIsSpace c = true ∨ jsSpace c = true → c ∈ [' ', '\t', '\n'])
    content

theorem PlainSpaced.alike {content : Text} (h : PlainSpaced content) : AllAlike content := by
  intro c hc
  by_cases hspace : unicodeIsSpace c = true ∨ jsSpace c = true
  · have hmem := h c hc hspace
    simp only [List.mem_cons, List.not_mem_nil, or_false] at hmem
    rcases hmem with rfl | rfl | rfl <;> decide
  · rw [not_or, Bool.not_eq_true, Bool.not_eq_true] at hspace
    have hgo : goSpace c = false := by
      by_contra hgo
      rw [Bool.not_eq_false] at hgo
      rw [(alike_of_goSpace hgo).unicode, hgo] at hspace
      cases hspace.1
    exact ⟨hspace.1.trans hgo.symm, hspace.2.trans hgo.symm⟩

theorem trees_agree {content : Text} (halike : AllAlike content)
    (hfold : NoFoldIn (content.splitOn '\n')) :
    (Server.parseMarkdown content).map (·.tree) = (Client.parseMarkdown content).map (·.tree) :=
  blocks_agree _ (Nat.le_refl _) (lines_alike halike) hfold 0 []
    fun _ hblock => absurd hblock (Option.not_mem_none _)

/-- **The parsers agree** on content with plain whitespace wherever the server takes no address by the
fold of "ſ" to "s": the same tree, and so the same words, tokens and links. Where an address by the
fold stands in the server's tree, they don't. -/
theorem parsers_agree {content : Text} (hspaced : PlainSpaced content) :
    (NoFoldIn (content.splitOn '\n') →
      (Server.parseMarkdown content).map (·.tree) = (Client.parseMarkdown content).map (·.tree) ∧
      Server.plainText content = Client.plainText content ∧
      tokensOf ((Server.parseMarkdown content).map (·.tree)) =
        tokensOf ((Client.parseMarkdown content).map (·.tree)) ∧
      linksOf ((Server.parseMarkdown content).map (·.tree)) =
        linksOf ((Client.parseMarkdown content).map (·.tree))) ∧
      ((∃ href ∈ linksOf ((Server.parseMarkdown content).map (·.tree)), byFold href = true) →
        (Server.parseMarkdown content).map (·.tree) ≠
          (Client.parseMarkdown content).map (·.tree)) := by
  refine ⟨fun hfold => ?_, ?_⟩
  · have htrees := trees_agree hspaced.alike hfold
    exact ⟨htrees, (plainText_eq hspaced.alike htrees).symm, congrArg tokensOf htrees,
      congrArg linksOf htrees⟩
  · rintro ⟨href, hhref, hfold⟩ htrees
    rw [htrees] at hhref
    rw [links_not_byFold content href hhref] at hfold
    cases hfold

/-- Content without a "ſ" has no address by the fold. -/
theorem noFoldIn_of_not_mem {content : Text} (h : 'ſ' ∉ content) :
    NoFoldIn (content.splitOn '\n') := by
  intro source hsource
  obtain ⟨line, hline, start, rfl⟩ := Server.mem_prose hsource
  exact noFold_of_not_mem fun hmem => h (mem_of_line hline (List.mem_of_mem_drop hmem))

/-- Bold, code and an address, read alike. -/
def plainWords : Text :=
  ['*', '*', 'a', '*', '*', ' ', backtick, 'b', backtick, ' ', 'h', 't', 't', 'p', ':', '/', '/', 'x']

theorem plainWords_agree :
    (Server.parseMarkdown plainWords).map (·.tree) = (Client.parseMarkdown plainWords).map (·.tree) :=
  ((@parsers_agree plainWords (by decide)).1 (noFoldIn_of_not_mem (by decide))).1

/-- **An address by the fold parts them**: the server links it, and to the client it is text. -/
theorem long_s_parts_them :
    ¬ ∀ content, PlainSpaced content →
      (Server.parseMarkdown content).map (·.tree) = (Client.parseMarkdown content).map (·.tree) := by
  intro h
  have hlinks := congrArg linksOf (h ['h', 't', 't', 'p', 'ſ', ':', '/', '/', 'x'] (by decide))
  revert hlinks
  decide

end Stoop.Markdown
