import Stoop.Markdown.Laws

/-!
# The two inline parsers agree

A simulation: at every place of the cursor both take the same construct and call their parsers on the
same insides, so the trees they build are the same, whatever whitespace both class alike and as long
as the server takes no address by the fold of "ſ" to "s".

## The condition

`FoldAt`, `NoFold`

## A construct at the cursor

`Simulates`, `matchNode_tree`, `matchNode_starred`

## The parser

`parse_simulates`
-/

set_option autoImplicit false

namespace Stoop.Markdown

/-! ## The condition -/

/-- An address the server takes only by the fold, at the cursor's place. -/
def FoldAt (place : Text) : Prop :=
  (∃ url, Server.urlAt place = some url ∧ byFold url = true) ∨
    ∃ label href length, Server.labelAt place = some (label, href, length) ∧ byFold href = true

/-- No such address at any place of the cursor while the server parses the text. -/
def NoFold (source : Text) : Prop := ∀ place, Server.Stands source place → ¬ FoldAt place

/-- A text without a "ſ" has no address by the fold. -/
theorem noFold_of_not_mem {source : Text} (h : 'ſ' ∉ source) : NoFold source := by
  intro place hplace hfold
  have hmem : ∀ c ∈ place, c ≠ 'ſ' :=
    hplace.forall_mem (by decide) (by decide) fun c hc heq => h (heq ▸ hc)
  have hno : ∀ {text : Text}, text ⊆ place → byFold text = true → False := by
    intro text hsubset hfold
    rw [byFold, beq_iff_eq] at hfold
    exact hmem _ (hsubset (List.mem_of_getElem? hfold)) rfl
  rcases hfold with ⟨url, hurl, hfold⟩ | ⟨label, href, length, hlabel, hfold⟩
  · obtain ⟨c, rest, -, hstart, -⟩ := Server.urlAt_spec hurl
    exact hno hstart.subset hfold
  · obtain ⟨rest, rfl, -⟩ := Server.labelAt_spec hlabel
    refine hno (fun c hc => ?_) hfold
    simp only [List.mem_cons, List.mem_append]
    tauto

/-! ## Scans of a construct -/

variable {source mark : Text}

theorem not_byFold {text : Text} (h : ¬ byFold text = true) : byFold text = false :=
  (Bool.not_eq_true _).mp h

theorem labelAt_eq (halike : AllAlike source)
    (hfold : ∀ label href length, Server.labelAt source = some (label, href, length) →
      byFold href = false) :
    Client.labelAt source = Server.labelAt source := by
  cases source with
  | nil => rfl
  | cons c rest =>
    by_cases hc : c = '['
    · subst hc
      rw [Server.labelAt] at hfold
      rw [Client.labelAt, Server.labelAt, labelLength_eq]
      cases hlabelEnd : Server.labelLength false rest with
      | none => rfl
      | some labelEnd =>
        have hspace : (rest.take labelEnd).all jsSpace = (rest.take labelEnd).all unicodeIsSpace :=
          all_alike fun c hc => by
            have hc := halike.tail.take labelEnd c hc
            rw [hc.js, hc.unicode]
        simp only [hlabelEnd] at hfold ⊢
        by_cases hshape : ∃ after, rest.drop labelEnd = ']' :: '(' :: after
        · obtain ⟨after, hafter⟩ := hshape
          have hafterAlike : AllAlike after := (hafter ▸ halike.tail.drop labelEnd).tail.tail
          simp only [hafter, hspace, hrefLength_eq] at hfold ⊢
          split
          next => rfl
          next hwords =>
            rw [if_neg hwords] at hfold
            cases hhref : Server.hrefLength 0 after with
            | none => rfl
            | some hrefEnd =>
              simp only [hhref] at hfold ⊢
              have hwhole : Client.urlWhole (after.take hrefEnd) =
                  Server.urlWhole (after.take hrefEnd) :=
                urlWhole_eq (hafterAlike.take hrefEnd) fun hwhole => by
                  rw [hwhole] at hfold
                  exact hfold _ _ _ rfl
              rw [hwhole]
        · rcases hdrop : rest.drop labelEnd with _ | ⟨x, _ | ⟨y, after⟩⟩
          · rfl
          · simp
          · by_cases hx : x = ']'
            · have hy : y ≠ '(' := by
                rintro rfl
                exact hshape ⟨after, hx ▸ hdrop⟩
              simp [hy]
            · simp [hx]
    · rw [Client.labelAt, Server.labelAt]
      · exact fun rest heq => hc (List.cons.inj heq).1
      · exact fun rest heq => hc (List.cons.inj heq).1

theorem opened_eq (halike : AllAlike source) (mark : Text) :
    Client.opened mark source = Server.opened mark source := by
  rw [Client.opened, Server.opened]
  split
  next => rfl
  next =>
    cases hdrop : source.drop mark.length with
    | nil => rfl
    | cons c rest =>
      have hc : Alike c := halike c (List.mem_of_mem_drop (hdrop ▸ List.mem_cons_self ..))
      simp only [hc.js, hc.unicode]

theorem starRunEnd_eq (inside : Text) (close : Option Nat) :
    Client.starRunEnd inside close = Server.starRunEnd inside close := by
  cases close with
  | none => rfl
  | some close => rfl

/-! ## Trees -/

mutual

theorem Server.InlineNode.holdsLink_tree : ∀ node : Server.InlineNode,
    node.holdsLink = !node.tree.links.isEmpty
  | .text _ => by rw [Server.InlineNode.holdsLink, Server.InlineNode.tree, Node.links]; rfl
  | .code _ => by rw [Server.InlineNode.holdsLink, Server.InlineNode.tree, Node.links]; rfl
  | .link _ [] => by rw [Server.InlineNode.holdsLink, Server.InlineNode.tree, Node.links]; rfl
  | .link _ (_ :: _) => by
    rw [Server.InlineNode.holdsLink, Server.InlineNode.tree, Node.links]; rfl
  | .styled children => by
    rw [Server.InlineNode.holdsLink, Server.InlineNode.tree, Node.links,
      Server.holdsLink_trees children]
  | .mention _ _ _ => by
    rw [Server.InlineNode.holdsLink, Server.InlineNode.tree, Node.links]; rfl

theorem Server.holdsLink_trees : ∀ nodes : List Server.InlineNode,
    Server.holdsLink nodes = !(links (Server.trees nodes)).isEmpty
  | [] => by rw [Server.holdsLink, Server.trees, links]; rfl
  | node :: nodes => by
    rw [Server.holdsLink, Server.trees, links, node.holdsLink_tree, Server.holdsLink_trees nodes]
    cases node.tree.links <;> rfl

end

mutual

theorem Client.Inline.holdsLink_tree : ∀ node : Client.Inline,
    node.holdsLink = !node.tree.links.isEmpty
  | .text _ => by rw [Client.Inline.holdsLink, Client.Inline.tree, Node.links]; rfl
  | .code _ => by rw [Client.Inline.holdsLink, Client.Inline.tree, Node.links]; rfl
  | .link _ => by rw [Client.Inline.holdsLink, Client.Inline.tree, Node.links]; rfl
  | .labelled _ _ => by rw [Client.Inline.holdsLink, Client.Inline.tree, Node.links]; rfl
  | .styled _ children => by
    rw [Client.Inline.holdsLink, Client.Inline.tree, Node.links, Client.holdsLink_trees children]
  | .mention _ => by rw [Client.Inline.holdsLink, Client.Inline.tree, Node.links]; rfl

theorem Client.holdsLink_trees : ∀ nodes : List Client.Inline,
    Client.holdsLink nodes = !(links (Client.trees nodes)).isEmpty
  | [] => by rw [Client.holdsLink, Client.trees, links]; rfl
  | node :: nodes => by
    rw [Client.holdsLink, Client.trees, links, node.holdsLink_tree, Client.holdsLink_trees nodes]
    cases node.tree.links <;> rfl

end

/-- Whether a node of the tree is a style. -/
def Node.isStyled : Node → Bool
  | .styled _ => true
  | _ => false

theorem Server.isStyled_tree (node : Server.InlineNode) : node.isStyled = node.tree.isStyled := by
  cases node with
  | link href children => cases children <;> rfl
  | _ => rfl

theorem Server.last_isStyled (nodes : List Server.InlineNode) :
    nodes.getLast?.any (·.isStyled) = (Server.trees nodes).getLast?.any (·.isStyled) := by
  rw [Server.trees_eq_map, List.getLast?_map]
  cases nodes.getLast? with
  | none => rfl
  | some node => exact Server.isStyled_tree node

/-- A node a run of stars can end is a style; the converse is for the last node of what ends in a
star. -/
theorem Client.isStarred_tree {node : Client.Inline}
    (h : ∀ type children, node = .styled type children → node.isStarred = true) :
    node.isStarred = node.tree.isStyled := by
  cases node with
  | styled type children => exact h type children rfl
  | _ => rfl

/-! ## A construct at the cursor -/

variable {cparse : Client.Parser} {sparse : Server.Parser}

/-- The two parsers do the same with an inside: the trees are equal, and what the client's ends a run
of stars with is bold or italic. -/
structure Simulates (cparse : Client.Parser) (sparse : Server.Parser) (inside : Text) : Prop where
  trees : ∀ base own, Client.trees (cparse inside) = Server.trees (sparse inside base own)
  starred : inside.getLast? = some '*' → ∀ type children,
    (cparse inside).getLast? = some (.styled type children) →
      (Client.Inline.styled type children).isStarred = true
  ne_nil : inside ≠ [] → cparse inside ≠ []

/-- What the client finds, as the tree's. -/
def Client.treeFound (found : Option (Client.Inline × Nat)) : Option (Node × Nat) :=
  found.map fun found => (found.1.tree, found.2)

/-- What the server finds, as the tree's. -/
def Server.treeFound (found : Option (Server.InlineNode × Nat)) : Option (Node × Nat) :=
  found.map fun found => (found.1.tree, found.2)

theorem mention_tree (source : Text) (base : Nat) (own : Bool) :
    Client.treeFound (Client.mention source) =
      Server.treeFound (Server.matchToken source base own) := by
  rw [Client.mention, Server.matchToken]
  cases hlength : tokenLength source with
  | zero => rw [mentionTokenAt_none hlength]; rfl
  | succ n =>
    obtain ⟨token, rest, rfl, htoken⟩ := token_at (by omega : tokenLength source ≠ 0)
    rw [mentionTokenAt_text]
    rw [hlength] at htoken
    simp only [Client.treeFound, Server.treeFound, Option.map_some, htoken, List.take_left,
      Client.Inline.tree, Server.InlineNode.tree, tokenParts_text]
    rfl

theorem code_tree (source : Text) :
    Client.treeFound (Client.code source) = Server.treeFound (Server.matchCode source) := by
  cases source with
  | nil => rfl
  | cons c rest =>
    simp only [Client.code, Server.matchCode, tokensAsText_eq]
    split <;> rfl

theorem bareLink_tree (halike : AllAlike source) (hfold : ¬ FoldAt source) :
    Client.treeFound (Client.bareLink source) = Server.treeFound (Server.matchURL source) := by
  have hurl : Client.urlAt source = Server.urlAt source :=
    urlAt_eq halike fun url hurl => not_byFold fun h => hfold (.inl ⟨url, hurl, h⟩)
  rw [Client.bareLink, Server.matchURL, hurl]
  cases Server.urlAt source with
  | none => rfl
  | some url =>
    simp only [Client.treeFound, Server.treeFound, Option.map_some, trimUrl_eq, Client.Inline.tree,
      Server.InlineNode.tree]

theorem labelledLink_tree (halike : AllAlike source) (hfold : ¬ FoldAt source)
    (h : ∀ inside, Server.Calls sparse source inside → Simulates cparse sparse inside) :
    Client.treeFound (Client.labelledLink cparse source) =
      Server.treeFound (Server.matchLabelled sparse source) := by
  have hlabel : Client.labelAt source = Server.labelAt source :=
    labelAt_eq halike fun label href length hlabel =>
      not_byFold fun h => hfold (.inr ⟨label, href, length, hlabel, h⟩)
  rw [Client.labelledLink, Server.matchLabelled, hlabel]
  cases hfound : Server.labelAt source with
  | none => rfl
  | some found =>
    obtain ⟨label, href, length⟩ := found
    have hsim := h _ (.label hfound)
    simp only [tokensAsText_eq, Client.holdsLink_trees, Server.holdsLink_trees, hsim.trees 0 false]
    split
    next => rfl
    next =>
      -- the words are not nothing, so neither is what they parse as
      obtain ⟨-, -, -, hne, -⟩ := Server.labelAt_spec hfound
      have hparsed := hsim.ne_nil fun hnil => hne (tokensAsText_eq_nil hnil)
      have htrees := hsim.trees 0 false
      cases hserver : sparse (tokensAsText label) 0 false with
      | nil =>
        rw [hserver, Client.trees_eq_map, Server.trees_eq_map, List.map_nil, List.map_eq_nil_iff]
          at htrees
        exact absurd htrees hparsed
      | cons child children =>
        rw [hserver, Server.trees] at htrees
        simp only [Client.treeFound, Server.treeFound, Option.map_some, Client.Inline.tree,
          Server.InlineNode.tree, htrees]

theorem boldItalic_tree (halike : AllAlike source) (base : Nat) (own : Bool)
    (h : ∀ inside, Server.Calls sparse source inside → Simulates cparse sparse inside) :
    Client.treeFound (Client.boldItalic cparse source) =
      Server.treeFound (Server.matchBoth sparse source base own) := by
  rw [Client.boldItalic, Server.matchBoth]
  split
  next hstarts =>
    rw [findCloser_eq (by decide) (halike.drop 3)]
    cases hclose : Server.findCloser ['*', '*', '*'] '*' (source.drop 3) with
    | none => rfl
    | some close =>
      have hsim := h _ (.both hstarts hclose)
      simp only [Client.treeFound, Server.treeFound, Option.map_some, Client.Inline.tree,
        Server.InlineNode.tree, Client.trees, Server.trees, hsim.trees (base + 3) own]
  next => rfl

/-- A run of stars ends bold for both, or for neither. -/
theorem closeOnStarRun_tree {inside : Text} {close : Option Nat} (base : Nat) (own : Bool)
    (h : ∀ runEnd, Server.starRunEnd inside close = some runEnd →
      Simulates cparse sparse (inside.take (runEnd - 2))) :
    (Client.closeOnStarRun cparse inside close).map
        (fun found => (Client.trees found.1, found.2)) =
      (Server.closeOnStarRun sparse inside close base own).map
        (fun found => (Server.trees found.1, found.2)) := by
  rw [Client.closeOnStarRun, Server.closeOnStarRun, starRunEnd_eq]
  cases hend : Server.starRunEnd inside close with
  | none => rfl
  | some runEnd =>
    have hsim := h runEnd hend
    -- what the run's first star ends, ends in a star
    obtain ⟨n, -, hthree, hle, hstars⟩ := Server.starRunEnd_spec hend
    have hstar : (inside.take (runEnd - 2)).getLast? = some '*' := by
      rw [List.getLast?_eq_getElem?, List.length_take_of_le (by omega),
        List.getElem?_take_of_lt (by omega)]
      exact hstars _ (by omega) (by omega)
    have hlast : (cparse (inside.take (runEnd - 2))).getLast?.any (·.isStarred) =
        (sparse (inside.take (runEnd - 2)) base own).getLast?.any (·.isStyled) := by
      rw [Server.last_isStyled, ← hsim.trees base own, Client.trees_eq_map, List.getLast?_map]
      cases hlast : (cparse (inside.take (runEnd - 2))).getLast? with
      | none => rfl
      | some node =>
        exact Client.isStarred_tree fun type children heq =>
          heq ▸ hsim.starred hstar type children (heq ▸ hlast)
    simp only [hlast]
    split
    next => simp only [Option.map_some, hsim.trees base own]
    next => rfl

/-- A mark's style is the same to both. -/
theorem delimitedBy_tree (halike : AllAlike source) {style : Client.Style}
    (hmark : (mark, style) ∈ Client.delims) (base : Nat) (own : Bool)
    (hboth : Server.matchBoth sparse source 0 false = none)
    (h : ∀ inside, Server.Calls sparse source inside → Simulates cparse sparse inside) :
    Client.treeFound (Client.delimitedBy cparse source (mark, style)) =
      (Server.delimitedBy sparse source base own mark).map
        fun found => (.styled (Server.trees found.1), found.2) := by
  have hdelims : mark ∈ Server.delims ∧ (style = .spoiler ↔ mark = ['|', '|']) := by
    simp only [Client.delims, List.mem_cons, Prod.mk.injEq, List.not_mem_nil, or_false] at hmark
    rcases hmark with ⟨rfl, rfl⟩ | ⟨rfl, rfl⟩ | ⟨rfl, rfl⟩ | ⟨rfl, rfl⟩ | ⟨rfl, rfl⟩ <;> decide
  obtain ⟨hmem, hspoiler⟩ := hdelims
  simp only [Client.delimitedBy, Server.delimitedBy, opened_eq halike]
  cases hopened : Server.opened mark source with
  | none => rfl
  | some found =>
    obtain ⟨c, rest⟩ := found
    obtain ⟨rfl, -⟩ := Server.opened_spec hopened
    have hrestAlike : AllAlike (c :: rest) := fun c hc => halike c (List.mem_append_right _ hc)
    simp only [findCloser_eq hrestAlike.head hrestAlike.tail]
    generalize hclose : (Server.findCloser mark c rest).map (· + 1) = close
    have hrun : (if mark == ['*', '*'] then Client.closeOnStarRun cparse (c :: rest) close
          else none).map (fun found => (Client.trees found.1, found.2)) =
        (if mark == ['*', '*'] then
          Server.closeOnStarRun sparse (c :: rest) close (base + mark.length) own
          else none).map (fun found => (Server.trees found.1, found.2)) := by
      split
      next hstars =>
        rw [beq_iff_eq] at hstars
        subst hstars
        exact closeOnStarRun_tree _ _ fun runEnd hend =>
          h _ (.starRun hboth hopened (by rw [hclose]; exact hend))
      next => rfl
    generalize (if mark == ['*', '*'] then Client.closeOnStarRun cparse (c :: rest) close
      else none) = crun at hrun ⊢
    cases hsrun : (if mark == ['*', '*'] then
        Server.closeOnStarRun sparse (c :: rest) close (base + mark.length) own else none) with
    | some srun =>
      obtain ⟨schildren, runEnd⟩ := srun
      rw [hsrun, Option.map_some, Option.map_eq_some_iff] at hrun
      obtain ⟨⟨children, _⟩, rfl, hpair⟩ := hrun
      obtain ⟨htrees, rfl⟩ := Prod.mk.inj hpair
      simp only at htrees
      simp only [Client.treeFound, Option.map_some, Client.Inline.tree, htrees]
    | none =>
      rw [hsrun, Option.map_none, Option.map_eq_none_iff] at hrun
      subst hrun
      cases close with
      | none => rfl
      | some close =>
        obtain ⟨close', hclose', rfl⟩ := Option.map_eq_some_iff.mp hclose
        simp only [Client.treeFound, Option.map_some, Client.Inline.tree, tokensAsText_eq]
        by_cases hbars : mark = ['|', '|']
        · have hsim := h _ (.spoiler (hbars ▸ hopened) (hbars ▸ hclose'))
          rw [if_pos (hspoiler.mpr hbars), if_pos (beq_iff_eq.mpr hbars)]
          simp only [Option.map_some, hsim.trees 0 false]
        · have hno : mark = ['*', '*'] → Server.closeOnStarRun sparse (c :: rest)
              (some (close' + 1)) (base + mark.length) own = none := fun hstars => by
            rw [if_pos (beq_iff_eq.mpr hstars)] at hsrun
            exact hsrun
          have hsim := h _ (.inner hboth hmem hopened hclose' hno hbars)
          rw [if_neg fun hstyle => hbars (hspoiler.mp hstyle),
            if_neg fun hmark => hbars (beq_iff_eq.mp hmark)]
          simp only [Option.map_some, hsim.trees (base + mark.length) own]

theorem findSome?_tree {marks : List (Text × Client.Style)}
    {f : Text × Client.Style → Option (Client.Inline × Nat)}
    {g : Text → Option (List Server.InlineNode × Nat)}
    (h : ∀ delim ∈ marks, Client.treeFound (f delim) =
      (g delim.1).map fun found => (.styled (Server.trees found.1), found.2)) :
    Client.treeFound (marks.findSome? f) =
      ((marks.map (·.1)).findSome? g).map fun found => (.styled (Server.trees found.1), found.2) := by
  induction marks with
  | nil => rfl
  | cons delim marks ih =>
    obtain ⟨hhead, htail⟩ := List.forall_mem_cons.mp h
    rw [List.findSome?_cons, List.map_cons, List.findSome?_cons]
    cases hg : g delim.1 with
    | none =>
      rw [hg] at hhead
      rw [Option.map_eq_none_iff.mp hhead]
      exact ih htail
    | some found =>
      rw [hg, Option.map_some] at hhead
      obtain ⟨cfound, hf, hpair⟩ := Option.map_eq_some_iff.mp hhead
      rw [hf]
      exact congrArg some hpair

theorem delimited_tree (halike : AllAlike source) (base : Nat) (own : Bool)
    (hboth : Server.matchBoth sparse source 0 false = none)
    (h : ∀ inside, Server.Calls sparse source inside → Simulates cparse sparse inside) :
    Client.treeFound (Client.delimited cparse source) =
      Server.treeFound (Server.matchDelimited sparse source base own) := by
  rw [Client.delimited, findSome?_tree fun delim hdelim =>
    delimitedBy_tree halike hdelim base own hboth h, Server.matchDelimited, Server.treeFound,
    Option.map_map]
  rfl

theorem orElse_tree {c c' : Option (Client.Inline × Nat)} {s s' : Option (Server.InlineNode × Nat)}
    (h : Client.treeFound c = Server.treeFound s)
    (h' : s = none → Client.treeFound c' = Server.treeFound s') :
    Client.treeFound (c <|> c') = Server.treeFound (s <|> s') := by
  cases s with
  | none =>
    rw [Option.map_eq_none_iff.mp h]
    exact h' rfl
  | some found =>
    obtain ⟨cfound, rfl, hpair⟩ := Option.map_eq_some_iff.mp h
    exact congrArg some hpair

/-- **Both find the same construct at the cursor.** -/
theorem matchNode_tree (halike : AllAlike source) (hfold : ¬ FoldAt source)
    (h : ∀ inside, Server.Calls sparse source inside → Simulates cparse sparse inside) (base : Nat)
    (own : Bool) :
    Client.treeFound (Client.matchNode cparse source) =
      Server.treeFound (Server.nodeAt sparse source base own) :=
  orElse_tree (mention_tree source base own) fun _ =>
    orElse_tree (code_tree source) fun _ =>
      orElse_tree (bareLink_tree halike hfold) fun _ =>
        orElse_tree (labelledLink_tree halike hfold h) fun _ =>
          orElse_tree (boldItalic_tree halike base own h) fun hboth =>
            delimited_tree halike base own (Server.matchBoth_none hboth) h

/-- A style that takes a source that ends in a star, to its end, is bold or italic: its mark ends
there. -/
theorem delimitedBy_starred (halike : AllAlike source) {style type : Client.Style}
    {children : List Client.Inline}
    (hmark : (mark, style) ∈ Client.delims) (hstar : source.getLast? = some '*')
    (h : Client.delimitedBy cparse source (mark, style) =
      some (.styled type children, source.length)) :
    (Client.Inline.styled type children).isStarred = true := by
  have hstyles : mark.getLast? = some '*' →
      (Client.Inline.styled style children).isStarred = true := by
    simp only [Client.delims, List.mem_cons, Prod.mk.injEq, List.not_mem_nil, or_false] at hmark
    rcases hmark with ⟨rfl, rfl⟩ | ⟨rfl, rfl⟩ | ⟨rfl, rfl⟩ | ⟨rfl, rfl⟩ | ⟨rfl, rfl⟩ <;>
      first | exact fun _ => rfl | exact fun h => absurd h (by decide)
  simp only [Client.delimitedBy, opened_eq halike] at h
  split at h
  next => cases h
  next c rest hopened =>
    obtain ⟨rfl, -⟩ := Server.opened_spec hopened
    have hrestAlike : AllAlike (c :: rest) := fun c hc => halike c (List.mem_append_right _ hc)
    simp only [findCloser_eq hrestAlike.head hrestAlike.tail] at h
    split at h
    next children' runEnd hrun =>
      split at hrun
      next hstars =>
        simp only [Option.some.injEq, Prod.mk.injEq, Client.Inline.styled.injEq] at h
        obtain ⟨⟨rfl, rfl⟩, -⟩ := h
        exact hstyles (beq_iff_eq.mp hstars ▸ rfl)
      next => cases hrun
    next => cases h
    next close _ hclose =>
      obtain ⟨close', hclose', rfl⟩ := Option.map_eq_some_iff.mp hclose
      simp only [Option.some.injEq, Prod.mk.injEq, Client.Inline.styled.injEq] at h
      obtain ⟨⟨rfl, rfl⟩, hlength⟩ := h
      -- the closer is what the source ends in
      have hstarts := Server.findCloser_starts hclose'
      have hends : rest.drop close' = mark := by
        refine (hstarts.eq_of_length ?_).symm
        rw [List.length_append, List.length_cons] at hlength
        rw [List.length_drop]
        omega
      refine hstyles ?_
      rw [← List.take_append_drop close' rest, hends] at hstar
      cases hmarkLast : mark.getLast? with
      | none =>
        rw [List.getLast?_eq_none_iff] at hmarkLast
        subst hmarkLast
        simp [Client.delims] at hmark
      | some last =>
        rw [List.getLast?_append, List.getLast?_cons, List.getLast?_append, hmarkLast] at hstar
        simpa using hstar

theorem matchNode_starred (halike : AllAlike source) {type : Client.Style}
    {children : List Client.Inline} (hstar : source.getLast? = some '*')
    (h : Client.matchNode cparse source = some (.styled type children, source.length)) :
    (Client.Inline.styled type children).isStarred = true := by
  simp only [Client.matchNode, Option.orElse_eq_some] at h
  rcases h with h | ⟨-, h | ⟨-, h | ⟨-, h | ⟨-, h | ⟨-, h⟩⟩⟩⟩⟩
  · obtain ⟨found, -, hpair⟩ := Option.map_eq_some_iff.mp h
    cases (Prod.mk.inj hpair).1
  · cases source with
    | nil => cases h
    | cons c rest =>
      simp only [Client.code] at h
      split at h
      next => cases (Prod.mk.inj (Option.some.inj h)).1
      next => cases h
  · obtain ⟨found, -, hpair⟩ := Option.map_eq_some_iff.mp h
    cases (Prod.mk.inj hpair).1
  · rw [Client.labelledLink] at h
    split at h
    next => cases h
    next =>
      simp only at h
      split at h
      next => cases h
      next => cases (Prod.mk.inj (Option.some.inj h)).1
  · rw [Client.boldItalic] at h
    split at h
    next =>
      obtain ⟨close, -, hpair⟩ := Option.map_eq_some_iff.mp h
      rw [← (Prod.mk.inj hpair).1]
      rfl
    next => cases h
  · obtain ⟨⟨mark, style⟩, hmark, hby⟩ := List.exists_of_findSome?_eq_some h
    exact delimitedBy_starred halike hmark hstar hby

/-! ## The parser -/

theorem escape_eq (source : Text) : Client.escape source = Server.escapedAt source := by
  rcases source with _ | ⟨x, _ | ⟨c, rest⟩⟩
  · rfl
  · simp [Client.escape, Server.escapedAt]
  · by_cases hx : x = '\\'
    · rw [hx, Client.escape, Server.escapedAt]
    · simp [Client.escape, Server.escapedAt, hx]

theorem flush_tree (text : Text) :
    Client.trees (Client.flush text) = Server.trees (Server.flush text) := by
  rw [Client.flush, Server.flush]
  split <;> simp only [Client.trees, Server.trees, Client.Inline.tree, Server.InlineNode.tree]

/-- The text gathered is no style. -/
theorem flush_last (text : Text) {type : Client.Style} {children : List Client.Inline} :
    (Client.flush text).getLast? ≠ some (.styled type children) := by
  rw [Client.flush]
  split <;> simp

theorem AllAlike.calls {parse : Server.Parser} {inside : Text} (halike : AllAlike source)
    (h : Server.Calls parse source inside) : AllAlike inside :=
  h.forall_mem (by decide) (by decide) halike

theorem parseInlineFrom_nil (fuel : Nat) (text : Text) :
    Client.parseInlineFrom fuel [] text = Client.flush text := by
  cases fuel <;> rfl

/-- What the client's parser builds of a source, with the text gathered before it, is the server's. -/
structure Built (built : List Client.Inline) (source text : Text) : Prop where
  trees : ∀ base own, Client.trees built = Server.trees (Server.parseFrom source base own text)
  starred : source.getLast? = some '*' → ∀ type children,
    built.getLast? = some (.styled type children) →
      (Client.Inline.styled type children).isStarred = true
  ne_nil : source ≠ [] ∨ text ≠ [] → built ≠ []

/-- A rest that is built says the same of the star the whole source ends in. -/
theorem Built.last {built : List Client.Inline} {text : Text} {n : Nat}
    (h : Built built (source.drop n) text) (hnil : source.drop n = [] → built = Client.flush text)
    (hstar : source.getLast? = some '*') {type : Client.Style} {children : List Client.Inline}
    (hlast : built.getLast? = some (.styled type children)) :
    (Client.Inline.styled type children).isStarred = true := by
  by_cases hend : source.length ≤ n
  · rw [hnil (List.drop_of_length_le hend)] at hlast
    exact absurd hlast (flush_last text)
  · refine h.starred ?_ type children hlast
    rw [List.getLast?_drop, if_neg hend, hstar]

/-- **The simulation.** From any place of the cursor on, both parsers build the same tree. -/
theorem parse_simulates (fuel : Nat) (text : Text) (hfuel : source.length < fuel)
    (halike : AllAlike source) (hfold : NoFold source) :
    Built (Client.parseInlineFrom fuel source text) source text := by
  induction fuel generalizing source text with
  | zero => exact absurd hfuel (Nat.not_lt_zero _)
  | succ fuel ih =>
    cases source with
    | nil =>
      refine ⟨fun _ _ => flush_tree text, fun h => (by cases h), fun h => ?_⟩
      have htext : text ≠ [] := h.resolve_left fun h => h rfl
      rw [parseInlineFrom_nil, Client.flush, if_neg htext]
      exact List.cons_ne_nil _ _
    | cons c rest =>
      rw [List.length_cons] at hfuel
      have hnil : ∀ {n : Nat} (text : Text), (c :: rest).drop n = [] →
          Client.parseInlineFrom fuel ((c :: rest).drop n) text = Client.flush text := by
        intro n text hnil
        rw [hnil, parseInlineFrom_nil]
      rw [Client.parseInlineFrom, escape_eq]
      cases hescape : Server.escapedAt (c :: rest) with
      | some escaped =>
        have hlength := List.length_drop (i := 1) (l := rest)
        have hrest := ih (text ++ [escaped]) (by omega) (halike.tail.drop 1)
          fun place hplace => hfold place (.escape hescape hplace)
        refine ⟨fun base own => ?_, fun hstar type children hlast => ?_, fun _ => ?_⟩
        · rw [Server.parseFrom_cons, hescape]
          exact hrest.trees (base + 2) own
        · exact Built.last (n := 2) hrest (hnil (n := 2) _) hstar hlast
        · exact hrest.ne_nil (.inr (by simp))
      | none =>
        have hcalls : ∀ inside, Server.Calls Server.parseInlineAt (c :: rest) inside →
            Simulates (fun inside => Client.parseInlineFrom fuel inside []) Server.parseInlineAt
              inside := by
          intro inside hinside
          have hshorter := hinside.shorter
          rw [List.length_cons] at hshorter
          have hbuilt := ih [] (by omega) (halike.calls hinside)
            fun place hplace => hfold place (.inside hescape hinside hplace)
          exact ⟨hbuilt.trees, hbuilt.starred, fun hne => hbuilt.ne_nil (.inl hne)⟩
        have hnode := matchNode_tree halike (hfold _ (.here _)) hcalls
        cases hclient : Client.matchNode (fun inside => Client.parseInlineFrom fuel inside [])
            (c :: rest) with
        | none =>
          have hserver : ∀ base own,
              Server.nodeAt Server.parseInlineAt (c :: rest) base own = none := fun base own => by
            rw [← Option.map_eq_none_iff (f := fun found => (found.1.tree, found.2))]
            exact (hnode base own).symm.trans (congrArg Client.treeFound hclient)
          have hrest := ih (text ++ [c]) (by omega) halike.tail
            fun place hplace => hfold place (.char hescape (hserver 0 false) hplace)
          refine ⟨fun base own => ?_, fun hstar type children hlast => ?_, fun _ => ?_⟩
          · rw [Server.parseFrom_cons, hescape, hserver]
            exact hrest.trees (base + c.utf8Size) own
          · exact Built.last (n := 1) hrest (hnil (n := 1) _) hstar hlast
          · exact hrest.ne_nil (.inr (by simp))
        | some found =>
          obtain ⟨node, length⟩ := found
          have hserver : ∀ base own, ∃ snode,
              Server.nodeAt Server.parseInlineAt (c :: rest) base own = some (snode, length) ∧
                node.tree = snode.tree := fun base own => by
            have h := (hnode base own).symm.trans (congrArg Client.treeFound hclient)
            obtain ⟨⟨snode, slength⟩, hsnode, hpair⟩ := Option.map_eq_some_iff.mp h
            obtain ⟨htree, rfl⟩ := Prod.mk.inj hpair
            exact ⟨snode, hsnode, htree.symm⟩
          obtain ⟨snode, hsnode, -⟩ := hserver 0 false
          obtain ⟨hpos, hle⟩ := (Server.found_of_nodeAt hsnode).length_le
          have hlength := List.length_drop (i := length) (l := c :: rest)
          rw [List.length_cons] at hlength
          have hrest := ih [] (by omega) (halike.drop length)
            fun place hplace => hfold place (.node hescape hsnode hplace)
          refine ⟨fun base own => ?_, fun hstar type children hlast => ?_, fun _ => ?_⟩
          · obtain ⟨snode', hsnode', htree⟩ := hserver base own
            rw [Server.parseFrom_cons, hescape, hsnode']
            simp only [Client.trees_append, Server.trees_append, Client.trees, Server.trees,
              flush_tree, htree, hrest.trees (base + byteLength ((c :: rest).take length)) own]
          · rw [List.getLast?_append, List.getLast?_cons] at hlast
            cases hrestLast : (Client.parseInlineFrom fuel ((c :: rest).drop length) []).getLast? with
            | none =>
              -- the node is the last, so it takes the source to its end
              rw [List.getLast?_eq_none_iff] at hrestLast
              have hend : (c :: rest).drop length = [] := by
                by_contra hne
                exact hrest.ne_nil (.inl hne) hrestLast
              have hwhole : length = (c :: rest).length :=
                Nat.le_antisymm hle (List.drop_eq_nil_iff.mp hend)
              simp only [hrestLast, List.getLast?_nil, Option.getD_none, Option.some_or,
                Option.some.injEq] at hlast
              rw [hlast, hwhole] at hclient
              exact matchNode_starred halike hstar hclient
            | some last =>
              simp only [hrestLast, Option.getD_some, Option.some_or, Option.some.injEq] at hlast
              exact hrest.last (hnil []) hstar (hlast ▸ hrestLast)
          · simp

end Stoop.Markdown
