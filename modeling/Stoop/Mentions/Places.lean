import Stoop.Markdown.Laws
import Stoop.Mentions.Standing

/-!
# Where the mentions of a parse stand

A mention the parse finds in the content's own text is the token that stands at its offset. The words of a
link and a spoiler are parsed as a text of their own, with their tokens read as names: a mention found there
(the rewriting can bring one about) has an offset in that text, and further on in the content, in the words
it comes from, a token stands that is no mention (`Sited.copied`).
-/

set_option autoImplicit false

namespace Stoop.Mentions

open Stoop.Lib Stoop.Markdown Stoop.Markdown.Server

/-! ## What a walk meets -/

@[simp] theorem walk_nil : walk [] = [] := rfl

@[simp] theorem walk_cons (node : InlineNode) (nodes : List InlineNode) :
    walk (node :: nodes) = walkNode node ++ walk nodes := rfl

theorem walk_append (nodes nodes' : List InlineNode) : walk (nodes ++ nodes') = walk nodes ++ walk nodes' := by
  induction nodes with
  | nil => rfl
  | cons node nodes ih => rw [List.cons_append, walk_cons, walk_cons, ih, List.append_assoc]

/-- Whether the nodes hold a mention, written so and with this offset, of the content's own or not. -/
def Holds (nodes : List InlineNode) (written : Text) (offset : Nat) (own : Bool) : Prop :=
  .mention written offset own ∈ walk nodes

variable {nodes nodes' children : List InlineNode} {written source rest : Text} {offset base : Nat} {own own' : Bool}

theorem holds_append : Holds (nodes ++ nodes') written offset own ↔
    Holds nodes written offset own ∨ Holds nodes' written offset own := by
  rw [Holds, walk_append, List.mem_append]
  rfl

theorem holds_styled : Holds [.styled children] written offset own ↔ Holds children written offset own := by
  simp [Holds, walkNode]

theorem holds_link {href : Text} :
    Holds [.link href children] written offset own ↔ Holds children written offset own := by
  simp [Holds, walkNode]

theorem not_holds_nil : ¬ Holds [] written offset own := List.not_mem_nil

theorem not_holds_text {text : Text} : ¬ Holds [.text text] written offset own := by
  simp [Holds, walkNode]

theorem not_holds_code {text : Text} : ¬ Holds [.code text] written offset own := by
  simp [Holds, walkNode]

/-! ## Sited nodes -/

/-- The nodes found in a source that starts at an offset, and their mentions: the content's own stand where
they say, and a copy, found in rewritten words, has before it on a token that no own mention is at. -/
structure Sited (own : Bool) (source : Text) (base : Nat) (nodes : List InlineNode) : Prop where
  placed : ∀ written offset, Holds nodes written offset true → own = true ∧
    ∃ token beyond, written = token.text ∧ offset = base + beyond ∧ StandsAt source beyond token
  copied : ∀ written offset, Holds nodes written offset false → ∃ token beyond, StandsAt source beyond token ∧
    offset ≤ base + beyond ∧
      (own = true → offset < base + beyond ∧ ∀ written', ¬ Holds nodes written' (base + beyond) true)

variable {token : Token}

theorem StandsAt.lt (h : StandsAt source offset token) : offset < byteLength source := by
  obtain ⟨before, after, rfl, rfl⟩ := h
  obtain ⟨tail, htail, _⟩ := text_cons token
  rw [byteLength_append, htail, List.cons_append, byteLength_cons]
  have hsize := Char.utf8Size_pos '<'
  omega

theorem StandsAt.right (h : StandsAt source offset token) (after : Text) :
    StandsAt (source ++ after) offset token := by
  obtain ⟨before, after', rfl, rfl⟩ := h
  exact ⟨before, after' ++ after, by simp, rfl⟩

theorem StandsAt.left (h : StandsAt source offset token) (before : Text) :
    StandsAt (before ++ source) (byteLength before + offset) token := by
  obtain ⟨before', after, rfl, rfl⟩ := h
  exact ⟨before ++ before', after, by simp, byteLength_append _ _⟩

namespace Sited

theorem of_none (h : ∀ written offset own, ¬ Holds nodes written offset own) : Sited own source base nodes where
  placed := fun written offset hholds => absurd hholds (h written offset true)
  copied := fun written offset hholds => absurd hholds (h written offset false)

theorem congr (h : ∀ written offset own, Holds nodes' written offset own ↔ Holds nodes written offset own)
    (hsited : Sited own source base nodes) : Sited own source base nodes' where
  placed := fun written offset hholds => hsited.placed written offset ((h _ _ _).mp hholds)
  copied := by
    intro written offset hholds
    obtain ⟨token, beyond, hstands, hle, hidden⟩ := hsited.copied written offset ((h _ _ _).mp hholds)
    refine ⟨token, beyond, hstands, hle, fun hown => ⟨(hidden hown).1, fun written' hholds' => ?_⟩⟩
    exact (hidden hown).2 written' ((h _ _ _).mp hholds')

/-- **One stretch after another.** -/
theorem append {source' : Text} (h : Sited own source base nodes)
    (h' : Sited own source' (base + byteLength source) nodes') :
    Sited own (source ++ source') base (nodes ++ nodes') where
  placed := by
    intro written offset hholds
    rcases holds_append.mp hholds with hholds | hholds
    · obtain ⟨hown, token, beyond, hwritten, rfl, hstands⟩ := h.placed written offset hholds
      exact ⟨hown, token, beyond, hwritten, rfl, hstands.right source'⟩
    · obtain ⟨hown, token, beyond, hwritten, rfl, hstands⟩ := h'.placed written offset hholds
      exact ⟨hown, token, byteLength source + beyond, hwritten, Nat.add_assoc _ _ _, hstands.left source⟩
  copied := by
    intro written offset hholds
    rcases holds_append.mp hholds with hholds | hholds
    · obtain ⟨token, beyond, hstands, hle, hidden⟩ := h.copied written offset hholds
      refine ⟨token, beyond, hstands.right source', hle, fun hown => ⟨(hidden hown).1, fun written' hholds' => ?_⟩⟩
      rcases holds_append.mp hholds' with hfirst | hsecond
      · exact (hidden hown).2 written' hfirst
      · obtain ⟨_, _, beyond', _, heq, _⟩ := h'.placed written' _ hsecond
        have hlt := hstands.lt
        omega
    · obtain ⟨token, beyond, hstands, hle, hidden⟩ := h'.copied written offset hholds
      refine ⟨token, byteLength source + beyond, hstands.left source, by omega, fun hown => ?_⟩
      refine ⟨by have hlt := (hidden hown).1; omega, fun written' hholds' => ?_⟩
      rw [← Nat.add_assoc] at hholds'
      rcases holds_append.mp hholds' with hfirst | hsecond
      · obtain ⟨_, _, beyond', _, heq, hstands'⟩ := h.placed written' _ hfirst
        have hlt := hstands'.lt
        omega
      · exact (hidden hown).2 written' hsecond

theorem nil : Sited own source base [] := of_none fun _ _ _ => not_holds_nil

/-- Nodes of a part, found in the whole. -/
theorem within {before after : Text} (h : Sited own source (base + byteLength before) nodes) :
    Sited own (before ++ (source ++ after)) base nodes := by
  have hright : Sited own (source ++ after) (base + byteLength before) (nodes ++ []) := h.append nil
  rw [List.append_nil] at hright
  exact (nil : Sited own before base []).append hright

/-- What is parsed inside a mark. -/
theorem inside (mark : Text) (n : Nat) {length : Nat} (h : Sited own (rest.take n) (base + byteLength mark) nodes)
    (hlength : mark.length + n ≤ length) : Sited own ((mark ++ rest).take length) base nodes := by
  have htake : (mark ++ rest).take length = mark ++ (rest.take n ++ (rest.take (length - mark.length)).drop n) := by
    rw [List.take_append, List.take_of_length_le (by omega)]
    have hmin : rest.take n = (rest.take (length - mark.length)).take n := by
      rw [List.take_take, Nat.min_eq_left (by omega)]
    rw [hmin, List.take_append_drop]
  rw [htake]
  exact h.within

theorem styled (h : Sited own source base children) : Sited own source base [.styled children] :=
  h.congr fun _ _ _ => holds_styled

theorem link {href : Text} (h : Sited own source base children) : Sited own source base [.link href children] :=
  h.congr fun _ _ _ => holds_link

end Sited

/-! ## Words with their tokens read as names -/

theorem standsAt_cons {c : Char} (h : StandsAt (c :: rest) offset token) :
    (offset = 0 ∧ ∃ after, c :: rest = token.text ++ after) ∨
      ∃ beyond, offset = c.utf8Size + beyond ∧ StandsAt rest beyond token := by
  obtain ⟨before, after, heq, rfl⟩ := h
  cases before with
  | nil => exact .inl ⟨rfl, after, heq⟩
  | cons c' before =>
    obtain ⟨rfl, rfl⟩ := List.cons.inj heq
    exact .inr ⟨byteLength before, rfl, before, after, rfl, rfl⟩

/-- No token starts in text without a "<". -/
theorem standsAt_past {text : Text} (hopen : '<' ∉ text) (h : StandsAt (text ++ rest) offset token) :
    ∃ beyond, offset = byteLength text + beyond ∧ StandsAt rest beyond token := by
  induction text generalizing offset with
  | nil => exact ⟨offset, (Nat.zero_add _).symm, h⟩
  | cons c text ih =>
    rw [List.mem_cons, not_or] at hopen
    rcases standsAt_cons h with ⟨_, after, heq⟩ | ⟨beyond, rfl, hstands⟩
    · obtain ⟨tail, htail, _⟩ := text_cons token
      rw [htail, List.cons_append] at heq
      exact absurd (List.cons.inj heq).1.symm hopen.1
    · obtain ⟨beyond', rfl, hstands'⟩ := ih hopen.2 hstands
      exact ⟨beyond', by rw [byteLength_cons, Nat.add_assoc], hstands'⟩

theorem tokensAsText_eq_self (h : ∀ offset token, ¬ StandsAt source offset token) :
    tokensAsText source = source := by
  induction source using token_induction with
  | nil => rfl
  | char c rest hc ih =>
    rw [tokensAsText_char hc, ih fun offset token hstands =>
      h _ token ((standsAt_char hc).mpr ⟨offset, rfl, hstands⟩)]
  | token token rest _ => exact absurd (standsAt_token.mpr (.inl ⟨rfl, rfl⟩)) (h 0 token)

theorem byteLength_tokenAsText_le (token : Token) :
    byteLength (tokenAsText token.kind token.handle) ≤ byteLength token.text := by
  rw [Token.text, tokenText]
  cases token.kind <;> simp [tokenAsText, TokenKind.opening] <;> omega

/-- **A token that comes about as tokens are read as names** has further on one of those it comes from. -/
theorem standsAt_of_tokensAsText (h : StandsAt (tokensAsText source) offset token) :
    ∃ token' beyond, StandsAt source beyond token' ∧ offset < beyond := by
  induction source using token_induction generalizing offset with
  | nil => exact absurd h standsAt_nil
  | char c rest hc ih =>
    rw [tokensAsText_char hc] at h
    rcases standsAt_cons h with ⟨rfl, after, heq⟩ | ⟨beyond, rfl, hbeyond⟩
    · -- were there no token further on, nothing would have been rewritten
      by_contra hnone
      have hself : tokensAsText rest = rest := tokensAsText_eq_self fun beyond token' hstands =>
        hnone ⟨token', c.utf8Size + beyond, (standsAt_char hc).mpr ⟨beyond, rfl, hstands⟩,
          Nat.add_pos_left (Char.utf8Size_pos c) beyond⟩
      rw [hself] at heq
      rw [heq, tokenLength_text] at hc
      have hpos := token.length_pos
      omega
    · obtain ⟨token', beyond', hstands, hlt⟩ := ih hbeyond
      exact ⟨token', _, (standsAt_char hc).mpr ⟨beyond', rfl, hstands⟩, Nat.add_lt_add_left hlt _⟩
  | token token' rest ih =>
    rw [tokensAsText_token] at h
    obtain ⟨beyond, rfl, hbeyond⟩ := standsAt_past (tokenAsText_ne_open token'.handle_ok) h
    obtain ⟨found, beyond', hstands, hlt⟩ := ih hbeyond
    have hle := byteLength_tokenAsText_le token'
    exact ⟨found, _, standsAt_token.mpr (.inr ⟨beyond', rfl, hstands⟩), by omega⟩

/-- Nodes found in rewritten words are copies. -/
theorem Sited.copy (h : Sited false (tokensAsText source) 0 nodes) : Sited own source base nodes where
  placed := by
    intro written offset hholds
    cases (h.placed written offset hholds).1
  copied := by
    intro written offset hholds
    obtain ⟨token, beyond, hstands, hle, _⟩ := h.copied written offset hholds
    obtain ⟨token', beyond', hstands', hlt⟩ := standsAt_of_tokensAsText hstands
    refine ⟨token', beyond', hstands', by omega, fun _ => ⟨by omega, fun written' hholds' => ?_⟩⟩
    cases (h.placed written' _ hholds').1

/-! ## The inline parser -/

theorem holds_mention {token : Text} : Holds [.mention token base own] written offset own' ↔
    written = token ∧ offset = base ∧ own' = own := by
  simp [Holds, walkNode]

theorem Sited.mention (token : Token) : Sited own token.text base [.mention token.text base own] where
  placed := by
    intro written offset hholds
    obtain ⟨rfl, rfl, rfl⟩ := holds_mention.mp hholds
    exact ⟨rfl, token, 0, rfl, rfl, [], [], by simp, rfl⟩
  copied := by
    intro written offset hholds
    obtain ⟨rfl, rfl, rfl⟩ := holds_mention.mp hholds
    exact ⟨token, 0, ⟨[], [], by simp, rfl⟩, Nat.le_refl _, by rintro ⟨⟩⟩

theorem byteLength_of_mem_delims {mark : Text} (h : mark ∈ delims) : byteLength mark = mark.length := by
  simp only [delims, List.mem_cons, List.not_mem_nil, or_false] at h
  rcases h with rfl | rfl | rfl | rfl | rfl <;> decide

/-- **A construct's mentions** stand in what it takes, where what it parses inside is sited. -/
theorem sited_of_found {parse : Parser} {node : InlineNode} {length : Nat}
    (hparse : ∀ inside, inside.length < source.length → ∀ base own, Sited own inside base (parse inside base own))
    (h : Found parse source base own node length) : Sited own (source.take length) base [node] := by
  cases h with
  | token token rest hsource =>
    rw [hsource, List.take_left]
    exact .mention token
  | code hsource => exact .of_none fun _ _ _ => not_holds_code
  | url hurl => exact (Sited.of_none fun _ _ _ => not_holds_nil).link
  | @label label href _ hlabel =>
    have hcalls : Calls parse source _ := .label hlabel
    have hinside := hparse _ hcalls.shorter 0 false
    obtain ⟨after, rfl, rfl, -⟩ := labelAt_spec hlabel
    refine (Sited.inside ['['] label.length ?_ (by simp; omega)).link
    change Sited own ((label ++ _).take label.length) _ _
    rw [List.take_left]
    exact hinside.copy
  | @both close hstarts hclose =>
    have hcalls : Calls parse source _ := .both hstarts hclose
    have hinside := hparse _ hcalls.shorter (base + 3) own
    obtain ⟨after, rfl⟩ := List.isPrefixOf_iff_prefix.mp hstarts
    exact .styled (.styled (.inside ['*', '*', '*'] close hinside (by simp)))
  | @starRun c after runEnd hboth hopened hend =>
    have hinside := hparse _ (Calls.starRun hboth hopened hend).shorter (base + 2) own
    obtain ⟨rfl, -⟩ := opened_spec hopened
    exact .styled (.inside ['*', '*'] (runEnd - 2) hinside (by simp))
  | @inner mark c after close hboth hmark hopened hclose hrun hbars =>
    have hinside := hparse _ (Calls.inner hboth hmark hopened hclose hrun hbars).shorter (base + mark.length) own
    obtain ⟨rfl, -⟩ := opened_spec hopened
    refine .styled (.inside mark (close + 1) ?_ (by omega))
    rw [byteLength_of_mem_delims hmark]
    exact hinside
  | @spoiler c after close hopened hclose =>
    have hcalls : Calls parse source _ := .spoiler hopened hclose
    have hinside := hparse _ hcalls.shorter 0 false
    obtain ⟨rfl, -⟩ := opened_spec hopened
    exact .styled (.inside ['|', '|'] (close + 1) hinside.copy (by simp))

theorem sited_flush {text : Text} : Sited own source base (flush text) := by
  rw [flush]
  split
  next => exact .nil
  next => exact .of_none fun _ _ _ => not_holds_text

/-- A character of one byte that a backslash takes the meaning of. -/
theorem utf8Size_of_escapedAt {c : Char} (h : escapedAt source = some c) : c.utf8Size = 1 := by
  unfold escapedAt at h
  split at h
  next c' rest =>
    split at h
    next hescapable =>
      rw [← Option.some.inj h]
      simp only [escapable, List.contains_iff_mem, List.mem_cons, List.not_mem_nil, or_false] at hescapable
      rcases hescapable with rfl | rfl | rfl | rfl | rfl | rfl | rfl | rfl | rfl | rfl | rfl | rfl | rfl | rfl <;>
        decide
    next => cases h
  next => cases h

/-- **The mentions of a line's parse.** -/
theorem sited_parseFrom (source : Text) (base : Nat) (own : Bool) (text : Text) :
    Sited own source base (parseFrom source base own text) := by
  induction hlength : source.length using Nat.strongRecOn generalizing source base own text with
  | _ n ih =>
    subst hlength
    cases source with
    | nil => exact sited_flush
    | cons c rest =>
      rw [parseFrom_cons]
      split
      next escaped hescape =>
        obtain ⟨after, heq⟩ := escapedAt_spec hescape
        obtain ⟨rfl, rfl⟩ := List.cons.inj heq
        have hrest := ih after.length (by rw [List.length_cons, List.length_cons]; omega) after (base + 2) own (text ++ [escaped]) rfl
        refine (Sited.nil : Sited own ['\\', escaped] base []).append ?_
        rw [byteLength_cons, byteLength_cons, utf8Size_of_escapedAt hescape]
        exact hrest
      next =>
        split
        next node length hnode =>
          have hfound := found_of_nodeAt hnode
          have hnode' := sited_of_found (fun inside hshorter base own =>
            ih inside.length hshorter inside base own [] rfl) hfound
          have hrest := ih ((c :: rest).drop length).length (by
            rw [List.length_drop]
            have hpos := hfound.length_le
            omega) _ (base + byteLength ((c :: rest).take length)) own [] rfl
          have hboth := hnode'.append hrest
          rw [List.take_append_drop] at hboth
          exact (sited_flush : Sited own [] base (flush text)).append hboth
        next =>
          exact (Sited.nil : Sited own [c] base []).append (ih rest.length (Nat.lt_succ_self _) rest _ own _ rfl)

/-! ## Where a line's text starts -/

theorem byteLength_take_add (text : Text) (n m : Nat) :
    byteLength (text.take (n + m)) = byteLength (text.take n) + byteLength ((text.drop n).take m) := by
  rw [List.take_add, byteLength_append]

/-- Text of characters of one byte each. -/
theorem byteLength_of_ascii {text : Text} (h : ∀ c ∈ text, c.utf8Size = 1) : byteLength text = text.length := by
  induction text with
  | nil => rfl
  | cons c text ih =>
    rw [List.forall_mem_cons] at h
    rw [byteLength_cons, h.1, ih h.2, List.length_cons, Nat.add_comm]

/-- The characters at the start of text that are all of a kind, of one byte each. -/
theorem byteLength_takeWhile {p : Char → Bool} (hp : ∀ c, p c = true → c.utf8Size = 1) (text : Text) :
    byteLength (text.takeWhile p) = (text.takeWhile p).length :=
  byteLength_of_ascii fun c hc => hp c (List.mem_takeWhile_imp hc)

theorem utf8Size_space {c : Char} (h : goSpace c = true) : c.utf8Size = 1 := by
  simp only [goSpace, List.contains_iff_mem, List.mem_cons, List.not_mem_nil, or_false] at h
  rcases h with rfl | rfl | rfl | rfl | rfl <;> decide

theorem utf8Size_digit {c : Char} (h : isDigit c = true) : c.utf8Size = 1 := by
  rw [isDigit, Bool.and_eq_true, decide_eq_true_eq, decide_eq_true_eq] at h
  have hle : c.val ≤ 0x7f := Nat.le_trans (m := '9'.val.toNat) h.2 (by decide)
  rw [Char.utf8Size]
  exact if_pos hle

/-- The start of text that is what a scan takes of it. -/
theorem take_takeWhile (p : Char → Bool) (text : Text) (n : Nat) :
    text.take ((text.take n).takeWhile p).length = (text.take n).takeWhile p := by
  have hstarts : (text.take n).takeWhile p <+: text := (List.takeWhile_prefix p).trans (List.take_prefix n text)
  exact (List.prefix_iff_eq_take.mp hstarts).symm

theorem byteLength_bullet {text : Text} {bullet : Nat} (h : bulletLength text = some bullet) :
    byteLength (text.take bullet) = bullet := by
  cases text with
  | nil => cases h
  | cons c rest =>
    rw [bulletLength] at h
    split at h
    next hmark =>
      obtain rfl := Option.some.inj h
      rw [Bool.or_eq_true, beq_iff_eq, beq_iff_eq] at hmark
      rcases hmark with rfl | rfl <;> rfl
    next =>
      simp only at h
      generalize hdigits : ((c :: rest).take 9).takeWhile isDigit = digits at h
      have htake : (c :: rest).take digits.length = digits := hdigits ▸ take_takeWhile isDigit _ _
      have hbytes : byteLength digits = digits.length := hdigits ▸ byteLength_takeWhile (fun _ => utf8Size_digit) _
      split at h
      next mark after hdrop =>
        split at h
        next hmark =>
          obtain rfl := Option.some.inj h
          rw [Bool.and_eq_true, Bool.or_eq_true, beq_iff_eq, beq_iff_eq] at hmark
          rw [byteLength_take_add, htake, hdrop, hbytes]
          rcases hmark.2 with rfl | rfl <;> rfl
        next => cases h
      next => cases h

/-- **What stands before a list row's text is as many bytes as characters.** -/
theorem byteLength_listLine {line : Text} {item : Nat} (h : listLine line = some item) :
    byteLength (line.take item) = item := by
  simp only [listLine] at h
  generalize hindent : ((line.take 6).takeWhile (· == ' ')).length = indent at h
  split at h
  next => cases h
  next bullet hbullet =>
    split at h
    next => cases h
    next spaces hspaces =>
      obtain rfl := Option.some.inj h
      have hfirst : byteLength (line.take indent) = indent := by
        rw [← hindent, take_takeWhile]
        refine byteLength_takeWhile (fun c hc => ?_) _
        rw [beq_iff_eq.mp hc]
        rfl
      have hlast : byteLength ((line.drop (indent + bullet)).take (spaces + 1)) = spaces + 1 := by
        rw [← Nat.succ_eq_add_one, ← hspaces, ← List.prefix_iff_eq_take.mp (List.takeWhile_prefix _)]
        exact byteLength_takeWhile (fun _ => utf8Size_space) _
      rw [byteLength_take_add, byteLength_take_add, hfirst, byteLength_bullet hbullet, hlast]

theorem byteLength_quoteLine {line : Text} {quoted : Nat} (h : quoteLine line = some quoted) :
    byteLength (line.take quoted) = quoted := by
  unfold quoteLine at h
  split at h
  next c rest =>
    obtain rfl := Option.some.inj h
    split
    next hspace =>
      rw [List.take_succ_cons, List.take_succ_cons, List.take_zero, byteLength_cons, byteLength_cons,
        utf8Size_space hspace]
      rfl
    next => rfl
  next =>
    obtain rfl := Option.some.inj h
    rfl
  next => cases h

/-! ## Lines -/

/-- A block's inline nodes, line by line and item by item. -/
def inlineNodes (blocks : List Block) : List InlineNode :=
  blocks.flatMap fun block => (block.lines ++ block.items).flatten

theorem walk_flatten (lines : List (List InlineNode)) : walk lines.flatten = lines.flatMap walk := by
  induction lines with
  | nil => rfl
  | cons line lines ih => rw [List.flatten_cons, walk_append, List.flatMap_cons, ih]

theorem walkInline_eq (blocks : List Block) : walkInline blocks = walk (inlineNodes blocks) := by
  rw [walkInline, inlineNodes]
  induction blocks with
  | nil => rfl
  | cons block blocks ih => rw [List.flatMap_cons, List.flatMap_cons, walk_append, walk_flatten, ih]

theorem inlineNodes_append (blocks blocks' : List Block) :
    inlineNodes (blocks ++ blocks') = inlineNodes blocks ++ inlineNodes blocks' := List.flatMap_append

theorem inlineNodes_singleton (block : Block) : inlineNodes [block] = (block.lines ++ block.items).flatten := by
  rw [inlineNodes, List.flatMap_singleton]

/-- The blocks with a line's nodes in the last of them hold what they held and the line's. -/
theorem holds_last {kind : BlockKind} {add : Block → Block} {blocks : List Block}
    (hadd : ∀ block written offset own, Holds (inlineNodes [add block]) written offset own ↔
      Holds (inlineNodes [block] ++ nodes) written offset own) :
    Holds (inlineNodes (last kind add blocks)) written offset own ↔
      Holds (inlineNodes blocks ++ nodes) written offset own := by
  have hfresh : Holds (inlineNodes [add { kind := kind }]) written offset own ↔ Holds nodes written offset own :=
    hadd _ _ _ _
  rw [last]
  split
  next block hblock =>
    obtain ⟨first, rfl⟩ := List.getLast?_eq_some_iff.mp hblock
    split
    next =>
      rw [List.dropLast_concat, inlineNodes_append, inlineNodes_append, List.append_assoc, holds_append,
        hadd, @holds_append (inlineNodes first)]
    next => rw [inlineNodes_append _ [add _], holds_append, hfresh, holds_append]
  next hnone =>
    rw [List.getLast?_eq_none_iff.mp hnone]
    exact hfresh

theorem holds_newLine (block : Block) (written : Text) (offset : Nat) (own : Bool) :
    Holds (inlineNodes [{ block with lines := block.lines ++ [nodes] }]) written offset own ↔
      Holds (inlineNodes [block] ++ nodes) written offset own := by
  simp only [inlineNodes_singleton, List.flatten_append, holds_append, List.flatten_singleton]
  tauto

theorem holds_newItem (block : Block) (written : Text) (offset : Nat) (own : Bool) :
    Holds (inlineNodes [{ block with items := block.items ++ [nodes] }]) written offset own ↔
      Holds (inlineNodes [block] ++ nodes) written offset own := by
  simp only [inlineNodes_singleton, List.flatten_append, holds_append, List.flatten_singleton]
  tauto

/-- A line of which some is parsed. -/
theorem sited_line {line : Text} {n : Nat} (h : byteLength (line.take n) = n) (start : Nat) :
    Sited true line start (parseInlineAt (line.drop n) (start + n) true) := by
  have hrest := sited_parseFrom (line.drop n) (start + n) true []
  rw [← parseInlineAt_eq] at hrest
  have hline : Sited true (line.take n ++ line.drop n) start (parseInlineAt (line.drop n) (start + n) true) := by
    refine (Sited.nil : Sited true (line.take n) start []).append ?_
    rw [h]
    exact hrest
  rwa [List.take_append_drop] at hline

/-- What the lines up to one hold, with the line's. -/
theorem Sited.next {before line : Text} (h : Sited true before 0 nodes)
    (hline : Sited true line (byteLength before) nodes') :
    Sited true (before ++ (line ++ ['\n'])) 0 (nodes ++ nodes') := by
  refine h.append ?_
  rw [Nat.zero_add]
  have hbreak := hline.append (nil : Sited true ['\n'] (byteLength before + byteLength line) [])
  rwa [List.append_nil] at hbreak

/-- A fence's line, which holds no nodes. -/
theorem Sited.skip {before : Text} (h : Sited true before 0 nodes) (line : Text) :
    Sited true (before ++ (line ++ ['\n'])) 0 nodes := by
  have hnext := h.next (nil : Sited true line (byteLength before) [])
  rwa [List.append_nil] at hnext

/-- **The mentions of the lines' parse.** -/
theorem sited_parseLines (lines : List Text) (skip : Nat) (blocks : List Block) {before : Text}
    (h : Sited true before 0 (inlineNodes blocks)) :
    Sited true (before ++ lines.flatMap (· ++ ['\n'])) 0
      (inlineNodes (parseLines (byteLength before) skip blocks lines)) := by
  induction lines generalizing skip blocks before with
  | nil =>
    rw [List.flatMap_nil, List.append_nil]
    exact h
  | cons line lines ih =>
    have hlength : byteLength before + byteLength line + 1 = byteLength (before ++ (line ++ ['\n'])) := by
      rw [byteLength_append, byteLength_append]
      exact Nat.add_assoc _ _ _
    rw [List.flatMap_cons, ← List.append_assoc]
    cases skip with
    | succ skip =>
      rw [parseLines, hlength]
      exact ih skip blocks (h.skip line)
    | zero =>
      have hcode : ∀ text, Sited true (before ++ (line ++ ['\n'])) 0
          (inlineNodes (blocks ++ [{ kind := .code, text := text }])) := by
        intro text
        rw [inlineNodes_append, inlineNodes_singleton]
        exact (h.skip line).congr fun _ _ _ => by simp
      rw [parseLines]
      simp only [hlength]
      split
      next code _ => exact ih 0 _ (hcode _)
      next =>
        split
        next => exact ih _ _ (hcode _)
        next =>
          split
          next item _ hitem =>
            refine ih 0 _ ((h.next (sited_line (byteLength_listLine hitem) _)).congr fun _ _ _ => ?_)
            exact holds_last fun block => holds_newItem block
          next quoted _ hquoted =>
            refine ih 0 _ ((h.next (sited_line (byteLength_quoteLine hquoted) _)).congr fun _ _ _ => ?_)
            exact holds_last fun block => holds_newLine block
          next =>
            refine ih 0 _ ((h.next (sited_line (n := 0) rfl _)).congr fun _ _ _ => ?_)
            exact holds_last fun block => holds_newLine block

theorem flatMap_lines {lines : List Text} (h : lines ≠ []) :
    lines.flatMap (· ++ ['\n']) = ['\n'].intercalate lines ++ ['\n'] := by
  induction lines with
  | nil => exact absurd rfl h
  | cons line lines ih =>
    cases lines with
    | nil => simp
    | cons line' lines => rw [List.flatMap_cons, ih nofun, List.intercalate_cons_cons]; simp

/-- A token that stands in the content and a line break stands in the content. -/
theorem standsAt_of_concat {content : Text} (h : StandsAt (content ++ ['\n']) offset token) :
    StandsAt content offset token := by
  obtain ⟨before, after, heq, hlength⟩ := h
  rcases List.eq_nil_or_concat after with rfl | ⟨after, c, rfl⟩
  · -- a token ends in ">"
    rw [List.append_nil, Token.text, tokenText, ← List.append_assoc] at heq
    obtain ⟨_, hlast⟩ := List.append_inj' heq rfl
    cases hlast
  · rw [List.concat_eq_append, ← List.append_assoc, ← List.append_assoc] at heq
    obtain ⟨hcontent, _⟩ := List.append_inj' heq rfl
    exact ⟨before, after, by rw [hcontent, List.append_assoc], hlength⟩

/-- **The mentions of a parse.** -/
theorem sited_parseMarkdown (content : Text) : Sited true content 0 (inlineNodes (parseMarkdown content)) := by
  have hlines := sited_parseLines (content.splitOn '\n') 0 [] (.nil : Sited true [] 0 [])
  rw [List.nil_append, flatMap_lines (List.splitOn_ne_nil _ _), List.intercalate_splitOn] at hlines
  refine ⟨fun written offset hholds => ?_, fun written offset hholds => ?_⟩
  · obtain ⟨hown, token, beyond, hwritten, hoffset, hstands⟩ := hlines.placed written offset hholds
    exact ⟨hown, token, beyond, hwritten, hoffset, standsAt_of_concat hstands⟩
  · obtain ⟨token, beyond, hstands, hrest⟩ := hlines.copied written offset hholds
    exact ⟨token, beyond, standsAt_of_concat hstands, hrest⟩

end Stoop.Mentions
