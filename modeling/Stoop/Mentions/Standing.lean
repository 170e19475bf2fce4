import Stoop.Mentions.Check

/-!
# Where tokens stand, and what a pass does to them

A token holds one "<", at its start, so that tokens never overlap and the scan finds each that stands in
the content (`standsAt_token`). A pass that leaves the content as it is leaves each token as it is
(`storedFrom_fixed_iff`); one that does not writes a token as text, which takes a "<" away, or gives one its
current name, which no later pass does to the same tokens (`pass_lower`).
-/

set_option autoImplicit false

namespace Stoop.Mentions

open Stoop.Lib Stoop.Markdown Stoop.Markdown.Server

variable {token : Token} {content rest : Text} {offset : Nat}

/-! ## Tokens in the content -/

/-- A token stands in the content, this many bytes in. -/
def StandsAt (content : Text) (offset : Nat) (token : Token) : Prop :=
  ∃ before after, content = before ++ (token.text ++ after) ∧ byteLength before = offset

theorem isID_ne_open {id : Text} (h : isID id = true) : '<' ∉ id := by
  intro hmem
  rw [isID, Bool.and_eq_true, List.all_eq_true] at h
  obtain ⟨i, hi, hget⟩ := List.mem_iff_getElem.mp hmem
  have hall := h.2 ('<', i) (List.mem_zipIdx_iff_getElem?.mpr (by rw [List.getElem?_eq_getElem hi, hget]))
  simp only [idCharAt] at hall
  split at hall
  · exact absurd hall (by decide)
  · exact absurd hall (by decide)

theorem names_ne_open {kind : TokenKind} {name : Text} (h : kind.Names name) : '<' ∉ name := by
  intro hmem
  have hchar := h.2.2 '<' hmem
  cases kind <;> exact absurd hchar (by decide)

/-- What is written as a token starts with its only "<". -/
theorem tokenText_cons {kind : TokenKind} {id name : Text} (hid : isID id = true) (hname : kind.Names name) :
    ∃ tail, tokenText kind id name = '<' :: tail ∧ '<' ∉ tail := by
  have hrest : '<' ∉ id ++ ':' :: name ++ ['>'] := by
    simp only [List.append_assoc, List.mem_append, List.mem_cons, List.cons_append, List.not_mem_nil, or_false,
      not_or]
    exact ⟨isID_ne_open hid, by decide, names_ne_open hname, by decide⟩
  cases kind <;>
  · refine ⟨_, by simp only [tokenText, TokenKind.opening, List.append_assoc, List.cons_append]; rfl, ?_⟩
    simpa using hrest

theorem text_cons (token : Token) : ∃ tail, token.text = '<' :: tail ∧ '<' ∉ tail :=
  tokenText_cons token.id_ok token.handle_ok

theorem tokenAsText_ne_open {kind : TokenKind} {name : Text} (h : kind.Names name) :
    '<' ∉ tokenAsText kind name := by
  cases kind <;> simpa [tokenAsText] using names_ne_open h

/-- **Tokens that stand at one place are one.** -/
theorem text_eq_of_append {token' : Token} {rest' : Text} (h : token.text ++ rest = token'.text ++ rest') :
    token.text = token'.text ∧ rest = rest' := by
  have hlength : token.text.length = token'.text.length := by
    rw [← tokenLength_text token rest, h, tokenLength_text]
  exact List.append_inj h hlength

theorem standsAt_nil : ¬ StandsAt [] offset token := by
  rintro ⟨before, after, h, _⟩
  obtain ⟨tail, htail, _⟩ := text_cons token
  rw [htail] at h
  simp at h

theorem standsAt_char {c : Char} (hc : tokenLength (c :: rest) = 0) :
    StandsAt (c :: rest) offset token ↔ ∃ beyond, offset = c.utf8Size + beyond ∧ StandsAt rest beyond token := by
  constructor
  · rintro ⟨before, after, h, hlength⟩
    cases before with
    | nil =>
      rw [List.nil_append] at h
      rw [h, tokenLength_text] at hc
      have hpos := token.length_pos
      omega
    | cons c' before =>
      obtain ⟨rfl, hrest⟩ := List.cons.inj h
      exact ⟨byteLength before, hlength.symm, before, after, hrest, rfl⟩
  · rintro ⟨_, rfl, before, after, rfl, rfl⟩
    exact ⟨c :: before, after, rfl, rfl⟩

/-- **Past a token, what stands is what stands after it.** -/
theorem standsAt_token {token' : Token} : StandsAt (token'.text ++ rest) offset token ↔
    (offset = 0 ∧ token.text = token'.text) ∨
      ∃ beyond, offset = byteLength token'.text + beyond ∧ StandsAt rest beyond token := by
  constructor
  · rintro ⟨before, after, h, hlength⟩
    rcases List.append_eq_append_iff.mp h with ⟨inside, rfl, hrest⟩ | ⟨inside, hinside, hrest⟩
    · exact .inr ⟨byteLength inside, by rw [← hlength, byteLength_append], inside, after, hrest, rfl⟩
    · cases before with
      | nil =>
        rw [List.nil_append] at hinside
        subst hinside
        exact .inl ⟨hlength.symm, (text_eq_of_append hrest).1⟩
      | cons c before =>
        -- the token would start within the other, at a "<" that is not its first
        obtain ⟨tail, htail, hopen⟩ := text_cons token'
        obtain ⟨tail', htail', _⟩ := text_cons token
        rw [htail, List.cons_append, List.cons.injEq] at hinside
        cases inside with
        | nil =>
          rw [List.nil_append] at hrest
          rw [List.append_nil] at hinside
          refine .inr ⟨0, ?_, [], after, hrest.symm, rfl⟩
          rw [← hlength, htail, hinside.1, hinside.2, Nat.add_zero]
        | cons c' inside =>
          rw [htail', List.cons_append, List.cons_append, List.cons.injEq] at hrest
          refine absurd ?_ hopen
          rw [hinside.2, ← hrest.1]
          exact List.mem_append_right _ List.mem_cons_self
  · rintro (⟨rfl, heq⟩ | ⟨_, rfl, before, after, rfl, rfl⟩)
    · exact ⟨[], rest, by rw [heq, List.nil_append], rfl⟩
    · exact ⟨token'.text ++ before, after, by rw [List.append_assoc], byteLength_append _ _⟩

/-! ## What a pass does to a token -/

/-- The names are such as tokens of the kind can carry. -/
def Current.Proper (current : Current) : Prop := ∀ kind id name, current kind id = some name → kind.Names name

/-- A token that stands where one is shown, with the name it has now. -/
def Kept (live : List ShownToken) (current : Current) (offset : Nat) (token : Token) : Prop :=
  live.any (·.offset == offset) = true ∧ current token.kind token.id = some token.handle

variable {live : List ShownToken} {current : Current}

theorem storedToken_some {name : Text} (h : current token.kind token.id = some name) (start : Nat) :
    storedToken live current start token.text =
      if live.any (·.offset == start) then tokenText token.kind token.id name
      else tokenAsText token.kind token.handle := by
  simp only [storedToken, tokenParts_text, h]

theorem storedToken_none (h : current token.kind token.id = none) (start : Nat) :
    storedToken live current start token.text = tokenAsText token.kind token.handle := by
  simp only [storedToken, tokenParts_text, h]

theorem storedToken_kept {start : Nat} (h : Kept live current start token) :
    storedToken live current start token.text = token.text := by
  rw [storedToken_some h.2]
  exact if_pos h.1

/-- What a token is written as: a token that is shown and has a name, with that name, and any other as text. -/
theorem storedToken_cases (proper : current.Proper) (token : Token) (start : Nat) :
    (∃ name, current token.kind token.id = some name ∧ token.kind.Names name ∧
      live.any (·.offset == start) = true ∧
      storedToken live current start token.text = tokenText token.kind token.id name) ∨
      storedToken live current start token.text = tokenAsText token.kind token.handle := by
  cases hname : current token.kind token.id with
  | none => exact .inr (storedToken_none hname start)
  | some name =>
    rw [storedToken_some hname]
    cases hlive : live.any (·.offset == start) with
    | true => exact .inl ⟨name, rfl, proper _ _ _ hname, rfl, rfl⟩
    | false => exact .inr rfl

theorem handle_eq_of_tokenText {name after after' : Text} (hname : token.kind.Names name)
    (h : tokenText token.kind token.id name ++ after = token.text ++ after') : name = token.handle := by
  have htext := (@text_eq_of_append ⟨token.kind, token.id, name, token.id_ok, hname⟩ after token after' h).1
  have hparts := tokenParts_text ⟨token.kind, token.id, name, token.id_ok, hname⟩
  rw [htext, tokenParts_text] at hparts
  exact (congrArg (fun p => p.2.2) hparts).symm

/-- **A pass leaves the content as it is where it keeps each token that stands there.** -/
theorem storedFrom_fixed_iff (proper : current.Proper) (start : Nat) :
    eachTokenFrom (storedToken live current) start 0 content = content ↔
      ∀ offset token, StandsAt content offset token → Kept live current (start + offset) token := by
  induction content using token_induction generalizing start with
  | nil => exact ⟨fun _ _ _ h => absurd h standsAt_nil, fun _ => rfl⟩
  | char c rest hc ih =>
    rw [eachTokenFrom_char _ _ hc, List.cons.injEq, eq_self, true_and, ih]
    constructor
    · intro h offset token hstands
      obtain ⟨beyond, rfl, hbeyond⟩ := (standsAt_char hc).mp hstands
      rw [← Nat.add_assoc]
      exact h beyond token hbeyond
    · intro h offset token hstands
      rw [Nat.add_assoc]
      exact h _ token ((standsAt_char hc).mpr ⟨offset, rfl, hstands⟩)
  | token token rest ih =>
    rw [eachTokenFrom_token]
    constructor
    · intro h offset token' hstands
      have hkept : Kept live current start token ∧
          eachTokenFrom (storedToken live current) (start + byteLength token.text) 0 rest = rest := by
        rcases @storedToken_cases live current proper token start with ⟨name, hname, hok, hshown, hwrite⟩ | hwrite
        · rw [hwrite] at h
          obtain rfl := handle_eq_of_tokenText hok h
          exact ⟨⟨hshown, hname⟩, List.append_cancel_left h⟩
        · -- what is written as text does not start with "<"
          rw [hwrite] at h
          obtain ⟨tail, htail, _⟩ := text_cons token
          rw [htail] at h
          cases hkind : token.kind <;> rw [hkind, tokenAsText] at h <;> simp at h
      rcases standsAt_token.mp hstands with ⟨rfl, heq⟩ | ⟨beyond, rfl, hbeyond⟩
      · have hparts := tokenParts_text token'
        rw [heq, tokenParts_text, Prod.mk.injEq, Prod.mk.injEq] at hparts
        rw [Nat.add_zero, Kept, ← hparts.1, ← hparts.2.1, ← hparts.2.2]
        exact hkept.1
      · rw [← Nat.add_assoc]
        exact (ih _).mp hkept.2 beyond token' hbeyond
    · intro h
      have hkept := h 0 token (standsAt_token.mpr (.inl ⟨rfl, rfl⟩))
      rw [Nat.add_zero] at hkept
      rw [storedToken_kept hkept]
      refine congrArg (token.text ++ ·) ((ih _).mpr fun offset token' hstands => ?_)
      rw [Nat.add_assoc]
      exact h _ token' (standsAt_token.mpr (.inr ⟨offset, rfl, hstands⟩))

/-! ## Passes end -/

/-- The "<"s of a text. -/
def opens (content : Text) : Nat := content.count '<'

theorem opens_eq_zero {text : Text} (h : '<' ∉ text) : opens text = 0 := List.count_eq_zero.mpr h

theorem opens_append (text text' : Text) : opens (text ++ text') = opens text + opens text' := List.count_append

theorem opens_cons (c : Char) (text : Text) : opens (c :: text) = opens [c] + opens text := opens_append [c] text

theorem opens_tokenText {kind : TokenKind} {id name : Text} (hid : isID id = true) (hname : kind.Names name) :
    opens (tokenText kind id name) = 1 := by
  obtain ⟨tail, htail, hopen⟩ := tokenText_cons hid hname
  rw [htail, opens_cons, opens_eq_zero hopen]
  rfl

/-- A token with the name its ID has now, if it has one. -/
def rename (current : Current) (token : Text) : Text :=
  let (kind, id, _) := tokenParts token
  match current kind id with
  | some name => tokenText kind id name
  | none => token

/-- The content with each token under its current name, whether it is shown or not. -/
def renamed (current : Current) (content : Text) : Text := eachToken (fun _ => rename current) content

theorem renamed_char {c : Char} (hc : tokenLength (c :: rest) = 0) :
    renamed current (c :: rest) = c :: renamed current rest := by
  rw [renamed, eachToken, eachTokenFrom_char _ _ hc, eachTokenFrom_offset _ _ 0]
  rfl

theorem renamed_token (token : Token) (rest : Text) :
    renamed current (token.text ++ rest) = rename current token.text ++ renamed current rest := by
  rw [renamed, eachToken, eachTokenFrom_token, eachTokenFrom_offset _ _ 0]
  rfl

theorem rename_text {name : Text} (h : current token.kind token.id = some name) :
    rename current token.text = tokenText token.kind token.id name := by
  rw [rename, tokenParts_text]
  simp only [h]

/-- Content whose tokens all have a name. -/
def AllNamed (current : Current) (content : Text) : Prop :=
  ∀ offset token, StandsAt content offset token → ∃ name, current token.kind token.id = some name

theorem AllNamed.char {c : Char} (h : AllNamed current (c :: rest)) (hc : tokenLength (c :: rest) = 0) :
    AllNamed current rest :=
  fun offset token hstands => h _ token ((standsAt_char hc).mpr ⟨offset, rfl, hstands⟩)

theorem AllNamed.past (h : AllNamed current (token.text ++ rest)) : AllNamed current rest :=
  fun offset token' hstands => h _ token' (standsAt_token.mpr (.inr ⟨offset, rfl, hstands⟩))

/-- A pass makes no "<". One that takes none away gives each token its name. -/
theorem opens_storedFrom (proper : current.Proper) (content : Text) (start : Nat) :
    opens (eachTokenFrom (storedToken live current) start 0 content) < opens content ∨
      opens (eachTokenFrom (storedToken live current) start 0 content) = opens content ∧
        eachTokenFrom (storedToken live current) start 0 content = renamed current content ∧
        AllNamed current content := by
  induction content using token_induction generalizing start with
  | nil => exact .inr ⟨rfl, rfl, fun _ _ h => absurd h standsAt_nil⟩
  | char c rest hc ih =>
    rw [eachTokenFrom_char _ _ hc, opens_cons, opens_cons c rest, renamed_char hc]
    rcases ih (start + c.utf8Size) with hlt | ⟨hopens, hrenamed, hnamed⟩
    · exact .inl (Nat.add_lt_add_left hlt _)
    · refine .inr ⟨by rw [hopens], by rw [hrenamed], fun offset token hstands => ?_⟩
      obtain ⟨beyond, _, hbeyond⟩ := (standsAt_char hc).mp hstands
      exact hnamed beyond token hbeyond
  | token token rest ih =>
    have hone : opens token.text = 1 := opens_tokenText token.id_ok token.handle_ok
    rw [eachTokenFrom_token, opens_append, opens_append, renamed_token, hone]
    rcases @storedToken_cases live current proper token start with ⟨name, hname, hok, _, hwrite⟩ | hwrite
    · rw [hwrite, opens_tokenText token.id_ok hok]
      rcases ih (start + byteLength token.text) with hlt | ⟨hopens, hrenamed, hnamed⟩
      · exact .inl (Nat.add_lt_add_left hlt _)
      · refine .inr ⟨by rw [hopens], by rw [hrenamed, rename_text hname], fun offset token' hstands => ?_⟩
        rcases standsAt_token.mp hstands with ⟨_, heq⟩ | ⟨beyond, _, hbeyond⟩
        · have hparts := tokenParts_text token'
          rw [heq, tokenParts_text, Prod.mk.injEq, Prod.mk.injEq] at hparts
          exact ⟨name, by rw [← hparts.1, ← hparts.2.1, hname]⟩
        · exact hnamed beyond token' hbeyond
    · rw [hwrite, opens_eq_zero (tokenAsText_ne_open token.handle_ok)]
      rcases ih (start + byteLength token.text) with hlt | ⟨hopens, _⟩
      · exact .inl (by omega)
      · exact .inl (by omega)

/-- What has no "<" and starts the renamed content starts the content. -/
theorem starts_of_renamed (proper : current.Proper) {text : Text} (hnamed : AllNamed current content)
    (hopen : '<' ∉ text) (h : text <+: renamed current content) : text <+: content := by
  induction content using token_induction generalizing text with
  | nil => exact h
  | char c rest hc ih =>
    rw [renamed_char hc] at h
    cases text with
    | nil => exact List.nil_prefix
    | cons c' text =>
      obtain ⟨rfl, hrest⟩ := List.cons_prefix_cons.mp h
      rw [List.mem_cons, not_or] at hopen
      exact List.cons_prefix_cons.mpr ⟨rfl, ih (hnamed.char hc) hopen.2 hrest⟩
  | token token rest ih =>
    obtain ⟨name, hname⟩ := hnamed 0 token (standsAt_token.mpr (.inl ⟨rfl, rfl⟩))
    obtain ⟨tail, htail, _⟩ := tokenText_cons token.id_ok (proper _ _ _ hname)
    rw [renamed_token, rename_text hname, htail] at h
    cases text with
    | nil => exact List.nil_prefix
    | cons c text =>
      obtain ⟨rfl, _⟩ := List.cons_prefix_cons.mp h
      exact absurd List.mem_cons_self hopen

/-- **Tokens that have been renamed have their names.** -/
theorem standsAt_renamed (proper : current.Proper) (hnamed : AllNamed current content)
    (h : StandsAt (renamed current content) offset token) : current token.kind token.id = some token.handle := by
  induction content using token_induction generalizing offset with
  | nil => exact absurd h standsAt_nil
  | char c rest hc ih =>
    rw [renamed_char hc] at h
    by_cases hc' : tokenLength (c :: renamed current rest) = 0
    · obtain ⟨beyond, _, hbeyond⟩ := (standsAt_char hc').mp h
      exact ih (hnamed.char hc) hbeyond
    · -- a token that starts before the first renamed one was there before
      obtain ⟨found, after, heq, _⟩ := token_at hc'
      obtain ⟨tail, htail, hopen⟩ := text_cons found
      rw [htail, List.cons_append, List.cons.injEq] at heq
      have hstarts := starts_of_renamed proper (hnamed.char hc) hopen ⟨after, heq.2.symm⟩
      obtain ⟨after', rfl⟩ := hstarts
      have hfound := tokenLength_text found after'
      rw [htail, List.cons_append, ← heq.1, hc] at hfound
      cases hfound
  | token token' rest ih =>
    obtain ⟨name, hname⟩ := hnamed 0 token' (standsAt_token.mpr (.inl ⟨rfl, rfl⟩))
    rw [renamed_token, rename_text hname] at h
    have hok := proper _ _ _ hname
    rcases (@standsAt_token token _ _ ⟨token'.kind, token'.id, name, token'.id_ok, hok⟩).mp h with
      ⟨_, heq⟩ | ⟨beyond, _, hbeyond⟩
    · have hparts := tokenParts_text token
      rw [heq, tokenParts_text, Prod.mk.injEq, Prod.mk.injEq] at hparts
      rw [← hparts.1, ← hparts.2.1, ← hparts.2.2]
      exact hname
    · exact ih hnamed.past hbeyond

theorem renamed_eq_self (h : ∀ offset token, StandsAt content offset token →
    current token.kind token.id = some token.handle) : renamed current content = content := by
  induction content using token_induction with
  | nil => rfl
  | char c rest hc ih =>
    rw [renamed_char hc, ih fun offset token hstands => h _ token ((standsAt_char hc).mpr ⟨offset, rfl, hstands⟩)]
  | token token rest ih =>
    rw [renamed_token, rename_text (h 0 token (standsAt_token.mpr (.inl ⟨rfl, rfl⟩))),
      ih fun offset token' hstands => h _ token' (standsAt_token.mpr (.inr ⟨offset, rfl, hstands⟩))]
    rfl

/-- What every changing pass lowers: the "<"s, and then whether a token is without its name. -/
def unsettled (current : Current) (content : Text) : Nat :=
  2 * opens content + if renamed current content = content then 0 else 1

/-- **A pass that changes the content lowers what is unsettled of it.** -/
theorem pass_lower (proper : current.Proper) (hmoves : pass current content ≠ content) :
    unsettled current (pass current content) < unsettled current content := by
  have hcases := @opens_storedFrom (readMentions content).tokens current proper content 0
  change opens (pass current content) < opens content ∨ opens (pass current content) = opens content ∧
    pass current content = renamed current content ∧ AllNamed current content at hcases
  simp only [unsettled]
  rcases hcases with hlt | ⟨hopens, hrenamed, hnamed⟩
  · split <;> split <;> omega
  · rw [hrenamed] at hmoves ⊢
    rw [if_neg hmoves, ← hrenamed, hopens, hrenamed,
      if_pos (renamed_eq_self fun _ _ hstands => standsAt_renamed proper hnamed hstands)]
    omega

theorem unsettled_le (content : Text) : unsettled current content ≤ 2 * content.length + 1 := by
  have hcount : opens content ≤ content.length := List.count_le_length
  rw [unsettled]
  split <;> omega

end Stoop.Mentions
