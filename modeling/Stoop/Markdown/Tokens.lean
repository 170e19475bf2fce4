import Mathlib.Data.List.TakeWhile
import Stoop.Markdown.Chars

/-!
# Tokens: what mentions a person or a group, or links a channel

`<@u:ID:handle>` names a person, `<@g:ID:handle>` a group, `<#ID:name>` a channel. The server looks
for one at every "<" (`tokenLength`), by hand; `Token` is what it finds, and carries that its ID and
its name are of the right shape.

## The server's functions

`tokenLength`, `tokenParts`, `tokenText`, `tokenAsText`, `eachToken`, `tokensAsText`

## What they find

`Token`, `token_at`, `tokenLength_text`, `token_induction`
-/

set_option autoImplicit false

namespace Stoop.Markdown

/-! ## The server's functions -/

/-- What a token names. -/
inductive TokenKind
  | person
  | group
  | channel
  deriving DecidableEq, Repr

/-- What a token starts with, up to its ID. -/
def TokenKind.opening : TokenKind → Text
  | .person => ['<', '@', 'u', ':']
  | .group => ['<', '@', 'g', ':']
  | .channel => ['<', '#']

/-- The fewest characters a name has: a handle at least three. -/
def TokenKind.minName : TokenKind → Nat
  | .person | .group => 3
  | .channel => 1

def TokenKind.nameChar : TokenKind → Char → Bool
  | .person | .group => isHandleChar
  | .channel => isChannelNameChar

/-- The kind whose opening the text starts with. -/
def openingOf : Text → Option TokenKind
  | '<' :: '#' :: _ => some .channel
  | '<' :: '@' :: 'u' :: ':' :: _ => some .person
  | '<' :: '@' :: 'g' :: ':' :: _ => some .group
  | _ => none

/-- Whether a character may stand at a place of an ID. -/
def idCharAt (i : Nat) (c : Char) : Bool := if i ∈ [8, 13, 18, 23] then c == '-' else isHex c

/-- An ID: 36 characters, dashes where a UUID has them and lower-case hexadecimal elsewhere. -/
def isID (id : Text) : Bool := id.length == 36 && id.zipIdx.all fun (c, i) => idCharAt i c

/-- The length of the token text starts with, or 0. -/
def tokenLength (text : Text) : Nat :=
  match openingOf text with
  | none => 0
  | some kind =>
    let idEnd := kind.opening.length + 36
    if text.length < idEnd + 1 + kind.minName + 1 then 0
    else if !isID ((text.drop kind.opening.length).take 36) then 0
    else
      match text.drop idEnd with
      | ':' :: named =>
        -- the scan stops one past the longest name
        let name := (named.take 33).takeWhile kind.nameChar
        if name.length < kind.minName || 32 < name.length then 0
        else
          match named.drop name.length with
          | '>' :: _ => idEnd + 1 + name.length + 1
          | _ => 0
      | _ => 0

/-- A whole token's kind, ID and handle. -/
def tokenParts (token : Text) : TokenKind × Text × Text :=
  if token[1]? = some '#' then
    (.channel, (token.drop 2).take 36, (token.drop 39).dropLast)
  else
    (if token[2]? = some 'g' then .group else .person, (token.drop 4).take 36,
      (token.drop 41).dropLast)

/-- A token of a kind for an ID, carrying a handle. -/
def tokenText (kind : TokenKind) (id handle : Text) : Text :=
  kind.opening ++ id ++ ':' :: handle ++ ['>']

/-- How a token of a kind reads as text: @handle, or #name for a channel. -/
def tokenAsText (kind : TokenKind) (handle : Text) : Text :=
  match kind with
  | .channel => '#' :: handle
  | .person | .group => '@' :: handle

/-- The content with each token rewritten by where it starts and what it is: past the next `skip`
characters, which belong to a token rewritten already. -/
def eachTokenFrom (write : Nat → Text → Text) : (offset skip : Nat) → Text → Text
  | _, _, [] => []
  | offset, skip + 1, c :: rest => eachTokenFrom write (offset + c.utf8Size) skip rest
  | offset, 0, c :: rest =>
    match tokenLength (c :: rest) with
    | 0 => c :: eachTokenFrom write (offset + c.utf8Size) 0 rest
    | length + 1 =>
      write offset ((c :: rest).take (length + 1)) ++
        eachTokenFrom write (offset + c.utf8Size) length rest

/-- The content with each token rewritten. -/
def eachToken (write : Nat → Text → Text) (content : Text) : Text := eachTokenFrom write 0 0 content

/-- A token as the text it reads as. -/
def tokenRead (token : Text) : Text :=
  let (kind, _, handle) := tokenParts token
  tokenAsText kind handle

/-- Text with each token as the @handle or #name it was saved with. -/
def tokensAsText (text : Text) : Text := eachToken (fun _ => tokenRead) text

/-! ## What they find -/

/-- A name a token of a kind can carry. -/
def TokenKind.Names (kind : TokenKind) (name : Text) : Prop :=
  kind.minName ≤ name.length ∧ name.length ≤ 32 ∧ ∀ c ∈ name, kind.nameChar c = true

instance (kind : TokenKind) (name : Text) : Decidable (kind.Names name) :=
  inferInstanceAs (Decidable (_ ∧ _ ∧ _))

/-- A token. -/
structure Token where
  kind : TokenKind
  id : Text
  handle : Text
  id_ok : isID id = true
  handle_ok : kind.Names handle

/-- A token as it is written. -/
def Token.text (token : Token) : Text := tokenText token.kind token.id token.handle

variable {token : Token}

theorem Token.id_length (token : Token) : token.id.length = 36 := by
  have h := token.id_ok
  rw [isID, Bool.and_eq_true, beq_iff_eq] at h
  exact h.1

theorem TokenKind.nameChar_ne_close {kind : TokenKind} {c : Char} (h : kind.nameChar c = true) :
    c ≠ '>' := by
  rintro rfl
  cases kind <;> exact absurd h (by decide)

theorem Token.length_text (token : Token) :
    token.text.length = token.kind.opening.length + 36 + 1 + token.handle.length + 1 := by
  simp only [Token.text, tokenText, List.length_append, List.length_cons, List.length_nil,
    token.id_length]
  omega

/-- A token is no shorter than its opening, its ID, a name of one and the marks between. -/
theorem Token.length_pos (token : Token) : 40 ≤ token.text.length := by
  have h₁ : 2 ≤ token.kind.opening.length := by cases token.kind <;> decide
  have h₂ := token.handle_ok.1
  have h₃ : 1 ≤ token.kind.minName := by cases token.kind <;> decide
  rw [token.length_text]
  omega

theorem openingOf_append (kind : TokenKind) (rest : Text) :
    openingOf (kind.opening ++ rest) = some kind := by
  cases kind <;> rfl

theorem openingOf_eq_some {text : Text} {kind : TokenKind} (h : openingOf text = some kind) :
    ∃ rest, text = kind.opening ++ rest := by
  unfold openingOf at h
  split at h
  next rest => exact ⟨rest, (Option.some.inj h) ▸ rfl⟩
  next rest => exact ⟨rest, (Option.some.inj h) ▸ rfl⟩
  next rest => exact ⟨rest, (Option.some.inj h) ▸ rfl⟩
  next => cases h

/-- The scan of a name that is followed by ">" is the name. -/
theorem takeWhile_name {kind : TokenKind} {name : Text} (h : kind.Names name) (rest : Text) :
    ((name ++ '>' :: rest).take 33).takeWhile kind.nameChar = name := by
  obtain ⟨-, hle, hall⟩ := h
  have hclose : kind.nameChar '>' = false := by
    cases hc : kind.nameChar '>' with
    | false => rfl
    | true => exact absurd rfl (TokenKind.nameChar_ne_close hc)
  obtain ⟨n, hn⟩ : ∃ n, 33 - name.length = n + 1 := ⟨32 - name.length, by omega⟩
  rw [List.take_append, List.take_of_length_le (by omega), hn, List.take_succ_cons,
    List.takeWhile_append_of_pos hall, List.takeWhile_cons, hclose]
  simp

/-- **A token is found where it stands.** -/
theorem tokenLength_text (token : Token) (rest : Text) :
    tokenLength (token.text ++ rest) = token.text.length := by
  have htext : token.text ++ rest =
      token.kind.opening ++ (token.id ++ ':' :: (token.handle ++ '>' :: rest)) := by
    simp [Token.text, tokenText]
  have hid := token.id_length
  have hdrop : (token.text ++ rest).drop (token.kind.opening.length + 36) =
      ':' :: (token.handle ++ '>' :: rest) := by
    rw [htext, ← List.drop_drop, List.drop_left, ← hid, List.drop_left]
  have htake : ((token.text ++ rest).drop token.kind.opening.length).take 36 = token.id := by
    rw [htext, List.drop_left, ← hid, List.take_left]
  have hopening : openingOf (token.text ++ rest) = some token.kind := by
    rw [htext, openingOf_append]
  have hname := takeWhile_name token.handle_ok rest
  obtain ⟨hmin, hmax, -⟩ := token.handle_ok
  simp only [tokenLength, hopening, htake, hdrop, token.id_ok, hname, List.drop_left]
  rw [if_neg (by rw [List.length_append, token.length_text]; omega), Bool.not_true,
    if_neg Bool.false_ne_true, if_neg (by simp; omega), token.length_text]

/-- **Where the server finds a token, there is one.** -/
theorem token_at {text : Text} (h : tokenLength text ≠ 0) :
    ∃ (token : Token) (rest : Text), text = token.text ++ rest ∧
      tokenLength text = token.text.length := by
  have hfound : ∃ (token : Token) (rest : Text), text = token.text ++ rest := by
    unfold tokenLength at h
    split at h
    next => exact absurd rfl h
    next kind hkind =>
      obtain ⟨after, rfl⟩ := openingOf_eq_some hkind
      simp only [List.drop_left, ← List.drop_drop] at h
      split at h
      next => exact absurd rfl h
      next =>
        split at h
        next => exact absurd rfl h
        next hid =>
          split at h
          next named hnamed =>
            split at h
            next => exact absurd rfl h
            next hlength =>
              split at h
              next rest hrest =>
                rw [Bool.not_eq_true, Bool.not_eq_false'] at hid
                rw [Bool.not_eq_true, Bool.or_eq_false_iff, decide_eq_false_iff_not,
                  decide_eq_false_iff_not] at hlength
                generalize hname : (named.take 33).takeWhile kind.nameChar = name at *
                have hstarts : name <+: named :=
                  hname ▸ (List.takeWhile_prefix _).trans (List.take_prefix _ _)
                obtain ⟨beyond, rfl⟩ := hstarts
                rw [List.drop_left] at hrest
                subst hrest
                refine ⟨⟨kind, after.take 36, name, hid, ?_⟩, rest, ?_⟩
                · refine ⟨by omega, by omega, fun c hc => ?_⟩
                  rw [← hname] at hc
                  exact List.mem_takeWhile_imp hc
                · have hafter : after = after.take 36 ++ ':' :: (name ++ '>' :: rest) := by
                    rw [← hnamed, List.take_append_drop]
                  rw [Token.text, tokenText]
                  simp only [List.append_assoc, List.cons_append, List.nil_append]
                  rw [← hafter]
              next => exact absurd rfl h
          next => exact absurd rfl h
  obtain ⟨token, rest, rfl⟩ := hfound
  exact ⟨token, rest, rfl, tokenLength_text token rest⟩

/-- A token's parts are those it is written with. -/
theorem tokenParts_text (token : Token) :
    tokenParts token.text = (token.kind, token.id, token.handle) := by
  have hid := token.id_length
  have hdrop : ∀ n, token.kind.opening.length = n →
      token.text.drop n = token.id ++ (':' :: token.handle ++ ['>']) := by
    rintro n rfl
    simp only [Token.text, tokenText, List.append_assoc, List.drop_left]
  have htake : ∀ n, token.kind.opening.length = n → (token.text.drop n).take 36 = token.id := by
    intro n hn
    rw [hdrop n hn, ← hid, List.take_left]
  have hhandle : ∀ n, token.kind.opening.length = n →
      (token.text.drop (n + 37)).dropLast = token.handle := by
    intro n hn
    rw [← List.drop_drop, hdrop n hn, List.drop_append, List.drop_of_length_le (by omega), hid]
    simp
  unfold tokenParts
  cases hkind : token.kind with
  | channel =>
    have h := htake 2 (by rw [hkind]; rfl)
    have h' := hhandle 2 (by rw [hkind]; rfl)
    rw [if_pos (by simp [Token.text, tokenText, hkind, TokenKind.opening]), h, h']
  | person =>
    have h := htake 4 (by rw [hkind]; rfl)
    have h' := hhandle 4 (by rw [hkind]; rfl)
    rw [if_neg (by simp [Token.text, tokenText, hkind, TokenKind.opening]), h, h',
      if_neg (by simp [Token.text, tokenText, hkind, TokenKind.opening])]
  | group =>
    have h := htake 4 (by rw [hkind]; rfl)
    have h' := hhandle 4 (by rw [hkind]; rfl)
    rw [if_neg (by simp [Token.text, tokenText, hkind, TokenKind.opening]), h, h',
      if_pos (by simp [Token.text, tokenText, hkind, TokenKind.opening])]

/-! ## Content, token by token -/

/-- **Every content is read token by token**: it is empty, starts with a character no token starts at,
or starts with a token. -/
theorem token_induction {P : Text → Prop} (nil : P [])
    (char : ∀ c rest, tokenLength (c :: rest) = 0 → P rest → P (c :: rest))
    (token : ∀ (token : Token) rest, P rest → P (token.text ++ rest)) (content : Text) :
    P content := by
  induction hlength : content.length using Nat.strongRecOn generalizing content with
  | _ n ih =>
    subst hlength
    cases content with
    | nil => exact nil
    | cons c rest =>
      by_cases h : tokenLength (c :: rest) = 0
      · exact char c rest h (ih rest.length (Nat.lt_succ_self _) rest rfl)
      · obtain ⟨found, beyond, heq, -⟩ := token_at h
        rw [heq]
        refine token found beyond (ih beyond.length ?_ beyond rfl)
        rw [heq, List.length_append]
        have := found.length_pos
        omega

theorem eachTokenFrom_skip (write : Nat → Text → Text) (offset : Nat) (skipped rest : Text) :
    eachTokenFrom write offset skipped.length (skipped ++ rest) =
      eachTokenFrom write (offset + byteLength skipped) 0 rest := by
  induction skipped generalizing offset with
  | nil => rfl
  | cons c skipped ih =>
    rw [List.length_cons, List.cons_append, eachTokenFrom, ih, byteLength_cons, Nat.add_assoc]

@[simp] theorem eachTokenFrom_nil (write : Nat → Text → Text) (offset : Nat) :
    eachTokenFrom write offset 0 [] = [] := rfl

theorem eachTokenFrom_char (write : Nat → Text → Text) (offset : Nat) {c : Char} {rest : Text}
    (h : tokenLength (c :: rest) = 0) :
    eachTokenFrom write offset 0 (c :: rest) = c :: eachTokenFrom write (offset + c.utf8Size) 0 rest := by
  rw [eachTokenFrom, h]

theorem eachTokenFrom_token (write : Nat → Text → Text) (offset : Nat) (token : Token)
    (rest : Text) :
    eachTokenFrom write offset 0 (token.text ++ rest) =
      write offset token.text ++ eachTokenFrom write (offset + byteLength token.text) 0 rest := by
  have hpos := token.length_pos
  cases htext : token.text with
  | nil => rw [htext] at hpos; exact absurd hpos (by decide)
  | cons c tail =>
    have hlength := tokenLength_text token rest
    rw [htext, List.cons_append, List.length_cons] at hlength
    rw [List.cons_append, eachTokenFrom, hlength]
    simp only
    rw [eachTokenFrom_skip, List.take_succ_cons, List.take_left, byteLength_cons, Nat.add_assoc]

theorem tokenRead_text (token : Token) :
    tokenRead token.text = tokenAsText token.kind token.handle := by
  rw [tokenRead, tokenParts_text]

/-- The offsets a rewriting is told don't matter where it doesn't read them. -/
theorem eachTokenFrom_offset (write : Text → Text) (offset offset' : Nat) (content : Text) :
    eachTokenFrom (fun _ => write) offset 0 content =
      eachTokenFrom (fun _ => write) offset' 0 content := by
  induction content using token_induction generalizing offset offset' with
  | nil => rfl
  | char c rest h ih =>
    rw [eachTokenFrom_char _ _ h, eachTokenFrom_char _ _ h, ih _ (offset' + c.utf8Size)]
  | token token rest ih =>
    rw [eachTokenFrom_token, eachTokenFrom_token, ih _ (offset' + byteLength token.text)]

@[simp] theorem tokensAsText_nil : tokensAsText [] = [] := rfl

theorem tokensAsText_char {c : Char} {rest : Text} (h : tokenLength (c :: rest) = 0) :
    tokensAsText (c :: rest) = c :: tokensAsText rest := by
  rw [tokensAsText, eachToken, eachTokenFrom_char _ _ h, eachTokenFrom_offset _ _ 0]
  rfl

theorem tokensAsText_token (token : Token) (rest : Text) :
    tokensAsText (token.text ++ rest) =
      tokenAsText token.kind token.handle ++ tokensAsText rest := by
  rw [tokensAsText, eachToken, eachTokenFrom_token, eachTokenFrom_offset _ _ 0, tokenRead_text]
  rfl

theorem length_tokenAsText (kind : TokenKind) (handle : Text) :
    (tokenAsText kind handle).length = handle.length + 1 := by
  cases kind <;> rfl

/-- A text gets no longer for its tokens being read as text. -/
theorem length_tokensAsText_le (text : Text) : (tokensAsText text).length ≤ text.length := by
  induction text using token_induction with
  | nil => exact Nat.le_refl _
  | char c rest h ih =>
    rw [tokensAsText_char h]
    simpa using ih
  | token token rest ih =>
    rw [tokensAsText_token, List.length_append, List.length_append, length_tokenAsText,
      token.length_text]
    omega

theorem tokensAsText_eq_nil {text : Text} (h : tokensAsText text = []) : text = [] := by
  induction text using token_induction with
  | nil => rfl
  | char c rest hc _ => rw [tokensAsText_char hc] at h; cases h
  | token token rest _ =>
    rw [tokensAsText_token, List.append_eq_nil_iff] at h
    have := congrArg List.length h.1
    rw [length_tokenAsText] at this
    cases this

/-- What holds of a text's characters, of "@" and of "#", holds with its tokens read as text. -/
theorem forall_mem_tokensAsText {P : Char → Prop} {text : Text} (hat : P '@') (hsharp : P '#')
    (h : ∀ c ∈ text, P c) : ∀ c ∈ tokensAsText text, P c := by
  induction text using token_induction with
  | nil => exact h
  | char c rest hc ih =>
    rw [tokensAsText_char hc]
    exact List.forall_mem_cons.mpr ⟨(List.forall_mem_cons.mp h).1, ih (List.forall_mem_cons.mp h).2⟩
  | token token rest ih =>
    rw [List.forall_mem_append] at h
    rw [tokensAsText_token, List.forall_mem_append]
    refine ⟨?_, ih h.2⟩
    have hhandle : ∀ c ∈ token.handle, P c := fun c hc =>
      h.1 c (by simp only [Token.text, tokenText, List.mem_append, List.mem_cons]; tauto)
    cases token.kind
    · exact List.forall_mem_cons.mpr ⟨hat, hhandle⟩
    · exact List.forall_mem_cons.mpr ⟨hat, hhandle⟩
    · exact List.forall_mem_cons.mpr ⟨hsharp, hhandle⟩

end Stoop.Markdown
