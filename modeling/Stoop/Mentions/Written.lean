import Stoop.Lib.Encoding
import Stoop.Lib.Pattern
import Stoop.Mentions.Standing

/-!
# Tokens in bytes and in UTF-16

The server looks for a token in a content's bytes, by hand; the client matches a pattern in its UTF-16 units. Both
find what `tokenLength` finds in the content's characters: every character of a token is ASCII, which is one byte
and one unit, and no other character's bytes or units are seen as one. So the two find the same tokens at the same
places (`SamePlace`), and what a content reads as has the same length for both.

## The server's functions

`Server.tokenLength`, `Server.eachToken`, `Server.tokensAsText`, `Server.writtenLength`

## The client's

`Client.mentionTokenPattern`, `Client.mentionTokenAt`, `Client.tokensAsText`, `Client.writtenLength`

## How they agree

`scanners_agree`
-/

set_option autoImplicit false

namespace Stoop.Mentions.Written

open Stoop.Lib Stoop.Markdown

/-! ## The server's functions -/

namespace Server

def isHandleByte (b : UInt8) : Bool := utf8.between 'a' 'z' b || utf8.between '0' '9' b || utf8.is '_' b

def isChannelNameByte (b : UInt8) : Bool := isHandleByte b || utf8.is '-' b

def nameByte : TokenKind → UInt8 → Bool
  | .person | .group => isHandleByte
  | .channel => isChannelNameByte

/-- The kind whose opening the text starts with. -/
def openingOf : List UInt8 → Option TokenKind
  | a :: b :: rest =>
    if utf8.is '<' a && utf8.is '#' b then some .channel
    else
      match rest with
      | k :: c :: _ =>
        if utf8.is '<' a && utf8.is '@' b && utf8.is ':' c then
          if utf8.is 'u' k then some .person else if utf8.is 'g' k then some .group else none
        else none
      | _ => none
  | _ => none

/-- Whether a byte may stand at a place of an ID. -/
def idByteAt (i : Nat) (b : UInt8) : Bool :=
  if i ∈ [8, 13, 18, 23] then utf8.is '-' b else utf8.between '0' '9' b || utf8.between 'a' 'f' b

/-- How many bytes a name goes on for, up to a number of them. -/
def nameRun (nameByte : UInt8 → Bool) : (most : Nat) → List UInt8 → Nat
  | most + 1, b :: rest => if nameByte b then nameRun nameByte most rest + 1 else 0
  | _, _ => 0

/-- The length of the token text starts with, or 0. -/
def tokenLength (text : List UInt8) : Nat :=
  match openingOf text with
  | none => 0
  | some kind =>
    let idEnd := kind.opening.length + 36
    if text.length < idEnd + 1 + kind.minName + 1 then 0
    else if !((text.drop kind.opening.length).take 36).zipIdx.all fun (b, i) => idByteAt i b then 0
    else
      match text.drop idEnd with
      | [] => 0
      | colon :: named =>
        if !utf8.is ':' colon then 0
        else
          -- the scan stops one past the longest name
          let name := nameRun (nameByte kind) 33 named
          if name < kind.minName || 32 < name then 0
          else
            match named.drop name with
            | [] => 0
            | close :: _ => if utf8.is '>' close then idEnd + 1 + name + 1 else 0

/-- Where each token starts and ends, from an offset on. -/
def eachTokenFrom (start : Nat) (rest : List UInt8) : List (Nat × Nat) :=
  match hfound : rest.findIdx? (utf8.is '<') with
  | none => []
  | some opening =>
    have _hlt : opening < rest.length := (List.findIdx?_eq_some_iff_getElem.mp hfound).1
    match tokenLength (rest.drop opening) with
    | 0 => eachTokenFrom (start + opening + 1) (rest.drop (opening + 1))
    | length + 1 =>
      (start + opening, start + opening + (length + 1)) ::
        eachTokenFrom (start + opening + (length + 1)) (rest.drop (opening + (length + 1)))
termination_by rest.length
decreasing_by
  all_goals
    rw [List.length_drop]
    omega

def eachToken (content : List UInt8) : List (Nat × Nat) := eachTokenFrom 0 content

/-- How a whole token reads as text: @handle, or #name for a channel. -/
def tokenRead (token : List UInt8) : List UInt8 :=
  if token[1]?.any (utf8.is '#') then utf8.encode ['#'] ++ (token.drop 39).dropLast
  else utf8.encode ['@'] ++ (token.drop 41).dropLast

/-- Text with each token as the @handle or #name it was saved with. -/
def tokensAsText (text : List UInt8) : List UInt8 :=
  if !text.any (utf8.is '<') then text
  else
    spliceFrom text 0 ((eachToken text).map fun (start, stop) => (start, stop, tokenRead
      ((text.take stop).drop start)))

/-- A content's length as people read it. -/
def writtenLength (content : List UInt8) : Nat := runeCount (tokensAsText content)

end Server

/-! ## The client's -/

namespace Client

/-- A pattern's own characters. -/
def word (s : String) : Pattern UInt16 := .lit (s.toList.map utf16.is)

def hexUnit (u : UInt16) : Bool := utf16.between '0' '9' u || utf16.between 'a' 'f' u

def handleUnit (u : UInt16) : Bool := utf16.between 'a' 'z' u || utf16.between '0' '9' u || utf16.is '_' u

def channelUnit (u : UInt16) : Bool := handleUnit u || utf16.is '-' u

/-- `UUID`. -/
def uuid : Pattern UInt16 :=
  .seqs [.rep hexUnit 8 (some 8), word "-", .rep hexUnit 4 (some 4), word "-", .rep hexUnit 4 (some 4), word "-",
    .rep hexUnit 4 (some 4), word "-", .rep hexUnit 12 (some 12)]

/-- `MENTION_TOKEN`. -/
def mentionTokenPattern : Pattern UInt16 :=
  .alt
    (.seqs [word "<@", .group 1 (.one fun u => utf16.is 'u' u || utf16.is 'g' u), word ":", .group 2 uuid,
      word ":",
      .group 3 (.rep handleUnit 3 (some 32)), word ">"])
    (.seqs [word "<#", .group 4 uuid, word ":", .group 5 (.rep channelUnit 1 (some 32)), word ">"])

structure MentionRef where
  kind : TokenKind
  id : List UInt16
  handle : List UInt16
  deriving DecidableEq

/-- What a mention's groups say. -/
def refOf (groups : Captures UInt16) : MentionRef :=
  let taken := fun k => (groups.lookup k).getD []
  if taken 4 ≠ [] then ⟨.channel, taken 4, taken 5⟩
  else ⟨if taken 1 = utf16.encode ['g'] then .group else .person, taken 2, taken 3⟩

/-- How a mention reads as words. -/
def mentionText (ref : MentionRef) : List UInt16 :=
  utf16.encode [if ref.kind = .channel then '#' else '@'] ++ ref.handle

/-- The token at the start of a string, if any, and its length. -/
def mentionTokenAt (s : List UInt16) : Option (MentionRef × Nat) :=
  (Pattern.first (.seqs [.start, mentionTokenPattern]) 0 s).map fun (text, groups) => (refOf groups, text.length)

/-- Each token as the @handle or #name it was written with. -/
def tokensAsText (content : List UInt16) : List UInt16 :=
  mentionTokenPattern.replaceAll (fun m => mentionText (refOf m.groups)) content

/-- A content's length as people read it, each character once. -/
def writtenLength (content : List UInt16) : Nat := codePoints (tokensAsText content)

end Client

/-! ## Units seen as characters -/

section Classes

variable {α : Type} (e : Encoding α) (u : α)

theorem between_digit : e.between '0' '9' u = isDigit (e.seenUnit u) := e.between_eq (by decide) (by decide) u

theorem hex_class : (e.between '0' '9' u || e.between 'a' 'f' u) = isHex (e.seenUnit u) := by
  rw [between_digit, e.between_eq (by decide) (by decide), isHex]

theorem handle_class :
    (e.between 'a' 'z' u || e.between '0' '9' u || e.is '_' u) = isHandleChar (e.seenUnit u) := by
  rw [between_digit, e.between_eq (by decide) (by decide), e.is_eq (by decide)]
  rfl

theorem channel_class :
    (e.between 'a' 'z' u || e.between '0' '9' u || e.is '_' u || e.is '-' u) = isChannelNameChar
      (e.seenUnit u) := by
  rw [handle_class, e.is_eq (by decide)]
  rfl

end Classes

theorem nameByte_eq (kind : TokenKind) (b : UInt8) : Server.nameByte kind b = kind.nameChar
    (utf8.seenUnit b) := by
  cases kind with
  | person => exact handle_class utf8 b
  | group => exact handle_class utf8 b
  | channel => exact channel_class utf8 b

theorem idByteAt_eq (i : Nat) (b : UInt8) : Server.idByteAt i b = idCharAt i (utf8.seenUnit b) := by
  rw [Server.idByteAt, idCharAt, hex_class, utf8.is_eq (by decide)]
  rfl

/-! ## Tokens are plain -/

theorem isPlain_of_isDigit {c : Char} (h : isDigit c = true) : Encoding.IsPlain c := by
  rw [isDigit, Bool.and_eq_true, decide_eq_true_eq, decide_eq_true_eq] at h
  exact Encoding.isPlain_between (by decide) (by decide) h.1 h.2

theorem isPlain_of_isHex {c : Char} (h : isHex c = true) : Encoding.IsPlain c := by
  rw [isHex, Bool.or_eq_true, Bool.and_eq_true, decide_eq_true_eq, decide_eq_true_eq] at h
  obtain h | h := h
  · exact isPlain_of_isDigit h
  · exact Encoding.isPlain_between (by decide) (by decide) h.1 h.2

theorem isPlain_of_isHandleChar {c : Char} (h : isHandleChar c = true) : Encoding.IsPlain c := by
  rw [isHandleChar, Bool.or_eq_true, Bool.or_eq_true, Bool.and_eq_true, decide_eq_true_eq, decide_eq_true_eq,
    beq_iff_eq] at h
  obtain (h | h) | rfl := h
  · exact Encoding.isPlain_between (by decide) (by decide) h.1 h.2
  · exact isPlain_of_isDigit h
  · decide

theorem isPlain_of_nameChar {kind : TokenKind} {c : Char} (h : kind.nameChar c = true) : Encoding.IsPlain c := by
  cases kind with
  | person => exact isPlain_of_isHandleChar h
  | group => exact isPlain_of_isHandleChar h
  | channel =>
    obtain h | h := Bool.or_eq_true_iff.mp h
    · exact isPlain_of_isHandleChar h
    · rw [beq_iff_eq.mp h]
      decide

theorem isPlain_of_isID {id : Text} (h : isID id = true) : Encoding.Plain id := by
  intro c hc
  rw [isID, Bool.and_eq_true, List.all_eq_true] at h
  obtain ⟨i, hi, rfl⟩ := List.getElem_of_mem hc
  have hplace := h.2 (id[i], i) (List.mem_zipIdx_iff_getElem?.mpr (List.getElem?_eq_getElem hi))
  dsimp only at hplace
  rw [idCharAt] at hplace
  split at hplace
  · rw [beq_iff_eq.mp hplace]
    decide
  · exact isPlain_of_isHex hplace

theorem plain_opening (kind : TokenKind) : Encoding.Plain kind.opening := by
  cases kind <;> simp [TokenKind.opening, Encoding.Plain, Encoding.isPlain_iff]

theorem plain_text (token : Token) : Encoding.Plain token.text := by
  have hhandle : Encoding.Plain token.handle := fun c hc => isPlain_of_nameChar (token.handle_ok.2.2 c hc)
  intro c hc
  simp only [Token.text, tokenText, List.mem_append, List.mem_cons, List.not_mem_nil, or_false] at hc
  obtain ((hc | hc) | rfl | hc) | rfl := hc
  · exact plain_opening _ c hc
  · exact isPlain_of_isID token.id_ok c hc
  · decide
  · exact hhandle c hc
  · decide

/-- What is seen of a text's units has a token in front where the text has. -/
theorem tokenLength_seen_encode {α : Type} (e : Encoding α) (text : Text) :
    Markdown.tokenLength (e.seen (e.encode text)) = Markdown.tokenLength text := by
  by_cases h : Markdown.tokenLength text = 0
  · rw [h]
    by_contra hne
    obtain ⟨token, rest, hseen, -⟩ := token_at hne
    obtain ⟨after, rfl, -⟩ := e.prefix_of_seen (plain_text token) hseen
    rw [tokenLength_text] at h
    have hpos := token.length_pos
    omega
  · obtain ⟨token, rest, rfl, -⟩ := token_at h
    rw [e.encode_append, e.seen_append, e.seen_encode (plain_text token), tokenLength_text, tokenLength_text]

/-- A unit that is not seen as "<" starts no token. -/
theorem tokenLength_seen_dull {α : Type} (e : Encoding α) {u : α} (h : e.seenUnit u ≠ '<') (rest : List α) :
    Markdown.tokenLength (e.seen (u :: rest)) = 0 := by
  rw [e.seen_cons]
  by_contra hne
  obtain ⟨token, after, hseen, -⟩ := token_at hne
  obtain ⟨tail, htail, -⟩ := text_cons token
  rw [htail, List.cons_append, List.cons.injEq] at hseen
  exact h hseen.1

/-! ## The server's scanner -/

namespace Server

theorem openingOf_eq (text : List UInt8) : openingOf text = Markdown.openingOf (utf8.seen text) := by
  have his : ∀ {c : Char}, Encoding.IsPlain c → ∀ b, utf8.is c b = decide (utf8.seenUnit b = c) := utf8.is_eq
  match text with
  | [] => rfl
  | [a] =>
    rw [openingOf, Markdown.openingOf] <;> simp
  | [a, b] =>
    simp only [openingOf, his (by decide : Encoding.IsPlain '<'), his (by decide : Encoding.IsPlain '#'),
      utf8.seen_cons, utf8.seen_nil]
    generalize utf8.seenUnit a = x
    generalize utf8.seenUnit b = y
    unfold Markdown.openingOf
    split <;> simp_all
  | [a, b, k] =>
    simp only [openingOf, his (by decide : Encoding.IsPlain '<'), his (by decide : Encoding.IsPlain '#'),
      utf8.seen_cons, utf8.seen_nil]
    generalize utf8.seenUnit a = x
    generalize utf8.seenUnit b = y
    generalize utf8.seenUnit k = z
    unfold Markdown.openingOf
    split <;> simp_all
  | a :: b :: k :: c :: rest =>
    simp only [openingOf, his (by decide : Encoding.IsPlain '<'), his (by decide : Encoding.IsPlain '#'),
      his (by decide : Encoding.IsPlain '@'), his (by decide : Encoding.IsPlain ':'),
      his (by decide : Encoding.IsPlain 'u'), his (by decide : Encoding.IsPlain 'g'), utf8.seen_cons]
    generalize utf8.seenUnit a = x
    generalize utf8.seenUnit b = y
    generalize utf8.seenUnit k = z
    generalize utf8.seenUnit c = w
    unfold Markdown.openingOf
    split <;> simp_all
    grind

theorem nameRun_eq (kind : TokenKind) (most : Nat) (text : List UInt8) :
    nameRun (nameByte kind) most text = (((utf8.seen text).take most).takeWhile kind.nameChar).length := by
  induction text generalizing most with
  | nil => cases most <;> rfl
  | cons b text ih =>
    cases most with
    | zero => rfl
    | succ most =>
      rw [nameRun, nameByte_eq, utf8.seen_cons, List.take_succ_cons, List.takeWhile_cons, ih]
      cases kind.nameChar (utf8.seenUnit b) <;> rfl

/-- The scanner finds in bytes what `tokenLength` finds in what they are seen as. -/
theorem tokenLength_seen (text : List UInt8) : tokenLength text = Markdown.tokenLength (utf8.seen text) := by
  have hdrop : ∀ n, (utf8.seen text).drop n = utf8.seen (text.drop n) := fun n => List.map_drop.symm
  unfold tokenLength Markdown.tokenLength
  rw [openingOf_eq]
  cases Markdown.openingOf (utf8.seen text) with
  | none => rfl
  | some kind =>
    dsimp only
    rw [utf8.length_seen, hdrop, hdrop]
    by_cases hshort : text.length < kind.opening.length + 36 + 1 + kind.minName + 1
    · rw [if_pos hshort, if_pos hshort]
    · rw [if_neg hshort, if_neg hshort]
      have hid : ∀ f : UInt8 × Nat → Bool, (∀ b i, f (b, i) = idByteAt i b) →
          ((text.drop kind.opening.length).take 36).zipIdx.all f =
          isID ((utf8.seen (text.drop kind.opening.length)).take 36) := by
        intro f hf
        have hlength : ((text.drop kind.opening.length).take 36).length = 36 := by
          rw [List.length_take, List.length_drop]
          omega
        rw [Encoding.seen, ← List.map_take, isID, List.length_map, hlength, List.zipIdx_map, List.all_map]
        simp only [beq_self_eq_true, Bool.true_and]
        have hbyte : ∀ entry : UInt8 × Nat, f entry = idByteAt entry.2 entry.1 := fun entry => hf entry.1 entry.2
        exact congrArg (List.all _) (funext fun entry => (hbyte entry).trans (idByteAt_eq entry.2 entry.1))
      rw [hid _ fun _ _ => rfl]
      split
      · rfl
      · cases text.drop (kind.opening.length + 36) with
        | nil => rfl
        | cons colon named =>
          have hnamed : ∀ n, (utf8.seen named).drop n = utf8.seen (named.drop n) := fun n => List.map_drop.symm
          rw [utf8.seen_cons]
          dsimp only
          rw [utf8.is_eq (by decide)]
          by_cases hcolon : utf8.seenUnit colon = ':'
          · rw [nameRun_eq, decide_eq_true hcolon, Bool.not_true, if_neg Bool.false_ne_true]
            simp only [hcolon]
            split
            · rfl
            · rw [hnamed]
              cases named.drop _ with
              | nil => rfl
              | cons close rest =>
                rw [utf8.seen_cons]
                dsimp only
                rw [utf8.is_eq (by decide)]
                by_cases hclose : utf8.seenUnit close = '>'
                · rw [decide_eq_true hclose, if_pos rfl]
                  simp only [hclose]
                · rw [decide_eq_false hclose, if_neg Bool.false_ne_true]
                  split
                  · next heq => exact absurd (List.cons.inj heq).1 hclose
                  · rfl
          · rw [decide_eq_false hcolon, Bool.not_false, if_pos rfl]
            split
            · next heq => exact absurd (List.cons.inj heq).1 hcolon
            · rfl

/-- **The scanner on a text's bytes finds what there is in the text.** -/
theorem tokenLength_encode (text : Text) : tokenLength (utf8.encode text) = Markdown.tokenLength text := by
  rw [tokenLength_seen, tokenLength_seen_encode]

theorem tokenLength_dull {b : UInt8} (h : utf8.seenUnit b ≠ '<') (rest : List UInt8) :
    tokenLength (b :: rest) = 0 := by
  rw [tokenLength_seen, tokenLength_seen_dull utf8 h]

/-! ### Going through a content -/

theorem eachTokenFrom_none {start : Nat} {rest : List UInt8} (h : rest.findIdx? (utf8.is '<') = none) :
    eachTokenFrom start rest = [] := by
  rw [eachTokenFrom]
  split
  · rfl
  · next hsome =>
    rw [h] at hsome
    exact nomatch hsome

theorem eachTokenFrom_some {start opening : Nat} {rest : List UInt8}
    (h : rest.findIdx? (utf8.is '<') = some opening) :
    eachTokenFrom start rest =
      match tokenLength (rest.drop opening) with
      | 0 => eachTokenFrom (start + opening + 1) (rest.drop (opening + 1))
      | length + 1 =>
        (start + opening, start + opening + (length + 1)) ::
          eachTokenFrom (start + opening + (length + 1)) (rest.drop (opening + (length + 1))) := by
  rw [eachTokenFrom]
  split
  · next hnone =>
    rw [h] at hnone
    exact nomatch hnone
  · next found hsome =>
    rw [h] at hsome
    obtain rfl := Option.some.inj hsome
    rfl

/-- A byte that starts no token is passed over. -/
theorem eachTokenFrom_miss {start : Nat} {b : UInt8} {rest : List UInt8} (h : tokenLength (b :: rest) = 0) :
    eachTokenFrom start (b :: rest) = eachTokenFrom (start + 1) rest := by
  by_cases hb : utf8.is '<' b = true
  · have hfound : (b :: rest).findIdx? (utf8.is '<') = some 0 := by rw [List.findIdx?_cons, if_pos hb]
    rw [eachTokenFrom_some hfound, List.drop_zero, h]
    rfl
  · have hfound : (b :: rest).findIdx? (utf8.is '<') = (rest.findIdx? (utf8.is '<')).map (· + 1) := by
      rw [List.findIdx?_cons, if_neg hb]
    cases hrest : rest.findIdx? (utf8.is '<') with
    | none =>
      rw [hrest, Option.map_none] at hfound
      rw [eachTokenFrom_none hfound, eachTokenFrom_none hrest]
    | some opening =>
      rw [hrest, Option.map_some] at hfound
      rw [eachTokenFrom_some hfound, eachTokenFrom_some hrest, List.drop_succ_cons, List.drop_succ_cons,
        Nat.add_right_comm start 1, Nat.add_assoc start]
      have hdrop : ∀ n, (b :: rest).drop (opening + 1 + n) = rest.drop (opening + n) := fun n => by
        rw [Nat.add_right_comm, List.drop_succ_cons]
      simp only [hdrop]
      simp only [← Nat.add_assoc]

/-- A token is found, and the search goes on after it. -/
theorem eachTokenFrom_hit {start : Nat} (token : Token) (rest : List UInt8) :
    eachTokenFrom start (utf8.encode token.text ++ rest) =
      (start, start + token.text.length) :: eachTokenFrom (start + token.text.length) rest := by
  obtain ⟨tail, htail, -⟩ := text_cons token
  have hlength : tokenLength (utf8.encode token.text ++ rest) = token.text.length := by
    rw [tokenLength_seen, utf8.seen_append, utf8.seen_encode (plain_text token), tokenLength_text]
  have hfound : (utf8.encode token.text ++ rest).findIdx? (utf8.is '<') = some 0 := by
    rw [htail]
    rfl
  have hwidth : (utf8.encode token.text).length = token.text.length := utf8.length_encode (plain_text token)
  obtain ⟨n, hn⟩ : ∃ n, token.text.length = n + 1 := ⟨tail.length, by rw [htail, List.length_cons]⟩
  rw [hn] at hlength hwidth ⊢
  rw [eachTokenFrom_some hfound, List.drop_zero, hlength]
  simp only [Nat.add_zero, Nat.zero_add]
  rw [← hwidth, List.drop_left]

theorem eachTokenFrom_dull {start : Nat} (us rest : List UInt8) (h : ∀ b ∈ us, utf8.seenUnit b ≠ '<') :
    eachTokenFrom start (us ++ rest) = eachTokenFrom (start + us.length) rest := by
  induction us generalizing start with
  | nil => rfl
  | cons b us ih =>
    obtain ⟨hb, hus⟩ := List.forall_mem_cons.mp h
    rw [List.cons_append, eachTokenFrom_miss (tokenLength_dull hb _), ih hus, List.length_cons, Nat.add_assoc,
      Nat.add_comm 1]

/-- A character that starts no token is passed over. -/
theorem eachTokenFrom_char {start : Nat} {c : Char} {rest : Text} (h : Markdown.tokenLength (c :: rest) = 0) :
    eachTokenFrom start (utf8.encode (c :: rest)) = eachTokenFrom (start + (utf8.units c).length)
      (utf8.encode rest) := by
  by_cases hc : c = '<'
  · subst hc
    have hmiss := tokenLength_encode ('<' :: rest)
    rw [h] at hmiss
    exact eachTokenFrom_miss hmiss
  · rw [utf8.encode_cons]
    exact eachTokenFrom_dull _ _ fun b hb => utf8.seenUnit_ne_of_ne hc (by decide) hb

/-- A token reads as its name. -/
theorem tokenRead_text (token : Token) :
    tokenRead (utf8.encode token.text) = utf8.encode (tokenAsText token.kind token.handle) := by
  have hsplit : utf8.encode token.text =
      utf8.encode (token.kind.opening ++ token.id ++ [':']) ++
        (utf8.encode token.handle ++ utf8.encode ['>']) := by
    simp only [Token.text, tokenText, utf8.encode_append, utf8.encode_cons, utf8.encode_nil, List.append_assoc,
      List.append_nil]
  have hfront : (utf8.encode (token.kind.opening ++ token.id ++ [':'])).length =
    token.kind.opening.length + 37 := by
    have hplain : Encoding.Plain (token.kind.opening ++ token.id ++ [':']) := by
      intro c hc
      rw [List.mem_append, List.mem_append, List.mem_singleton] at hc
      obtain (hc | hc) | rfl := hc
      · exact plain_opening _ c hc
      · exact isPlain_of_isID token.id_ok c hc
      · decide
    rw [utf8.length_encode hplain, List.length_append, List.length_append, token.id_length]
    rfl
  have hhandle : ((utf8.encode token.text).drop (token.kind.opening.length + 37)).dropLast =
    utf8.encode token.handle := by
    rw [hsplit, ← hfront, List.drop_left]
    exact List.dropLast_concat
  rw [tokenRead]
  cases hkind : token.kind with
  | person =>
    rw [hkind] at hhandle
    have hletter : (utf8.encode token.text)[1]?.any (utf8.is '#') = false := by
      rw [Token.text, hkind]
      rfl
    rw [hletter, if_neg Bool.false_ne_true]
    exact congrArg (_ ++ ·) hhandle
  | group =>
    rw [hkind] at hhandle
    have hletter : (utf8.encode token.text)[1]?.any (utf8.is '#') = false := by
      rw [Token.text, hkind]
      rfl
    rw [hletter, if_neg Bool.false_ne_true]
    exact congrArg (_ ++ ·) hhandle
  | channel =>
    rw [hkind] at hhandle
    have hletter : (utf8.encode token.text)[1]?.any (utf8.is '#') = true := by
      rw [Token.text, hkind]
      rfl
    rw [hletter, if_pos rfl]
    exact congrArg (_ ++ ·) hhandle

theorem tokensAsText_eq (text : List UInt8) :
    tokensAsText text = spliceFrom text 0
      ((eachToken text).map fun (start, stop) => (start, stop, tokenRead ((text.take stop).drop start))) := by
  rw [tokensAsText]
  split
  · next hnone =>
    have hfind : text.findIdx? (utf8.is '<') = none := by
      rw [List.findIdx?_eq_none_iff]
      simpa using hnone
    rw [eachToken, eachTokenFrom_none hfind]
    rfl
  · rfl

end Server

/-! ## The client's pattern -/

theorem all_zipIdx_iff {f : Nat → Char → Bool} (l : Text) (k : Nat) :
    ((l.zipIdx k).all fun (c, i) => f i c) = true ↔
      List.Forall₂ (fun p c => p c = true) ((List.range' k l.length).map f) l := by
  induction l generalizing k with
  | nil => simp
  | cons c l ih =>
    rw [List.zipIdx_cons, List.all_cons, Bool.and_eq_true, ih, List.length_cons, List.range'_succ, List.map_cons,
      List.forall₂_cons]

theorem isID_iff (id : Text) :
    isID id = true ↔ List.Forall₂ (fun p c => p c = true) ((List.range' 0 36).map idCharAt) id := by
  rw [isID, Bool.and_eq_true, beq_iff_eq, all_zipIdx_iff]
  constructor
  · rintro ⟨hlength, hall⟩
    rwa [hlength] at hall
  · intro h
    have hlength : id.length = 36 := by
      have hsame := h.length_eq
      rwa [List.length_map, List.length_range', eq_comm] at hsame
    exact ⟨hlength, by rwa [hlength]⟩

namespace Client

open Pattern

variable {offset : Nat} {t rest : List UInt16} {gs : Captures UInt16}

theorem matches_word {s : String} (h : Encoding.Plain s.toList) :
    (word s).Matches offset t rest gs ↔ t = utf16.encode s.toList ∧ gs = [] := by
  rw [word, Pattern.fixed_lit, List.forall₂_map_left_iff]
  refine and_congr_left fun _ => ?_
  generalize s.toList = word at h
  induction word generalizing t with
  | nil => rw [List.forall₂_nil_left_iff, Encoding.encode_nil]
  | cons c word ih =>
    obtain ⟨hc, hword⟩ := List.forall_mem_cons.mp h
    have hunit : ∀ u, utf16.is c u = true ↔ [u] = utf16.units c := by
      intro u
      obtain ⟨v, hunits, hvalue⟩ := utf16.ascii_units c hc.1
      rw [hunits, List.cons.injEq, Encoding.is, decide_eq_true_eq, ← hvalue]
      exact ⟨fun heq => ⟨utf16.value_inj _ _ heq, rfl⟩, fun heq => congrArg _ heq.1⟩
    rw [List.forall₂_cons_left_iff, Encoding.encode_cons]
    constructor
    · rintro ⟨u, us, hu, hus, rfl⟩
      rw [← (hunit u).mp hu, ← (ih hword).mp hus, List.singleton_append]
    · rintro rfl
      obtain ⟨v, hunits, -⟩ := utf16.ascii_units c hc.1
      rw [hunits, List.singleton_append]
      exact ⟨v, _, (hunit v).mpr hunits.symm, (ih hword).mpr rfl, rfl⟩

theorem handleUnit_eq (u : UInt16) : handleUnit u = isHandleChar (utf16.seenUnit u) := handle_class utf16 u

theorem channelUnit_eq (u : UInt16) : channelUnit u = isChannelNameChar (utf16.seenUnit u) :=
    channel_class utf16 u

theorem matches_uuid : uuid.Matches offset t rest gs ↔ isID (utf16.seen t) = true ∧ gs = [] := by
  have hhex : hexUnit = fun u => isHex (utf16.seenUnit u) := funext (hex_class utf16)
  have hdash : utf16.is '-' = fun u => decide (utf16.seenUnit u = '-') := funext (utf16.is_eq (by decide))
  have hword : Fixed (word "-") [utf16.is '-'] := fixed_lit _
  have hfixed : Fixed uuid _ :=
    fixed_cons fixed_rep (fixed_cons hword (fixed_cons fixed_rep (fixed_cons hword (fixed_cons fixed_rep
      (fixed_cons hword (fixed_cons fixed_rep (fixed_cons hword (fixed_cons fixed_rep fixed_nil))))))))
  rw [hfixed, isID_iff, Encoding.seen, List.forall₂_map_right_iff, hhex, hdash]
  change List.Forall₂ _ (((List.range' 0 36).map idCharAt).map fun p u => p (utf16.seenUnit u)) t ∧ _ ↔ _
  rw [List.forall₂_map_left_iff]

/-- A token's groups: the kind's letter, the ID and the handle of a mention; the ID and the name of a link. -/
def captures (token : Token) : Captures UInt16 :=
  match token.kind with
  | .person => [(1, utf16.encode ['u']), (2, utf16.encode token.id), (3, utf16.encode token.handle)]
  | .group => [(1, utf16.encode ['g']), (2, utf16.encode token.id), (3, utf16.encode token.handle)]
  | .channel => [(4, utf16.encode token.id), (5, utf16.encode token.handle)]

theorem forall_mem_seen {P : Char → Prop} {us : List UInt16} :
    (∀ c ∈ utf16.seen us, P c) ↔ ∀ u ∈ us, P (utf16.seenUnit u) := List.forall_mem_map

/-- What is after a token's opening in its text. -/
theorem matches_named (kind : TokenKind) {nameUnit : UInt16 → Bool}
    (hclass : ∀ u, nameUnit u = kind.nameChar (utf16.seenUnit u)) {k k' : Nat} :
    (seqs [.group k uuid, word ":", .group k' (.rep nameUnit kind.minName (some 32)),
      word ">"]).Matches offset t rest gs ↔
      ∃ id handle, isID id = true ∧ kind.Names handle ∧ t = utf16.encode (id ++ ':' :: handle ++ ['>']) ∧
        gs = [(k, utf16.encode id), (k', utf16.encode handle)] := by
  have hcolon : Encoding.Plain ":".toList := by simp [Encoding.Plain, Encoding.isPlain_iff]
  have hclose : Encoding.Plain ">".toList := by simp [Encoding.Plain, Encoding.isPlain_iff]
  constructor
  · intro h
    obtain ⟨id, t₁, gs₁, gs₂, rfl, rfl, hgroup, hafter₁⟩ := matches_seqs_cons.mp h
    obtain ⟨gs₁, rfl, huuid⟩ := matches_group.mp hgroup
    obtain ⟨hid, rfl⟩ := matches_uuid.mp huuid
    obtain ⟨t₂, t₃, gs₃, gs₄, rfl, rfl, hword, hafter₂⟩ := matches_seqs_cons.mp hafter₁
    obtain ⟨rfl, rfl⟩ := (matches_word hcolon).mp hword
    obtain ⟨name, t₄, gs₅, gs₆, rfl, rfl, hgroup', hafter₃⟩ := matches_seqs_cons.mp hafter₂
    obtain ⟨gs₅, rfl, hname⟩ := matches_group.mp hgroup'
    obtain ⟨⟨hleast, hmost, hall⟩, rfl⟩ := matches_rep.mp hname
    obtain ⟨t₅, t₆, gs₇, gs₈, rfl, rfl, hword', hafter₄⟩ := matches_seqs_cons.mp hafter₃
    obtain ⟨rfl, rfl⟩ := (matches_word hclose).mp hword'
    obtain ⟨rfl, rfl⟩ := matches_seqs_nil.mp hafter₄
    have hnamed : kind.Names (utf16.seen name) := by
      refine ⟨by rwa [utf16.length_seen], by rw [utf16.length_seen]; exact hmost 32 rfl, ?_⟩
      exact forall_mem_seen.mpr fun u hu => (hclass u) ▸ hall u hu
    have hidPlain := utf16.encode_seen (isPlain_of_isID hid)
    have hnamePlain := utf16.encode_seen fun c hc => isPlain_of_nameChar (hnamed.2.2 c hc)
    refine ⟨_, _, hid, hnamed, ?_, ?_⟩
    · simp only [utf16.encode_append, utf16.encode_cons, hidPlain, hnamePlain, List.append_assoc]
      rfl
    · rw [hidPlain, hnamePlain]
      rfl
  · rintro ⟨id, handle, hid, hnamed, rfl, rfl⟩
    have hidSeen := utf16.seen_encode (isPlain_of_isID hid)
    have hplain : Encoding.Plain handle := fun c hc => isPlain_of_nameChar (hnamed.2.2 c hc)
    have hnameSeen := utf16.seen_encode hplain
    refine matches_seqs_cons.mpr ⟨utf16.encode id, utf16.encode (':' :: handle ++ ['>']), _, _, ?_, rfl,
      matches_group.mpr ⟨_, rfl, matches_uuid.mpr ⟨by rwa [hidSeen], rfl⟩⟩, ?_⟩
    · rw [List.append_assoc, utf16.encode_append]
    refine matches_seqs_cons.mpr ⟨utf16.encode [':'], utf16.encode (handle ++ ['>']), _, _, rfl, rfl,
      (matches_word hcolon).mpr ⟨rfl, rfl⟩, ?_⟩
    refine matches_seqs_cons.mpr ⟨utf16.encode handle, utf16.encode ['>'], _, _, utf16.encode_append _ _, rfl,
      matches_group.mpr ⟨_, rfl, matches_rep.mpr ⟨⟨?_, ?_, ?_⟩, rfl⟩⟩, ?_⟩
    · rw [utf16.length_encode hplain]
      exact hnamed.1
    · intro m hm
      rw [utf16.length_encode hplain, ← Option.some.inj hm]
      exact hnamed.2.1
    · intro u hu
      rw [hclass]
      have hall := hnamed.2.2
      rw [← hnameSeen] at hall
      exact forall_mem_seen.mp hall u hu
    · exact matches_seqs_cons.mpr ⟨utf16.encode ['>'], [], _, _, (List.append_nil _).symm, rfl,
        (matches_word hclose).mpr ⟨rfl, rfl⟩, matches_seqs_nil.mpr ⟨rfl, rfl⟩⟩

/-- **The pattern matches tokens.** -/
theorem matches_mentionToken : mentionTokenPattern.Matches offset t rest gs ↔
    ∃ token : Token, t = utf16.encode token.text ∧ gs = captures token := by
  have hat : Encoding.Plain "<@".toList := by simp [Encoding.Plain, Encoding.isPlain_iff]
  have hsharp : Encoding.Plain "<#".toList := by simp [Encoding.Plain, Encoding.isPlain_iff]
  have hcolon : Encoding.Plain ":".toList := by simp [Encoding.Plain, Encoding.isPlain_iff]
  have hletter : ∀ u, (utf16.is 'u' u || utf16.is 'g' u) = true ↔ [u] = utf16.encode ['u'] ∨
    [u] = utf16.encode ['g'] := by
    intro u
    have hword : ∀ c : Char, Encoding.IsPlain c → (utf16.is c u = true ↔ [u] = utf16.encode [c]) := by
      intro c hc
      rw [utf16.is_eq hc, decide_eq_true_eq]
      constructor
      · rintro rfl
        exact (@Encoding.encode_seen _ utf16 [u] (by simpa [Encoding.Plain] using hc)).symm
      · intro h
        have hseen := congrArg utf16.seen h
        rw [utf16.seen_encode (by simpa [Encoding.Plain] using hc)] at hseen
        exact (List.cons.inj hseen).1
    rw [Bool.or_eq_true, hword _ (by decide), hword _ (by decide)]
  rw [mentionTokenPattern, matches_alt]
  constructor
  · rintro (h | h)
    · obtain ⟨_, t₁, _, gs₁, rfl, rfl, hword, hafter₁⟩ := matches_seqs_cons.mp h
      obtain ⟨rfl, rfl⟩ := (matches_word hat).mp hword
      obtain ⟨_, t₂, _, gs₂, rfl, rfl, hgroup, hafter₂⟩ := matches_seqs_cons.mp hafter₁
      obtain ⟨_, rfl, hone⟩ := matches_group.mp hgroup
      obtain ⟨⟨u, rfl, hu⟩, rfl⟩ := matches_one.mp hone
      obtain ⟨_, t₃, _, gs₃, rfl, rfl, hword', hafter₃⟩ := matches_seqs_cons.mp hafter₂
      obtain ⟨rfl, rfl⟩ := (matches_word hcolon).mp hword'
      obtain hkind | hkind := (hletter u).mp hu
      · obtain ⟨id, handle, hid, hnamed, rfl, rfl⟩ := (matches_named .person handleUnit_eq).mp hafter₃
        exact ⟨⟨.person, id, handle, hid, hnamed⟩, by rw [hkind]; rfl, by rw [hkind]; rfl⟩
      · obtain ⟨id, handle, hid, hnamed, rfl, rfl⟩ := (matches_named .group handleUnit_eq).mp hafter₃
        exact ⟨⟨.group, id, handle, hid, hnamed⟩, by rw [hkind]; rfl, by rw [hkind]; rfl⟩
    · obtain ⟨_, t₁, _, gs₁, rfl, rfl, hword, hafter₁⟩ := matches_seqs_cons.mp h
      obtain ⟨rfl, rfl⟩ := (matches_word hsharp).mp hword
      obtain ⟨id, handle, hid, hnamed, rfl, rfl⟩ := (matches_named .channel channelUnit_eq).mp hafter₁
      exact ⟨⟨.channel, id, handle, hid, hnamed⟩, rfl, rfl⟩
  · rintro ⟨⟨kind, id, handle, hid, hnamed⟩, rfl, rfl⟩
    have hmention : ∀ u, (utf16.is 'u' u || utf16.is 'g' u) = true →
        ∀ tail gs', (∀ n, (seqs [.group 2 uuid, word ":", .group 3 (.rep handleUnit 3 (some 32)),
          word ">"]).Matches
          n tail rest gs') →
        (seqs [word "<@", .group 1 (.one fun u => utf16.is 'u' u || utf16.is 'g' u), word ":", .group 2 uuid,
          word ":",
          .group 3 (.rep handleUnit 3 (some 32)), word ">"]).Matches offset
            (utf16.encode "<@".toList ++ ([u] ++ (utf16.encode ":".toList ++ tail))) rest ((1, [u]) :: gs') := by
      intro u hu tail gs' htail
      exact matches_seqs_cons.mpr ⟨_, _, [], _, rfl, rfl, (matches_word hat).mpr ⟨rfl, rfl⟩,
        matches_seqs_cons.mpr ⟨_, _, _, _, rfl, rfl, matches_group.mpr ⟨_, rfl, matches_one.mpr ⟨⟨u, rfl, hu⟩,
          rfl⟩⟩,
          matches_seqs_cons.mpr ⟨_, _, [], _, rfl, rfl, (matches_word hcolon).mpr ⟨rfl, rfl⟩, htail _⟩⟩⟩
    cases kind with
    | person =>
      exact .inl (hmention _ (by decide) _ _ fun n =>
        (matches_named .person handleUnit_eq).mpr ⟨id, handle, hid, hnamed, rfl, rfl⟩)
    | group =>
      exact .inl (hmention _ (by decide) _ _ fun n =>
        (matches_named .group handleUnit_eq).mpr ⟨id, handle, hid, hnamed, rfl, rfl⟩)
    | channel =>
      exact .inr (matches_seqs_cons.mpr ⟨utf16.encode "<#".toList, utf16.encode (id ++ ':' :: handle ++ ['>']),
        [], _,
        rfl, rfl, (matches_word hsharp).mpr ⟨rfl, rfl⟩,
        (matches_named .channel channelUnit_eq).mpr ⟨id, handle, hid, hnamed, rfl, rfl⟩⟩)

/-- No match where no token is seen. -/
theorem first_none {us : List UInt16} (h : Markdown.tokenLength (utf16.seen us) = 0) :
    mentionTokenPattern.first offset us = none := by
  refine first_eq_none.mpr fun t rest gs hus hmatches => ?_
  obtain ⟨token, rfl, -⟩ := matches_mentionToken.mp hmatches
  rw [hus, utf16.seen_append, utf16.seen_encode (plain_text token), tokenLength_text] at h
  have hpos := token.length_pos
  omega

theorem token_eq_of_text {token token' : Token} (h : token.text = token'.text) : token = token' := by
  have hparts := congrArg tokenParts h
  rw [tokenParts_text, tokenParts_text, Prod.mk.injEq, Prod.mk.injEq] at hparts
  cases token
  cases token'
  simpa using hparts

/-- The match where a token is. -/
theorem first_token (token : Token) (rest : List UInt16) :
    mentionTokenPattern.first offset (utf16.encode token.text ++ rest) =
      some (utf16.encode token.text, captures token) := by
  refine first_eq_some (matches_mentionToken.mpr ⟨token, rfl, rfl⟩) fun t' rest' gs' htext hmatches => ?_
  obtain ⟨token', rfl, rfl⟩ := matches_mentionToken.mp hmatches
  have hseen := congrArg utf16.seen htext
  rw [utf16.seen_append, utf16.seen_append, utf16.seen_encode (plain_text _), utf16.seen_encode
    (plain_text _)] at hseen
  have hlength := congrArg Markdown.tokenLength hseen
  rw [tokenLength_text, tokenLength_text] at hlength
  obtain rfl := token_eq_of_text (List.append_inj_left hseen hlength)
  exact ⟨rfl, rfl⟩

theorem matchAllFrom_dull (us rest : List UInt16) (h : ∀ u ∈ us, utf16.seenUnit u ≠ '<') :
    mentionTokenPattern.matchAllFrom 0 offset (us ++ rest) =
      mentionTokenPattern.matchAllFrom 0 (offset + us.length) rest := by
  induction us generalizing offset with
  | nil => rfl
  | cons u us ih =>
    obtain ⟨hu, hus⟩ := List.forall_mem_cons.mp h
    have hmiss := tokenLength_seen_dull utf16 hu (us ++ rest)
    rw [List.cons_append, matchAllFrom_miss (first_none hmiss), ih hus, List.length_cons, Nat.add_assoc,
      Nat.add_comm 1]

/-- A character that starts no token is passed over. -/
theorem matchAllFrom_char {c : Char} {rest : Text} (h : Markdown.tokenLength (c :: rest) = 0) :
    mentionTokenPattern.matchAllFrom 0 offset (utf16.encode (c :: rest)) =
      mentionTokenPattern.matchAllFrom 0 (offset + (utf16.units c).length) (utf16.encode rest) := by
  by_cases hc : c = '<'
  · subst hc
    have hmiss := tokenLength_seen_encode utf16 ('<' :: rest)
    rw [h] at hmiss
    exact matchAllFrom_miss (first_none hmiss)
  · rw [utf16.encode_cons]
    exact matchAllFrom_dull _ _ fun u hu => utf16.seenUnit_ne_of_ne hc (by decide) hu

theorem matchAllFrom_token (token : Token) (rest : List UInt16) :
    mentionTokenPattern.matchAllFrom 0 offset (utf16.encode token.text ++ rest) =
      ⟨offset, utf16.encode token.text, captures token⟩ ::
        mentionTokenPattern.matchAllFrom 0 (offset + (utf16.encode token.text).length) rest := by
  refine matchAllFrom_hit (List.ne_nil_of_length_pos ?_) (first_token token rest)
  rw [utf16.length_encode (plain_text token)]
  exact Nat.lt_of_lt_of_le (by decide) token.length_pos

/-- A token's groups say what it is. -/
theorem refOf_captures (token : Token) :
    refOf (captures token) = ⟨token.kind, utf16.encode token.id, utf16.encode token.handle⟩ := by
  obtain ⟨kind, id, handle, hid, hnamed⟩ := token
  cases kind with
  | person => rfl
  | group => rfl
  | channel =>
    have hne : utf16.encode id ≠ [] := by
      refine List.ne_nil_of_length_pos ?_
      rw [utf16.length_encode (isPlain_of_isID hid), Token.id_length ⟨.channel, id, handle, hid, hnamed⟩]
      decide
    exact if_pos hne

theorem mentionText_captures (token : Token) :
    mentionText (refOf (captures token)) = utf16.encode (tokenAsText token.kind token.handle) := by
  rw [refOf_captures, mentionText]
  cases token.kind <;> rfl

end Client

/-! ## How they agree -/

section Spliced

variable {α : Type} {e : Encoding α} {whole : List α} {found : Nat → List α → List (Nat × Nat × List α)}

/-- What comes of putting names in place of the tokens a scanner finds in a text's units. -/
theorem splice_tokens (hnil : ∀ offset, found offset [] = [])
    (hchar : ∀ offset c rest, Markdown.tokenLength (c :: rest) = 0 →
      found offset (e.encode (c :: rest)) = found (offset + (e.units c).length) (e.encode rest))
    (htoken : ∀ before (token : Token) rest, whole = before ++ e.encode (token.text ++ rest) →
      found before.length (e.encode (token.text ++ rest)) =
        (before.length, before.length + (e.encode token.text).length,
            e.encode (tokenAsText token.kind token.handle)) ::
          found (before.length + (e.encode token.text).length) (e.encode rest))
    (content : Text) (before : List α) (last : Nat) (hwhole : whole = before ++ e.encode content)
    (hlast : last ≤ before.length) :
    spliceFrom whole last (found before.length (e.encode content)) =
      before.drop last ++ e.encode (Markdown.tokensAsText content) := by
  induction content using token_induction generalizing before last with
  | nil =>
    rw [e.encode_nil, hnil, hwhole, spliceFrom_nil hlast]
    rfl
  | char c rest h ih =>
    have hnext := ih (before ++ e.units c) last (by rw [hwhole, e.encode_cons, List.append_assoc])
      (by rw [List.length_append]; omega)
    rw [List.length_append] at hnext
    rw [hchar _ _ _ h, hnext, tokensAsText_char h, e.encode_cons, List.drop_append_of_le_length hlast,
      List.append_assoc]
  | token token rest ih =>
    have hnext := ih (before ++ e.encode token.text) (before.length + (e.encode token.text).length)
      (by rw [hwhole, e.encode_append, List.append_assoc]) (by rw [List.length_append])
    rw [List.length_append, ← List.length_append, List.drop_length, List.nil_append] at hnext
    rw [htoken before token rest hwhole, hwhole, spliceFrom_cons, ← hwhole, ← List.length_append, hnext,
      tokensAsText_token, e.encode_append]

end Spliced

/-- The server's reading of a content, in bytes. -/
theorem server_tokensAsText (content : Text) :
    Server.tokensAsText (utf8.encode content) = utf8.encode (Markdown.tokensAsText content) := by
  let read := fun (place : Nat × Nat) =>
    (place.1, place.2, Server.tokenRead (((utf8.encode content).take place.2).drop place.1))
  have hspliced := @splice_tokens _ utf8 (utf8.encode content)
    (fun offset rest => (Server.eachTokenFrom offset rest).map read) ?_ ?_ ?_ content [] 0 rfl (Nat.zero_le _)
  · rw [Server.tokensAsText_eq]
    exact hspliced
  · intro offset
    rw [Server.eachTokenFrom_none rfl]
    rfl
  · intro offset c rest h
    rw [Server.eachTokenFrom_char h]
  · intro before token rest hwhole
    have hwidth := utf8.length_encode (plain_text token)
    have hslice : ((utf8.encode content).take (before.length +
      (utf8.encode token.text).length)).drop before.length =
        utf8.encode token.text := by
      rw [hwhole, utf8.encode_append, ← List.append_assoc, ← List.length_append, List.take_left, List.drop_left]
    rw [utf8.encode_append, Server.eachTokenFrom_hit, ← hwidth, List.map_cons]
    simp only [read, hslice, Server.tokenRead_text]

/-- The client's, in UTF-16. -/
theorem client_tokensAsText (content : Text) :
    Client.tokensAsText (utf16.encode content) = utf16.encode (Markdown.tokensAsText content) := by
  let put := fun (m : Match UInt16) =>
    (m.start, m.start + m.text.length, Client.mentionText (Client.refOf m.groups))
  refine @splice_tokens _ utf16 (utf16.encode content)
    (fun offset rest => (Client.mentionTokenPattern.matchAllFrom 0 offset rest).map put) ?_ ?_ ?_ content [] 0 rfl
    (Nat.zero_le _)
  · intro offset
    have hnone : Client.mentionTokenPattern.first offset [] = none := Client.first_none rfl
    rw [Pattern.matchAllFrom, hnone]
    rfl
  · intro offset c rest h
    rw [Client.matchAllFrom_char h]
  · intro before token rest _
    rw [utf16.encode_append, Client.matchAllFrom_token, List.map_cons]
    simp only [put, Client.mentionText_captures]

/-- A token's place for the server, where it starts and stops, and the client's match, over the same characters.
-/
def SamePlace (content : Text) (place : Nat × Nat) (m : Match UInt16) : Prop :=
  ∃ before token after, content = before ++ token ++ after ∧
    place = ((utf8.encode before).length, (utf8.encode (before ++ token)).length) ∧
    m.start = (utf16.encode before).length ∧ m.text = utf16.encode token

theorem same_places (content before : Text) :
    List.Forall₂ (SamePlace (before ++ content))
      (Server.eachTokenFrom (utf8.encode before).length (utf8.encode content))
      (Client.mentionTokenPattern.matchAllFrom 0 (utf16.encode before).length (utf16.encode content)) := by
  induction content using token_induction generalizing before with
  | nil =>
    have hnone : Client.mentionTokenPattern.first (utf16.encode before).length [] = none := Client.first_none rfl
    rw [utf8.encode_nil, utf16.encode_nil, Server.eachTokenFrom_none rfl, Pattern.matchAllFrom, hnone]
    exact .nil
  | char c rest h ih =>
    have hnext := ih (before ++ [c])
    rw [List.append_assoc, utf8.encode_append, utf16.encode_append, List.length_append,
      List.length_append] at hnext
    rw [Server.eachTokenFrom_char h, Client.matchAllFrom_char h]
    simpa only [Encoding.encode_cons, Encoding.encode_nil, List.append_nil, List.singleton_append] using hnext
  | token token rest ih =>
    have hnext := ih (before ++ token.text)
    rw [List.append_assoc, utf8.encode_append, utf16.encode_append, List.length_append,
      List.length_append] at hnext
    have hwidth := utf8.length_encode (plain_text token)
    rw [utf8.encode_append, utf16.encode_append, Server.eachTokenFrom_hit, Client.matchAllFrom_token, ← hwidth]
    refine .cons ⟨before, token.text, rest, (List.append_assoc _ _ _).symm, ?_, rfl, rfl⟩ hnext
    rw [utf8.encode_append, List.length_append]

/-- The length the client's pattern takes at a place of a text is the token's, if there is one. -/
theorem first_length (offset : Nat) (text : Text) :
    (Client.mentionTokenPattern.first offset (utf16.encode text)).map (·.1.length) =
      if Markdown.tokenLength text = 0 then none else some (Markdown.tokenLength text) := by
  by_cases h : Markdown.tokenLength text = 0
  · have hseen := tokenLength_seen_encode utf16 text
    rw [h] at hseen
    rw [Client.first_none hseen, if_pos h, Option.map_none]
  · rw [if_neg h]
    obtain ⟨token, rest, rfl, -⟩ := token_at h
    rw [utf16.encode_append, Client.first_token, Option.map_some, utf16.length_encode (plain_text token),
      tokenLength_text]

theorem mentionTokenAt_length (s : List UInt16) :
    (Client.mentionTokenAt s).map (·.2) = (Client.mentionTokenPattern.first 0 s).map (·.1.length) := by
  have hways : (Pattern.seqs [.start, Client.mentionTokenPattern]).ways 0 s =
    Client.mentionTokenPattern.ways 0 s := by
    simp [Pattern.seqs, Pattern.ways]
  rw [Client.mentionTokenAt, Option.map_map, Pattern.first, Pattern.first, hways]
  rfl

/-- **The two scanners agree on every text**: at each place, over the whole of it, and in how long it reads. -/
theorem scanners_agree (content : Text) :
    (∀ before rest, content = before ++ rest →
      let length := Server.tokenLength (utf8.encode rest)
      (Client.mentionTokenPattern.first (utf16.encode before).length (utf16.encode rest)).map (·.1.length) =
          (if length = 0 then none else some length) ∧
        (Client.mentionTokenAt (utf16.encode rest)).map (·.2) = if length = 0 then none else some length) ∧
    List.Forall₂ (SamePlace content) (Server.eachToken (utf8.encode content))
      (Client.mentionTokenPattern.matchAll (utf16.encode content)) ∧
    Server.writtenLength (utf8.encode content) = Client.writtenLength (utf16.encode content) := by
  refine ⟨fun before rest _ => ?_, same_places content [], ?_⟩
  · rw [mentionTokenAt_length, first_length, first_length, Server.tokenLength_encode]
    exact ⟨rfl, rfl⟩
  · rw [Server.writtenLength, Client.writtenLength, server_tokensAsText, client_tokensAsText, runeCount_encode,
      codePoints_encode]

end Stoop.Mentions.Written
