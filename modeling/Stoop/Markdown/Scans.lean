import Stoop.Markdown.Tree

/-!
# What both parsers scan alike

Each parser has its own way to find a token, an address, a closer, a fence. On text whose whitespace
both class alike the ways come to the same.

## Tokens

`mentionTokenAt_none`, `mentionTokenAt_text`, `tokensAsText_eq`

## Addresses

`urlAt_eq`, `urlWhole_eq`

## Closers and labels

`findCloser_eq`, `labelLength_eq`, `hrefLength_eq`

## Lines

`fenceOneLine_eq`, `fenceOpen_eq`, `fenceClose_eq`, `quoteLine_eq`, `listLine_eq`
-/

set_option autoImplicit false

namespace Stoop.Markdown

/-! ## Tokens -/

/-- The client's pattern for an ID, a place at a time. -/
theorem uuid_eq : Client.uuid = (List.range' 0 36).map idCharAt := rfl

theorem matchEach_iff (start n : Nat) (source id rest : Text) :
    Client.matchEach ((List.range' start n).map idCharAt) source = some (id, rest) ↔
      source = id ++ rest ∧ id.length = n ∧
        (id.zipIdx start).all (fun (c, i) => idCharAt i c) = true := by
  induction n generalizing start source id with
  | zero =>
    simp only [List.range'_zero, List.map_nil, Client.matchEach, Option.some.injEq, Prod.mk.injEq]
    constructor
    · rintro ⟨rfl, rfl⟩
      exact ⟨rfl, rfl, rfl⟩
    · rintro ⟨rfl, hlength, -⟩
      rw [List.length_eq_zero_iff] at hlength
      subst hlength
      exact ⟨rfl, rfl⟩
  | succ n ih =>
    rw [List.range'_succ, List.map_cons]
    cases source with
    | nil =>
      simp only [Client.matchEach, reduceCtorEq, false_iff]
      rintro ⟨hnil, hlength, -⟩
      rw [(List.append_eq_nil_iff.mp hnil.symm).1] at hlength
      cases hlength
    | cons c source =>
      rw [Client.matchEach]
      constructor
      · intro h
        split at h
        next hc =>
          obtain ⟨⟨id', rest'⟩, hfound, hpair⟩ := Option.map_eq_some_iff.mp h
          simp only [Prod.mk.injEq] at hpair
          obtain ⟨rfl, rfl⟩ := hpair
          obtain ⟨rfl, hlength, hall⟩ := (ih (start + 1) source id').mp hfound
          refine ⟨rfl, by rw [List.length_cons, hlength], ?_⟩
          simp only [List.zipIdx_cons, List.all_cons, hc, hall, Bool.true_and]
        next => cases h
      · rintro ⟨heq, hlength, hall⟩
        cases id with
        | nil => cases hlength
        | cons c' id =>
          rw [List.cons_append, List.cons.injEq] at heq
          obtain ⟨rfl, rfl⟩ := heq
          rw [List.zipIdx_cons, List.all_cons, Bool.and_eq_true] at hall
          rw [if_pos hall.1, (ih (start + 1) (id ++ rest) id).mpr ⟨rfl, Nat.succ.inj hlength, hall.2⟩]
          rfl

theorem matchUUID_iff {source id rest : Text} :
    Client.matchEach Client.uuid source = some (id, rest) ↔ isID id = true ∧ source = id ++ rest := by
  rw [uuid_eq, matchEach_iff, isID, Bool.and_eq_true, beq_iff_eq]
  constructor
  · rintro ⟨heq, hlength, hall⟩
    exact ⟨⟨hlength, hall⟩, heq⟩
  · rintro ⟨⟨hlength, hall⟩, heq⟩
    exact ⟨heq, hlength, hall⟩

/-- The client's scan of a name that is followed by ">" is the name. -/
theorem takeWhile_name_client {kind : TokenKind} {name : Text} (h : kind.Names name) (rest : Text) :
    ((name ++ '>' :: rest).take 32).takeWhile kind.nameChar = name := by
  obtain ⟨-, hle, hall⟩ := h
  have hclose : kind.nameChar '>' = false := by
    cases hc : kind.nameChar '>' with
    | false => rfl
    | true => exact absurd rfl (TokenKind.nameChar_ne_close hc)
  rw [List.take_append, List.take_of_length_le (by omega), List.takeWhile_append_of_pos hall]
  cases 32 - name.length with
  | zero => simp
  | succ n => simp [hclose]

theorem idAndName_iff {kind : TokenKind} {source id name rest : Text} :
    Client.idAndName kind.minName kind.nameChar source = some (id, name, rest) ↔
      isID id = true ∧ kind.Names name ∧ source = id ++ ':' :: (name ++ '>' :: rest) := by
  unfold Client.idAndName
  constructor
  · intro h
    split at h
    next id' named hmatch =>
      obtain ⟨hid, rfl⟩ := matchUUID_iff.mp hmatch
      dsimp only at h
      split at h
      next rest' hrest =>
        split at h
        next hmin =>
          simp only [Option.some.injEq, Prod.mk.injEq] at h
          obtain ⟨rfl, hname, rfl⟩ := h
          have hstarts : name <+: named :=
            hname ▸ (List.takeWhile_prefix _).trans (List.take_prefix _ _)
          obtain ⟨beyond, rfl⟩ := hstarts
          rw [hname] at hmin hrest
          rw [List.drop_left] at hrest
          refine ⟨hid, ⟨hmin, ?_, fun c hc => ?_⟩, by rw [hrest]⟩
          · rw [← hname]
            exact (List.takeWhile_prefix _).length_le.trans (List.length_take_le _ _)
          · rw [← hname] at hc
            exact List.mem_takeWhile_imp hc
        next => cases h
      next => cases h
    next => cases h
  · rintro ⟨hid, hname, rfl⟩
    rw [matchUUID_iff.mpr ⟨hid, rfl⟩]
    simp only [takeWhile_name_client hname rest, List.drop_left]
    rw [if_pos hname.1]

/-- A token as the client holds it. -/
def Token.ref (token : Token) : Client.MentionRef := ⟨token.kind, token.id, token.handle⟩

/-- **The client finds a token where it stands**, and what follows it. -/
theorem matchMention_text (token : Token) (rest : Text) :
    Client.matchMention (token.text ++ rest) = some (token.ref, rest) := by
  obtain ⟨kind, id, handle, hid, hhandle⟩ := token
  have h := idAndName_iff.mpr ⟨hid, hhandle, rfl (a := id ++ ':' :: (handle ++ '>' :: rest))⟩
  cases kind <;>
  · simp only [Token.text, tokenText, TokenKind.opening, List.cons_append, List.nil_append,
      List.append_assoc, Client.matchMention]
    simp only [TokenKind.minName] at h
    simp only [TokenKind.nameChar] at h
    rw [h]
    rfl

/-- **Where the client finds a token, there is one.** -/
theorem matchMention_some {text rest : Text} {ref : Client.MentionRef}
    (h : Client.matchMention text = some (ref, rest)) :
    ∃ token : Token, text = token.text ++ rest ∧ ref = token.ref := by
  have build : ∀ (kind : TokenKind) (source : Text) (found : Text × Text × Text),
      Client.idAndName kind.minName kind.nameChar source = some found →
      ∃ token : Token, kind.opening ++ source = token.text ++ found.2.2 ∧
        token.ref = ⟨kind, found.1, found.2.1⟩ := by
    rintro kind source ⟨id, name, rest⟩ hfound
    obtain ⟨hid, hname, rfl⟩ := idAndName_iff.mp hfound
    exact ⟨⟨kind, id, name, hid, hname⟩, by simp [Token.text, tokenText], rfl⟩
  unfold Client.matchMention at h
  split at h
  next letter source =>
    split at h
    next hletter =>
      obtain ⟨found, hfound, hpair⟩ := Option.map_eq_some_iff.mp h
      obtain ⟨rfl, rfl⟩ := Prod.mk.inj hpair
      rw [Bool.or_eq_true, beq_iff_eq, beq_iff_eq] at hletter
      rcases hletter with rfl | rfl
      · obtain ⟨token, htext, href⟩ := build .person source found hfound
        exact ⟨token, htext, href.symm⟩
      · obtain ⟨token, htext, href⟩ := build .group source found hfound
        exact ⟨token, htext, href.symm⟩
    next => cases h
  next source =>
    obtain ⟨found, hfound, hpair⟩ := Option.map_eq_some_iff.mp h
    obtain ⟨rfl, rfl⟩ := Prod.mk.inj hpair
    obtain ⟨token, htext, href⟩ := build .channel source found hfound
    exact ⟨token, htext, href.symm⟩
  next => cases h

theorem mentionTokenAt_text (token : Token) (rest : Text) :
    Client.mentionTokenAt (token.text ++ rest) = some (token.ref, token.text.length) := by
  rw [Client.mentionTokenAt, matchMention_text, Option.map_some]
  simp

/-- Where the server finds no token, neither does the client. -/
theorem mentionTokenAt_none {text : Text} (h : tokenLength text = 0) :
    Client.mentionTokenAt text = none := by
  rw [Client.mentionTokenAt, Option.map_eq_none_iff]
  cases hfound : Client.matchMention text with
  | none => rfl
  | some found =>
    obtain ⟨token, rfl, -⟩ := matchMention_some hfound
    have hpos := token.length_pos
    rw [tokenLength_text] at h
    omega

theorem replaceTokens_skip (skipped rest : Text) :
    Client.replaceTokens skipped.length (skipped ++ rest) = Client.replaceTokens 0 rest := by
  induction skipped with
  | nil => rfl
  | cons c skipped ih => rw [List.length_cons, List.cons_append, Client.replaceTokens, ih]

theorem replaceTokens_token (token : Token) (rest : Text) :
    Client.replaceTokens 0 (token.text ++ rest) =
      tokenAsText token.kind token.handle ++ Client.replaceTokens 0 rest := by
  have hpos := token.length_pos
  have hfound := mentionTokenAt_text token rest
  cases htext : token.text with
  | nil => rw [htext] at hpos; exact absurd hpos (by decide)
  | cons c tail =>
    rw [htext, List.cons_append] at hfound
    rw [List.cons_append, Client.replaceTokens, hfound]
    simp only [List.length_cons, Nat.add_sub_cancel, replaceTokens_skip, Client.mentionText_eq]
    rfl

/-- **Both read the tokens of a text as the same text.** -/
theorem tokensAsText_eq (text : Text) : Client.tokensAsText text = tokensAsText text := by
  rw [Client.tokensAsText]
  induction text using token_induction with
  | nil => rfl
  | char c rest h ih =>
    rw [tokensAsText_char h, Client.replaceTokens, mentionTokenAt_none h]
    exact congrArg (c :: ·) ih
  | token token rest ih => rw [replaceTokens_token, tokensAsText_token, ih]

/-! ## Whitespace -/

/-- Text whose characters both class alike. -/
def AllAlike (text : Text) : Prop := ∀ c ∈ text, Alike c

instance (text : Text) : Decidable (AllAlike text) :=
  List.decidableBAll (Alike ·) text

variable {text : Text}

theorem AllAlike.tail {c : Char} (h : AllAlike (c :: text)) : AllAlike text :=
  (List.forall_mem_cons.mp h).2

theorem AllAlike.head {c : Char} (h : AllAlike (c :: text)) : Alike c :=
  (List.forall_mem_cons.mp h).1

theorem AllAlike.take (h : AllAlike text) (n : Nat) : AllAlike (text.take n) :=
  fun c hc => h c (List.mem_of_mem_take hc)

theorem AllAlike.drop (h : AllAlike text) (n : Nat) : AllAlike (text.drop n) :=
  fun c hc => h c (List.mem_of_mem_drop hc)

theorem AllAlike.nil : AllAlike [] := fun _ hc => absurd hc List.not_mem_nil

theorem AllAlike.append {text' : Text} (h : AllAlike text) (h' : AllAlike text') :
    AllAlike (text ++ text') := List.forall_mem_append.mpr ⟨h, h'⟩

theorem AllAlike.concat {c : Char} (h : AllAlike text) (hc : Alike c) : AllAlike (text ++ [c]) :=
  h.append (List.forall_mem_singleton.mpr hc)

theorem AllAlike.tokensAsText (h : AllAlike text) : AllAlike (tokensAsText text) :=
  forall_mem_tokensAsText (by decide) (by decide) h

section
variable {α : Type} {l : List α} {p q : α → Bool}

theorem takeWhile_alike (h : ∀ a ∈ l, p a = q a) : l.takeWhile p = l.takeWhile q := by
  induction l with
  | nil => rfl
  | cons a l ih =>
    rw [List.forall_mem_cons] at h
    rw [List.takeWhile_cons, List.takeWhile_cons, h.1, ih h.2]

theorem dropWhile_alike (h : ∀ a ∈ l, p a = q a) : l.dropWhile p = l.dropWhile q := by
  induction l with
  | nil => rfl
  | cons a l ih =>
    rw [List.forall_mem_cons] at h
    rw [List.dropWhile_cons, List.dropWhile_cons, h.1, ih h.2]

theorem all_alike (h : ∀ a ∈ l, p a = q a) : l.all p = l.all q := by
  induction l with
  | nil => rfl
  | cons a l ih =>
    rw [List.forall_mem_cons] at h
    rw [List.all_cons, List.all_cons, h.1, ih h.2]

theorem drop_takeWhile_length (p : α → Bool) (l : List α) :
    l.drop (l.takeWhile p).length = l.dropWhile p := by
  induction l with
  | nil => rfl
  | cons a l ih => cases ha : p a <;> simp [ha, ih]

end

/-! ## Addresses -/

/-- Whether an address is one only because `(?i)` folds "ſ" to "s". -/
def byFold (address : Text) : Bool := address[4]? == some 'ſ'

theorem ignoreCase_eq {letter c : Char} (h : letter = 's' → c ≠ 'ſ') :
    Client.ignoreCase letter c = Server.foldEq letter c := by
  rw [Client.ignoreCase, Server.foldEq]
  by_cases hs : letter = 's'
  · rw [beq_eq_false_iff_ne.mpr (h hs), Bool.and_false, Bool.or_false]
  · rw [beq_eq_false_iff_ne.mpr hs, Bool.false_and, Bool.or_false]

theorem urlScheme_eq (h : byFold text = false) :
    Client.urlScheme text = Server.urlScheme text := by
  have hh : ∀ c, Client.ignoreCase 'h' c = Server.foldEq 'h' c := fun _ =>
    ignoreCase_eq fun h => absurd h (by decide)
  have ht : ∀ c, Client.ignoreCase 't' c = Server.foldEq 't' c := fun _ =>
    ignoreCase_eq fun h => absurd h (by decide)
  have hp : ∀ c, Client.ignoreCase 'p' c = Server.foldEq 'p' c := fun _ =>
    ignoreCase_eq fun h => absurd h (by decide)
  rcases text with _ | ⟨a, _ | ⟨t, _ | ⟨t', _ | ⟨p, rest⟩⟩⟩⟩ <;> try rfl
  have hs : ∀ s after, rest = s :: after → Client.ignoreCase 's' s = Server.foldEq 's' s := by
    rintro s after rfl
    rw [byFold, beq_eq_false_iff_ne] at h
    exact ignoreCase_eq fun _ hs => h (by rw [hs]; rfl)
  simp only [Client.urlScheme, Server.urlScheme, hh, ht, hp]
  congr 1
  split
  next => rfl
  next _ s after =>
    simp [hs s _ rfl]
  next => grind

/-- The client takes no address by the fold. -/
theorem urlScheme_byFold (h : byFold text = true) : Client.urlScheme text = none := by
  unfold Client.urlScheme
  split
  next a t t' p rest =>
    split
    next =>
      rw [byFold, beq_iff_eq] at h
      cases rest with
      | nil => cases h
      | cons s rest =>
        simp only [List.getElem?_cons_succ, List.getElem?_cons_zero, Option.some.injEq] at h
        subst h
        split
        next heq => exact absurd (List.cons.inj heq).1 (by decide)
        next s' after _ heq =>
          rw [← (List.cons.inj heq).1]
          rfl
        next => rfl
    next => rfl
  next => rfl

/-- What the server's scheme takes starts the text. -/
theorem urlScheme_append {scheme after : Text}
    (h : Server.urlScheme text = some (scheme, after)) :
    text = scheme ++ after ∧ 5 ≤ scheme.length := by
  unfold Server.urlScheme at h
  split at h
  next a t t' p rest =>
    split at h
    next =>
      split at h
      next =>
        obtain ⟨rfl, rfl⟩ := Prod.mk.inj (Option.some.inj h)
        exact ⟨rfl, by simp⟩
      next =>
        split at h
        next =>
          obtain ⟨rfl, rfl⟩ := Prod.mk.inj (Option.some.inj h)
          exact ⟨rfl, by simp⟩
        next => cases h
      next => cases h
    next => cases h
  next => cases h

theorem byFold_append {scheme after : Text} (h : 5 ≤ scheme.length) :
    byFold (scheme ++ after) = byFold scheme := by
  rw [byFold, byFold, List.getElem?_append_left h]

/-- **The same address**, unless the server takes one by the fold. -/
theorem urlAt_eq (halike : AllAlike text)
    (hfold : ∀ url, Server.urlAt text = some url → byFold url = false) :
    Client.urlAt text = Server.urlAt text := by
  by_cases h : byFold text = true
  · rw [Client.urlAt, urlScheme_byFold h]
    cases hurl : Server.urlAt text with
    | none => rfl
    | some url =>
      -- an address starts with the scheme, as the text does
      have hnot := hfold url hurl
      rw [Server.urlAt] at hurl
      split at hurl
      next => cases hurl
      next scheme after hscheme =>
        obtain ⟨rfl, hlength⟩ := urlScheme_append hscheme
        split at hurl
        next => cases hurl
        next run _ =>
          rw [← Option.some.inj hurl, byFold_append hlength] at hnot
          rw [byFold_append hlength, hnot] at h
          cases h
  · rw [Bool.not_eq_true] at h
    rw [Client.urlAt, Server.urlAt, urlScheme_eq h]
    cases hscheme : Server.urlScheme text with
    | none => rfl
    | some found =>
      obtain ⟨scheme, after⟩ := found
      obtain ⟨rfl, -⟩ := urlScheme_append hscheme
      have hrun : (after.takeWhile fun c => !jsSpace c && c != '<' && c != '>') =
          after.takeWhile fun c => !goSpace c && c != '<' && c != '>' :=
        takeWhile_alike fun c hc => by
          rw [(halike c (List.mem_append_right _ hc)).js]
      cases hcases : after.takeWhile (fun c => !goSpace c && c != '<' && c != '>') with
      | nil => simp only [hrun, hcases]
      | cons c run => simp only [hrun, hcases]

/-- **A text is an address to both**, unless it is one to the server by the fold. -/
theorem urlWhole_eq (halike : AllAlike text)
    (hfold : Server.urlWhole text = true → byFold text = false) :
    Client.urlWhole text = Server.urlWhole text := by
  by_cases h : byFold text = true
  · rw [Client.urlWhole, urlScheme_byFold h]
    cases hwhole : Server.urlWhole text with
    | false => rfl
    | true =>
      rw [hfold hwhole] at h
      cases h
  · rw [Bool.not_eq_true] at h
    rw [Client.urlWhole, Server.urlWhole, urlScheme_eq h]
    cases hscheme : Server.urlScheme text with
    | none => rfl
    | some found =>
      obtain ⟨scheme, after⟩ := found
      obtain ⟨rfl, -⟩ := urlScheme_append hscheme
      have hall : (after.all fun c => !jsSpace c && c != '<') =
          after.all fun c => !goSpace c && c != '<' :=
        all_alike fun c hc => by
          rw [(halike c (List.mem_append_right _ hc)).js]
      simp only [hall]

theorem closeParens_eq (href rest : Text) :
    Client.closeParens href rest = Server.closeParens href rest := by
  induction rest generalizing href with
  | nil => rw [Client.closeParens, Server.closeParens] <;> simp
  | cons c rest ih =>
    by_cases hc : c = ')'
    · subst hc
      rw [Client.closeParens, Server.closeParens, ih]
    · rw [Client.closeParens, Server.closeParens] <;> simp [hc]

theorem trimUrl_eq (raw : Text) : Client.trimUrl raw = Server.trimURL raw := by
  rw [Client.trimUrl, Server.trimURL]
  exact closeParens_eq _ _

/-! ## Closers and labels -/

theorem closes_eq {mark : Text} {prev : Char} (hprev : Alike prev) (source : Text) :
    Client.closes mark prev source = Server.closes mark prev source := by
  rw [Client.closes, Server.closes, hprev.js, hprev.unicode, Bool.not_or, Bool.and_assoc]

theorem findCloser_eq {mark : Text} {prev : Char} (hprev : Alike prev) (halike : AllAlike text) :
    Client.findCloser mark prev text = Server.findCloser mark prev text := by
  induction text generalizing prev with
  | nil => rfl
  | cons c text ih =>
    rw [Client.findCloser, Server.findCloser, closes_eq hprev, ih halike.head halike.tail]

theorem labelLength_eq (escaped : Bool) (text : Text) :
    Client.labelLength escaped text = Server.labelLength escaped text := by
  induction text generalizing escaped with
  | nil => rfl
  | cons c text ih => rw [Client.labelLength, Server.labelLength, ih, ih]

theorem hrefLength_eq (depth : Nat) (text : Text) :
    Client.hrefLength depth text = Server.hrefLength depth text := by
  induction text generalizing depth with
  | nil => rfl
  | cons c text ih =>
    by_cases hopen : c = '('
    · rw [hopen, Client.hrefLength, Server.hrefLength, ih]
    by_cases hclose : c = ')'
    · rw [hclose]
      cases depth with
      | zero => rw [Client.hrefLength, Server.hrefLength]
      | succ depth => rw [Client.hrefLength, Server.hrefLength, ih]
    · rw [Client.hrefLength, Server.hrefLength, ih] <;> simp [hopen, hclose]

/-! ## Lines -/

variable {line : Text}

theorem afterFence_eq (halike : AllAlike line) : Client.afterFence line = Server.afterFence line := by
  have hspace : line.dropWhile jsSpace = line.dropWhile goSpace :=
    dropWhile_alike fun c hc => (halike c hc).js
  rw [Client.afterFence, Server.afterFence, hspace]
  rfl

theorem AllAlike.afterFence {after : Text} (halike : AllAlike line)
    (h : Server.afterFence line = some after) : AllAlike after := by
  simp only [Server.afterFence] at h
  split at h
  next =>
    obtain rfl := Option.some.inj h
    exact fun c hc => halike c ((List.dropWhile_sublist _).subset (List.mem_of_mem_drop hc))
  next => cases h

theorem all_jsSpace (halike : AllAlike text) : text.all jsSpace = text.all goSpace :=
  all_alike fun c hc => (halike c hc).js

theorem oneLineCode_eq (halike : AllAlike text) :
    Client.oneLineCode text = Server.oneLineCode text := by
  induction text with
  | nil => rfl
  | cons c text ih =>
    have hends : Client.endsInFence text = Server.endsInFence text := by
      rw [Client.endsInFence, Server.endsInFence, all_jsSpace (halike.tail.drop 3)]
      rfl
    rw [Client.oneLineCode, Server.oneLineCode, hends, ih halike.tail]

theorem fenceOneLine_eq (halike : AllAlike line) :
    Client.fenceOneLine line = Server.fenceOneLine line := by
  rw [Client.fenceOneLine, Server.fenceOneLine, afterFence_eq halike]
  cases hafter : Server.afterFence line with
  | none => rfl
  | some after => exact oneLineCode_eq (halike.afterFence hafter)

theorem fenceOpen_eq (halike : AllAlike line) :
    (Client.fenceOpen line).isSome = Server.fenceOpen line := by
  rw [Client.fenceOpen, Server.fenceOpen, afterFence_eq halike]
  cases hafter : Server.afterFence line with
  | none => rfl
  | some after =>
    simp only [Option.bind_some, Option.any_some, drop_takeWhile_length]
    rw [all_jsSpace fun c hc => halike.afterFence hafter c ((List.dropWhile_sublist _).subset hc)]
    split
    next h => rw [h]; rfl
    next h => rw [Bool.not_eq_true] at h; rw [h]; rfl

theorem fenceClose_eq (halike : AllAlike line) :
    Client.fenceClose line = Server.fenceClose line := by
  rw [Client.fenceClose, Server.fenceClose, afterFence_eq halike]
  cases hafter : Server.afterFence line with
  | none => rfl
  | some after => exact all_jsSpace (halike.afterFence hafter)

theorem quoteLine_eq (halike : AllAlike line) :
    Client.quoteLine line = (Server.quoteLine line).map line.drop := by
  unfold Client.quoteLine
  split
  next c rest =>
    have hc := halike.tail.head.js
    rw [Server.quoteLine, hc]
    cases goSpace c <;> rfl
  next => rfl
  next hsome hone =>
    rw [Server.quoteLine]
    · rfl
    · exact hsome
    · exact hone

theorem bulletLength_eq (text : Text) : Client.bulletLength text = Server.bulletLength text := by
  cases text with
  | nil => rfl
  | cons c rest => rfl

theorem listLine_eq (halike : AllAlike line) :
    (Client.listLine line).map (·.2.2) = (Server.listLine line).map line.drop := by
  simp only [Client.listLine, Server.listLine, bulletLength_eq]
  generalize ((line.take 6).takeWhile (· == ' ')).length = indent
  cases Server.bulletLength (line.drop indent) with
  | none => rfl
  | some bullet =>
    have hspaces : (line.drop (indent + bullet)).takeWhile jsSpace =
        (line.drop (indent + bullet)).takeWhile goSpace :=
      takeWhile_alike fun c hc => (halike c (List.mem_of_mem_drop hc)).js
    simp only [hspaces]
    cases ((line.drop (indent + bullet)).takeWhile goSpace).length <;> rfl

end Stoop.Markdown
