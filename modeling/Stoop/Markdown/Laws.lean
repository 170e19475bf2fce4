import Mathlib.Data.Option.Basic
import Stoop.Markdown.Scans

/-!
# Laws of the server's inline parser

A construct takes a character at least and no more than there are, and what it parses the inside of is
shorter than the source it starts. So the parser never runs out of fuel, and reads by the equations of
`parseInlineAt_cons`.

## What a match takes

`findCloser_le`, `trimURL_starts`, `labelAt_spec`, `opened_spec`, `starRunEnd_spec`, `nodeAt_length`

## What is parsed inside

`Calls`, `Calls.shorter`, `nodeAt_congr`

## The parser

`parseInlineFrom_fuel`, `parseInlineAt_cons`, `parseInlineFrom_ne_nil`

## Where the cursor stands

`Stands`
-/

set_option autoImplicit false

namespace Stoop.Markdown.Server

variable {parse parse' : Parser} {source mark : Text}

/-! ## What a match takes -/

theorem findCloser_starts {prev : Char} {n : Nat} (h : findCloser mark prev source = some n) :
    mark <+: source.drop n := by
  induction source generalizing prev n with
  | nil => cases h
  | cons c source ih =>
    rw [findCloser] at h
    split at h
    next hcloses =>
      rw [← Option.some.inj h]
      rw [closes, Bool.and_eq_true, Bool.and_eq_true] at hcloses
      exact List.isPrefixOf_iff_prefix.mp hcloses.1.1
    next =>
      obtain ⟨n', hn', rfl⟩ := Option.map_eq_some_iff.mp h
      exact ih hn'

/-- A closer is inside the text. -/
theorem findCloser_le {prev : Char} {n : Nat} (h : findCloser mark prev source = some n)
    (hmark : mark ≠ []) : n + mark.length ≤ source.length := by
  have hle := (findCloser_starts h).length_le
  have hpos := List.length_pos_iff.mpr hmark
  rw [List.length_drop] at hle
  omega

theorem closeParens_starts (href rest : Text) :
    href <+: closeParens href rest ∧ closeParens href rest <+: href ++ rest := by
  induction rest generalizing href with
  | nil =>
    rw [closeParens]
    · exact ⟨List.prefix_refl _, List.prefix_append _ _⟩
    · simp
  | cons c rest ih =>
    by_cases hc : c = ')'
    · subst hc
      rw [closeParens]
      split
      next =>
        obtain ⟨hle, hpre⟩ := ih (href ++ [')'])
        exact ⟨(List.prefix_append _ _).trans hle, by simpa using hpre⟩
      next => exact ⟨List.prefix_refl _, List.prefix_append _ _⟩
    · rw [closeParens]
      · exact ⟨List.prefix_refl _, List.prefix_append _ _⟩
      · simp [hc]

theorem dropPunct_starts (raw : Text) :
    (raw.reverse.dropWhile trailingPunct).reverse <+: raw := by
  rw [← List.reverse_suffix, List.reverse_reverse]
  exact List.dropWhile_suffix _

/-- A trimmed address is the start of the address. -/
theorem trimURL_starts (raw : Text) : trimURL raw <+: raw := by
  have h := (closeParens_starts (raw.reverse.dropWhile trailingPunct).reverse
    (raw.drop (raw.reverse.dropWhile trailingPunct).reverse.length)).2
  rwa [List.prefix_iff_eq_append.mp (dropPunct_starts raw)] at h

/-- An address that doesn't start with punctuation keeps its start. -/
theorem trimURL_ne_nil {c : Char} {raw : Text} (hc : trailingPunct c = false) :
    trimURL (c :: raw) ≠ [] := by
  intro h
  have hle := (closeParens_starts ((c :: raw).reverse.dropWhile trailingPunct).reverse
    ((c :: raw).drop ((c :: raw).reverse.dropWhile trailingPunct).reverse.length)).1
  rw [trimURL] at h
  rw [h, List.prefix_nil, List.reverse_eq_nil_iff, List.dropWhile_eq_nil_iff] at hle
  have := hle c (by simp)
  rw [hc] at this
  cases this

theorem urlScheme_letter {c : Char} {rest scheme after : Text}
    (h : urlScheme (c :: rest) = some (scheme, after)) : foldEq 'h' c = true := by
  unfold urlScheme at h
  split at h
  next a t t' p rest' heq =>
    split at h
    next hfold =>
      simp only [Bool.and_eq_true] at hfold
      rw [(List.cons.inj heq).1]
      exact hfold.1.1.1
    next => cases h
  next => cases h

/-- An address starts the source, with a letter. -/
theorem urlAt_spec {url : Text} (h : urlAt source = some url) :
    ∃ c rest, url = c :: rest ∧ url <+: source ∧ trailingPunct c = false := by
  rw [urlAt] at h
  split at h
  next => cases h
  next scheme after hscheme =>
    obtain ⟨rfl, hlength⟩ := urlScheme_append hscheme
    split at h
    next => cases h
    next run hrun =>
      obtain rfl := Option.some.inj h
      have hhead : ∀ c rest, scheme = c :: rest → trailingPunct c = false := by
        rintro c rest rfl
        have hletter := urlScheme_letter hscheme
        rw [foldEq, Bool.or_eq_true, Bool.or_eq_true, beq_iff_eq, beq_iff_eq] at hletter
        rcases hletter with (rfl | rfl) | hfold
        · decide
        · decide
        · exact absurd hfold (by simp)
      cases scheme with
      | nil => exact absurd hlength (by decide)
      | cons c rest =>
        refine ⟨c, rest ++ _, rfl, ?_, hhead c rest rfl⟩
        rw [List.prefix_append_right_inj]
        exact List.takeWhile_prefix _

theorem labelLength_lt {escaped : Bool} {n : Nat} (h : labelLength escaped source = some n) :
    n < source.length := by
  induction source generalizing escaped n with
  | nil => cases h
  | cons c source ih =>
    rw [List.length_cons]
    rw [labelLength] at h
    split at h
    next =>
      obtain ⟨n', hn', rfl⟩ := Option.map_eq_some_iff.mp h
      have := ih hn'
      omega
    next =>
      split at h
      next =>
        have := Option.some.inj h
        omega
      next =>
        split at h
        next => cases h
        next =>
          obtain ⟨n', hn', rfl⟩ := Option.map_eq_some_iff.mp h
          have := ih hn'
          omega

/-- An address ends at a ")". -/
theorem hrefLength_close {depth n : Nat} (h : hrefLength depth source = some n) :
    source[n]? = some ')' := by
  induction source generalizing depth n with
  | nil => rw [hrefLength] at h; cases h
  | cons c source ih =>
    have hrec : ∀ depth, (hrefLength depth source).map (· + 1) = some n →
        (c :: source)[n]? = some ')' := by
      intro depth h
      obtain ⟨n', hn', rfl⟩ := Option.map_eq_some_iff.mp h
      exact ih hn'
    by_cases hopen : c = '('
    · subst hopen
      rw [hrefLength] at h
      exact hrec _ h
    by_cases hclose : c = ')'
    · subst hclose
      cases depth with
      | zero =>
        rw [hrefLength] at h
        rw [← Option.some.inj h]
        rfl
      | succ depth =>
        rw [hrefLength] at h
        exact hrec _ h
    · rw [hrefLength] at h
      · exact hrec _ h
      · exact hopen
      · exact fun _ => hclose
      · exact fun _ _ => hclose

/-- What a labelled link's scan finds: the words and the address in place, and no more than the
source. -/
theorem labelAt_spec {label href : Text} {length : Nat}
    (h : labelAt source = some (label, href, length)) :
    ∃ rest, source = '[' :: (label ++ ']' :: '(' :: (href ++ ')' :: rest)) ∧
      length = label.length + href.length + 4 ∧ label ≠ [] ∧ urlWhole href = true := by
  unfold labelAt at h
  split at h
  next rest =>
    split at h
    next => cases h
    next labelEnd hlabelEnd =>
      simp only at h
      split at h
      next after hafter =>
        split at h
        next => cases h
        next hspace =>
          split at h
          next => cases h
          next hrefEnd hhrefEnd =>
            split at h
            next => cases h
            next hwhole =>
              simp only [Option.some.injEq, Prod.mk.injEq] at h
              obtain ⟨rfl, rfl, rfl⟩ := h
              have hlabel := labelLength_lt hlabelEnd
              obtain ⟨hlt, hclose⟩ := List.getElem?_eq_some_iff.mp (hrefLength_close hhrefEnd)
              refine ⟨after.drop (hrefEnd + 1), ?_, ?_, ?_, by simpa using hwhole⟩
              · have hafter' : after.take hrefEnd ++ ')' :: after.drop (hrefEnd + 1) = after := by
                  rw [← hclose, List.getElem_cons_drop, List.take_append_drop]
                rw [hafter', ← hafter, List.take_append_drop]
              · rw [List.length_take_of_le hlabel.le, List.length_take_of_le hlt.le]
                omega
              · intro hnil
                rw [hnil] at hspace
                exact hspace rfl
      next => cases h
  next => cases h

theorem escapedAt_spec {c : Char} (h : escapedAt source = some c) :
    ∃ rest, source = '\\' :: c :: rest := by
  unfold escapedAt at h
  split at h
  next rest =>
    split at h
    next => exact ⟨rest, Option.some.inj h ▸ rfl⟩
    next => cases h
  next => cases h

theorem opened_spec {c : Char} {rest : Text} (h : opened mark source = some (c, rest)) :
    source = mark ++ c :: rest ∧ unicodeIsSpace c = false ∧ (mark = ['*'] → c ≠ '*') := by
  rw [opened] at h
  split at h
  next => cases h
  next hstarts =>
    rw [Bool.not_eq_true, Bool.not_eq_false', List.isPrefixOf_iff_prefix] at hstarts
    obtain ⟨after, rfl⟩ := hstarts
    rw [List.drop_left] at h
    cases after with
    | nil => cases h
    | cons c' rest' =>
      simp only at h
      split at h
      next => cases h
      next hno =>
        obtain ⟨rfl, rfl⟩ := Prod.mk.inj (Option.some.inj h)
        rw [Bool.not_eq_true, Bool.or_eq_false_iff] at hno
        refine ⟨rfl, hno.1, ?_⟩
        rintro rfl rfl
        exact absurd hno.2 (by decide)

/-- A run of stars that closes bold is three stars at least from the closer on, all in the inside. -/
theorem starRunEnd_spec {inside : Text} {close : Option Nat} {runEnd : Nat}
    (h : starRunEnd inside close = some runEnd) :
    ∃ n, close = some n ∧ n + 3 ≤ runEnd ∧ runEnd ≤ inside.length ∧
      ∀ i, n ≤ i → i < runEnd → inside[i]? = some '*' := by
  cases close with
  | none => cases h
  | some n =>
    rw [starRunEnd] at h
    split at h
    next => cases h
    next hstarts =>
      split at h
      next => cases h
      next =>
        obtain rfl := Option.some.inj h
        rw [Bool.not_eq_true, Bool.not_eq_false', List.isPrefixOf_iff_prefix] at hstarts
        obtain ⟨after, hafter⟩ := hstarts
        generalize hrun : (inside.drop n).takeWhile (· == '*') = run
        have hpre : run <+: inside.drop n := hrun ▸ List.takeWhile_prefix _
        have hthree : 3 ≤ run.length := by
          rw [← hrun, ← hafter]
          simp
        have hle := hpre.length_le
        rw [List.length_drop] at hle
        refine ⟨n, rfl, by omega, by omega, fun i hi hlt => ?_⟩
        obtain ⟨beyond, hbeyond⟩ := hpre
        have hlt' : i - n < run.length := by omega
        have hget : inside[i]? = run[i - n]? := by
          have happend : (run ++ beyond)[i - n]? = run[i - n]? := List.getElem?_append_left hlt'
          rw [← happend, hbeyond, List.getElem?_drop, Nat.add_sub_cancel' hi]
        have hmem : run[i - n] ∈ (inside.drop n).takeWhile (· == '*') := by
          rw [hrun]
          exact List.getElem_mem hlt'
        have hstar := List.mem_takeWhile_imp hmem
        rw [hget, List.getElem?_eq_getElem hlt', beq_iff_eq.mp hstar]

/-! ## What is parsed inside -/

/-- The texts a construct at the cursor is tried on the inside of. -/
inductive Calls (parse : Parser) (source : Text) : Text → Prop
  | label {label href : Text} {length : Nat} :
      labelAt source = some (label, href, length) → Calls parse source (tokensAsText label)
  | both {close : Nat} :
      ['*', '*', '*'].isPrefixOf source = true →
      findCloser ['*', '*', '*'] '*' (source.drop 3) = some close →
      Calls parse source ((source.drop 3).take close)
  | starRun {c : Char} {rest : Text} {runEnd : Nat} :
      matchBoth parse source 0 false = none → opened ['*', '*'] source = some (c, rest) →
      starRunEnd (c :: rest) ((findCloser ['*', '*'] c rest).map (· + 1)) = some runEnd →
      Calls parse source ((c :: rest).take (runEnd - 2))
  | inner {mark : Text} {c : Char} {rest : Text} {close base : Nat} {own : Bool} :
      matchBoth parse source 0 false = none → mark ∈ delims →
      opened mark source = some (c, rest) → findCloser mark c rest = some close →
      (mark = ['*', '*'] →
        closeOnStarRun parse (c :: rest) (some (close + 1)) base own = none) →
      mark ≠ ['|', '|'] → Calls parse source ((c :: rest).take (close + 1))
  | spoiler {c : Char} {rest : Text} {close : Nat} :
      opened ['|', '|'] source = some (c, rest) → findCloser ['|', '|'] c rest = some close →
      Calls parse source (tokensAsText ((c :: rest).take (close + 1)))

theorem ne_nil_of_mem_delims (h : mark ∈ delims) : mark ≠ [] := by
  rintro rfl
  exact absurd h (by decide)

/-- **An inside is shorter than the source.** -/
theorem Calls.shorter {inside : Text} (h : Calls parse source inside) :
    inside.length < source.length := by
  cases h with
  | @label label href _ hlabel =>
    obtain ⟨rest, rfl, -⟩ := labelAt_spec hlabel
    have := length_tokensAsText_le label
    simp only [List.length_cons, List.length_append]
    omega
  | both hstarts hclose =>
    have := (List.isPrefixOf_iff_prefix.mp hstarts).length_le
    have := findCloser_le hclose (by decide)
    rw [List.length_drop, List.length_cons, List.length_cons, List.length_cons] at this
    rw [List.length_take, List.length_drop]
    simp only [List.length_cons, List.length_nil] at *
    omega
  | starRun _ hopened hrun =>
    obtain ⟨rfl, -⟩ := opened_spec hopened
    rw [List.length_take, List.length_append]
    simp only [List.length_cons, List.length_nil]
    omega
  | inner _ hmark hopened =>
    obtain ⟨rfl, -⟩ := opened_spec hopened
    have := List.length_pos_iff.mpr (ne_nil_of_mem_delims hmark)
    rw [List.length_take, List.length_append]
    simp only [List.length_cons]
    omega
  | spoiler hopened =>
    obtain ⟨rfl, -⟩ := opened_spec hopened
    refine (length_tokensAsText_le _).trans_lt ?_
    rw [List.length_take, List.length_append]
    simp only [List.length_cons, List.length_nil]
    omega

/-- What holds of the source's characters, of "@" and of "#", holds of an inside's. -/
theorem Calls.forall_mem {P : Char → Prop} {inside : Text} (h : Calls parse source inside)
    (hat : P '@') (hsharp : P '#') (hsource : ∀ c ∈ source, P c) : ∀ c ∈ inside, P c := by
  have htake : ∀ {mark rest : Text} (n : Nat), source = mark ++ rest →
      ∀ c ∈ rest.take n, P c := by
    rintro mark rest n rfl c hc
    exact hsource c (List.mem_append_right _ (List.mem_of_mem_take hc))
  cases h with
  | label hlabel =>
    obtain ⟨rest, rfl, -⟩ := labelAt_spec hlabel
    refine forall_mem_tokensAsText hat hsharp fun c hc => hsource c ?_
    exact List.mem_cons_of_mem _ (List.mem_append_left _ hc)
  | both => exact fun c hc => hsource c (List.mem_of_mem_drop (List.mem_of_mem_take hc))
  | starRun _ hopened => exact htake _ (opened_spec hopened).1
  | inner _ _ hopened => exact htake _ (opened_spec hopened).1
  | spoiler hopened =>
    exact forall_mem_tokensAsText hat hsharp (htake _ (opened_spec hopened).1)

/-! ## What stands at the cursor -/

/-- **What a construct at the cursor is**, and how long. -/
inductive Found (parse : Parser) (source : Text) (base : Nat) (own : Bool) :
    InlineNode → Nat → Prop
  | token (token : Token) (rest : Text) : source = token.text ++ rest →
      Found parse source base own (.mention token.text base own) token.text.length
  | code {code rest : Text} : source = backtick :: (code ++ backtick :: rest) →
      Found parse source base own (.code (tokensAsText code)) (code.length + 2)
  | url {url : Text} : urlAt source = some url →
      Found parse source base own (.link (trimURL url) []) (trimURL url).length
  | label {label href : Text} {length : Nat} : labelAt source = some (label, href, length) →
      holdsLink (parse (tokensAsText label) 0 false) = false →
      Found parse source base own (.link href (parse (tokensAsText label) 0 false)) length
  | both {close : Nat} : ['*', '*', '*'].isPrefixOf source = true →
      findCloser ['*', '*', '*'] '*' (source.drop 3) = some close →
      Found parse source base own
        (.styled [.styled (parse ((source.drop 3).take close) (base + 3) own)]) (3 + close + 3)
  | starRun {c : Char} {rest : Text} {runEnd : Nat} :
      matchBoth parse source 0 false = none → opened ['*', '*'] source = some (c, rest) →
      starRunEnd (c :: rest) ((findCloser ['*', '*'] c rest).map (· + 1)) = some runEnd →
      Found parse source base own
        (.styled (parse ((c :: rest).take (runEnd - 2)) (base + 2) own)) (2 + runEnd)
  | inner {mark : Text} {c : Char} {rest : Text} {close : Nat} :
      matchBoth parse source 0 false = none → mark ∈ delims →
      opened mark source = some (c, rest) → findCloser mark c rest = some close →
      (mark = ['*', '*'] →
        closeOnStarRun parse (c :: rest) (some (close + 1)) (base + 2) own = none) →
      mark ≠ ['|', '|'] →
      Found parse source base own
        (.styled (parse ((c :: rest).take (close + 1)) (base + mark.length) own))
        (mark.length + (close + 1) + mark.length)
  | spoiler {c : Char} {rest : Text} {close : Nat} :
      opened ['|', '|'] source = some (c, rest) → findCloser ['|', '|'] c rest = some close →
      Found parse source base own
        (.styled (parse (tokensAsText ((c :: rest).take (close + 1))) 0 false))
        (2 + (close + 1) + 2)

variable {base : Nat} {own : Bool} {node : InlineNode} {length : Nat}

theorem matchToken_found (h : matchToken source base own = some (node, length)) :
    Found parse source base own node length := by
  rw [matchToken] at h
  split at h
  next => cases h
  next n hn =>
    obtain ⟨token, rest, rfl, hlength⟩ := token_at (by omega : tokenLength source ≠ 0)
    obtain ⟨rfl, rfl⟩ := Prod.mk.inj (Option.some.inj h)
    have hn' : n + 1 = token.text.length := hn.symm.trans hlength
    rw [hn', List.take_left]
    exact .token token rest rfl

theorem matchCode_found (h : matchCode source = some (node, length)) :
    Found parse source base own node length := by
  cases source with
  | nil => cases h
  | cons c rest =>
    simp only [matchCode] at h
    split at h
    next hcode =>
      obtain ⟨rfl, rfl⟩ := Prod.mk.inj (Option.some.inj h)
      simp only [Bool.and_eq_true, beq_iff_eq, bne_iff_ne, decide_eq_true_eq] at hcode
      obtain ⟨⟨rfl, -⟩, hlt⟩ := hcode
      have hsplit := List.takeWhile_append_dropWhile (p := (· != backtick)) (l := rest)
      cases hdrop : rest.dropWhile (· != backtick) with
      | nil =>
        rw [hdrop, List.append_nil] at hsplit
        rw [hsplit] at hlt
        exact absurd hlt (Nat.lt_irrefl _)
      | cons c after =>
        have hnot := List.head_dropWhile_not (· != backtick) (l := rest) (by rw [hdrop]; simp)
        simp only [hdrop, List.head_cons, bne_eq_false_iff_eq] at hnot
        rw [hdrop, hnot] at hsplit
        exact .code (congrArg (backtick :: ·) hsplit.symm)
    next => cases h

theorem matchURL_found (h : matchURL source = some (node, length)) :
    Found parse source base own node length := by
  obtain ⟨url, hurl, hpair⟩ := Option.map_eq_some_iff.mp h
  obtain ⟨rfl, rfl⟩ := Prod.mk.inj hpair
  exact .url hurl

theorem matchLabelled_found (h : matchLabelled parse source = some (node, length)) :
    Found parse source base own node length := by
  rw [matchLabelled] at h
  split at h
  next => cases h
  next label href length' hlabel =>
    simp only at h
    split at h
    next => cases h
    next hlink =>
      obtain ⟨rfl, rfl⟩ := Prod.mk.inj (Option.some.inj h)
      exact .label hlabel (by rwa [Bool.not_eq_true] at hlink)

theorem matchBoth_found (h : matchBoth parse source base own = some (node, length)) :
    Found parse source base own node length := by
  rw [matchBoth] at h
  split at h
  next hstarts =>
    obtain ⟨close, hclose, hpair⟩ := Option.map_eq_some_iff.mp h
    obtain ⟨rfl, rfl⟩ := Prod.mk.inj hpair
    exact .both hstarts hclose
  next => cases h

theorem matchBoth_none (h : matchBoth parse source base own = none) :
    matchBoth parse' source 0 false = none := by
  rw [matchBoth] at h ⊢
  split at h
  next hstarts =>
    rw [if_pos hstarts]
    rw [Option.map_eq_none_iff] at h ⊢
    exact h
  next hstarts => rw [if_neg hstarts]

theorem closeOnStarRun_spec {inside : Text} {close : Option Nat} {children : List InlineNode}
    {runEnd : Nat} (h : closeOnStarRun parse inside close base own = some (children, runEnd)) :
    starRunEnd inside close = some runEnd ∧ children = parse (inside.take (runEnd - 2)) base own := by
  rw [closeOnStarRun] at h
  split at h
  next => cases h
  next runEnd' hend =>
    simp only at h
    split at h
    next =>
      obtain ⟨rfl, rfl⟩ := Prod.mk.inj (Option.some.inj h)
      exact ⟨hend, rfl⟩
    next => cases h

theorem matchDelimited_found (hboth : matchBoth parse source 0 false = none)
    (h : matchDelimited parse source base own = some (node, length)) :
    Found parse source base own node length := by
  obtain ⟨⟨children, length'⟩, hfound, hpair⟩ := Option.map_eq_some_iff.mp h
  obtain ⟨rfl, rfl⟩ := Prod.mk.inj hpair
  obtain ⟨mark, hmark, hby⟩ := List.exists_of_findSome?_eq_some hfound
  rw [delimitedBy] at hby
  split at hby
  next => cases hby
  next c rest hopened =>
    simp only at hby
    split at hby
    next children' runEnd hrun =>
      obtain ⟨rfl, rfl⟩ := Prod.mk.inj (Option.some.inj hby)
      split at hrun
      next hstars =>
        rw [beq_iff_eq] at hstars
        subst hstars
        obtain ⟨hend, rfl⟩ := closeOnStarRun_spec hrun
        exact .starRun hboth hopened hend
      next => cases hrun
    next => cases hby
    next close hrun hclose =>
      obtain ⟨close', hclose', rfl⟩ := Option.map_eq_some_iff.mp hclose
      split at hby
      next hbars =>
        rw [beq_iff_eq] at hbars
        subst hbars
        obtain ⟨rfl, rfl⟩ := Prod.mk.inj (Option.some.inj hby)
        exact .spoiler hopened hclose'
      next hbars =>
        rw [beq_iff_eq] at hbars
        obtain ⟨rfl, rfl⟩ := Prod.mk.inj (Option.some.inj hby)
        refine .inner hboth hmark hopened hclose' ?_ hbars
        rintro rfl
        rw [if_pos (by rfl), hclose'] at hrun
        exact hrun

/-- **A node at the cursor is one a construct there is.** -/
theorem found_of_nodeAt (h : nodeAt parse source base own = some (node, length)) :
    Found parse source base own node length := by
  simp only [nodeAt, Option.orElse_eq_some] at h
  rcases h with h | ⟨-, h | ⟨-, h | ⟨-, h | ⟨-, h | ⟨hboth, h⟩⟩⟩⟩⟩
  · exact matchToken_found h
  · exact matchCode_found h
  · exact matchURL_found h
  · exact matchLabelled_found h
  · exact matchBoth_found h
  · exact matchDelimited_found (matchBoth_none hboth) h

/-- **A construct takes a character at least**, and no more than there are. -/
theorem Found.length_le (h : Found parse source base own node length) :
    0 < length ∧ length ≤ source.length := by
  cases h with
  | token token rest hsource =>
    have := token.length_pos
    rw [hsource, List.length_append]
    omega
  | code hsource =>
    rw [hsource]
    simp only [List.length_cons, List.length_append]
    omega
  | url hurl =>
    obtain ⟨c, rest, rfl, hstarts, hc⟩ := urlAt_spec hurl
    exact ⟨List.length_pos_iff.mpr (trimURL_ne_nil hc),
      ((trimURL_starts _).trans hstarts).length_le⟩
  | label hlabel =>
    obtain ⟨rest, rfl, rfl, -⟩ := labelAt_spec hlabel
    simp only [List.length_cons, List.length_append]
    omega
  | both hstarts hclose =>
    have hle := (List.isPrefixOf_iff_prefix.mp hstarts).length_le
    have hclose' := findCloser_le hclose (by decide)
    rw [List.length_drop] at hclose'
    simp only [List.length_cons, List.length_nil] at hle hclose'
    omega
  | starRun _ hopened hend =>
    obtain ⟨rfl, -⟩ := opened_spec hopened
    obtain ⟨n, -, -, hle, -⟩ := starRunEnd_spec hend
    rw [List.length_append]
    simp only [List.length_cons, List.length_nil] at hle ⊢
    omega
  | inner _ hmark hopened hclose =>
    obtain ⟨rfl, -⟩ := opened_spec hopened
    have := findCloser_le hclose (ne_nil_of_mem_delims hmark)
    rw [List.length_append, List.length_cons]
    omega
  | spoiler hopened hclose =>
    obtain ⟨rfl, -⟩ := opened_spec hopened
    have := findCloser_le hclose (by decide)
    rw [List.length_append]
    simp only [List.length_cons, List.length_nil] at this ⊢
    omega

/-! ## Parsers that agree -/

theorem closeOnStarRun_congr {inside : Text} {close : Option Nat}
    (h : ∀ runEnd, starRunEnd inside close = some runEnd →
      parse (inside.take (runEnd - 2)) base own = parse' (inside.take (runEnd - 2)) base own) :
    closeOnStarRun parse inside close base own = closeOnStarRun parse' inside close base own := by
  rw [closeOnStarRun, closeOnStarRun]
  split
  next => rfl
  next runEnd hend => rw [h runEnd hend]

theorem findSome?_alike {marks : List Text} {f g : Text → Option (List InlineNode × Nat)}
    (h : ∀ mark ∈ marks, f mark = g mark) : marks.findSome? f = marks.findSome? g := by
  induction marks with
  | nil => rfl
  | cons mark marks ih =>
    rw [List.forall_mem_cons] at h
    rw [List.findSome?_cons, List.findSome?_cons, h.1, ih h.2]

theorem delimitedBy_congr (hboth : matchBoth parse source 0 false = none)
    (h : ∀ inside, Calls parse source inside →
      ∀ base own, parse inside base own = parse' inside base own)
    (hmark : mark ∈ delims) (base : Nat) (own : Bool) :
    delimitedBy parse source base own mark = delimitedBy parse' source base own mark := by
  rw [delimitedBy, delimitedBy]
  split
  next => rfl
  next c rest hopened =>
    have hrun : (if mark == ['*', '*'] then
          closeOnStarRun parse (c :: rest) ((findCloser mark c rest).map (· + 1))
            (base + mark.length) own
        else none) =
        if mark == ['*', '*'] then
          closeOnStarRun parse' (c :: rest) ((findCloser mark c rest).map (· + 1))
            (base + mark.length) own
        else none := by
      split
      next hstars =>
        rw [beq_iff_eq] at hstars
        subst hstars
        exact closeOnStarRun_congr fun runEnd hend => h _ (.starRun hboth hopened hend) _ _
      next => rfl
    simp only [← hrun]
    split
    next => rfl
    next => rfl
    next close hnone hclose =>
      obtain ⟨close', hclose', rfl⟩ := Option.map_eq_some_iff.mp hclose
      split
      next hbars =>
        rw [beq_iff_eq] at hbars
        subst hbars
        rw [h _ (.spoiler hopened hclose')]
      next hbars =>
        rw [beq_iff_eq] at hbars
        have hno : mark = ['*', '*'] → closeOnStarRun parse (c :: rest) (some (close' + 1))
            (base + mark.length) own = none := fun hstars => by
          rw [if_pos (beq_iff_eq.mpr hstars), hclose'] at hnone
          exact hnone
        rw [h _ (.inner hboth hmark hopened hclose' hno hbars)]

/-- **A construct reads no more of its parser** than what it calls it on. -/
theorem nodeAt_congr (h : ∀ inside, Calls parse source inside →
      ∀ base own, parse inside base own = parse' inside base own) (base : Nat) (own : Bool) :
    nodeAt parse source base own = nodeAt parse' source base own := by
  have hlabel : matchLabelled parse source = matchLabelled parse' source := by
    rw [matchLabelled, matchLabelled]
    split
    next => rfl
    next label href length hlabel => simp only [h _ (.label hlabel)]
  have hboth : matchBoth parse source base own = matchBoth parse' source base own := by
    rw [matchBoth, matchBoth]
    split
    next hstarts =>
      cases hclose : findCloser ['*', '*', '*'] '*' (source.drop 3) with
      | none => rfl
      | some close => simp only [Option.map_some, h _ (.both hstarts hclose)]
    next => rfl
  rw [nodeAt, nodeAt, hlabel, hboth]
  cases hnone : matchBoth parse' source base own with
  | some found => rfl
  | none =>
    have hnone' : matchBoth parse source 0 false = none :=
      matchBoth_none (hboth.trans hnone)
    have hdelims : delims.findSome? (delimitedBy parse source base own) =
        delims.findSome? (delimitedBy parse' source base own) :=
      findSome?_alike fun mark hmark => delimitedBy_congr hnone' h hmark base own
    rw [matchDelimited, matchDelimited, hdelims]

/-! ## The parser -/

/-- **The parser never runs out of fuel**: more than the source's length is as good as any. -/
theorem parseInlineFrom_fuel {fuel fuel' : Nat} (hfuel : source.length < fuel)
    (hfuel' : source.length < fuel') (base : Nat) (own : Bool) (text : Text) :
    parseInlineFrom fuel source base own text = parseInlineFrom fuel' source base own text := by
  induction fuel generalizing fuel' source base own text with
  | zero => exact absurd hfuel (Nat.not_lt_zero _)
  | succ fuel ih =>
    cases fuel' with
    | zero => exact absurd hfuel' (Nat.not_lt_zero _)
    | succ fuel' =>
      cases source with
      | nil => rfl
      | cons c rest =>
        rw [List.length_cons] at hfuel hfuel'
        have hnode : nodeAt (fun inside base own => parseInlineFrom fuel inside base own [])
              (c :: rest) base own =
            nodeAt (fun inside base own => parseInlineFrom fuel' inside base own [])
              (c :: rest) base own := by
          refine nodeAt_congr (fun inside hcalls base own => ?_) base own
          have hshorter := hcalls.shorter
          rw [List.length_cons] at hshorter
          exact ih (by omega) (by omega) base own []
        rw [parseInlineFrom, parseInlineFrom, hnode]
        split
        next =>
          have := List.length_drop (i := 1) (l := rest)
          exact ih (by omega) (by omega) _ _ _
        next =>
          split
          next node length hfound =>
            obtain ⟨hpos, -⟩ := (found_of_nodeAt hfound).length_le
            have := List.length_drop (i := length) (l := c :: rest)
            rw [List.length_cons] at this
            have hrest : ∀ base, parseInlineFrom fuel ((c :: rest).drop length) base own [] =
                parseInlineFrom fuel' ((c :: rest).drop length) base own [] := fun base =>
              ih (by omega) (by omega) base own []
            rw [hrest]
          next => exact ih (by omega) (by omega) _ _ _

/-- The parser from a place on, with the text gathered so far. -/
def parseFrom (source : Text) (base : Nat) (own : Bool) (text : Text) : List InlineNode :=
  parseInlineFrom (source.length + 1) source base own text

theorem parseInlineAt_eq (source : Text) (base : Nat) (own : Bool) :
    parseInlineAt source base own = parseFrom source base own [] := rfl

theorem parseFrom_fuel {fuel : Nat} (h : source.length < fuel) (base : Nat) (own : Bool)
    (text : Text) : parseInlineFrom fuel source base own text = parseFrom source base own text :=
  parseInlineFrom_fuel h (Nat.lt_succ_self _) base own text

@[simp] theorem parseFrom_nil (base : Nat) (own : Bool) (text : Text) :
    parseFrom [] base own text = flush text := rfl

/-- With enough fuel a construct is tried with the whole parser. -/
theorem nodeAt_fuel {fuel : Nat} (h : source.length ≤ fuel) (base : Nat) (own : Bool) :
    nodeAt (fun inside base own => parseInlineFrom fuel inside base own []) source base own =
      nodeAt parseInlineAt source base own :=
  nodeAt_congr (fun _ hcalls base own =>
    parseFrom_fuel (hcalls.shorter.trans_le h) base own []) base own

/-- **The cursor's step.** -/
theorem parseFrom_cons (c : Char) (rest : Text) (base : Nat) (own : Bool) (text : Text) :
    parseFrom (c :: rest) base own text =
      match escapedAt (c :: rest) with
      | some escaped => parseFrom (rest.drop 1) (base + 2) own (text ++ [escaped])
      | none =>
        match nodeAt parseInlineAt (c :: rest) base own with
        | some (node, length) =>
          flush text ++ node :: parseFrom ((c :: rest).drop length)
            (base + byteLength ((c :: rest).take length)) own []
        | none => parseFrom rest (base + c.utf8Size) own (text ++ [c]) := by
  rw [parseFrom, parseInlineFrom, nodeAt_fuel (Nat.le_refl _)]
  cases hescape : escapedAt (c :: rest) with
  | some escaped =>
    have := List.length_drop (i := 1) (l := rest)
    exact parseFrom_fuel (by rw [List.length_cons]; omega) _ _ _
  | none =>
    cases hfound : nodeAt parseInlineAt (c :: rest) base own with
    | some found =>
      obtain ⟨node, length⟩ := found
      obtain ⟨hpos, -⟩ := (found_of_nodeAt hfound).length_le
      have := List.length_drop (i := length) (l := c :: rest)
      rw [List.length_cons] at this
      simp only [parseFrom_fuel (by rw [List.length_cons]; omega : ((c :: rest).drop length).length <
        (c :: rest).length)]
    | none => exact parseFrom_fuel (by rw [List.length_cons]; omega) _ _ _

/-! ## Where the cursor stands -/

/-- **The cursor's places while a text is parsed**, on its own and in the insides its constructs are
tried on: at each the source from it on. -/
inductive Stands : Text → Text → Prop
  | here (source : Text) : Stands source source
  | escape {c escaped : Char} {rest place : Text} : escapedAt (c :: rest) = some escaped →
      Stands (rest.drop 1) place → Stands (c :: rest) place
  | node {c : Char} {rest place : Text} {node : InlineNode} {length : Nat} :
      escapedAt (c :: rest) = none →
      nodeAt parseInlineAt (c :: rest) 0 false = some (node, length) →
      Stands ((c :: rest).drop length) place → Stands (c :: rest) place
  | char {c : Char} {rest place : Text} : escapedAt (c :: rest) = none →
      nodeAt parseInlineAt (c :: rest) 0 false = none →
      Stands rest place → Stands (c :: rest) place
  | inside {c : Char} {rest inside place : Text} : escapedAt (c :: rest) = none →
      Calls parseInlineAt (c :: rest) inside → Stands inside place → Stands (c :: rest) place

/-- What holds of the source's characters, of "@" and of "#", holds wherever the cursor stands. -/
theorem Stands.forall_mem {P : Char → Prop} {place : Text} (h : Stands source place)
    (hat : P '@') (hsharp : P '#') (hsource : ∀ c ∈ source, P c) : ∀ c ∈ place, P c := by
  induction h with
  | here => exact hsource
  | escape _ _ ih =>
    exact ih fun c hc => hsource c (List.mem_cons_of_mem _ (List.mem_of_mem_drop hc))
  | node _ _ _ ih => exact ih fun c hc => hsource c (List.mem_of_mem_drop hc)
  | char _ _ _ ih => exact ih fun c hc => hsource c (List.mem_cons_of_mem _ hc)
  | inside _ hcalls _ ih => exact ih (hcalls.forall_mem hat hsharp hsource)

end Stoop.Markdown.Server
