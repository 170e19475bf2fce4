import Stoop.Lib.Sorted
import Stoop.Mentions.Written

/-!
# Handles typed by hand

On send the phone turns each @handle or #name typed in full into its token (`withTypedMentions`), and while one
types, the one that the last character has just ended into a pill (`typedMentionEnding`). Both match the same two
patterns over the text's UTF-16 units, the second over the text less its last unit.

They agree except where a handle in somebody's name ends just before a character of two units, which only the
first replaces; and the first leaves the rest of the text alone except where a handle runs into a web address
(`typed_mentions`). Patterns ignore case, and so do names, by `toLowerCase`, which is the language's.

## The source's functions

`withTypedMentions`, `typedMentionEnding`

## What is asked of them

`PhoneAgrees`, `LeavesTheRest`
-/

set_option autoImplicit false

namespace Stoop.Mentions.Typed

open Stoop.Lib Stoop.Markdown Written.Client

/-! ## Whom a handle names -/

abbrev Units := List UInt16

structure Member where
  userId : Units
  username : Units

structure Group where
  id : Units
  handle : Units

structure Channel where
  id : Units
  name : Units

/-- Who and what a typed handle may name. -/
structure MentionNames where
  members : List Member
  groups : List Group
  channels : List Channel

variable (toLowerCase : Units → Units)

/-- The channel a fully typed #name names, if any. -/
def soleChannel (name : Units) (channels : List Channel) : Option MentionRef :=
  let lower := toLowerCase name
  (channels.find? fun channel => channel.name = lower).map fun channel => ⟨.channel, channel.id, lower⟩

def isChannelOrHere (handle : Units) : Bool :=
  handle = utf16.encode "channel".toList || handle = utf16.encode "here".toList

/-- The one person or group a fully typed handle names. -/
def soleMention (handle : Units) (members : List Member) (groups : List Group) : Option MentionRef :=
  let lower := toLowerCase handle
  if isChannelOrHere lower then none
  else
    let found :=
      (members.filter fun member => toLowerCase member.username = lower).map (fun member =>
        (⟨.person, member.userId, lower⟩ : MentionRef)) ++
      (groups.filter fun group => group.handle = lower).map fun group => ⟨.group, group.id, lower⟩
    match found with
    | [ref] => some ref
    | _ => none

def mentionToken (ref : MentionRef) : Units :=
  match ref.kind with
  | .channel => utf16.encode "<#".toList ++ ref.id ++ utf16.encode [':'] ++ ref.handle ++ utf16.encode ['>']
  | .group => utf16.encode "<@g:".toList ++ ref.id ++ utf16.encode [':'] ++ ref.handle ++ utf16.encode ['>']
  | .person => utf16.encode "<@u:".toList ++ ref.id ++ utf16.encode [':'] ++ ref.handle ++ utf16.encode ['>']

/-! ## The patterns -/

/-- A letter or a digit, of either case. -/
def alnumUnit (u : UInt16) : Bool :=
  utf16.between 'a' 'z' u || utf16.between 'A' 'Z' u || utf16.between '0' '9' u

def handleUnit (u : UInt16) : Bool := alnumUnit u || utf16.is '_' u

def channelUnit (u : UInt16) : Bool := handleUnit u || utf16.is '-' u

/-- A kind of handle: what may not be before its sign, the sign, its name, what a name goes on with, and whom it
names. -/
structure Kind where
  bars : UInt16 → Bool
  sign : Char
  name : Pattern UInt16
  runsOn : UInt16 → Bool
  sole : Units → Option MentionRef

/-- The sign and a name typed in full, with what is before the sign. -/
def Kind.pattern (kind : Kind) : Pattern UInt16 :=
  .seqs [.group 1 (.alt .start (.one fun u => !kind.bars u)), .one (utf16.is kind.sign), .group 2 kind.name,
    .ahead (.alt (.one fun u => !kind.runsOn u) .finish)]

/-- `TYPED_HANDLE`, and whom a handle names. -/
def typedHandle (names : MentionNames) : Kind where
  bars u := handleUnit u || utf16.is '@' u
  sign := '@'
  name := .rep handleUnit 3 (some 32)
  runsOn := handleUnit
  sole name := soleMention toLowerCase name names.members names.groups

/-- `TYPED_CHANNEL`, and what a name names. -/
def typedChannel (names : MentionNames) : Kind where
  bars u := handleUnit u || utf16.is '#' u || utf16.is '&' u || utf16.is '/' u
  sign := '#'
  name := .seqs [.one alnumUnit, .rep channelUnit 0 (some 31)]
  runsOn := channelUnit
  sole name := soleChannel toLowerCase name names.channels

def kinds (names : MentionNames) : List Kind := [typedHandle toLowerCase names, typedChannel toLowerCase names]

/-- A letter of either case. -/
def either (lower upper : Char) (u : UInt16) : Bool := utf16.is lower u || utf16.is upper u

/-- `ADDRESS`. -/
def address : Pattern UInt16 :=
  .seqs [.lit [either 'h' 'H', either 't' 'T', either 't' 'T', either 'p' 'P'], .rep (either 's' 'S') 0 (some 1),
    word "://", .rep (fun u => !(jsSpace (utf16.seenUnit u) || utf16.is '<' u || utf16.is '>' u)) 1 none]

/-! ## The two recognisers -/

/-- Where each web address starts and ends. -/
def addresses (text : Units) : List (Nat × Nat) :=
  (address.matchAll text).map fun m => (m.start, m.start + m.text.length)

def inAddress (text : Units) (start : Nat) : Bool :=
  (addresses text).any fun (first, last) => decide (first ≤ start) && decide (start < last)

/-- What a group took. -/
def taken (k : Nat) (m : Match UInt16) : Units := (m.groups.lookup k).getD []

/-- Where a match's sign is. -/
def signAt (m : Match UInt16) : Nat := m.start + (taken 1 m).length

structure Replacement where
  start : Nat
  stop : Nat
  ref : MentionRef
  deriving DecidableEq

/-- What `withTypedMentions` replaces, in order. -/
def replacements (names : MentionNames) (text : Units) : List Replacement :=
  let typed := (kinds toLowerCase names).flatMap fun kind =>
    (kind.pattern.matchAll text).map fun m => (m, kind.sole (taken 2 m))
  let found := typed.filterMap fun (m, ref) =>
    ref.bind fun ref =>
      if inAddress text (signAt m) then none
      else some (⟨signAt m, signAt m + (taken 2 m).length + 1, ref⟩ : Replacement)
  found.insertionSort fun a b => a.start ≤ b.start

def withTypedMentions (names : MentionNames) (text : Units) : Units :=
  spliceFrom text 0 ((replacements toLowerCase names text).map fun r => (r.start, r.stop, mentionToken r.ref))

/-- A handle just ended: where its sign is, how long it is, and who it names. -/
structure Ending where
  start : Nat
  length : Nat
  ref : MentionRef
  deriving DecidableEq

def typedMentionEnding (names : MentionNames) (before : Units) : Option Ending :=
  match before.getLast? with
  | none => none
  | some ending =>
    let typed := before.dropLast
    (kinds toLowerCase names).findSome? fun kind =>
      if kind.runsOn ending then none
      else
        (kind.pattern.matchAll typed).findSome? fun m =>
          let length := (taken 2 m).length + 1
          if signAt m + length ≠ typed.length then none
          else
            (if inAddress before (signAt m) then none else kind.sole (taken 2 m)).map fun ref =>
              ⟨signAt m, length, ref⟩

/-! ## What is asked of them -/

/-- How many units a text's last character is. -/
def lastWidth (text : Units) : Nat :=
  match text.reverse with
  | low :: high :: _ => if isHighSurrogate high && isLowSurrogate low then 2 else 1
  | [_] => 1
  | [] => 0

/-- The phone names a handle exactly when sending replaces one that ends just before the last character, and then
the same one. -/
def PhoneAgrees (names : MentionNames) (before : Units) : Prop :=
  ∀ found, typedMentionEnding toLowerCase names before = some found ↔
    ∃ r ∈ replacements toLowerCase names before,
      r.stop + lastWidth before = before.length ∧ r.start = found.start ∧ r.stop = found.start + found.length ∧
        r.ref = found.ref

/-- Part of a text. -/
def slice (text : Units) (start stop : Nat) : Units := (text.take stop).drop start

/-- A part of a text that nothing is put in place of, and that is still there. -/
def LeftWhole (names : MentionNames) (text : Units) (start stop : Nat) : Prop :=
  (∀ r ∈ replacements toLowerCase names text, stop ≤ r.start ∨ r.stop ≤ start) ∧
    slice text start stop <:+: withTypedMentions toLowerCase names text

/-- Nothing but handles in somebody's name is changed. -/
structure LeavesTheRest (names : MentionNames) (text : Units) : Prop where
  /-- Outside the handles the output is the text: with what was typed in place of each token it is all of it. -/
  rest : spliceFrom text 0 ((replacements toLowerCase names text).map fun r =>
    (r.start, r.stop, slice text r.start r.stop)) = text
  handles : ∀ r ∈ replacements toLowerCase names text, ∃ sign name, slice text r.start r.stop = sign :: name ∧
    (utf16.is '@' sign = true ∧ soleMention toLowerCase name names.members names.groups = some r.ref ∧
        isChannelOrHere (toLowerCase name) = false ∨
      utf16.is '#' sign = true ∧ soleChannel toLowerCase name names.channels = some r.ref)
  tokens : ∀ start ref length, mentionTokenAt (text.drop start) = some (ref, length) →
    LeftWhole toLowerCase names text start (start + length)
  addresses : ∀ a ∈ addresses text, LeftWhole toLowerCase names text a.1 a.2

/-! ## When they do it -/

/-- A handle in somebody's name, typed in full and not in an address: where it starts and stops, and whom it
names. -/
def Named (names : MentionNames) (text : Units) (start stop : Nat) (ref : MentionRef) : Prop :=
  ∃ kind ∈ kinds toLowerCase names, ∃ m ∈ kind.pattern.matchAll text,
    kind.sole (taken 2 m) = some ref ∧ inAddress text (signAt m) = false ∧ start = signAt m ∧
      stop = signAt m + (taken 2 m).length + 1

/-- The last character is a surrogate pair, and a handle in somebody's name ends just before it. -/
def EndsBeforePair (names : MentionNames) (text : Units) : Prop :=
  ∃ start stop ref, Named toLowerCase names text start stop ref ∧ lastWidth text = 2 ∧ stop + 2 = text.length

/-- An address starts inside a handle in somebody's name. -/
def RunsIntoAddress (names : MentionNames) (text : Units) : Prop :=
  ∃ start stop ref, Named toLowerCase names text start stop ref ∧ ∃ a ∈ addresses text, start < a.1 ∧ a.1 < stop

/-! ## What a pattern takes -/

theorem is_inj {c : Char} {u v : UInt16} (hu : utf16.is c u = true) (hv : utf16.is c v = true) : u = v := by
  rw [Encoding.is, decide_eq_true_eq] at hu hv
  exact utf16.value_inj _ _ (hu.trans hv.symm)

/-- A run that goes no further is all of it. -/
theorem run_unique {α : Type} {p : α → Bool} {name name' rest rest' : List α} (h : name ++ rest = name' ++ rest')
    (hname : ∀ u ∈ name, p u = true) (hname' : ∀ u ∈ name', p u = true) (hrest : ∀ u ∈ rest.head?, p u = false)
    (hrest' : ∀ u ∈ rest'.head?, p u = false) : name = name' := by
  have htake : ∀ {name rest : List α}, (∀ u ∈ name, p u = true) → (∀ u ∈ rest.head?, p u = false) →
      (name ++ rest).takeWhile p = name := by
    intro name rest hname hrest
    rw [List.takeWhile_append_of_pos hname]
    cases rest with
    | nil => rw [List.takeWhile_nil, List.append_nil]
    | cons u rest => rw [List.takeWhile_cons, hrest u rfl, if_neg Bool.false_ne_true, List.append_nil]
  rw [← htake hname hrest, h, htake hname' hrest']

namespace Kind

/-- What the kinds have in common: a name is a run of its own units, which a sign is not, and a sign does not
stand after itself. -/
structure Lawful (kind : Kind) : Prop where
  named : ∀ {offset t rest gs}, kind.name.Matches offset t rest gs →
    gs = [] ∧ t ≠ [] ∧ (∀ u ∈ t, kind.runsOn u = true) ∧ ∀ offset' rest', kind.name.Matches offset' t rest' []
  barred : ∀ u, utf16.is kind.sign u = true → kind.bars u = true
  stops : ∀ u, utf16.is '@' u = true ∨ utf16.is '#' u = true → kind.runsOn u = false

variable {kind : Kind} {offset : Nat} {t rest text : Units} {gs : Captures UInt16}

theorem Lawful.stops_sign (hkind : kind.Lawful) {sign : Char} (hsign : sign = '@' ∨ sign = '#') {u : UInt16}
    (hu : utf16.is sign u = true) : kind.runsOn u = false := by
  obtain rfl | rfl := hsign
  · exact hkind.stops u (.inl hu)
  · exact hkind.stops u (.inr hu)

theorem matches_pattern (hkind : kind.Lawful) : kind.pattern.Matches offset t rest gs ↔
    ∃ lead sign name, t = lead ++ sign :: name ∧ gs = [(1, lead), (2, name)] ∧
      (lead = [] ∧ offset = 0 ∨ ∃ u, lead = [u] ∧ kind.bars u = false) ∧ utf16.is kind.sign sign = true ∧
      kind.name.Matches 0 name [] [] ∧ ∀ u ∈ rest.head?, kind.runsOn u = false := by
  constructor
  · intro h
    obtain ⟨lead, t₁, gs₁, gs₂, rfl, rfl, hgroup, hafter₁⟩ := Pattern.matches_seqs_cons.mp h
    obtain ⟨gs₁, rfl, halt⟩ := Pattern.matches_group.mp hgroup
    obtain ⟨_, t₂, _, gs₄, rfl, rfl, hone, hafter₂⟩ := Pattern.matches_seqs_cons.mp hafter₁
    obtain ⟨⟨sign, rfl, hsign⟩, rfl⟩ := Pattern.matches_one.mp hone
    obtain ⟨name, t₃, gs₅, gs₆, rfl, rfl, hgroup', hafter₃⟩ := Pattern.matches_seqs_cons.mp hafter₂
    obtain ⟨gs₅, rfl, hname⟩ := Pattern.matches_group.mp hgroup'
    obtain ⟨_, t₄, _, gs₈, rfl, rfl, hend, hafter₄⟩ := Pattern.matches_seqs_cons.mp hafter₃
    obtain ⟨rfl, rfl⟩ := Pattern.matches_seqs_nil.mp hafter₄
    obtain ⟨rfl, rfl, hrest⟩ := Pattern.matches_runEnd.mp hend
    obtain ⟨rfl, -, -, hname⟩ := hkind.named hname
    rw [List.nil_append] at hrest
    have hlead : gs₁ = [] ∧ (lead = [] ∧ offset = 0 ∨ ∃ u, lead = [u] ∧ kind.bars u = false) := by
      obtain hstart | hbefore := Pattern.matches_alt.mp halt
      · obtain ⟨hlead, hgs⟩ := Pattern.matches_start.mp hstart
        exact ⟨hgs, .inl hlead⟩
      · obtain ⟨⟨u, hlead, hbars⟩, hgs⟩ := Pattern.matches_one.mp hbefore
        exact ⟨hgs, .inr ⟨u, hlead, by simpa using hbars⟩⟩
    obtain ⟨rfl, hlead⟩ := hlead
    exact ⟨lead, sign, name, by simp, by simp, hlead, hsign, hname _ _, hrest⟩
  · rintro ⟨lead, sign, name, rfl, rfl, hlead, hsign, hname, hrest⟩
    obtain ⟨-, -, -, hname⟩ := hkind.named hname
    refine Pattern.matches_seqs_cons.mpr ⟨lead, sign :: name, [(1, lead)], [(2, name)], rfl, rfl,
      Pattern.matches_group.mpr ⟨[], rfl, ?_⟩, ?_⟩
    · obtain hlead | ⟨u, hlead, hbars⟩ := hlead
      · exact Pattern.matches_alt.mpr (.inl (Pattern.matches_start.mpr ⟨hlead, rfl⟩))
      · exact Pattern.matches_alt.mpr (.inr (Pattern.matches_one.mpr ⟨⟨u, hlead, by rw [hbars]; rfl⟩, rfl⟩))
    · refine Pattern.matches_seqs_cons.mpr ⟨[sign], name, [], [(2, name)], rfl, rfl,
        Pattern.matches_one.mpr ⟨⟨sign, rfl, hsign⟩, rfl⟩, ?_⟩
      refine Pattern.matches_seqs_cons.mpr ⟨name, [], [(2, name)], [], (List.append_nil _).symm, rfl,
        Pattern.matches_group.mpr ⟨[], rfl, hname _ _⟩, ?_⟩
      exact Pattern.matches_seqs_cons.mpr ⟨[], [], [], [], rfl, rfl, Pattern.matches_runEnd.mpr ⟨rfl, rfl, hrest⟩,
        Pattern.matches_seqs_nil.mpr ⟨rfl, rfl⟩⟩

theorem ne_nil_of_matches (hkind : kind.Lawful) (h : kind.pattern.Matches offset t rest gs) : t ≠ [] := by
  obtain ⟨lead, sign, name, rfl, -⟩ := (matches_pattern hkind).mp h
  exact List.append_ne_nil_of_right_ne_nil _ (List.cons_ne_nil _ _)

/-- There is one way to match at a place. -/
theorem matches_unique (hkind : kind.Lawful) {t' rest' : Units} {gs' : Captures UInt16}
    (h : kind.pattern.Matches offset t rest gs) (h' : kind.pattern.Matches offset t' rest' gs')
    (htext : t ++ rest = t' ++ rest') : t' = t ∧ gs' = gs := by
  obtain ⟨lead, sign, name, rfl, rfl, hlead, hsign, hname, hrest⟩ := (matches_pattern hkind).mp h
  obtain ⟨lead', sign', name', rfl, rfl, hlead', hsign', hname', hrest'⟩ := (matches_pattern hkind).mp h'
  have hrun := (hkind.named hname).2.2.1
  have hrun' := (hkind.named hname').2.2.1
  simp only [List.append_assoc, List.cons_append] at htext
  have hsame : lead = lead' := by
    obtain ⟨rfl, -⟩ | ⟨u, rfl, hbars⟩ := hlead <;> obtain ⟨rfl, -⟩ | ⟨u', rfl, hbars'⟩ := hlead'
    · rfl
    · have hu := (List.cons.inj htext).1
      rw [← hu, hkind.barred _ hsign] at hbars'
      exact nomatch hbars'
    · have hu := (List.cons.inj htext).1
      rw [hu, hkind.barred _ hsign'] at hbars
      exact nomatch hbars
    · rw [(List.cons.inj htext).1]
  subst hsame
  obtain ⟨rfl, htail⟩ := List.cons.inj (List.append_cancel_left htext)
  obtain rfl := run_unique htail hrun hrun' hrest hrest'
  exact ⟨rfl, rfl⟩

theorem first_of_matches (hkind : kind.Lawful) (h : kind.pattern.Matches offset t rest gs) :
    kind.pattern.first offset (t ++ rest) = some (t, gs) :=
  Pattern.first_eq_some h fun _ _ _ htext h' => matches_unique hkind h h' htext

/-- A unit that no name goes on with makes no difference at a text's end. -/
theorem first_snoc (hkind : kind.Lawful) {c : UInt16} (hc : kind.runsOn c = false) (offset : Nat) (text : Units) :
    kind.pattern.first offset (text ++ [c]) = kind.pattern.first offset text := by
  cases hfirst : kind.pattern.first offset text with
  | some m =>
    obtain ⟨rest, rfl, hmatches⟩ := Pattern.matches_of_first hfirst
    obtain ⟨lead, sign, name, ht, hgs, hlead, hsign, hname, hrest⟩ := (matches_pattern hkind).mp hmatches
    have hlonger : kind.pattern.Matches offset m.1 (rest ++ [c]) m.2 := by
      refine (matches_pattern hkind).mpr ⟨lead, sign, name, ht, hgs, hlead, hsign, hname, ?_⟩
      cases rest with
      | nil =>
        intro u hu
        rwa [← Option.some.inj hu]
      | cons u rest => exact hrest
    rw [List.append_assoc, first_of_matches hkind hlonger]
  | none =>
    refine Pattern.first_eq_none.mpr fun t rest gs htext hmatches => ?_
    obtain ⟨lead, sign, name, rfl, hgs, hlead, hsign, hname, hrest⟩ := (matches_pattern hkind).mp hmatches
    obtain ⟨-, hne, hrun, -⟩ := hkind.named hname
    obtain rfl | ⟨rest, d, rfl⟩ := List.eq_nil_or_concat' rest
    · -- the name would end with the unit
      obtain ⟨front, last, rfl⟩ := (List.eq_nil_or_concat' name).resolve_left hne
      rw [List.append_nil, ← List.cons_append, ← List.append_assoc] at htext
      have hlast := (List.append_inj_right' htext rfl)
      rw [List.cons.inj hlast |>.1, hrun last (by simp)] at hc
      exact nomatch hc
    · rw [← List.append_assoc] at htext
      obtain rfl := List.append_inj_left' htext rfl
      refine Pattern.first_eq_none.mp hfirst _ rest gs rfl
        ((matches_pattern hkind).mpr ⟨lead, sign, name, rfl, hgs, hlead, hsign, hname, ?_⟩)
      intro u hu
      refine hrest u ?_
      rw [List.head?_append, Option.mem_def.mp hu, Option.some_or]
      rfl

theorem matchAll_snoc (hkind : kind.Lawful) {c : UInt16} (hc : kind.runsOn c = false) (text : Units) :
    kind.pattern.matchAll (text ++ [c]) = kind.pattern.matchAll text := by
  refine Pattern.matchAllFrom_snoc (first_snoc hkind hc) (fun offset => ?_) 0
  refine Pattern.first_eq_none.mpr fun t rest gs htext hmatches => ?_
  exact ne_nil_of_matches hkind hmatches (List.append_eq_nil_iff.mp htext.symm).1

/-! ## Where a handle stands -/

/-- A handle of a kind at a place of a text, all of it. -/
def Stands (kind : Kind) (text : Units) (start stop : Nat) (name : Units) : Prop :=
  ∃ before sign rest, text = before ++ sign :: (name ++ rest) ∧ start = before.length ∧
    stop = before.length + 1 + name.length ∧ utf16.is kind.sign sign = true ∧ kind.name.Matches 0 name [] [] ∧
    ∀ u ∈ rest.head?, kind.runsOn u = false

theorem stands_of_mem (hkind : kind.Lawful) {m : Match UInt16} (h : m ∈ kind.pattern.matchAll text) :
    kind.Stands text (signAt m) (signAt m + (taken 2 m).length + 1) (taken 2 m) ∧
      m.start ≤ signAt m ∧ signAt m < m.start + m.text.length := by
  obtain ⟨before, rest, htext, -, hstart, hmatches⟩ := Pattern.mem_matchAllFrom h
  obtain ⟨lead, sign, name, ht, hgs, -, hsign, hname, hrest⟩ := (matches_pattern hkind).mp hmatches
  have hlead : taken 1 m = lead := by rw [taken, hgs]; rfl
  have htaken : taken 2 m = name := by rw [taken, hgs]; rfl
  rw [Nat.zero_add] at hstart
  rw [signAt, hlead, htaken, hstart, ht, List.length_append, List.length_cons]
  refine ⟨⟨before ++ lead, sign, rest, ?_, ?_, ?_, hsign, hname, hrest⟩, Nat.le_add_right _ _, by omega⟩
  · rw [htext, ht]
    simp only [List.append_assoc, List.cons_append]
  · rw [List.length_append]
  · rw [List.length_append]
    omega

variable {kind' : Kind} {start start' stop stop' : Nat} {name name' : Units}

namespace Stands

theorem lt (h : kind.Stands text start stop name) : start < stop ∧ stop ≤ text.length := by
  obtain ⟨before, sign, rest, rfl, rfl, rfl, -⟩ := h
  rw [List.length_append, List.length_cons, List.length_append]
  omega

theorem slice_eq (h : kind.Stands text start stop name) :
    ∃ sign, utf16.is kind.sign sign = true ∧ slice text start stop = sign :: name := by
  obtain ⟨before, sign, rest, rfl, rfl, rfl, hsign, -⟩ := h
  refine ⟨sign, hsign, ?_⟩
  have hlength : before.length + 1 + name.length = (before ++ sign :: name).length := by
    rw [List.length_append, List.length_cons]
    omega
  have hsplit : before ++ sign :: (name ++ rest) = before ++ sign :: name ++ rest := by
    rw [List.append_assoc, List.cons_append]
  rw [slice, hlength, hsplit, List.take_left, List.drop_left]

/-- A handle starts with its sign. -/
theorem sign_at (h : kind.Stands text start stop name) : ∃ u, text[start]? = some u ∧ utf16.is kind.sign u =
    true := by
  obtain ⟨before, sign, rest, rfl, rfl, -, hsign, -⟩ := h
  refine ⟨sign, ?_, hsign⟩
  rw [List.getElem?_append_right (Nat.le_refl _), Nat.sub_self, List.getElem?_cons_zero]

/-- After the sign it is all name. -/
theorem name_at (hkind : kind.Lawful) (h : kind.Stands text start stop name) {i : Nat} (hstart : start < i)
    (hstop : i < stop) : ∃ u, text[i]? = some u ∧ kind.runsOn u = true := by
  obtain ⟨before, sign, rest, rfl, rfl, rfl, -, hname, -⟩ := h
  obtain ⟨j, rfl⟩ : ∃ j, i = before.length + (j + 1) := ⟨i - before.length - 1, by omega⟩
  have hj : j < name.length := by omega
  refine ⟨name[j], ?_, (hkind.named hname).2.2.1 _ (List.getElem_mem hj)⟩
  rw [List.getElem?_append_right (Nat.le_add_right _ _), Nat.add_sub_cancel_left, List.getElem?_cons_succ,
    List.getElem?_append_left hj, List.getElem?_eq_getElem hj]

theorem length_eq (h : kind.Stands text start stop name) : stop = start + 1 + name.length := by
  obtain ⟨before, sign, rest, rfl, rfl, rfl, -⟩ := h
  rfl

theorem named (h : kind.Stands text start stop name) : kind.name.Matches 0 name [] [] := by
  obtain ⟨before, sign, rest, rfl, rfl, rfl, -, hname, -⟩ := h
  exact hname

theorem not_runsOn_at_stop (h : kind.Stands text start stop name) {u : UInt16} (hu : text[stop]? = some u) :
    kind.runsOn u = false := by
  obtain ⟨before, sign, rest, rfl, rfl, rfl, -, -, hrest⟩ := h
  refine hrest u ?_
  rw [Nat.add_assoc, List.getElem?_append_right (Nat.le_add_right _ _), Nat.add_sub_cancel_left, Nat.add_comm 1,
    List.getElem?_cons_succ, List.getElem?_append_right (Nat.le_refl _), Nat.sub_self] at hu
  rwa [List.head?_eq_getElem?]

/-- Two handles that start at different places have nothing in common. -/
theorem apart (hkind : kind.Lawful) (hkind' : kind'.Lawful)
    (hsigns : (kind.sign = '@' ∨ kind.sign = '#') ∧ (kind'.sign = '@' ∨ kind'.sign = '#'))
    (h : kind.Stands text start stop name) (h' : kind'.Stands text start' stop' name') (hne : start ≠ start') :
    stop ≤ start' ∨ stop' ≤ start := by
  by_contra hover
  obtain hlt | hlt := Nat.lt_or_gt_of_ne hne
  · obtain ⟨u, hu, hsign⟩ := h'.sign_at
    obtain ⟨v, hv, hrun⟩ := h.name_at hkind hlt (by omega)
    obtain rfl := Option.some.inj (hu.symm.trans hv)
    rw [hkind.stops_sign hsigns.2 hsign] at hrun
    cases hrun
  · obtain ⟨u, hu, hsign⟩ := h.sign_at
    obtain ⟨v, hv, hrun⟩ := h'.name_at hkind' hlt (by omega)
    obtain rfl := Option.some.inj (hu.symm.trans hv)
    rw [hkind'.stops_sign hsigns.1 hsign] at hrun
    cases hrun

/-- A handle of a kind is known by where it starts. -/
theorem unique (hkind : kind.Lawful) (h : kind.Stands text start stop name)
    (h' : kind.Stands text start stop' name') : stop = stop' ∧ name = name' := by
  obtain ⟨before, sign, rest, rfl, rfl, rfl, -, hname, hrest⟩ := h
  obtain ⟨before', sign', rest', htext, hlength, rfl, -, hname', hrest'⟩ := h'
  obtain ⟨rfl, htail⟩ := List.append_inj htext hlength
  have hsame : name = name' :=
    run_unique (List.cons.inj htail).2 (hkind.named hname).2.2.1 (hkind.named hname').2.2.1 hrest hrest'
  exact ⟨by rw [hsame], hsame⟩

end Stands

end Kind

/-! ## The two kinds -/

section Kinds

variable {toLowerCase : Units → Units} {names : MentionNames} {kind kind' : Kind}

theorem not_name_of_sign {u : UInt16} (h : utf16.is '@' u = true ∨ utf16.is '#' u = true) : channelUnit u =
    false := by
  have hunit : u = 64 ∨ u = 35 := h.imp (fun hu => is_inj hu (by decide)) fun hu => is_inj hu (by decide)
  obtain rfl | rfl := hunit <;> decide

theorem handle_of_channel {u : UInt16} (h : channelUnit u = false) : handleUnit u = false :=
  (Bool.or_eq_false_iff.mp h).1

theorem handle_lawful : (typedHandle toLowerCase names).Lawful where
  named := by
    intro offset t rest gs h
    obtain ⟨⟨hleast, hmost, hall⟩, rfl⟩ := Pattern.matches_rep.mp h
    refine ⟨rfl, ?_, hall, fun _ _ => Pattern.matches_rep.mpr ⟨⟨hleast, hmost, hall⟩, rfl⟩⟩
    rintro rfl
    exact absurd hleast (by decide)
  barred u h := by
    have hat : utf16.is '@' u = true := h
    simp [typedHandle, hat]
  stops u h := handle_of_channel (not_name_of_sign h)

theorem channel_lawful : (typedChannel toLowerCase names).Lawful where
  named := by
    intro offset t rest gs h
    obtain ⟨_, t₁, _, _, rfl, rfl, hone, hafter⟩ := Pattern.matches_seqs_cons.mp h
    obtain ⟨⟨u, rfl, hu⟩, rfl⟩ := Pattern.matches_one.mp hone
    obtain ⟨t₂, t₃, _, _, rfl, rfl, hrep, hafter'⟩ := Pattern.matches_seqs_cons.mp hafter
    obtain ⟨rfl, rfl⟩ := Pattern.matches_seqs_nil.mp hafter'
    obtain ⟨hrun, rfl⟩ := Pattern.matches_rep.mp hrep
    refine ⟨rfl, List.cons_ne_nil _ _, ?_, fun offset' rest' => ?_⟩
    · intro v hv
      rw [List.append_nil, List.singleton_append] at hv
      obtain rfl | hv := List.mem_cons.mp hv
      · have hname : channelUnit v = true := by simp [channelUnit, handleUnit, hu]
        exact hname
      · exact hrun.2.2 v hv
    · exact Pattern.matches_seqs_cons.mpr ⟨[u], t₂ ++ [], [], [], rfl, rfl,
        Pattern.matches_one.mpr ⟨⟨u, rfl, hu⟩, rfl⟩, Pattern.matches_seqs_cons.mpr ⟨t₂, [], [], [], rfl, rfl,
          Pattern.matches_rep.mpr ⟨hrun, rfl⟩, Pattern.matches_seqs_nil.mpr ⟨rfl, rfl⟩⟩⟩
  barred u h := by
    have hsharp : utf16.is '#' u = true := h
    simp [typedChannel, hsharp]
  stops u h := not_name_of_sign h

theorem mem_kinds : kind ∈ kinds toLowerCase names ↔
    kind = typedHandle toLowerCase names ∨ kind = typedChannel toLowerCase names := by
  simp [kinds]

theorem lawful_of_mem (h : kind ∈ kinds toLowerCase names) : kind.Lawful := by
  obtain rfl | rfl := mem_kinds.mp h
  · exact handle_lawful
  · exact channel_lawful

theorem sign_of_mem (h : kind ∈ kinds toLowerCase names) : kind.sign = '@' ∨ kind.sign = '#' := by
  obtain rfl | rfl := mem_kinds.mp h
  · exact .inl rfl
  · exact .inr rfl

/-- A sign says the kind. -/
theorem kind_unique (h : kind ∈ kinds toLowerCase names) (h' : kind' ∈ kinds toLowerCase names)
    {u : UInt16} (hu : utf16.is kind.sign u = true) (hu' : utf16.is kind'.sign u = true) : kind = kind' := by
  have hvalue := of_decide_eq_true hu
  have hvalue' := of_decide_eq_true hu'
  have hne : ('@' : Char).toNat ≠ ('#' : Char).toNat := by decide
  obtain rfl | rfl := mem_kinds.mp h <;> obtain rfl | rfl := mem_kinds.mp h'
  · rfl
  · exact absurd (hvalue.symm.trans hvalue') hne
  · exact absurd (hvalue'.symm.trans hvalue) hne
  · rfl

/-! ## What is replaced -/

variable {text : Units} {start start' stop stop' : Nat} {ref ref' : MentionRef}

/-- What is replaced is what is in somebody's name. -/
theorem mem_replacements {r : Replacement} :
    r ∈ replacements toLowerCase names text ↔ Named toLowerCase names text r.start r.stop r.ref := by
  rw [replacements, List.mem_insertionSort, List.mem_filterMap]
  constructor
  · rintro ⟨⟨m, ref⟩, hmem, hr⟩
    obtain ⟨kind, hkind, hm⟩ := List.mem_flatMap.mp hmem
    obtain ⟨m', hm', heq⟩ := List.mem_map.mp hm
    obtain ⟨rfl, rfl⟩ := Prod.mk.inj heq
    obtain ⟨ref, href, hplace⟩ := Option.bind_eq_some_iff.mp hr
    obtain ⟨houtside, hsome⟩ := Option.ite_none_left_eq_some.mp hplace
    obtain rfl := Option.some.inj hsome
    exact ⟨kind, hkind, m', hm', href, Bool.eq_false_iff.mpr houtside, rfl, rfl⟩
  · rintro ⟨kind, hkind, m, hm, href, houtside, hstart, hstop⟩
    refine ⟨(m, kind.sole (taken 2 m)), List.mem_flatMap.mpr ⟨kind, hkind, List.mem_map.mpr ⟨m, hm, rfl⟩⟩, ?_⟩
    dsimp only
    rw [href, Option.bind_some, houtside, if_neg Bool.false_ne_true, ← hstop, ← hstart]

/-- A handle in somebody's name stands where it is said to. -/
theorem stands_of_named (h : Named toLowerCase names text start stop ref) :
    ∃ kind ∈ kinds toLowerCase names, ∃ name, kind.Stands text start stop name ∧ kind.sole name = some ref := by
  obtain ⟨kind, hkind, m, hm, href, -, rfl, rfl⟩ := h
  exact ⟨kind, hkind, _, (Kind.stands_of_mem (lawful_of_mem hkind) hm).1, href⟩

theorem named_unique (h : Named toLowerCase names text start stop ref)
    (h' : Named toLowerCase names text start stop' ref') : stop = stop' ∧ ref = ref' := by
  obtain ⟨kind, hkind, name, hstands, href⟩ := stands_of_named h
  obtain ⟨kind', hkind', name', hstands', href'⟩ := stands_of_named h'
  obtain ⟨u, hu, hsign⟩ := hstands.sign_at
  obtain ⟨v, hv, hsign'⟩ := hstands'.sign_at
  obtain rfl := Option.some.inj (hu.symm.trans hv)
  obtain rfl := kind_unique hkind hkind' hsign hsign'
  obtain ⟨hstop, rfl⟩ := hstands.unique (lawful_of_mem hkind) hstands'
  exact ⟨hstop, Option.some.inj (href.symm.trans href')⟩

theorem named_apart (h : Named toLowerCase names text start stop ref)
    (h' : Named toLowerCase names text start' stop' ref') (hne : start ≠ start') : stop ≤ start' ∨
      stop' ≤ start := by
  obtain ⟨kind, hkind, name, hstands, -⟩ := stands_of_named h
  obtain ⟨kind', hkind', name', hstands', -⟩ := stands_of_named h'
  exact hstands.apart (lawful_of_mem hkind) (lawful_of_mem hkind') ⟨sign_of_mem hkind,
    sign_of_mem hkind'⟩ hstands' hne

theorem named_lt (h : Named toLowerCase names text start stop ref) : start < stop ∧ stop ≤ text.length := by
  obtain ⟨kind, -, name, hstands, -⟩ := stands_of_named h
  exact hstands.lt

theorem map_filterMap_sublist {α β γ : Type} {f : α → Option β} {g : β → γ} {h : α → γ}
    (hsame : ∀ a b, f a = some b → g b = h a) (l : List α) : ((l.filterMap f).map g).Sublist (l.map h) := by
  induction l with
  | nil => exact .slnil
  | cons a l ih =>
    rw [List.map_cons]
    cases hfa : f a with
    | none =>
      rw [List.filterMap_cons_none hfa]
      exact ih.cons _
    | some b =>
      rw [List.filterMap_cons_some hfa, List.map_cons, hsame a b hfa]
      exact ih.cons_cons _

theorem nodup_signs (hkind : kind ∈ kinds toLowerCase names) (text : Units) :
    ((kind.pattern.matchAll text).map signAt).Nodup := by
  have hlawful := lawful_of_mem hkind
  have hsorted : (kind.pattern.matchAll text).Pairwise fun m m' => m.start + m.text.length ≤ m'.start :=
    Pattern.pairwise_matchAllFrom (fun _ _ _ _ h => Kind.ne_nil_of_matches hlawful h) 0
  refine List.pairwise_map.mpr (hsorted.imp_of_mem fun {m m'} hm hm' hle => ?_)
  obtain ⟨-, -, hlt⟩ := Kind.stands_of_mem hlawful hm
  obtain ⟨-, hge, -⟩ := Kind.stands_of_mem hlawful hm'
  omega

/-- The replacements start at different places. -/
theorem nodup_starts : ((replacements toLowerCase names text).map (·.start)).Nodup := by
  have hsigns : (((kinds toLowerCase names).flatMap fun kind =>
      (kind.pattern.matchAll text).map fun m => (m, kind.sole (taken 2 m))).map fun x => signAt x.1).Nodup := by
    have hhandle : typedHandle toLowerCase names ∈ kinds toLowerCase names := mem_kinds.mpr (.inl rfl)
    have hchannel : typedChannel toLowerCase names ∈ kinds toLowerCase names := mem_kinds.mpr (.inr rfl)
    simp only [kinds, List.flatMap_cons, List.flatMap_nil, List.append_nil, List.map_append, List.map_map,
      Function.comp_def]
    refine List.nodup_append.mpr ⟨nodup_signs hhandle text, nodup_signs hchannel text, ?_⟩
    rintro start hm start' hm' rfl
    obtain ⟨m, hmem, rfl⟩ := List.mem_map.mp hm
    obtain ⟨m', hmem', hsame⟩ := List.mem_map.mp hm'
    obtain ⟨u, hu, hsign⟩ := (Kind.stands_of_mem (lawful_of_mem hhandle) hmem).1.sign_at
    obtain ⟨v, hv, hsign'⟩ := (Kind.stands_of_mem (lawful_of_mem hchannel) hmem').1.sign_at
    rw [hsame] at hv
    obtain rfl := Option.some.inj (hu.symm.trans hv)
    have hvalue := of_decide_eq_true hsign
    have hvalue' := of_decide_eq_true hsign'
    have hne : ('@' : Char).toNat ≠ ('#' : Char).toNat := by decide
    exact hne (hvalue.symm.trans hvalue')
  rw [replacements]
  refine ((List.perm_insertionSort _ _).map _).nodup_iff.mpr ((map_filterMap_sublist ?_ _).nodup hsigns)
  rintro ⟨m, ref⟩ r hr
  obtain ⟨ref, -, hplace⟩ := Option.bind_eq_some_iff.mp hr
  obtain rfl := Option.some.inj (Option.ite_none_left_eq_some.mp hplace).2
  rfl

/-- Each replacement stops before the next starts. -/
theorem replacements_sorted : (replacements toLowerCase names text).Pairwise fun r r' => r.stop ≤ r'.start := by
  have hsorted : (replacements toLowerCase names text).Pairwise fun r r' => r.start ≤ r'.start := by
    exact pairwise_sorted _ _
  have hdistinct := List.pairwise_map.mp (@nodup_starts toLowerCase names text)
  refine (hsorted.and hdistinct).imp_of_mem fun {r r'} hr hr' h => ?_
  have hnamed := mem_replacements.mp hr
  have hnamed' := mem_replacements.mp hr'
  obtain hapart | hapart := named_apart hnamed hnamed' h.2
  · exact hapart
  · have hlt := (named_lt hnamed').1
    omega

/-! ## The rest of the text -/

/-- What no replacement has anything of is still there. -/
theorem leftWhole_iff (hle : start ≤ stop) : LeftWhole toLowerCase names text start stop ↔
    ∀ first last ref, Named toLowerCase names text first last ref → stop ≤ first ∨ last ≤ start := by
  constructor
  · rintro ⟨hapart, -⟩ first last ref hnamed
    exact hapart ⟨first, last, ref⟩ (mem_replacements.mpr hnamed)
  · intro h
    have hapart : ∀ r ∈ replacements toLowerCase names text, stop ≤ r.start ∨ r.stop ≤ start :=
      fun r hr => h _ _ _ (mem_replacements.mp hr)
    refine ⟨hapart, infix_spliceFrom _ (Nat.zero_le _) hle fun x hx => ?_⟩
    obtain ⟨r, hr, rfl⟩ := List.mem_map.mp hx
    exact hapart r hr

theorem put_back : spliceFrom text 0 ((replacements toLowerCase names text).map fun r =>
    (r.start, r.stop, slice text r.start r.stop)) = text := by
  have hspans : ∀ x ∈ (replacements toLowerCase names text).map fun r => (r.start, r.stop),
      0 ≤ x.1 ∧ x.1 ≤ x.2 := by
    intro x hx
    obtain ⟨r, hr, rfl⟩ := List.mem_map.mp hx
    exact ⟨Nat.zero_le _, Nat.le_of_lt (named_lt (mem_replacements.mp hr)).1⟩
  have hsame := spliceFrom_same text _ (List.pairwise_map.mpr replacements_sorted) hspans
  rw [List.map_map, List.drop_zero] at hsame
  exact hsame

theorem isChannelOrHere_of_soleMention {handle : Units} {members : List Member} {groups : List Group}
    (h : soleMention toLowerCase handle members groups = some ref) :
    isChannelOrHere (toLowerCase handle) = false := by
  rw [soleMention] at h
  split at h
  · exact nomatch h
  · next hword => exact Bool.eq_false_iff.mpr hword

theorem handle_replaced (h : Named toLowerCase names text start stop ref) :
    ∃ sign name, slice text start stop = sign :: name ∧
      (utf16.is '@' sign = true ∧ soleMention toLowerCase name names.members names.groups = some ref ∧
          isChannelOrHere (toLowerCase name) = false ∨
        utf16.is '#' sign = true ∧ soleChannel toLowerCase name names.channels = some ref) := by
  obtain ⟨kind, hkind, name, hstands, href⟩ := stands_of_named h
  obtain ⟨sign, hsign, hslice⟩ := hstands.slice_eq
  refine ⟨sign, name, hslice, ?_⟩
  obtain rfl | rfl := mem_kinds.mp hkind
  · exact .inl ⟨hsign, href, isChannelOrHere_of_soleMention href⟩
  · exact .inr ⟨hsign, href⟩

/-! ### Tokens -/

theorem token_of_mentionTokenAt {s : Units} {length : Nat} (h : mentionTokenAt s = some (ref, length)) :
    ∃ token : Token, ∃ rest, s = utf16.encode token.text ++ rest ∧ length = (utf16.encode token.text).length := by
  obtain ⟨⟨t, gs⟩, hfirst, heq⟩ := Option.map_eq_some_iff.mp h
  obtain ⟨rest, hs, hmatches⟩ := Pattern.matches_of_first hfirst
  obtain ⟨t₁, t₂, gs₁, gs₂, ht, hgs, hstart, hafter⟩ := Pattern.matches_seqs_cons.mp hmatches
  obtain ⟨⟨rfl, -⟩, rfl⟩ := Pattern.matches_start.mp hstart
  obtain ⟨t₃, t₄, gs₃, gs₄, rfl, rfl, htoken, hafter'⟩ := Pattern.matches_seqs_cons.mp hafter
  obtain ⟨rfl, rfl⟩ := Pattern.matches_seqs_nil.mp hafter'
  obtain ⟨token, rfl, -⟩ := matches_mentionToken.mp htoken
  rw [List.nil_append, List.append_nil] at ht
  exact ⟨token, rest, by rw [hs, ← ht], by rw [← (Prod.mk.inj heq).2, ← ht]⟩

/-- A character of an ID may be in a channel's name. -/
theorem isChannelNameChar_of_id {id : Text} (h : isID id = true) {c : Char} (hc : c ∈ id) :
    isChannelNameChar c = true := by
  rw [isID, Bool.and_eq_true, List.all_eq_true] at h
  obtain ⟨i, hi, rfl⟩ := List.getElem_of_mem hc
  have hplace := h.2 (id[i], i) (List.mem_zipIdx_iff_getElem?.mpr (List.getElem?_eq_getElem hi))
  dsimp only at hplace
  rw [idCharAt] at hplace
  rw [isChannelNameChar, isHandleChar]
  split at hplace
  · rw [hplace, Bool.or_true]
  · rw [isHex, Bool.or_eq_true, Bool.and_eq_true, decide_eq_true_eq, decide_eq_true_eq] at hplace
    obtain hdigit | ⟨hlow, hhigh⟩ := hplace
    · rw [hdigit, Bool.or_true, Bool.true_or, Bool.true_or]
    · have hletter : id[i] ≤ 'z' := Char.le_trans hhigh (by decide)
      simp [hlow, hletter]

theorem not_sign_of_name {c : Char} (h : isChannelNameChar c = true) : c ≠ '@' ∧ c ≠ '#' := by
  constructor
  · rintro rfl
    exact absurd h (by decide)
  · rintro rfl
    exact absurd h (by decide)

theorem isChannelNameChar_of_nameChar {kind : TokenKind} {c : Char} (h : kind.nameChar c = true) :
    isChannelNameChar c = true := by
  cases kind with
  | person => exact Bool.or_eq_true_iff.mpr (.inl h)
  | group => exact Bool.or_eq_true_iff.mpr (.inl h)
  | channel => exact h

/-- Nor does a name go on with what a token has around its parts. -/
theorem not_runsOn_of_mark (hkind : kind ∈ kinds toLowerCase names) {u : UInt16}
    (h : utf16.is '<' u = true ∨ utf16.is ':' u = true) : kind.runsOn u = false := by
  have hunit : u = 60 ∨ u = 58 := h.imp (fun hu => is_inj hu (by decide)) fun hu => is_inj hu (by decide)
  have hname : channelUnit u = false := by obtain rfl | rfl := hunit <;> decide
  obtain rfl | rfl := mem_kinds.mp hkind
  · exact handle_of_channel hname
  · exact hname

theorem char_of_is {c d : Char} {u : UInt16} (h : utf16.is c u = true) (h' : utf16.is d u = true) : c = d :=
  Char.toNat_inj.mp ((of_decide_eq_true h).symm.trans (of_decide_eq_true h'))

theorem channelUnit_of_is {c : Char} {u : UInt16} (hc : isChannelNameChar c = true) (hu : utf16.is c u = true) :
    channelUnit u = true := by
  have hplain : Encoding.IsPlain c := @Written.isPlain_of_nameChar .channel c hc
  have hseen : utf16.seenUnit u = c := by
    rw [utf16.is_eq hplain] at hu
    exact of_decide_eq_true hu
  rw [← hseen, ← Written.channel_class] at hc
  simp only [channelUnit, handleUnit, alnumUnit, Bool.or_eq_true] at hc ⊢
  tauto

theorem channel_name_length {name : Units} (h : (typedChannel toLowerCase names).name.Matches 0 name [] []) :
    name.length ≤ 32 := by
  obtain ⟨_, t₁, _, _, rfl, -, hone, hafter⟩ := Pattern.matches_seqs_cons.mp h
  obtain ⟨⟨u, rfl, -⟩, -⟩ := Pattern.matches_one.mp hone
  obtain ⟨t₂, t₃, _, _, rfl, -, hrep, hafter'⟩ := Pattern.matches_seqs_cons.mp hafter
  obtain ⟨rfl, -⟩ := Pattern.matches_seqs_nil.mp hafter'
  have hmost := (Pattern.matches_rep.mp hrep).1.2.1 31 rfl
  rw [List.append_nil, List.length_append, List.length_singleton]
  omega

/-- What a token has after its opening's sign. -/
theorem token_tail (token : Token) : ∃ sign tail, token.text = '<' :: sign :: tail ∧
    (∀ c ∈ tail, c ≠ '@' ∧ c ≠ '#') ∧
    (sign = '@' ∧ tail[1]? = some ':' ∨ sign = '#' ∧ ∃ beyond, tail = token.id ++ beyond) := by
  have hid : ∀ c ∈ token.id, c ≠ '@' ∧ c ≠ '#' :=
    fun c hc => not_sign_of_name (isChannelNameChar_of_id token.id_ok hc)
  have hhandle : ∀ c ∈ token.handle, c ≠ '@' ∧ c ≠ '#' := fun c hc =>
    not_sign_of_name (isChannelNameChar_of_nameChar (token.handle_ok.2.2 c hc))
  have hrest : ∀ c ∈ token.id ++ ':' :: token.handle ++ ['>'], c ≠ '@' ∧ c ≠ '#' := by
    intro c hc
    simp only [List.mem_append, List.mem_cons, List.not_mem_nil, or_false] at hc
    obtain (hc | rfl | hc) | rfl := hc
    · exact hid c hc
    · decide
    · exact hhandle c hc
    · decide
  have htext : ∀ kind, token.kind = kind → token.text = kind.opening ++
    (token.id ++ ':' :: token.handle ++ ['>']) := by
    rintro kind rfl
    rw [Token.text, tokenText]
    simp only [List.append_assoc]
  cases hkind : token.kind with
  | person =>
    refine ⟨'@', 'u' :: ':' :: (token.id ++ ':' :: token.handle ++ ['>']), htext _ hkind, ?_, .inl ⟨rfl, rfl⟩⟩
    exact List.forall_mem_cons.mpr ⟨by decide, List.forall_mem_cons.mpr ⟨by decide, hrest⟩⟩
  | group =>
    refine ⟨'@', 'g' :: ':' :: (token.id ++ ':' :: token.handle ++ ['>']), htext _ hkind, ?_, .inl ⟨rfl, rfl⟩⟩
    exact List.forall_mem_cons.mpr ⟨by decide, List.forall_mem_cons.mpr ⟨by decide, hrest⟩⟩
  | channel =>
    exact ⟨'#', _, htext _ hkind, hrest, .inr ⟨rfl, _, List.append_assoc _ _ _⟩⟩

/-- The unit of a text at a place of a token in it. -/
theorem unit_at {token : Token} {rest : Units} (h : text.drop start = utf16.encode token.text ++ rest) {j : Nat}
    {c : Char} (hc : token.text[j]? = some c) : ∃ u, text[start + j]? = some u ∧ utf16.is c u = true := by
  have hplain : Encoding.IsPlain c := Written.plain_text token c (List.mem_of_getElem? hc)
  have hseen := utf16.seen_encode (Written.plain_text token)
  have hj : j < (utf16.encode token.text).length := by
    rw [utf16.length_encode (Written.plain_text token)]
    exact (List.getElem?_eq_some_iff.mp hc).1
  have hunit : text[start + j]? = (utf16.encode token.text)[j]? := by
    rw [← List.getElem?_drop, h, List.getElem?_append_left hj]
  rw [← hseen, Encoding.seen, List.getElem?_map, Option.map_eq_some_iff] at hc
  obtain ⟨u, hu, rfl⟩ := hc
  exact ⟨u, hunit.trans hu, by rw [utf16.is_eq hplain]; exact decide_eq_true rfl⟩

/-- A handle in somebody's name has nothing of a token. -/
theorem token_apart {token : Token} {rest : Units} {first last : Nat}
    (h : text.drop start = utf16.encode token.text ++ rest)
      (hnamed : Named toLowerCase names text first last ref) :
    start + (utf16.encode token.text).length ≤ first ∨ last ≤ start := by
  obtain ⟨kind, hkind, name, hstands, -⟩ := stands_of_named hnamed
  obtain ⟨sign, tail, htext, htail, hshape⟩ := token_tail token
  have hlawful := lawful_of_mem hkind
  have hkindSign := sign_of_mem hkind
  obtain ⟨u, hu, hsign⟩ := hstands.sign_at
  rw [utf16.length_encode (Written.plain_text token)]
  by_contra hover
  obtain hlt | rfl | hgt := Nat.lt_trichotomy first start
  · -- the handle would go on over the token's opening
    obtain ⟨v, hv, hopen⟩ := unit_at h (j := 0) (by rw [htext]; rfl)
    obtain ⟨w, hw, hrun⟩ := hstands.name_at hlawful hlt (by omega)
    obtain rfl := Option.some.inj (hv.symm.trans hw)
    rw [not_runsOn_of_mark hkind (.inl hopen)] at hrun
    cases hrun
  · -- its sign would be the opening
    obtain ⟨v, hv, hopen⟩ := unit_at h (j := 0) (by rw [htext]; rfl)
    obtain rfl := Option.some.inj (hu.symm.trans hv)
    have hsame := char_of_is hsign hopen
    rw [hsame] at hkindSign
    exact absurd hkindSign (by decide)
  · obtain ⟨j, rfl⟩ : ∃ j, first = start + (j + 1) := ⟨first - start - 1, by omega⟩
    have hj : j + 1 < token.text.length := by omega
    obtain ⟨v, hv, hthere⟩ := unit_at h (List.getElem?_eq_getElem hj)
    obtain rfl := Option.some.inj (hu.symm.trans hv)
    have hsame := char_of_is hthere hsign
    cases j with
    | succ j =>
      -- no sign stands further on in a token
      have hmem : token.text[j + 1 + 1] ∈ tail := by
        simp only [htext, List.getElem_cons_succ]
        exact List.getElem_mem _
      obtain ⟨hat, hsharp⟩ := htail _ hmem
      rw [hsame] at hat hsharp
      exact hkindSign.elim hat hsharp
    | zero =>
      have hopening : token.text[0 + 1] = sign := by simp only [htext, List.getElem_cons_succ,
        List.getElem_cons_zero]
      rw [hopening] at hsame
      have hlength := hstands.length_eq
      obtain ⟨rfl, hcolon⟩ | ⟨rfl, beyond, rfl⟩ := hshape
      · -- an "@" with one letter after it
        obtain rfl | rfl := mem_kinds.mp hkind
        · have hthree := (Pattern.matches_rep.mp hstands.named).1.1
          obtain ⟨v, hv, hmark⟩ := unit_at h (j := 3) (by rw [htext]; exact hcolon)
          obtain ⟨w, hw, hrun⟩ := hstands.name_at (i := start + 3) hlawful (by omega) (by omega)
          obtain rfl := Option.some.inj (hv.symm.trans hw)
          rw [not_runsOn_of_mark hkind (.inr hmark)] at hrun
          cases hrun
        · exact absurd (show '@' = '#' from hsame) (by decide)
      · -- a "#" with an ID after it
        obtain rfl | rfl := mem_kinds.mp hkind
        · exact absurd (show '#' = '@' from hsame) (by decide)
        · have hmost := channel_name_length hstands.named
          have hid : name.length < token.id.length := by
            rw [token.id_length]
            omega
          obtain ⟨v, hv, hunit⟩ := unit_at h (j := name.length + 1 + 1) (c := token.id[name.length]) (by
            rw [htext, List.getElem?_cons_succ, List.getElem?_cons_succ, List.getElem?_append_left hid,
              List.getElem?_eq_getElem hid])
          have hstop : start + (name.length + 1 + 1) = last := by omega
          rw [hstop] at hv
          have hrun := hstands.not_runsOn_at_stop hv
          have hname := channelUnit_of_is (isChannelNameChar_of_id token.id_ok (List.getElem_mem hid)) hunit
          rw [show channelUnit v = false from hrun] at hname
          cases hname

/-- The rest of a text is left alone exactly when no handle in somebody's name runs into an address. -/
theorem leavesTheRest_iff : LeavesTheRest toLowerCase names text ↔ ¬RunsIntoAddress toLowerCase names text := by
  have haddress : ∀ a ∈ addresses text, a.1 ≤ a.2 := by
    intro a ha
    obtain ⟨m, -, rfl⟩ := List.mem_map.mp ha
    exact Nat.le_add_right _ _
  constructor
  · rintro h ⟨start, stop, ref, hnamed, a, ha, hfrom, hto⟩
    have hle := haddress a ha
    have hapart := (leftWhole_iff hle).mp (h.addresses a ha) _ _ _ hnamed
    omega
  · intro h
    refine ⟨put_back, fun r hr => handle_replaced (mem_replacements.mp hr), ?_, ?_⟩
    · intro start ref length hfound
      obtain ⟨token, rest, htext, rfl⟩ := token_of_mentionTokenAt hfound
      exact (leftWhole_iff (Nat.le_add_right _ _)).mpr fun first last ref hnamed => token_apart htext hnamed
    · intro a ha
      refine (leftWhole_iff (haddress a ha)).mpr fun first last ref hnamed => ?_
      have houtside : ¬(a.1 ≤ first ∧ first < a.2) := by
        obtain ⟨kind, -, m, -, -, hout, rfl, -⟩ := hnamed
        rintro ⟨hfrom, hto⟩
        have hin : inAddress text (signAt m) = true := by
          refine List.any_eq_true.mpr ⟨a, ha, ?_⟩
          rw [Bool.and_eq_true, decide_eq_true_eq, decide_eq_true_eq]
          exact ⟨hfrom, hto⟩
        rw [hin] at hout
        exact nomatch hout
      by_contra hover
      exact h ⟨first, last, ref, hnamed, a, ha, by omega, by omega⟩

/-! ## The handle just ended -/

/-- What `typedMentionEnding` looks for in one kind's matches. -/
theorem ending_of_kind {kind : Kind} {typed before : Units} {found : Ending} :
    ((kind.pattern.matchAll typed).findSome? fun m =>
      let length := (taken 2 m).length + 1
      if signAt m + length ≠ typed.length then none
      else
        (if inAddress before (signAt m) then none else kind.sole (taken 2 m)).map fun ref =>
          (⟨signAt m, length, ref⟩ : Ending)) = some found →
      ∃ m ∈ kind.pattern.matchAll typed, kind.sole (taken 2 m) = some found.ref ∧
        inAddress before (signAt m) = false ∧ found.start = signAt m ∧ found.length = (taken 2 m).length + 1 ∧
          found.start + found.length = typed.length := by
  intro h
  obtain ⟨m, hm, hfound⟩ := List.exists_of_findSome?_eq_some h
  obtain ⟨hplace, hsome⟩ := Option.ite_none_left_eq_some.mp hfound
  obtain ⟨ref, href, rfl⟩ := Option.map_eq_some_iff.mp hsome
  obtain ⟨houtside, href⟩ := Option.ite_none_left_eq_some.mp href
  exact ⟨m, hm, href, Bool.eq_false_iff.mpr houtside, rfl, rfl, not_not.mp hplace⟩

theorem named_of_ending {found : Ending} (h : typedMentionEnding toLowerCase names text = some found) :
    Named toLowerCase names text found.start (found.start + found.length) found.ref ∧
      found.start + found.length + 1 = text.length := by
  obtain rfl | ⟨typed, c, rfl⟩ := List.eq_nil_or_concat' text
  · exact nomatch h
  · rw [typedMentionEnding, List.getLast?_concat] at h
    dsimp only at h
    rw [List.dropLast_concat] at h
    obtain ⟨kind, hkind, hfound⟩ := List.exists_of_findSome?_eq_some h
    obtain ⟨hstops, hfound⟩ := Option.ite_none_left_eq_some.mp hfound
    obtain ⟨m, hm, href, houtside, hstart, hlength, hend⟩ := ending_of_kind hfound
    rw [← Kind.matchAll_snoc (lawful_of_mem hkind) (Bool.eq_false_iff.mpr hstops)] at hm
    refine ⟨⟨kind, hkind, m, hm, href, houtside, hstart, ?_⟩, ?_⟩
    · rw [hstart, hlength]
      omega
    · rw [List.length_append, List.length_singleton]
      omega

theorem exists_ending (h : Named toLowerCase names text start stop ref) (hend : stop + 1 = text.length) :
    ∃ found, typedMentionEnding toLowerCase names text = some found := by
  obtain ⟨typed, c, rfl⟩ := (List.eq_nil_or_concat' text).resolve_left (by
    rintro rfl
    exact absurd hend (Nat.succ_ne_zero _))
  rw [List.length_append, List.length_singleton] at hend
  have hstands := stands_of_named h
  obtain ⟨kind, hkind, m, hm, href, houtside, rfl, rfl⟩ := h
  have hlawful := lawful_of_mem hkind
  -- the unit after the handle does not go on with it
  have hstops : kind.runsOn c = false := by
    refine (Kind.stands_of_mem hlawful hm).1.not_runsOn_at_stop ?_
    rw [Nat.succ.inj hend, List.getElem?_concat_length]
  rw [Kind.matchAll_snoc hlawful hstops] at hm
  cases hnone : typedMentionEnding toLowerCase names (typed ++ [c]) with
  | some found => exact ⟨found, rfl⟩
  | none =>
    rw [typedMentionEnding, List.getLast?_concat] at hnone
    dsimp only at hnone
    rw [List.dropLast_concat] at hnone
    have hkindNone := List.findSome?_eq_none_iff.mp hnone kind hkind
    rw [hstops, if_neg Bool.false_ne_true] at hkindNone
    have hmNone := List.findSome?_eq_none_iff.mp hkindNone m hm
    rw [if_neg (by omega), houtside, if_neg Bool.false_ne_true, href] at hmNone
    exact nomatch hmNone

/-- The phone names the handle in somebody's name that ends just before the text's last unit. -/
theorem typedMentionEnding_iff {found : Ending} : typedMentionEnding toLowerCase names text = some found ↔
    Named toLowerCase names text found.start (found.start + found.length) found.ref ∧
      found.start + found.length + 1 = text.length := by
  refine ⟨named_of_ending, fun ⟨hnamed, hend⟩ => ?_⟩
  obtain ⟨found', hfound'⟩ := exists_ending hnamed hend
  obtain ⟨hnamed', hend'⟩ := named_of_ending hfound'
  have hlt := (named_lt hnamed).1
  have hlt' := (named_lt hnamed').1
  have hstart : found.start = found'.start := by
    by_contra hne
    obtain hapart | hapart := named_apart hnamed hnamed' hne <;> omega
  have hlength : found.length = found'.length := by omega
  have href : found.ref = found'.ref := by
    rw [hstart, hlength] at hnamed
    exact (named_unique hnamed hnamed').2
  rw [hfound']
  cases found
  cases found'
  simp_all

theorem lastWidth_cases (text : Units) : text = [] ∨ lastWidth text = 1 ∨
    lastWidth text = 2 ∧ ∃ front high low, text = front ++ [high, low] ∧ isHighSurrogate high = true ∧
      isLowSurrogate low = true := by
  rw [lastWidth]
  split
  · next low high front hreverse =>
    split
    · next hpair =>
      obtain ⟨hhigh, hlow⟩ := Bool.and_eq_true_iff.mp hpair
      refine .inr (.inr ⟨rfl, front.reverse, high, low, ?_, hhigh, hlow⟩)
      rw [← List.reverse_reverse text, hreverse]
      simp
    · exact .inr (.inl rfl)
  · exact .inr (.inl rfl)
  · next hnil => exact .inl (List.reverse_eq_nil_iff.mp hnil)

theorem value_of_channelUnit {u : UInt16} (h : channelUnit u = true) : u.toNat < 128 := by
  have hvalue : utf16.value u = u.toNat := rfl
  simp only [channelUnit, handleUnit, alnumUnit, Encoding.between, Encoding.is, Bool.or_eq_true, Bool.and_eq_true,
    decide_eq_true_eq, hvalue, Char.reduceToNat] at h
  omega

/-- No name ends with the first half of a surrogate pair. -/
theorem not_named_before_low {front : Units} {high low : UInt16} (htext : text = front ++ [high, low])
    (hhigh : isHighSurrogate high = true) (h : Named toLowerCase names text start stop ref)
    (hend : stop + 1 = text.length) : False := by
  obtain ⟨kind, hkind, name, hstands, -⟩ := stands_of_named h
  have hlt := hstands.lt
  have hname := (lawful_of_mem hkind).named hstands.named
  have hpos := List.length_pos_of_ne_nil hname.2.1
  have hlength := hstands.length_eq
  rw [htext, List.length_append, List.length_cons, List.length_singleton] at hend
  obtain ⟨u, hu, hrun⟩ := hstands.name_at (i := front.length) (lawful_of_mem hkind) (by omega) (by omega)
  rw [htext, List.getElem?_append_right (Nat.le_refl _), Nat.sub_self, List.getElem?_cons_zero] at hu
  obtain rfl := Option.some.inj hu
  have hwide : channelUnit high = false := by
    rw [isHighSurrogate, Bool.and_eq_true, decide_eq_true_eq, decide_eq_true_eq, UInt16.le_iff_toNat_le] at hhigh
    refine Bool.eq_false_iff.mpr fun hname => ?_
    have hsmall := value_of_channelUnit hname
    have hbound : (0xD800 : UInt16).toNat = 0xD800 := rfl
    omega
  obtain rfl | rfl := mem_kinds.mp hkind
  · exact absurd (handle_of_channel hwide) (by rw [show handleUnit high = true from hrun]; exact Bool.noConfusion)
  · exact absurd hwide (by rw [show channelUnit high = true from hrun]; exact Bool.noConfusion)

/-- **The phone and sending agree exactly when no handle in somebody's name ends before a surrogate pair.** -/
theorem phoneAgrees_iff : PhoneAgrees toLowerCase names text ↔ ¬EndsBeforePair toLowerCase names text := by
  obtain rfl | hone | ⟨htwo, front, high, low, htext, hhigh, hlow⟩ := lastWidth_cases text
  · have hnone : ∀ start stop ref, ¬Named toLowerCase names [] start stop ref := fun start stop ref hnamed =>
      Nat.not_lt_zero _ (Nat.lt_of_lt_of_le (named_lt hnamed).1 (named_lt hnamed).2)
    refine iff_of_true (fun found => iff_of_false ?_ ?_) ?_
    · exact fun h => hnone _ _ _ (named_of_ending h).1
    · rintro ⟨r, hr, -⟩
      exact hnone _ _ _ (mem_replacements.mp hr)
    · rintro ⟨start, stop, ref, hnamed, -⟩
      exact hnone _ _ _ hnamed
  · refine iff_of_true (fun found => typedMentionEnding_iff.trans ?_) ?_
    · rw [hone]
      constructor
      · rintro ⟨hnamed, hend⟩
        exact ⟨⟨_, _, _⟩, mem_replacements.mpr hnamed, hend, rfl, rfl, rfl⟩
      · rintro ⟨⟨start, stop, ref⟩, hr, hend, rfl, rfl, rfl⟩
        exact ⟨mem_replacements.mp hr, hend⟩
    · rintro ⟨start, stop, ref, -, htwo, -⟩
      rw [hone] at htwo
      exact absurd htwo (by decide)
  · constructor
    · rintro h ⟨start, stop, ref, hnamed, -, hend⟩
      have hlt := (named_lt hnamed).1
      have hfound := (h ⟨start, stop - start, ref⟩).mpr
        ⟨⟨start, stop, ref⟩, mem_replacements.mpr hnamed, by rw [htwo]; exact hend, rfl, by dsimp only; omega,
          rfl⟩
      have hlast := (named_of_ending hfound).2
      dsimp only at hlast
      omega
    · intro h found
      refine iff_of_false (fun hfound => ?_) ?_
      · obtain ⟨hnamed, hend⟩ := named_of_ending hfound
        exact not_named_before_low htext hhigh hnamed hend
      · rintro ⟨r, hr, hend, -⟩
        rw [htwo] at hend
        exact h ⟨_, _, _, mem_replacements.mp hr, htwo, hend⟩

end Kinds

/-- **Both are as asked exactly when no handle in somebody's name ends just before a last character of two units,
and none runs into an address.** -/
theorem typed_mentions (toLowerCase : Units → Units) (names : MentionNames) (text : Units) :
    (PhoneAgrees toLowerCase names text ∧ LeavesTheRest toLowerCase names text) ↔
      ¬EndsBeforePair toLowerCase names text ∧ ¬RunsIntoAddress toLowerCase names text := by
  rw [phoneAgrees_iff, leavesTheRest_iff]

/-- A handle, and a character of two units after it. -/
def beforeSmile : Units := utf16.encode "@ann😀".toList

def annAlone : MentionNames := ⟨[⟨utf16.encode ['1'], utf16.encode "ann".toList⟩], [], []⟩

/-- Sending replaces the handle; the phone does not name it. -/
theorem pair_hides_handle : ¬(PhoneAgrees id annAlone beforeSmile ∧ LeavesTheRest id annAlone beforeSmile) := by
  rintro ⟨h, -⟩
  have hreplaced : (⟨0, 4, ⟨.person, utf16.encode ['1'], utf16.encode "ann".toList⟩⟩ : Replacement) ∈
      replacements id annAlone beforeSmile := by decide
  have hnone : typedMentionEnding id annAlone beforeSmile = none := by decide
  have hfound := (h ⟨0, 4, ⟨.person, utf16.encode ['1'], utf16.encode "ann".toList⟩⟩).mpr
    ⟨_, hreplaced, by decide, rfl, rfl, rfl⟩
  rw [hnone] at hfound
  exact nomatch hfound

end Stoop.Mentions.Typed
