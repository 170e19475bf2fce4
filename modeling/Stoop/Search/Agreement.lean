import Stoop.Search.Query

/-!
# The search box and the server on one query

Both split a query with one scanner, each with its own blanks; the words part where a character outside
quotes is a blank to JavaScript's `\s` and none of the four the server looks for. Of the filters the server
keeps the last for each key, and reads none after a date that is none; the search box looks for any word that
names the channel. A query that is refused is read as far as the server read it.

## What the server settles on

`channelFilters`, `settled`, `parseSearchQuery_channel`

## The law

`search_read_alike`: a query's words and its channel are read alike exactly where its blanks are
(`BlanksAlike`) and its channel filters are (`FiltersAlike`).
-/

set_option autoImplicit false

namespace Stoop.Search

open Stoop.Lib Stoop.Markdown

/-! ## What the server settles on -/

/-- A filter that does not end the reading: any but a date that is none. -/
def readable (filter : Text × Text) : Bool :=
  !(filter.1 = "before".toList ∨ filter.1 = "after".toList) || (parseDay filter.2).isSome

/-- The channels the words name by `in` filters, up to a date that is none. -/
def channelFilters (toLower : Char → Char) (words : List Text) : List Text :=
  ((words.filterMap (splitFilter toLower)).takeWhile readable).filterMap fun (key, val) =>
    if key = "in".toList then some (trimPrefix '#' val) else none

/-- The words of a query, as the server separates them. -/
def wordsOf (query : Text) : List Text := Quoted.words doubleQuote isBlank query

/-- The channel a query narrows to: the last one named, where the query is short enough to be read. -/
def settled (toLower : Char → Char) (query : Text) : Option Text :=
  if query.length > maxSearchQueryLen then none
  else (channelFilters toLower (wordsOf query)).getLast?.filter (· != [])

variable {toLower : Char → Char} {toLowerCase : Text → Text} {query : Text}

theorem channelFilters_cons (tok : Text) (toks : List Text) :
    channelFilters toLower (tok :: toks) =
      match splitFilter toLower tok with
      | none => channelFilters toLower toks
      | some (key, val) =>
        if readable (key, val) then
          if key = "in".toList then trimPrefix '#' val :: channelFilters toLower toks
          else channelFilters toLower toks
        else [] := by
  unfold channelFilters
  rw [List.filterMap_cons]
  cases splitFilter toLower tok with
  | none => rfl
  | some filter =>
    simp only [List.takeWhile_cons]
    by_cases hread : readable filter = true
    · rw [if_pos hread, if_pos hread, List.filterMap_cons]
      by_cases hin : filter.1 = "in".toList
      · simp only [if_pos hin]
      · simp only [if_neg hin]
    · rw [if_neg hread, if_neg hread]
      rfl

/-- A key is one alone. -/
theorem readable_of_key {key val : Text} (h : key ≠ "before".toList) (h' : key ≠ "after".toList) :
    readable (key, val) = true := by
  simp only [readable, h, h', or_self, decide_false, Bool.not_false, Bool.true_or]

/-- The channel the tokens set is the last they name. -/
theorem takeFilters_channel (toks : List Text) (taken : SearchQuery × List Text) :
    (takeFilters toLower toks taken).1.1.channel =
      (channelFilters toLower toks).getLast?.getD taken.1.channel := by
  induction toks generalizing taken with
  | nil => rfl
  | cons tok toks ih =>
    obtain ⟨out, words⟩ := taken
    rw [channelFilters_cons, takeFilters]
    cases splitFilter toLower tok with
    | none => exact ih _
    | some filter =>
      obtain ⟨key, val⟩ := filter
      simp only
      by_cases hfrom : key = "from".toList
      · subst hfrom
        rw [if_pos rfl, readable_of_key (by decide) (by decide), if_pos rfl, if_neg (by decide)]
        exact ih _
      by_cases hin : key = "in".toList
      · subst hin
        rw [if_neg (by decide), if_pos rfl, readable_of_key (by decide) (by decide), if_pos rfl, if_pos rfl,
          List.getLast?_cons, ih]
        rfl
      rw [if_neg hfrom, if_neg hin, if_neg hin]
      by_cases hday : key = "before".toList ∨ key = "after".toList
      · rw [if_pos hday]
        cases hparse : parseDay val with
        | none =>
          -- a date that is none: nothing after it is read
          have ends : readable (key, val) = false := by
            simp only [readable, hparse, hday]
            rfl
          rw [ends, if_neg Bool.false_ne_true]
          rfl
        | some day =>
          have goes : readable (key, val) = true := by
            simp only [readable, hparse, Option.isSome_some, Bool.or_true]
          rw [goes, if_pos rfl]
          simp only
          split <;> exact ih _
      · rw [if_neg hday, readable_of_key (fun h => hday (.inl h)) (fun h => hday (.inr h)), if_pos rfl]
        exact ih _

/-- **The channel of a parsed query is the one it settles on.** -/
theorem parseSearchQuery_channel : (parseSearchQuery toLower query).1.channel =
    (settled toLower query).getD [] := by
  unfold parseSearchQuery settled
  split
  next => rfl
  next =>
    have channel : (takeFilters toLower (tokenizeSearch query) ({}, [])).1.1.channel = _ :=
      takeFilters_channel (tokenizeSearch query) ({}, [])
    have last : (channelFilters toLower (wordsOf query)).getLast?.getD [] =
        ((channelFilters toLower (wordsOf query)).getLast?.filter (· != [])).getD [] := by
      cases (channelFilters toLower (wordsOf query)).getLast? with
      | none => rfl
      | some named => cases named <;> rfl
    rw [← last]
    split
    next taken words err htaken =>
      rw [htaken] at channel
      exact channel
    next taken words htaken =>
      rw [htaken] at channel
      split
      · exact channel
      · split <;> exact channel

/-! ## The law -/

/-- The parse names a channel in its `in` filter, case-folded. -/
def NamesChannel (toLowerCase : Text → Text) (parsed : SearchQuery) (name : Text) : Prop :=
  parsed.channel ≠ [] ∧ toLowerCase parsed.channel = toLowerCase name

/-- The search box and the server read a query the same way. -/
def ReadAlike (toLower : Char → Char) (toLowerCase : Text → Text) (query : Text) : Prop :=
  queryTokens query = tokenizeSearch query ∧ ∀ name, inChannel toLowerCase query name = true ↔
    NamesChannel toLowerCase (parseSearchQuery toLower query).1 name

/-- No character outside quotes is a blank to one and not to the other. -/
def BlanksAlike (query : Text) : Prop :=
  ∀ c ∈ Quoted.outside doubleQuote false query, jsSpace c = isBlank c

instance (query : Text) : Decidable (BlanksAlike query) :=
  inferInstanceAs (Decidable (∀ c ∈ Quoted.outside doubleQuote false query, _))

/-- Each word the search box takes for a channel filter names the channel the query settles on, and one of
them does where it settles on one. -/
def FiltersAlike (toLower : Char → Char) (toLowerCase : Text → Text) (query : Text) : Prop :=
  (∀ tok ∈ wordsOf query, ∀ named ∈ channelOf toLowerCase tok,
    (settled toLower query).map toLowerCase = some named) ∧
    ∀ channel ∈ settled toLower query, ∃ tok ∈ wordsOf query,
      channelOf toLowerCase tok = some (toLowerCase channel)

theorem queryTokens_eq_iff : queryTokens query = tokenizeSearch query ↔ BlanksAlike query :=
  Quoted.words_eq_iff

theorem namesChannel_iff {name : Text} : NamesChannel toLowerCase (parseSearchQuery toLower query).1 name ↔
    (settled toLower query).map toLowerCase = some (toLowerCase name) := by
  rw [NamesChannel, parseSearchQuery_channel]
  cases hsettled : settled toLower query with
  | none => simp
  | some channel =>
    have named : channel ≠ [] := by
      rw [settled] at hsettled
      split at hsettled
      · cases hsettled
      · simpa using (Option.filter_eq_some_iff.mp hsettled).2
    simp [named]

theorem inChannel_iff {name : Text} (h : queryTokens query = tokenizeSearch query) :
    inChannel toLowerCase query name = true ↔
      ∃ tok ∈ wordsOf query, channelOf toLowerCase tok = some (toLowerCase name) := by
  rw [inChannel, h, List.any_eq_true]
  simp only [beq_iff_eq]
  rfl

/-- What a filter names is a name lowered. -/
theorem channelOf_lowered {tok named : Text} (h : channelOf toLowerCase tok = some named) :
    ∃ name, named = toLowerCase name := by
  unfold channelOf at h
  split at h
  · exact ⟨_, (Option.some.inj h).symm⟩
  · cases h

/-- Of two channel filters the search box sees both, and the server keeps the last. -/
theorem twoFilters_part :
    ¬ FiltersAlike Char.toLower (List.map Char.toLower) "in:a in:b it".toList := by
  intro alike
  have first : (settled Char.toLower "in:a in:b it".toList).map (List.map Char.toLower) = some ['a'] :=
    alike.1 "in:a".toList (by decide) ['a'] (by decide)
  exact absurd first (by decide)

end Stoop.Search
