import Mathlib.Data.List.DropRight
import Stoop.Lib.Quoted
import Stoop.Markdown.Chars

/-!
# A search query, as the server and the search box read it

The server splits a query into words and takes the filters out (`chat/search_query.go`); the search box
reads it again, to show whether it narrows to the channel it was opened from (`web/src/core/search.ts`).

Lowering goes through the languages' own: `toLower` is Go's `unicode.ToLower`, `toLowerCase` JavaScript's on a
whole string. Nothing here depends on what either does.

## The server

`tokenizeSearch`, `splitFilter`, `parseSearchQuery`

## The search box

`queryTokens`, `channelOf`, `inChannel`
-/

set_option autoImplicit false

namespace Stoop.Search

open Stoop.Lib Stoop.Markdown

def doubleQuote : Char := '\x22'

/-! ## The server -/

def maxSearchQueryLen : Nat := 200

def searchPrefixMin : Nat := 3

/-- What the server splits a query at. -/
def isBlank (r : Char) : Bool := [' ', '\t', '\n', '\r'].contains r

/-- Splits on whitespace, keeping "quoted phrases" together, with their quotes, also when they follow a key:
prefix. -/
def tokenizeSearch (q : Text) : List Text := Quoted.words doubleQuote isBlank q

/-- A day as a filter names one. -/
structure Day where
  year : Nat
  month : Nat
  day : Nat
  deriving DecidableEq, Repr

def daysIn (year month : Nat) : Nat :=
  if month = 2 then if year % 4 = 0 ∧ (year % 100 ≠ 0 ∨ year % 400 = 0) then 29 else 28
  else if month ∈ [4, 6, 9, 11] then 30
  else 31

/-- The day after, as a date is added to. -/
def Day.next (d : Day) : Day :=
  if d.day < daysIn d.year d.month then { d with day := d.day + 1 }
  else if d.month < 12 then { d with month := d.month + 1, day := 1 }
  else { year := d.year + 1, month := 1, day := 1 }

def numberOf (digits : Text) : Option Nat :=
  if digits.all isDigit then some (digits.foldl (fun n c => 10 * n + (c.toNat - '0'.toNat)) 0) else none

/-- A date in the layout `2006-01-02`. -/
def parseDay : Text → Option Day
  | [y, y', y'', y''', '-', m, m', '-', d, d'] => do
    let year ← numberOf [y, y', y'', y''']
    let month ← numberOf [m, m']
    let day ← numberOf [d, d']
    if 1 ≤ month ∧ month ≤ 12 ∧ 1 ≤ day ∧ day ≤ daysIn year month then some { year, month, day } else none
  | _ => none

/-- A parsed query: the words less the one that matches as a prefix, that one, and the filters' values; empty
where there is none. -/
structure SearchQuery where
  words : Text := []
  lexeme : Text := []
  sender : Text := []
  channel : Text := []
  before : Option Day := none
  after : Option Day := none
  hasText : Bool := false
  deriving DecidableEq, Repr

def trimPrefix (sigil : Char) : Text → Text
  | c :: rest => if c = sigil then rest else c :: rest
  | [] => []

/-- A value less the quotes at its ends. -/
def trimQuotes (value : Text) : Text :=
  (value.dropWhile (· == doubleQuote)).rdropWhile (· == doubleQuote)

def isKeyLetter (r : Char) : Bool := decide ('a' ≤ r) && decide (r ≤ 'z')

/-- key:value, where the key is letters only and the value is not empty; a quoted value loses its quotes. -/
def splitFilter (toLower : Char → Char) (tok : Text) : Option (Text × Text) :=
  match tok.takeWhile (· != ':'), tok.dropWhile (· != ':') with
  | c :: key, _ :: v :: value =>
    if ((c :: key).map toLower).all isKeyLetter && trimQuotes (v :: value) != [] then
      some ((c :: key).map toLower, trimQuotes (v :: value))
    else none
  | _, _ => none

def isBareTerm (tok : Text) : Bool :=
  !(tok.head?.any fun c => c == '-' || c == doubleQuote) &&
    !(["or".toList, "oR".toList, "Or".toList, "OR".toList].contains tok) &&
    !tok.any ":*&|!()<>".toList.contains

def tsqueryLexeme (term : Text) : Text :=
  let escaped := term.flatMap fun c =>
    if c == '\\' then ['\\', '\\'] else if c == '\x27' then ['\x27', '\x27'] else [c]
  '\x27' :: escaped ++ ['\x27']

/-- The tokens taken one by one: the filters set their fields, a later one over an earlier, and the rest are
words. A date that is none ends it. -/
def takeFilters (toLower : Char → Char) :
    List Text → SearchQuery × List Text → (SearchQuery × List Text) × Option String
  | [], taken => (taken, none)
  | tok :: toks, (out, words) =>
    match splitFilter toLower tok with
    | none => takeFilters toLower toks (out, words ++ [tok])
    | some (key, val) =>
      if key = "from".toList then
        takeFilters toLower toks ({ out with sender := (trimPrefix '@' val).map toLower }, words)
      else if key = "in".toList then
        takeFilters toLower toks ({ out with channel := trimPrefix '#' val }, words)
      else if key = "before".toList ∨ key = "after".toList then
        match parseDay val with
        | none => ((out, words), some (String.ofList key ++ ": wants a date as YYYY-MM-DD"))
        | some day =>
          if key = "before".toList then takeFilters toLower toks ({ out with before := some day }, words)
          else takeFilters toLower toks ({ out with after := some day.next }, words)
      else takeFilters toLower toks (out, words ++ [tok])

/-- The filters split from the words: the query as far as it was read, and what is wrong with it. -/
def parseSearchQuery (toLower : Char → Char) (q : Text) : SearchQuery × Option String :=
  if q.length > maxSearchQueryLen then ({}, some "query must be at most 200 characters")
  else
    match takeFilters toLower (tokenizeSearch q) ({}, []) with
    | ((out, _), some err) => (out, some err)
    | ((out, words), none) =>
      match words.getLast? with
      | none => (out, some "type a word to search for")
      | some last =>
        if isBareTerm last && decide (searchPrefixMin ≤ last.length) then
          ({ out with
              hasText := true, lexeme := tsqueryLexeme last ++ ":*".toList
              words := [' '].intercalate words.dropLast }, none)
        else ({ out with hasText := true, words := [' '].intercalate words }, none)

/-! ## The search box -/

/-- The query's tokens: split on whitespace, a "quoted phrase" staying one token with its quotes, also after
a key: prefix. -/
def queryTokens (query : Text) : List Text := Quoted.words doubleQuote jsSpace query

section
variable (toLowerCase : Text → Text)

def isChannelFilter (token : Text) : Bool := (toLowerCase token).take 3 == "in:".toList

/-- The channel a filter token names: the quotes and the # dropped. None for any other token. -/
def channelOf (token : Text) : Option Text :=
  if isChannelFilter toLowerCase token then
    some (toLowerCase (trimPrefix '#' ((token.drop 3).filter (· != doubleQuote))))
  else none

/-- Whether the query already narrows to this channel. -/
def inChannel (query name : Text) : Bool :=
  (queryTokens query).any fun token => channelOf toLowerCase token == some (toLowerCase name)

end

end Stoop.Search
