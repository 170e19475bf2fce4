import Mathlib
import Stoop.Markdown.Tokens

/-!
# The client's Markdown parser

What the message list draws and the editor reads. Blocks are read a line at a time, each reader taking
the run of lines its block owns; inline constructs are matched at a cursor, and whatever none of them
take is plain text. The source from the cursor on is all a match looks at, so that is what each
function here takes.

A match that reads the inside of a construct takes the parser it calls, as the server's does.

## Tokens

`mentionTokenAt`, `mentionToken`, `mentionText`, `tokensAsText`

## Parsing

`parseInline`, `parseMarkdown`

## What is read off the tree

`plainText`, `linksIn`
-/

set_option autoImplicit false

namespace Stoop.Markdown.Client

attribute [local instance] lawfulText

/-! ## Tokens -/

/-- What a mention or a channel link is in the editor and in a parsed message. -/
structure MentionRef where
  kind : TokenKind
  id : Text
  handle : Text
  deriving DecidableEq, Repr

/-- What a mention is written as. -/
def mentionToken (ref : MentionRef) : Text :=
  match ref.kind with
  | .channel => ['<', '#'] ++ ref.id ++ ':' :: ref.handle ++ ['>']
  | .group => ['<', '@', 'g', ':'] ++ ref.id ++ ':' :: ref.handle ++ ['>']
  | .person => ['<', '@', 'u', ':'] ++ ref.id ++ ':' :: ref.handle ++ ['>']

/-- How a mention reads as words: @handle, or #name for a channel. -/
def mentionText (ref : MentionRef) : Text :=
  (if ref.kind = .channel then '#' else '@') :: ref.handle

/-- A pattern of one character after another: what it matches, and what follows. -/
def matchEach : List (Char → Bool) → Text → Option (Text × Text)
  | [], source => some ([], source)
  | _ :: _, [] => none
  | class' :: classes, c :: source =>
    if class' c then (matchEach classes source).map fun found => (c :: found.1, found.2) else none

/-- `UUID`. -/
def uuid : List (Char → Bool) :=
  .replicate 8 isHex ++ (· == '-') :: .replicate 4 isHex ++ (· == '-') :: .replicate 4 isHex ++
    (· == '-') :: .replicate 4 isHex ++ (· == '-') :: .replicate 12 isHex

/-- `(UUID):(name{min,32})>`: the ID, the name, and what follows. -/
def idAndName (min : Nat) (nameChar : Char → Bool) (source : Text) : Option (Text × Text × Text) :=
  match matchEach uuid source with
  | some (id, ':' :: named) =>
    let name := (named.take 32).takeWhile nameChar
    match named.drop name.length with
    | '>' :: rest => if min ≤ name.length then some (id, name, rest) else none
    | _ => none
  | _ => none

/-- `MENTION_TOKEN` at the start of the source: the mention, and what follows it. -/
def matchMention : Text → Option (MentionRef × Text)
  | '<' :: '@' :: letter :: ':' :: source =>
    if letter == 'u' || letter == 'g' then
      (idAndName 3 isHandleChar source).map fun found =>
        (⟨if letter = 'g' then .group else .person, found.1, found.2.1⟩, found.2.2)
    else none
  | '<' :: '#' :: source =>
    (idAndName 1 isChannelNameChar source).map fun found =>
      (⟨.channel, found.1, found.2.1⟩, found.2.2)
  | _ => none

/-- The token at the start of the source, if any, and its length. -/
def mentionTokenAt (source : Text) : Option (MentionRef × Nat) :=
  (matchMention source).map fun found => (found.1, source.length - found.2.length)

/-- The content with each token replaced by how it reads: past the next `skip` characters, which
belong to a token replaced already. -/
def replaceTokens : (skip : Nat) → Text → Text
  | _, [] => []
  | skip + 1, _ :: rest => replaceTokens skip rest
  | 0, c :: rest =>
    match mentionTokenAt (c :: rest) with
    | some (ref, length) => mentionText ref ++ replaceTokens (length - 1) rest
    | none => c :: replaceTokens 0 rest

/-- Each token as the @handle or #name it was written with. -/
def tokensAsText (content : Text) : Text := replaceTokens 0 content

/-! ## The tree -/

inductive Style
  | bold
  | italic
  | underline
  | strike
  | spoiler
  deriving DecidableEq, Repr

/-- An inline node. A bare link has no words of its own, a labelled one has. -/
inductive Inline
  | text (text : Text)
  | mention (ref : MentionRef)
  | code (text : Text)
  | link (href : Text)
  | labelled (href : Text) (label : List Inline)
  | styled (type : Style) (children : List Inline)

/-- One list row: whether its marker was a number, its nesting depth, and the content after the
marker. -/
structure ListItem where
  ordered : Bool
  depth : Nat
  content : List Inline

inductive Block
  | lines (lines : List (List Inline))
  | quote (lines : List (List Inline))
  | list (items : List ListItem)
  | codeblock (text lang : Text)

/-! ## Addresses -/

/-- Whether a character is a lower-case letter under the `i` flag: in either case. -/
def ignoreCase (letter c : Char) : Bool := c == letter || c == letter.toUpper

/-- `^https?:\/\/` with the `i` flag: what it matches, and what follows. -/
def urlScheme : Text → Option (Text × Text)
  | h :: t :: t' :: p :: rest =>
    if ignoreCase 'h' h && ignoreCase 't' t && ignoreCase 't' t' && ignoreCase 'p' p then
      match rest with
      | ':' :: '/' :: '/' :: after => some ([h, t, t', p, ':', '/', '/'], after)
      | s :: ':' :: '/' :: '/' :: after =>
        if ignoreCase 's' s then some ([h, t, t', p, s, ':', '/', '/'], after) else none
      | _ => none
    else none
  | _ => none

/-- `URL_AT`. -/
def urlAt (source : Text) : Option Text :=
  match urlScheme source with
  | none => none
  | some (scheme, after) =>
    match after.takeWhile fun c => !jsSpace c && c != '<' && c != '>' with
    | [] => none
    | run => some (scheme ++ run)

/-- `URL_WHOLE`. -/
def urlWhole (text : Text) : Bool :=
  match urlScheme text with
  | none => false
  | some (_, after) => after != [] && after.all fun c => !jsSpace c && c != '<'

/-- An address with the ")"s back that close a "(" inside it. -/
def closeParens : Text → Text → Text
  | href, ')' :: rest =>
    if href.count ')' < href.count '(' then closeParens (href ++ [')']) rest else href
  | href, _ => href

/-- An address less the punctuation of the sentence it ends. -/
def trimUrl (raw : Text) : Text :=
  let href := (raw.reverse.dropWhile trailingPunct).reverse
  closeParens href (raw.drop href.length)

/-! ## Styles -/

/-- The styles and their marks, longest first, so "**" wins over "*". -/
def delims : List (Text × Style) :=
  [(['*', '*'], .bold), (['_', '_'], .underline), (['~', '~'], .strike), (['|', '|'], .spoiler),
    (['*'], .italic)]

/-- Whether a mark closes where it stands, after `prev`: not after whitespace, and a lone "*" not on
half of a "**" pair. -/
def closes (mark : Text) (prev : Char) (source : Text) : Bool :=
  mark.isPrefixOf source && !(jsSpace prev ||
    mark == ['*'] && (prev == '*' || source[1]? == some '*'))

/-- How far on the first mark is that closes. -/
def findCloser (mark : Text) : Char → Text → Option Nat
  | _, [] => none
  | prev, c :: rest =>
    if closes mark prev (c :: rest) then some 0 else (findCloser mark c rest).map (· + 1)

/-- A parser of the inside of a construct. -/
abbrev Parser := Text → List Inline

/-- Whether a node is what a run of stars can end. -/
def Inline.isStarred : Inline → Bool
  | .styled .bold _ | .styled .italic _ => true
  | _ => false

/-- Where the run of three or more stars that closes bold ends. `inside` is the source from the first
character of the bold on, and `close` where in it the bold closes. -/
def starRunEnd (inside : Text) (close : Option Nat) : Option Nat :=
  match close with
  | none => none
  | some close =>
    if !(['*', '*', '*'].isPrefixOf (inside.drop close)) then none
    -- a closer inside a run (its first star after a space) takes no part
    else if inside[close - 1]? == some '*' then none
    else some (close + ((inside.drop close).takeWhile (· == '*')).length)

/-- `**a *b***`: when bold closes on a run of three or more stars, the run's first stars can close the
italic inside it. -/
def closeOnStarRun (parse : Parser) (inside : Text) (close : Option Nat) :
    Option (List Inline × Nat) :=
  match starRunEnd inside close with
  | none => none
  | some runEnd =>
    let children := parse (inside.take (runEnd - 2))
    if children.getLast?.any (·.isStarred) then some (children, runEnd) else none

/-- What follows a mark that opens a style at the cursor: not whitespace, nor, for a lone "*", another
"*". -/
def opened (mark source : Text) : Option (Char × Text) :=
  if !mark.isPrefixOf source then none
  else
    match source.drop mark.length with
    | [] => none
    | c :: rest => if jsSpace c || mark == ['*'] && c == '*' then none else some (c, rest)

/-- One style, at a source that may start with its mark. -/
def delimitedBy (parse : Parser) (source : Text) (delim : Text × Style) : Option (Inline × Nat) :=
  let (mark, type) := delim
  match opened mark source with
  | none => none
  | some (c, rest) =>
    let start := mark.length
    let close := (findCloser mark c rest).map (· + 1)
    let run := if mark == ['*', '*'] then closeOnStarRun parse (c :: rest) close else none
    match run, close with
    | some (children, runEnd), _ => some (.styled type children, start + runEnd)
    | none, none => none
    | none, some close =>
      let inner := (c :: rest).take close
      -- a spoiler can't mention anyone: a token there reads as its handle
      some (.styled type (parse (if type = .spoiler then tokensAsText inner else inner)),
        start + close + mark.length)

def delimited (parse : Parser) (source : Text) : Option (Inline × Nat) :=
  delims.findSome? (delimitedBy parse source)

/-- `***both***` is bold around italic. -/
def boldItalic (parse : Parser) (source : Text) : Option (Inline × Nat) :=
  if ['*', '*', '*'].isPrefixOf source then
    (findCloser ['*', '*', '*'] '*' (source.drop 3)).map fun close =>
      (.styled .bold [.styled .italic (parse ((source.drop 3).take close))], 3 + close + 3)
  else none

/-! ## Labelled links -/

mutual

/-- Whether a node is a link, or holds one. -/
def Inline.holdsLink : Inline → Bool
  | .link _ | .labelled _ _ => true
  | .styled _ children => holdsLink children
  | .text _ | .code _ | .mention _ => false

def holdsLink : List Inline → Bool
  | [] => false
  | node :: nodes => node.holdsLink || holdsLink nodes

end

/-- The length of the words up to the "]" that ends them; `escaped` is whether a backslash came just
before. They can't hold a "[". -/
def labelLength (escaped : Bool) : Text → Option Nat
  | [] => none
  | c :: rest =>
    if escaped then (labelLength false rest).map (· + 1)
    else if c == ']' then some 0
    else if c == '[' then none
    else (labelLength (c == '\\' && rest.head?.any escapable) rest).map (· + 1)

/-- The length of the address up to the ")" that isn't closing a "(" inside it. -/
def hrefLength : Nat → Text → Option Nat
  | _, [] => none
  | depth, '(' :: rest => (hrefLength (depth + 1) rest).map (· + 1)
  | 0, ')' :: _ => some 0
  | depth + 1, ')' :: rest => (hrefLength depth rest).map (· + 1)
  | depth, _ :: rest => (hrefLength depth rest).map (· + 1)

/-- The words and the address of `[words](https://address)` at the cursor, and how long it is. -/
def labelAt : Text → Option (Text × Text × Nat)
  | '[' :: rest =>
    match labelLength false rest with
    | none => none
    | some labelEnd =>
      let words := rest.take labelEnd
      match rest.drop labelEnd with
      | ']' :: '(' :: after =>
        if words.all jsSpace then none
        else
          match hrefLength 0 after with
          | none => none
          | some hrefEnd =>
            let href := after.take hrefEnd
            if !urlWhole href then none
            else some (words, href, 1 + labelEnd + 2 + hrefEnd + 1)
      | _ => none
  | _ => none

/-- A labelled link. The words can't hold a link of their own, so a label never shows one address over
another. -/
def labelledLink (parse : Parser) (source : Text) : Option (Inline × Nat) :=
  match labelAt source with
  | none => none
  | some (words, href, length) =>
    -- a link's words can't mention anyone: a token there reads as its handle
    let label := parse (tokensAsText words)
    if holdsLink label then none else some (.labelled href label, length)

/-! ## The inline parser -/

/-- A token is whole: its handle may hold "__", which isn't underline. -/
def mention (source : Text) : Option (Inline × Nat) :=
  (mentionTokenAt source).map fun found => (.mention found.1, found.2)

def code : Text → Option (Inline × Nat)
  | c :: rest =>
    let text := rest.takeWhile (· != backtick)
    if c == backtick && text != [] && decide (text.length < rest.length) then
      some (.code (tokensAsText text), text.length + 2)
    else none
  | [] => none

def bareLink (source : Text) : Option (Inline × Nat) :=
  (urlAt source).map fun url => (.link (trimUrl url), (trimUrl url).length)

/-- The node at the cursor, if a match takes one, and how long it is. -/
def matchNode (parse : Parser) (source : Text) : Option (Inline × Nat) :=
  mention source <|> code source <|> bareLink source <|> labelledLink parse source <|>
    boldItalic parse source <|> delimited parse source

/-- The character a backslash at the cursor takes the meaning of. -/
def escape : Text → Option Char
  | '\\' :: c :: _ => if escapable c then some c else none
  | _ => none

/-- The text gathered so far, as a node if there is any. -/
def flush (text : Text) : List Inline := if text = [] then [] else [.text text]

/-- The cursor's loop, with the text gathered since the last node. -/
def parseInlineFrom : Nat → Text → Text → List Inline
  | 0, _, text => flush text
  | _ + 1, [], text => flush text
  | fuel + 1, c :: rest, text =>
    match escape (c :: rest) with
    | some escaped => parseInlineFrom fuel (rest.drop 1) (text ++ [escaped])
    | none =>
      match matchNode (fun inside => parseInlineFrom fuel inside []) (c :: rest) with
      | some (node, length) =>
        flush text ++ node :: parseInlineFrom fuel ((c :: rest).drop length) []
      | none => parseInlineFrom fuel rest (text ++ [c])

def parseInline (source : Text) : List Inline := parseInlineFrom (source.length + 1) source []

/-! ## Blocks -/

/-- "```", which opens and closes a fence. -/
def fence : Text := [backtick, backtick, backtick]

/-- What follows a fence at the start of a line, whitespace before it aside. -/
def afterFence (line : Text) : Option Text :=
  let line := line.dropWhile jsSpace
  if fence.isPrefixOf line then some (line.drop 3) else none

/-- Whether a line ends in a fence, with whitespace after it. -/
def endsInFence (line : Text) : Bool := fence.isPrefixOf line && (line.drop 3).all jsSpace

/-- The code up to the first fence that ends the line, one character at least. -/
def oneLineCode : Text → Option Text
  | [] => none
  | c :: rest => if endsInFence rest then some [c] else (oneLineCode rest).map (c :: ·)

/-- `FENCE_ONE_LINE`: the code. -/
def fenceOneLine (line : Text) : Option Text := (afterFence line).bind oneLineCode

/-- `FENCE_OPEN`: the language. -/
def fenceOpen (line : Text) : Option Text :=
  (afterFence line).bind fun after =>
    let lang := after.takeWhile fun c => !goSpace c && c != backtick
    if (after.drop lang.length).all jsSpace then some lang else none

/-- `FENCE_CLOSE`. -/
def fenceClose (line : Text) : Bool := (afterFence line).any (·.all jsSpace)

/-- `QUOTE`: the text quoted. -/
def quoteLine : Text → Option Text
  | '>' :: c :: rest => some (if jsSpace c then rest else c :: rest)
  | ['>'] => some []
  | _ => none

/-- The length of a bullet or a number. -/
def bulletLength : Text → Option Nat
  | [] => none
  | c :: rest =>
    if c == '-' || c == '*' then some 1
    else
      let digits := ((c :: rest).take 9).takeWhile isDigit
      match (c :: rest).drop digits.length with
      | mark :: _ =>
        if digits != [] && (mark == '.' || mark == ')') then some (digits.length + 1) else none
      | [] => none

/-- Two spaces a level, three levels deep. -/
def MAX_LIST_DEPTH : Nat := 3

/-- `LIST`: the row, with the text after its marker. -/
def listLine (line : Text) : Option (Bool × Nat × Text) :=
  let indent := ((line.take 6).takeWhile (· == ' ')).length
  match bulletLength (line.drop indent) with
  | none => none
  | some bullet =>
    match ((line.drop (indent + bullet)).takeWhile jsSpace).length with
    | 0 => none
    | spaces + 1 =>
      some ((line.drop indent).head?.any isDigit, min MAX_LIST_DEPTH (indent / 2),
        line.drop (indent + bullet + (spaces + 1)))

/-- A fence and everything to its closing fence, or to the end while it is still open; and the lines
after it. -/
def readCodeblock : List Text → Option (Block × List Text)
  | [] => none
  | line :: rest =>
    match fenceOneLine line with
    | some code => some (.codeblock (tokensAsText code) [], rest)
    | none =>
      (fenceOpen line).map fun lang =>
        let body := rest.takeWhile (!fenceClose ·)
        (.codeblock (tokensAsText (['\n'].intercalate body)) lang, rest.drop (body.length + 1))

/-- The item a list row is. -/
def listItem (row : Bool × Nat × Text) : ListItem :=
  { ordered := row.1, depth := row.2.1, content := parseInline row.2.2 }

/-- Consecutive list rows, bullets and numbers alike. -/
def readList (lines : List Text) : Option (Block × List Text) :=
  let rows := lines.takeWhile fun line => (listLine line).isSome
  if rows = [] then none
  else some (.list ((rows.filterMap listLine).map listItem), lines.drop rows.length)

/-- Whether a line starts a fence or a list, which end a quote, or with `quotes` a quote. -/
def startsOther (quotes : Bool) (line : Text) : Bool :=
  (fenceOneLine line).isSome || (fenceOpen line).isSome || (listLine line).isSome ||
    quotes && (quoteLine line).isSome

def readQuote (lines : List Text) : Option (Block × List Text) :=
  let quoted := lines.takeWhile fun line => !startsOther false line && (quoteLine line).isSome
  if quoted = [] then none
  else some (.quote ((quoted.filterMap quoteLine).map parseInline), lines.drop quoted.length)

/-- Plain lines up to the next line that starts any other block. Always reads at least one, so an empty
message is one empty line. -/
def readLines (line : Text) (rest : List Text) : Block × List Text :=
  let plain := rest.takeWhile fun line => !startsOther true line
  (.lines ((line :: plain).map parseInline), rest.drop plain.length)

/-- The block a run of lines starts with, and the lines after it. -/
def readBlock (line : Text) (rest : List Text) : Block × List Text :=
  ((readCodeblock (line :: rest) <|> readList (line :: rest) <|> readQuote (line :: rest)).getD
    (readLines line rest))

/-- The loop over the lines: a block takes one line at least. -/
def parseBlocks : Nat → List Text → List Block
  | 0, _ => []
  | _ + 1, [] => []
  | fuel + 1, line :: rest =>
    let read := readBlock line rest
    read.1 :: parseBlocks fuel read.2

def parseMarkdown (content : Text) : List Block :=
  let lines := content.splitOn '\n'
  parseBlocks lines.length lines

/-! ## What is read off the tree -/

mutual

/-- A node's words. -/
def Inline.words : Inline → Text
  | .text text | .code text => text
  | .link href => href
  | .labelled _ label => inlineText label
  | .mention ref => mentionText ref
  | .styled _ children => inlineText children

def inlineText : List Inline → Text
  | [] => []
  | node :: nodes => node.words ++ inlineText nodes

end

/-- A block's lines of inline content, where it is no fence. -/
def lineRuns : Block → List (List Inline)
  | .lines lines | .quote lines => lines
  | .list items => items.map (·.content)
  | .codeblock _ _ => []

/-- Each block's lines of words, blocks and lines joined by line ends. -/
def textLines (content : Text) : Text :=
  ['\n'].intercalate ((parseMarkdown content).map fun block =>
    match block with
    | .codeblock text _ => text
    | block => ['\n'].intercalate ((lineRuns block).map inlineText))

/-- Text with each run of whitespace that breaks a line as one space; `run` is the whitespace just
before. -/
def withoutBreaks (space : Char → Bool) : Text → Text → Text
  | run, [] => if run.contains '\n' then [' '] else run
  | run, c :: rest =>
    if space c then withoutBreaks space (run ++ [c]) rest
    else (if run.contains '\n' then [' '] else run) ++ c :: withoutBreaks space [] rest

/-- Text less the whitespace at its ends. -/
def trimmed (space : Char → Bool) (text : Text) : Text :=
  ((text.dropWhile space).reverse.dropWhile space).reverse

/-- The message with its markup removed, for one-line previews. -/
def plainText (content : Text) : Text :=
  trimmed jsSpace (withoutBreaks jsSpace [] (textLines content))

/-- The links found so far, with one more unless it is there. -/
def withLink (found : List Text) (href : Text) : List Text :=
  if href ∈ found then found else found ++ [href]

mutual

/-- The links a node adds to those found: its own, or its content's. -/
def Inline.walkLinks (found : List Text) : Inline → List Text
  | .link href | .labelled href _ => withLink found href
  | .styled _ children => walkLinks found children
  | .text _ | .code _ | .mention _ => found

def walkLinks (found : List Text) : List Inline → List Text
  | [] => found
  | node :: nodes => walkLinks (node.walkLinks found) nodes

end

/-- The distinct links in a message, in order of appearance. -/
def linksIn (content : Text) : List Text :=
  (parseMarkdown content).foldl (fun found block => (lineRuns block).foldl walkLinks found) []

end Stoop.Markdown.Client
