import Mathlib
import Stoop.Markdown.Tokens

/-!
# The server's Markdown parser

The client's parser ported for previews, mentions and links. A cursor goes over one line of source:
tokens, code and links are kept whole, escapes resolved, styles nested. The source from the cursor on
is all a construct looks at, so that is what each function here takes, with the offset in the content
it stands at.

The inside of a construct is parsed by the same parser, so the functions that read one take the parser
they call, and `parseInlineFrom` ties the knot: each step takes a character at least, and an inside is
shorter than what it is in, so fuel for the length of the source is enough (`parseInlineFrom_fuel`).

## Recognising

`trimURL`, `urlAt`, `urlWhole`, `findCloser`, `matchLabelled`, `closeOnStarRun`, `matchDelimited`

## Parsing

`parseInlineAt`, `parseInline`, `parseMarkdown`

## What is read off the tree

`plainText`, `extractLinks`
-/

set_option autoImplicit false

namespace Stoop.Markdown.Server

attribute [local instance] lawfulText

/-! ## The tree -/

/-- An inline node. A style has no name; a bare link has no children; a token has its offset in the
content. The parser is also called on text that is not the content's own, from offset 0: `own` tells
the two apart, and nothing reads it. -/
inductive InlineNode
  | text (text : Text)
  | code (text : Text)
  | link (href : Text) (children : List InlineNode)
  | styled (children : List InlineNode)
  | mention (token : Text) (offset : Nat) (own : Bool)

inductive BlockKind
  | lines
  | quote
  | list
  | code
  deriving DecidableEq, Repr

/-- A block: lines of a run of lines or a quote, items of a list, the text of a fence. -/
structure Block where
  kind : BlockKind
  lines : List (List InlineNode) := []
  items : List (List InlineNode) := []
  text : Text := []

/-! ## Addresses -/

/-- Whether a character is a lower-case letter under `(?i)`: in either case, and the characters that
fold to it. -/
def foldEq (letter c : Char) : Bool :=
  c == letter || c == letter.toUpper || letter == 's' && c == 'ſ'

/-- `(?i)^https?://`: what it matches, and what follows. -/
def urlScheme : Text → Option (Text × Text)
  | h :: t :: t' :: p :: rest =>
    if foldEq 'h' h && foldEq 't' t && foldEq 't' t' && foldEq 'p' p then
      match rest with
      | ':' :: '/' :: '/' :: after => some ([h, t, t', p, ':', '/', '/'], after)
      | s :: ':' :: '/' :: '/' :: after =>
        if foldEq 's' s then some ([h, t, t', p, s, ':', '/', '/'], after) else none
      | _ => none
    else none
  | _ => none

/-- The address the source starts with, up to whitespace or an angle bracket. -/
def urlAt (source : Text) : Option Text :=
  match urlScheme source with
  | none => none
  | some (scheme, after) =>
    match after.takeWhile fun c => !goSpace c && c != '<' && c != '>' with
    | [] => none
    | run => some (scheme ++ run)

/-- Whether the text is one address and nothing else. -/
def urlWhole (text : Text) : Bool :=
  match urlScheme text with
  | none => false
  | some (_, after) => after != [] && after.all fun c => !goSpace c && c != '<'

/-- An address with the ")"s back that close a "(" inside it. -/
def closeParens : Text → Text → Text
  | href, ')' :: rest =>
    if href.count ')' < href.count '(' then closeParens (href ++ [')']) rest else href
  | href, _ => href

/-- An address less the punctuation of the sentence it ends. -/
def trimURL (raw : Text) : Text :=
  let href := (raw.reverse.dropWhile trailingPunct).reverse
  closeParens href (raw.drop href.length)

/-! ## Styles -/

/-- The styles' marks, longest first so "**" wins over "*". -/
def delims : List Text := [['*', '*'], ['_', '_'], ['~', '~'], ['|', '|'], ['*']]

/-- Whether a mark closes where it stands, after `prev`: not after whitespace, and a lone "*" not on
half of a "**" pair. -/
def closes (mark : Text) (prev : Char) (source : Text) : Bool :=
  mark.isPrefixOf source && !unicodeIsSpace prev &&
    !(mark == ['*'] && (prev == '*' || source[1]? == some '*'))

/-- How far on the first mark is that closes. -/
def findCloser (mark : Text) : Char → Text → Option Nat
  | _, [] => none
  | prev, c :: rest =>
    if closes mark prev (c :: rest) then some 0 else (findCloser mark c rest).map (· + 1)

/-- A parser of the inside of a construct: the text, the offset it stands at, and whether that is an
offset in the content. -/
abbrev Parser := Text → Nat → Bool → List InlineNode

def InlineNode.isStyled : InlineNode → Bool
  | .styled _ => true
  | _ => false

/-- Where the run of three or more stars that closes bold ends. `inside` is the source from the first
character of the bold on, and `close` where in it the bold closes. -/
def starRunEnd (inside : Text) (close : Option Nat) : Option Nat :=
  match close with
  | none => none
  | some close =>
    if !(['*', '*', '*'].isPrefixOf (inside.drop close)) then none
    -- a closer inside a run (its first star after a space) takes no part
    else if inside[close - 1]? == some '*' then none
    else some (close + ((inside.drop close).takeWhile (· == '*')).length)

/-- `**a *b***`: when bold closes on a run of three or more stars, the run's first stars can close the
italic inside it. -/
def closeOnStarRun (parse : Parser) (inside : Text) (close : Option Nat) (base : Nat) (own : Bool) :
    Option (List InlineNode × Nat) :=
  match starRunEnd inside close with
  | none => none
  | some runEnd =>
    let children := parse (inside.take (runEnd - 2)) base own
    if children.getLast?.any (·.isStyled) then some (children, runEnd) else none

/-- What follows a mark that opens a style at the cursor: not whitespace, nor, for a lone "*", another
"*". -/
def opened (mark source : Text) : Option (Char × Text) :=
  if !mark.isPrefixOf source then none
  else
    match source.drop mark.length with
    | [] => none
    | c :: rest => if unicodeIsSpace c || mark == ['*'] && c == '*' then none else some (c, rest)

/-- One mark's style, at a source that may start with it. -/
def delimitedBy (parse : Parser) (source : Text) (base : Nat) (own : Bool) (mark : Text) :
    Option (List InlineNode × Nat) :=
  match opened mark source with
  | none => none
  | some (c, rest) =>
    let start := mark.length
    let close := (findCloser mark c rest).map (· + 1)
    let run :=
      if mark == ['*', '*'] then closeOnStarRun parse (c :: rest) close (base + start) own else none
    match run, close with
    | some (children, runEnd), _ => some (children, start + runEnd)
    | none, none => none
    | none, some close =>
      let inner := (c :: rest).take close
      -- a spoiler can't mention anyone: a token there reads as its handle
      if mark == ['|', '|'] then
        some (parse (tokensAsText inner) 0 false, start + close + mark.length)
      else some (parse inner (base + start) own, start + close + mark.length)

def matchDelimited (parse : Parser) (source : Text) (base : Nat) (own : Bool) :
    Option (InlineNode × Nat) :=
  (delims.findSome? (delimitedBy parse source base own)).map fun found =>
    (.styled found.1, found.2)

/-- `***both***` is bold around italic. -/
def matchBoth (parse : Parser) (source : Text) (base : Nat) (own : Bool) :
    Option (InlineNode × Nat) :=
  if ['*', '*', '*'].isPrefixOf source then
    (findCloser ['*', '*', '*'] '*' (source.drop 3)).map fun close =>
      (.styled [.styled (parse ((source.drop 3).take close) (base + 3) own)], 3 + close + 3)
  else none

/-! ## Labelled links -/

mutual

/-- Whether a node is a link, or holds one. -/
def InlineNode.holdsLink : InlineNode → Bool
  | .link _ _ => true
  | .styled children => holdsLink children
  | .text _ | .code _ | .mention _ _ _ => false

def holdsLink : List InlineNode → Bool
  | [] => false
  | node :: nodes => node.holdsLink || holdsLink nodes

end

/-- The length of the words up to the "]" that ends them; `escaped` is whether a backslash came just
before. They can't hold a "[". -/
def labelLength (escaped : Bool) : Text → Option Nat
  | [] => none
  | c :: rest =>
    if escaped then (labelLength false rest).map (· + 1)
    else if c == ']' then some 0
    else if c == '[' then none
    else (labelLength (c == '\\' && rest.head?.any escapable) rest).map (· + 1)

/-- The length of the address up to the ")" that isn't closing a "(" inside it. -/
def hrefLength : Nat → Text → Option Nat
  | _, [] => none
  | depth, '(' :: rest => (hrefLength (depth + 1) rest).map (· + 1)
  | 0, ')' :: _ => some 0
  | depth + 1, ')' :: rest => (hrefLength depth rest).map (· + 1)
  | depth, _ :: rest => (hrefLength depth rest).map (· + 1)

/-- The words and the address of `[words](https://address)` at the cursor, and how long it is. -/
def labelAt : Text → Option (Text × Text × Nat)
  | '[' :: rest =>
    match labelLength false rest with
    | none => none
    | some labelEnd =>
      let label := rest.take labelEnd
      match rest.drop labelEnd with
      | ']' :: '(' :: after =>
        if label.all unicodeIsSpace then none
        else
          match hrefLength 0 after with
          | none => none
          | some hrefEnd =>
            let href := after.take hrefEnd
            if !urlWhole href then none
            else some (label, href, 1 + labelEnd + 2 + hrefEnd + 1)
      | _ => none
  | _ => none

/-- A labelled link. The words can't hold a link of their own, so a label never shows one address over
another. -/
def matchLabelled (parse : Parser) (source : Text) : Option (InlineNode × Nat) :=
  match labelAt source with
  | none => none
  | some (label, href, length) =>
    -- a link's words can't mention anyone: a token there reads as its handle
    let children := parse (tokensAsText label) 0 false
    if holdsLink children then none else some (.link href children, length)

/-! ## The inline parser -/

/-- A token is whole: its handle may hold "__", which isn't underline. -/
def matchToken (source : Text) (base : Nat) (own : Bool) : Option (InlineNode × Nat) :=
  match tokenLength source with
  | 0 => none
  | length + 1 => some (.mention (source.take (length + 1)) base own, length + 1)

def matchCode : Text → Option (InlineNode × Nat)
  | c :: rest =>
    let code := rest.takeWhile (· != backtick)
    if c == backtick && code != [] && decide (code.length < rest.length) then
      some (.code (tokensAsText code), code.length + 2)
    else none
  | [] => none

def matchURL (source : Text) : Option (InlineNode × Nat) :=
  (urlAt source).map fun url => (.link (trimURL url) [], (trimURL url).length)

/-- The node at the cursor, if a construct stands there, and how long it is. -/
def nodeAt (parse : Parser) (source : Text) (base : Nat) (own : Bool) : Option (InlineNode × Nat) :=
  matchToken source base own <|> matchCode source <|> matchURL source <|>
    matchLabelled parse source <|> matchBoth parse source base own <|>
    matchDelimited parse source base own

/-- The character a backslash at the cursor takes the meaning of. -/
def escapedAt : Text → Option Char
  | '\\' :: c :: _ => if escapable c then some c else none
  | _ => none

/-- The text gathered so far, as a node if there is any. -/
def flush (text : Text) : List InlineNode := if text = [] then [] else [.text text]

/-- The cursor's loop, with the text gathered since the last node. -/
def parseInlineFrom : Nat → Text → Nat → Bool → Text → List InlineNode
  | 0, _, _, _, text => flush text
  | _ + 1, [], _, _, text => flush text
  | fuel + 1, c :: rest, base, own, text =>
    match escapedAt (c :: rest) with
    | some escaped => parseInlineFrom fuel (rest.drop 1) (base + 2) own (text ++ [escaped])
    | none =>
      match nodeAt (fun inside base own => parseInlineFrom fuel inside base own []) (c :: rest) base
        own with
      | some (node, length) =>
        flush text ++ node :: parseInlineFrom fuel ((c :: rest).drop length)
          (base + byteLength ((c :: rest).take length)) own []
      | none => parseInlineFrom fuel rest (base + c.utf8Size) own (text ++ [c])

/-- The nodes of source found at an offset. -/
def parseInlineAt (source : Text) (base : Nat) (own : Bool) : List InlineNode :=
  parseInlineFrom (source.length + 1) source base own []

/-! ## Blocks -/

/-- "```", which opens and closes a fence. -/
def fence : Text := [backtick, backtick, backtick]

/-- What follows a fence at the start of a line, whitespace before it aside. -/
def afterFence (line : Text) : Option Text :=
  let line := line.dropWhile goSpace
  if fence.isPrefixOf line then some (line.drop 3) else none

/-- Whether a line ends in a fence, with whitespace after it. -/
def endsInFence (line : Text) : Bool := fence.isPrefixOf line && (line.drop 3).all goSpace

/-- The code up to the first fence that ends the line, one character at least. -/
def oneLineCode : Text → Option Text
  | [] => none
  | c :: rest => if endsInFence rest then some [c] else (oneLineCode rest).map (c :: ·)

/-- A fence whose code is all on its own line. -/
def fenceOneLine (line : Text) : Option Text := (afterFence line).bind oneLineCode

/-- Whether a line opens a fence: only a language stands after it. -/
def fenceOpen (line : Text) : Bool :=
  (afterFence line).any fun after =>
    (after.dropWhile fun c => !goSpace c && c != backtick).all goSpace

def fenceClose (line : Text) : Bool := (afterFence line).any (·.all goSpace)

/-- Where a quoted line's text starts. -/
def quoteLine : Text → Option Nat
  | '>' :: c :: _ => some (if goSpace c then 2 else 1)
  | ['>'] => some 1
  | _ => none

/-- The length of a bullet or a number. -/
def bulletLength : Text → Option Nat
  | [] => none
  | c :: rest =>
    if c == '-' || c == '*' then some 1
    else
      let digits := ((c :: rest).take 9).takeWhile isDigit
      match (c :: rest).drop digits.length with
      | mark :: _ =>
        if digits != [] && (mark == '.' || mark == ')') then some (digits.length + 1) else none
      | [] => none

/-- Where a list row's text starts. A bullet must be followed by a space, so *italic* at the start of
a line is still italic. -/
def listLine (line : Text) : Option Nat :=
  let indent := ((line.take 6).takeWhile (· == ' ')).length
  match bulletLength (line.drop indent) with
  | none => none
  | some bullet =>
    match ((line.drop (indent + bullet)).takeWhile goSpace).length with
    | 0 => none
    | spaces + 1 => some (indent + bullet + (spaces + 1))

/-- The blocks with the last one changed, if it is of the kind, or else a new one. -/
def last (kind : BlockKind) (add : Block → Block) (blocks : List Block) : List Block :=
  match blocks.getLast? with
  | some block =>
    if block.kind = kind then blocks.dropLast ++ [add block] else blocks ++ [add { kind := kind }]
  | none => [add { kind := kind }]

/-- The loop over the lines, the first of which starts at an offset: past the next `skip`, which belong
to a fence. -/
def parseLines : (start skip : Nat) → List Block → List Text → List Block
  | _, _, blocks, [] => blocks
  | start, skip + 1, blocks, line :: rest => parseLines (start + byteLength line + 1) skip blocks rest
  | start, 0, blocks, line :: rest =>
    let next := start + byteLength line + 1
    match fenceOneLine line with
    | some code => parseLines next 0 (blocks ++ [{ kind := .code, text := tokensAsText code }]) rest
    | none =>
      if fenceOpen line then
        let body := rest.takeWhile (!fenceClose ·)
        parseLines next (body.length + 1)
          (blocks ++ [{ kind := .code, text := tokensAsText (['\n'].intercalate body) }]) rest
      else
        match listLine line, quoteLine line with
        | some item, _ =>
          parseLines next 0 (last .list (fun block => { block with
            items := block.items ++ [parseInlineAt (line.drop item) (start + item) true] }) blocks)
            rest
        | none, some quoted =>
          parseLines next 0 (last .quote (fun block => { block with
            lines := block.lines ++ [parseInlineAt (line.drop quoted) (start + quoted) true] })
            blocks) rest
        | none, none =>
          parseLines next 0 (last .lines (fun block => { block with
            lines := block.lines ++ [parseInlineAt line start true] }) blocks) rest

def parseMarkdown (content : Text) : List Block := parseLines 0 0 [] (content.splitOn '\n')

/-! ## What is read off the tree -/

mutual

/-- A node as words: a style reads as its content, a link with a label as its label, and a token as
its @handle or #name. -/
def InlineNode.words : InlineNode → Text
  | .styled children => inlineString children
  | .link href [] => href
  | .link _ (child :: children) => child.words ++ inlineString children
  | .mention token _ _ => tokenRead token
  | .text text | .code text => text

def inlineString : List InlineNode → Text
  | [] => []
  | node :: nodes => node.words ++ inlineString nodes

end

/-- Text with each run of whitespace that breaks a line as one space; `run` is the whitespace just
before. -/
def withoutBreaks (space : Char → Bool) : Text → Text → Text
  | run, [] => if run.contains '\n' then [' '] else run
  | run, c :: rest =>
    if space c then withoutBreaks space (run ++ [c]) rest
    else (if run.contains '\n' then [' '] else run) ++ c :: withoutBreaks space [] rest

/-- Text less the whitespace at its ends. -/
def trimmed (space : Char → Bool) (text : Text) : Text :=
  ((text.dropWhile space).reverse.dropWhile space).reverse

/-- A block's lines of words. -/
def Block.parts (block : Block) : List Text :=
  match block.kind with
  | .code => [block.text]
  | .list => block.items.map inlineString
  | .lines | .quote => block.lines.map inlineString

/-- The message with its markup removed, for one-line previews. -/
def plainText (content : Text) : Text :=
  trimmed unicodeIsSpace
    (withoutBreaks goSpace [] (['\n'].intercalate ((parseMarkdown content).flatMap (·.parts))))

/-- How many links a message has previews of, and how long an address may be, in bytes. -/
def maxLinksPerMessage : Nat := 3
def maxLinkBytes : Nat := 2048

/-- The links found so far, with one more: unless it is there, or too long. -/
def withLink (found : List Text) (href : Text) : List Text :=
  if href ∈ found ∨ maxLinkBytes < byteLength href ∨ found.length = maxLinksPerMessage then found
  else found ++ [href]

mutual

/-- The links a node adds to those found: its own, or its content's. -/
def InlineNode.walkLinks (found : List Text) : InlineNode → List Text
  | .link href _ => withLink found href
  | .styled children => walkLinks found children
  | .text _ | .code _ | .mention _ _ _ => found

def walkLinks (found : List Text) : List InlineNode → List Text
  | [] => found
  | node :: nodes => walkLinks (node.walkLinks found) nodes

end

/-- The distinct links of a message, in order of appearance, up to the cap. -/
def extractLinks (content : Text) : List Text :=
  (parseMarkdown content).foldl
    (fun found block => (block.lines ++ block.items).foldl walkLinks found) []

end Stoop.Markdown.Server
