import Mathlib

/-!
# What the upgrade reads of a compose file

A compose file is text, read with two patterns (`internal/upgrade/compose.go`): the tag of the stoop image
it pins, and the major of the bundled Postgres. Releases are compared by their tags
(`internal/release/version.go`).

`TagOf`, `PostgresMajor`, `Older`
-/

set_option autoImplicit false

namespace Stoop.Upgrade

/-- A file's text. -/
abbrev Text := List Char

/-! ## Patterns -/

/-- `\s`. -/
def isSpace (c : Char) : Bool := c == ' ' || c == '\t' || c == '\n' || c == '\r' || c == '\x0c'

/-- What follows each occurrence of a character. -/
def after (mark : Char) : Text → List Text
  | [] => []
  | c :: rest => if c = mark then rest :: after mark rest else after mark rest

/-- The text less a prefix it has. -/
def stripPrefix (pre text : Text) : Option Text :=
  if pre.isPrefixOf text then some (text.drop pre.length) else none

/-- What stands after `image:` where a line starts with it, white space aside. -/
def imageAt (line : Text) : Option Text :=
  (stripPrefix "image:".toList (line.dropWhile isSpace)).map (·.dropWhile isSpace)

/-- The first line that starts with `image:` and whose value matches. -/
def firstImage (value : Text → Option Text) (compose : Text) : Option Text :=
  (compose :: after '\n' compose).findSome? fun line => (imageAt line).bind value

/-- The tag in a reference: what follows `stoop:`, after the last slash that one follows, or at the
start. -/
def stoopTag (value : Text) : Option Text :=
  let run := value.takeWhile fun c => !isSpace c
  ((after '/' run).reverse ++ [run]).findSome? fun rest =>
    (stripPrefix "stoop:".toList rest).filter fun tag => !tag.isEmpty

/-- The stoop image tag a compose file pins, or nothing. -/
def TagOf (compose : Text) : Text := (firstImage stoopTag compose).getD []

/-- The digits that follow `postgres:`. -/
def postgresTag (value : Text) : Option Text :=
  ((stripPrefix "postgres:".toList value).map (·.takeWhile Char.isDigit)).filter fun major =>
    !major.isEmpty

/-- The bundled Postgres major a compose file pins, or nothing. -/
def PostgresMajor (compose : Text) : Text := (firstImage postgresTag compose).getD []

/-! ## Releases -/

/-- A run of digits as an `int`. -/
def digits (text : Text) : Option Nat :=
  if text.isEmpty || !text.all Char.isDigit then none
  else
    let value := text.foldl (fun n c => 10 * n + (c.toNat - '0'.toNat)) 0
    if value < 2 ^ 63 then some value else none

/-- `strconv.Atoi`, where the number is not negative. -/
def atoi : Text → Option Nat
  | '+' :: rest => digits rest
  | '-' :: rest => (digits rest).filter (· == 0)
  | text => digits text

/-- `strings.Split`: the parts between the marks, and at least one. -/
def split (mark : Char) : Text → Text × List Text
  | [] => ([], [])
  | c :: rest =>
    let (part, parts) := split mark rest
    if c = mark then ([], part :: parts) else (c :: part, parts)

/-- The numbers of a version's parts, if all are. -/
def numbers : List Text → Option (List Nat)
  | [] => some []
  | part :: parts => (atoi part).bind fun n => (numbers parts).map (n :: ·)

/-- The dotted numbers of a version; anything else, like `dev`, is none. -/
def parseVersion (version : Text) : Option (List Nat) :=
  let (part, parts) := split '.' ((stripPrefix ['v'] version).getD version)
  numbers (part :: parts)

/-- Whether the first of two versions is lower, with zeros where one is shorter. -/
def lower : List Nat → List Nat → Bool
  | [], ys => ys.any (0 < ·)
  -- No number is below a missing one.
  | _ :: _, [] => false
  | x :: xs, y :: ys => if x ≠ y then decide (x < y) else lower xs ys

/-- Whether release `a` is older than release `b`; what is no version counts as newest. -/
def Older (a b : Text) : Bool :=
  if a = b then false
  else
    match parseVersion a, parseVersion b with
    | none, _ => false
    | some _, none => true
    | some pa, some pb => lower pa pb

example : Older "v0.9".toList "0.10.0".toList = true := by decide

example : TagOf "services:\n  stoop:\n    image: ghcr.io/getstoop/stoop:0.2.0\n".toList = "0.2.0".toList := by
  decide

end Stoop.Upgrade
