import Mathlib.Data.List.DropRight

/-!
# The origin a reference resolves to

A browser's URL parser (the WHATWG URL standard), as far as the origin it comes to, for a reference resolved
against a page of an `http` or `https` site. The parser drops the controls and spaces at both ends and every
tab, line feed and carriage return, and reads a backslash as a slash. Two slashes begin an authority, however
many more follow them; anything else without a scheme of its own stays where the page is.

How a host is read, and where a reference with its own scheme leads, are the browser's (`Browser`).

`Browser.origin_slash`: a reference that begins with a slash leaves its origin to an authority exactly if the next
character read is a slash as well.
-/

set_option autoImplicit false

namespace Stoop.Lib.Url

abbrev Text := List Char

/-! ## What is read -/

def isTabOrNewline (c : Char) : Bool := c == '\t' || c == '\n' || c == '\r'

/-- A C0 control or a space. -/
def isControlOrSpace (c : Char) : Bool := decide (c.toNat ≤ 0x20)

/-- Either slash: the parser reads them alike where the scheme is a special one. -/
def isSlash (c : Char) : Bool := c == '/' || c == '\\'

theorem isTabOrNewline_iff {c : Char} : isTabOrNewline c = true ↔ c = '\t' ∨ c = '\n' ∨ c = '\r' := by
  simp only [isTabOrNewline, Bool.or_eq_true, beq_iff_eq, or_assoc]

theorem not_slash_of_tab {c : Char} (h : isTabOrNewline c = true) : isSlash c = false := by
  obtain rfl | rfl | rfl := isTabOrNewline_iff.mp h <;> decide

def withoutTabs (t : Text) : Text := t.filter (!isTabOrNewline ·)

/-- The text the parser's states go over. -/
def stripped (t : Text) : Text := withoutTabs ((t.dropWhile isControlOrSpace).rdropWhile isControlOrSpace)

/-- The first character a parser reads of a text. -/
def firstRead (t : Text) : Option Char := t.find? (!isTabOrNewline ·)

/-! ## Origins -/

inductive Scheme
  | http
  | https
  deriving DecidableEq, Repr

def Scheme.defaultPort : Scheme → Nat
  | http => 80
  | https => 443

variable {η : Type}

/-- An origin; its port is none where it is the scheme's own. -/
structure Origin (η : Type) where
  scheme : Scheme
  host : η
  port : Option Nat
  deriving DecidableEq, Repr

/-- What a browser does with a host, and with a reference that has a scheme of its own. -/
structure Browser (η : Type) where
  parseHost : Text → Option η
  schemed : Origin η → Text → Option (Origin η)

/-! ## The authority -/

def endsAuthority (c : Char) : Bool := isSlash c || c == '?' || c == '#'

/-- The credentials end at the last at sign. -/
def withoutCredentials (authority : Text) : Text := authority.rtakeWhile (· != '@')

/-- The host and what follows its colon; a colon in brackets is the host's. -/
def hostAndPort (inBrackets : Bool) : Text → Text × Option Text
  | [] => ([], none)
  | c :: rest =>
    if c = ':' ∧ inBrackets = false then ([], some rest)
    else
      let (host, port) := hostAndPort (if c = '[' then true else if c = ']' then false else inBrackets) rest
      (c :: host, port)

def number (digits : Text) : Nat := digits.foldl (fun n d => n * 10 + (d.toNat - '0'.toNat)) 0

/-- The port state: no digits are no port, nor is the scheme's own; other characters and large numbers fail. -/
def parsePort (scheme : Scheme) (digits : Text) : Option (Option Nat) :=
  if digits.all Char.isDigit = false then none
  else if digits = [] then some none
  else if 65535 < number digits then none
  else if number digits = scheme.defaultPort then some none
  else some (some (number digits))

/-- The origin an authority names; no host is a failure. -/
def Browser.authorityOrigin (browser : Browser η) (scheme : Scheme) (t : Text) : Option (Origin η) :=
  let (host, port) := hostAndPort false (withoutCredentials (t.takeWhile (!endsAuthority ·)))
  if host = [] then none
  else do
    let host ← browser.parseHost host
    let port ← parsePort scheme (port.getD [])
    some { scheme, host, port }

/-! ## References -/

def isSchemeChar (c : Char) : Bool := c.isAlphanum || c == '+' || c == '-' || c == '.'

def hasScheme : Text → Bool
  | [] => false
  | c :: rest => c.isAlpha && (rest.dropWhile isSchemeChar).head? == some ':'

/-- The origin of a reference resolved on a page of `site`; none where the parser fails. -/
def Browser.origin (browser : Browser η) (site : Origin η) (reference : Text) : Option (Origin η) :=
  let read := stripped reference
  if hasScheme read then browser.schemed site read
  else
    match read with
    | c :: d :: rest =>
      if isSlash c ∧ isSlash d then browser.authorityOrigin site.scheme (rest.dropWhile isSlash) else some site
    | _ => some site

/-! ## References that begin with a slash -/

theorem rdropWhile_cons {p : Char → Bool} {c : Char} (hc : p c = false) (t : Text) :
    (c :: t).rdropWhile p = c :: t.rdropWhile p := by
  have hend : ([c].dropWhile p) = [c] := by rw [List.dropWhile_cons_of_neg (by simp [hc])]
  unfold List.rdropWhile
  rw [List.reverse_cons, List.dropWhile_append, hend]
  split
  · next hnone =>
    rw [List.isEmpty_iff.mp hnone]
    rfl
  · rw [List.reverse_append, List.reverse_singleton, List.singleton_append]

theorem stripped_slash (t : Text) :
    stripped ('/' :: t) = '/' :: withoutTabs (t.rdropWhile isControlOrSpace) := by
  have hplain : isControlOrSpace '/' = false := by decide
  have hread : isTabOrNewline '/' = false := by decide
  unfold stripped
  rw [List.dropWhile_cons_of_neg (by simp [hplain]), rdropWhile_cons hplain, withoutTabs,
    List.filter_cons_of_pos (by simp [hread]), withoutTabs]

theorem not_slash_of_control {c : Char} (h : isControlOrSpace c = true) : isSlash c = false := by
  have hsmall : c.toNat ≤ 0x20 := of_decide_eq_true h
  refine Bool.eq_false_iff.mpr fun hslash => ?_
  obtain hc | hc := Bool.or_eq_true_iff.mp hslash
  · rw [beq_iff_eq.mp hc] at hsmall
    exact absurd hsmall (by decide)
  · rw [beq_iff_eq.mp hc] at hsmall
    exact absurd hsmall (by decide)

/-- What is dropped at the end holds no slash, so a slash is read first with it or without. -/
theorem head_stripped (t : Text) :
    (withoutTabs (t.rdropWhile isControlOrSpace)).head?.any isSlash = (firstRead t).any isSlash := by
  have hsplit : firstRead t = (firstRead (t.rdropWhile isControlOrSpace)).or
      (firstRead (t.rtakeWhile isControlOrSpace)) := by
    rw [firstRead, firstRead, firstRead, ← List.find?_append, List.rdropWhile_append_rtakeWhile]
  rw [withoutTabs, List.head?_filter, hsplit, firstRead]
  cases hkept : List.find? (!isTabOrNewline ·) (t.rdropWhile isControlOrSpace) with
  | some c => rfl
  | none =>
    rw [Option.none_or]
    cases hend : firstRead (t.rtakeWhile isControlOrSpace) with
    | none => rfl
    | some c =>
      have hcontrol : isControlOrSpace c = true := List.mem_rtakeWhile_imp (List.mem_of_find?_eq_some hend)
      exact (not_slash_of_control hcontrol).symm

/-- A reference that begins with a slash: its authority is the first character after the slashes, where two
are read. -/
theorem Browser.origin_slash (browser : Browser η) (site : Origin η) (t : Text) :
    browser.origin site ('/' :: t) =
      if (firstRead t).any isSlash then
        browser.authorityOrigin site.scheme ((stripped ('/' :: t)).dropWhile isSlash)
      else some site := by
  have hslash : isSlash '/' = true := by decide
  rw [← head_stripped t, Browser.origin, stripped_slash]
  cases hread : withoutTabs (t.rdropWhile isControlOrSpace) with
  | nil => rfl
  | cons d rest =>
    have hscheme : hasScheme ('/' :: d :: rest) = false := by simp [hasScheme]
    cases hd : isSlash d with
    | true => simp [hscheme, hslash, hd]
    | false => simp [hscheme, hd]

end Stoop.Lib.Url
