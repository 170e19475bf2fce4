import Mathlib

/-!
# The characters the two Markdown parsers read

A message's content is a list of characters. The server reads it byte by byte and the client in
UTF-16 units; every character either looks for is ASCII, which stands for itself in both, so a cursor
goes over characters here. An offset in the content is counted in bytes, as the server counts it.

What each side counts as whitespace differs: `unicode.IsSpace` and Go's regular expressions on the
server, JavaScript's `\s` on the client. `Alike` is what all three treat the same.
-/

set_option autoImplicit false

namespace Stoop.Markdown

/-- A message's content, or a part of it. -/
abbrev Text := List Char

/-- Named once, so that the definitions that look a text up in a list hold no proof of their own. -/
theorem lawfulText : LawfulBEq Text := inferInstance

/-- The backtick, which opens and closes code. -/
def backtick : Char := '\x60'

/-- A text's length in bytes. -/
def byteLength (text : Text) : Nat := (text.map (·.utf8Size)).sum

/-! ## Whitespace -/

/-- Go's `unicode.IsSpace`. -/
def unicodeIsSpace (c : Char) : Bool :=
  ['\t', '\n', '\x0b', '\x0c', '\r', ' ', '\u0085', '\u00a0', '\u1680', '\u2000', '\u2001', '\u2002',
    '\u2003', '\u2004', '\u2005', '\u2006', '\u2007', '\u2008', '\u2009', '\u200a', '\u2028', '\u2029',
    '\u202f', '\u205f', '\u3000'].contains c

/-- `\s` in a Go regular expression. -/
def goSpace (c : Char) : Bool := ['\t', '\n', '\x0c', '\r', ' '].contains c

/-- `\s` in a JavaScript regular expression, and what `trim` takes. -/
def jsSpace (c : Char) : Bool :=
  ['\t', '\n', '\x0b', '\x0c', '\r', ' ', '\u00a0', '\u1680', '\u2000', '\u2001', '\u2002', '\u2003',
    '\u2004', '\u2005', '\u2006', '\u2007', '\u2008', '\u2009', '\u200a', '\u2028', '\u2029', '\u202f',
    '\u205f', '\u3000', '\ufeff'].contains c

/-- A character all three count as whitespace, or none does. -/
def Alike (c : Char) : Prop := unicodeIsSpace c = goSpace c ∧ jsSpace c = goSpace c

instance (c : Char) : Decidable (Alike c) := inferInstanceAs (Decidable (_ ∧ _))

/-! ## Classes -/

def isDigit (c : Char) : Bool := decide ('0' ≤ c) && decide (c ≤ '9')

/-- A hexadecimal digit as an ID is written. -/
def isHex (c : Char) : Bool := isDigit c || decide ('a' ≤ c) && decide (c ≤ 'f')

def isHandleChar (c : Char) : Bool := decide ('a' ≤ c) && decide (c ≤ 'z') || isDigit c || c == '_'

def isChannelNameChar (c : Char) : Bool := isHandleChar c || c == '-'

/-- What a backslash takes the meaning of. "-" and "." are among them, so a line may start with a
literal dash or "1." without becoming a list. -/
def escapable (c : Char) : Bool :=
  ['\\', backtick, '*', '_', '~', '>', '|', '#', '[', ']', '(', ')', '.', '-'].contains c

/-- Punctuation that belongs to the sentence when it ends an address. -/
def trailingPunct (c : Char) : Bool :=
  ['.', ',', ';', ':', '!', '?', ')', ']', '\x27', '\x22'].contains c

/-! ## Lengths in bytes -/

@[simp] theorem byteLength_nil : byteLength [] = 0 := rfl

@[simp] theorem byteLength_cons (c : Char) (text : Text) :
    byteLength (c :: text) = c.utf8Size + byteLength text := rfl

@[simp] theorem byteLength_append (text text' : Text) :
    byteLength (text ++ text') = byteLength text + byteLength text' := by
  simp [byteLength]

/-! ## Whitespace that is alike -/

variable {c : Char}

theorem Alike.unicode (h : Alike c) : unicodeIsSpace c = goSpace c := h.1

theorem Alike.js (h : Alike c) : jsSpace c = goSpace c := h.2

/-- A character every side counts as whitespace, if one does. -/
theorem alike_of_goSpace (h : goSpace c = true) : Alike c := by
  simp only [goSpace, List.contains_iff_mem, List.mem_cons, List.not_mem_nil, or_false] at h
  rcases h with rfl | rfl | rfl | rfl | rfl <;> decide

/-- A character of a handle or a channel's name is no whitespace. -/
theorem goSpace_of_nameChar (h : isChannelNameChar c = true) : goSpace c = false := by
  by_contra hspace
  rw [Bool.not_eq_false] at hspace
  simp only [goSpace, List.contains_iff_mem, List.mem_cons, List.not_mem_nil, or_false] at hspace
  rcases hspace with rfl | rfl | rfl | rfl | rfl <;> revert h <;> decide

end Stoop.Markdown
