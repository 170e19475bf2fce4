import Stoop.Instance.TrustedProxy
import Stoop.Relay.Payloads

/-!
# Serving a file, or a part of one

`serveBlob` and `resolveRange` (`internal/files/serve.go`, `range.go`): the bytes of a file, or the window of them a
Range header asks for. A range that can't be honoured is either ignored, and the whole file sent, or refused when it
starts past the end.

Whatever the headers say, what is sent is the whole file or one window of it, with the length and the place it is said
to have (`served`), and a download taken in windows comes to the file it was cut from (`download`).

The file's row and its blob agree on its size: `FS.Put` refuses a blob of another size. Authorising the request, which
comes before, is left out.
-/

set_option autoImplicit false

namespace Stoop.Files.Serving

open Stoop.Instance.TrustedProxy (trimSpace)
open Stoop.Markdown (unicodeIsSpace)
open Stoop.Relay (atoi itoa digitsValue)

abbrev Text := List Char

inductive Status
  | ok
  | partialContent
  | notFound
  | rangeNotSatisfiable
  | internalServerError
  deriving DecidableEq, Repr

/-- What is read of a request: its method, and its headers, empty when absent. -/
structure Request where
  isHead : Bool
  range : Text
  ifRange : Text
  deriving DecidableEq, Repr

structure File where
  id : Text
  contentType : Text
  size : Nat
  deriving DecidableEq, Repr

/-! ## Ranges -/

/-- `strings.Cut`, at a character. -/
def cut (separator : Char) (s : Text) : Option (Text × Text) :=
  if separator ∈ s then some (s.takeWhile (· != separator), (s.dropWhile (· != separator)).tail) else none

def unit : Text := "bytes=".toList

/-- The last byte asked for: the file's, when none is; `none` where the range is malformed. -/
def lastByte (start : Int) (last : Text) (total : Nat) : Option Int :=
  if last = [] then some (total - 1)
  else
    match atoi last with
    | none => none
    | some e => if e < start then none else some (min e (total - 1))

/-- The offset and length to serve, with the status to send. -/
def resolveRange (h : Request) (etag : Text) (total : Nat) : Nat × Nat × Status :=
  let full := (0, total, Status.ok)
  let unsatisfiable := (0, 0, Status.rangeNotSatisfiable)
  if h.range = [] then full
  else if h.ifRange ≠ [] ∧ h.ifRange ≠ etag then full
  else if !unit.isPrefixOf (h.range.map Char.toLower) then full
  else
    let spec := trimSpace (h.range.drop unit.length)
    if ',' ∈ spec then full
    else
      match cut '-' spec with
      | none => full
      | some (before, after) =>
        let first := trimSpace before
        let last := trimSpace after
        if first = [] then
          -- bytes=-N: the last N bytes
          match atoi last with
          | none => full
          | some n =>
            if n ≤ 0 ∨ total = 0 then unsatisfiable
            else (total - min n.toNat total, min n.toNat total, .partialContent)
        else
          match atoi first with
          | none => full
          | some start =>
            if start < 0 then full
            else if start ≥ total then unsatisfiable
            else
              match lastByte start last total with
              | none => full
              | some e => (start.toNat, (e - start + 1).toNat, .partialContent)

/-! ## The answer -/

inductive Response
  /-- `http.Error`, or `http.NotFound`. -/
  | failed (status : Status) (contentRange : Option Text) (message : Text)
  | sent (status : Status) (headers : List (Text × Text)) (contentLength : Nat) (contentRange : Option Text)
    (body : List UInt8)
  deriving DecidableEq, Repr

def rasterTypes : List Text := ["image/png", "image/jpeg", "image/gif", "image/webp"].map String.toList

def playableTypes : List Text :=
  ["video/mp4", "video/webm", "video/quicktime", "audio/mpeg", "audio/mp4", "audio/wave", "audio/ogg",
    "application/ogg"].map String.toList

def etagOf (f : File) : Text := '"' :: f.id ++ ['"']

def disposition (f : File) : Text :=
  if rasterTypes.contains f.contentType || playableTypes.contains f.contentType then "inline".toList
  else "attachment; filename=\"".toList ++ f.id ++ ['"']

def headersOf (f : File) : List (Text × Text) :=
  [("Content-Type".toList, f.contentType), ("X-Content-Type-Options".toList, "nosniff".toList),
    ("Cache-Control".toList, "private, max-age=31536000, immutable".toList),
    ("Accept-Ranges".toList, "bytes".toList), ("ETag".toList, etagOf f),
    ("Content-Disposition".toList, disposition f)]

/-- `bytes first-last/total`. -/
def contentRangeOf (offset length total : Nat) : Text :=
  "bytes ".toList ++ itoa offset ++ '-' :: itoa (offset + length - 1) ++ '/' :: itoa total

/-- Why a blob doesn't open. -/
inductive OpenError
  | notFound
  | other
  deriving DecidableEq, Repr

/-- `FS.OpenRange`, of the blob there is. -/
def openRange (blob : Except OpenError (List UInt8)) (offset length : Nat) : Except OpenError (List UInt8) :=
  blob.map fun bytes => (bytes.drop offset).take length

def serveBlob (r : Request) (f : File) (blob : Except OpenError (List UInt8)) : Response :=
  let (offset, length, status) := resolveRange r (etagOf f) f.size
  if status = .rangeNotSatisfiable then
    .failed status (some ("bytes */".toList ++ itoa f.size)) "range not satisfiable".toList
  else
    let contentRange := if status = .partialContent then some (contentRangeOf offset length f.size) else none
    if r.isHead then .sent status (headersOf f) length contentRange []
    else
      match openRange blob offset length with
      | .error .notFound => .failed .notFound contentRange "404 page not found".toList
      | .error .other => .failed .internalServerError contentRange "internal error".toList
      | .ok body => .sent status (headersOf f) length contentRange body

/-! ## Whatever the headers say -/

theorem lastByte_eq_some {start e : Int} {last : Text} {total : Nat} (h : lastByte start last total = some e)
    (hstart : start < total) : start ≤ e ∧ e < total := by
  unfold lastByte at h
  split at h
  · obtain rfl := Option.some.inj h
    omega
  · split at h
    · cases h
    · split at h
      · cases h
      · obtain rfl := Option.some.inj h
        omega

/-- What a request's range comes to: the whole file, a window of it, or neither. -/
theorem resolveRange_cases (h : Request) (etag : Text) (total : Nat) :
    resolveRange h etag total = (0, total, .ok) ∨ resolveRange h etag total = (0, 0, .rangeNotSatisfiable) ∨
      ∃ offset length, resolveRange h etag total = (offset, length, .partialContent) ∧ 0 < length ∧
        offset + length ≤ total := by
  unfold resolveRange
  dsimp only
  split
  · exact .inl rfl
  split
  · exact .inl rfl
  split
  · exact .inl rfl
  split
  · exact .inl rfl
  split
  · exact .inl rfl
  next before after _ =>
    split
    · -- the last bytes
      split
      · exact .inl rfl
      next n _ =>
        split
        · exact .inr (.inl rfl)
        · exact .inr (.inr ⟨_, _, rfl, by omega, by omega⟩)
    · split
      · exact .inl rfl
      next start _ =>
        split
        · exact .inl rfl
        split
        · exact .inr (.inl rfl)
        next hstart =>
          split
          · exact .inl rfl
          next e hlast =>
            obtain ⟨hle, hlt⟩ := lastByte_eq_some hlast (by omega)
            exact .inr (.inr ⟨_, _, rfl, by omega, by omega⟩)

/-- The window of a file's bytes that starts at `offset`. -/
theorem window_append (bytes : List UInt8) {offset length : Nat} (h : offset + length ≤ bytes.length) :
    ∃ before after, bytes = before ++ (bytes.drop offset).take length ++ after ∧ before.length = offset ∧
      ((bytes.drop offset).take length).length = length := by
  refine ⟨bytes.take offset, (bytes.drop offset).drop length, ?_, ?_, ?_⟩
  · rw [List.append_assoc, List.take_append_drop, List.take_append_drop]
  · rw [List.length_take]
    omega
  · rw [List.length_take, List.length_drop]
    omega

/-- What a request to read a file can get. -/
inductive Served (f : File) (bytes : List UInt8) : Response → Prop
  | whole : Served f bytes (.sent .ok (headersOf f) f.size none bytes)
  | window (before body after : List UInt8) (hbytes : bytes = before ++ body ++ after) (hbody : body ≠ []) :
    Served f bytes (.sent .partialContent (headersOf f) body.length
      (some (contentRangeOf before.length body.length f.size)) body)
  | unsatisfiable : Served f bytes
      (.failed .rangeNotSatisfiable (some ("bytes */".toList ++ itoa f.size)) "range not satisfiable".toList)

/-- **Nothing but the file.** Whatever the headers say, a file that is there is sent whole, or a window of it with the
place and length it is said to have, or refused. -/
theorem served (r : Request) (f : File) (bytes : List UInt8) (hget : r.isHead = false) (hsize : bytes.length = f.size) :
    Served f bytes (serveBlob r f (.ok bytes)) := by
  unfold serveBlob
  rcases resolveRange_cases r (etagOf f) f.size with h | h | ⟨offset, length, h, hpos, hle⟩
  · have hall : bytes.take f.size = bytes := by rw [← hsize, List.take_length]
    have hserved : Served f bytes _ := .whole
    simpa [h, hget, openRange, Except.map, hall] using hserved
  · have hserved : Served f bytes _ := .unsatisfiable
    simpa [h] using hserved
  · obtain ⟨before, after, hbytes, hbefore, hlength⟩ := window_append bytes (hsize ▸ hle)
    have hbody : (bytes.drop offset).take length ≠ [] := List.ne_nil_of_length_pos (hlength.symm ▸ hpos)
    have hserved := Served.window (f := f) before _ after hbytes hbody
    rw [hbefore, hlength] at hserved
    simpa [h, hget, openRange, Except.map] using hserved

/-- A file of seven bytes. -/
def seven : File := ⟨"7".toList, "video/mp4".toList, 7⟩

theorem served_last_three :
    Served seven [1, 2, 3, 4, 5, 6, 7] (serveBlob ⟨false, "bytes=-3".toList, []⟩ seven (.ok [1, 2, 3, 4, 5, 6, 7])) :=
  served ⟨false, "bytes=-3".toList, []⟩ seven [1, 2, 3, 4, 5, 6, 7] rfl rfl

-- A number with a sign is read as one: no bytes are asked for here, and the request is refused, not ignored.
example : resolveRange ⟨false, "Bytes=--5".toList, []⟩ (etagOf seven) 7 = (0, 0, .rangeNotSatisfiable) := by decide

/-! ## A download in windows -/

theorem isDigit_of_mem_itoa {n : Nat} {c : Char} (h : c ∈ itoa n) : c.isDigit = true :=
  Nat.isDigit_of_mem_toDigits (by decide) (by decide) h

theorem digitsValue_itoa (n : Nat) : digitsValue (itoa n) = n := by
  have h := @Nat.ofDigitChars_ten_toDigits n
  rw [Nat.ofDigitChars_eq_foldl, show '0'.toNat = 48 from rfl] at h
  simpa only [digitsValue, itoa, Nat.mul_comm 10] using h

theorem atoi_itoa {n : Nat} (h : n < 2 ^ 63) : atoi (itoa n) = some (n : Int) := by
  have hall : (itoa n).all Char.isDigit = true := List.all_eq_true.mpr fun c hc => isDigit_of_mem_itoa hc
  have hvalue := digitsValue_itoa n
  have hne : itoa n ≠ [] := Nat.toDigits_ne_nil
  have hfirst : ∀ c ∈ (itoa n).head?, c ≠ '-' ∧ c ≠ '+' := by
    intro c hc
    have hdigit := isDigit_of_mem_itoa (List.mem_of_mem_head? hc)
    constructor <;> rintro rfl <;> exact absurd hdigit (by decide)
  unfold atoi
  split
  next negative digits heq =>
    split at heq
    next rest hitoa => exact absurd rfl (hfirst '-' (by rw [hitoa]; rfl)).1
    next rest hitoa => exact absurd rfl (hfirst '+' (by rw [hitoa]; rfl)).2
    next =>
      obtain ⟨rfl, rfl⟩ := Prod.mk.inj heq
      have hlt : n < 9223372036854775808 := h
      simp [hall, hvalue, hne, hlt]

/-- The request for a window: of the bytes from `first` to `last`, and of this file only. -/
def windowRequest (f : File) (first last : Nat) : Request := ⟨false, unit ++ (itoa first ++ '-' :: itoa last), etagOf f⟩

theorem not_space_of_isDigit {c : Char} (h : c.isDigit = true) : unicodeIsSpace c = false := by
  have hnone : (['\t', '\n', '\x0b', '\x0c', '\r', ' ', '\u0085', '\u00a0', '\u1680', '\u2000', '\u2001', '\u2002',
      '\u2003', '\u2004', '\u2005', '\u2006', '\u2007', '\u2008', '\u2009', '\u200a', '\u2028', '\u2029', '\u202f',
      '\u205f', '\u3000'].all fun d => !d.isDigit) = true := by decide
  cases hspace : unicodeIsSpace c with
  | false => rfl
  | true =>
    have hnot := List.all_eq_true.mp hnone c (List.contains_iff_mem.mp hspace)
    rw [h] at hnot
    exact absurd hnot (by decide)

/-- Nothing to trim where no character is blank. -/
theorem trimSpace_eq_self {s : Text} (h : ∀ c ∈ s, unicodeIsSpace c = false) : trimSpace s = s := by
  have hleft : s.dropWhile unicodeIsSpace = s := by
    cases s with
    | nil => rfl
    | cons c s => exact List.dropWhile_cons_of_neg (by simp [h c List.mem_cons_self])
  have hright : s.rdropWhile unicodeIsSpace = s := by
    rw [List.rdropWhile_eq_self_iff]
    exact fun hne => by simp [h _ (List.getLast_mem hne)]
  rw [trimSpace, hleft, hright]

theorem cut_append {separator : Char} {before after : Text} (h : separator ∉ before) :
    cut separator (before ++ separator :: after) = some (before, after) := by
  have hbefore : ∀ c ∈ before, (c != separator) = true := by
    intro c hc
    exact bne_iff_ne.mpr fun heq => h (heq ▸ hc)
  have htake : (before ++ separator :: after).takeWhile (· != separator) = before := by
    rw [List.takeWhile_append_of_pos hbefore]
    simp
  have hdrop : (before ++ separator :: after).dropWhile (· != separator) = separator :: after := by
    rw [List.dropWhile_append_of_pos hbefore]
    simp
  rw [cut, if_pos (by simp), htake, hdrop]
  rfl

/-- A window asked for is the window resolved, up to the file's end. -/
theorem resolveRange_window {f : File} {first last : Nat} (hle : first ≤ last) (hfirst : first < f.size)
    (hlast : last < 2 ^ 63) :
    resolveRange (windowRequest f first last) (etagOf f) f.size =
      (first, min (last + 1) f.size - first, .partialContent) := by
  have hplain : ∀ c ∈ itoa first ++ '-' :: itoa last, unicodeIsSpace c = false ∧ c ≠ ',' := by
    intro c hc
    have hcases : c.isDigit = true ∨ c = '-' := by
      simp only [List.mem_append, List.mem_cons] at hc
      rcases hc with hc | rfl | hc
      · exact .inl (isDigit_of_mem_itoa hc)
      · exact .inr rfl
      · exact .inl (isDigit_of_mem_itoa hc)
    rcases hcases with hc | rfl
    · exact ⟨not_space_of_isDigit hc, fun heq => absurd (heq ▸ hc) (by decide)⟩
    · exact ⟨by decide, by decide⟩
  have hdigits : ∀ n, trimSpace (itoa n) = itoa n := fun n =>
    trimSpace_eq_self fun c hc => not_space_of_isDigit (isDigit_of_mem_itoa hc)
  have hdash : '-' ∉ itoa first := fun hc => absurd (isDigit_of_mem_itoa hc) (by decide)
  have hunit : unit.isPrefixOf ((unit ++ (itoa first ++ '-' :: itoa last)).map Char.toLower) = true := by
    rw [List.map_append, List.isPrefixOf_iff_prefix]
    exact List.prefix_append unit _
  have hcomma : ',' ∉ itoa first ++ '-' :: itoa last := fun hc => (hplain ',' hc).2 rfl
  have hne : ∀ n, itoa n ≠ [] := fun n => Nat.toDigits_ne_nil
  simp only [resolveRange, windowRequest, List.drop_left, trimSpace_eq_self fun c hc => (hplain c hc).1, cut_append hdash,
    hdigits, hunit, hcomma, hne, atoi_itoa (Nat.lt_of_le_of_lt hle hlast), lastByte, atoi_itoa hlast]
  have hasked : unit ++ (itoa first ++ '-' :: itoa last) ≠ [] := by simp [unit]
  rw [if_neg hasked, if_neg fun h => h.2 rfl, if_neg (by decide), if_neg id, if_neg id, if_neg (by omega),
    if_neg (by omega), if_neg id, if_neg (by omega)]
  refine Prod.ext (Int.toNat_natCast first) (Prod.ext ?_ rfl)
  show (min (last : Int) (f.size - 1) - first + 1).toNat = min (last + 1) f.size - first
  omega

/-- What a window asked for is sent. -/
theorem serveBlob_window {f : File} {bytes : List UInt8} {first last : Nat} (hsize : bytes.length = f.size)
    (hle : first ≤ last) (hfirst : first < f.size) (hlast : last < 2 ^ 63) :
    ∃ contentRange, serveBlob (windowRequest f first last) f (.ok bytes) =
      .sent .partialContent (headersOf f) (min (last + 1) f.size - first) contentRange
        ((bytes.drop first).take (last + 1 - first)) := by
  have htake : (bytes.drop first).take (min (last + 1) f.size - first) = (bytes.drop first).take (last + 1 - first) := by
    rcases Nat.le_total (last + 1) f.size with hin | hout
    · rw [Nat.min_eq_left hin]
    · rw [Nat.min_eq_right hout, List.take_of_length_le, List.take_of_length_le] <;> rw [List.length_drop] <;> omega
  refine ⟨some (contentRangeOf first (min (last + 1) f.size - first) f.size), ?_⟩
  simp only [serveBlob, resolveRange_window hle hfirst hlast, openRange, Except.map, htake]
  rfl

def Response.body : Response → List UInt8
  | .failed _ _ _ => []
  | .sent _ _ _ _ body => body

/-- What a client has that asks for windows of the lengths given, one after the other, until it has the file's end. -/
def download (f : File) (blob : Except OpenError (List UInt8)) : Nat → List Nat → List UInt8
  | _, [] => []
  | first, length :: lengths =>
    if f.size ≤ first then []
    else
      (serveBlob (windowRequest f first (first + length - 1)) f blob).body ++ download f blob (first + length) lengths

/-- **A file in windows is the file.** However a client cuts it up, and though its last window may ask for more than
there is, what it puts together is what was stored. -/
theorem download_eq (f : File) (bytes : List UInt8) (lengths : List Nat) (hsize : bytes.length = f.size)
    (hlengths : ∀ n ∈ lengths, 0 < n ∧ f.size + n ≤ 2 ^ 63) (hall : f.size ≤ lengths.sum) :
    download f (.ok bytes) 0 lengths = bytes := by
  have hfrom : ∀ (ns : List Nat) (first : Nat), (∀ n ∈ ns, 0 < n ∧ f.size + n ≤ 2 ^ 63) → f.size ≤ first + ns.sum →
      download f (.ok bytes) first ns = bytes.drop first := by
    intro ns
    induction ns with
    | nil =>
      intro first _ hrest
      rw [List.sum_nil, Nat.add_zero] at hrest
      exact (List.drop_of_length_le (hsize ▸ hrest)).symm
    | cons n ns ih =>
      intro first hns hrest
      rw [List.sum_cons, ← Nat.add_assoc] at hrest
      unfold download
      split
      next hend => exact (List.drop_of_length_le (hsize ▸ hend)).symm
      next hmore =>
        obtain ⟨hpos, hint⟩ := hns n List.mem_cons_self
        obtain ⟨contentRange, hserved⟩ := serveBlob_window hsize (show first ≤ first + n - 1 by omega) (by omega) (by omega)
        have hlength : first + n - 1 + 1 - first = n := by omega
        rw [hserved, ih (first + n) (fun m hm => hns m (List.mem_cons_of_mem n hm)) hrest, ← List.drop_drop]
        show (bytes.drop first).take (first + n - 1 + 1 - first) ++ (bytes.drop first).drop n = bytes.drop first
        rw [hlength, List.take_append_drop]
  exact hfrom lengths 0 hlengths (Nat.le_trans hall (Nat.le_add_left _ _))

theorem download_eq_seven : download seven (.ok [1, 2, 3, 4, 5, 6, 7]) 0 [3, 3, 3] = [1, 2, 3, 4, 5, 6, 7] :=
  download_eq seven [1, 2, 3, 4, 5, 6, 7] [3, 3, 3] rfl (by decide) (by decide)

end Stoop.Files.Serving
