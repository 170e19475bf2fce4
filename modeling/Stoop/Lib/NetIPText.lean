import Mathlib.Data.List.TakeWhile
import Stoop.Lib.NetIP

/-!
# IP addresses and prefixes as text

`ParseAddr`, `ParsePrefix` and the two `String` methods of Go's `net/netip`. What is refused is refused whatever
the reason, so the readers answer nothing there.

A prefix reads back as it was written (`parsePrefix_text`), and so does an address without a zone
(`parseAddr_text`). Of an address of the sixth version the first longest run of zeros is left out, but the reader
takes back any run of them wherever it is (`readGroups_gap`).
-/

set_option autoImplicit false

namespace Stoop.Lib.NetIP

/-! ## Reading addresses -/

def hexValue (c : Char) : Option Nat :=
  if c.isDigit then some (c.toNat - '0'.toNat)
  else if 'a' ≤ c ∧ c ≤ 'f' then some (c.toNat - 'a'.toNat + 10)
  else if 'A' ≤ c ∧ c ≤ 'F' then some (c.toNat - 'A'.toNat + 10)
  else none

def isHex (c : Char) : Bool := (hexValue c).isSome

/-- `parseIPv4Fields`, with the fields so far, and the value and length of the one being read. -/
def ipv4Fields (fields : List Nat) (val digLen : Nat) : Text → Option (List Nat)
  | [] => if fields.length < 3 then none else some (fields ++ [val])
  | c :: rest =>
    if c.isDigit then
      if digLen = 1 ∧ val = 0 then none
      else
        let val := val * 10 + (c.toNat - '0'.toNat)
        if 255 < val then none else ipv4Fields fields val (digLen + 1) rest
    else if c = '.' then
      if digLen = 0 ∨ rest = [] then none
      else if fields.length = 3 then none
      else ipv4Fields (fields ++ [val]) 0 0 rest
    else none

def parseIPv4 (s : Text) : Option Addr :=
  (ipv4Fields [] 0 0 s).map fun fields => .v4 (BitVec.ofNat 32 (ofDigits 256 fields))

/-- The number a text begins with, and what follows it; of no digit or more than four there is none. -/
def hexGroup (s : Text) : Option (Nat × Text) :=
  let digits := s.takeWhile isHex
  if digits = [] ∨ 4 < digits.length then none
  else some (digits.foldl (fun n c => n * 16 + (hexValue c).getD 0) 0, s.dropWhile isHex)

/-- The groups `parseIPv6` has read, and how many of them lie before the ellipsis. -/
structure Groups where
  groups : List Nat
  ellipsis : Option Nat
  deriving DecidableEq, Repr

def Groups.push (got : Groups) (group : Nat) : Groups := { got with groups := got.groups ++ [group] }

/-- The loop of `parseIPv6`: what it has read when the address is full or the text ends, and the text left. -/
def readGroups : Nat → Groups → Text → Option (Groups × Text)
  | 0, got, s => some (got, s)
  | left + 1, got, s =>
    match hexGroup s with
    | none => none
    | some (group, rest) =>
      match rest with
      | [] => some (got.push group, [])
      | '.' :: _ =>
        if got.ellipsis = none ∧ got.groups.length ≠ 6 then none
        else if 8 < got.groups.length + 2 then none
        else
          (ipv4Fields [] 0 0 s).map fun fields =>
            ((got.push (ofDigits 256 (fields.take 2))).push (ofDigits 256 (fields.drop 2)), [])
      | [':'] => none
      | ':' :: ':' :: rest =>
        if got.ellipsis.isSome then none
        else
          let next := { got.push group with ellipsis := some (got.groups.length + 1) }
          if rest = [] then some (next, []) else readGroups left next rest
      | ':' :: rest => readGroups left (got.push group) rest
      | _ => none

/-- The ellipsis stands for the groups missing, of which there is at least one. -/
def Groups.expand (got : Groups) : Option (List Nat) :=
  if got.groups.length < 8 then
    got.ellipsis.map fun start =>
      got.groups.take start ++ List.replicate (8 - got.groups.length) 0 ++ got.groups.drop start
  else if got.ellipsis.isSome then none
  else some got.groups

/-- An address and its zone; after a percent sign the zone is not empty. -/
def splitZone (s : Text) : Option (Text × Text) :=
  match s.dropWhile (· != '%') with
  | [] => some (s, [])
  | [_] => none
  | _ :: zone => some (s.takeWhile (· != '%'), zone)

/-- The groups of an address, whose first two characters may be the ellipsis, and its last. -/
def readAll : Text → Option (Groups × Text)
  | ':' :: ':' :: rest => if rest = [] then some (⟨[], some 0⟩, []) else readGroups 8 ⟨[], some 0⟩ rest
  | s => readGroups 8 ⟨[], none⟩ s

def parseIPv6 (s : Text) : Option Addr :=
  match splitZone s with
  | none => none
  | some (addr, zone) =>
    match readAll addr with
    | some (got, []) => got.expand.map fun groups => .v6 (BitVec.ofNat 128 (ofDigits 65536 groups)) zone
    | _ => none

def parseAddr (s : Text) : Option Addr :=
  match s.find? fun c => c == '.' || c == ':' || c == '%' with
  | some '.' => parseIPv4 s
  | some ':' => parseIPv6 s
  | _ => none

/-! ## Reading prefixes -/

/-- A text around the last of a character. -/
def splitLast (c : Char) : Text → Option (Text × Text)
  | [] => none
  | d :: rest =>
    match splitLast c rest with
    | some (before, after) => some (d :: before, after)
    | none => if d = c then some ([], rest) else none

def decimalValue (s : Text) : Nat := s.foldl (fun n c => n * 10 + (c.toNat - '0'.toNat)) 0

/-- A length as it is written in a prefix: digits, with no zero before others. -/
def parseBits (s : Text) : Option Nat :=
  if s = [] ∨ s.all Char.isDigit = false ∨ 1 < s.length ∧ s.head? = some '0' then none else some (decimalValue s)

def parsePrefix (s : Text) : Option Prefix :=
  match splitLast '/' s with
  | none => none
  | some (before, after) =>
    match parseAddr before, parseBits after with
    | some (.v4 addr), some bits => if h : bits < 33 then some (.v4 addr ⟨bits, h⟩) else none
    | some (.v6 addr []), some bits => if h : bits < 129 then some (.v6 addr ⟨bits, h⟩) else none
    | _, _ => none

/-! ## Writing -/

/-- `appendDecimal`, of a byte. -/
def decimal (n : Nat) : Text :=
  (if 100 ≤ n then [Nat.digitChar (n / 100)] else []) ++
    (if 10 ≤ n then [Nat.digitChar (n / 10 % 10)] else []) ++ [Nat.digitChar (n % 10)]

/-- `appendHex`, of two bytes. -/
def hexadecimal (n : Nat) : Text :=
  (if 0x1000 ≤ n then [Nat.digitChar (n / 0x1000)] else []) ++
    (if 0x100 ≤ n then [Nat.digitChar (n / 0x100 % 16)] else []) ++
      (if 0x10 ≤ n then [Nat.digitChar (n / 0x10 % 16)] else []) ++ [Nat.digitChar (n % 16)]

def joined (separator : Char) : List Text → Text
  | [] => []
  | [t] => t
  | t :: ts => t ++ separator :: joined separator ts

def colons (groups : List Nat) : Text := joined ':' (groups.map hexadecimal)

def string4 (bits : BitVec 32) : Text := joined '.' ((digits 256 4 bits.toNat).map decimal)

/-- How many zeros lie at a place. -/
def zeroRun (groups : List Nat) (start : Nat) : Nat := ((groups.drop start).takeWhile (· == 0)).length

/-- Where the first longest run of two zeros or more is, and its length; of none the length is nothing. -/
def longestZeros (groups : List Nat) : Nat × Nat :=
  (List.range 8).foldl
    (fun best i => if 2 ≤ zeroRun groups i ∧ best.2 < zeroRun groups i then (i, zeroRun groups i) else best)
    (0, 0)

def string6 (bits : BitVec 128) : Text :=
  let groups := digits 65536 8 bits.toNat
  let (start, length) := longestZeros groups
  if length = 0 then colons groups
  else colons (groups.take start) ++ "::".toList ++ colons (groups.drop (start + length))

def zoneText (zone : Text) : Text := if zone = [] then [] else '%' :: zone

/-- `Addr.String`. -/
def Addr.text : Addr → Text
  | .v4 bits => string4 bits
  | .v6 bits zone =>
    (if isMapped bits then "::ffff:".toList ++ string4 (BitVec.ofNat 32 bits.toNat) else string6 bits) ++
      zoneText zone

/-- `Prefix.Addr`. -/
def Prefix.addr : Prefix → Addr
  | .v4 addr _ => .v4 addr
  | .v6 addr _ => .v6 addr []

/-- `Prefix.Bits`. -/
def Prefix.bits : Prefix → Nat
  | .v4 _ bits => bits
  | .v6 _ bits => bits

/-- `Addr.BitLen`. -/
def Addr.bitLen : Addr → Nat
  | .v4 _ => 32
  | .v6 _ _ => 128

/-- `Prefix.String`. -/
def Prefix.text (p : Prefix) : Text := p.addr.text ++ '/' :: decimal p.bits

theorem Prefix.addr_withoutZone (p : Prefix) : p.addr.withoutZone = p.addr := by cases p <;> rfl

theorem Prefix.single_addr {p : Prefix} (h : p.bits = p.addr.bitLen) : .single p.addr = p := by
  cases p with
  | v4 addr bits => exact congrArg (Prefix.v4 addr) (Fin.ext h.symm)
  | v6 addr bits => exact congrArg (Prefix.v6 addr) (Fin.ext h.symm)

/-! ## Digits read back -/

theorem hexValue_digitChar : ∀ d < 16, hexValue (Nat.digitChar d) = some d := by decide

theorem isDigit_digitChar : ∀ d < 10, (Nat.digitChar d).isDigit = true := by decide

theorem value_digitChar : ∀ d < 10, (Nat.digitChar d).toNat - '0'.toNat = d := by decide

theorem ipv4Fields_digit {d : Nat} (hd : d < 10) (fields : List Nat) (val digLen : Nat) (rest : Text)
    (hzero : ¬ (digLen = 1 ∧ val = 0)) (hsmall : val * 10 + d < 256) :
    ipv4Fields fields val digLen (Nat.digitChar d :: rest) =
      ipv4Fields fields (val * 10 + d) (digLen + 1) rest := by
  rw [ipv4Fields, if_pos (isDigit_digitChar d hd), if_neg hzero]
  simp only [value_digitChar d hd]
  rw [if_neg (by omega)]

/-- A byte as it is written is read as one field. -/
theorem ipv4Fields_decimal {n : Nat} (hn : n < 256) (fields : List Nat) (rest : Text) :
    ipv4Fields fields 0 0 (decimal n ++ rest) = ipv4Fields fields n (decimal n).length rest := by
  unfold decimal
  by_cases hten : 10 ≤ n
  · by_cases hhundred : 100 ≤ n
    · rw [if_pos hhundred, if_pos hten]
      simp only [List.cons_append, List.nil_append, List.length_cons, List.length_nil]
      rw [ipv4Fields_digit (by omega) _ _ _ _ (by omega) (by omega),
        ipv4Fields_digit (by omega) _ _ _ _ (by omega) (by omega),
        ipv4Fields_digit (by omega) _ _ _ _ (by omega) (by omega)]
      congr 1
      omega
    · rw [if_neg hhundred, if_pos hten]
      simp only [List.cons_append, List.nil_append, List.length_cons, List.length_nil]
      rw [ipv4Fields_digit (by omega) _ _ _ _ (by omega) (by omega),
        ipv4Fields_digit (by omega) _ _ _ _ (by omega) (by omega)]
      congr 1
      omega
  · rw [if_neg (by omega), if_neg hten]
    simp only [List.cons_append, List.nil_append, List.length_cons, List.length_nil]
    rw [ipv4Fields_digit (by omega) _ _ _ _ (by omega) (by omega)]
    congr 1
    omega

theorem length_decimal_pos (n : Nat) : 0 < (decimal n).length := by
  unfold decimal
  rw [List.length_append]
  exact Nat.lt_of_lt_of_le Nat.zero_lt_one (Nat.le_add_left 1 _)

theorem decimal_ne_nil (n : Nat) : decimal n ≠ [] := List.ne_nil_of_length_pos (length_decimal_pos n)

theorem joined_cons (separator : Char) (t u : Text) (ts : List Text) :
    joined separator (t :: u :: ts) = t ++ separator :: joined separator (u :: ts) := rfl

theorem joined_ne_nil {separator : Char} {t : Text} (ht : t ≠ []) (ts : List Text) :
    joined separator (t :: ts) ≠ [] := by
  cases ts with
  | nil => exact ht
  | cons u ts => exact List.append_ne_nil_of_left_ne_nil ht _

/-- Bytes between dots are read as the fields they are, if there are four with those before. -/
theorem ipv4Fields_joined (fields ds : List Nat) (hne : ds ≠ []) (hsmall : ∀ d ∈ ds, d < 256)
    (hfour : fields.length + ds.length = 4) :
    ipv4Fields fields 0 0 (joined '.' (ds.map decimal)) = some (fields ++ ds) := by
  induction ds generalizing fields with
  | nil => exact absurd rfl hne
  | cons d ds ih =>
    have hd : d < 256 := hsmall d List.mem_cons_self
    cases ds with
    | nil =>
      have hread := ipv4Fields_decimal hd fields []
      rw [List.append_nil] at hread
      rw [List.map_cons, List.map_nil, joined, hread, ipv4Fields, if_neg]
      rw [List.length_singleton] at hfour
      omega
    | cons e ds =>
      have hdot : Char.isDigit '.' = false := by decide
      have hlen := length_decimal_pos d
      have hrest : joined '.' (decimal e :: ds.map decimal) ≠ [] := joined_ne_nil (decimal_ne_nil e) _
      rw [List.length_cons, List.length_cons] at hfour
      rw [List.map_cons, List.map_cons, joined_cons, ipv4Fields_decimal hd, ipv4Fields, hdot,
        if_neg Bool.false_ne_true, if_pos rfl, if_neg (not_or.mpr ⟨by omega, hrest⟩), if_neg (by omega),
        ← List.map_cons]
      rw [ih (fields ++ [d]) (List.cons_ne_nil e ds) (fun c hc => hsmall c (List.mem_cons_of_mem d hc)) (by
          rw [List.length_append, List.length_singleton, List.length_cons]
          omega), List.append_assoc, List.singleton_append]

theorem ipv4Fields_string4 (bits : BitVec 32) :
    ipv4Fields [] 0 0 (string4 bits) = some (digits 256 4 bits.toNat) := by
  have hread := ipv4Fields_joined [] (digits 256 4 bits.toNat) (List.ne_nil_of_length_pos (by simp))
    (fun d hd => lt_of_mem_digits (by decide) hd) (by simp)
  rw [List.nil_append] at hread
  exact hread

/-! ## Groups read back -/

theorem isHex_digitChar {d : Nat} (hd : d < 16) : isHex (Nat.digitChar d) = true := by
  rw [isHex, hexValue_digitChar d hd]
  rfl

theorem hexValue_getD {d : Nat} (hd : d < 16) : (hexValue (Nat.digitChar d)).getD 0 = d := by
  rw [hexValue_digitChar d hd]
  rfl

theorem isHex_of_mem_hexadecimal {n : Nat} (hn : n < 65536) : ∀ c ∈ hexadecimal n, isHex c = true := by
  intro c hc
  unfold hexadecimal at hc
  simp only [List.mem_append, List.mem_ite_nil_right, List.mem_singleton] at hc
  obtain ((⟨-, rfl⟩ | ⟨-, rfl⟩) | ⟨-, rfl⟩) | rfl := hc
  · exact isHex_digitChar (by omega)
  · exact isHex_digitChar (Nat.mod_lt _ (by decide))
  · exact isHex_digitChar (Nat.mod_lt _ (by decide))
  · exact isHex_digitChar (Nat.mod_lt _ (by decide))

theorem length_hexadecimal (n : Nat) : 0 < (hexadecimal n).length ∧ (hexadecimal n).length ≤ 4 := by
  unfold hexadecimal
  simp only [List.length_append, List.length_singleton]
  refine ⟨Nat.succ_pos _, ?_⟩
  have hlen : ∀ (p : Prop) [Decidable p] (c : Char), (if p then [c] else []).length ≤ 1 := by
    intro p _ c
    split
    · exact Nat.le_refl 1
    · exact Nat.zero_le 1
  have h1 := hlen (0x1000 ≤ n) (Nat.digitChar (n / 0x1000))
  have h2 := hlen (0x100 ≤ n) (Nat.digitChar (n / 0x100 % 16))
  have h3 := hlen (0x10 ≤ n) (Nat.digitChar (n / 0x10 % 16))
  omega

theorem foldl_hexadecimal {n : Nat} (hn : n < 65536) :
    (hexadecimal n).foldl (fun n c => n * 16 + (hexValue c).getD 0) 0 = n := by
  have htop : n / 0x1000 < 16 := by omega
  have hmod : ∀ m, m % 16 < 16 := fun m => Nat.mod_lt m (by decide)
  unfold hexadecimal
  by_cases h1 : 0x1000 ≤ n
  · rw [if_pos h1, if_pos (by omega), if_pos (by omega)]
    simp only [List.cons_append, List.nil_append, List.foldl_cons, List.foldl_nil,
      hexValue_getD htop, hexValue_getD (hmod _)]
    omega
  · rw [if_neg h1]
    by_cases h2 : 0x100 ≤ n
    · rw [if_pos h2, if_pos (by omega)]
      simp only [List.cons_append, List.nil_append, List.foldl_cons, List.foldl_nil,
        hexValue_getD (hmod _)]
      omega
    · rw [if_neg h2]
      by_cases h3 : 0x10 ≤ n
      · rw [if_pos h3]
        simp only [List.cons_append, List.nil_append, List.foldl_cons, List.foldl_nil,
          hexValue_getD (hmod _)]
        omega
      · rw [if_neg h3]
        simp only [List.nil_append, List.foldl_cons, List.foldl_nil, hexValue_getD (hmod _)]
        omega

/-- One to four digits are read as one group, if no further digit follows. -/
theorem hexGroup_append {ds rest : Text} (hall : ∀ c ∈ ds, isHex c = true) (hpos : 0 < ds.length)
    (hfour : ds.length ≤ 4) (hrest : ∀ c, rest.head? = some c → isHex c = false) :
    hexGroup (ds ++ rest) = some (ds.foldl (fun n c => n * 16 + (hexValue c).getD 0) 0, rest) := by
  have hstop : rest.takeWhile isHex = [] ∧ rest.dropWhile isHex = rest := by
    cases rest with
    | nil => exact ⟨rfl, rfl⟩
    | cons c rest =>
      have hc := hrest c rfl
      exact ⟨List.takeWhile_cons_of_neg (by simp [hc]), List.dropWhile_cons_of_neg (by simp [hc])⟩
  have htake : (ds ++ rest).takeWhile isHex = ds := by
    rw [List.takeWhile_append_of_pos hall, hstop.1, List.append_nil]
  have hdrop : (ds ++ rest).dropWhile isHex = rest := by
    rw [List.dropWhile_append_of_pos hall, hstop.2]
  simp only [hexGroup, htake, hdrop]
  rw [if_neg (not_or.mpr ⟨List.ne_nil_of_length_pos hpos, by omega⟩)]

theorem hexGroup_hexadecimal {n : Nat} (hn : n < 65536) {rest : Text}
    (hrest : ∀ c, rest.head? = some c → isHex c = false) : hexGroup (hexadecimal n ++ rest) = some (n, rest) := by
  obtain ⟨hpos, hfour⟩ := length_hexadecimal n
  rw [hexGroup_append (isHex_of_mem_hexadecimal hn) hpos hfour hrest, foldl_hexadecimal hn]

section

variable {left g : Nat} {got : Groups} {s : Text}

theorem readGroups_end (h : hexGroup s = some (g, [])) :
    readGroups (left + 1) got s = some (got.push g, []) := by
  rw [readGroups, h]

theorem readGroups_colon {c : Char} {t : Text} (hc : c ≠ ':') (h : hexGroup s = some (g, ':' :: c :: t)) :
    readGroups (left + 1) got s = readGroups left (got.push g) (c :: t) := by
  rw [readGroups, h]
  simp [hc]

theorem readGroups_ellipsis {t : Text} (hnone : got.ellipsis = none)
    (h : hexGroup s = some (g, ':' :: ':' :: t)) :
    readGroups (left + 1) got s =
      if t = [] then some ({ got.push g with ellipsis := some (got.groups.length + 1) }, [])
      else readGroups left { got.push g with ellipsis := some (got.groups.length + 1) } t := by
  rw [readGroups, h]
  simp [hnone]

theorem hexadecimal_cons (n : Nat) (hn : n < 65536) : ∃ c t, hexadecimal n = c :: t ∧ isHex c = true := by
  obtain ⟨c, t, ht⟩ := List.exists_cons_of_ne_nil (List.ne_nil_of_length_pos (length_hexadecimal n).1)
  exact ⟨c, t, ht, isHex_of_mem_hexadecimal hn c (ht ▸ List.mem_cons_self)⟩

/-- Groups begin with a digit. -/
theorem colons_cons {n : Nat} (hn : n < 65536) (gs : List Nat) :
    ∃ c t, colons (n :: gs) = c :: t ∧ c ≠ ':' := by
  obtain ⟨c, t, ht, hc⟩ := hexadecimal_cons n hn
  have hcolon : c ≠ ':' := by
    rintro rfl
    exact absurd hc (by decide)
  cases gs with
  | nil => exact ⟨c, t, ht, hcolon⟩
  | cons m gs => exact ⟨c, t ++ ':' :: colons (m :: gs), by rw [← List.cons_append, ← ht]; rfl, hcolon⟩

theorem hexGroup_colons {n : Nat} (hn : n < 65536) {t : Text} :
    hexGroup (hexadecimal n ++ ':' :: t) = some (n, ':' :: t) := by
  refine hexGroup_hexadecimal hn fun c hc => ?_
  obtain rfl := Option.some.inj hc
  decide

theorem readGroups_colons (gs : List Nat) (hne : gs ≠ []) (hsmall : ∀ g ∈ gs, g < 65536)
    (hleft : gs.length ≤ left) :
    readGroups left got (colons gs) = some ({ got with groups := got.groups ++ gs }, []) := by
  induction gs generalizing left got with
  | nil => exact absurd rfl hne
  | cons g gs ih =>
    have hg : g < 65536 := hsmall g List.mem_cons_self
    obtain ⟨left, rfl⟩ := Nat.exists_eq_add_of_le' (Nat.lt_of_lt_of_le (Nat.succ_pos _) hleft)
    cases gs with
    | nil =>
      have hread := @hexGroup_hexadecimal g hg [] nofun
      rw [List.append_nil] at hread
      exact readGroups_end hread
    | cons m gs =>
      obtain ⟨c, t, ht, hc⟩ := colons_cons (hsmall m (List.mem_cons_of_mem g List.mem_cons_self)) gs
      have hread : hexGroup (colons (g :: m :: gs)) = some (g, ':' :: c :: t) := by
        rw [← ht]
        exact hexGroup_colons hg
      rw [readGroups_colon hc hread, ← ht, ih (List.cons_ne_nil m gs)
        (fun n hn => hsmall n (List.mem_cons_of_mem g hn)) (Nat.le_of_succ_le_succ hleft), Groups.push,
        List.append_assoc, List.singleton_append]

/-- Groups on either side of the ellipsis are read as those they are. -/
theorem readGroups_gap (pre post : List Nat) (hne : pre ≠ []) (hpre : ∀ g ∈ pre, g < 65536)
    (hpost : ∀ g ∈ post, g < 65536) (hnone : got.ellipsis = none) (hleft : pre.length + post.length ≤ left) :
    readGroups left got (colons pre ++ ':' :: ':' :: colons post) =
      some (⟨got.groups ++ pre ++ post, some (got.groups.length + pre.length)⟩, []) := by
  induction pre generalizing left got with
  | nil => exact absurd rfl hne
  | cons g pre ih =>
    have hg : g < 65536 := hpre g List.mem_cons_self
    rw [List.length_cons] at hleft
    obtain ⟨left, rfl⟩ := Nat.exists_eq_add_of_le' (show 0 < left by omega)
    cases pre with
    | nil =>
      have hread : hexGroup (colons [g] ++ ':' :: ':' :: colons post) = some (g, ':' :: ':' :: colons post) :=
        hexGroup_colons hg
      rw [readGroups_ellipsis hnone hread]
      cases post with
      | nil => simp [colons, joined, Groups.push]
      | cons m post =>
        obtain ⟨c, t, ht, -⟩ := colons_cons (hpost m List.mem_cons_self) post
        rw [if_neg (by rw [ht]; exact List.cons_ne_nil c t), readGroups_colons _ (List.cons_ne_nil m post) hpost
          (by simp only [List.length_nil] at hleft; omega), Groups.push]
        rfl
    | cons m pre =>
      obtain ⟨c, t, ht, hc⟩ := colons_cons (hpre m (List.mem_cons_of_mem g List.mem_cons_self)) pre
      have hread : hexGroup (colons (g :: m :: pre) ++ ':' :: ':' :: colons post) =
          some (g, ':' :: c :: (t ++ ':' :: ':' :: colons post)) := by
        rw [← List.cons_append, ← ht]
        have hcolons : colons (g :: m :: pre) = hexadecimal g ++ ':' :: colons (m :: pre) := rfl
        rw [hcolons, List.append_assoc, List.cons_append]
        exact hexGroup_colons hg
      have hrest := @ih left (got.push g) (List.cons_ne_nil m pre)
        (fun n hn => hpre n (List.mem_cons_of_mem g hn)) hnone (by omega)
      have hcount :
          (got.push g).groups.length + (m :: pre).length = got.groups.length + (g :: m :: pre).length := by
        simp only [Groups.push, List.length_append, List.length_cons, List.length_nil]
        omega
      have hgroups : (got.push g).groups ++ (m :: pre) = got.groups ++ (g :: m :: pre) := by
        rw [Groups.push, List.append_assoc, List.singleton_append]
      rw [readGroups_colon hc hread, ← List.cons_append, ← ht, hrest, hcount, hgroups]

end

/-- Either side of the ellipsis may be empty. -/
theorem readAll_gap (pre post : List Nat) (hpre : ∀ g ∈ pre, g < 65536) (hpost : ∀ g ∈ post, g < 65536)
    (hlen : pre.length + post.length ≤ 8) :
    readAll (colons pre ++ ':' :: ':' :: colons post) = some (⟨pre ++ post, some pre.length⟩, []) := by
  cases pre with
  | nil =>
    have hopen : colons [] ++ ':' :: ':' :: colons post = ':' :: ':' :: colons post := rfl
    rw [hopen, readAll]
    cases post with
    | nil => rfl
    | cons m post =>
      obtain ⟨c, t, ht, -⟩ := colons_cons (hpost m List.mem_cons_self) post
      rw [if_neg (by rw [ht]; exact List.cons_ne_nil c t), readGroups_colons _ (List.cons_ne_nil m post) hpost
        (by rw [List.length_nil] at hlen; omega)]
      rfl
  | cons g pre =>
    obtain ⟨c, t, ht, hc⟩ := colons_cons (hpre g List.mem_cons_self) pre
    have hread := @readGroups_gap 8 ⟨[], none⟩ (g :: pre) post (List.cons_ne_nil g pre) hpre hpost rfl hlen
    rw [ht, List.cons_append] at hread ⊢
    have hopen : ∀ u, readAll (c :: u) = readGroups 8 ⟨[], none⟩ (c :: u) := fun u => by simp [readAll, hc]
    rw [hopen, hread]
    simp

theorem readAll_colons {gs : List Nat} (hne : gs ≠ []) (hsmall : ∀ g ∈ gs, g < 65536) (hlen : gs.length ≤ 8) :
    readAll (colons gs) = some (⟨gs, none⟩, []) := by
  obtain ⟨g, gs, rfl⟩ := List.exists_cons_of_ne_nil hne
  obtain ⟨c, t, ht, hc⟩ := colons_cons (hsmall g List.mem_cons_self) gs
  have hread := @readGroups_colons 8 ⟨[], none⟩ (g :: gs) hne hsmall hlen
  rw [ht] at hread ⊢
  have hopen : readAll (c :: t) = readGroups 8 ⟨[], none⟩ (c :: t) := by simp [readAll, hc]
  rw [hopen, hread, List.nil_append]

theorem expand_gap {pre post : List Nat} {length : Nat} (hpos : 0 < length)
    (hlen : pre.length + length + post.length = 8) :
    (⟨pre ++ post, some pre.length⟩ : Groups).expand = some (pre ++ List.replicate length 0 ++ post) := by
  have hcount : 8 - (pre ++ post).length = length := by
    rw [List.length_append]
    omega
  have hshort : (pre ++ post).length < 8 := by
    rw [List.length_append]
    omega
  simp only [Groups.expand]
  rw [if_pos hshort, hcount, Option.map_some, List.take_left, List.drop_left]

/-! ## The longest zeros -/

theorem drop_eq_zeroRun (gs : List Nat) (start : Nat) :
    gs.drop start = List.replicate (zeroRun gs start) 0 ++ gs.drop (start + zeroRun gs start) := by
  have htake : (gs.drop start).takeWhile (· == 0) = List.replicate (zeroRun gs start) 0 := by
    refine List.eq_replicate_iff.mpr ⟨rfl, fun g hg => ?_⟩
    have hzero : (g == 0) = true := @List.mem_takeWhile_imp _ (· == 0) _ _ hg
    exact beq_iff_eq.mp hzero
  have hdrop : (gs.drop start).dropWhile (· == 0) = gs.drop (start + zeroRun gs start) := by
    calc (gs.drop start).dropWhile (· == 0)
        = ((gs.drop start).takeWhile (· == 0) ++ (gs.drop start).dropWhile (· == 0)).drop (zeroRun gs start) :=
          List.drop_left.symm
      _ = (gs.drop start).drop (zeroRun gs start) := by rw [List.takeWhile_append_dropWhile]
      _ = gs.drop (start + zeroRun gs start) := List.drop_drop
  rw [← htake, ← hdrop, List.takeWhile_append_dropWhile]

/-- What is left out is all the zeros there are from a place on, or nothing. -/
theorem longestZeros_run (gs : List Nat) :
    (longestZeros gs).2 = 0 ∨ (longestZeros gs).2 = zeroRun gs (longestZeros gs).1 := by
  unfold longestZeros
  generalize List.range 8 = places
  suffices h : ∀ best : Nat × Nat, best.2 = 0 ∨ best.2 = zeroRun gs best.1 →
      let found := places.foldl
        (fun best i => if 2 ≤ zeroRun gs i ∧ best.2 < zeroRun gs i then (i, zeroRun gs i) else best) best
      found.2 = 0 ∨ found.2 = zeroRun gs found.1 from h (0, 0) (.inl rfl)
  induction places with
  | nil => exact fun best hbest => hbest
  | cons i places ih =>
    intro best hbest
    refine ih _ ?_
    dsimp only
    split
    · exact .inr rfl
    · exact hbest

/-! ## Addresses read back -/

/-- What an address without a zone is written in. -/
def isAddrChar (c : Char) : Bool := isHex c || c == '.' || c == ':'

theorem mem_joined {separator c : Char} {ts : List Text} (h : c ∈ joined separator ts) :
    c = separator ∨ ∃ t ∈ ts, c ∈ t := by
  induction ts with
  | nil => exact nomatch h
  | cons t ts ih =>
    cases ts with
    | nil => exact .inr ⟨t, List.mem_cons_self, h⟩
    | cons u ts =>
      rw [joined_cons] at h
      obtain h | h := List.mem_append.mp h
      · exact .inr ⟨t, List.mem_cons_self, h⟩
      · obtain h | h := List.mem_cons.mp h
        · exact .inl h
        · obtain hsep | ⟨v, hv, hc⟩ := ih h
          · exact .inl hsep
          · exact .inr ⟨v, List.mem_cons_of_mem t hv, hc⟩

theorem mem_decimal {n : Nat} (hn : n < 1000) {c : Char} (h : c ∈ decimal n) : ∃ d < 10, c = Nat.digitChar d := by
  unfold decimal at h
  simp only [List.mem_append, List.mem_ite_nil_right, List.mem_singleton] at h
  obtain (⟨-, rfl⟩ | ⟨-, rfl⟩) | rfl := h
  · exact ⟨n / 100, by omega, rfl⟩
  · exact ⟨n / 10 % 10, Nat.mod_lt _ (by decide), rfl⟩
  · exact ⟨n % 10, Nat.mod_lt _ (by decide), rfl⟩

theorem length_decimal_le (n : Nat) : (decimal n).length ≤ 3 := by
  have hlen : ∀ (p : Prop) [Decidable p] (c : Char), (if p then [c] else []).length ≤ 1 := by
    intro p _ c
    split
    · exact Nat.le_refl 1
    · exact Nat.zero_le 1
  have h1 := hlen (100 ≤ n) (Nat.digitChar (n / 100))
  have h2 := hlen (10 ≤ n) (Nat.digitChar (n / 10 % 10))
  unfold decimal
  simp only [List.length_append, List.length_singleton]
  omega

theorem isHex_of_mem_decimal {n : Nat} (hn : n < 1000) {c : Char} (h : c ∈ decimal n) : isHex c = true := by
  obtain ⟨d, hd, rfl⟩ := mem_decimal hn h
  exact isHex_digitChar (by omega)

theorem mem_string4 {bits : BitVec 32} {c : Char} (h : c ∈ string4 bits) : isHex c = true ∨ c = '.' := by
  obtain rfl | ⟨t, ht, hc⟩ := mem_joined h
  · exact .inr rfl
  · obtain ⟨d, hd, rfl⟩ := List.mem_map.mp ht
    have hsmall : d < 256 := lt_of_mem_digits (by decide) hd
    exact .inl (isHex_of_mem_decimal (by omega) hc)

theorem mem_colons {gs : List Nat} (hsmall : ∀ g ∈ gs, g < 65536) {c : Char} (h : c ∈ colons gs) :
    isHex c = true ∨ c = ':' := by
  obtain rfl | ⟨t, ht, hc⟩ := mem_joined h
  · exact .inr rfl
  · obtain ⟨g, hg, rfl⟩ := List.mem_map.mp ht
    exact .inl (isHex_of_mem_hexadecimal (hsmall g hg) c hc)

/-- The first of some characters in a text that has none of them but one. -/
theorem find_only {p : Char → Bool} {c : Char} {s : Text} (hmem : c ∈ s) (hp : p c = true)
    (honly : ∀ d ∈ s, p d = true → d = c) : s.find? p = some c := by
  cases hfound : s.find? p with
  | none => exact absurd hp (List.find?_eq_none.mp hfound c hmem)
  | some d => rw [honly d (List.mem_of_find?_eq_some hfound) (List.find?_some hfound)]

theorem string4_eq (bits : BitVec 32) : ∃ a b c d,
    digits 256 4 bits.toNat = [a, b, c, d] ∧ a < 256 ∧
      string4 bits = decimal a ++ '.' :: joined '.' [decimal b, decimal c, decimal d] := by
  refine ⟨_, _, _, _, rfl, Nat.mod_lt _ (by decide), rfl⟩

theorem parseAddr_string4 (bits : BitVec 32) : parseAddr (string4 bits) = some (.v4 bits) := by
  have hdot : '.' ∈ string4 bits := by
    obtain ⟨a, b, c, d, -, -, htext⟩ := string4_eq bits
    rw [htext]
    exact List.mem_append_right _ List.mem_cons_self
  have hfirst : (string4 bits).find? (fun c => c == '.' || c == ':' || c == '%') = some '.' := by
    refine find_only hdot (by decide) fun c hc hp => ?_
    obtain hhex | rfl := mem_string4 hc
    · simp only [Bool.or_eq_true, beq_iff_eq] at hp
      obtain (rfl | rfl) | rfl := hp <;> revert hhex <;> decide
    · rfl
  rw [parseAddr, hfirst]
  simp only [parseIPv4, ipv4Fields_string4, Option.map_some]
  have hlt : bits.toNat < 256 ^ 4 := Nat.lt_of_lt_of_eq bits.isLt (by decide)
  rw [ofDigits_digits hlt, BitVec.ofNat_toNat, BitVec.setWidth_eq]

/-- The address of the sixth version whose groups a text is read as. -/
theorem parseAddr_of_groups {s : Text} {got : Groups} {bits : BitVec 128}
    (hfirst : s.find? (fun c => c == '.' || c == ':' || c == '%') = some ':') (hzone : '%' ∉ s)
    (hread : readAll s = some (got, [])) {groups : List Nat} (hexpand : got.expand = some groups)
    (hvalue : ofDigits 65536 groups = bits.toNat) : parseAddr s = some (.v6 bits []) := by
  have hsplit : splitZone s = some (s, []) := by
    have hnone : s.dropWhile (· != '%') = [] := by
      refine List.dropWhile_eq_nil_iff.mpr fun c hc => ?_
      exact bne_iff_ne.mpr fun h => hzone (h ▸ hc)
    rw [splitZone, hnone]
  rw [parseAddr, hfirst]
  simp only [parseIPv6, hsplit, hread, hexpand, Option.map_some, hvalue]
  rw [BitVec.ofNat_toNat, BitVec.setWidth_eq]

theorem not_percent_of_chars {s : Text} (h : ∀ c ∈ s, isHex c = true ∨ c = ':' ∨ c = '.') : '%' ∉ s := by
  intro hmem
  obtain hhex | heq | heq := h '%' hmem
  · exact absurd hhex (by decide)
  · exact absurd heq (by decide)
  · exact absurd heq (by decide)

theorem find_colon {s : Text} (hmem : ':' ∈ s) (h : ∀ c ∈ s, isHex c = true ∨ c = ':') :
    s.find? (fun c => c == '.' || c == ':' || c == '%') = some ':' := by
  refine find_only hmem (by decide) fun c hc hp => ?_
  obtain hhex | rfl := h c hc
  · simp only [Bool.or_eq_true, beq_iff_eq] at hp
    obtain (rfl | rfl) | rfl := hp <;> revert hhex <;> decide
  · rfl

theorem parseAddr_colons {gs : List Nat} {bits : BitVec 128} (hlen : gs.length = 8) (hsmall : ∀ g ∈ gs, g < 65536)
    (hvalue : ofDigits 65536 gs = bits.toNat) : parseAddr (colons gs) = some (.v6 bits []) := by
  have hchars : ∀ c ∈ colons gs, isHex c = true ∨ c = ':' := fun c hc => mem_colons hsmall hc
  have hcolon : ':' ∈ colons gs := by
    match gs, hlen with
    | a :: b :: gs, _ =>
      rw [colons, List.map_cons, List.map_cons, joined_cons]
      exact List.mem_append_right _ List.mem_cons_self
  have hexpand : (⟨gs, none⟩ : Groups).expand = some gs := by simp [Groups.expand, hlen]
  exact parseAddr_of_groups (find_colon hcolon hchars)
    (not_percent_of_chars fun c hc => (hchars c hc).imp_right .inl)
    (readAll_colons (List.ne_nil_of_length_pos (by omega)) hsmall (Nat.le_of_eq hlen)) hexpand hvalue

theorem parseAddr_gap {pre post : List Nat} {length : Nat} {bits : BitVec 128} (hpos : 0 < length)
    (hcount : pre.length + length + post.length = 8) (hpre : ∀ g ∈ pre, g < 65536) (hpost : ∀ g ∈ post, g < 65536)
    (hvalue : ofDigits 65536 (pre ++ List.replicate length 0 ++ post) = bits.toNat) :
    parseAddr (colons pre ++ ':' :: ':' :: colons post) = some (.v6 bits []) := by
  have hchars : ∀ c ∈ colons pre ++ ':' :: ':' :: colons post, isHex c = true ∨ c = ':' := by
    intro c hc
    simp only [List.mem_append, List.mem_cons] at hc
    obtain hc | rfl | rfl | hc := hc
    · exact mem_colons hpre hc
    · exact .inr rfl
    · exact .inr rfl
    · exact mem_colons hpost hc
  exact parseAddr_of_groups (find_colon (List.mem_append_right _ List.mem_cons_self) hchars)
    (not_percent_of_chars fun c hc => (hchars c hc).imp_right .inl)
    (readAll_gap pre post hpre hpost (by omega)) (expand_gap hpos hcount) hvalue

theorem mem_string6 {bits : BitVec 128} {c : Char} (h : c ∈ string6 bits) : isHex c = true ∨ c = ':' := by
  have hsmall : ∀ g ∈ digits 65536 8 bits.toNat, g < 65536 := fun g hg => lt_of_mem_digits (by decide) hg
  unfold string6 at h
  dsimp only at h
  split at h
  · exact mem_colons hsmall h
  · simp only [List.mem_append] at h
    obtain (hc | hc) | hc := h
    · exact mem_colons (fun g hg => hsmall g (List.mem_of_mem_take hg)) hc
    · have hgap : ("::".toList.all fun c => decide (c = ':')) = true := by decide
      exact .inr (of_decide_eq_true (List.all_eq_true.mp hgap c hc))
    · exact mem_colons (fun g hg => hsmall g (List.mem_of_mem_drop hg)) hc

/-- Groups with the longest zeros left out are read as all of them. -/
theorem parseAddr_string6 (bits : BitVec 128) : parseAddr (string6 bits) = some (.v6 bits []) := by
  have hvalue := ofDigits_digits (Nat.lt_of_lt_of_eq bits.isLt (show 2 ^ 128 = 65536 ^ 8 by decide))
  have hlen : (digits 65536 8 bits.toNat).length = 8 := length_digits _ _ _
  have hsmall : ∀ g ∈ digits 65536 8 bits.toNat, g < 65536 := fun g hg => lt_of_mem_digits (by decide) hg
  unfold string6
  dsimp only
  generalize digits 65536 8 bits.toNat = gs at hvalue hlen hsmall ⊢
  have hrun := longestZeros_run gs
  generalize longestZeros gs = best at hrun ⊢
  obtain ⟨start, length⟩ := best
  dsimp only at hrun ⊢
  by_cases hnone : length = 0
  · rw [if_pos hnone]
    exact parseAddr_colons hlen hsmall hvalue
  · rw [if_neg hnone]
    obtain rfl := hrun.resolve_left hnone
    have hdrop := drop_eq_zeroRun gs start
    have hcount :
        (gs.take start).length + zeroRun gs start + (gs.drop (start + zeroRun gs start)).length = 8 := by
      have hsplit := congrArg List.length (List.take_append_drop start gs)
      have hrest := congrArg List.length hdrop
      rw [List.length_append] at hsplit hrest
      rw [List.length_replicate] at hrest
      omega
    have hjoin :
        gs.take start ++ List.replicate (zeroRun gs start) 0 ++ gs.drop (start + zeroRun gs start) = gs := by
      rw [List.append_assoc, ← hdrop, List.take_append_drop]
    rw [List.append_assoc]
    exact parseAddr_gap (Nat.pos_of_ne_zero hnone) hcount (fun g hg => hsmall g (List.mem_of_mem_take hg))
      (fun g hg => hsmall g (List.mem_of_mem_drop hg)) (by rw [hjoin, hvalue])

theorem mem_mappedOpening {c : Char} (h : c ∈ "::ffff:".toList) : isHex c = true ∨ c = ':' ∨ c = '.' := by
  have hall : ("::ffff:".toList.all fun c => decide (isHex c = true ∨ c = ':' ∨ c = '.')) = true := by decide
  exact of_decide_eq_true (List.all_eq_true.mp hall c h)

/-- An address of the fourth version after the mapped prefix is read as the one it is in the sixth. -/
theorem parseAddr_mapped (bits : BitVec 32) :
    parseAddr ("::ffff:".toList ++ string4 bits) = some (.v6 (mapped bits) []) := by
  obtain ⟨a, b, c, d, hdigits, ha, htext⟩ := string4_eq bits
  have hfields := ipv4Fields_string4 bits
  have hvalue := ofDigits_digits (Nat.lt_of_lt_of_eq bits.isLt (show 2 ^ 32 = 256 ^ 4 by decide))
  rw [hdigits] at hfields hvalue
  have hgroup : ∃ x, hexGroup (string4 bits) = some (x, '.' :: joined '.' [decimal b, decimal c, decimal d]) := by
    rw [htext]
    refine ⟨_, hexGroup_append (fun e he => isHex_of_mem_decimal (by omega) he) (length_decimal_pos a)
      (Nat.le_succ_of_le (length_decimal_le a)) fun e he => ?_⟩
    obtain rfl := Option.some.inj he
    decide
  obtain ⟨x, hgroup⟩ := hgroup
  obtain ⟨e, t, hdecimal⟩ := List.exists_cons_of_ne_nil (decimal_ne_nil a)
  have hcons : string4 bits = e :: (t ++ '.' :: joined '.' [decimal b, decimal c, decimal d]) := by
    rw [htext, hdecimal, List.cons_append]
  have hcolon : e ≠ ':' := by
    rintro rfl
    have hhex := isHex_of_mem_decimal (show a < 1000 by omega) (hdecimal ▸ List.mem_cons_self)
    exact absurd hhex (by decide)
  have hffff : hexGroup ("ffff:".toList ++ string4 bits) =
      some (0xffff, ':' :: e :: (t ++ '.' :: joined '.' [decimal b, decimal c, decimal d])) := by
    rw [← hcons]
    exact hexGroup_colons (show 0xffff < 65536 by decide)
  have hread : readAll ("::ffff:".toList ++ string4 bits) =
      some (⟨[0xffff, a * 256 + b, c * 256 + d], some 0⟩, []) := by
    have hopen : readAll ("::ffff:".toList ++ string4 bits) =
        readGroups 8 ⟨[], some 0⟩ ("ffff:".toList ++ string4 bits) := rfl
    rw [hopen, readGroups_colon hcolon hffff, ← hcons, readGroups, hgroup]
    simp [hfields, Groups.push, ofDigits]
  have hexpand := @expand_gap [] [0xffff, a * 256 + b, c * 256 + d] 5 (by decide) rfl
  refine parseAddr_of_groups rfl (not_percent_of_chars fun c hc => ?_) hread hexpand ?_
  · obtain hc | hc := List.mem_append.mp hc
    · exact mem_mappedOpening hc
    · exact (mem_string4 hc).imp_right .inr
  · have hzeros : ofDigits 65536 ([] ++ List.replicate 5 0 ++ [0xffff, a * 256 + b, c * 256 + d]) =
        (0xffff * 65536 + (a * 256 + b)) * 65536 + (c * 256 + d) := rfl
    have hfour : ofDigits 256 [a, b, c, d] = ((a * 256 + b) * 256 + c) * 256 + d := by
      simp [ofDigits]
    rw [hzeros, toNat_mapped, ← hvalue, hfour]
    omega

/-- An address without a zone is read as it is written. -/
theorem parseAddr_text {a : Addr} (h : a.withoutZone = a) : parseAddr a.text = some a := by
  cases a with
  | v4 bits => exact parseAddr_string4 bits
  | v6 bits zone =>
    obtain rfl : [] = zone := (Addr.v6.inj h).2
    rw [Addr.text, zoneText, if_pos rfl, List.append_nil]
    split
    · next hmapped => rw [parseAddr_mapped, mapped_setWidth hmapped]
    · exact parseAddr_string6 bits

theorem isAddrChar_of_mem_text {a : Addr} (h : a.withoutZone = a) : ∀ c ∈ a.text, isAddrChar c = true := by
  have hof : ∀ c, isHex c = true ∨ c = ':' ∨ c = '.' → isAddrChar c = true := by
    rintro c (hhex | rfl | rfl)
    · simp [isAddrChar, hhex]
    · decide
    · decide
  intro c hc
  cases a with
  | v4 bits => exact hof c ((mem_string4 hc).imp_right .inr)
  | v6 bits zone =>
    obtain rfl : [] = zone := (Addr.v6.inj h).2
    rw [Addr.text, zoneText, if_pos rfl, List.append_nil] at hc
    split at hc
    · obtain hc | hc := List.mem_append.mp hc
      · exact hof c (mem_mappedOpening hc)
      · exact hof c ((mem_string4 hc).imp_right .inr)
    · exact hof c ((mem_string6 hc).imp_right .inl)

theorem text_ne_nil {a : Addr} (h : a.withoutZone = a) : a.text ≠ [] := by
  intro hnil
  have hread := parseAddr_text h
  rw [hnil] at hread
  exact nomatch hread

/-! ## Prefixes read back -/

theorem splitLast_cons (c d : Char) (rest : Text) : splitLast c (d :: rest) =
    match splitLast c rest with
    | some (before, after) => some (d :: before, after)
    | none => if d = c then some ([], rest) else none := rfl

theorem splitLast_of_not_mem {c : Char} {s : Text} (h : c ∉ s) : splitLast c s = none := by
  induction s with
  | nil => rfl
  | cons d s ih =>
    obtain ⟨hd, hs⟩ := not_or.mp (mt List.mem_cons.mpr h)
    rw [splitLast_cons, ih hs, if_neg (Ne.symm hd)]

theorem not_mem_of_splitLast {c : Char} {s : Text} (h : splitLast c s = none) : c ∉ s := by
  induction s with
  | nil => exact List.not_mem_nil
  | cons d s ih =>
    rw [splitLast_cons] at h
    cases hrest : splitLast c s with
    | some split =>
      rw [hrest] at h
      exact nomatch h
    | none =>
      rw [hrest] at h
      have hd : ¬d = c := fun heq => nomatch (if_pos heq).symm.trans h
      exact List.not_mem_cons_of_ne_of_not_mem (Ne.symm hd) (ih hrest)

theorem splitLast_some {c : Char} {s before after : Text} (h : splitLast c s = some (before, after)) :
    s = before ++ c :: after ∧ c ∉ after := by
  induction s generalizing before with
  | nil => exact nomatch h
  | cons d s ih =>
    rw [splitLast_cons] at h
    cases hrest : splitLast c s with
    | some split =>
      rw [hrest] at h
      obtain ⟨⟩ := h
      obtain ⟨hs, hnot⟩ := ih hrest
      exact ⟨congrArg (d :: ·) hs, hnot⟩
    | none =>
      rw [hrest] at h
      obtain ⟨rfl, ⟨⟩⟩ := Option.ite_none_right_eq_some.mp h
      exact ⟨rfl, not_mem_of_splitLast hrest⟩

theorem splitLast_append {c : Char} {before after : Text} (h : c ∉ after) :
    splitLast c (before ++ c :: after) = some (before, after) := by
  induction before with
  | nil => rw [List.nil_append, splitLast_cons, splitLast_of_not_mem h, if_pos rfl]
  | cons d before ih => rw [List.cons_append, splitLast_cons, ih]

theorem parseBits_decimal : ∀ n < 129, parseBits (decimal n) = some n := by decide +kernel

theorem slash_not_mem_decimal {n : Nat} (hn : n < 1000) : '/' ∉ decimal n := fun h =>
  absurd (isHex_of_mem_decimal hn h) (by decide)

theorem slash_not_mem_text {a : Addr} (h : a.withoutZone = a) : '/' ∉ a.text := fun hmem =>
  absurd (isAddrChar_of_mem_text h _ hmem) (by decide)

/-- An address by itself is not a prefix. -/
theorem parsePrefix_addr {a : Addr} (h : a.withoutZone = a) : parsePrefix a.text = none := by
  rw [parsePrefix, splitLast_of_not_mem (slash_not_mem_text h)]

theorem Prefix.bits_lt (p : Prefix) : p.bits < 129 := by
  cases p with
  | v4 _ bits => exact Nat.lt_trans bits.isLt (by decide)
  | v6 _ bits => exact bits.isLt

/-- A prefix is read as it is written. -/
theorem parsePrefix_text (p : Prefix) : parsePrefix p.text = some p := by
  have haddr := p.addr_withoutZone
  have hbits := p.bits_lt
  rw [parsePrefix, Prefix.text, splitLast_append (slash_not_mem_decimal (by omega))]
  simp only [parseAddr_text haddr, parseBits_decimal _ hbits]
  cases p with
  | v4 addr bits => exact dif_pos bits.isLt
  | v6 addr bits => exact dif_pos bits.isLt

/-- What a prefix is written in. -/
theorem isAddrChar_of_mem_prefix {p : Prefix} {c : Char} (h : c ∈ p.text) : isAddrChar c = true ∨ c = '/' := by
  rw [Prefix.text] at h
  obtain h | h := List.mem_append.mp h
  · exact .inl (isAddrChar_of_mem_text p.addr_withoutZone c h)
  · obtain h | h := List.mem_cons.mp h
    · exact .inr h
    · have hbits := p.bits_lt
      have hhex := isHex_of_mem_decimal (show p.bits < 1000 by omega) h
      exact .inl (by rw [isAddrChar, hhex]; rfl)

end Stoop.Lib.NetIP
