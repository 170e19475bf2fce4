import Mathlib.Data.List.DropRight
import Stoop.Lib.NetIPText

/-!
# Hosts and their ports

Go's `net.SplitHostPort`, and a host among the ways an address is written to a server: by itself, in brackets, and
either with a port (`Form`). An address has no colon or two at least (`colons_of_parseAddr`), so one by itself is
not taken for a host with a port, and `hostOf_text` reads the host in each.
-/

set_option autoImplicit false

namespace Stoop.Lib.NetIP

/-- `SplitHostPort`: the host, whose brackets are left out, and the port after the last colon. -/
def splitHostPort (s : Text) : Option (Text × Text) :=
  match splitLast ':' s with
  | none => none
  | some (before, port) =>
    match s with
    | '[' :: rest =>
      let host := rest.takeWhile (· != ']')
      -- the first closing bracket is just before the last colon
      if before ≠ '[' :: host ++ [']'] then none
      else if '[' ∈ rest ∨ ']' ∈ port then none
      else some (host, port)
    | _ => if ':' ∈ before then none else if '[' ∈ s ∨ ']' ∈ s then none else some (before, port)

theorem count_le_of_hexGroup {s rest : Text} {group : Nat} (h : hexGroup s = some (group, rest)) :
    rest.count ':' ≤ s.count ':' := by
  obtain ⟨-, ⟨⟩⟩ := Option.ite_none_left_eq_some.mp h
  exact List.Sublist.count_le ':' (List.dropWhile_sublist isHex)

/-- Where no ellipsis is read, each group but two has a colon. -/
theorem count_of_readGroups {left : Nat} {got found : Groups} {s rest : Text}
    (h : readGroups left got s = some (found, rest)) :
    (found.ellipsis = got.ellipsis ∧ found.groups.length ≤ got.groups.length + s.count ':' + 2) ∨
      2 ≤ s.count ':' := by
  induction left generalizing got s with
  | zero =>
    obtain ⟨⟩ := h
    exact .inl ⟨rfl, by omega⟩
  | succ left ih =>
    rw [readGroups] at h
    split at h
    · cases h
    · next group after hgroup =>
      have hcount := count_le_of_hexGroup hgroup
      split at h
      · obtain ⟨⟩ := h
        refine .inl ⟨rfl, ?_⟩
        rw [Groups.push, List.length_append, List.length_singleton]
        omega
      · obtain ⟨-, h⟩ := Option.ite_none_left_eq_some.mp h
        obtain ⟨-, h⟩ := Option.ite_none_left_eq_some.mp h
        obtain ⟨fields, -, ⟨⟩⟩ := Option.map_eq_some_iff.mp h
        refine .inl ⟨rfl, ?_⟩
        simp only [Groups.push, List.length_append, List.length_singleton]
        omega
      · cases h
      · rw [List.count_cons_self, List.count_cons_self] at hcount
        exact .inr (by omega)
      · rw [List.count_cons_self] at hcount
        obtain ⟨hsame, hlen⟩ | htwo := ih h
        · refine .inl ⟨hsame, ?_⟩
          rw [Groups.push, List.length_append, List.length_singleton] at hlen
          omega
        · exact .inr (by omega)
      · cases h

/-- What is read as an address of the sixth version has two colons at least. -/
theorem two_le_count_of_readAll {s : Text} {got : Groups} {rest : Text} {groups : List Nat}
    (h : readAll s = some (got, rest)) (hexpand : got.expand = some groups) : 2 ≤ s.count ':' := by
  unfold readAll at h
  split at h
  · rw [List.count_cons_self, List.count_cons_self]
    omega
  · obtain ⟨hsame, hlen⟩ | htwo := count_of_readGroups h
    · unfold Groups.expand at hexpand
      rw [hsame] at hexpand
      simp only [List.length_nil] at hlen
      split at hexpand
      · exact nomatch hexpand
      · omega
    · exact htwo

theorem ipv4Fields_no_colon {s : Text} {fields found : List Nat} {val digLen : Nat}
    (h : ipv4Fields fields val digLen s = some found) : ':' ∉ s := by
  induction s generalizing fields val digLen with
  | nil => exact List.not_mem_nil
  | cons c s ih =>
    rw [ipv4Fields] at h
    have hcolon : Char.isDigit ':' = false := by decide
    split at h
    · next hdigit =>
      have hc : ':' ≠ c := by
        rintro rfl
        exact absurd hdigit (by rw [hcolon]; exact Bool.false_ne_true)
      obtain ⟨-, h⟩ := Option.ite_none_left_eq_some.mp h
      obtain ⟨-, h⟩ := Option.ite_none_left_eq_some.mp h
      exact List.not_mem_cons_of_ne_of_not_mem hc (ih h)
    · obtain ⟨rfl, h⟩ := Option.ite_none_right_eq_some.mp h
      obtain ⟨-, h⟩ := Option.ite_none_left_eq_some.mp h
      obtain ⟨-, h⟩ := Option.ite_none_left_eq_some.mp h
      exact List.not_mem_cons_of_ne_of_not_mem (by decide) (ih h)

/-- An address has no colon, or two at least. -/
theorem colons_of_parseAddr {s : Text} {a : Addr} (h : parseAddr s = some a) : ':' ∉ s ∨ 2 ≤ s.count ':' := by
  unfold parseAddr at h
  split at h
  · obtain ⟨fields, hfields, -⟩ := Option.map_eq_some_iff.mp h
    exact .inl (ipv4Fields_no_colon hfields)
  · refine .inr ?_
    unfold parseIPv6 at h
    split at h
    · exact nomatch h
    · next addr zone hzone =>
      have hpart : addr.count ':' ≤ s.count ':' := by
        unfold splitZone at hzone
        split at hzone
        · obtain ⟨⟩ := hzone
          exact Nat.le_refl _
        · exact nomatch hzone
        · obtain ⟨⟩ := hzone
          exact List.Sublist.count_le ':' (List.takeWhile_sublist _)
      split at h
      · next got hread =>
        obtain ⟨groups, hexpand, -⟩ := Option.map_eq_some_iff.mp h
        exact Nat.le_trans (two_le_count_of_readAll hread hexpand) hpart
      · exact nomatch h
  · exact nomatch h

/-! ## The host of a text -/

def isBracket (c : Char) : Bool := c == '[' || c == ']'

/-- `strings.Trim(s, "[]")`. -/
def trimBrackets (s : Text) : Text := (s.dropWhile isBracket).rdropWhile isBracket

/-- The host of a text with a port or without one. -/
def hostOf (s : Text) : Text := trimBrackets (((splitHostPort s).map Prod.fst).getD s)

/-- How a host is written. -/
inductive Form
  | bare
  | bracketed
  | withPort (port : Text)
  | bracketedWithPort (port : Text)
  deriving DecidableEq, Repr

def plainPort (port : Text) : Bool := port.all fun c => !isBracket c && c != ':'

/-- A host with colons has a port only after brackets. -/
def Form.fits (host : Text) : Form → Bool
  | .bare | .bracketed => true
  | .withPort port => plainPort port && host.all (· != ':')
  | .bracketedWithPort port => plainPort port

def Form.text (host : Text) : Form → Text
  | .bare => host
  | .bracketed => '[' :: host ++ [']']
  | .withPort port => host ++ ':' :: port
  | .bracketedWithPort port => '[' :: host ++ ']' :: ':' :: port

/-- Nothing is trimmed of a text that has none of what is trimmed. -/
theorem trim_of_none {p : Char → Bool} {s : Text} (h : ∀ c ∈ s, p c = false) :
    (s.dropWhile p).rdropWhile p = s := by
  have hdrop : s.dropWhile p = s := by
    cases s with
    | nil => rfl
    | cons c s => exact List.dropWhile_cons_of_neg (by rw [h c List.mem_cons_self]; exact Bool.false_ne_true)
  rw [hdrop]
  refine List.rdropWhile_eq_self_iff.mpr fun hne => ?_
  rw [h _ (List.getLast_mem hne)]
  exact Bool.false_ne_true

theorem trimBrackets_of_plain {s : Text} (h : ∀ c ∈ s, isBracket c = false) : trimBrackets s = s := trim_of_none h

theorem trimBrackets_brackets {s : Text} (h : ∀ c ∈ s, isBracket c = false) :
    trimBrackets ('[' :: s ++ [']']) = s := by
  have hopen : isBracket '[' = true := by decide
  have hclose : isBracket ']' = true := by decide
  cases s with
  | nil => decide
  | cons c s =>
    have hc : isBracket c = false := h c List.mem_cons_self
    have hdrop : ('[' :: (c :: s) ++ [']']).dropWhile isBracket = c :: s ++ [']'] := by
      rw [List.cons_append, List.dropWhile_cons_of_pos hopen, List.cons_append]
      exact List.dropWhile_cons_of_neg (by rw [hc]; exact Bool.false_ne_true)
    rw [trimBrackets, hdrop, List.rdropWhile_concat_pos _ _ _ hclose]
    refine List.rdropWhile_eq_self_iff.mpr fun hne => ?_
    rw [h _ (List.getLast_mem hne)]
    exact Bool.false_ne_true

section

variable {host : Text}

theorem not_mem_of_plain (hplain : ∀ c ∈ host, isBracket c = false) : '[' ∉ host ∧ ']' ∉ host :=
  ⟨fun h => absurd (hplain _ h) (by decide), fun h => absurd (hplain _ h) (by decide)⟩

theorem plainPort_spec {port : Text} (h : plainPort port = true) : ':' ∉ port ∧ '[' ∉ port ∧ ']' ∉ port := by
  have hall := List.all_eq_true.mp h
  exact ⟨fun hmem => absurd (hall _ hmem) (by decide), fun hmem => absurd (hall _ hmem) (by decide),
    fun hmem => absurd (hall _ hmem) (by decide)⟩

theorem takeWhile_host (hplain : ∀ c ∈ host, isBracket c = false) (rest : Text) :
    (host ++ ']' :: rest).takeWhile (· != ']') = host := by
  have hall : ∀ c ∈ host, (c != ']') = true := fun c hc =>
    bne_iff_ne.mpr fun heq => (not_mem_of_plain hplain).2 (heq ▸ hc)
  rw [List.takeWhile_append_of_pos hall, List.takeWhile_cons_of_neg (by decide), List.append_nil]

/-- The first character of an address is no bracket. -/
theorem exists_cons_of_plain {a : Addr} (hreads : parseAddr host = some a)
    (hplain : ∀ c ∈ host, isBracket c = false) : ∃ c rest, host = c :: rest ∧ c ≠ '[' := by
  cases host with
  | nil => exact nomatch hreads
  | cons c rest =>
    refine ⟨c, rest, rfl, ?_⟩
    rintro rfl
    exact (not_mem_of_plain hplain).1 List.mem_cons_self

theorem splitHostPort_bare {a : Addr} (hreads : parseAddr host = some a)
    (hplain : ∀ c ∈ host, isBracket c = false) : splitHostPort host = none := by
  unfold splitHostPort
  cases hsplit : splitLast ':' host with
  | none => rfl
  | some split =>
    obtain ⟨before, port⟩ := split
    obtain ⟨hhost, hport⟩ := splitLast_some hsplit
    have hcolon : ':' ∈ before := by
      obtain hnone | htwo := colons_of_parseAddr hreads
      · exact absurd (hhost ▸ List.mem_append_right _ List.mem_cons_self) hnone
      · rw [hhost, List.count_append, List.count_cons_self, List.count_eq_zero.mpr hport] at htwo
        exact List.count_pos_iff.mp (by omega)
    obtain ⟨c, rest, rfl, hc⟩ := exists_cons_of_plain hreads hplain
    simp [hc, hcolon]

theorem splitHostPort_bracketed (hplain : ∀ c ∈ host, isBracket c = false) :
    splitHostPort ('[' :: host ++ [']']) = none := by
  unfold splitHostPort
  cases hsplit : splitLast ':' ('[' :: host ++ [']']) with
  | none => rfl
  | some split =>
    obtain ⟨before, port⟩ := split
    have hne : before ≠ '[' :: host ++ [']'] := by
      intro heq
      have hlen := congrArg List.length (splitLast_some hsplit).1
      rw [← heq, List.length_append, List.length_cons] at hlen
      omega
    simp only [List.cons_append, takeWhile_host hplain []]
    exact if_pos hne

theorem splitHostPort_withPort {a : Addr} {port : Text} (hreads : parseAddr host = some a)
    (hplain : ∀ c ∈ host, isBracket c = false) (hport : plainPort port = true) (hcolon : ':' ∉ host) :
    splitHostPort (host ++ ':' :: port) = some (host, port) := by
  obtain ⟨hopen, hclose⟩ := not_mem_of_plain hplain
  obtain ⟨hportColon, hportOpen, hportClose⟩ := plainPort_spec hport
  unfold splitHostPort
  rw [splitLast_append hportColon]
  obtain ⟨c, rest, rfl, hc⟩ := exists_cons_of_plain hreads hplain
  simp_all

theorem splitHostPort_bracketedWithPort {port : Text} (hplain : ∀ c ∈ host, isBracket c = false)
    (hport : plainPort port = true) : splitHostPort ('[' :: host ++ ']' :: ':' :: port) = some (host, port) := by
  obtain ⟨hopen, hclose⟩ := not_mem_of_plain hplain
  obtain ⟨hportColon, hportOpen, hportClose⟩ := plainPort_spec hport
  have hsplit : splitLast ':' ('[' :: host ++ ']' :: ':' :: port) = some ('[' :: host ++ [']'], port) := by
    have happend := @splitLast_append ':' ('[' :: host ++ [']']) port hportColon
    rwa [List.append_assoc, List.singleton_append] at happend
  unfold splitHostPort
  rw [hsplit]
  simp only [List.cons_append, takeWhile_host hplain]
  rw [if_neg (not_not_intro rfl), if_neg]
  rintro (hmem | hmem)
  · simp only [List.mem_append, List.mem_cons] at hmem
    obtain hmem | hmem | hmem | hmem := hmem
    · exact hopen hmem
    · exact absurd hmem (by decide)
    · exact absurd hmem (by decide)
    · exact hportOpen hmem
  · exact hportClose hmem

/-- The host of an address, however it is written. -/
theorem hostOf_text {a : Addr} (hreads : parseAddr host = some a) (hplain : ∀ c ∈ host, isBracket c = false)
    {form : Form} (hfits : form.fits host = true) : hostOf (form.text host) = host := by
  have hself := trimBrackets_of_plain hplain
  cases form with
  | bare => rw [hostOf, Form.text, splitHostPort_bare hreads hplain, Option.map_none, Option.getD_none, hself]
  | bracketed =>
    rw [hostOf, Form.text, splitHostPort_bracketed hplain, Option.map_none, Option.getD_none,
      trimBrackets_brackets hplain]
  | withPort port =>
    obtain ⟨hport, hall⟩ := (Bool.and_eq_true _ _).mp hfits
    have hcolon : ':' ∉ host := fun hmem => absurd (List.all_eq_true.mp hall _ hmem) (by decide)
    rw [hostOf, Form.text, splitHostPort_withPort hreads hplain hport hcolon, Option.map_some, Option.getD_some,
      hself]
  | bracketedWithPort port =>
    rw [hostOf, Form.text, splitHostPort_bracketedWithPort hplain hfits, Option.map_some, Option.getD_some, hself]

end

end Stoop.Lib.NetIP
