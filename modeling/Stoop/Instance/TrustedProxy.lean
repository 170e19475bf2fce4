import Stoop.Lib.HostPort
import Stoop.Markdown.Chars

/-!
# The proxies a server trusts

`internal/trustedproxy/trustedproxy.go`: the ranges of a list (`parse`), what they are written back as
(`Proxies.strings`), and whether a peer is in one (`Proxies.trusted`). A peer in the mapped form is unmapped
before it is looked for and a range is not, so a range in that form contains none of the addresses it names
(`Overlooked`).
-/

set_option autoImplicit false

namespace Stoop.Instance.TrustedProxy

open Stoop.Lib.NetIP
open Stoop.Markdown (unicodeIsSpace)

/-! ## The list -/

def trimSpace (s : Text) : Text := (s.dropWhile unicodeIsSpace).rdropWhile unicodeIsSpace

/-- "is not an IP address or CIDR range", of an entry. -/
structure NotAnAddress where
  entry : Text
  deriving DecidableEq, Repr

/-- `Set`. -/
structure Proxies where
  prefixes : List Prefix
  deriving DecidableEq, Repr

/-- `Parse`: blank entries are skipped, and the first that is neither a range nor an address is the error. -/
def parse : List Text → Except NotAnAddress Proxies
  | [] => .ok ⟨[]⟩
  | raw :: entries =>
    let e := trimSpace raw
    if e = [] then parse entries
    else
      match parsePrefix e with
      | some p => (parse entries).map fun s => ⟨p.masked :: s.prefixes⟩
      | none =>
        match parseAddr e with
        | some addr => (parse entries).map fun s => ⟨.single addr :: s.prefixes⟩
        | none => .error ⟨e⟩

/-- One of `Strings`: an address by itself where the prefix is one. -/
def prefixText (p : Prefix) : Text := if p.bits = p.addr.bitLen then p.addr.text else p.text

/-- `Strings`. -/
def Proxies.strings (s : Proxies) : List Text := s.prefixes.map prefixText

/-- `Trusted`. -/
def Proxies.trusted (s : Proxies) (remoteAddr : Text) : Bool :=
  if s.prefixes = [] then false
  else
    match parseAddr (hostOf remoteAddr) with
    | none => false
    | some addr => s.prefixes.any (·.contains addr.unmap.withoutZone)

/-! ## What a list says -/

/-- The range an entry is written as; of a blank one there is none. -/
def written (raw : Text) : Option Prefix :=
  (parsePrefix (trimSpace raw)).or ((parseAddr (trimSpace raw)).map .single)

/-- The addresses a range names: those in it, and where it is written in the mapped form those it maps. -/
def Names (p : Prefix) (a : Addr) : Prop :=
  p.contains a = true ∨ p.isMapped = true ∧ ∃ bits, a = .v4 bits ∧ p.contains (.v6 (mapped bits) []) = true

/-- A peer: an address as it is read, written in one of the forms of a host. -/
structure Peer where
  host : Text
  addr : Addr
  form : Form
  reads : parseAddr host = some addr
  plain : ∀ c ∈ host, isBracket c = false
  fits : form.fits host = true

def Peer.text (peer : Peer) : Text := peer.form.text peer.host

/-- The address a peer is at: the one it maps, where it is mapped, and without its zone. -/
def Peer.named (peer : Peer) : Addr := peer.addr.unmap.withoutZone

variable (entries : List Text) (s : Proxies) (peer : Peer)

/-- A peer is trusted exactly if some entry names where it is. -/
def MeansWhatItSays : Prop :=
  s.trusted peer.text = true ↔ ∃ raw ∈ entries, ∃ p, written raw = some p ∧ Names p peer.named

/-- The strings of a set make one that trusts the same peers. -/
def Rereads : Prop := ∃ again, parse s.strings = .ok again ∧ ∀ t, again.trusted t = s.trusted t

/-- A peer of the fourth version that only entries in the mapped form name. -/
def Overlooked : Prop :=
  ∃ bits, peer.named = .v4 bits ∧
    (∃ raw ∈ entries, ∃ p, written raw = some p ∧ p.isMapped = true ∧ p.contains (.v6 (mapped bits) []) = true) ∧
    ¬∃ raw ∈ entries, ∃ p, written raw = some p ∧ p.contains (.v4 bits) = true

/-! ## The ranges of a list -/

theorem written_of_blank {raw : Text} (h : trimSpace raw = []) : written raw = none := by
  rw [written, h]
  rfl

/-- A list's set has a range for its first entry, unless that is blank. -/
theorem parse_cons {raw : Text} {entries : List Text} {s : Proxies} (h : parse (raw :: entries) = .ok s) :
    (trimSpace raw = [] ∧ parse entries = .ok s) ∨
      ∃ p rest, written raw = some p ∧ parse entries = .ok rest ∧ s = ⟨p.masked :: rest.prefixes⟩ := by
  rw [parse] at h
  split at h
  · next hblank => exact .inl ⟨hblank, h⟩
  · refine .inr ?_
    cases hrest : parse entries with
    | error e =>
      rw [hrest] at h
      split at h
      · exact nomatch h
      · split at h <;> exact nomatch h
    | ok rest =>
      rw [hrest] at h
      split at h
      · next p hp =>
        obtain ⟨⟩ := h
        exact ⟨p, rest, by rw [written, hp, Option.some_or], rfl, rfl⟩
      · next hp =>
        split at h
        · next a ha =>
          obtain ⟨⟩ := h
          refine ⟨.single a, rest, by rw [written, hp, ha, Option.none_or, Option.map_some], rfl, ?_⟩
          rw [Prefix.single_masked]
        · exact nomatch h

/-- The set of a list contains what the ranges its entries are written as do. -/
theorem parse_contains {entries : List Text} {s : Proxies} (h : parse entries = .ok s) (a : Addr) :
    (∃ p ∈ s.prefixes, p.contains a = true) ↔
      ∃ raw ∈ entries, ∃ p, written raw = some p ∧ p.contains a = true := by
  induction entries generalizing s with
  | nil =>
    obtain ⟨⟩ := h
    simp
  | cons raw entries ih =>
    obtain ⟨hblank, hrest⟩ | ⟨p, rest, hwritten, hrest, rfl⟩ := parse_cons h
    · simp [ih hrest, written_of_blank hblank]
    · simp [← ih hrest, hwritten]

theorem trusted_iff (s : Proxies) (peer : Peer) :
    s.trusted peer.text = true ↔ ∃ p ∈ s.prefixes, p.contains peer.named = true := by
  rw [Proxies.trusted, Peer.text, hostOf_text peer.reads peer.plain peer.fits, peer.reads]
  split
  · next hnone => simp [hnone]
  · exact List.any_eq_true

/-! ## The strings of a set -/

theorem not_space_of_isAddrChar {c : Char} (h : isAddrChar c = true ∨ c = '/') : unicodeIsSpace c = false := by
  refine Bool.eq_false_iff.mpr fun hspace => ?_
  have hmem := List.contains_iff_mem.mp hspace
  obtain ⟨haddr, hslash⟩ := of_decide_eq_true
    (List.all_eq_true (p := fun d => decide (isAddrChar d = false ∧ d ≠ '/')).mp (by decide) c hmem)
  obtain h | h := h
  · rw [haddr] at h
    cases h
  · exact hslash h

/-- What a prefix is written back as is read as it, masked. -/
theorem parse_prefixText (p : Prefix) (entries : List Text) :
    parse (prefixText p :: entries) = (parse entries).map fun s => ⟨p.masked :: s.prefixes⟩ := by
  have htrim : trimSpace (prefixText p) = prefixText p := by
    refine trim_of_none fun c hc => not_space_of_isAddrChar ?_
    unfold prefixText at hc
    split at hc
    · exact .inl (isAddrChar_of_mem_text p.addr_withoutZone c hc)
    · exact isAddrChar_of_mem_prefix hc
  have haddr := p.addr_withoutZone
  rw [parse, htrim]
  unfold prefixText
  split
  · next hall =>
    rw [if_neg (text_ne_nil haddr), parsePrefix_addr haddr, parseAddr_text haddr]
    simp only [Prefix.single_addr hall]
    rw [← Prefix.single_addr hall, Prefix.single_masked]
  · have hne : p.text ≠ [] := List.append_ne_nil_of_left_ne_nil (text_ne_nil haddr) _
    rw [if_neg hne, parsePrefix_text]

theorem parse_strings (s : Proxies) : parse s.strings = .ok ⟨s.prefixes.map .masked⟩ := by
  obtain ⟨prefixes⟩ := s
  rw [Proxies.strings]
  induction prefixes with
  | nil => rfl
  | cons p prefixes ih =>
    rw [List.map_cons, parse_prefixText, ih]
    rfl

/-- The strings of any set make one that trusts the same peers. -/
theorem rereads (s : Proxies) : Rereads s := by
  refine ⟨_, parse_strings s, fun t => ?_⟩
  simp only [Proxies.trusted, List.map_eq_nil_iff, List.any_map, Function.comp_def, Prefix.masked_contains]

/-! ## What the list says and what is trusted -/

/-- A list says what it means exactly of the peers that not only entries in the mapped form name. -/
theorem trusts_named {entries : List Text} {s : Proxies} (h : parse entries = .ok s) (peer : Peer) :
    (MeansWhatItSays entries s peer ∧ Rereads s) ↔ ¬Overlooked entries peer := by
  rw [and_iff_left (rereads s), MeansWhatItSays, trusted_iff, parse_contains h]
  constructor
  · rintro hmeans ⟨bits, hnamed, ⟨raw, hraw, p, hp, hmapped, hmaps⟩, hnone⟩
    rw [hnamed] at hmeans
    exact hnone (hmeans.mpr ⟨raw, hraw, p, hp, .inr ⟨hmapped, bits, rfl, hmaps⟩⟩)
  · intro hseen
    constructor
    · rintro ⟨raw, hraw, p, hp, hin⟩
      exact ⟨raw, hraw, p, hp, .inl hin⟩
    · rintro ⟨raw, hraw, p, hp, hin | ⟨hmapped, bits, hnamed, hmaps⟩⟩
      · exact ⟨raw, hraw, p, hp, hin⟩
      · rw [hnamed]
        by_contra hnone
        exact hseen ⟨bits, hnamed, ⟨raw, hraw, p, hp, hmapped, hmaps⟩, hnone⟩

/-- A range of the fourth version in the mapped form, and a peer in it. -/
def mappedRange : List Text := ["::ffff:10.0.0.0/104".toList]

def mappedSet : Proxies := ⟨[.v6 (mapped (BitVec.ofNat 32 0x0a000000)) 104]⟩

def tenPeer : Peer where
  host := "10.1.2.3".toList
  addr := .v4 (BitVec.ofNat 32 0x0a010203)
  form := .withPort "5555".toList
  reads := by decide
  plain := by simp [isBracket]
  fits := by decide

/-- The entry names the peer, which is not trusted. -/
theorem mapped_range_overlooked :
    parse mappedRange = .ok mappedSet ∧ ¬(MeansWhatItSays mappedRange mappedSet tenPeer ∧ Rereads mappedSet) := by
  have hparse : parse mappedRange = .ok mappedSet := by decide
  have huntrusted : mappedSet.trusted tenPeer.text = false := by decide
  refine ⟨hparse, fun h => ?_⟩
  have hnamed : mappedSet.trusted tenPeer.text = true :=
    h.1.mpr ⟨_, List.mem_singleton_self _, .v6 (mapped (BitVec.ofNat 32 0x0a000000)) 104, by decide,
      .inr ⟨by decide, BitVec.ofNat 32 0x0a010203, rfl, by decide⟩⟩
  rw [huntrusted] at hnamed
  cases hnamed

/-- The range written in the fourth version overlooks no peer. -/
theorem plain_range_trusts :
    MeansWhatItSays ["10.0.0.0/8".toList] ⟨[.v4 (BitVec.ofNat 32 0x0a000000) 8]⟩ tenPeer := by
  have hparse : parse ["10.0.0.0/8".toList] = .ok ⟨[.v4 (BitVec.ofNat 32 0x0a000000) 8]⟩ := by decide
  refine ((trusts_named hparse tenPeer).mpr ?_).1
  rintro ⟨bits, -, ⟨raw, hraw, p, hp, hmapped, -⟩, -⟩
  obtain rfl := List.mem_singleton.mp hraw
  obtain rfl : Prefix.v4 (BitVec.ofNat 32 0x0a000000) 8 = p := Option.some.inj (hp ▸ by decide)
  exact nomatch hmapped

end Stoop.Instance.TrustedProxy
