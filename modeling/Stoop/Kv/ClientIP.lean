import Mathlib
import Stoop.Instance.TrustedProxy

/-!
# Whose bucket a request spends

`internal/ratelimit/clientip.go`: the key a request's bucket is kept under (`clientIP`), read off the peer and
the `X-Forwarded-For` lines. A request comes to the server straight from its caller or through proxies, each of
which puts the peer it was asked by at the end of the lines (`Forwarded`); what the caller itself wrote into them
stands to the left of that.

Whatever the caller wrote and whichever trusted proxies it came through, a request spends the bucket its caller's
own connection would, and two callers spend the same one exactly if they are at the same place: the same address
of the fourth version, or the same 64 bits of one of the sixth.
-/

set_option autoImplicit false

namespace Stoop.Kv.ClientIP

open Stoop.Lib.NetIP
open Stoop.Instance.TrustedProxy
open Stoop.Markdown (unicodeIsSpace)

local instance neZero_bits : NeZero 129 := ⟨by decide⟩

/-! ## The key -/

/-- `addrKey`: the key of one address, and nothing where the text is none. -/
def addrKey (s : Text) : Text :=
  match parseAddr (hostOf (trimSpace s)) with
  | some addr => addr.unmap.withoutZone.text
  | none => []

/-- `peerKey`: a peer that is no address keeps what it is. -/
def peerKey (remoteAddr : Text) : Text :=
  if addrKey remoteAddr ≠ [] then addrKey remoteAddr
  else
    match splitHostPort remoteAddr with
    | some (host, _) => host
    | none => remoteAddr

/-- `bucketOf`: the whole /64 of an address of the sixth version. -/
def bucketOf (key : Text) : Text :=
  match parseAddr key with
  | some (.v6 bits _) => (Prefix.v6 bits 64).masked.text
  | _ => key

/-- The header's lines as one chain of hops. -/
def chain (lines : List Text) : List Text := ([','].intercalate lines).splitOn ','

/-- The loop of `ClientIP`, over the hops from the right. -/
def callerOf (trusts : Text → Bool) (peer : Text) : List Text → Text
  | [] => peer
  | hop :: hops =>
    let key := addrKey hop
    if key = [] then peer
    else if !trusts key then bucketOf key
    else callerOf trusts peer hops

/-- `ClientIP`, of a peer and the values of `X-Forwarded-For`. -/
def clientIP (remoteAddr : Text) (lines : List Text) (trusts : Text → Bool) : Text :=
  let peer := bucketOf (peerKey remoteAddr)
  if !trusts remoteAddr then peer else callerOf trusts peer (chain lines).reverse

/-! ## Requests that come through proxies -/

/-- A hop a proxy writes: the address it was asked from, in some form, with blanks around it. -/
structure Hop (peer : Peer) where
  left : Text
  written : Peer
  right : Text
  named : written.named = peer.named
  blank : ∀ c ∈ left ++ right, unicodeIsSpace c = true ∧ c ≠ ','
  plain : ∀ c ∈ written.text, unicodeIsSpace c = false ∧ c ≠ ','

def Hop.text {peer : Peer} (hop : Hop peer) : Text := hop.left ++ hop.written.text ++ hop.right

/-- A request as the server or a proxy is asked it. -/
structure Request where
  peer : Peer
  lines : List Text

/-- A caller that is no proxy: a peer whose forwarded lines are not believed. -/
structure Caller (s : Proxies) where
  peer : Peer
  unspaced : ∀ c ∈ peer.text, unicodeIsSpace c = false
  untrusted : s.trusted peer.text = false

/-- What a caller's requests come in as: from itself, with any lines, or through proxies that are trusted, each of
which adds a line of its own or to the last one. -/
inductive Forwarded {s : Proxies} (caller : Caller s) : Request → Prop
  | direct (claimed : List Text) : Forwarded caller ⟨caller.peer, claimed⟩
  | newLine {peer : Peer} {lines : List Text} (h : Forwarded caller ⟨peer, lines⟩) (hop : Hop peer)
      (proxy : Peer) (trusted : s.trusted proxy.text = true) :
      Forwarded caller ⟨proxy, lines ++ [hop.text]⟩
  | lastLine {peer : Peer} {lines : List Text} {line : Text} (h : Forwarded caller ⟨peer, lines ++ [line]⟩)
      (hop : Hop peer) (proxy : Peer) (trusted : s.trusted proxy.text = true) :
      Forwarded caller ⟨proxy, lines ++ [line ++ ',' :: hop.text]⟩

/-- The bucket the server has a request spend. -/
def Request.bucket (request : Request) (s : Proxies) : Text :=
  clientIP request.peer.text request.lines s.trusted

/-- Where a caller is, as far as a limiter tells. -/
inductive Place
  | v4 (bits : BitVec 32)
  | v6 (high : BitVec 128)
  deriving DecidableEq, Repr

/-- The place of an address: of one of the sixth version, its first 64 bits. -/
def placeOf : Addr → Place
  | .v4 bits => .v4 bits
  | .v6 bits _ => .v6 (bits >>> 64)

/-- Callers spend a bucket each, whichever way they come: their own connection's, which two of them share exactly
where they are at one place. -/
structure OneBucketEach (s : Proxies) : Prop where
  own : ∀ (caller : Caller s) (request : Request), Forwarded caller request →
    ∀ claimed, request.bucket s = (Request.mk caller.peer claimed).bucket s
  apart : ∀ (p q : Caller s) (asked other : Request), Forwarded p asked → Forwarded q other →
    (asked.bucket s = other.bucket s ↔ placeOf p.peer.named = placeOf q.peer.named)

/-! ## One address -/

/-- Where a peer is has neither a zone nor the mapped form. -/
theorem named_unmap (peer : Peer) : peer.named.unmap.withoutZone = peer.named := by
  rw [Peer.named]
  cases peer.addr with
  | v4 bits => rfl
  | v6 bits zone =>
    by_cases hmapped : isMapped bits = true
    · simp only [Addr.unmap, if_pos hmapped, Addr.withoutZone]
    · simp only [Addr.unmap, if_neg hmapped, Addr.withoutZone]

theorem named_withoutZone (peer : Peer) : peer.named.withoutZone = peer.named := by
  rw [Peer.named]
  cases peer.addr.unmap <;> rfl

theorem hostOf_peer (peer : Peer) : hostOf peer.text = peer.host := hostOf_text peer.reads peer.plain peer.fits

theorem addrKey_peer {peer : Peer} (h : ∀ c ∈ peer.text, unicodeIsSpace c = false) :
    addrKey peer.text = peer.named.text := by
  rw [addrKey, trimSpace, trim_of_none h, hostOf_peer, peer.reads]
  rfl

theorem named_text_ne_nil (peer : Peer) : peer.named.text ≠ [] := text_ne_nil (named_withoutZone peer)

theorem peerKey_peer {peer : Peer} (h : ∀ c ∈ peer.text, unicodeIsSpace c = false) :
    peerKey peer.text = peer.named.text := by
  rw [peerKey, addrKey_peer h, if_pos (named_text_ne_nil peer)]

theorem rdropWhile_append_of_pos {p : Char → Bool} (text : Text) {right : Text} (h : ∀ c ∈ right, p c = true) :
    (text ++ right).rdropWhile p = text.rdropWhile p := by
  induction right using List.reverseRecOn with
  | nil => rw [List.append_nil]
  | append_singleton right c ih =>
    have hc : p c = true := h c (List.mem_append_right _ (List.mem_singleton_self c))
    rw [← List.append_assoc, List.rdropWhile_concat_pos _ _ _ hc]
    exact ih fun d hd => h d (List.mem_append_left _ hd)

/-- What stands around a text without blanks is trimmed. -/
theorem trim_around {left text right : Text} (hleft : ∀ c ∈ left, unicodeIsSpace c = true)
    (hright : ∀ c ∈ right, unicodeIsSpace c = true) (htext : ∀ c ∈ text, unicodeIsSpace c = false) (hne : text ≠ []) :
    trimSpace (left ++ text ++ right) = text := by
  have hdrop : (left ++ text ++ right).dropWhile unicodeIsSpace = text ++ right := by
    obtain ⟨c, rest, rfl⟩ := List.exists_cons_of_ne_nil hne
    rw [List.append_assoc, List.dropWhile_append_of_pos hleft]
    apply List.dropWhile_cons_of_neg
    rw [htext c List.mem_cons_self]
    exact Bool.false_ne_true
  have hself : text.dropWhile unicodeIsSpace = text := by
    obtain ⟨c, rest, rfl⟩ := List.exists_cons_of_ne_nil hne
    apply List.dropWhile_cons_of_neg
    rw [htext c List.mem_cons_self]
    exact Bool.false_ne_true
  have htrim := trim_of_none htext
  rw [hself] at htrim
  rw [trimSpace, hdrop, rdropWhile_append_of_pos text hright, htrim]

theorem text_ne_nil_of_peer (peer : Peer) : peer.text ≠ [] := by
  intro hnil
  have hhost := hostOf_peer peer
  have hreads := peer.reads
  rw [hnil] at hhost
  rw [← hhost] at hreads
  exact nomatch hreads

/-! ## One hop -/

/-- The key of a hop is where the peer it names is. -/
theorem addrKey_hop {peer : Peer} (hop : Hop peer) : addrKey hop.text = peer.named.text := by
  have htrim : trimSpace hop.text = hop.written.text :=
    trim_around (fun c hc => (hop.blank c (List.mem_append_left _ hc)).1)
      (fun c hc => (hop.blank c (List.mem_append_right _ hc)).1) (fun c hc => (hop.plain c hc).1)
      (text_ne_nil_of_peer hop.written)
  rw [addrKey, htrim, hostOf_peer, hop.written.reads, ← hop.named]
  rfl

theorem comma_not_mem_hop {peer : Peer} (hop : Hop peer) : ',' ∉ hop.text := by
  intro hmem
  rw [Hop.text, List.append_assoc, List.mem_append, List.mem_append] at hmem
  obtain hmem | hmem | hmem := hmem
  · exact (hop.blank _ (List.mem_append_left _ hmem)).2 rfl
  · exact (hop.plain _ hmem).2 rfl
  · exact (hop.blank _ (List.mem_append_right _ hmem)).2 rfl

theorem not_bracket_of_isAddrChar {c : Char} (h : isAddrChar c = true) : isBracket c = false := by
  refine Bool.eq_false_iff.mpr fun hbracket => ?_
  obtain hopen | hclose := Bool.or_eq_true_iff.mp hbracket
  · rw [beq_iff_eq.mp hopen] at h
    exact absurd h (by decide)
  · rw [beq_iff_eq.mp hclose] at h
    exact absurd h (by decide)

/-- A peer is trusted by where it is. -/
theorem trusted_named (s : Proxies) (peer : Peer) : s.trusted peer.named.text = s.trusted peer.text := by
  have hplain : ∀ c ∈ peer.named.text, isBracket c = false := fun c hc =>
    not_bracket_of_isAddrChar (isAddrChar_of_mem_text (named_withoutZone peer) c hc)
  have hhost : hostOf peer.named.text = peer.named.text :=
    hostOf_text (parseAddr_text (named_withoutZone peer)) hplain (show Form.bare.fits peer.named.text = true from rfl)
  rw [Proxies.trusted, hhost, parseAddr_text (named_withoutZone peer), Proxies.trusted, hostOf_peer, peer.reads]
  simp only [named_unmap]
  rfl

/-! ## The chain -/

theorem intercalate_concat {lines : List Text} (hne : lines ≠ []) (line : Text) :
    [','].intercalate (lines ++ [line]) = [','].intercalate lines ++ ',' :: line := by
  induction lines with
  | nil => exact absurd rfl hne
  | cons first lines ih =>
    cases lines with
    | nil => simp
    | cons second lines =>
      rw [List.cons_append, List.cons_append, List.intercalate_cons_cons, ← List.cons_append,
        ih (List.cons_ne_nil _ _), List.intercalate_cons_cons]
      simp only [List.append_assoc]

theorem chain_concat {lines : List Text} {hop : Text} (hne : lines ≠ []) (h : ',' ∉ hop) :
    chain (lines ++ [hop]) = chain lines ++ [hop] := by
  rw [chain, intercalate_concat hne, List.splitOn_append_cons_self, List.splitOn_eq_singleton h, chain]

theorem chain_singleton {hop : Text} (h : ',' ∉ hop) : chain [hop] = [hop] := by
  rw [chain, List.intercalate_singleton, List.splitOn_eq_singleton h]

/-- A hop put at the end of the last line is one at the end of the chain. -/
theorem chain_extend (lines : List Text) (line : Text) {hop : Text} (h : ',' ∉ hop) :
    chain (lines ++ [line ++ ',' :: hop]) = chain (lines ++ [line]) ++ [hop] := by
  have hjoin : [','].intercalate (lines ++ [line ++ ',' :: hop]) =
      [','].intercalate (lines ++ [line]) ++ ',' :: hop := by
    cases lines with
    | nil => simp
    | cons first lines =>
      rw [intercalate_concat (List.cons_ne_nil _ _), intercalate_concat (List.cons_ne_nil _ _), List.append_assoc,
        List.cons_append]
  rw [chain, hjoin, List.splitOn_append_cons_self, List.splitOn_eq_singleton h, chain]

/-! ## The way a request came -/

variable {s : Proxies} {caller : Caller s} {request : Request}

/-- From the right, the hop of a proxy is gone past. -/
theorem callerOf_trusted {peer : Peer} (hop : Hop peer) (h : s.trusted peer.text = true) (fallback : Text)
    (hops : List Text) :
    callerOf s.trusted fallback (hop.text :: hops) = callerOf s.trusted fallback hops := by
  rw [callerOf, addrKey_hop hop, trusted_named, h]
  exact if_neg (named_text_ne_nil peer)

/-- The hop of one that is no proxy is where the search ends, whatever is left of it. -/
theorem callerOf_untrusted {peer : Peer} (hop : Hop peer) (h : s.trusted peer.text = false) (fallback : Text)
    (hops : List Text) : callerOf s.trusted fallback (hop.text :: hops) = bucketOf peer.named.text := by
  rw [callerOf, addrKey_hop hop, trusted_named, h]
  exact if_neg (named_text_ne_nil peer)

/-- A request is asked by its caller, or by a proxy whose lines lead to the caller. -/
def Leads (caller : Caller s) (request : Request) : Prop :=
  request.peer = caller.peer ∨
    s.trusted request.peer.text = true ∧ request.lines ≠ [] ∧
      ∀ fallback, callerOf s.trusted fallback (chain request.lines).reverse = bucketOf caller.peer.named.text

/-- One more hop at the end of lines that lead to the caller leads to it as well. -/
theorem Leads.hop {peer : Peer} {lines : List Text} (h : Leads caller ⟨peer, lines⟩) (hop : Hop peer)
    (fallback : Text) {hops : List Text} (hsame : lines ≠ [] → hops = (chain lines).reverse) :
    callerOf s.trusted fallback (hop.text :: hops) = bucketOf caller.peer.named.text := by
  obtain rfl | ⟨htrusted, hne, hleads⟩ := h
  · exact callerOf_untrusted hop caller.untrusted fallback hops
  · rw [callerOf_trusted hop htrusted, hsame hne]
    exact hleads fallback

theorem forwarded_leads (h : Forwarded caller request) : Leads caller request := by
  induction h with
  | direct claimed => exact .inl rfl
  | @newLine peer lines _ hop proxy trusted ih =>
    refine .inr ⟨trusted, List.append_ne_nil_of_right_ne_nil _ (List.cons_ne_nil _ _), ?_⟩
    intro fallback
    by_cases hnil : lines = []
    · subst hnil
      rw [List.nil_append, chain_singleton (comma_not_mem_hop hop), List.reverse_singleton]
      exact ih.hop hop fallback fun hne => absurd rfl hne
    · rw [chain_concat hnil (comma_not_mem_hop hop), List.reverse_concat]
      exact ih.hop hop fallback fun _ => rfl
  | lastLine _ hop proxy trusted ih =>
    refine .inr ⟨trusted, List.append_ne_nil_of_right_ne_nil _ (List.cons_ne_nil _ _), ?_⟩
    intro fallback
    rw [chain_extend _ _ (comma_not_mem_hop hop), List.reverse_concat]
    exact ih.hop hop fallback fun _ => rfl

/-- Whichever way it came, a request spends the bucket of where its caller is. -/
theorem bucket_eq (h : Forwarded caller request) : request.bucket s = bucketOf caller.peer.named.text := by
  rw [Request.bucket, clientIP]
  obtain hpeer | ⟨htrusted, -, hleads⟩ := forwarded_leads h
  · rw [hpeer, caller.untrusted, peerKey_peer caller.unspaced]
    rfl
  · rw [htrusted]
    exact hleads _

/-! ## Buckets and places -/

theorem bucketOf_v4 (bits : BitVec 32) : bucketOf (Addr.v4 bits).text = (Addr.v4 bits).text := by
  rw [bucketOf, parseAddr_text rfl]

theorem bucketOf_v6 (bits : BitVec 128) : bucketOf (Addr.v6 bits []).text = (Prefix.v6 bits 64).masked.text := by
  rw [bucketOf, parseAddr_text rfl]

theorem slash_mem_prefix (p : Prefix) : '/' ∈ p.text := List.mem_append_right _ List.mem_cons_self

theorem prefix_text_inj {p q : Prefix} (h : p.text = q.text) : p = q := by
  have hread := congrArg parsePrefix h
  rw [parsePrefix_text, parsePrefix_text] at hread
  exact Option.some.inj hread

theorem text_inj {a b : Addr} (ha : a.withoutZone = a) (hb : b.withoutZone = b) (h : a.text = b.text) : a = b := by
  have hread := congrArg parseAddr h
  rw [parseAddr_text ha, parseAddr_text hb] at hread
  exact Option.some.inj hread

/-- No text is that of an address and of a prefix. -/
theorem prefix_text_ne (bits : BitVec 32) (p : Prefix) : (Addr.v4 bits).text ≠ p.text := by
  intro h
  have hslash := slash_mem_prefix p
  rw [← h] at hslash
  exact slash_not_mem_text rfl hslash

/-- Two of the sixth version are in one /64 where their first 64 bits are the same. -/
theorem masked_eq_iff (a b : BitVec 128) :
    (Prefix.v6 a 64).masked = (Prefix.v6 b 64).masked ↔ a >>> 64 = b >>> 64 := by
  rw [Prefix.masked, Prefix.masked, Prefix.v6.injEq, and_iff_left rfl, maskedBits_eq_iff]
  rfl

/-- Two addresses have one bucket exactly where they are at one place. -/
theorem bucketOf_eq_iff {a b : Addr} (ha : a.withoutZone = a) (hb : b.withoutZone = b) :
    bucketOf a.text = bucketOf b.text ↔ placeOf a = placeOf b := by
  cases a with
  | v4 bits =>
    cases b with
    | v4 other =>
      rw [bucketOf_v4, bucketOf_v4]
      constructor
      · intro h
        rw [text_inj rfl rfl h]
      · intro h
        rw [Place.v4.inj h]
    | v6 other zone =>
      obtain ⟨⟩ := hb
      rw [bucketOf_v4, bucketOf_v6]
      exact ⟨fun h => absurd h (prefix_text_ne bits _), nofun⟩
  | v6 bits zone =>
    obtain ⟨⟩ := ha
    cases b with
    | v4 other =>
      rw [bucketOf_v6, bucketOf_v4]
      exact ⟨fun h => absurd h.symm (prefix_text_ne other _), nofun⟩
    | v6 other zone =>
      obtain ⟨⟩ := hb
      rw [bucketOf_v6, bucketOf_v6, placeOf, placeOf, Place.v6.injEq, ← masked_eq_iff]
      constructor
      · exact prefix_text_inj
      · intro h
        rw [h]

/-- **One bucket each**: a request through trusted proxies spends its caller's bucket, whatever the caller wrote of
where it came from, and only callers at one place share theirs. -/
theorem one_bucket_each (s : Proxies) : OneBucketEach s where
  own := by
    intro caller request h claimed
    rw [bucket_eq h, bucket_eq (.direct claimed)]
  apart := by
    intro p q asked other hp hq
    rw [bucket_eq hp, bucket_eq hq]
    exact bucketOf_eq_iff (named_withoutZone p.peer) (named_withoutZone q.peer)

/-- What a caller wrote of itself stands to the left of what the proxies did. -/
example : clientIP "10.0.0.1:5000".toList ["1.2.3.4".toList, "2001:db8::5, ::ffff:10.0.0.2".toList]
    (Proxies.trusted ⟨[.v4 (BitVec.ofNat 32 0x0a000000) 8]⟩) = "2001:db8::/64".toList := by
  decide +kernel

end Stoop.Kv.ClientIP
