import Stoop.Mentions.Lookups
import Stoop.Mentions.Places

/-!
# What a check stores

Where a pass leaves the content as it is, each token that stands in it is shown and has its current name. So
no mention of the parse is a copy: behind one there would be a token further on in the content that is shown
only by another copy, further on again. What is stored therefore shows tokens the directory has, with the
names it has (`stored_names_live`), and a check of it changes nothing.
-/

set_option autoImplicit false

namespace Stoop.Mentions

open Stoop.Lib Stoop.Markdown Stoop.Markdown.Server

variable {current : Current} {content written : Text} {offset : Nat} {shown : ShownToken}

/-! ## What settled content shows -/

theorem mem_tokens : shown ∈ (readMentions content).tokens ↔
    ∃ own, Holds (inlineNodes (parseMarkdown content)) shown.text shown.offset own := by
  rw [readMentions, List.mem_filterMap, walkInline_eq]
  constructor
  · rintro ⟨node, hnode, hshown⟩
    cases node with
    | mention text offset own =>
      obtain rfl := Option.some.inj hshown
      exact ⟨own, hnode⟩
    | _ => cases hshown
  · rintro ⟨own, hholds⟩
    exact ⟨_, hholds, rfl⟩

theorem kept_of_fixed (proper : current.Proper) (hfixed : pass current content = content) {token : Token}
    (hstands : StandsAt content offset token) : Kept (readMentions content).tokens current offset token := by
  have hkept := (storedFrom_fixed_iff proper 0).mp hfixed offset token hstands
  rwa [Nat.zero_add] at hkept

/-- **Settled content shows no copies.** -/
theorem no_copies (proper : current.Proper) (hfixed : pass current content = content) :
    ¬ Holds (inlineNodes (parseMarkdown content)) written offset false := by
  induction hrest : byteLength content - offset using Nat.strongRecOn generalizing written offset with
  | _ n ih =>
    subst hrest
    intro hholds
    obtain ⟨token, beyond, hstands, _, hidden⟩ := (sited_parseMarkdown content).copied written offset hholds
    rw [Nat.zero_add] at hidden
    obtain ⟨hlt, hnone⟩ := hidden rfl
    obtain ⟨shown, hshown, hoffset⟩ := List.any_eq_true.mp (kept_of_fixed proper hfixed hstands).1
    rw [beq_iff_eq] at hoffset
    obtain ⟨own, hholds'⟩ := mem_tokens.mp hshown
    rw [hoffset] at hholds'
    cases own with
    | true => exact hnone _ hholds'
    | false =>
      have hend := hstands.lt
      exact ih _ (by omega) rfl hholds'

/-- **A token that settled content shows** stands there, with the name its ID has. -/
theorem shown_of_fixed (proper : current.Proper) (hfixed : pass current content = content)
    (hshown : shown ∈ (readMentions content).tokens) : ∃ token : Token, shown.text = token.text ∧
      StandsAt content shown.offset token ∧ current token.kind token.id = some token.handle := by
  obtain ⟨own, hholds⟩ := mem_tokens.mp hshown
  cases own with
  | false => exact absurd hholds (no_copies proper hfixed)
  | true =>
    obtain ⟨_, token, beyond, htext, hoffset, hstands⟩ := (sited_parseMarkdown content).placed _ _ hholds
    rw [Nat.zero_add] at hoffset
    rw [← hoffset] at hstands
    exact ⟨token, htext, hstands, (kept_of_fixed proper hfixed hstands).2⟩

theorem eq_nil_of_byteLength {text : Text} (h : byteLength text = 0) : text = [] := by
  cases text with
  | nil => rfl
  | cons c text =>
    have hsize := Char.utf8Size_pos c
    rw [byteLength_cons] at h
    omega

theorem text_eq_of_standsAt {token token' : Token} (h : StandsAt content offset token)
    (h' : StandsAt content offset token') : token.text = token'.text := by
  obtain ⟨before, after, rfl, rfl⟩ := h
  obtain ⟨before', after', heq, hlength⟩ := h'
  -- no two prefixes have as many bytes
  rcases List.append_eq_append_iff.mp heq with ⟨inside, rfl, hrest⟩ | ⟨inside, rfl, hrest⟩
  · rw [byteLength_append] at hlength
    obtain rfl := eq_nil_of_byteLength (by omega : byteLength inside = 0)
    exact (text_eq_of_append hrest).1
  · rw [byteLength_append] at hlength
    obtain rfl := eq_nil_of_byteLength (by omega : byteLength inside = 0)
    exact (text_eq_of_append hrest).1.symm

/-! ## Content without tokens -/

theorem hasTokens_of_standsAt {token : Token} (h : StandsAt content offset token) : hasTokens content = true := by
  obtain ⟨before, after, rfl, -⟩ := h
  induction before with
  | nil =>
    have hlength := tokenLength_text token after
    have hpos := token.length_pos
    obtain ⟨tail, htail, _⟩ := text_cons token
    rw [htail, List.cons_append] at hlength
    rw [List.nil_append, htail, List.cons_append, hasTokens, hlength, Bool.or_eq_true, bne_iff_ne]
    exact .inl (by rw [← htail]; omega)
  | cons c before ih => rw [List.cons_append, hasTokens, ih, Bool.or_true]

theorem tokens_eq_nil (h : hasTokens content = false) : (readMentions content).tokens = [] := by
  refine List.eq_nil_iff_forall_not_mem.mpr fun shown hshown => ?_
  obtain ⟨own, hholds⟩ := mem_tokens.mp hshown
  have hstands : ∃ offset token, StandsAt content offset token := by
    cases own with
    | true =>
      obtain ⟨_, token, beyond, _, _, hstands⟩ := (sited_parseMarkdown content).placed _ _ hholds
      exact ⟨beyond, token, hstands⟩
    | false =>
      obtain ⟨token, beyond, hstands, _⟩ := (sited_parseMarkdown content).copied _ _ hholds
      exact ⟨beyond, token, hstands⟩
  obtain ⟨offset, token, hstands⟩ := hstands
  rw [hasTokens_of_standsAt hstands] at h
  cases h

/-! ## A check -/

variable {d : Directory} {channel : ChannelRow} {participants : List Text} {fuel : Nat} {stored : Text}
  {targets : MentionTargets}

theorem checkMentions_tokens (h : hasTokens content = true) :
    checkMentions d channel participants fuel content = (do
      let readers ← d.channelReaders channel participants
      let current ← d.current channel readers (readMentions content).tokens
      .ok ((settle (pass current) fuel content).map fun stored => (stored, targetsOf readers stored))) := by
  simp only [checkMentions, h, Bool.not_true, Bool.false_and, Bool.false_eq_true, if_false]
  rfl

/-- Content without tokens is stored as it is, and names no one. -/
theorem checkMentions_plain (h : hasTokens content = false) :
    (∃ targets, targets.people = [] ∧ targets.groups = [] ∧
      ∀ fuel, checkMentions d channel participants fuel content = .ok (some (content, targets))) ∨
      ∃ e, d.channelReaders channel participants = .error e ∧
        checkMentions d channel participants fuel content = .error e := by
  simp only [checkMentions, h, Bool.not_false, Bool.true_and, if_true]
  split
  next => exact .inl ⟨{}, rfl, rfl, fun _ => rfl⟩
  next =>
    split
    next => exact .inl ⟨{}, rfl, rfl, fun _ => rfl⟩
    next =>
      cases hreaders : d.channelReaders channel participants with
      | error e => exact .inr ⟨e, rfl, rfl⟩
      | ok readers => exact .inl ⟨_, rfl, rfl, fun _ => rfl⟩

/-- A name a message in a channel may use: that of a live reader, or in a public channel of a group or a public
text channel of its space. -/
def Directory.MayName (d : Directory) (channel : ChannelRow) (participants : List Text) (kind : TokenKind)
    (id name : Text) : Prop :=
  ∃ readers, d.channelReaders channel participants = .ok readers ∧ d.live channel readers kind id = some name

/-- Content that shows only what it may, under the names of now; who it names told; and a check of it stores it
again. -/
structure Settled (d : Directory) (channel : ChannelRow) (participants : List Text) (stored : Text)
    (targets : MentionTargets) : Prop where
  shown : ∀ shown ∈ (readMentions stored).tokens, ∃ token : Token, shown.text = token.text ∧
    d.MayName channel participants token.kind token.id token.handle
  people : ∀ id, id ∈ targets.people ↔ Asked (readMentions stored).tokens .person id
  groups : ∀ id, id ∈ targets.groups ↔ Asked (readMentions stored).tokens .group id
  people_live : ∀ id ∈ targets.people, ∃ name, d.MayName channel participants .person id name
  groups_live : ∀ id ∈ targets.groups, ∃ name, d.MayName channel participants .group id name
  again : ∀ fuel, 0 < fuel → ∃ targets',
    checkMentions d channel participants fuel stored = .ok (some (stored, targets')) ∧
    targets'.people = targets.people ∧ targets'.groups = targets.groups

theorem not_asked_nil {kind : TokenKind} {id : Text} : ¬ Asked [] kind id := by
  rintro ⟨_, hmem, _⟩
  cases hmem

/-- Content without tokens is settled as it is. -/
theorem settled_plain (hnone : hasTokens content = false) (hpeople : targets.people = [])
    (hgroups : targets.groups = [])
    (h : ∀ fuel, checkMentions d channel participants fuel content = .ok (some (content, targets))) :
    Settled d channel participants content targets := by
  refine ⟨?_, ?_, ?_, ?_, ?_, fun fuel _ => ⟨targets, h fuel, rfl, rfl⟩⟩
  · rw [tokens_eq_nil hnone]
    nofun
  · intro id
    rw [hpeople, tokens_eq_nil hnone]
    exact ⟨nofun, fun hasked => absurd hasked not_asked_nil⟩
  · intro id
    rw [hgroups, tokens_eq_nil hnone]
    exact ⟨nofun, fun hasked => absurd hasked not_asked_nil⟩
  · rw [hpeople]
    nofun
  · rw [hgroups]
    nofun

section
variable {readers : List Text} {tokens : List ShownToken}
  (hreaders : d.channelReaders channel participants = .ok readers)
  (hcurrent : d.current channel readers tokens = .ok current) (hfixed : pass current stored = stored)

include hreaders hcurrent hfixed

theorem mayName_of_fixed (hshown : shown ∈ (readMentions stored).tokens) :
    ∃ token : Token, shown.text = token.text ∧ Asked tokens token.kind token.id ∧ d.MayName channel participants token.kind token.id token.handle := by
  obtain ⟨token, htext, _, hname⟩ := shown_of_fixed (current_proper hcurrent) hfixed hshown
  obtain ⟨hasked, hlive⟩ := (current_eq_some hcurrent).mp hname
  exact ⟨token, htext, hasked, readers, hreaders, hlive⟩

/-- What settled content asks for, the content it comes from asked for. -/
theorem asked_of_fixed {kind : TokenKind} {id : Text} (h : Asked (readMentions stored).tokens kind id) :
    Asked tokens kind id ∧ ∃ name, d.MayName channel participants kind id name := by
  obtain ⟨shown, hshown, hkind, hid⟩ := h
  obtain ⟨token, htext, hasked, hmay⟩ := mayName_of_fixed hreaders hcurrent hfixed hshown
  rw [htext, tokenParts_text] at hkind hid
  obtain rfl : token.kind = kind := hkind
  obtain rfl : token.id = id := hid
  exact ⟨hasked, token.handle, hmay⟩

/-- **A check of settled content finds the names it has**, and leaves it as it is. -/
theorem pass_again : ∃ current', d.current channel readers (readMentions stored).tokens = .ok current' ∧
    pass current' stored = stored := by
  obtain ⟨current', hcurrent'⟩ :=
    current_of_fewer (fun _ _ hasked => (asked_of_fixed hreaders hcurrent hfixed hasked).1) hcurrent
  refine ⟨current', hcurrent', ?_⟩
  refine (storedFrom_fixed_iff (current_proper hcurrent') 0).mpr fun offset token hstands => ?_
  rw [Nat.zero_add]
  have hkept := kept_of_fixed (current_proper hcurrent) hfixed hstands
  refine ⟨hkept.1, (current_eq_some hcurrent').mpr ⟨?_, ((current_eq_some hcurrent).mp hkept.2).2⟩⟩
  -- what is shown there is the token
  obtain ⟨shown, hshown, hoffset⟩ := List.any_eq_true.mp hkept.1
  obtain ⟨token', htext, hstands', _⟩ := shown_of_fixed (current_proper hcurrent) hfixed hshown
  rw [beq_iff_eq.mp hoffset] at hstands'
  refine ⟨shown, hshown, ?_⟩
  rw [ShownToken.Names, htext, text_eq_of_standsAt hstands' hstands, tokenParts_text]
  exact ⟨rfl, rfl⟩

theorem settled_tokens : Settled d channel participants stored (targetsOf readers stored) := by
  have hmem : ∀ kind id, id ∈ idsOf kind (fun _ => true) (readMentions stored).tokens ↔
      Asked (readMentions stored).tokens kind id := fun kind id => by rw [mem_idsOf, eq_self, true_and]
  refine ⟨fun shown hshown => ?_, hmem .person, hmem .group, fun id hid => ?_, fun id hid => ?_,
    fun fuel hfuel => ?_⟩
  · obtain ⟨token, htext, _, hmay⟩ := mayName_of_fixed hreaders hcurrent hfixed hshown
    exact ⟨token, htext, hmay⟩
  · exact (asked_of_fixed hreaders hcurrent hfixed ((hmem .person id).mp hid)).2
  · exact (asked_of_fixed hreaders hcurrent hfixed ((hmem .group id).mp hid)).2
  · cases hhas : hasTokens stored with
    | true =>
      obtain ⟨current', hcurrent', hfixed'⟩ := pass_again hreaders hcurrent hfixed
      obtain ⟨n, rfl⟩ := Nat.exists_eq_succ_of_ne_zero hfuel.ne'
      refine ⟨targetsOf readers stored, ?_, rfl, rfl⟩
      rw [checkMentions_tokens hhas, hreaders]
      refine ok_bind rfl (ok_bind hcurrent' ?_)
      rw [settle_of_fixed hfixed']
      rfl
    | false =>
      rw [targetsOf, tokens_eq_nil hhas]
      rcases @checkMentions_plain stored d channel participants fuel hhas with
        ⟨targets', hpeople, hgroups, h⟩ | ⟨e, he, _⟩
      · exact ⟨targets', h fuel, hpeople, hgroups⟩
      · rw [hreaders] at he
        cases he

end

/-- **What a check stores is settled.** -/
theorem settled_of_checkMentions
    (h : checkMentions d channel participants fuel content = .ok (some (stored, targets))) :
    Settled d channel participants stored targets := by
  cases hhas : hasTokens content with
  | false =>
    rcases @checkMentions_plain content d channel participants fuel hhas with
      ⟨targets', hpeople, hgroups, hplain⟩ | ⟨e, _, he⟩
    · rw [hplain] at h
      cases h
      exact settled_plain hhas hpeople hgroups hplain
    · rw [he] at h
      cases h
  | true =>
    rw [checkMentions_tokens hhas] at h
    obtain ⟨readers, hreaders, h⟩ := bind_ok h
    obtain ⟨current, hcurrent, h⟩ := bind_ok h
    obtain ⟨stored', hsettle, hpair⟩ := Option.map_eq_some_iff.mp (Except.ok.inj h)
    obtain ⟨rfl, rfl⟩ := Prod.mk.inj hpair
    exact settled_tokens hreaders hcurrent (settle_fixed hsettle)

/-- Passes enough for content: each that changes it takes a "<" away, and one gives its tokens their names. -/
def passes (content : Text) : Nat := 2 * content.length + 2

theorem channelReaders_error {e : String} (h : d.channelReaders channel participants = .error e) :
    ∃ lookup, d.fails lookup = true ∧ e = lookup.error := by
  rw [Directory.channelReaders] at h
  split at h
  next => cases h
  next => exact ⟨_, read_error h⟩

/-- **A check ends**, if no lookup fails. -/
theorem checkMentions_ends (hfuel : passes content ≤ fuel) :
    (∃ stored targets, checkMentions d channel participants fuel content = .ok (some (stored, targets))) ∨
      ∃ lookup, d.fails lookup = true ∧
        checkMentions d channel participants fuel content = .error lookup.error := by
  cases hhas : hasTokens content with
  | false =>
    rcases @checkMentions_plain content d channel participants fuel hhas with
      ⟨targets, _, _, hplain⟩ | ⟨e, hreaders, he⟩
    · exact .inl ⟨content, targets, hplain fuel⟩
    · obtain ⟨lookup, hfails, rfl⟩ := channelReaders_error hreaders
      exact .inr ⟨lookup, hfails, he⟩
  | true =>
    rw [checkMentions_tokens hhas]
    cases hreaders : d.channelReaders channel participants with
    | error e =>
      obtain ⟨lookup, hfails, rfl⟩ := channelReaders_error hreaders
      exact .inr ⟨lookup, hfails, rfl⟩
    | ok readers =>
      cases hcurrent : d.current channel readers (readMentions content).tokens with
      | error e =>
        obtain ⟨lookup, hfails, rfl⟩ := current_error hcurrent
        refine .inr ⟨lookup, hfails, ?_⟩
        change (d.current channel readers _ >>= _) = _
        rw [hcurrent]
        rfl
      | ok current =>
        have hbound : unsettled current content < fuel := by
          have hle := @unsettled_le current content
          rw [passes] at hfuel
          omega
        obtain ⟨stored, hsettle⟩ := settle_ends (unsettled current)
          (fun _ => pass_lower (current_proper hcurrent)) hbound
        refine .inl ⟨stored, targetsOf readers stored, ok_bind rfl (ok_bind hcurrent ?_)⟩
        rw [hsettle]
        rfl

/-- **Whatever its content was, a stored message names only whom it may**: the check ends, each token that is
stored and shown is in the directory under the name it has there, the people and the groups told are those the
tokens name, and a check of what is stored stores it again and tells the same. -/
theorem stored_mentions_live (d : Directory) (channel : ChannelRow) (participants : List Text) (content : Text)
    {fuel : Nat} (hfuel : passes content ≤ fuel) :
    (∃ stored targets, checkMentions d channel participants fuel content = .ok (some (stored, targets)) ∧
      Settled d channel participants stored targets) ∨
      ∃ lookup, d.fails lookup = true ∧
        checkMentions d channel participants fuel content = .error lookup.error := by
  rcases @checkMentions_ends content d channel participants fuel hfuel with ⟨stored, targets, h⟩ | hfails
  · exact .inl ⟨stored, targets, h, settled_of_checkMentions h⟩
  · exact .inr hfails

/-! A token written as text joins what is around it into one of a channel that nothing asked for. -/

/-- An ID of one digit. -/
def idOf (c : Char) : Text :=
  .replicate 8 c ++ '-' :: .replicate 4 c ++ '-' :: .replicate 4 c ++ '-' :: .replicate 4 c ++ '-' :: .replicate 12 c

def general : ChannelRow := ⟨idOf '0', some ['h', 'o', 'm', 'e'], false, true, ['m', 'a', 'i', 'n']⟩

def ada : UserRecord :=
  ⟨idOf 'a', ['A', 'd', 'a'], by decide, by decide, List.all_eq_true.mp (by decide : _ = true)⟩

def home : Directory where
  users := ⟨[ada], List.nodup_singleton _⟩
  groups := .empty
  channels := ⟨[general], List.nodup_singleton _⟩
  members := [(['h', 'o', 'm', 'e'], ada.id)]
  fails := fun _ => false

def joining : Text :=
  tokenText .person ada.id ['o', 'l', 'd'] ++ ' ' :: '<' ::
    (tokenText .channel ada.id (general.id.take 32) ++ general.id.drop 32 ++ [':', 'x', '>'])

theorem joining_settled :
    checkMentions home general [] 300 joining = .ok (some
      (tokenText .person ada.id ['a', 'd', 'a'] ++ [' ', '#', 'x'], { people := [ada.id], readers := [ada.id] })) ∧
    ((∃ stored targets, checkMentions home general [] 300 joining = .ok (some (stored, targets)) ∧
      Settled home general [] stored targets) ∨
      ∃ lookup, home.fails lookup = true ∧ checkMentions home general [] 300 joining = .error lookup.error) :=
  ⟨by decide +kernel, stored_mentions_live home general [] joining (by decide +kernel)⟩

end Stoop.Mentions
