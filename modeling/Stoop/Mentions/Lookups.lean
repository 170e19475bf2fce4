import Mathlib.Tactic.Tauto
import Stoop.Mentions.Standing

/-!
# What a check looks up

The names behind the tokens that are shown: each is the name its ID has in the directory, if it names
someone or something the message may name (`current_eq_some`). The lookups that are made are those some
token needs, so a check of fewer tokens makes no more of them (`current_of_fewer`).
-/

set_option autoImplicit false

namespace Stoop.Mentions

open Stoop.Lib Stoop.Markdown Stoop.Markdown.Server

variable {d : Directory} {channel : ChannelRow} {readers : List Text} {tokens tokens' : List ShownToken}
  {current : Current} {kind kind' : TokenKind} {id id' name : Text} {e : String}

theorem bind_ok {α β : Type} {x : Except String α} {f : α → Except String β} {b : β}
    (h : (x >>= f) = .ok b) : ∃ a, x = .ok a ∧ f a = .ok b := by
  cases x with
  | error e => cases h
  | ok a => exact ⟨a, rfl, h⟩

theorem ok_bind {α β : Type} {x : Except String α} {f : α → Except String β} {a : α} {b : β} (hx : x = .ok a)
    (hf : f a = .ok b) : (x >>= f) = .ok b := by
  rw [hx]
  exact hf

theorem bind_error {α β : Type} {x : Except String α} {f : α → Except String β}
    (h : (x >>= f) = .error e) : x = .error e ∨ ∃ a, x = .ok a ∧ f a = .error e := by
  cases x with
  | error e' => exact .inl (Except.error.inj h ▸ rfl)
  | ok a => exact .inr ⟨a, rfl, h⟩

/-! ## The IDs that are asked for -/

/-- A token that names an ID of a kind. -/
def ShownToken.Names (shown : ShownToken) (kind : TokenKind) (id : Text) : Prop :=
  (tokenParts shown.text).1 = kind ∧ (tokenParts shown.text).2.1 = id

/-- An ID of a kind that one of the tokens names. -/
def Asked (tokens : List ShownToken) (kind : TokenKind) (id : Text) : Prop := ∃ shown ∈ tokens, shown.Names kind id

theorem mem_withID {ids : List Text} : id' ∈ withID ids id ↔ id' ∈ ids ∨ id' = id := by
  rw [withID]
  split
  next hmem =>
    refine ⟨.inl, ?_⟩
    rintro (h | rfl)
    · exact h
    · exact hmem
  next => rw [List.mem_append, List.mem_singleton]

theorem mem_idsOf {keeps : Text → Bool} :
    id ∈ idsOf kind keeps tokens ↔ keeps id = true ∧ Asked tokens kind id := by
  have hfold : ∀ ids : List Text, id ∈ tokens.foldl (fun ids token =>
      if (tokenParts token.text).1 = kind && keeps (tokenParts token.text).2.1 then
        withID ids (tokenParts token.text).2.1
      else ids) ids ↔
      id ∈ ids ∨ keeps id = true ∧ Asked tokens kind id := by
    induction tokens with
    | nil => simp [Asked]
    | cons shown tokens ih =>
      intro ids
      rw [List.foldl_cons, ih]
      have hasked : Asked (shown :: tokens) kind id ↔ shown.Names kind id ∨ Asked tokens kind id := by
        simp [Asked]
      rw [hasked, ShownToken.Names]
      rcases tokenParts shown.text with ⟨kind', id', handle⟩
      simp only [Bool.and_eq_true, decide_eq_true_eq]
      split
      next htake =>
        rw [mem_withID]
        constructor
        · rintro ((h | rfl) | h)
          · exact .inl h
          · exact .inr ⟨htake.2, .inl ⟨htake.1, rfl⟩⟩
          · exact .inr ⟨h.1, .inr h.2⟩
        · rintro (h | ⟨hkeeps, ⟨_, rfl⟩ | h⟩)
          · exact .inl (.inl h)
          · exact .inl (.inr rfl)
          · exact .inr ⟨hkeeps, h⟩
      next hleave =>
        constructor
        · rintro (h | h)
          · exact .inl h
          · exact .inr ⟨h.1, .inr h.2⟩
        · rintro (h | ⟨hkeeps, ⟨rfl, rfl⟩ | h⟩)
          · exact .inl h
          · exact absurd ⟨rfl, hkeeps⟩ hleave
          · exact .inr ⟨hkeeps, h⟩
  exact (hfold []).trans (by rw [iff_false_intro List.not_mem_nil, false_or])

/-! ## The rows that are answered -/

theorem read_ok {α : Type} {lookup : Lookup} {rows rows' : List α} (h : d.read lookup rows = .ok rows') :
    rows' = rows := by
  rw [Directory.read] at h
  split at h
  next => cases h
  next => exact (Except.ok.inj h).symm

theorem read_error {α : Type} {lookup : Lookup} {rows : List α} (h : d.read lookup rows = .error e) :
    d.fails lookup = true ∧ e = lookup.error := by
  rw [Directory.read] at h
  split at h
  next hfails => exact ⟨hfails, (Except.error.inj h).symm⟩
  next => cases h

/-- A lookup's rows, whether it is made or there is nothing to look up. -/
theorem lookUpIf_ok {α : Type} {lookup : Lookup} {asks may : Bool} {rows rows' : List α}
    (hneeded : ∀ row ∈ rows, asks = true) (h : lookUpIf (asks && may) (d.read lookup rows) = .ok rows') :
    rows' = if may then rows else [] := by
  rw [lookUpIf] at h
  split at h
  next hasks =>
    rw [Bool.and_eq_true] at hasks
    rw [if_pos hasks.2, read_ok h]
  next hasks =>
    rw [← Except.ok.inj h]
    split
    next hmay =>
      cases rows with
      | nil => rfl
      | cons row rows => exact absurd (by rw [hneeded row List.mem_cons_self, hmay]; rfl) hasks
    next => rfl

theorem lookUpIf_error {α : Type} {lookup : Lookup} {asks : Bool} {rows : List α}
    (h : lookUpIf asks (d.read lookup rows) = .error e) : d.fails lookup = true ∧ e = lookup.error := by
  rw [lookUpIf] at h
  split at h
  next => exact read_error h
  next => cases h

/-- Names set from rows that have IDs of their own. -/
theorem set_rows {α : Type} {key value : α → Text} {rows : List α} (hnodup : (rows.map key).Nodup)
    (current : Current) :
    rows.foldl (fun current row => current.set kind (key row) (value row)) current kind' id = some name ↔
      (kind' = kind ∧ ∃ row ∈ rows, key row = id ∧ value row = name) ∨
        current kind' id = some name ∧ ¬ (kind' = kind ∧ ∃ row ∈ rows, key row = id) := by
  induction rows generalizing current with
  | nil => simp
  | cons row rows ih =>
    rw [List.map_cons, List.nodup_cons] at hnodup
    rw [List.foldl_cons, ih hnodup.2, Current.set]
    have hfresh : ∀ row' ∈ rows, key row' = id → key row ≠ id := fun row' hrow hkey hkey' =>
      hnodup.1 (List.mem_map.mpr ⟨row', hrow, hkey.trans hkey'.symm⟩)
    simp only [List.mem_cons, exists_eq_or_imp]
    split
    next hsame =>
      obtain ⟨rfl, rfl⟩ := hsame
      have hnone : ¬ ∃ row' ∈ rows, key row' = key row := by
        rintro ⟨row', hrow, hkey⟩
        exact hfresh row' hrow hkey rfl
      have hnone' : ¬ ∃ row' ∈ rows, key row' = key row ∧ value row' = name := by
        rintro ⟨row', hrow, hkey, _⟩
        exact hfresh row' hrow hkey rfl
      simp [hnone, hnone']
    next hother =>
      have hrow : kind' = kind → key row ≠ id := fun hkind hkey => hother ⟨hkind, hkey.symm⟩
      constructor
      · rintro (⟨hkind, h⟩ | ⟨hcurrent, h⟩)
        · exact .inl ⟨hkind, .inr h⟩
        · refine .inr ⟨hcurrent, ?_⟩
          rintro ⟨hkind, hkey | hkey⟩
          · exact hrow hkind hkey
          · exact h ⟨hkind, hkey⟩
      · rintro (⟨hkind, ⟨hkey, _⟩ | h⟩ | ⟨hcurrent, h⟩)
        · exact absurd hkey (hrow hkind)
        · exact .inl ⟨hkind, h⟩
        · exact .inr ⟨hcurrent, fun hboth => h ⟨hboth.1, .inr hboth.2⟩⟩

/-- The rows of a lookup by ID that may be made, found by the ID. -/
theorem exists_rows {α : Type} {key value : α → Text} {rows : Keyed key} {may : Bool} {p : α → Bool} :
    (∃ row ∈ if may then rows.values.filter p else [], key row = id ∧ value row = name) ↔
      may = true ∧ ∃ row, rows.get? id = some row ∧ p row = true ∧ value row = name := by
  cases may with
  | false => simp
  | true =>
    rw [if_pos rfl, eq_self, true_and]
    constructor
    · rintro ⟨row, hrow, rfl, hvalue⟩
      obtain ⟨hmem, hp⟩ := List.mem_filter.mp hrow
      exact ⟨row, Keyed.mem_values.mp hmem, hp, hvalue⟩
    · rintro ⟨row, hget, hp, hvalue⟩
      obtain rfl := Keyed.key_of_get? hget
      exact ⟨row, List.mem_filter.mpr ⟨Keyed.mem_values.mpr hget, hp⟩, rfl, hvalue⟩

theorem nodup_rows {α : Type} {key : α → Text} {rows : Keyed key} {may : Bool} {p : α → Bool} :
    ((if may then rows.values.filter p else []).map key).Nodup := by
  split
  next => exact (rows.filter p).nodup
  next => exact List.nodup_nil

/-! ## The names that are found -/

theorem contains_idsOf {keeps : Text → Bool} :
    (idsOf kind keeps tokens).contains id = true ↔ keeps id = true ∧ Asked tokens kind id := by
  rw [List.contains_iff_mem, mem_idsOf]

theorem asks_of_contains {ids : List Text} (h : ids.contains id = true) : (ids != []) = true := by
  rw [bne_iff_ne]
  rintro rfl
  cases h

/-- What the three lookups of a check answer. -/
structure Answered (d : Directory) (channel : ChannelRow) (readers : List Text) (tokens : List ShownToken)
    (users : List UserRecord) (groups : List GroupRow) (channels : List ChannelRow) : Prop where
  users_eq : users = if true then d.users.values.filter fun user =>
    (idsOf .person readers.contains tokens).contains user.id else []
  groups_eq : groups = if !isDM channel && !channel.isPrivate then d.groups.values.filter fun group =>
    some group.spaceId == channel.spaceId && (idsOf .group (fun _ => true) tokens).contains group.id else []
  channels_eq : channels = if !isDM channel && !channel.isPrivate then d.channels.values.filter fun row =>
    row.spaceId == channel.spaceId && (idsOf .channel (fun _ => true) tokens).contains row.id && !row.isPrivate &&
      row.textual else []

/-- The names set from what the lookups answer. -/
def namesOf (users : List UserRecord) (groups : List GroupRow) (channels : List ChannelRow) : Current :=
  (channels.filter fun row => validChannelName row.name).foldl
    (fun current row => current.set .channel row.id row.name)
    (groups.foldl (fun current group => current.set .group group.id group.handle)
      (users.foldl (fun current user => current.set .person user.id (user.username.map Char.toLower))
        fun _ _ => none))

theorem current_answered (h : d.current channel readers tokens = .ok current) :
    ∃ users groups channels, Answered d channel readers tokens users groups channels ∧
      current = namesOf users groups channels := by
  simp only [Directory.current] at h
  obtain ⟨users, husers, h⟩ := bind_ok h
  obtain ⟨groups, hgroups, h⟩ := bind_ok h
  obtain ⟨channels, hchannels, h⟩ := bind_ok h
  rw [← Bool.and_true (idsOf .person _ _ != [])] at husers
  refine ⟨users, groups, channels, ⟨lookUpIf_ok ?_ husers, lookUpIf_ok ?_ hgroups, lookUpIf_ok ?_ hchannels⟩, ?_⟩
  · intro row hrow
    have hasked := List.of_mem_filter hrow
    exact asks_of_contains hasked
  · intro row hrow
    have hasked := List.of_mem_filter hrow
    rw [Bool.and_eq_true] at hasked
    exact asks_of_contains hasked.2
  · intro row hrow
    have hasked := List.of_mem_filter hrow
    simp only [Bool.and_eq_true] at hasked
    exact asks_of_contains hasked.1.1.2
  · rw [namesOf, List.foldl_filter]
    exact (Except.ok.inj h).symm

/-- **A token's name is that of who it names**, where the message may name them. -/
theorem current_eq_some (h : d.current channel readers tokens = .ok current) :
    current kind id = some name ↔ Asked tokens kind id ∧ d.live channel readers kind id = some name := by
  obtain ⟨users, groups, channels, ⟨rfl, rfl, rfl⟩, rfl⟩ := current_answered h
  have hvalid : ∀ (may : Bool) (p : ChannelRow → Bool),
      (if may then d.channels.values.filter p else []).filter (fun row => validChannelName row.name) =
        if may then d.channels.values.filter fun row => validChannelName row.name && p row else [] := by
    intro may p
    split
    next => exact List.filter_filter
    next => rfl
  rw [namesOf, hvalid, set_rows nodup_rows, exists_rows, set_rows nodup_rows, exists_rows, set_rows nodup_rows,
    exists_rows]
  have hpublic : (!isDM channel && !channel.isPrivate) = true ↔ ¬ (isDM channel || channel.isPrivate) = true := by
    cases isDM channel <;> cases channel.isPrivate <;> decide
  cases kind with
  | person =>
    simp only [reduceCtorEq, false_and, not_false_eq_true, and_true, false_or, true_and, or_false, Directory.live]
    constructor
    · rintro ⟨user, hget, hasked, rfl⟩
      rw [Keyed.key_of_get? hget, contains_idsOf, List.contains_iff_mem] at hasked
      exact ⟨hasked.2, by rw [if_pos hasked.1, hget, Option.map_some]⟩
    · rintro ⟨hasked, hlive⟩
      split at hlive
      next hreader =>
        obtain ⟨user, hget, hname⟩ := Option.map_eq_some_iff.mp hlive
        refine ⟨user, hget, ?_, hname⟩
        rw [Keyed.key_of_get? hget, contains_idsOf, List.contains_iff_mem]
        exact ⟨hreader, hasked⟩
      next => cases hlive
  | group =>
    simp only [reduceCtorEq, false_and, not_false_eq_true, and_true, false_or, true_and, or_false, Directory.live]
    rw [hpublic]
    constructor
    · rintro ⟨hmay, group, hget, hok, rfl⟩
      rw [Bool.and_eq_true, Keyed.key_of_get? hget, contains_idsOf] at hok
      obtain ⟨hspace, _, hasked⟩ := hok
      exact ⟨hasked, by rw [if_neg hmay, hget, Option.filter_some, if_pos hspace, Option.map_some]⟩
    · rintro ⟨hasked, hlive⟩
      split at hlive
      next => cases hlive
      next hmay =>
        obtain ⟨group, hgroup, hname⟩ := Option.map_eq_some_iff.mp hlive
        obtain ⟨hget, hspace⟩ := Option.filter_eq_some_iff.mp hgroup
        refine ⟨hmay, group, hget, ?_, hname⟩
        rw [Bool.and_eq_true, Keyed.key_of_get? hget, contains_idsOf]
        exact ⟨hspace, rfl, hasked⟩
  | channel =>
    simp only [reduceCtorEq, false_and, not_false_eq_true, and_true, true_and, or_false, Directory.live]
    rw [hpublic]
    constructor
    · rintro ⟨hmay, row, hget, hok, rfl⟩
      simp only [Bool.and_eq_true, Keyed.key_of_get? hget, contains_idsOf] at hok
      obtain ⟨hname, ⟨⟨hspace, _, hasked⟩, hopen⟩, htextual⟩ := hok
      refine ⟨hasked, ?_⟩
      rw [if_neg hmay, hget, Option.filter_some_pos (by rw [hspace, hopen, htextual, hname]; rfl), Option.map_some]
    · rintro ⟨hasked, hlive⟩
      split at hlive
      next => cases hlive
      next hmay =>
        obtain ⟨row, hrow, hname⟩ := Option.map_eq_some_iff.mp hlive
        obtain ⟨hget, hok⟩ := Option.filter_eq_some_iff.mp hrow
        simp only [Bool.and_eq_true] at hok
        refine ⟨hmay, row, hget, ?_, hname⟩
        simp only [Bool.and_eq_true, Keyed.key_of_get? hget, contains_idsOf]
        exact ⟨hok.2, ⟨⟨hok.1.1.1, trivial, hasked⟩, hok.1.1.2⟩, hok.1.2⟩

theorem names_of_validChannelName (h : validChannelName name = true) : TokenKind.channel.Names name := by
  cases name with
  | nil => cases h
  | cons first rest =>
    simp only [validChannelName, Bool.and_eq_true, decide_eq_true_eq, List.all_eq_true] at h
    obtain ⟨⟨hlength, hfirst, _⟩, hrest⟩ := h
    have hle : ∀ text : Text, text.length ≤ byteLength text := by
      intro text
      induction text with
      | nil => exact Nat.le_refl _
      | cons c text ih =>
        rw [List.length_cons, byteLength_cons, Nat.add_comm]
        exact Nat.add_le_add (Char.utf8Size_pos c) ih
    refine ⟨Nat.succ_pos _, (hle _).trans hlength, List.forall_mem_cons.mpr ⟨?_, hrest⟩⟩
    exact Bool.or_eq_true_iff.mpr (.inl hfirst)

/-- The directory's names are such as tokens of the kind can carry. -/
theorem live_names (h : d.live channel readers kind id = some name) : kind.Names name := by
  cases kind with
  | person =>
    simp only [Directory.live] at h
    split at h
    next =>
      obtain ⟨user, _, rfl⟩ := Option.map_eq_some_iff.mp h
      exact user.username_ok
    next => cases h
  | group =>
    simp only [Directory.live] at h
    split at h
    next => cases h
    next =>
      obtain ⟨group, _, rfl⟩ := Option.map_eq_some_iff.mp h
      exact group.handle_ok
  | channel =>
    simp only [Directory.live] at h
    split at h
    next => cases h
    next =>
      obtain ⟨row, hrow, rfl⟩ := Option.map_eq_some_iff.mp h
      have hok := (Option.filter_eq_some_iff.mp hrow).2
      rw [Bool.and_eq_true] at hok
      exact names_of_validChannelName hok.2

theorem current_proper (h : d.current channel readers tokens = .ok current) : current.Proper :=
  fun _ _ _ hname => live_names ((current_eq_some h).mp hname).2

/-! ## Lookups that fail -/

theorem current_error (h : d.current channel readers tokens = .error e) :
    ∃ lookup, d.fails lookup = true ∧ e = lookup.error := by
  simp only [Directory.current] at h
  rcases bind_error h with h | ⟨users, _, h⟩
  · exact ⟨_, lookUpIf_error h⟩
  rcases bind_error h with h | ⟨groups, _, h⟩
  · exact ⟨_, lookUpIf_error h⟩
  rcases bind_error h with h | ⟨channels, _, h⟩
  · exact ⟨_, lookUpIf_error h⟩
  · cases h

theorem lookUpIf_of_fewer {α : Type} {lookup : Lookup} {asks asks' : Bool} {rows rows' found : List α}
    (hfewer : asks' = true → asks = true) (h : lookUpIf asks (d.read lookup rows) = .ok found) :
    ∃ found', lookUpIf asks' (d.read lookup rows') = .ok found' := by
  cases asks' with
  | false => exact ⟨[], rfl⟩
  | true =>
    rw [lookUpIf, if_pos (hfewer rfl), Directory.read] at h
    split at h
    next => cases h
    next hfails => exact ⟨rows', by rw [lookUpIf, if_pos rfl, Directory.read, if_neg hfails]⟩

theorem asks_of_fewer {keeps : Text → Bool} (hfewer : ∀ id, Asked tokens' kind id → Asked tokens kind id)
    (h : (idsOf kind keeps tokens' != []) = true) : (idsOf kind keeps tokens != []) = true := by
  obtain ⟨id, hid⟩ := List.exists_mem_of_ne_nil _ (bne_iff_ne.mp h)
  obtain ⟨hkeeps, hasked⟩ := mem_idsOf.mp hid
  exact asks_of_contains (contains_idsOf.mpr ⟨hkeeps, hfewer id hasked⟩)

/-- **Tokens that name no more need no more lookups.** -/
theorem current_of_fewer (hfewer : ∀ kind id, Asked tokens' kind id → Asked tokens kind id)
    (h : d.current channel readers tokens = .ok current) :
    ∃ current', d.current channel readers tokens' = .ok current' := by
  simp only [Directory.current] at h ⊢
  obtain ⟨users, husers, h⟩ := bind_ok h
  obtain ⟨groups, hgroups, h⟩ := bind_ok h
  obtain ⟨channels, hchannels, _⟩ := bind_ok h
  obtain ⟨users', husers'⟩ := lookUpIf_of_fewer (asks_of_fewer (hfewer .person)) husers
  obtain ⟨groups', hgroups'⟩ := lookUpIf_of_fewer (fun hasks => by
    rw [Bool.and_eq_true] at hasks ⊢
    exact ⟨asks_of_fewer (hfewer .group) hasks.1, hasks.2⟩) hgroups
  obtain ⟨channels', hchannels'⟩ := lookUpIf_of_fewer (fun hasks => by
    rw [Bool.and_eq_true] at hasks ⊢
    exact ⟨asks_of_fewer (hfewer .channel) hasks.1, hasks.2⟩) hchannels
  exact ⟨_, ok_bind husers' (ok_bind hgroups' (ok_bind hchannels' rfl))⟩

end Stoop.Mentions
