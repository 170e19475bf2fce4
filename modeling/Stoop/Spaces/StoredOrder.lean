import Stoop.Spaces.Reorder

/-!
# What a reorder keeps

The order a request is answered with is the list with the places of the named given to them in turn, and only
those. Stored, it is the order of the listed channels. Where a channel was left out of the list, the whole stored
order is as asked exactly when its old number fits (`Fits`); `hangout_moves` is a space in which it does not.
-/

set_option autoImplicit false

namespace Stoop.Spaces.Reorder

open Stoop.Lib

variable {ι υ : Type}

theorem allChannels_eq (rows : List (ChannelRow ι)) (voiceOn : Bool) :
    allChannels rows voiceOn = rows.filter fun row => shown voiceOn row.channel := by
  cases voiceOn with
  | true => exact (List.filter_eq_self.mpr fun _ _ => rfl).symm
  | false => rfl

theorem ids_sublist (rows : List (ChannelRow ι)) (voiceOn : Bool) :
    (ids (allChannels rows voiceOn)).Sublist (ids rows) := by
  rw [allChannels_eq]
  exact List.filter_sublist.map _

variable [DecidableEq ι]

/-! ## The two loops -/

theorem nameEach_eq (known named requested : List ι) : nameEach known named requested =
    if (∀ id ∈ requested, id ∈ known ∧ id ∉ named) ∧ requested.Nodup then .ok (requested.reverse ++ named)
    else .error errList := by
  induction requested generalizing named with
  | nil => exact (if_pos ⟨nofun, List.nodup_nil⟩).symm
  | cons id requested ih =>
    rw [nameEach]
    by_cases hid : id ∈ known ∧ id ∉ named
    · rw [if_neg (by tauto), ih, List.reverse_cons, List.append_assoc, List.singleton_append]
      refine if_congr ?_ rfl rfl
      rw [List.forall_mem_cons, List.nodup_cons]
      simp only [List.mem_cons, not_or]
      constructor
      · rintro ⟨heach, honce⟩
        refine ⟨⟨hid, fun other hother => ⟨(heach other hother).1, (heach other hother).2.2⟩⟩, ?_, honce⟩
        exact fun hmem => (heach id hmem).2.1 rfl
      · rintro ⟨⟨-, heach⟩, hnew, honce⟩
        refine ⟨fun other hother => ⟨(heach other hother).1, ?_, (heach other hother).2⟩, honce⟩
        exact fun hsame => hnew (hsame ▸ hother)
    · rw [if_pos (by tauto), if_neg]
      exact fun h => hid (h.1 id List.mem_cons_self)

theorem placeEach_eq {named requested : List ι} (rows : List (ChannelRow ι))
    (hcount : requested.length = (ids rows).countP (names named)) :
    placeEach named rows requested =
      if ∀ row ∈ rows, row.joined = true → row.channel.id ∈ named then
        .ok (fill (names named) (ids rows) requested)
      else .error errList := by
  induction rows generalizing requested with
  | nil => exact (if_pos nofun).symm
  | cons row rows ih =>
    have hids : ids (row :: rows) = row.channel.id :: ids rows := rfl
    rw [hids] at hcount ⊢
    by_cases hnamed : row.channel.id ∈ named
    · have hslot : names named row.channel.id = true := decide_eq_true hnamed
      obtain ⟨id, rest, rfl, hrest⟩ := exists_cons_of_slot hslot hcount
      have hstep : placeEach named (row :: rows) (id :: rest) = (id :: ·) <$> placeEach named rows rest :=
        if_neg (not_not_intro hnamed)
      rw [hstep, fill_cons_pos hslot, ih hrest]
      simp only [List.forall_mem_cons, hnamed, implies_true, true_and]
      split <;> rfl
    · have hslot : names named row.channel.id = false := decide_eq_false hnamed
      have hstep : placeEach named (row :: rows) requested =
          if row.joined then .error errList else (row.channel.id :: ·) <$> placeEach named rows requested :=
        if_pos hnamed
      rw [List.countP_cons_of_neg (ne_true_of_eq_false hslot)] at hcount
      rw [hstep, fill_cons_neg hslot, ih hcount]
      simp only [List.forall_mem_cons, hnamed, imp_false]
      cases row.joined with
      | true => rw [if_pos rfl, if_neg fun h => h.1 rfl]
      | false =>
        simp only [Bool.false_eq_true, if_false, not_false_eq_true, true_and]
        split <;> rfl

variable {rows : List (ChannelRow ι)} {requested order : List ι}

/-- There are as many named places as ids in the request. -/
theorem length_requested (hnodup : (ids rows).Nodup) (hknown : ∀ id ∈ requested, id ∈ ids rows)
    (honce : requested.Nodup) :
    requested.length = (ids rows).countP (names requested) := by
  rw [List.countP_eq_length_filter]
  refine List.Perm.length_eq ((List.perm_ext_iff_of_nodup honce (hnodup.filter _)).mpr fun id => ?_)
  rw [List.mem_filter, names, decide_eq_true_eq]
  exact ⟨fun h => ⟨hknown id h, h⟩, And.right⟩

/-- `reorderedIDs` takes exactly the acceptable requests, and answers the list asked for. -/
theorem reorderedIDs_eq (hnodup : (ids rows).Nodup) : reorderedIDs rows requested =
    if Acceptable rows requested then .ok (asked (ids rows) requested) else .error errList := by
  rw [reorderedIDs, nameEach_eq]
  by_cases hnames : (∀ id ∈ requested, id ∈ ids rows ∧ id ∉ ([] : List ι)) ∧ requested.Nodup
  · rw [if_pos hnames, List.append_nil]
    have hcount := length_requested hnodup (fun id h => (hnames.1 id h).1) hnames.2
    have hreverse : names requested.reverse = names requested := by
      funext id
      rw [names, names, decide_eq_decide, List.mem_reverse]
    have hplace := placeEach_eq rows (hreverse ▸ hcount : _ = (ids rows).countP (names requested.reverse))
    refine hplace.trans ?_
    simp only [List.mem_reverse, hreverse]
    refine if_congr ⟨fun h => ⟨fun id hid => (hnames.1 id hid).1, hnames.2, h⟩, fun h => h.joined⟩ rfl rfl
  · rw [if_neg hnames, if_neg]
    · rfl
    · exact fun h => hnames ⟨fun id hid => ⟨h.known id hid, List.not_mem_nil⟩, h.once⟩

/-! ## The list asked for -/

namespace Acceptable

theorem count (h : Acceptable rows requested) (hnodup : (ids rows).Nodup) :
    requested.length = (ids rows).countP (names requested) :=
  length_requested hnodup h.known h.once

theorem asked_perm (h : Acceptable rows requested) (hnodup : (ids rows).Nodup) :
    (asked (ids rows) requested).Perm (ids rows) := by
  have hnamed : requested.Perm ((ids rows).filter (names requested)) := by
    refine (List.perm_ext_iff_of_nodup h.once (hnodup.filter _)).mpr fun id => ?_
    rw [List.mem_filter, names, decide_eq_true_eq]
    exact ⟨fun hid => ⟨h.known id hid, hid⟩, And.right⟩
  exact (perm_fill (h.count hnodup)).trans
    ((hnamed.append_right _).trans (List.filter_append_perm _ _))

theorem asked_filter (h : Acceptable rows requested) (hnodup : (ids rows).Nodup) :
    (asked (ids rows) requested).filter (names requested) = requested :=
  filter_fill (fun _ hid => decide_eq_true hid) (h.count hnodup)

end Acceptable

theorem asked_place {listed : List ι} {i : Nat} {id : ι} (hplace : listed[i]? = some id) (h : id ∉ requested) :
    (asked listed requested)[i]? = some id := getElem?_fill hplace (decide_eq_false h)

/-! ## What is stored -/

/-- A channel, with its place in an order numbered from an index. -/
def renumbered (index : Nat) (order : List ι) (c : Channel ι) : Channel ι :=
  if c.id ∈ order then { c with position := ↑(index + order.idxOf c.id) } else c

theorem renumbered_id (index : Nat) (order : List ι) (c : Channel ι) : (renumbered index order c).id = c.id := by
  unfold renumbered
  split <;> rfl

theorem renumbered_self {id : ι} {index : Nat} {c : Channel ι} (h : c.id = id) :
    renumbered index (id :: order) c = { c with position := index } := by
  rw [renumbered, if_pos (h ▸ List.mem_cons_self), h, List.idxOf_cons_self, Nat.add_zero]

theorem renumbered_cons {id : ι} {index : Nat} {c : Channel ι} (h : c.id ≠ id) :
    renumbered index (id :: order) c = renumbered (index + 1) order c := by
  unfold renumbered
  refine if_congr (List.mem_cons.trans (or_iff_right h)) ?_ rfl
  rw [List.idxOf_cons_ne _ (Ne.symm h), Nat.succ_add, Nat.add_succ]

/-- The positions set are those of the order, one after the other. -/
theorem setPositions_values (s : Space ι υ) (index : Nat) (hnodup : order.Nodup) :
    (s.setPositions index order).channels.values = s.channels.values.map (renumbered index order) := by
  induction order generalizing s index with
  | nil =>
    have hsame : renumbered index ([] : List ι) = id := funext fun c => if_neg List.not_mem_nil
    rw [hsame, List.map_id]
    rfl
  | cons id order ih =>
    obtain ⟨hnew, hrest⟩ := List.nodup_cons.mp hnodup
    rw [Space.setPositions, ih _ _ hrest]
    change (s.channels.values.map _).map _ = _
    rw [List.map_map]
    refine List.map_congr_left fun c _ => ?_
    rw [Function.comp_apply]
    by_cases hid : c.id = id
    · rw [if_pos hid, renumbered_self hid, renumbered, if_neg (hid ▸ hnew)]
    · rw [if_neg hid, renumbered_cons hid]

/-- Numbering a list in turn gives each listed channel its place among the listed. -/
theorem numbered_eq {shown : Channel ι → Bool} (index : Nat) {l : List (Channel ι)}
    (hnodup : (l.map (·.id)).Nodup) :
    numbered shown index l = l.map (renumbered index ((l.filter shown).map (·.id))) := by
  induction l generalizing index with
  | nil => rfl
  | cons c l ih =>
    rw [List.map_cons, List.nodup_cons] at hnodup
    obtain ⟨hnew, hrest⟩ := hnodup
    have hne : ∀ d ∈ l, d.id ≠ c.id := fun d hd hsame => hnew (hsame ▸ List.mem_map_of_mem hd)
    rw [List.map_cons]
    cases hshown : shown c with
    | true =>
      rw [numbered, if_pos hshown, List.filter_cons_of_pos hshown, List.map_cons, ih _ hrest]
      congr 1
      · exact (renumbered_self rfl).symm
      · exact List.map_congr_left fun d hd => (renumbered_cons (hne d hd)).symm
    | false =>
      have hno := ne_true_of_eq_false hshown
      rw [numbered, if_neg hno, List.filter_cons_of_neg hno, ih _ hrest]
      congr 1
      refine (if_neg fun hmem => ?_).symm
      obtain ⟨d, hd, hsame⟩ := List.mem_map.mp hmem
      exact hne d (List.mem_filter.mp hd).1 hsame

/-! ## One reorder -/

section Answers

variable [DecidableEq υ] {s : Space ι υ} {user : υ}

namespace Space.Lists

theorem nodup (h : s.Lists user rows) : (ids rows).Nodup := by
  have hids : (ids rows).Perm (s.channels.values.map (·.id)) := by
    have hmap := h.all.map (·.id)
    rwa [List.map_map] at hmap
  exact hids.nodup_iff.mpr s.channels.nodup

/-- A row is known by its channel's id. -/
theorem get? (h : s.Lists user rows) {row : ChannelRow ι} (hrow : row ∈ rows) :
    s.channels.get? row.channel.id = some row.channel :=
  Keyed.mem_values.mp (h.all.mem_iff.mp (List.mem_map_of_mem hrow))

end Space.Lists

/-- A query's answer and a request that is taken, and the order it is answered with. -/
structure Asks (s : Space ι υ) (user : υ) (rows : List (ChannelRow ι)) (voiceOn : Bool)
    (requested order : List ι) : Prop where
  lists : s.Lists user rows
  acceptable : Acceptable (allChannels rows voiceOn) requested
  order_eq : order = asked (ids (allChannels rows voiceOn)) requested

namespace Asks

variable {voiceOn : Bool}

theorem listed_nodup (h : Asks s user rows voiceOn requested order) : (ids (allChannels rows voiceOn)).Nodup :=
  (ids_sublist rows voiceOn).nodup h.lists.nodup

theorem perm (h : Asks s user rows voiceOn requested order) : order.Perm (ids (allChannels rows voiceOn)) :=
  h.order_eq ▸ h.acceptable.asked_perm h.listed_nodup

theorem nodup (h : Asks s user rows voiceOn requested order) : order.Nodup := h.perm.nodup_iff.mpr h.listed_nodup

/-- The order is of the channels that are listed. -/
theorem names_order (h : Asks s user rows voiceOn requested order) {row : ChannelRow ι} (hrow : row ∈ rows) :
    names order row.channel.id = shown voiceOn row.channel := by
  rw [names, Bool.eq_iff_iff, decide_eq_true_eq, h.perm.mem_iff, allChannels_eq]
  constructor
  · intro hmem
    obtain ⟨other, hother, hsame⟩ := List.mem_map.mp hmem
    obtain ⟨hin, hshown⟩ := List.mem_filter.mp hother
    obtain rfl := List.inj_on_of_nodup_map h.lists.nodup hin hrow hsame
    exact hshown
  · exact fun hshown => List.mem_map_of_mem (List.mem_filter.mpr ⟨hrow, hshown⟩)

theorem filter_names (h : Asks s user rows voiceOn requested order) :
    (ids rows).filter (names order) = ids (allChannels rows voiceOn) := by
  rw [ids, List.filter_map, allChannels_eq, ids]
  exact congrArg _ (List.filter_congr fun row hrow => h.names_order hrow)

theorem count (h : Asks s user rows voiceOn requested order) :
    order.length = (ids rows).countP (names order) := by
  rw [List.countP_eq_length_filter, h.filter_names, h.perm.length_eq]

/-- The whole list asked for is the whole list, with the places of the listed given to the order. -/
theorem asked_eq (h : Asks s user rows voiceOn requested order) :
    asked (ids rows) requested = fill (names order) (ids rows) order := by
  have hknown : ∀ id ∈ requested, id ∈ ids rows := fun id hid =>
    (ids_sublist rows voiceOn).subset (h.acceptable.known id hid)
  have hcount := length_requested h.lists.nodup hknown h.acceptable.once
  have horder : order = fill (names requested) ((ids rows).filter (names order)) requested := by
    rw [h.filter_names]
    exact h.order_eq
  calc asked (ids rows) requested
      = fill (names order) (ids rows) (fill (names requested) ((ids rows).filter (names order)) requested) := by
        refine (fill_fill (fun id _ hid => ?_) hcount).symm
        rw [names, decide_eq_true_eq] at hid ⊢
        exact h.perm.mem_iff.mpr (h.acceptable.known id hid)
    _ = fill (names order) (ids rows) order := by rw [← horder]

theorem asked_perm (h : Asks s user rows voiceOn requested order) :
    (asked (ids rows) requested).Perm (ids rows) := by
  rw [h.asked_eq]
  refine (perm_fill h.count).trans
    (((h.filter_names ▸ h.perm).append_right _).trans (List.filter_append_perm _ _))

theorem asked_nodup (h : Asks s user rows voiceOn requested order) : (asked (ids rows) requested).Nodup :=
  h.asked_perm.nodup_iff.mpr h.lists.nodup

/-! ### The channels asked for -/

theorem mem_asked (h : Asks s user rows voiceOn requested order) {id : ι}
    (hid : id ∈ asked (ids rows) requested) :
    ∃ row ∈ rows, row.channel.id = id ∧ s.channels.get? id = some row.channel := by
  obtain ⟨row, hrow, rfl⟩ := List.mem_map.mp (h.asked_perm.mem_iff.mp hid)
  exact ⟨row, hrow, rfl, h.lists.get? hrow⟩

theorem channels_ids (h : Asks s user rows voiceOn requested order) :
    (s.channelsAsked rows requested).map (·.id) = asked (ids rows) requested := by
  rw [Space.channelsAsked, List.map_filterMap]
  refine (List.filterMap_congr fun id hid => ?_).trans List.filterMap_some
  obtain ⟨row, -, hsame, hget⟩ := h.mem_asked hid
  rw [hget, Option.map_some, hsame]

theorem channels_perm (h : Asks s user rows voiceOn requested order) :
    (s.channelsAsked rows requested).Perm s.channels.values := by
  have hrows : (ids rows).filterMap s.channels.get? = rows.map (·.channel) := by
    rw [ids, List.filterMap_map, ← List.filterMap_eq_map]
    exact List.filterMap_congr fun row hrow => h.lists.get? hrow
  exact (h.asked_perm.filterMap _).trans (hrows ▸ h.lists.all)

theorem channels_shown (h : Asks s user rows voiceOn requested order) :
    ((s.channelsAsked rows requested).filter (shown voiceOn)).map (·.id) = order := by
  have hsame : ((s.channelsAsked rows requested).filter (shown voiceOn)).map (·.id) =
      ((s.channelsAsked rows requested).map (·.id)).filter (names order) := by
    rw [List.filter_map]
    refine congrArg _ (List.filter_congr fun c hc => ?_)
    obtain ⟨row, hrow, rfl⟩ := List.mem_map.mp (h.lists.all.mem_iff.mpr (h.channels_perm.mem_iff.mp hc))
    exact (h.names_order hrow).symm
  rw [hsame, h.channels_ids, h.asked_eq]
  exact filter_fill (fun _ hid => decide_eq_true hid) h.count

/-- The list asked for, numbered, is what is stored. -/
theorem numbered_perm (h : Asks s user rows voiceOn requested order) :
    (numbered (shown voiceOn) 0 (s.channelsAsked rows requested)).Perm
      (s.setPositions 0 order).channels.values := by
  have hnodup : ((s.channelsAsked rows requested).map (·.id)).Nodup := h.channels_ids ▸ h.asked_nodup
  rw [numbered_eq 0 hnodup, h.channels_shown, setPositions_values s 0 h.nodup]
  exact h.channels_perm.map _

theorem numbered_ids (h : Asks s user rows voiceOn requested order) :
    (numbered (shown voiceOn) 0 (s.channelsAsked rows requested)).map (·.id) = asked (ids rows) requested := by
  have hnodup : ((s.channelsAsked rows requested).map (·.id)).Nodup := h.channels_ids ▸ h.asked_nodup
  rw [numbered_eq 0 hnodup, List.map_map, ← h.channels_ids]
  exact List.map_congr_left fun c _ => renumbered_id _ _ c

/-! ### What is listed after -/

/-- A channel as it is stored after. -/
theorem stored (h : Asks s user rows voiceOn requested order) {c : Channel ι}
    (hc : c ∈ (s.setPositions 0 order).channels.values) :
    (c.id ∈ order ↔ shown voiceOn c = true) ∧ (c.id ∈ order → c.position = order.idxOf c.id) := by
  rw [setPositions_values s 0 h.nodup] at hc
  obtain ⟨old, hold, rfl⟩ := List.mem_map.mp hc
  obtain ⟨row, hrow, rfl⟩ := List.mem_map.mp (h.lists.all.mem_iff.mpr hold)
  have hshown : shown voiceOn (renumbered 0 order row.channel) = shown voiceOn row.channel := by
    unfold renumbered
    split <;> rfl
  rw [renumbered_id, hshown, ← h.names_order hrow, names, decide_eq_true_eq]
  refine ⟨Iff.rfl, fun hmem => ?_⟩
  rw [renumbered, if_pos hmem, Nat.zero_add]

/-- The listed channels of what is stored, in its order, are the order. -/
theorem listed_after (h : Asks s user rows voiceOn requested order) {l : List (Channel ι)}
    (hperm : l.Perm (s.setPositions 0 order).channels.values)
    (hsorted : l.Pairwise fun a b => a.order ≤ b.order) : (l.filter (shown voiceOn)).map (·.id) = order := by
  refine eq_of_pairwise_idxOf h.nodup ?_ ?_
  · have hnodup : (l.map (·.id)).Nodup := (hperm.map _).nodup_iff.mpr (s.setPositions 0 order).channels.nodup
    refine (List.perm_ext_iff_of_nodup ((List.filter_sublist.map _).nodup hnodup) h.nodup).mpr fun id => ?_
    constructor
    · intro hid
      obtain ⟨c, hc, rfl⟩ := List.mem_map.mp hid
      obtain ⟨hc, hshown⟩ := List.mem_filter.mp hc
      exact (h.stored (hperm.mem_iff.mp hc)).1.mpr hshown
    · intro hid
      have hasked : id ∈ (numbered (shown voiceOn) 0 (s.channelsAsked rows requested)).map (·.id) := by
        rw [h.numbered_ids, h.asked_perm.mem_iff]
        exact (ids_sublist rows voiceOn).subset (h.perm.mem_iff.mp hid)
      obtain ⟨c, hc, rfl⟩ := List.mem_map.mp hasked
      have hstored := h.numbered_perm.mem_iff.mp hc
      exact List.mem_map_of_mem (List.mem_filter.mpr ⟨hperm.mem_iff.mpr hstored, (h.stored hstored).1.mp hid⟩)
  · rw [List.pairwise_map]
    refine (hsorted.filter _).imp_of_mem fun {a b} ha hb hle => ?_
    obtain ⟨ha, hshown⟩ := List.mem_filter.mp ha
    obtain ⟨hb, hshown'⟩ := List.mem_filter.mp hb
    obtain ⟨hmem, hplace⟩ := h.stored (hperm.mem_iff.mp ha)
    obtain ⟨hmem', hplace'⟩ := h.stored (hperm.mem_iff.mp hb)
    have hposition : a.position ≤ b.position := by
      rcases Prod.Lex.toLex_le_toLex.mp hle with hlt | ⟨heq, -⟩
      · exact le_of_lt hlt
      · exact le_of_eq heq
    rw [hplace (hmem.mpr hshown), hplace' (hmem'.mpr hshown')] at hposition
    exact Int.ofNat_le.mp hposition

/-- A list of the stored channels in which what was not listed keeps its place is the list asked for. -/
theorem ids_eq_asked (h : Asks s user rows voiceOn requested order) {l : List (Channel ι)}
    (hperm : l.Perm (s.setPositions 0 order).channels.values)
    (hsorted : l.Pairwise fun a b => a.order ≤ b.order)
    (hkeeps : ∀ (i : Nat) id, (ids rows)[i]? = some id → id ∉ requested → (l.map (·.id))[i]? = some id) :
    l.map (·.id) = asked (ids rows) requested := by
  have hids : (l.map (·.id)).Perm (ids rows) :=
    ((hperm.trans h.numbered_perm.symm).map _).trans (h.numbered_ids ▸ h.asked_perm)
  have hhidden : ∀ id, names order id = false → id ∉ requested := by
    intro id hno hid
    exact of_decide_eq_false hno (h.perm.mem_iff.mpr (h.acceptable.known id hid))
  have hfill : l.map (·.id) = fill (names order) (ids rows) ((l.map (·.id)).filter (names order)) := by
    refine eq_fill hids.length_eq (fun i id hplace hno => hkeeps i id hplace (hhidden id hno))
      fun i id hplace hno => ?_
    -- its place before is its place now
    obtain ⟨j, hj⟩ := List.mem_iff_getElem?.mp (hids.mem_iff.mp (List.mem_of_getElem? hplace))
    have hsame := hkeeps j id hj (hhidden id hno)
    obtain rfl := (List.getElem?_inj (List.getElem?_eq_some_iff.mp hplace).1
      (hids.nodup_iff.mpr h.lists.nodup)).mp (hplace.trans hsame.symm)
    exact hj
  have hshown : (l.map (·.id)).filter (names order) = order := by
    rw [List.filter_map]
    refine Eq.trans (congrArg _ (List.filter_congr fun c hc => ?_)) (h.listed_after hperm hsorted)
    rw [Bool.eq_iff_iff, Function.comp_apply, names, decide_eq_true_eq]
    exact (h.stored (hperm.mem_iff.mp hc)).1
  rw [hfill, hshown, h.asked_eq]

/-- **Where the rest stands**: what is not named keeps its place in the whole list, however the database lists it,
exactly when the hidden channels' numbers fit. -/
theorem keeps_iff_fits (h : Asks s user rows voiceOn requested order) :
    (∀ rows', (s.setPositions 0 order).Lists user rows' → ∀ (i : Nat) id,
        (ids rows)[i]? = some id → id ∉ requested → (ids rows')[i]? = some id) ↔
      Fits s rows voiceOn requested := by
  have hnodup : ((numbered (shown voiceOn) 0 (s.channelsAsked rows requested)).map (·.id)).Nodup :=
    h.numbered_ids ▸ h.asked_nodup
  constructor
  · intro hkeeps
    refine strict_of_eq (List.Nodup.of_map _ hnodup) fun l hperm hsorted => ?_
    have hstored := hperm.trans h.numbered_perm
    refine eq_of_map_eq hperm hnodup ?_
    rw [h.numbered_ids]
    refine h.ids_eq_asked hstored hsorted ?_
    have hlists : (s.setPositions 0 order).Lists user
        (l.map fun c => ⟨c, (s.setPositions 0 order).joined user c⟩) := by
      refine ⟨?_, ?_, ?_⟩
      · rw [List.map_map]
        exact (List.map_id l).symm ▸ hstored
      · exact List.pairwise_map.mpr hsorted
      · intro row hrow
        obtain ⟨c, -, rfl⟩ := List.mem_map.mp hrow
        rfl
    have hids : ids (l.map fun c => ⟨c, (s.setPositions 0 order).joined user c⟩) = l.map (·.id) := by
      rw [ids, List.map_map]
      rfl
    exact hids ▸ hkeeps _ hlists
  · intro hfits rows' hlists i id hplace hid
    have hsame : rows'.map (·.channel) = numbered (shown voiceOn) 0 (s.channelsAsked rows requested) :=
      eq_of_strict hfits (hlists.all.trans h.numbered_perm.symm) (List.pairwise_map.mpr hlists.sorted)
    have hids : ids rows' = asked (ids rows) requested := by
      rw [← h.numbered_ids, ← hsame, List.map_map]
      rfl
    rw [hids]
    exact asked_place hplace hid

/-- With every channel listed they do. -/
theorem fits_of_shown (h : Asks s user rows voiceOn requested order)
    (hall : ∀ c ∈ s.channels.values, shown voiceOn c = true) : Fits s rows voiceOn requested := by
  have hnodup : ((numbered (shown voiceOn) 0 (s.channelsAsked rows requested)).map (·.id)).Nodup :=
    h.numbered_ids ▸ h.asked_nodup
  have hrows : allChannels rows voiceOn = rows := by
    rw [allChannels_eq]
    exact List.filter_eq_self.mpr fun row hrow =>
      hall _ (h.lists.all.mem_iff.mp (List.mem_map_of_mem hrow))
  have horder : order = asked (ids rows) requested := hrows ▸ h.order_eq
  refine strict_of_eq (List.Nodup.of_map _ hnodup) fun l hperm hsorted => ?_
  have hstored := hperm.trans h.numbered_perm
  have hshown : l.filter (shown voiceOn) = l := by
    refine List.filter_eq_self.mpr fun c hc => (h.stored (hstored.mem_iff.mp hc)).1.mp ?_
    rw [horder, ← h.numbered_ids]
    exact List.mem_map_of_mem (hperm.mem_iff.mp hc)
  refine eq_of_map_eq hperm hnodup ?_
  rw [h.numbered_ids, ← horder, ← h.listed_after hstored hsorted, hshown]

/-- A hidden channel's row stays as it was. -/
theorem hidden_stays (h : Asks s user rows voiceOn requested order) {c : Channel ι}
    (hc : c ∈ s.channels.values) (hhidden : shown voiceOn c = false) :
    (s.setPositions 0 order).channels.get? c.id = some c := by
  obtain ⟨row, hrow, rfl⟩ := List.mem_map.mp (h.lists.all.mem_iff.mpr hc)
  have hno : row.channel.id ∉ order := by
    have hnames := h.names_order hrow
    rw [hhidden] at hnames
    exact of_decide_eq_false hnames
  have hsame : renumbered 0 order row.channel = row.channel := if_neg hno
  refine Keyed.mem_values.mp ?_
  rw [setPositions_values s 0 h.nodup]
  exact hsame ▸ List.mem_map_of_mem hc

end Asks

/-- **What a reorder keeps.** Of any list: exactly the acceptable requests are taken, any other is refused with
one error, and the answer is the list with the named in the order asked and every other id at its place. Of a
space: the answer is how its listed channels then stand, whatever the database answers; a hidden channel's row
stays as it was; and what was not named keeps its place in the whole stored order exactly when the hidden
channels' numbers fit, as with voice on they do. -/
theorem reorder_keeps :
    (∀ (rows : List (ChannelRow ι)) (requested : List ι), (ids rows).Nodup →
      (Acceptable rows requested ∨ reorderedIDs rows requested = .error errList) ∧
      (Acceptable rows requested → ∃ order, reorderedIDs rows requested = .ok order ∧
        order.Perm (ids rows) ∧ order.filter (names requested) = requested ∧
        ∀ (i : Nat) id, (ids rows)[i]? = some id → id ∉ requested → order[i]? = some id)) ∧
      ∀ (s s' : Space ι υ) (user : υ) (rows : List (ChannelRow ι)) (voiceOn : Bool) (requested : List ι),
        s.Lists user rows → s.reorderChannels rows voiceOn requested = .ok s' →
        (∃ order, reorderedIDs (allChannels rows voiceOn) requested = .ok order ∧
          ∀ rows', s'.Lists user rows' → ids (allChannels rows' voiceOn) = order) ∧
        (∀ c ∈ s.channels.values, shown voiceOn c = false → s'.channels.get? c.id = some c) ∧
        ((∀ rows', s'.Lists user rows' → ∀ (i : Nat) id,
            (ids rows)[i]? = some id → id ∉ requested → (ids rows')[i]? = some id) ↔
          Fits s rows voiceOn requested) ∧
        (voiceOn = true → Fits s rows voiceOn requested) := by
  refine ⟨fun rows requested hnodup => ⟨?_, fun h => ?_⟩, ?_⟩
  · by_cases h : Acceptable rows requested
    · exact .inl h
    · exact .inr (by rw [reorderedIDs_eq hnodup, if_neg h])
  · refine ⟨asked (ids rows) requested, by rw [reorderedIDs_eq hnodup, if_pos h], h.asked_perm hnodup,
      h.asked_filter hnodup, fun i id => asked_place⟩
  · intro s s' user rows voiceOn requested hlists hreorder
    have hlisted := (ids_sublist rows voiceOn).nodup hlists.nodup
    rw [Space.reorderChannels, reorderedIDs_eq hlisted] at hreorder
    split at hreorder
    next hacceptable =>
      obtain rfl : s.setPositions 0 (asked (ids (allChannels rows voiceOn)) requested) = s' :=
        Except.ok.inj hreorder
      have h : Asks s user rows voiceOn requested _ := ⟨hlists, hacceptable, rfl⟩
      refine ⟨⟨_, by rw [reorderedIDs_eq hlisted, if_pos hacceptable], fun rows' hlists' => ?_⟩,
        fun c => h.hidden_stays, h.keeps_iff_fits, fun hon => h.fits_of_shown fun c _ => by rw [hon]; rfl⟩
      rw [← h.listed_after hlists'.all (List.pairwise_map.mpr hlists'.sorted), List.filter_map, List.map_map,
        allChannels_eq]
      rfl
    next => cases hreorder

end Answers

/-! ## With voice off -/

/-- A text channel, a voice channel and a text channel, made one after the other and never reordered. -/
def garden : Space String String where
  channels := ((Keyed.empty.set ⟨"general", .text, 0, 1, false⟩).set ⟨"hangout", .voice, 0, 2, false⟩).set
    ⟨"random", .text, 0, 3, false⟩
  channelMembers := []

def gardenRows : List (ChannelRow String) := garden.channels.values.map fun c => ⟨c, true⟩

theorem gardenRows_listed : garden.Lists "ada" gardenRows := ⟨by decide, by decide, by decide⟩

/-- The text channels are swapped while voice is off, and the voice channel, which was second, is first. -/
theorem hangout_moves : ∃ (s' : Space String String) (rows' : List (ChannelRow String)),
    garden.Lists "ada" gardenRows ∧
      garden.reorderChannels gardenRows false ["random", "general"] = .ok s' ∧ s'.Lists "ada" rows' ∧
      ids gardenRows = ["general", "hangout", "random"] ∧ ids rows' = ["hangout", "random", "general"] := by
  refine ⟨_, [⟨⟨"hangout", .voice, 0, 2, false⟩, true⟩, ⟨⟨"random", .text, 0, 3, false⟩, true⟩,
    ⟨⟨"general", .text, 1, 1, false⟩, true⟩], gardenRows_listed, rfl, ⟨?_, ?_, ?_⟩, ?_, ?_⟩
  all_goals decide

/-- With voice on they are swapped around it, as the request has it. -/
theorem hangout_stays : ∃ s' : Space String String,
    garden.reorderChannels gardenRows true ["random", "hangout", "general"] = .ok s' ∧
      ∀ rows', s'.Lists "ada" rows' → ids (allChannels rows' true) = ["random", "hangout", "general"] := by
  obtain ⟨hrequests, hspaces⟩ := @reorder_keeps String String _ _
  obtain ⟨-, htakes⟩ := hrequests gardenRows ["random", "hangout", "general"] (by decide)
  obtain ⟨order, htaken, -⟩ := htakes (by decide)
  obtain rfl : ["random", "hangout", "general"] = order := Except.ok.inj htaken
  have hreordered : garden.reorderChannels gardenRows true ["random", "hangout", "general"] =
      .ok (garden.setPositions 0 ["random", "hangout", "general"]) := rfl
  obtain ⟨⟨order, hanswer, hafter⟩, -⟩ := hspaces _ _ "ada" _ _ _ gardenRows_listed hreordered
  obtain rfl : ["random", "hangout", "general"] = order := Except.ok.inj hanswer
  exact ⟨_, hreordered, hafter⟩

end Stoop.Spaces.Reorder
