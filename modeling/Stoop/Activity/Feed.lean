import Stoop.Lib.Machine
import Stoop.Lib.Sorted

/-!
# The activity feed a client holds

The first page of `ListActivity`, kept current from `ActivityItemCreated` (`web/src/core/activity.ts`),
and the older pages loaded as the inbox is scrolled.

An arrival is placed by its id and takes away the unread entries it refreshes, so the order in which
arrivals come is nobody's: `withActivityItem_comm` for two of them, and from it for any permutation.
The count follows from the items, as every arrival moves it with the unread ones among them.

The merged list puts the older pages after the first whatever is in them, and is newest first only while
all that they show is older than the first page: `InOrder` is the runs in which each arrival, refresh and
page keeps to that, and `feed_in_order` has both results. An arrival that comes late, behind an older
page, does not (`late_arrival_out_of_order`).

Ids are UUIDv7s, compared only: numbers here, as are the channel's and the thread's.
-/

set_option autoImplicit false

namespace Stoop.Activity

open Stoop.Lib

/-! ## Items -/

inductive ActivityKind
  | unspecified | mention | reply | dm | threadReply
  deriving DecidableEq, Repr

/-- An entry, with what it shows beside. -/
structure ActivityItem where
  id : Nat
  kind : ActivityKind
  channelId : Nat
  threadRootId : Nat
  messageId : Nat
  preview : String
  readAt : Option Nat
  deriving DecidableEq, Repr

/-- The feed: the first page, newest first, and the server's count of everything unread. -/
structure ActivityData where
  items : List ActivityItem
  unreadCount : Int
  deriving DecidableEq, Repr

/-- What an item is an entry for: a direct message's its conversation, a thread's its thread, anything
else itself. -/
def activityEntryKey (item : ActivityItem) : Nat :=
  match item.kind with
  | .dm => item.channelId
  | .threadReply => item.threadRootId
  | _ => item.id

/-- Whether two items stand for the same entry. -/
def coalesces (held item : ActivityItem) : Bool :=
  held.kind == item.kind && activityEntryKey held == activityEntryKey item

/-- Whether an item is unread. -/
def ActivityItem.unread (item : ActivityItem) : Bool := item.readAt.isNone

/-- Whether an item is a newer one of the entry. -/
def refreshes (held item : ActivityItem) : Bool := coalesces held item && decide (item.id < held.id)

/-- An arrival the feed knows: a replay, or an unread one refreshed away before it came. -/
def knows (items : List ActivityItem) (item : ActivityItem) : Bool :=
  items.any fun held => held.id == item.id || item.unread && refreshes held item

/-- What an arrival leaves of the items: it takes the unread entries it refreshes. -/
def rest (items : List ActivityItem) (item : ActivityItem) : List ActivityItem :=
  items.filter fun held => !held.unread || decide (item.id < held.id) || !coalesces held item

/-- An item in its place: before the first older one (`findIndex` and the two slices). -/
def placed (items : List ActivityItem) (item : ActivityItem) : List ActivityItem :=
  items.takeWhile (fun held => !decide (held.id < item.id)) ++
    item :: items.dropWhile fun held => !decide (held.id < item.id)

/-- The feed with a freshly delivered item in it. -/
def withActivityItem (data : ActivityData) (item : ActivityItem) : ActivityData :=
  if knows data.items item then data
  else
    let rest := rest data.items item
    let replaced : Int := data.items.length - rest.length
    { items := placed rest item
      unreadCount := data.unreadCount + (if item.unread then 1 else 0) - replaced }

/-- The older pages less what the first page has refreshed. -/
def withoutRefreshed (recent older : List ActivityItem) : List ActivityItem :=
  older.filter fun item => !item.unread || !recent.any fun held => refreshes held item

/-- The whole inbox as shown. -/
def withOlderPages (recent older : List ActivityItem) : List ActivityItem :=
  recent ++ (withoutRefreshed recent older).filter fun item => !(recent.map (·.id)).contains item.id

/-- Newest first, no id twice. -/
abbrev NewestFirst (items : List ActivityItem) : Prop :=
  items.Pairwise fun a b => b.id < a.id

/-! ## Entries -/

theorem coalesces_iff {a b : ActivityItem} :
    coalesces a b = true ↔ a.kind = b.kind ∧ activityEntryKey a = activityEntryKey b := by
  rw [coalesces, Bool.and_eq_true, beq_iff_eq, beq_iff_eq]

theorem coalesces_comm (a b : ActivityItem) : coalesces a b = coalesces b a := by
  rw [Bool.eq_iff_iff, coalesces_iff, coalesces_iff]
  exact ⟨fun h => ⟨h.1.symm, h.2.symm⟩, fun h => ⟨h.1.symm, h.2.symm⟩⟩

theorem coalesces_trans {a b c : ActivityItem} (h : coalesces a b = true) (h' : coalesces b c = true) :
    coalesces a c = true := by
  rw [coalesces_iff] at h h' ⊢
  exact ⟨h.1.trans h'.1, h.2.trans h'.2⟩

/-- Items of one entry stand to any other alike. -/
theorem coalesces_congr {a b : ActivityItem} (h : coalesces a b = true) (c : ActivityItem) :
    coalesces c a = coalesces c b := by
  rw [Bool.eq_iff_iff]
  exact ⟨fun h' => coalesces_trans h' h, fun h' => coalesces_trans h' (coalesces_comm a b ▸ h)⟩

theorem refreshes_iff {held item : ActivityItem} :
    refreshes held item = true ↔ coalesces held item = true ∧ item.id < held.id := by
  rw [refreshes, Bool.and_eq_true, decide_eq_true_eq]

theorem knows_iff {items : List ActivityItem} {item : ActivityItem} :
    knows items item = true ↔ ∃ held ∈ items, held.id = item.id ∨
      item.unread = true ∧ coalesces held item = true ∧ item.id < held.id := by
  simp only [knows, List.any_eq_true, Bool.or_eq_true, Bool.and_eq_true, beq_iff_eq, refreshes_iff]

/-- What an arrival leaves in the feed. -/
def Stays (item held : ActivityItem) : Prop :=
  held.unread = false ∨ item.id < held.id ∨ coalesces held item = false

theorem mem_rest {items : List ActivityItem} {item held : ActivityItem} :
    held ∈ rest items item ↔ held ∈ items ∧ Stays item held := by
  simp only [rest, Stays, List.mem_filter, Bool.or_eq_true, Bool.not_eq_true', decide_eq_true_eq, or_assoc]

/-! ## An item in its place -/

theorem mem_placed {items : List ActivityItem} {item held : ActivityItem} :
    held ∈ placed items item ↔ held = item ∨ held ∈ items := by
  rw [placed, List.mem_append, List.mem_cons, or_left_comm, ← List.mem_append,
    List.takeWhile_append_dropWhile]

theorem newestFirst_placed {items : List ActivityItem} {item : ActivityItem} (h : NewestFirst items)
    (hnew : ∀ held ∈ items, held.id ≠ item.id) : NewestFirst (placed items item) := by
  unfold placed
  induction items with
  | nil => exact List.pairwise_singleton _ _
  | cons held items ih =>
    obtain ⟨hhead, htail⟩ := List.pairwise_cons.mp h
    rw [List.takeWhile_cons, List.dropWhile_cons]
    by_cases hlt : held.id < item.id
    · -- the item goes before the first older one, and so before them all
      simp only [hlt, decide_true, Bool.not_true, Bool.false_eq_true, if_false, List.nil_append]
      refine List.pairwise_cons.mpr ⟨fun other hother => ?_, h⟩
      rcases List.mem_cons.mp hother with rfl | hother
      · exact hlt
      · exact (hhead other hother).trans hlt
    · simp only [hlt, decide_false, Bool.not_false, if_true, List.cons_append]
      refine List.pairwise_cons.mpr ⟨fun other hother => ?_,
        ih htail fun other hother => hnew other (List.mem_cons_of_mem _ hother)⟩
      rcases mem_placed.mp hother with rfl | hother
      · exact Nat.lt_of_le_of_ne (Nat.le_of_not_lt hlt) (Ne.symm (hnew held List.mem_cons_self))
      · exact hhead other hother

theorem newestFirst_rest {items : List ActivityItem} (item : ActivityItem) (h : NewestFirst items) :
    NewestFirst (rest items item) :=
  h.sublist List.filter_sublist

/-! ## One arrival -/

theorem withActivityItem_known {data : ActivityData} {item : ActivityItem}
    (h : knows data.items item = true) : withActivityItem data item = data := if_pos h

/-- What is in the feed after an arrival that it does not know. -/
theorem mem_withActivityItem {data : ActivityData} {item : ActivityItem}
    (h : ¬ knows data.items item = true) (held : ActivityItem) :
    held ∈ (withActivityItem data item).items ↔ held = item ∨ held ∈ data.items ∧ Stays item held := by
  rw [withActivityItem, if_neg h]
  exact mem_placed.trans (or_congr_right mem_rest)

/-- **An arrival keeps the feed newest first.** -/
theorem newestFirst_withActivityItem {data : ActivityData} (item : ActivityItem)
    (h : NewestFirst data.items) : NewestFirst (withActivityItem data item).items := by
  by_cases hknows : knows data.items item = true
  · rwa [withActivityItem_known hknows]
  · rw [withActivityItem, if_neg hknows]
    refine newestFirst_placed (newestFirst_rest item h) fun held hheld heq => ?_
    exact hknows (knows_iff.mpr ⟨held, (mem_rest.mp hheld).1, .inl heq⟩)

/-- What the server counts past the unread items held. -/
def uncounted (data : ActivityData) : Int := data.unreadCount - data.items.countP (·.unread)

/-- **An arrival moves the count with the unread items.** -/
theorem uncounted_withActivityItem (data : ActivityData) (item : ActivityItem) :
    uncounted (withActivityItem data item) = uncounted data := by
  by_cases hknows : knows data.items item = true
  · rw [withActivityItem_known hknows]
  · rw [withActivityItem, if_neg hknows, uncounted, uncounted]
    -- what goes is unread, and the item comes in
    have hgone : (data.items.length : Int) - (rest data.items item).length =
        data.items.countP (·.unread) - (rest data.items item).countP (·.unread) := by
      induction data.items with
      | nil => rfl
      | cons held items ih =>
        rw [rest, List.filter_cons]
        split
        · rw [List.length_cons, List.length_cons, List.countP_cons, List.countP_cons]
          simp only [rest] at ih
          omega
        · next hgoes =>
          simp only [Bool.or_eq_true, Bool.not_eq_true', not_or, Bool.not_eq_false] at hgoes
          rw [List.length_cons, List.countP_cons, if_pos hgoes.1.1]
          simp only [rest] at ih
          omega
    have hcome : (placed (rest data.items item) item).countP (·.unread) =
        (rest data.items item).countP (·.unread) + if item.unread then 1 else 0 := by
      have hsplit := congrArg (List.countP (·.unread)) (List.takeWhile_append_dropWhile
        (p := fun held : ActivityItem => !decide (held.id < item.id)) (l := rest data.items item))
      rw [List.countP_append] at hsplit
      rw [placed, List.countP_append, List.countP_cons]
      omega
    rw [hcome]
    show data.unreadCount + _ - ((data.items.length : Int) - (rest data.items item).length) - _ = _
    rw [hgone]
    split <;> simp <;> omega

/-! ## Arrivals in any order -/

/-- An arrival whose id is held is the row held: of its entry, and read only where that is. -/
def Replays (items : List ActivityItem) (item : ActivityItem) : Prop :=
  ∀ held ∈ items, held.id = item.id → coalesces held item = true ∧ (held.unread = true → item.unread = true)

instance (items : List ActivityItem) (item : ActivityItem) : Decidable (Replays items item) :=
  inferInstanceAs (Decidable (∀ held ∈ items, _))

/-- A feed and the arrivals to come: it is newest first, they have ids of their own, and what is held
already comes as it is held. -/
structure Fits (data : ActivityData) (arrivals : List ActivityItem) : Prop where
  sorted : NewestFirst data.items
  nodup : (arrivals.map (·.id)).Nodup
  replays : ∀ item ∈ arrivals, Replays data.items item

theorem Fits.perm {data : ActivityData} {l l' : List ActivityItem} (h : l.Perm l') (fits : Fits data l) :
    Fits data l' where
  sorted := fits.sorted
  nodup := ((h.map _).nodup_iff).mp fits.nodup
  replays item hitem := fits.replays item (h.mem_iff.mpr hitem)

/-- What is held after an arrival is it, or was held. -/
theorem mem_of_withActivityItem {data : ActivityData} {item held : ActivityItem}
    (h : held ∈ (withActivityItem data item).items) : held = item ∨ held ∈ data.items := by
  by_cases hknows : knows data.items item = true
  · exact .inr (withActivityItem_known hknows ▸ h)
  · exact ((mem_withActivityItem hknows held).mp h).imp_right And.left

theorem Fits.step {data : ActivityData} {item : ActivityItem} {l : List ActivityItem}
    (fits : Fits data (item :: l)) : Fits (withActivityItem data item) l where
  sorted := newestFirst_withActivityItem item fits.sorted
  nodup := (List.nodup_cons.mp fits.nodup).2
  replays next hnext held hheld hid := by
    rcases mem_of_withActivityItem hheld with rfl | hheld
    · exact absurd (List.mem_map.mpr ⟨next, hnext, hid.symm⟩) (List.nodup_cons.mp fits.nodup).1
    · exact fits.replays next (List.mem_cons_of_mem _ hnext) held hheld hid

/-- What stays when an item comes stays when an older one of its entry does. -/
theorem Stays.older {a b held : ActivityItem} (h : Stays a held) (hsame : coalesces a b = true)
    (hlt : b.id < a.id) : Stays b held := by
  rcases h with h | h | h
  · exact .inl h
  · exact .inr (.inl (hlt.trans h))
  · exact .inr (.inr (coalesces_congr hsame held ▸ h))

/-- An arrival of another entry is known or not as it was. -/
theorem knows_other {data : ActivityData} {a b : ActivityItem} (hother : coalesces a b = false)
    (hne : a.id ≠ b.id) (replays : Replays data.items b) :
    knows (withActivityItem data a).items b = true ↔ knows data.items b = true := by
  by_cases hknows : knows data.items a = true
  · rw [withActivityItem_known hknows]
  rw [knows_iff, knows_iff]
  constructor
  · rintro ⟨held, hheld, hblocks⟩
    rcases mem_of_withActivityItem hheld with rfl | hheld
    · rcases hblocks with heq | ⟨_, hsame, _⟩
      · exact absurd heq hne
      · rw [hother] at hsame
        cases hsame
    · exact ⟨held, hheld, hblocks⟩
  · rintro ⟨held, hheld, hblocks⟩
    have hsame : coalesces held b = true := hblocks.elim (fun heq => (replays held hheld heq).1) fun h => h.2.1
    refine ⟨held, (mem_withActivityItem hknows held).mpr (.inr ⟨hheld, .inr (.inr ?_)⟩), hblocks⟩
    rw [coalesces_comm, coalesces_congr hsame, hother]

/-- A newer arrival of an entry is known or not as it was before an older one came. -/
theorem knows_newer {data : ActivityData} {a b : ActivityItem} (hlt : b.id < a.id) :
    knows (withActivityItem data b).items a = true ↔ knows data.items a = true := by
  by_cases hknows : knows data.items b = true
  · rw [withActivityItem_known hknows]
  rw [knows_iff, knows_iff]
  constructor
  · rintro ⟨held, hheld, hblocks⟩
    rcases mem_of_withActivityItem hheld with rfl | hheld
    · rcases hblocks with heq | ⟨_, _, hnewer⟩ <;> omega
    · exact ⟨held, hheld, hblocks⟩
  · rintro ⟨held, hheld, hblocks⟩
    have hle : a.id ≤ held.id := hblocks.elim (fun heq => heq.ge) fun h => h.2.2.le
    exact ⟨held, (mem_withActivityItem hknows held).mpr (.inr ⟨hheld, .inr (.inl (hlt.trans_le hle))⟩), hblocks⟩

/-- An older read arrival of an entry is known or not as it was before a newer one came. -/
theorem knows_older {data : ActivityData} {a b : ActivityItem} (hlt : b.id < a.id)
    (hread : b.unread = false) (replays : Replays data.items b) :
    knows (withActivityItem data a).items b = true ↔ knows data.items b = true := by
  by_cases hknows : knows data.items a = true
  · rw [withActivityItem_known hknows]
  rw [knows_iff, knows_iff]
  constructor
  · rintro ⟨held, hheld, hblocks⟩
    have heq : held.id = b.id := hblocks.resolve_right fun h => by simp [hread] at h
    rcases mem_of_withActivityItem hheld with rfl | hheld
    · omega
    · exact ⟨held, hheld, .inl heq⟩
  · rintro ⟨held, hheld, hblocks⟩
    have heq : held.id = b.id := hblocks.resolve_right fun h => by simp [hread] at h
    -- the row held is read too, and so stays
    have hheldread : held.unread = false := by
      rw [Bool.eq_false_iff]
      intro hunread
      rw [(replays held hheld heq).2 hunread] at hread
      cases hread
    exact ⟨held, (mem_withActivityItem hknows held).mpr (.inr ⟨hheld, .inl hheldread⟩), .inl heq⟩

/-- Two arrivals leave the same items either way round, the second older. -/
theorem mem_comm {data : ActivityData} {a b : ActivityItem} (hlt : b.id < a.id)
    (ha : Replays data.items a) (hb : Replays data.items b) (held : ActivityItem) :
    held ∈ (withActivityItem (withActivityItem data a) b).items ↔
      held ∈ (withActivityItem (withActivityItem data b) a).items := by
  cases hsame : coalesces a b with
  | false =>
    have hsame' : coalesces b a = false := coalesces_comm a b ▸ hsame
    have hab := knows_other hsame hlt.ne' hb
    have hba := knows_other hsame' hlt.ne ha
    by_cases hka : knows data.items a = true
    · rw [withActivityItem_known (hba.mpr hka), withActivityItem_known hka]
    by_cases hkb : knows data.items b = true
    · rw [withActivityItem_known (hab.mpr hkb), withActivityItem_known hkb]
    rw [mem_withActivityItem (fun h => hkb (hab.mp h)), mem_withActivityItem (fun h => hka (hba.mp h)),
      mem_withActivityItem hka, mem_withActivityItem hkb]
    have hstays : Stays b a := .inr (.inr hsame)
    have hstays' : Stays a b := .inr (.inr hsame')
    grind
  | true =>
    have hba := @knows_newer data a b hlt
    by_cases hka : knows data.items a = true
    · rw [withActivityItem_known (hba.mpr hka), withActivityItem_known hka]
    have hka' : ¬ knows (withActivityItem data b).items a = true := fun h => hka (hba.mp h)
    have hmono : ∀ x, Stays a x → Stays b x := fun x h => h.older hsame hlt
    cases hread : b.unread with
    | true =>
      -- the older arrival was refreshed away before it came, or is taken away once it has
      have hkb : knows (withActivityItem data a).items b = true :=
        knows_iff.mpr ⟨a, (mem_withActivityItem hka a).mpr (.inl rfl), .inr ⟨hread, hsame, hlt⟩⟩
      rw [withActivityItem_known hkb]
      by_cases hk : knows data.items b = true
      · rw [withActivityItem_known hk]
      have hgoes : ¬ Stays a b := by
        rintro (h | h | h)
        · rw [hread] at h
          cases h
        · omega
        · rw [coalesces_comm, hsame] at h
          cases h
      rw [mem_withActivityItem hka', mem_withActivityItem hka, mem_withActivityItem hk]
      grind
    | false =>
      have hab := @knows_older data a b hlt hread hb
      by_cases hk : knows data.items b = true
      · rw [withActivityItem_known (hab.mpr hk), withActivityItem_known hk]
      have hstays : Stays b a := .inr (.inl hlt)
      have hstays' : Stays a b := .inl hread
      rw [mem_withActivityItem (fun h => hk (hab.mp h)), mem_withActivityItem hka',
        mem_withActivityItem hka, mem_withActivityItem hk]
      grind

/-- Feeds that are newest first, hold the same items and count as much past them are the same. -/
theorem data_eq {data data' : ActivityData} (h : NewestFirst data.items) (h' : NewestFirst data'.items)
    (hmem : ∀ held, held ∈ data.items ↔ held ∈ data'.items) (hcount : uncounted data = uncounted data') :
    data = data' := by
  obtain ⟨items, count⟩ := data
  obtain ⟨items', count'⟩ := data'
  obtain rfl : items = items' := eq_of_strict_desc h h' hmem
  simp only [uncounted] at hcount
  obtain rfl : count = count' := by omega
  rfl

/-- **Two arrivals may come either way round.** -/
theorem withActivityItem_comm {data : ActivityData} {a b : ActivityItem} (h : NewestFirst data.items)
    (hne : a.id ≠ b.id) (ha : Replays data.items a) (hb : Replays data.items b) :
    withActivityItem (withActivityItem data a) b = withActivityItem (withActivityItem data b) a := by
  refine data_eq (newestFirst_withActivityItem b (newestFirst_withActivityItem a h))
    (newestFirst_withActivityItem a (newestFirst_withActivityItem b h)) (fun held => ?_) ?_
  · rcases Nat.lt_or_gt_of_ne hne with hlt | hlt
    · exact (mem_comm hlt hb ha held).symm
    · exact mem_comm hlt ha hb held
  · simp only [uncounted_withActivityItem]

/-- **The feed does not depend on the order of its arrivals.** -/
theorem foldl_withActivityItem {data : ActivityData} {arrivals arrivals' : List ActivityItem}
    (fits : Fits data arrivals) (h : arrivals.Perm arrivals') :
    arrivals.foldl withActivityItem data = arrivals'.foldl withActivityItem data := by
  refine foldl_perm (fun _ _ _ hperm hfits => hfits.perm hperm) (fun _ _ _ hfits => hfits.step) ?_ h fits
  intro z a b l hfits
  have hne : a.id ≠ b.id := fun heq =>
    (List.nodup_cons.mp hfits.nodup).1 (List.mem_map.mpr ⟨b, List.mem_cons_self, heq.symm⟩)
  exact withActivityItem_comm hfits.sorted hne (hfits.replays a List.mem_cons_self)
    (hfits.replays b (List.mem_cons_of_mem _ List.mem_cons_self))

/-! ## The inbox -/

/-- The inbox page: the first page, the older pages loaded, and the id the next is asked before. -/
structure Inbox where
  data : ActivityData
  older : List ActivityItem
  exhausted : Bool
  asked : Option Nat
  deriving DecidableEq, Repr

/-- The inbox once its first page has come. -/
def Inbox.start (data : ActivityData) : Inbox := ⟨data, [], false, none⟩

/-- The merged list. -/
def Inbox.shown (w : Inbox) : List ActivityItem := withOlderPages w.data.items w.older

inductive Label
  | arrive (item : ActivityItem)
  | refresh (page : List ActivityItem) (unreadCount : Int)
  | askOlder
  | olderPage (page : List ActivityItem)

/-- One step. What the server has is its own; `ListActivity` answers newest first, and before the id it
is asked for. -/
def Inbox.step (w : Inbox) : Label → Option Inbox
  | .arrive item => some { w with data := withActivityItem w.data item }
  | .refresh page unreadCount =>
    if NewestFirst page then some { w with data := ⟨page, unreadCount⟩ } else none
  | .askOlder =>
    match w.shown.getLast? with
    | none => none
    | some last =>
      if w.asked.isSome || w.exhausted then none else some { w with asked := some last.id }
  | .olderPage page =>
    match w.asked with
    | none => none
    | some before =>
      if NewestFirst page ∧ ∀ item ∈ page, item.id < before then
        some { w with older := w.older ++ page, exhausted := w.exhausted || page.isEmpty, asked := none }
      else none

/-- The first page shows an older page's item, or has refreshed it: it holds it, read wherever that is,
or a newer one of its entry. -/
def Covers (recent : List ActivityItem) (item : ActivityItem) : Prop :=
  (∃ held ∈ recent, held.id = item.id ∧ coalesces held item = true ∧
      (held.unread = true → item.unread = true)) ∨
    item.unread = true ∧ ∃ held ∈ recent, refreshes held item = true

/-- An item is older than the first page. -/
def Below (recent : List ActivityItem) (item : ActivityItem) : Prop := ∀ held ∈ recent, item.id < held.id

/-- What an arrival, a refresh and an older page keep to. -/
def InOrder (w : Inbox) : Label → Prop
  | .arrive item =>
    knows w.data.items item = true ∨
      ∀ old ∈ w.older, old.id < item.id ∨ Covers (item :: w.data.items) old
  | .refresh page _ => ∀ old ∈ w.older, Covers page old ∨ Below page old
  | .askOlder => True
  | .olderPage page =>
    ∀ item ∈ page, (∀ old ∈ w.older, item.id < old.id) ∧
      (Covers w.data.items item ∨ Below w.data.items item)

instance (recent : List ActivityItem) (item : ActivityItem) : Decidable (Covers recent item) :=
  inferInstanceAs (Decidable ((∃ held ∈ recent, _) ∨ _ ∧ ∃ held ∈ recent, _))

instance (recent : List ActivityItem) (item : ActivityItem) : Decidable (Below recent item) :=
  inferInstanceAs (Decidable (∀ held ∈ recent, _))

instance (w : Inbox) : (a : Label) → Decidable (InOrder w a)
  | .arrive _ => inferInstanceAs (Decidable (_ ∨ ∀ old ∈ w.older, _))
  | .refresh _ _ => inferInstanceAs (Decidable (∀ old ∈ w.older, _))
  | .askOlder => inferInstanceAs (Decidable True)
  | .olderPage page => inferInstanceAs (Decidable (∀ item ∈ page, (∀ old ∈ w.older, _) ∧ _))

/-- The first page and the older ones are newest first, and what the older ones show is older. -/
structure Layered (w : Inbox) : Prop where
  recent : NewestFirst w.data.items
  older : NewestFirst w.older
  below : ∀ old ∈ w.older, Covers w.data.items old ∨ Below w.data.items old

/-- What is covered with an arrival beside the feed is covered once it is in. -/
theorem covers_withActivityItem {data : ActivityData} {item old : ActivityItem}
    (hknows : ¬ knows data.items item = true) (h : Covers (item :: data.items) old) :
    Covers (withActivityItem data item).items old := by
  have hin : item ∈ (withActivityItem data item).items := (mem_withActivityItem hknows item).mpr (.inl rfl)
  -- a row the arrival takes is unread and older, and of the arrival's entry
  have hheld : ∀ held ∈ data.items, held ∈ (withActivityItem data item).items ∨
      held.unread = true ∧ refreshes item held = true := by
    intro held hheld
    by_cases hstays : Stays item held
    · exact .inl ((mem_withActivityItem hknows held).mpr (.inr ⟨hheld, hstays⟩))
    · simp only [Stays, not_or, Bool.not_eq_false] at hstays
      have hne : held.id ≠ item.id := fun heq => hknows (knows_iff.mpr ⟨held, hheld, .inl heq⟩)
      refine .inr ⟨hstays.1, refreshes_iff.mpr ⟨?_, by omega⟩⟩
      rw [coalesces_comm]
      exact hstays.2.2
  rcases h with ⟨held, hmem, hid, hsame, hread⟩ | ⟨hunread, held, hmem, hnewer⟩
  · rcases List.mem_cons.mp hmem with rfl | hmem
    · exact .inl ⟨held, hin, hid, hsame, hread⟩
    · rcases hheld held hmem with hstays | ⟨hunread, htaken⟩
      · exact .inl ⟨held, hstays, hid, hsame, hread⟩
      · obtain ⟨hentry, hlt⟩ := refreshes_iff.mp htaken
        exact .inr ⟨hread hunread, item, hin,
          refreshes_iff.mpr ⟨coalesces_trans hentry hsame, hid ▸ hlt⟩⟩
  · rcases List.mem_cons.mp hmem with rfl | hmem
    · exact .inr ⟨hunread, held, hin, hnewer⟩
    · rcases hheld held hmem with hstays | ⟨-, htaken⟩
      · exact .inr ⟨hunread, held, hstays, hnewer⟩
      · obtain ⟨hentry, hlt⟩ := refreshes_iff.mp htaken
        obtain ⟨hsame, hlt'⟩ := refreshes_iff.mp hnewer
        exact .inr ⟨hunread, item, hin,
          refreshes_iff.mpr ⟨coalesces_trans hentry hsame, hlt'.trans hlt⟩⟩

/-- What is covered beside more is covered. -/
theorem Covers.cons {recent : List ActivityItem} {old : ActivityItem} (h : Covers recent old)
    (item : ActivityItem) : Covers (item :: recent) old := by
  rcases h with ⟨held, hmem, hrest⟩ | ⟨hunread, held, hmem, hnewer⟩
  · exact .inl ⟨held, List.mem_cons_of_mem _ hmem, hrest⟩
  · exact .inr ⟨hunread, held, List.mem_cons_of_mem _ hmem, hnewer⟩

namespace Layered

variable {w w' : Inbox} {a : Label}

theorem arrive (inv : Layered w) {item : ActivityItem} (hok : InOrder w (.arrive item)) :
    Layered { w with data := withActivityItem w.data item } := by
  by_cases hknows : knows w.data.items item = true
  · rw [withActivityItem_known hknows]
    exact inv
  have hok := hok.resolve_left hknows
  refine ⟨newestFirst_withActivityItem item inv.recent, inv.older, fun old hold => ?_⟩
  rcases hok old hold with hlt | hcovers
  · refine (inv.below old hold).imp (fun h => covers_withActivityItem hknows (h.cons item)) fun h => ?_
    intro held hheld
    rcases mem_of_withActivityItem hheld with rfl | hheld
    · exact hlt
    · exact h held hheld
  · exact .inl (covers_withActivityItem hknows hcovers)

/-- One step. -/
theorem step (inv : Layered w) (hok : InOrder w a) (hstep : w.step a = some w') : Layered w' := by
  cases a with
  | arrive item =>
    rw [← Option.some.inj hstep]
    exact inv.arrive hok
  | refresh page unreadCount =>
    simp only [Inbox.step] at hstep
    split at hstep
    · next hsorted =>
      rw [← Option.some.inj hstep]
      exact ⟨hsorted, inv.older, hok⟩
    · cases hstep
  | askOlder =>
    simp only [Inbox.step] at hstep
    split at hstep
    · cases hstep
    · split at hstep
      · cases hstep
      · rw [← Option.some.inj hstep]
        exact ⟨inv.recent, inv.older, inv.below⟩
  | olderPage page =>
    simp only [Inbox.step] at hstep
    split at hstep
    · cases hstep
    · split at hstep
      · next hpage =>
        rw [← Option.some.inj hstep]
        refine ⟨inv.recent, List.pairwise_append.mpr ⟨inv.older, hpage.1, ?_⟩, ?_⟩
        · exact fun old hold item hitem => (hok item hitem).1 old hold
        · intro old hold
          rcases List.mem_append.mp hold with hold | hold
          · exact inv.below old hold
          · exact (hok old hold).2
      · cases hstep

/-- Every run. -/
theorem runs {data : ActivityData} (sorted : NewestFirst data.items)
    (run : Runs Inbox.step InOrder (Inbox.start data) w) : Layered w :=
  run.keeps ⟨sorted, List.Pairwise.nil, fun _ hold => absurd hold List.not_mem_nil⟩
    fun _ _ _ inv hok hstep => inv.step hok hstep

/-- **The merged list is newest first.** -/
theorem shown (inv : Layered w) : NewestFirst w.shown := by
  refine List.pairwise_append.mpr ⟨inv.recent,
    inv.older.sublist (List.filter_sublist.trans List.filter_sublist), ?_⟩
  intro held hheld old hold
  obtain ⟨hkept, hnotheld⟩ := List.mem_filter.mp hold
  obtain ⟨hmem, hunrefreshed⟩ := List.mem_filter.mp hkept
  rcases inv.below old hmem with (⟨other, hother, hid, -⟩ | ⟨hunread, other, hother, hnewer⟩) | hbelow
  · rw [Bool.not_eq_true', List.contains_eq_mem, decide_eq_false_iff_not] at hnotheld
    exact absurd (List.mem_map.mpr ⟨other, hother, hid⟩) hnotheld
  · rw [hunread, Bool.not_true, Bool.false_or, Bool.not_eq_true', List.any_eq_false] at hunrefreshed
    exact absurd hnewer (hunrefreshed other hother)
  · exact hbelow held hheld

end Layered

/-- **The feed does not depend on the order of its arrivals, and the inbox is newest first, no id twice,
where arrivals, refreshes and older pages keep to their order.** -/
theorem feed_in_order {data : ActivityData} (sorted : NewestFirst data.items) :
    (∀ arrivals arrivals' : List ActivityItem, (arrivals.map (·.id)).Nodup →
      (∀ item ∈ arrivals, Replays data.items item) → arrivals.Perm arrivals' →
        arrivals.foldl withActivityItem data = arrivals'.foldl withActivityItem data) ∧
      ∀ w : Inbox, Runs Inbox.step InOrder (Inbox.start data) w → NewestFirst w.shown :=
  ⟨fun _ _ nodup replays h => foldl_withActivityItem ⟨sorted, nodup, replays⟩ h,
    fun _ run => (Layered.runs sorted run).shown⟩

/-! ## Arrivals in time, and one too late -/

/-- A direct message's item, and a mention's. -/
def dmItem (id : Nat) (readAt : Option Nat) : ActivityItem := ⟨id, .dm, 1, 0, id, "", readAt⟩

def mentionItem (id : Nat) : ActivityItem := ⟨id, .mention, 2, 0, id, "", none⟩

/-- Two mentions held. -/
def twoHeld : ActivityData := ⟨[mentionItem 9, mentionItem 8], 2⟩

/-- An older page is loaded, and a conversation's item comes and is refreshed. -/
def inTime : List Label :=
  [.askOlder, .olderPage [mentionItem 7, mentionItem 6], .arrive (dmItem 10 none), .arrive (dmItem 11 none)]

/-- A read item and an unread one of a conversation come either way round; and what comes in time leaves
the inbox newest first. -/
theorem inTime_in_order :
    [dmItem 10 none, dmItem 11 (some 1)].foldl withActivityItem twoHeld =
        [dmItem 11 (some 1), dmItem 10 none].foldl withActivityItem twoHeld ∧
      ((runList Inbox.step (Inbox.start twoHeld) inTime).map fun w => w.shown.map (·.id)) =
        some [11, 9, 8, 7, 6] ∧
      ∀ w, runList Inbox.step (Inbox.start twoHeld) inTime = some w → NewestFirst w.shown :=
  ⟨(feed_in_order (by decide)).1 _ _ (by decide) (by decide) (List.Perm.swap _ _ _), by decide,
    fun w h => (feed_in_order (by decide)).2 w (Runs.ofList inTime (by decide) h)⟩

/-- **An arrival late behind an older page is out of order**: it joins the first page, and the older page
is put after it. -/
theorem late_arrival_out_of_order :
    ¬ ∀ (data : ActivityData) (w : Inbox), NewestFirst data.items →
      Runs Inbox.step Always (Inbox.start data) w → NewestFirst w.shown := by
  intro claim
  have sorted := claim twoHeld ((runList Inbox.step (Inbox.start twoHeld)
      [.askOlder, .olderPage [mentionItem 7, mentionItem 6], .arrive (mentionItem 5)]).getD
        (Inbox.start twoHeld)) (by decide)
    (Runs.ofList [.askOlder, .olderPage [mentionItem 7, mentionItem 6], .arrive (mentionItem 5)]
      (EachStep.always _ _) rfl)
  exact absurd sorted (by decide)

end Stoop.Activity
