import Stoop.Alerts.Tables

/-!
# What alerts and read markers keep, and which writes may be made beside one another

A committed state keeps four things (`Sound`): an item is about a message that is no tombstone, a reply is
in its root's channel, an unread item's message has been passed by no marker that covers it, and an entry
that alerts share has one unread item. A change keeps them if what it was written by is still so where it is
applied (`Fits`). Another's commit leaves it so unless the two write what the other looked for (`Apart`): an
unread item and a marker that passes its message, an item and its message's deletion, two items of one
shared entry. `discipline` is these with their two laws, each read off what a change can do to a lookup
(`Change.message_cases`, `Change.item_cases`, `Change.reached_cases`).
-/

set_option autoImplicit false

namespace Stoop.Alerts

open Stoop.Lib

/-! ## The invariant -/

/-- What an item is an entry for, where alerts of its kind share one: a person's conversation, or a thread
of theirs. -/
def ActivityItem.entry (a : ActivityItem) (m : Message) : Nat × AlertKind × Nat × Option Nat :=
  (a.userId, a.kind, a.channelId, if a.kind = .threadReply then m.threadRootId else none)

/-- A thread's root is there, in the channel. -/
def Tables.Rooted (t : Tables) (root channelId : Nat) : Prop :=
  ∃ r, t.messages.get? root = some r ∧ r.channelId = channelId

structure Sound (t : Tables) : Prop where
  live : ∀ a ∈ t.items.values,
    ∃ m, t.messages.get? a.messageId = some m ∧ m.deleted = false ∧ m.channelId = a.channelId
  rooted : ∀ id m, t.messages.get? id = some m → ∀ root ∈ m.threadRootId, t.Rooted root m.channelId
  unpassed : ∀ a ∈ t.items.values, a.read = false → ∀ m, t.messages.get? a.messageId = some m →
    t.bornRead a.kind a.userId m = false
  one : ∀ a ∈ t.items.values, ∀ b ∈ t.items.values, a.read = false → b.read = false → ∀ m n,
    t.messages.get? a.messageId = some m → t.messages.get? b.messageId = some n →
    a.kind.coalesces = true → a.entry m = b.entry n → a.row = b.row

/-- Whether a change may be applied: what its statement found, or chose, is still so. -/
def Fits (t : Tables) : Change → Prop
  | .message m =>
    t.messages.get? m.id = none ∧ m.deleted = false ∧ ∀ root ∈ m.threadRootId, t.Rooted root m.channelId
  | .read userId place target passed =>
    ∀ a ∈ t.items.values, a.userId = userId → a.read = false → ∀ m, t.messages.get? a.messageId = some m →
      place.covers a.kind m = true → a.messageId ≤ target → (a.row, a.messageId) ∈ passed
  | .item w =>
    (t.messages.get? w.item.messageId = some w.about ∧ w.about.deleted = false ∧
        w.about.channelId = w.item.channelId) ∧
      (w.item.read = false → t.bornRead w.item.kind w.item.userId w.about = false) ∧
      ∀ a ∈ t.items.values, a.read = false → ∀ m, t.messages.get? a.messageId = some m →
        w.item.kind.coalesces = true → a.entry m = w.item.entry w.about → a.row = w.item.row
  | .tombstone id rows => ∀ a ∈ t.items.values, a.messageId = id → a.row ∈ rows
  | .viewersGone _ => True

/-- Whether a marker's move passes an unread item that is being written. -/
def ItemWrite.passedBy (w : ItemWrite) (userId : Nat) (place : Place) (target : Nat) : Prop :=
  w.item.userId = userId ∧ w.item.read = false ∧ place.covers w.item.kind w.about = true ∧
    w.item.messageId ≤ target

/-- Whether neither of two changes writes what the other's statement looked for. -/
def Change.Apart : Change → Change → Prop
  | .message m, .message n => m.id ≠ n.id
  | .read userId place target _, .item w | .item w, .read userId place target _ => ¬ w.passedBy userId place target
  | .item w, .tombstone id _ | .tombstone id _, .item w => w.item.messageId ≠ id
  | .item w, .item v => w.item.kind.coalesces = true → w.item.entry w.about ≠ v.item.entry v.about
  | _, _ => True

theorem Change.Apart.symm {c d : Change} (h : c.Apart d) : d.Apart c := by
  cases c <;> cases d <;> try exact h
  case message => exact Ne.symm h
  case item.item w v =>
    intro hshared heq
    have hkind : w.item.kind = v.item.kind := congrArg (fun e => e.2.1) heq.symm
    exact h (hkind ▸ hshared) heq.symm

/-! ## Markers and the rule an item is born by -/

section
variable {t : Tables} {kind : AlertKind} {userId : Nat} {m : Message}

/-- An item is born read where some marker that covers its message has reached it. -/
theorem Tables.bornRead_iff : t.bornRead kind userId m = true ↔
    ∃ place : Place, place.covers kind m = true ∧ t.reached userId place m.id = true := by
  simp only [Tables.bornRead, Bool.or_eq_true, Bool.and_eq_true, Option.any_eq_true]
  constructor
  · rintro (⟨hshown, hreached⟩ | ⟨root, hroot, hreached⟩)
    · exact ⟨.channel m.channelId, by simpa [Place.covers] using hshown, hreached⟩
    · exact ⟨.thread root, by simpa [Place.covers] using hroot, hreached⟩
  · rintro ⟨place, hcovers, hreached⟩
    cases place with
    | channel id =>
      simp only [Place.covers, Bool.and_eq_true, beq_iff_eq] at hcovers
      obtain ⟨hshown, rfl⟩ := hcovers
      exact .inl ⟨hshown, hreached⟩
    | thread root => exact .inr ⟨root, by simpa [Place.covers] using hcovers, hreached⟩

theorem Tables.bornRead_eq_false : t.bornRead kind userId m = false ↔
    ∀ place : Place, place.covers kind m = true → t.reached userId place m.id = false := by
  rw [← Bool.not_eq_true, Tables.bornRead_iff]
  simp only [not_exists, not_and, Bool.not_eq_true]

end

/-! ## What a change does to a lookup -/

/-- A message as it was, or as its deletion leaves it. -/
def Message.Same (m m' : Message) : Prop := m' = { m with deleted := m'.deleted }

namespace Message.Same

variable {m m' : Message}

theorem covers (h : m.Same m') (place : Place) (kind : AlertKind) : place.covers kind m' = place.covers kind m := by
  rw [h]
  cases place <;> rfl

theorem entry (h : m.Same m') (a : ActivityItem) : a.entry m' = a.entry m := by
  rw [h]
  rfl

theorem threadRootId (h : m.Same m') : m'.threadRootId = m.threadRootId := by
  rw [h]

theorem channelId (h : m.Same m') : m'.channelId = m.channelId := by
  rw [h]

theorem trans {m'' : Message} (h : m.Same m') (h' : m'.Same m'') : m.Same m'' := by
  rw [h] at h'
  exact h'

end Message.Same

namespace Change

variable {t : Tables} {c : Change} {id : Nat} {m : Message}

/-- Messages that were there stay, tombstones apart as they were. -/
theorem message_stays (fits : Fits t c) (h : t.messages.get? id = some m) :
    ∃ m', (c.apply t).messages.get? id = some m' ∧ m.Same m' ∧
      (m' = m ∨ ∃ rows, c = .tombstone id rows) := by
  cases c with
  | message n =>
    have hne : n.id ≠ id := fun heq => Option.some_ne_none m (h.symm.trans (heq ▸ fits.1))
    exact ⟨m, by rw [apply, Keyed.get?_set, if_neg hne, h], rfl, .inl rfl⟩
  | read | viewersGone => exact ⟨m, h, rfl, .inl rfl⟩
  | item w =>
    refine ⟨m, ?_, rfl, .inl rfl⟩
    simp only [apply]
    split
    · exact h
    · split <;> exact h
  | tombstone gone rows =>
    have hid : m.id = id := Keyed.key_of_get? h
    refine ⟨m.tombstoneIf gone, by rw [apply, Keyed.get?_map, h, Option.map_some], ?_, ?_⟩
    · simp only [Message.tombstoneIf]
      split <;> rfl
    · simp only [Message.tombstoneIf]
      split
      · next heq => exact .inr ⟨rows, by rw [← heq, hid]⟩
      · exact .inl rfl

/-- A message found before a change and after it. -/
theorem message_same {m' : Message} (fits : Fits t c) (h : t.messages.get? id = some m)
    (h' : (c.apply t).messages.get? id = some m') : m.Same m' := by
  obtain ⟨n, hn, hsame, _⟩ := message_stays fits h
  rw [h', Option.some.injEq] at hn
  exact hn ▸ hsame

/-- A message after a change: the one it brings, or one that was there. -/
theorem message_cases (h : (c.apply t).messages.get? id = some m) :
    c = .message m ∨ ∃ n, t.messages.get? id = some n ∧ n.Same m := by
  cases c with
  | message n =>
    rcases Keyed.get?_set_cases h with ⟨_, rfl⟩ | ⟨_, hold⟩
    · exact .inl rfl
    · exact .inr ⟨m, hold, rfl⟩
  | read | viewersGone => exact .inr ⟨m, h, rfl⟩
  | item w =>
    refine .inr ⟨m, ?_, rfl⟩
    simp only [apply] at h
    split at h
    · exact h
    · split at h <;> exact h
  | tombstone gone rows =>
    rw [apply, Keyed.get?_map] at h
    obtain ⟨n, hn, rfl⟩ := Option.map_eq_some_iff.mp h
    refine .inr ⟨n, hn, ?_⟩
    simp only [Message.tombstoneIf]
    split <;> rfl

/-- What became of an item `b` that a change leaves as `a`: unread it is as it was, and neither passed nor
gone with its message. -/
structure Leaves (c : Change) (a b : ActivityItem) : Prop where
  row : b.row = a.row
  message : b.messageId = a.messageId
  channel : b.channelId = a.channelId
  unread : a.read = false → a = b
  unpassed : ∀ userId place target passed, c = .read userId place target passed → a.read = false →
    (a.row, a.messageId) ∉ passed
  spared : ∀ rows, c = .tombstone a.messageId rows → a.row ∉ rows

/-- An item after a change: the one it writes, or one that it leaves. -/
theorem item_cases {a : ActivityItem} (h : a ∈ (c.apply t).items.values) :
    (∃ w, c = .item w ∧ a = w.item) ∨ ∃ b ∈ t.items.values, c.Leaves a b := by
  cases c with
  | message | viewersGone => exact .inr ⟨a, h, rfl, rfl, rfl, fun _ => rfl, by rintro _ _ _ _ ⟨⟩, by rintro _ ⟨⟩⟩
  | read userId place target passed =>
    obtain ⟨b, hb, rfl⟩ := List.mem_map.mp h
    refine .inr ⟨b, hb, ?_⟩
    simp only [ActivityItem.readIf]
    split
    · exact ⟨rfl, rfl, rfl, by rintro ⟨⟩, by rintro _ _ _ _ _ ⟨⟩, by rintro _ ⟨⟩⟩
    · next hunread =>
      refine ⟨rfl, rfl, rfl, fun _ => rfl, fun _ _ _ _ heq hread hmem => ?_, by rintro _ ⟨⟩⟩
      cases heq
      exact hunread (by rw [hread, List.contains_iff_mem.mpr hmem]; rfl)
  | item w =>
    have hset : a ∈ (t.items.set w.item).values →
        (∃ v, Change.item w = .item v ∧ a = v.item) ∨ a ∈ t.items.values := by
      intro hmem
      rcases Keyed.get?_set_cases (Keyed.mem_values.mp hmem) with ⟨_, heq⟩ | ⟨_, hfound⟩
      · exact .inl ⟨w, rfl, heq.symm⟩
      · exact .inr (Keyed.mem_values.mpr hfound)
    have hold : a ∈ t.items.values → ∃ b ∈ t.items.values, (Change.item w).Leaves a b := fun hmem =>
      ⟨a, hmem, rfl, rfl, rfl, fun _ => rfl, by rintro _ _ _ _ ⟨⟩, by rintro _ ⟨⟩⟩
    simp only [apply] at h
    split at h
    · exact (hset h).imp_right hold
    · split at h
      · exact (hset h).imp_right hold
      · exact .inr (hold h)
  | tombstone gone rows =>
    obtain ⟨hmem, hkept⟩ := List.mem_filter.mp h
    refine .inr ⟨a, hmem, rfl, rfl, rfl, fun _ => rfl, by rintro _ _ _ _ ⟨⟩, fun _ heq hrow => ?_⟩
    cases heq
    rw [List.contains_iff_mem.mpr hrow, beq_self_eq_true] at hkept
    cases hkept

/-- How far a marker has come after a change: as far as before, or as far as the change moves it. -/
theorem reached_cases {userId : Nat} {place : Place} (h : (c.apply t).reached userId place id = true) :
    t.reached userId place id = true ∨ ∃ target passed, c = .read userId place target passed ∧ id ≤ target := by
  cases c with
  | message | tombstone => exact .inl h
  | item w =>
    simp only [apply] at h
    split at h
    · exact .inl h
    · split at h <;> exact .inl h
  | viewersGone root =>
    simp only [Tables.reached, apply, Option.any_eq_true] at h
    obtain ⟨r, hr, hle⟩ := h
    exact .inl (Option.any_eq_true _ _ |>.mpr ⟨r, (Keyed.get?_filter_eq_some hr).1, hle⟩)
  | read reader there target passed =>
    simp only [Tables.reached, apply, Option.any_eq_true] at h
    obtain ⟨r, hr, hle⟩ := h
    rcases Keyed.get?_set_cases hr with ⟨hkey, rfl⟩ | ⟨_, hold⟩
    · obtain ⟨rfl, rfl⟩ := Prod.mk.inj hkey
      have hle : id ≤ t.moved reader there target := of_decide_eq_true hle
      cases hfound : t.reads.get? (reader, there) with
      | none =>
        rw [Tables.moved, hfound] at hle
        exact .inr ⟨target, passed, rfl, hle⟩
      | some old =>
        rw [Tables.moved, hfound] at hle
        rcases le_max_iff.mp hle with htarget | hbefore
        · exact .inr ⟨target, passed, rfl, htarget⟩
        · exact .inl (by simpa [Tables.reached, hfound] using hbefore)
    · exact .inl (Option.any_eq_true _ _ |>.mpr ⟨r, hold, hle⟩)

end Change

/-! ## The two laws -/

variable {t : Tables} {c d : Change}

theorem Tables.Rooted.stays {root channelId : Nat} (fits : Fits t c) (h : t.Rooted root channelId) :
    (c.apply t).Rooted root channelId := by
  obtain ⟨r, hr, hchannel⟩ := h
  obtain ⟨r', hr', hsame, _⟩ := Change.message_stays fits hr
  exact ⟨r', hr', hsame.channelId.trans hchannel⟩

theorem Fits.found {w : ItemWrite} (h : Fits t (.item w)) :
    t.messages.get? w.item.messageId = some w.about := h.1.1

/-- **A change that fits keeps a state sound.** -/
theorem Sound.apply (inv : Sound t) (fits : Fits t c) : Sound (c.apply t) where
  live := by
    intro a ha
    rcases Change.item_cases ha with ⟨w, rfl, rfl⟩ | ⟨b, hb, left⟩
    · obtain ⟨m', hm', _, rfl | ⟨rows, heq⟩⟩ := Change.message_stays fits fits.found
      · exact ⟨_, hm', fits.1.2⟩
      · cases heq
    · obtain ⟨m, hm, hlive, hchannel⟩ := inv.live b hb
      rw [left.message] at hm
      obtain ⟨m', hm', hsame, rfl | ⟨rows, rfl⟩⟩ := Change.message_stays fits hm
      · exact ⟨_, hm', hlive, hchannel.trans left.channel⟩
      · exact absurd (left.row ▸ fits b hb left.message) (left.spared rows rfl)
  rooted := by
    intro id m hm root hroot
    rcases Change.message_cases hm with rfl | ⟨n, hn, hsame⟩
    · exact (fits.2.2 root hroot).stays fits
    · rw [hsame.threadRootId] at hroot
      rw [hsame.channelId]
      exact (inv.rooted id n hn root hroot).stays fits
  unpassed := by
    intro a ha hread m hm
    rw [Tables.bornRead_eq_false]
    intro place hcovers
    rw [← Bool.not_eq_true]
    intro hreached
    rcases Change.item_cases ha with ⟨w, rfl, rfl⟩ | ⟨b, hb, left⟩
    · have hsame := Change.message_same fits fits.found hm
      rcases Change.reached_cases hreached with hbefore | ⟨_, _, heq, _⟩
      · have hid : m.id = w.about.id := (Keyed.key_of_get? hm).trans (Keyed.key_of_get? fits.found).symm
        have hnot := Tables.bornRead_eq_false.mp (fits.2.1 hread) place (hsame.covers place _ ▸ hcovers)
        rw [← hid, hbefore] at hnot
        cases hnot
      · cases heq
    · cases left.unread hread
      obtain ⟨n, hn, _⟩ := inv.live a hb
      have hsame := Change.message_same fits hn hm
      have hcovers' : place.covers a.kind n = true := hsame.covers place _ ▸ hcovers
      rcases Change.reached_cases hreached with hbefore | ⟨target, passed, rfl, hle⟩
      · have hid : m.id = n.id := (Keyed.key_of_get? hm).trans (Keyed.key_of_get? hn).symm
        have hnot := Tables.bornRead_eq_false.mp (inv.unpassed a hb hread n hn) place hcovers'
        rw [← hid, hbefore] at hnot
        cases hnot
      · have hid : m.id = a.messageId := Keyed.key_of_get? hm
        exact left.unpassed _ _ _ _ rfl hread (fits a hb rfl hread n hn hcovers' (hid ▸ hle))
  one := by
    intro a ha b hb hread hread' m n hm hn hshared hentry
    rcases Change.item_cases ha with ⟨w, rfl, rfl⟩ | ⟨a', ha', left⟩
    · rw [(Change.message_same fits fits.found hm).entry] at hentry
      rcases Change.item_cases hb with ⟨v, heq, rfl⟩ | ⟨b', hb', left'⟩
      · cases heq
        rfl
      · cases left'.unread hread'
        obtain ⟨n', hn', _⟩ := inv.live b hb'
        rw [(Change.message_same fits hn' hn).entry] at hentry
        exact (fits.2.2 b hb' hread' n' hn' hshared hentry.symm).symm
    · cases left.unread hread
      obtain ⟨m', hm', _⟩ := inv.live a ha'
      rw [(Change.message_same fits hm' hm).entry] at hentry
      rcases Change.item_cases hb with ⟨v, rfl, rfl⟩ | ⟨b', hb', left'⟩
      · rw [(Change.message_same fits fits.found hn).entry] at hentry
        have hkind : a.kind = v.item.kind := congrArg (fun e => e.2.1) hentry
        exact fits.2.2 a ha' hread m' hm' (hkind ▸ hshared) hentry
      · cases left'.unread hread'
        obtain ⟨n', hn', _⟩ := inv.live b hb'
        rw [(Change.message_same fits hn' hn).entry] at hentry
        exact inv.one a ha' b hb' hread hread' m' n' hm' hn' hshared hentry

/-- **What keeps apart from a change fits what the change leaves.** -/
theorem Fits.apply (inv : Sound t) (fits : Fits t c) (apart : c.Apart d) (h : Fits t d) : Fits (c.apply t) d := by
  cases d with
  | message m =>
    obtain ⟨hfresh, hlive, hrooted⟩ := h
    refine ⟨?_, hlive, fun root hroot => (hrooted root hroot).stays fits⟩
    cases hfound : (c.apply t).messages.get? m.id with
    | none => rfl
    | some m' =>
      rcases Change.message_cases hfound with rfl | ⟨n, hn, _⟩
      · exact absurd (Keyed.key_of_get? hfound) apart
      · rw [hfresh] at hn
        cases hn
  | read userId place target passed =>
    intro a ha huser hread m hm hcovers hle
    rcases Change.item_cases ha with ⟨w, rfl, rfl⟩ | ⟨b, hb, left⟩
    · rw [(Change.message_same fits fits.found hm).covers] at hcovers
      exact absurd ⟨huser, hread, hcovers, hle⟩ apart
    · cases left.unread hread
      obtain ⟨n, hn, _⟩ := inv.live a hb
      rw [(Change.message_same fits hn hm).covers] at hcovers
      exact h a hb huser hread n hn hcovers hle
  | item w =>
    obtain ⟨⟨hmessage, hlive, hchannel⟩, hborn, hone⟩ := h
    refine ⟨?_, fun hread => ?_, fun a ha hread m hm hshared hentry => ?_⟩
    · obtain ⟨m', hm', _, rfl | ⟨rows, rfl⟩⟩ := Change.message_stays fits hmessage
      · exact ⟨hm', hlive, hchannel⟩
      · exact absurd rfl apart
    · rw [Tables.bornRead_eq_false]
      intro place hcovers
      rw [← Bool.not_eq_true]
      intro hreached
      rcases Change.reached_cases hreached with hbefore | ⟨target, passed, rfl, hle⟩
      · rw [Tables.bornRead_eq_false.mp (hborn hread) place hcovers] at hbefore
        cases hbefore
      · have hid : w.about.id = w.item.messageId := Keyed.key_of_get? hmessage
        exact apart ⟨rfl, hread, hcovers, hid ▸ hle⟩
    · rcases Change.item_cases ha with ⟨v, rfl, rfl⟩ | ⟨b, hb, left⟩
      · rw [(Change.message_same fits fits.found hm).entry] at hentry
        have hkind : v.item.kind = w.item.kind := congrArg (fun e => e.2.1) hentry
        exact absurd hentry (apart (hkind ▸ hshared))
      · cases left.unread hread
        obtain ⟨n, hn, _⟩ := inv.live a hb
        rw [(Change.message_same fits hn hm).entry] at hentry
        exact hone a hb hread n hn hshared hentry
  | tombstone id rows =>
    intro a ha hid
    rcases Change.item_cases ha with ⟨w, rfl, rfl⟩ | ⟨b, hb, left⟩
    · exact absurd hid apart
    · exact left.row ▸ h b hb (left.message.trans hid)
  | viewersGone root => exact trivial

/-- The committed tables, and the changes written beside one another. -/
def discipline : Discipline Tables Change where
  apply := Change.apply
  Sound := Sound
  Fits := Fits
  Apart := Change.Apart
  symm := Change.Apart.symm
  sound := Sound.apply
  fits := Fits.apply

end Stoop.Alerts
