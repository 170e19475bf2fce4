import Stoop.Alerts.Writes

/-!
# A read message leaves no unread alert

That a person has at most one unread entry for a conversation and one for a thread, that no entry is about a
deleted message, and that none is unread whose message a marker of theirs has passed (`Settled`), of what is
committed after every step of a run.

An item is written by statements that look at the message and at the markers, and a marking or a deletion by
one that looks at the items. Neither waits for the other, so that two at once each miss what the other is
writing: `no_read_message_alerts` is the runs in which none does (`NoneMissed`), where `Settled` holds after
every step; `marked_beside_alert` and `deleted_beside_alert` are runs in which one does. The lock on a
channel's activity is all that keeps an entry single, and keeps it so in every run of these.

A marking by a credential that may not read activity clears none: `NoneMissed` has it pass no unread item.
-/

set_option autoImplicit false

namespace Stoop.Alerts

open Stoop.Lib

structure Settled (t : Tables) : Prop where
  dm : ∀ a ∈ t.items.values, ∀ b ∈ t.items.values, a.read = false → b.read = false →
    a.kind = .dm → b.kind = .dm → a.userId = b.userId → a.channelId = b.channelId → a = b
  thread : ∀ a ∈ t.items.values, ∀ b ∈ t.items.values, a.read = false → b.read = false →
    a.kind = .threadReply → b.kind = .threadReply → a.userId = b.userId →
    ∀ root, t.threadOf a = some root → t.threadOf b = some root → a = b
  live : ∀ a ∈ t.items.values, ∃ m, t.messages.get? a.messageId = some m ∧ m.deleted = false
  unpassed : ∀ a ∈ t.items.values, a.read = false → ∀ m, t.messages.get? a.messageId = some m →
    ∀ place : Place, place.covers a.kind m = true → t.reached a.userId place a.messageId = false

/-- **A sound state is settled.** -/
theorem Sound.settled {t : Tables} (inv : Sound t) : Settled t where
  dm := by
    intro a ha b hb hread hread' hkind hkind' huser hchannel
    obtain ⟨m, hm, _⟩ := inv.live a ha
    obtain ⟨n, hn, _⟩ := inv.live b hb
    have hentry : a.entry m = b.entry n := by
      simp only [ActivityItem.entry, hkind, hkind', huser, hchannel, reduceCtorEq, if_false]
    have hshared : a.kind.coalesces = true := by rw [hkind]; rfl
    exact List.inj_on_of_nodup_map t.items.nodup ha hb (inv.one a ha b hb hread hread' m n hm hn hshared hentry)
  thread := by
    intro a ha b hb hread hread' hkind hkind' huser root hroot hroot'
    obtain ⟨m, hm, _, hchannel⟩ := inv.live a ha
    obtain ⟨n, hn, _, hchannel'⟩ := inv.live b hb
    rw [Tables.threadOf, hm, Option.bind_some] at hroot
    rw [Tables.threadOf, hn, Option.bind_some] at hroot'
    -- both replies are in their root's channel
    obtain ⟨r, hr, hthere⟩ := inv.rooted _ m hm root hroot
    obtain ⟨r', hr', hthere'⟩ := inv.rooted _ n hn root hroot'
    have hsame : r = r' := Option.some.inj (hr.symm.trans hr')
    have hchannels : a.channelId = b.channelId := by rw [← hchannel, ← hthere, hsame, hthere', hchannel']
    have hentry : a.entry m = b.entry n := by
      simp only [ActivityItem.entry, hkind, hkind', huser, hchannels, hroot, hroot']
    have hshared : a.kind.coalesces = true := by rw [hkind]; rfl
    exact List.inj_on_of_nodup_map t.items.nodup ha hb (inv.one a ha b hb hread hread' m n hm hn hshared hentry)
  live := by
    intro a ha
    obtain ⟨m, hm, hlive, _⟩ := inv.live a ha
    exact ⟨m, hm, hlive⟩
  unpassed := by
    intro a ha hread m hm place hcovers
    have hid : m.id = a.messageId := Keyed.key_of_get? hm
    exact hid ▸ Tables.bornRead_eq_false.mp (inv.unpassed a ha hread m hm) place hcovers

/-! ## Statements at once -/

instance (w : ItemWrite) (userId : Nat) (place : Place) (target : Nat) : Decidable (w.passedBy userId place target) :=
  inferInstanceAs (Decidable (_ ∧ _ ∧ _ ∧ _))

namespace Tables

variable (t : Tables)

/-- Whether an alert about to be written misses a change nobody else sees yet: its recipient's marker being
moved past the message, where no marker has passed it already, or the message's deletion. -/
def alertMisses (kind : AlertKind) (messageId : Nat) (recipients : List Recipient) : Change → Bool
  | .read userId place target _ =>
    recipients.any (·.userId == userId) && (t.live messageId).any fun m =>
      place.covers kind m && decide (messageId ≤ target) && !t.bornRead kind userId m
  | .tombstone id _ => messageId == id
  | _ => false

/-- Whether a statement misses such a change: as an alert does, or an unread item that it would have read,
or one about the message it deletes. -/
def misses : Statement → Change → Bool
  | .createActivityItems kind _ messageId recipients, d => t.alertMisses kind messageId recipients d
  | .upsertUnreadActivityItems kind _ messageId _ recipients, d => t.alertMisses kind messageId recipients d
  | .markRead userId _ place target _, .item w => decide (w.passedBy userId place target)
  | .tombstoneMessage id, .item w => w.item.messageId == id
  | _, _ => false

/-- Whether a marking reads what it passes: its credential covers that, or it passes nothing unread. -/
def clears : Statement → Bool
  | .markRead userId channelId place target covers => covers || (t.passedItems userId channelId place target).isEmpty
  | _ => true

end Tables

/-- No statement misses what another call has written and not committed. -/
def NoneMissed (w : World) : Label → Prop
  | .proceed call => ∀ c ∈ w.calls.get? call, ∀ s ∈ c.todo.head?, w.tables.clears s = true ∧
      ∀ d ∈ w.calls.values, d.id ≠ call → ∀ change ∈ d.written, w.tables.misses s change = false
  | _ => True

instance (w : World) : (a : Label) → Decidable (NoneMissed w a)
  | .proceed call => inferInstanceAs (Decidable (∀ c, c ∈ w.calls.get? call → ∀ s, s ∈ c.todo.head? → _))
  | .ask _ _ | .commit _ | .rollback _ => inferInstanceAs (Decidable True)

/-! ## What a statement writes -/

/-- Whether a statement is one that writes an alert. -/
def Statement.notifies : Statement → Bool
  | .createActivityItems _ _ _ _ | .upsertUnreadActivityItems _ _ _ _ _ => true
  | _ => false

/-- What is so of a statement from its call's start until it is run. -/
def Statement.Ready (t : Tables) (lock : Lock) : Statement → Prop
  | .markRead _ channelId (.channel id) _ _ => id = channelId
  | .markRead _ channelId (.thread root) _ _ => t.Rooted root channelId
  | .createActivityItems kind channelId messageId _ => kind.coalesces = false ∧ t.Rooted messageId channelId
  | .upsertUnreadActivityItems kind channelId messageId threadRootId recipients =>
    kind.coalesces = true ∧ lock = .activity channelId ∧ (recipients.map (·.userId)).Nodup ∧
      ∃ m, t.messages.get? messageId = some m ∧ m.channelId = channelId ∧
        (kind = .threadReply → m.threadRootId.isSome = true) ∧
        threadRootId = if kind = .threadReply then m.threadRootId else none
  | .tombstoneMessage _ | .deleteThreadViewerRows _ => True

/-- What a write of an alert holds, whether it makes an item or refreshes one. -/
structure Tables.Tells (t : Tables) (kind : AlertKind) (channelId : Nat) (m : Message) (userId : Nat)
    (w : ItemWrite) : Prop where
  about : w.about = m
  message : w.item.messageId = m.id
  user : w.item.userId = userId
  read : w.item.read = t.bornRead kind userId m
  kind : w.item.kind = kind
  channel : w.item.channelId = channelId

namespace Tables

variable {t : Tables} {kind : AlertKind} {channelId messageId userId : Nat} {threadRootId : Option Nat}
  {m : Message} {r : Recipient} {recipients : List Recipient} {a b : ActivityItem} {c : Change}

theorem live_eq_some : t.live messageId = some m ↔ t.messages.get? messageId = some m ∧ m.deleted = false := by
  rw [live, Option.filter_eq_some_iff, Bool.not_eq_true']

theorem created_tells : t.Tells kind channelId m r.userId (t.created kind channelId m r) :=
  ⟨rfl, rfl, rfl, rfl, rfl, rfl⟩

/-- The items among which a recipient's entry is looked for. -/
theorem mem_unread : b ∈ t.items.values.filter (fun a =>
      a.userId == userId && a.channelId == channelId && a.kind == kind && !a.read &&
        threadRootId.all fun root => t.threadOf a == some root) ↔
    b ∈ t.items.values ∧ b.userId = userId ∧ b.channelId = channelId ∧ b.kind = kind ∧ b.read = false ∧
      ∀ root ∈ threadRootId, t.threadOf b = some root := by
  simp only [List.mem_filter, Bool.and_eq_true, beq_iff_eq, Bool.not_eq_true', and_assoc, Option.all_eq_true,
    Option.mem_def]

theorem unread_eq_some (h : t.unread kind channelId threadRootId userId = some a) :
    a ∈ t.items.values ∧ a.userId = userId ∧ a.channelId = channelId ∧ a.kind = kind ∧ a.read = false ∧
      ∀ root ∈ threadRootId, t.threadOf a = some root :=
  mem_unread.mp (List.argmax_mem h)

theorem refreshed_tells (h : t.unread kind channelId threadRootId r.userId = some a) :
    t.Tells kind channelId m r.userId (t.refreshed kind m r a) := by
  obtain ⟨_, huser, hchannel, hkind, _⟩ := unread_eq_some h
  exact ⟨rfl, rfl, huser, rfl, hkind, hchannel⟩

/-- An alert that fits where it is written, if it is in the place of the unread item of its entry. -/
theorem Tells.fits {w : ItemWrite} (h : t.Tells kind channelId m userId w) (hlive : t.live messageId = some m)
    (hchannel : m.channelId = channelId)
    (hone : kind.coalesces = true → ∀ a ∈ t.items.values, a.read = false → ∀ n,
      t.messages.get? a.messageId = some n → a.entry n = w.item.entry m → a.row = w.item.row) :
    Fits t (.item w) := by
  obtain ⟨hmessage, hdeleted⟩ := live_eq_some.mp hlive
  have hid : m.id = messageId := Keyed.key_of_get? hmessage
  refine ⟨⟨?_, ?_, ?_⟩, ?_, ?_⟩
  · rw [h.about, h.message, hid, hmessage]
  · rw [h.about, hdeleted]
  · rw [h.about, hchannel, h.channel]
  · intro hread
    rw [h.kind, h.user, h.about, ← h.read, hread]
  · intro a ha hread n hn hshared hentry
    rw [h.about] at hentry
    exact hone (h.kind ▸ hshared) a ha hread n hn hentry

theorem Tells.entry {w : ItemWrite} (h : t.Tells kind channelId m userId w) :
    w.item.entry m = (userId, kind, channelId, if kind = .threadReply then m.threadRootId else none) := by
  rw [ActivityItem.entry, h.user, h.kind, h.channel]

/-- The items an upsert chooses from are the unread ones of the entry it is for. -/
theorem entry_iff {n : Message} (hn : t.messages.get? a.messageId = some n)
    (hthread : kind = .threadReply → m.threadRootId.isSome = true)
    (hroot : threadRootId = if kind = .threadReply then m.threadRootId else none) :
    a.entry n = (userId, kind, channelId, if kind = .threadReply then m.threadRootId else none) ↔
      a.userId = userId ∧ a.channelId = channelId ∧ a.kind = kind ∧
        ∀ root ∈ threadRootId, t.threadOf a = some root := by
  rw [ActivityItem.entry, Prod.mk.injEq, Prod.mk.injEq, Prod.mk.injEq, threadOf, hn, Option.bind_some, hroot]
  by_cases hreply : kind = .threadReply
  · obtain ⟨root, hsome⟩ := Option.isSome_iff_exists.mp (hthread hreply)
    rw [if_pos hreply, hsome]
    constructor
    · rintro ⟨huser, hkind, hchannel, hthreads⟩
      rw [if_pos (hkind.trans hreply)] at hthreads
      exact ⟨huser, hchannel, hkind, fun _ hmem => hthreads.trans hmem⟩
    · rintro ⟨huser, hchannel, hkind, hthreads⟩
      rw [if_pos (hkind.trans hreply)]
      exact ⟨huser, hkind, hchannel, hthreads root rfl⟩
  · rw [if_neg hreply]
    constructor
    · rintro ⟨huser, hkind, hchannel, _⟩
      exact ⟨huser, hchannel, hkind, nofun⟩
    · rintro ⟨huser, hchannel, hkind, _⟩
      exact ⟨huser, hkind, hchannel, if_neg fun h => hreply (hkind.symm.trans h)⟩

/-- What an upsert writes for a recipient takes the place of their unread item, if they have one. -/
theorem upserted_spec (inv : Sound t) (hthread : kind = .threadReply → m.threadRootId.isSome = true)
    (hroot : threadRootId = if kind = .threadReply then m.threadRootId else none) (hshared : kind.coalesces = true) :
    ∃ w, (t.unread kind channelId threadRootId r.userId).elim (t.created kind channelId m r)
        (t.refreshed kind m r) = w ∧
      t.Tells kind channelId m r.userId w ∧ ∀ a ∈ t.items.values, a.read = false → ∀ n,
        t.messages.get? a.messageId = some n → a.entry n = w.item.entry m → a.row = w.item.row := by
  cases hunread : t.unread kind channelId threadRootId r.userId with
  | none =>
    refine ⟨t.created kind channelId m r, rfl, created_tells, fun a ha hread n hn hentry => ?_⟩
    rw [Tells.entry created_tells, entry_iff hn hthread hroot] at hentry
    obtain ⟨huser, hchannel, hkind, hthreads⟩ := hentry
    have hmem := mem_unread.mpr ⟨ha, huser, hchannel, hkind, hread, hthreads⟩
    rw [List.argmax_eq_none.mp hunread] at hmem
    cases hmem
  | some b =>
    obtain ⟨hb, huser, hchannel, hkind, hread', hthreads⟩ := unread_eq_some hunread
    obtain ⟨n', hn', _⟩ := inv.live b hb
    have hfound := (entry_iff hn' hthread hroot).mpr ⟨huser, hchannel, hkind, hthreads⟩
    refine ⟨t.refreshed kind m r b, rfl, refreshed_tells hunread, fun a ha hread n hn hentry => ?_⟩
    rw [Tells.entry (refreshed_tells hunread), ← hfound] at hentry
    have hkinds : a.kind = b.kind := congrArg (fun e => e.2.1) hentry
    exact inv.one a ha b hb hread hread' n n' hn hn' (hkinds.trans hkind ▸ hshared) hentry

theorem le_moved (place : Place) (target : Nat) : target ≤ t.moved userId place target := by
  rw [moved]
  cases (t.reads.get? (userId, place)).map (·.lastRead) with
  | none => exact Nat.le_refl target
  | some last => exact Nat.le_max_left target last

/-- What a marking passes unread is among what it reads. -/
theorem mem_passedItems {place : Place} {target : Nat} {covers : Bool} {lock : Lock} (inv : Sound t)
    (ready : (Statement.markRead userId channelId place target covers).Ready t lock) (ha : a ∈ t.items.values)
    (huser : a.userId = userId) (hread : a.read = false) (hm : t.messages.get? a.messageId = some m)
    (hcovers : place.covers a.kind m = true) (hle : a.messageId ≤ target) :
    (a.row, a.messageId) ∈ t.passedItems userId channelId place target := by
  obtain ⟨m', hm', _, hthere⟩ := inv.live a ha
  have hsame : m' = m := Option.some.inj (hm'.symm.trans hm)
  have hmoved : a.messageId ≤ t.moved userId place target := hle.trans (le_moved place target)
  refine List.mem_map.mpr ⟨a, List.mem_filter.mpr ⟨ha, ?_⟩, rfl⟩
  cases place with
  | channel id =>
    simp only [Place.covers, Bool.and_eq_true, beq_iff_eq] at hcovers
    have hchannel : a.channelId = channelId := by rw [← hthere, hsame, hcovers.2, ready]
    simp [huser, hchannel, hread, hmoved, hm, hcovers.1]
  | thread root =>
    have hroot : m.threadRootId = some root := eq_of_beq hcovers
    obtain ⟨r, hr, hin⟩ := inv.rooted _ m hm root hroot
    obtain ⟨r', hr', hin'⟩ := ready
    have hroots : r = r' := Option.some.inj (hr.symm.trans hr')
    have hchannel : a.channelId = channelId := by rw [← hthere, hsame, ← hin, hroots, hin']
    simp [huser, hchannel, hread, hmoved, hm, hroot]

/-! ### What each kind of statement writes -/

variable {lock : Lock} {d : Change}

/-- A change that an alert about a message makes, which fits where it is written. -/
def Told (t : Tables) (kind : AlertKind) (channelId messageId : Nat) (recipients : List Recipient) (c : Change) :
    Prop :=
  ∃ w m r, c = .item w ∧ r ∈ recipients ∧ t.live messageId = some m ∧ t.Tells kind channelId m r.userId w ∧
    Fits t c

theorem told_of_create (ready : (Statement.createActivityItems kind channelId messageId recipients).Ready t lock)
    (hc : c ∈ t.run (.createActivityItems kind channelId messageId recipients)) :
    t.Told kind channelId messageId recipients c := by
  obtain ⟨hshared, m, hm, hchannel⟩ := ready
  cases hlive : t.live messageId with
  | none =>
    rw [run, hlive] at hc
    cases hc
  | some m' =>
    rw [run, hlive] at hc
    obtain ⟨r, hr, rfl⟩ := List.mem_map.mp hc
    have hsame : m = m' := Option.some.inj (hm.symm.trans (live_eq_some.mp hlive).1)
    refine ⟨_, m', r, rfl, hr, hlive, created_tells, created_tells.fits hlive (hsame ▸ hchannel) fun h => ?_⟩
    rw [hshared] at h
    cases h

theorem told_of_upsert (inv : Sound t)
    (ready : (Statement.upsertUnreadActivityItems kind channelId messageId threadRootId recipients).Ready t lock)
    (hc : c ∈ t.run (.upsertUnreadActivityItems kind channelId messageId threadRootId recipients)) :
    t.Told kind channelId messageId recipients c := by
  obtain ⟨hshared, _, _, m, hm, hchannel, hthread, hroot⟩ := ready
  cases hlive : t.live messageId with
  | none =>
    rw [run, hlive] at hc
    cases hc
  | some m' =>
    rw [run, hlive] at hc
    obtain ⟨r, hr, rfl⟩ := List.mem_map.mp hc
    obtain rfl : m = m' := Option.some.inj (hm.symm.trans (live_eq_some.mp hlive).1)
    obtain ⟨w, hw, htells, hone⟩ := @upserted_spec t kind channelId threadRootId m r inv hthread hroot hshared
    exact ⟨w, m, r, congrArg Change.item hw, hr, hlive, htells, hw ▸ htells.fits hlive hchannel fun _ => hone⟩

/-- An alert that misses nothing of a change, and shares no entry with it, keeps out of its way. -/
theorem Told.apart (h : t.Told kind channelId messageId recipients c)
    (hmissed : t.alertMisses kind messageId recipients d = false)
    (hentries : ∀ v, d = .item v → kind.coalesces = true → v.item.kind = kind → v.item.channelId ≠ channelId) :
    c.Apart d := by
  obtain ⟨w, m, r, rfl, hr, hlive, htells, _⟩ := h
  have hid : w.item.messageId = messageId := htells.message.trans (Keyed.key_of_get? (live_eq_some.mp hlive).1)
  cases d with
  | message | viewersGone => exact trivial
  | read userId place target passed =>
    rintro ⟨huser, hread, hcovers, hle⟩
    rw [htells.kind, htells.about] at hcovers
    have hborn : t.bornRead kind userId m = false := by rw [← huser, htells.user, ← htells.read, hread]
    have hrecipient : (recipients.any (·.userId == userId)) = true :=
      List.any_eq_true.mpr ⟨r, hr, beq_iff_eq.mpr (htells.user.symm.trans huser)⟩
    simp only [alertMisses, hrecipient, hlive, Option.any_some, hcovers, decide_eq_true (hid ▸ hle), hborn,
      Bool.not_false, Bool.and_self, Bool.true_eq_false] at hmissed
  | tombstone id rows =>
    intro heq
    rw [alertMisses, ← hid, heq, beq_self_eq_true] at hmissed
    cases hmissed
  | item v =>
    intro hshared hentry
    rw [htells.kind] at hshared
    have hkind : w.item.kind = v.item.kind := congrArg (fun e => e.2.1) hentry
    have hchannel : w.item.channelId = v.item.channelId := congrArg (fun e => e.2.2.1) hentry
    exact hentries v rfl hshared (hkind ▸ htells.kind) (hchannel ▸ htells.channel)

/-- **A statement that clears what it passes writes what fits.** -/
theorem run_fits {s : Statement} (inv : Sound t) (ready : s.Ready t lock) (clears : t.clears s = true) :
    ∀ c ∈ t.run s, Fits t c := by
  intro c hc
  cases s with
  | markRead userId channelId place target covers =>
    rw [run, List.mem_singleton] at hc
    subst hc
    intro a ha huser hread m hm hcovers hle
    have hpassed := mem_passedItems inv ready ha huser hread hm hcovers hle
    cases covers with
    | true => exact hpassed
    | false =>
      rw [Tables.clears, Bool.false_or, List.isEmpty_iff] at clears
      rw [clears] at hpassed
      cases hpassed
  | tombstoneMessage id =>
    rw [run, List.mem_singleton] at hc
    subst hc
    intro a ha hid
    exact List.mem_map.mpr ⟨a, List.mem_filter.mpr ⟨ha, beq_iff_eq.mpr hid⟩, rfl⟩
  | deleteThreadViewerRows root =>
    rw [run, List.mem_singleton] at hc
    subst hc
    exact trivial
  | createActivityItems kind channelId messageId recipients =>
    obtain ⟨_, _, _, _, _, _, _, hfits⟩ := told_of_create ready hc
    exact hfits
  | upsertUnreadActivityItems kind channelId messageId threadRootId recipients =>
    obtain ⟨_, _, _, _, _, _, _, hfits⟩ := told_of_upsert inv ready hc
    exact hfits

/-- **What one statement writes keeps apart**: it tells nobody twice for an entry they share. -/
theorem run_within {s : Statement} (inv : Sound t) (ready : s.Ready t lock) : (t.run s).Pairwise Change.Apart := by
  cases s with
  | markRead | tombstoneMessage | deleteThreadViewerRows => exact List.pairwise_singleton _ _
  | createActivityItems kind channelId messageId recipients =>
    rw [run]
    cases t.live messageId with
    | none => exact .nil
    | some m =>
      refine List.pairwise_map.mpr (List.pairwise_of_forall fun _ _ hshared => ?_)
      rw [created, ready.1] at hshared
      cases hshared
  | upsertUnreadActivityItems kind channelId messageId threadRootId recipients =>
    obtain ⟨hshared, _, hdistinct, m, hm, hchannel, hthread, hroot⟩ := ready
    rw [run]
    cases hlive : t.live messageId with
    | none => exact .nil
    | some m' =>
      obtain rfl : m = m' := Option.some.inj (hm.symm.trans (live_eq_some.mp hlive).1)
      refine List.pairwise_map.mpr ((List.pairwise_map.mp hdistinct).imp fun {r r'} hne => ?_)
      obtain ⟨w, hw, htells, _⟩ := @upserted_spec t kind channelId threadRootId m r inv hthread hroot hshared
      obtain ⟨v, hv, htells', _⟩ := @upserted_spec t kind channelId threadRootId m r' inv hthread hroot hshared
      rw [hw, hv]
      intro _ hentry
      rw [htells.about, htells'.about, htells.entry, htells'.entry] at hentry
      exact hne (congrArg Prod.fst hentry)

/-- **A statement that misses nothing of a change keeps out of its way**, given that no other writes what
it may tell somebody of. -/
theorem run_apart {s : Statement} (inv : Sound t) (ready : s.Ready t lock) (hmissed : t.misses s d = false)
    (hlocked : ∀ v, d = .item v → v.item.kind.coalesces = true → lock ≠ .activity v.item.channelId) :
    ∀ c ∈ t.run s, c.Apart d := by
  intro c hc
  cases s with
  | markRead userId channelId place target covers =>
    rw [run, List.mem_singleton] at hc
    subst hc
    cases d with
    | item w => exact of_decide_eq_false hmissed
    | _ => exact trivial
  | tombstoneMessage id =>
    rw [run, List.mem_singleton] at hc
    subst hc
    cases d with
    | item w => exact beq_eq_false_iff_ne.mp hmissed
    | _ => exact trivial
  | deleteThreadViewerRows root =>
    rw [run, List.mem_singleton] at hc
    subst hc
    cases d <;> exact trivial
  | createActivityItems kind channelId messageId recipients =>
    refine (told_of_create ready hc).apart hmissed fun v _ hshared _ => ?_
    rw [ready.1] at hshared
    cases hshared
  | upsertUnreadActivityItems kind channelId messageId threadRootId recipients =>
    refine (told_of_upsert inv ready hc).apart hmissed fun v hd hshared hkind hchannel => ?_
    exact hlocked v hd (hkind ▸ hshared) (hchannel ▸ ready.2.1)

/-- An item a statement writes is an alert's, under the lock its entry is written under. -/
theorem run_item {s : Statement} {w : ItemWrite} (inv : Sound t) (ready : s.Ready t lock) (hw : .item w ∈ t.run s) :
    s.notifies = true ∧ (w.item.kind.coalesces = true → lock = .activity w.item.channelId) := by
  cases s with
  | markRead | tombstoneMessage | deleteThreadViewerRows => cases List.mem_singleton.mp hw
  | createActivityItems kind channelId messageId recipients =>
    obtain ⟨v, _, _, heq, _, _, htells, _⟩ := told_of_create ready hw
    cases heq
    refine ⟨rfl, fun hshared => ?_⟩
    rw [htells.kind, ready.1] at hshared
    cases hshared
  | upsertUnreadActivityItems kind channelId messageId threadRootId recipients =>
    obtain ⟨v, _, _, heq, _, _, htells, _⟩ := told_of_upsert inv ready hw
    cases heq
    exact ⟨rfl, fun _ => htells.channel ▸ ready.2.1⟩

theorem message_not_mem_run {s : Statement} (inv : Sound t) (ready : s.Ready t lock) : .message m ∉ t.run s := by
  intro hm
  cases s with
  | markRead | tombstoneMessage | deleteThreadViewerRows => cases List.mem_singleton.mp hm
  | createActivityItems kind channelId messageId recipients =>
    obtain ⟨_, _, _, heq, _⟩ := told_of_create ready hm
    cases heq
  | upsertUnreadActivityItems kind channelId messageId threadRootId recipients =>
    obtain ⟨_, _, _, heq, _⟩ := told_of_upsert inv ready hm
    cases heq

end Tables

/-! ## Later tables -/

/-- Every message is there still, as it was or a tombstone. -/
def Tables.Extends (t t' : Tables) : Prop :=
  ∀ id m, t.messages.get? id = some m → ∃ m', t'.messages.get? id = some m' ∧ m.Same m'

theorem Tables.Rooted.later {t t' : Tables} {root channelId : Nat} (h : t.Extends t') :
    t.Rooted root channelId → t'.Rooted root channelId := by
  rintro ⟨r, hr, hchannel⟩
  obtain ⟨r', hr', hsame⟩ := h root r hr
  exact ⟨r', hr', hsame.channelId.trans hchannel⟩

theorem Statement.Ready.later {t t' : Tables} {lock : Lock} {s : Statement} (h : t.Extends t')
    (ready : s.Ready t lock) : s.Ready t' lock := by
  cases s with
  | markRead userId channelId place target covers =>
    cases place with
    | channel id => exact ready
    | thread root => exact Tables.Rooted.later h ready
  | tombstoneMessage | deleteThreadViewerRows => exact trivial
  | createActivityItems => exact ⟨ready.1, ready.2.later h⟩
  | upsertUnreadActivityItems =>
    obtain ⟨hshared, hlock, hdistinct, m, hm, hchannel, hthread, hroot⟩ := ready
    obtain ⟨m', hm', hsame⟩ := h _ m hm
    refine ⟨hshared, hlock, hdistinct, m', hm', hsame.channelId.trans hchannel, ?_, ?_⟩
    · exact hsame.threadRootId ▸ hthread
    · exact hsame.threadRootId ▸ hroot

/-! ## Calls at work -/

/-- What is so of a call at work: what it has left to do is ready, an alert's statement is all there is of its
transaction, and what it has written of a shared entry it holds the lock for. -/
structure Call.Follows (t : Tables) (c : Call) : Prop where
  ready : ∀ s ∈ c.todo, s.Ready t c.lock
  alone : ∀ s ∈ c.todo, s.notifies = true → c.todo = [s] ∧ c.written = []
  spent : ∀ w, .item w ∈ c.written → c.todo = []
  locked : ∀ w, .item w ∈ c.written → w.item.kind.coalesces = true → c.lock = .activity w.item.channelId

/-- **What every run keeps.** -/
structure World.Kept (w : World) : Prop where
  orderly : Orderly discipline Call.written w.tables w.calls
  follows : ∀ c ∈ w.calls.values, c.Follows w.tables
  locks : ∀ c ∈ w.calls.values, ∀ d ∈ w.calls.values, c.id ≠ d.id → c.lock.conflicts d.lock = false
  minted : ∀ id m, w.tables.messages.get? id = some m → id < w.minted
  mints : ∀ c ∈ w.calls.values, ∀ m, .message m ∈ c.written → m.id < w.minted

theorem Lock.conflicts_comm (a b : Lock) : a.conflicts b = b.conflicts a := by
  cases a <;> cases b <;> first | rfl | exact Bool.beq_comm

section
variable {t : Tables} {c : Call} {s : Statement} {rest : List Statement} {d : Change}

/-- A call keeps out of its own way: an alert's statement is its only one. -/
theorem Call.Follows.own_apart (inv : Sound t) (h : c.Follows t) (htodo : c.todo = s :: rest) (hd : d ∈ c.written) :
    ∀ change ∈ t.run s, change.Apart d := by
  have hs : s ∈ c.todo := by rw [htodo]; exact List.mem_cons_self
  have hnot : s.notifies = false := by
    rw [← Bool.not_eq_true]
    intro hnotifies
    rw [(h.alone s hs hnotifies).2] at hd
    cases hd
  have hitem : ∀ v, d ≠ .item v := by
    rintro v rfl
    rw [h.spent v hd] at htodo
    cases htodo
  refine Tables.run_apart inv (h.ready s hs) ?_ fun v heq => absurd heq (hitem v)
  cases s with
  | markRead | tombstoneMessage | deleteThreadViewerRows =>
    cases d with
    | item v => exact absurd rfl (hitem v)
    | _ => rfl
  | createActivityItems | upsertUnreadActivityItems => cases hnot

/-- A call one statement later. -/
theorem Call.Follows.proceed (inv : Sound t) (h : c.Follows t) (htodo : c.todo = s :: rest) :
    ({ c with todo := rest, written := c.written ++ t.run s } : Call).Follows t := by
  have hs : s ∈ c.todo := by rw [htodo]; exact List.mem_cons_self
  have hrest : ∀ s' ∈ rest, s' ∈ c.todo := fun s' hs' => by rw [htodo]; exact List.mem_cons_of_mem s hs'
  have hcases : ∀ w, .item w ∈ c.written ++ t.run s → .item w ∈ t.run s := by
    intro w hw
    refine (List.mem_append.mp hw).resolve_left fun hold => ?_
    rw [h.spent w hold] at htodo
    cases htodo
  refine ⟨fun s' hs' => h.ready s' (hrest s' hs'), fun s' hs' hnotifies => ?_, fun w hw => ?_, fun w hw => ?_⟩
  · -- an alert's statement is the first of its call
    have hfirst := (h.alone s' (hrest s' hs') hnotifies).1
    rw [htodo, List.cons.injEq] at hfirst
    rw [hfirst.2] at hs'
    cases hs'
  · have hfirst := (h.alone s hs (Tables.run_item inv (h.ready s hs) (hcases w hw)).1).1
    rw [htodo, List.cons.injEq] at hfirst
    exact hfirst.2
  · exact (Tables.run_item inv (h.ready s hs) (hcases w hw)).2

end

/-! ## What a call starts with -/

/-- A plan has written nothing, or the one message it brings. -/
def Plan.Brings (t : Tables) (minted : Nat) (plan : Plan) : Prop :=
  plan.written = [] ∨
    ∃ m, plan.written = [.message m] ∧ m.id = minted ∧ plan.mints = 1 ∧ Fits t (.message m)

/-- What a plan starts a call with: statements that are ready, and its message if it is a send's. -/
structure Plan.Good (t : Tables) (minted : Nat) (plan : Plan) : Prop where
  ready : ∀ s ∈ plan.todo, s.Ready t plan.lock
  alone : ∀ s ∈ plan.todo, s.notifies = true → plan.todo = [s] ∧ plan.written = []
  written : plan.Brings t minted

/-- A plan of statements none of which writes an alert. -/
theorem Plan.good_of_quiet {t : Tables} {minted : Nat} {plan : Plan}
    (ready : ∀ s ∈ plan.todo, s.Ready t plan.lock ∧ s.notifies = false) (written : plan.Brings t minted) :
    plan.Good t minted where
  ready := fun s hs => (ready s hs).1
  alone := fun s hs hnotifies => by
    rw [(ready s hs).2] at hnotifies
    cases hnotifies
  written := written

/-- A plan of one alert's statement. -/
theorem Plan.good_of_alert {t : Tables} {minted mints : Nat} {lock : Lock} {s : Statement} (ready : s.Ready t lock) :
    (⟨lock, [s], [], mints⟩ : Plan).Good t minted where
  ready := fun s' hs' => List.mem_singleton.mp hs' ▸ ready
  alone := fun s' hs' _ => ⟨by rw [List.mem_singleton.mp hs'], rfl⟩
  written := .inl rfl

namespace Tables

variable {t : Tables} {minted : Nat} {lock : Lock}

theorem ready_tombstoneMessage (m : Message) :
    ∀ s ∈ t.tombstoneMessage m, s.Ready t lock ∧ s.notifies = false := by
  intro s hs
  simp only [tombstoneMessage] at hs
  split at hs <;> (rcases List.mem_cons.mp hs with rfl | hs; · exact ⟨trivial, rfl⟩) <;> split at hs
  all_goals first
    | cases hs; done
    | rw [List.mem_singleton.mp hs]; exact ⟨trivial, rfl⟩

theorem ready_tombstoneThread (root : Message) :
    ∀ s ∈ t.tombstoneThread root, s.Ready t lock ∧ s.notifies = false := by
  intro s hs
  rcases List.mem_append.mp hs with hs | hs
  · obtain ⟨id, _, rfl⟩ := List.mem_map.mp hs
    exact ⟨trivial, rfl⟩
  · rcases List.mem_append.mp hs with hs | hs
    · split at hs
      · cases hs
      · rw [List.mem_singleton.mp hs]
        exact ⟨trivial, rfl⟩
    · rw [List.mem_singleton.mp hs]
      exact ⟨trivial, rfl⟩

theorem rooted_of_threadRootFor {channelId root : Nat} (h : t.threadRootFor channelId root = true) :
    t.Rooted root channelId := by
  obtain ⟨m, hm, hroot⟩ := Option.any_eq_true _ _ |>.mp h
  rw [Bool.and_eq_true, beq_iff_eq] at hroot
  exact ⟨m, (live_eq_some.mp hm).1, hroot.1⟩

/-- **A request's call starts well.** -/
theorem plan_good {request : Request} {plan : Plan} (hfresh : t.messages.get? minted = none)
    (h : t.plan minted request = some plan) : plan.Good t minted := by
  cases request with
  | send userId channelId threadRoot alsoSend covers =>
    simp only [Tables.plan] at h
    split at h
    · cases h
    · next hok =>
      cases h
      rw [Bool.or_eq_true, not_or, Bool.not_eq_true', Bool.not_eq_false] at hok
      have hrooted : ∀ root ∈ threadRoot, t.Rooted root channelId := fun root hroot =>
        rooted_of_threadRootFor (Option.all_eq_true _ _ |>.mp hok.2 root hroot)
      refine Plan.good_of_quiet (fun s hs => ?_) (.inr ⟨_, rfl, rfl, rfl, hfresh, rfl, hrooted⟩)
      rcases List.mem_append.mp hs with hs | hs
      · obtain ⟨root, hroot, rfl⟩ := List.mem_map.mp hs
        exact ⟨hrooted root (Option.mem_toList.mp hroot), rfl⟩
      · split at hs
        · rw [List.mem_singleton.mp hs]
          exact ⟨rfl, rfl⟩
        · cases hs
  | markChannelRead userId channelId target covers =>
    cases h
    refine Plan.good_of_quiet (fun s hs => ?_) (.inl rfl)
    rw [List.mem_singleton.mp hs]
    exact ⟨rfl, rfl⟩
  | markThreadRead userId root target covers =>
    obtain ⟨m, hm, h⟩ := Option.bind_eq_some_iff.mp h
    split at h
    · cases h
      refine Plan.good_of_quiet (fun s hs => ?_) (.inl rfl)
      rw [List.mem_singleton.mp hs]
      exact ⟨⟨m, hm, rfl⟩, rfl⟩
    · cases h
  | notify kind messageId recipients =>
    simp only [Tables.plan] at h
    split at h
    · cases h
    obtain ⟨m, hm, h⟩ := Option.bind_eq_some_iff.mp h
    split at h
    · next hshared =>
      split at h
      · next hok =>
        cases h
        refine Plan.good_of_alert ⟨hshared, rfl, ?_, m, hm, rfl, hok.2, rfl⟩
        have husers : (List.zipWith Recipient.mk (List.range' minted recipients.length) recipients).map (·.userId) =
            recipients := by
          have hzip := @List.map_snd_zip _ _ (List.range' minted recipients.length) recipients (by simp)
          rw [List.zip, List.map_zipWith] at hzip
          rw [List.map_zipWith]
          exact hzip
        rw [husers]
        exact hok.1
      · cases h
    · next hshared =>
      cases h
      exact Plan.good_of_alert ⟨Bool.eq_false_iff.mpr hshared, m, hm, rfl⟩
  | deleteMessage messageId =>
    obtain ⟨m, hm, rfl⟩ := Option.map_eq_some_iff.mp h
    exact Plan.good_of_quiet (ready_tombstoneMessage m) (.inl rfl)
  | deleteThread root =>
    obtain ⟨m, hm, h⟩ := Option.bind_eq_some_iff.mp h
    split at h
    · cases h
      exact Plan.good_of_quiet (ready_tombstoneThread m) (.inl rfl)
    · cases h

end Tables

/-! ## One step -/

namespace World.Kept

variable {w w' : World}

theorem start : World.start.Kept where
  orderly := Orderly.idle
    ⟨fun _ h => absurd h List.not_mem_nil, nofun, fun _ h => absurd h List.not_mem_nil,
      fun _ h => absurd h List.not_mem_nil⟩
  follows := fun _ h => absurd h List.not_mem_nil
  locks := fun _ h => absurd h List.not_mem_nil
  minted := nofun
  mints := fun _ h => absurd h List.not_mem_nil

/-- A call put among the others, the tables as they are. -/
theorem setCall {c : Call} {minted : Nat} (inv : w.Kept) (hminted : w.minted ≤ minted)
    (fits : ∀ change ∈ c.written, Fits w.tables change) (within : c.written.Pairwise Change.Apart)
    (across : ∀ d ∈ w.calls.values, d.id ≠ c.id → ∀ change ∈ d.written, ∀ change' ∈ c.written,
      change.Apart change')
    (follows : c.Follows w.tables) (locks : ∀ d ∈ w.calls.values, d.id ≠ c.id → d.lock.conflicts c.lock = false)
    (mints : ∀ m, .message m ∈ c.written → m.id < minted) :
    (⟨w.tables, w.calls.set c, minted⟩ : World).Kept := by
  have hcases : ∀ d ∈ (w.calls.set c).values, d = c ∨ d.id ≠ c.id ∧ d ∈ w.calls.values := by
    intro d hd
    rcases Keyed.get?_set_cases (Keyed.mem_values.mp hd) with ⟨_, heq⟩ | ⟨hne, hold⟩
    · exact .inl heq.symm
    · exact .inr ⟨hne.symm, Keyed.mem_values.mpr hold⟩
  refine ⟨inv.orderly.set fits within across, fun d hd => ?_, fun d hd e he hne => ?_,
    fun id m hm => (inv.minted id m hm).trans_le hminted, fun d hd m hm => ?_⟩
  · rcases hcases d hd with heq | ⟨_, hold⟩
    · exact heq ▸ follows
    · exact inv.follows d hold
  · rcases hcases d hd with hdc | ⟨hdne, hdold⟩ <;> rcases hcases e he with hec | ⟨hene, heold⟩
    · exact absurd (congrArg Call.id (hdc.trans hec.symm)) hne
    · rw [hdc, Lock.conflicts_comm]
      exact locks e heold hene
    · rw [hec]
      exact locks d hdold hdne
    · exact inv.locks d hdold e heold hne
  · rcases hcases d hd with heq | ⟨_, hold⟩
    · exact mints m (heq ▸ hm)
    · exact (inv.mints d hold m hm).trans_le hminted

theorem ask {call : Nat} {request : Request} (inv : w.Kept) (h : w.step (.ask call request) = some w') : w'.Kept := by
  simp only [World.step] at h
  split at h
  · cases h
  · obtain ⟨plan, hplan, h⟩ := Option.bind_eq_some_iff.mp h
    split at h
    · cases h
    · next hfree =>
      cases h
      have hfresh : w.tables.messages.get? w.minted = none := by
        cases hfound : w.tables.messages.get? w.minted with
        | none => rfl
        | some m => exact absurd (inv.minted _ m hfound) (Nat.lt_irrefl _)
      obtain ⟨ready, alone, hwritten⟩ := Tables.plan_good hfresh hplan
      -- of a new call's writes there is its message at most, whose id is the next
      have hmessage : ∀ change ∈ plan.written, ∃ m, change = .message m ∧ m.id = w.minted ∧ plan.mints = 1 ∧
          Fits w.tables (.message m) := by
        intro change hmem
        rcases hwritten with hnone | ⟨m, hsome, hm⟩
        · rw [hnone] at hmem
          cases hmem
        · rw [hsome] at hmem
          exact ⟨m, List.mem_singleton.mp hmem, hm⟩
      refine inv.setCall (c := ⟨call, plan.lock, plan.todo, plan.written⟩) (Nat.le_add_right _ _)
        (fun change hmem => ?_) ?_ (fun d hd _ change hchange change' hmem => ?_)
        ⟨ready, alone, fun v hv => ?_, fun v hv => ?_⟩ (fun d hd _ => ?_) fun m hm => ?_
      · obtain ⟨m, rfl, _, _, hfits⟩ := hmessage change hmem
        exact hfits
      · rcases hwritten with hnone | ⟨m, hsome, _⟩
        · exact hnone ▸ .nil
        · exact hsome ▸ List.pairwise_singleton _ _
      · obtain ⟨m, rfl, hid, _⟩ := hmessage change' hmem
        cases change with
        | message n => exact fun heq => Nat.lt_irrefl _ ((heq.trans hid) ▸ inv.mints d hd n hchange)
        | _ => exact trivial
      · obtain ⟨_, heq, _⟩ := hmessage _ hv
        cases heq
      · obtain ⟨_, heq, _⟩ := hmessage _ hv
        cases heq
      · exact Bool.eq_false_iff.mpr fun hconflict => hfree (List.any_eq_true.mpr ⟨d, hd, hconflict⟩)
      · obtain ⟨n, heq, hid, hmints, _⟩ := hmessage _ hm
        cases heq
        rw [hid, hmints]
        exact Nat.lt_succ_self _

theorem proceed {call : Nat} (inv : w.Kept) (hmissed : NoneMissed w (.proceed call))
    (h : w.step (.proceed call) = some w') : w'.Kept := by
  obtain ⟨c, hc, h⟩ := Option.bind_eq_some_iff.mp h
  have hid : c.id = call := Keyed.key_of_get? hc
  have hmem : c ∈ w.calls.values := Keyed.mem_values.mpr (hid ▸ hc)
  split at h
  · cases h
  · next s rest htodo =>
    cases h
    have follows := inv.follows c hmem
    have sound := inv.orderly.sound
    have hs : s ∈ c.todo := by rw [htodo]; exact List.mem_cons_self
    have ready := follows.ready s hs
    obtain ⟨clears, missed⟩ := hmissed c hc s (by rw [htodo]; rfl)
    have hfits := Tables.run_fits sound ready clears
    -- the lock on an entry is held by one call
    have hapart : ∀ d ∈ w.calls.values, d.id ≠ c.id → ∀ change ∈ d.written,
        ∀ change' ∈ w.tables.run s, change'.Apart change := by
      intro d hd hne change hchange
      refine Tables.run_apart sound ready (missed d hd (hid ▸ hne) change hchange) fun v heq hshared hlock => ?_
      have hheld := (inv.follows d hd).locked v (heq ▸ hchange) hshared
      have hconflict := inv.locks d hd c hmem hne
      rw [hheld, hlock, Lock.conflicts, beq_self_eq_true] at hconflict
      cases hconflict
    refine inv.setCall (c := { c with todo := rest, written := c.written ++ w.tables.run s }) (Nat.le_refl _)
      (fun change hchange => ?_) ?_ (fun d hd hne change hchange change' hchange' => ?_)
      (follows.proceed sound htodo) (fun d hd hne => inv.locks d hd c hmem hne) fun m hm => ?_
    · rcases List.mem_append.mp hchange with hold | hnew
      · exact inv.orderly.fits c hmem change hold
      · exact hfits change hnew
    · refine List.pairwise_append.mpr ⟨inv.orderly.within c hmem, Tables.run_within sound ready, ?_⟩
      exact fun change hold change' hnew => (follows.own_apart sound htodo hold change' hnew).symm
    · rcases List.mem_append.mp hchange' with hold | hnew
      · exact inv.orderly.across d hd c hmem hne change hchange change' hold
      · exact (hapart d hd hne change hchange change' hnew).symm
    · rcases List.mem_append.mp hm with hold | hnew
      · exact inv.mints c hmem m hold
      · exact absurd hnew (Tables.message_not_mem_run sound ready)

theorem commit {call : Nat} (inv : w.Kept) (h : w.step (.commit call) = some w') : w'.Kept := by
  obtain ⟨c, hc, h⟩ := Option.bind_eq_some_iff.mp h
  have hid : c.id = call := Keyed.key_of_get? hc
  have hmem : c ∈ w.calls.values := Keyed.mem_values.mpr (hid ▸ hc)
  split at h
  · cases h
    have keeps : ∀ {P : Tables → Prop}, (∀ t change, Sound t → Fits t change → change ∈ c.written → P t →
        P (change.apply t)) → P w.tables → P (w.tables.applyAll c.written) := fun keep =>
      @Discipline.applyAll_keeps _ _ discipline _ _ _ keep inv.orderly.sound (inv.orderly.fits c hmem)
        (inv.orderly.within c hmem)
    have hlater : w.tables.Extends (w.tables.applyAll c.written) := by
      refine keeps (P := fun t => w.tables.Extends t) (fun t change _ hfits _ hextends id m hm => ?_)
        fun id m hm => ⟨m, hm, rfl⟩
      obtain ⟨m', hm', hsame⟩ := hextends id m hm
      obtain ⟨m'', hm'', hsame', _⟩ := Change.message_stays hfits hm'
      exact ⟨m'', hm'', hsame.trans hsame'⟩
    refine ⟨hid ▸ inv.orderly.commit hmem, fun d hd => ?_, fun d hd e he =>
      inv.locks d (List.mem_of_mem_filter hd) e (List.mem_of_mem_filter he), ?_,
      fun d hd => inv.mints d (List.mem_of_mem_filter hd)⟩
    · obtain ⟨ready, alone, spent, locked⟩ := inv.follows d (List.mem_of_mem_filter hd)
      exact ⟨fun s hs => (ready s hs).later hlater, alone, spent, locked⟩
    · refine keeps (P := fun t => ∀ id m, t.messages.get? id = some m → id < w.minted)
        (fun t change _ _ hchange hbound id m hm => ?_) inv.minted
      rcases Change.message_cases hm with rfl | ⟨n, hn, _⟩
      · exact (Keyed.key_of_get? hm : m.id = id) ▸ inv.mints c hmem m hchange
      · exact hbound id n hn
  · cases h

theorem rollback {call : Nat} (inv : w.Kept) (h : w.step (.rollback call) = some w') : w'.Kept := by
  simp only [World.step] at h
  split at h
  · cases h
    exact ⟨inv.orderly.drop _, fun d hd => inv.follows d (List.mem_of_mem_filter hd),
      fun d hd e he => inv.locks d (List.mem_of_mem_filter hd) e (List.mem_of_mem_filter he), inv.minted,
      fun d hd => inv.mints d (List.mem_of_mem_filter hd)⟩
  · cases h

theorem step {a : Label} (inv : w.Kept) (hmissed : NoneMissed w a) (h : w.step a = some w') : w'.Kept := by
  cases a with
  | ask call request => exact inv.ask h
  | proceed call => exact inv.proceed hmissed h
  | commit call => exact inv.commit h
  | rollback call => exact inv.rollback h

end World.Kept

/-- **A read message leaves no unread alert**, where no statement misses what another call is writing. -/
theorem no_read_message_alerts {w : World} (run : Runs World.step NoneMissed World.start w) : Settled w.tables := by
  have kept : w.Kept := by
    induction run with
    | refl => exact World.Kept.start
    | tail _ missed hstep ih => exact ih.step missed hstep
  exact kept.orderly.sound.settled

/-! ## A marking beside an alert that it leaves alone, and two that miss each other -/

/-- While Bea's entry is being pointed at Ada's second message, Bea marks the first one read. -/
def firstMarkedBeside : List Label :=
  [.ask 1 (.send 101 7 none false true), .proceed 1, .commit 1, .ask 2 (.notify .dm 0 [102]), .proceed 2, .commit 2,
    .ask 3 (.send 101 7 none false true), .proceed 3, .commit 3, .ask 4 (.notify .dm 2 [102]), .proceed 4,
    .ask 5 (.markChannelRead 102 7 0 true), .proceed 5, .commit 5, .commit 4]

theorem firstMarkedBeside_settled :
    (World.after firstMarkedBeside).tables.items.values = [⟨1, 3, 102, .dm, 7, 2, false⟩] ∧
      Settled (World.after firstMarkedBeside).tables :=
  ⟨by decide, no_read_message_alerts (Runs.ofList firstMarkedBeside (by decide) rfl)⟩

/-- A call whose credential may read activity. -/
def Covering (_ : World) : Label → Prop
  | .ask _ (.send _ _ _ _ covers) | .ask _ (.markChannelRead _ _ _ covers) | .ask _ (.markThreadRead _ _ _ covers) =>
    covers = true
  | _ => True

instance (w : World) : (a : Label) → Decidable (Covering w a)
  | .ask _ (.send _ _ _ _ _) | .ask _ (.markChannelRead _ _ _ _) | .ask _ (.markThreadRead _ _ _ _) =>
    inferInstanceAs (Decidable (_ = true))
  | .ask _ (.notify _ _ _) | .ask _ (.deleteMessage _) | .ask _ (.deleteThread _) | .proceed _ | .commit _
  | .rollback _ => inferInstanceAs (Decidable True)

/-- Bea marks Ada's message read while her alert about it is being written. -/
def markedBeside : List Label :=
  [.ask 1 (.send 101 7 none false true), .proceed 1, .commit 1, .ask 2 (.notify .dm 0 [102]), .proceed 2,
    .ask 3 (.markChannelRead 102 7 0 true), .proceed 3, .commit 3, .commit 2]

/-- **A marking and an alert each miss what the other is writing**: with no call at work, an unread item is
about a message that its recipient's marker has passed. -/
theorem marked_beside_alert :
    ¬ ∀ w : World, Runs World.step Covering World.start w → w.calls.values = [] → Settled w.tables := by
  intro claim
  have settled := claim (World.after markedBeside) (Runs.ofList markedBeside (by decide) rfl) (by decide)
  have hunpassed := settled.unpassed ⟨1, 1, 102, .dm, 7, 0, false⟩ (by decide) rfl ⟨0, 7, none, true, false⟩
    (by decide) (.channel 7) (by decide)
  revert hunpassed
  decide

/-- Ada deletes her message while the alert about it is being written. -/
def deletedBeside : List Label :=
  [.ask 1 (.send 101 7 none false true), .proceed 1, .commit 1, .ask 2 (.notify .mention 0 [102]), .proceed 2,
    .ask 3 (.deleteMessage 0), .proceed 3, .proceed 3, .commit 3, .commit 2]

/-- **So do a deletion and an alert**: an item is about a deleted message. -/
theorem deleted_beside_alert :
    ¬ ∀ w : World, Runs World.step Covering World.start w → w.calls.values = [] →
      ∀ a ∈ w.tables.items.values, (w.tables.live a.messageId).isSome := by
  intro claim
  have hlive := claim (World.after deletedBeside) (Runs.ofList deletedBeside (by decide) rfl) (by decide)
    ⟨1, 1, 102, .mention, 7, 0, false⟩ (by decide)
  revert hlive
  decide

end Stoop.Alerts
