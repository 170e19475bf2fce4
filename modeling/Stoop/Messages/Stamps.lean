import Stoop.Messages.Writes

/-!
# What every write does to a channel

`Wrote` compares a channel with the one a transaction found: each message, with its thread's summary,
is as it was, or it is stamped above the position the channel stood at, and keeps its place. It is
carried from statement to statement, by one law for a row written and stamped (`Wrote.restamp`), one
for a row that was stamped before (`Wrote.rewrite`) and one for a new row (`Wrote.create`), and holds
of every transaction that commits (`Write.wrote`).
-/

set_option autoImplicit false

namespace Stoop.Messages

open Stoop.Lib

/-- A channel's stamps: none above the channel's own, and no two rows with one. -/
structure WellStamped (c : Channel) : Prop where
  low : ∀ {id row}, c.messages.get? id = some row → row.seq ≤ c.seq
  apart : ∀ {id id' row row'}, c.messages.get? id = some row → c.messages.get? id' = some row' →
    row.seq = row'.seq → id = id'

/-- A message and its thread's summary are as they were. -/
def Same (base c : Channel) (id : Nat) : Prop :=
  c.messages.get? id = base.messages.get? id ∧ c.threads.get? id = base.threads.get? id

/-- A row stamped since: it keeps the place it had, or is the message sent; and only a pin pins it. -/
structure Follows (write : Write) (base : Channel) (row : MessageRow) : Prop where
  above : base.seq < row.seq
  place : (∃ held, base.messages.get? row.id = some held ∧ row.threadRootId = held.threadRootId) ∨
    (base.messages.get? row.id = none ∧ write.draws = some row.id)
  pinned : row.pinnedBy.isSome → write.pins = some row.id ∨
    ∃ held, base.messages.get? row.id = some held ∧ held.pinnedBy.isSome

/-- What a write's transaction has made of the channel it found. -/
structure Wrote (write : Write) (base c : Channel) : Prop extends WellStamped c where
  seq_le : base.seq ≤ c.seq
  rows : ∀ id, Same base c id ∨ ∃ row, c.messages.get? id = some row ∧ Follows write base row

section
variable {write : Write} {base c : Channel}

/-- A transaction that has written nothing yet. -/
theorem Wrote.refl (h : WellStamped c) : Wrote write c c :=
  { h with seq_le := Nat.le_refl _, rows := fun _ => .inl ⟨rfl, rfl⟩ }

/-- A row that is there: its place, and whether the channel found had it pinned. -/
theorem Wrote.held (h : Wrote write base c) {id : Nat} {held : MessageRow}
    (hheld : c.messages.get? id = some held) :
    ((∃ found, base.messages.get? id = some found ∧ held.threadRootId = found.threadRootId) ∨
        (base.messages.get? id = none ∧ write.draws = some id)) ∧
      (held.pinnedBy.isSome → write.pins = some id ∨
        ∃ found, base.messages.get? id = some found ∧ found.pinnedBy.isSome) := by
  rcases h.rows id with ⟨hsame, -⟩ | ⟨row, hrow, hfollows⟩
  · rw [hheld] at hsame
    exact ⟨.inl ⟨held, hsame.symm, rfl⟩, fun hpinned => .inr ⟨held, hsame.symm, hpinned⟩⟩
  · obtain rfl : row = held := Option.some.inj (hrow.symm.trans hheld)
    obtain rfl : row.id = id := Keyed.key_of_get? hheld
    exact ⟨hfollows.place, hfollows.pinned⟩

/-- Setting a row at the channel's next position, where no other row changes, keeps the stamps. -/
theorem WellStamped.stamp (h : WellStamped c) (row : MessageRow) (lastMessageId : Option Nat)
    (threads : Keyed Thread.rootMessageId) :
    WellStamped ⟨c.seq + 1, lastMessageId, c.messages.set (row.withSeq (c.seq + 1)), threads⟩ where
  low hget := by
    rcases Keyed.get?_set_cases hget with ⟨-, rfl⟩ | ⟨-, hget⟩
    · exact Nat.le_refl _
    · exact Nat.le_succ_of_le (h.low hget)
  apart hget hget' hseq := by
    rcases Keyed.get?_set_cases hget with ⟨hid, rfl⟩ | ⟨-, hget⟩ <;>
      rcases Keyed.get?_set_cases hget' with ⟨hid', rfl⟩ | ⟨-, hget'⟩
    · exact hid.symm.trans hid'
    · exact absurd (h.low hget') (by rw [← hseq]; exact Nat.not_succ_le_self _)
    · exact absurd (h.low hget) (by rw [hseq]; exact Nat.not_succ_le_self _)
    · exact h.apart hget hget' hseq

/-- **A row written and stamped**, its thread's summary perhaps with it. -/
theorem Wrote.restamp (h : Wrote write base c) {row held : MessageRow}
    {threads : Keyed Thread.rootMessageId} {lastMessageId : Option Nat}
    (hheld : c.messages.get? row.id = some held) (hplace : row.threadRootId = held.threadRootId)
    (hpinned : row.pinnedBy.isSome → write.pins = some row.id ∨ held.pinnedBy.isSome)
    (hthreads : ∀ id, id ≠ row.id → threads.get? id = c.threads.get? id) :
    Wrote write base
      ⟨c.seq + 1, lastMessageId, c.messages.set (row.withSeq (c.seq + 1)), threads⟩ := by
  refine { h.toWellStamped.stamp row lastMessageId threads with
    seq_le := Nat.le_succ_of_le h.seq_le, rows := fun id => ?_ }
  have hset := Keyed.get?_set c.messages (row.withSeq (c.seq + 1)) id
  rw [MessageRow.withSeq_id] at hset
  by_cases hid : row.id = id
  · rw [if_pos hid] at hset
    obtain ⟨hstood, hwas⟩ := h.held hheld
    refine .inr ⟨_, hset, ⟨Nat.lt_succ_of_le h.seq_le, hstood.imp_left ?_, fun hp => ?_⟩⟩
    · rintro ⟨found, hfound, hstood⟩
      exact ⟨found, hfound, hplace.trans hstood⟩
    · exact (hpinned hp).elim .inl hwas
  · rw [if_neg hid] at hset
    rcases h.rows id with hsame | ⟨other, hother, hfollows⟩
    · exact .inl ⟨hset.trans hsame.1, (hthreads id (Ne.symm hid)).trans hsame.2⟩
    · exact .inr ⟨other, hset.trans hother, hfollows⟩

/-- **A row stamped before, written again.** -/
theorem Wrote.rewrite (h : Wrote write base c) {row held : MessageRow}
    {threads : Keyed Thread.rootMessageId} {lastMessageId : Option Nat}
    (hheld : c.messages.get? row.id = some held) (habove : base.seq < held.seq)
    (hseq : row.seq = held.seq) (hplace : row.threadRootId = held.threadRootId)
    (hpinned : row.pinnedBy.isSome → held.pinnedBy.isSome)
    (hthreads : ∀ id, id ≠ row.id → threads.get? id = c.threads.get? id) :
    Wrote write base ⟨c.seq, lastMessageId, c.messages.set row, threads⟩ := by
  -- the row written has the stamp of the row that was there
  have hwas : ∀ {id found}, (c.messages.set row).get? id = some found →
      ∃ was, c.messages.get? id = some was ∧ was.seq = found.seq := by
    intro id found hget
    rcases Keyed.get?_set_cases hget with ⟨hid, rfl⟩ | ⟨-, hget⟩
    · exact ⟨held, hid ▸ hheld, hseq.symm⟩
    · exact ⟨found, hget, rfl⟩
  refine { low := fun hget => ?_, apart := fun hget hget' heq => ?_, seq_le := h.seq_le, rows := fun id => ?_ }
  · obtain ⟨was, hget, hw⟩ := hwas hget
    exact hw ▸ h.low hget
  · obtain ⟨was, hget, hw⟩ := hwas hget
    obtain ⟨was', hget', hw'⟩ := hwas hget'
    exact h.apart hget hget' (hw.trans (heq.trans hw'.symm))
  · have hset := Keyed.get?_set c.messages row id
    by_cases hid : row.id = id
    · rw [if_pos hid] at hset
      obtain ⟨hstood, hwas⟩ := h.held hheld
      refine .inr ⟨row, hset, ⟨hseq ▸ habove, hstood.imp_left ?_, fun hp => hwas (hpinned hp)⟩⟩
      rintro ⟨found, hfound, hstood⟩
      exact ⟨found, hfound, hplace.trans hstood⟩
    · rw [if_neg hid] at hset
      rcases h.rows id with hsame | ⟨other, hother, hfollows⟩
      · exact .inl ⟨hset.trans hsame.1, (hthreads id (Ne.symm hid)).trans hsame.2⟩
      · exact .inr ⟨other, hset.trans hother, hfollows⟩

/-- **A new row.** -/
theorem Wrote.create (h : Wrote write base c) {row : MessageRow} {lastMessageId : Option Nat}
    (hnew : base.messages.get? row.id = none) (hdraws : write.draws = some row.id)
    (hpinned : row.pinnedBy = none) :
    Wrote write base
      ⟨c.seq + 1, lastMessageId, c.messages.set (row.withSeq (c.seq + 1)), c.threads⟩ := by
  refine { h.toWellStamped.stamp row lastMessageId c.threads with
    seq_le := Nat.le_succ_of_le h.seq_le, rows := fun id => ?_ }
  have hset := Keyed.get?_set c.messages (row.withSeq (c.seq + 1)) id
  rw [MessageRow.withSeq_id] at hset
  by_cases hid : row.id = id
  · rw [if_pos hid] at hset
    refine .inr ⟨_, hset, ⟨Nat.lt_succ_of_le h.seq_le, .inr ⟨hnew, hdraws⟩, fun hp => ?_⟩⟩
    · rw [show ((row.withSeq (c.seq + 1)) : MessageRow).pinnedBy = none from hpinned] at hp
      cases hp
  · rw [if_neg hid] at hset
    rcases h.rows id with hsame | ⟨other, hother, hfollows⟩
    · exact .inl ⟨hset.trans hsame.1, hsame.2⟩
    · exact .inr ⟨other, hset.trans hother, hfollows⟩

/-- A channel's newest message is no part of what is compared. -/
theorem Wrote.lastMessage (h : Wrote write base c) (lastMessageId : Option Nat) :
    Wrote write base { c with lastMessageId := lastMessageId } :=
  { low := h.low, apart := h.apart, seq_le := h.seq_le, rows := h.rows }

end

/-! ## The statements -/

/-- A statement's result, and then what follows it. -/
theorem bind_eq_ok {α β : Type} {x : Except Refusal α} {f : α → Except Refusal β} {b : β}
    (h : x >>= f = .ok b) : ∃ a, x = .ok a ∧ f a = .ok b := by
  cases x with
  | error refusal => cases h
  | ok a => exact ⟨a, rfl, h⟩

section
variable {write : Write} {base c c' : Channel} {now id rootId : Nat}

/-- A row written and then stamped is stamped. -/
theorem stamped_setRow (c : Channel) (row : MessageRow) : (c.setRow row).stamped row = c.stamped row := by
  have hset : (c.messages.set row).set (row.withSeq (c.seq + 1)) =
      c.messages.set (row.withSeq (c.seq + 1)) := Keyed.set_set rfl
  simp only [Channel.stamped, Channel.setRow, hset]

/-- A stamp: the row at the channel's next position. -/
theorem stampMessage_eq_ok (h : c.stampMessage id = .ok c') :
    ∃ row, c.messages.get? id = some row ∧
      c' = c.stamped row := by
  unfold Channel.stampMessage at h
  split at h
  · cases h
  next row hrow => exact ⟨row, hrow, (Except.ok.inj h).symm⟩

/-- A tombstone: a live row blanked, at the channel's next position. -/
theorem tombstoneRow_eq_ok (h : c.tombstoneRow now id = .ok c') :
    ∃ row, c.messages.get? id = some row ∧ row.deletedAt = none ∧
      c' = c.stamped (row.tombstoned now) := by
  unfold Channel.tombstoneRow at h
  split at h
  · cases h
  next row hrow =>
    split at h
    · cases h
    next hlive =>
      obtain ⟨blanked, hblanked, rfl⟩ := stampMessage_eq_ok h
      obtain rfl : row.id = id := Keyed.key_of_get? hrow
      have hget : (c.messages.set (row.tombstoned now)).get? (row.tombstoned now).id =
          some (row.tombstoned now) := Keyed.get?_set_self ..
      obtain rfl : blanked = row.tombstoned now := Option.some.inj (hblanked.symm.trans hget)
      refine ⟨row, hrow, by simpa using hlive, ?_⟩
      exact stamped_setRow ..

/-- A row changed and stamped. -/
theorem stampThen_eq_ok {change : MessageRow → Except Refusal MessageRow}
    (h : c.stampThen id change = .ok c') :
    ∃ held row, c.messages.get? id = some held ∧ change held = .ok row ∧
      c' = c.stamped { row with id := id } := by
  unfold Channel.stampThen at h
  split at h
  · cases h
  next held hheld =>
    obtain ⟨row, hrow, hdone⟩ := bind_eq_ok h
    exact ⟨held, row, hheld, hrow, (Except.ok.inj hdone).symm⟩

/-- A stamp, where nothing but the row's own thread was written before it. -/
theorem Wrote.stampMessage {threads : Keyed Thread.rootMessageId} (h : Wrote write base c)
    (hthreads : ∀ other, other ≠ id → threads.get? other = c.threads.get? other)
    (hstamp : ({ c with threads := threads } : Channel).stampMessage id = .ok c') :
    Wrote write base c' := by
  obtain ⟨row, hrow, rfl⟩ := stampMessage_eq_ok hstamp
  obtain rfl : row.id = id := Keyed.key_of_get? hrow
  exact h.restamp hrow rfl .inr hthreads

theorem Wrote.tombstoneRow (h : Wrote write base c) (hrow : c.tombstoneRow now id = .ok c') :
    Wrote write base c' := by
  obtain ⟨row, hheld, -, rfl⟩ := tombstoneRow_eq_ok hrow
  obtain rfl : row.id = id := Keyed.key_of_get? hheld
  exact @Wrote.restamp _ _ _ h (row.tombstoned now) row c.threads c.lastMessageId hheld rfl nofun
    fun _ _ => rfl

/-- A row changed and stamped, where the change keeps its place. -/
theorem Wrote.stampThen {change : MessageRow → Except Refusal MessageRow} (h : Wrote write base c)
    (hplace : ∀ held row, change held = .ok row → row.threadRootId = held.threadRootId)
    (hpinned : ∀ held row, change held = .ok row → row.pinnedBy.isSome →
      write.pins = some id ∨ held.pinnedBy.isSome)
    (hrow : c.stampThen id change = .ok c') : Wrote write base c' := by
  obtain ⟨held, row, hheld, hchange, rfl⟩ := stampThen_eq_ok hrow
  exact @Wrote.restamp _ _ _ h { row with id := id } held c.threads c.lastMessageId hheld
    (hplace held row hchange) (hpinned held row hchange) fun _ _ => rfl

/-- A root hidden after it was stamped. -/
theorem Wrote.hideRoot (h : Wrote write base c) {threads : Keyed Thread.rootMessageId} {row : MessageRow}
    (hrow : c.messages.get? rootId = some row) (habove : base.seq < row.seq)
    (hthreads : ∀ other, other ≠ rootId → threads.get? other = c.threads.get? other) :
    Wrote write base (({ c with threads := threads } : Channel).hideRoot rootId) := by
  obtain rfl : row.id = rootId := Keyed.key_of_get? hrow
  rw [Channel.hideRoot, Channel.unpinMessage]
  split
  next hnone => exact absurd (hnone.symm.trans hrow) nofun
  next found hfound =>
    obtain rfl : found = row := Option.some.inj (hfound.symm.trans hrow)
    exact @Wrote.rewrite _ _ _ h { found with pinnedBy := none } found threads _ hrow habove rfl rfl
      nofun hthreads

/-- What a stamp leaves at its row. -/
theorem above_of_stampMessage (h : base.seq ≤ c.seq) (hstamp : c.stampMessage id = .ok c') :
    ∃ row, c'.messages.get? id = some row ∧ base.seq < row.seq := by
  obtain ⟨row, hrow, rfl⟩ := stampMessage_eq_ok hstamp
  obtain rfl : row.id = id := Keyed.key_of_get? hrow
  exact ⟨_, Keyed.get?_set_self c.messages (row.withSeq (c.seq + 1)), Nat.lt_succ_of_le h⟩

theorem above_of_tombstoneRow (h : base.seq ≤ c.seq) (hrow : c.tombstoneRow now id = .ok c') :
    ∃ row, c'.messages.get? id = some row ∧ base.seq < row.seq := by
  obtain ⟨row, hheld, -, rfl⟩ := tombstoneRow_eq_ok hrow
  obtain rfl : row.id = id := Keyed.key_of_get? hheld
  exact ⟨_, Keyed.get?_set_self c.messages ((row.tombstoned now).withSeq (c.seq + 1)),
    Nat.lt_succ_of_le h⟩

/-! ## The transactions -/

theorem get?_recordThreadReply {reply : Reply} {other : Nat} (h : other ≠ rootId) :
    (c.recordThreadReply rootId reply).threads.get? other = c.threads.get? other := by
  unfold Channel.recordThreadReply
  rw [Keyed.get?_set, if_neg]
  intro hkey
  split at hkey
  · exact h hkey.symm
  next thread hthread =>
    have hroot : thread.rootMessageId = rootId := Keyed.key_of_get? hthread
    exact h (hkey.symm.trans hroot)

theorem get?_recomputeThread {other : Nat} (h : other ≠ rootId) :
    (c.recomputeThread rootId).1.threads.get? other = c.threads.get? other := by
  unfold Channel.recomputeThread
  split
  · exact (Keyed.get?_set ..).trans (if_neg (Ne.symm h))
  · rfl

theorem get?_deleteThreadSummary {other : Nat} :
    (c.deleteThreadSummary rootId).threads.get? other =
      if other = rootId then none else c.threads.get? other :=
  Keyed.get?_filter_ne c.threads rootId other

theorem sendMessage_wrote {sent : Sent} (h : WellStamped c) (hnew : c.messages.get? sent.id = none)
    (hrun : c.sendMessage sent = .ok c') : Wrote (.send sent) c c' := by
  have hcreated : Wrote (.send sent) c (c.stamped sent.row) :=
    @Wrote.create _ _ _ (.refl h) sent.row c.lastMessageId hnew rfl rfl
  unfold Channel.sendMessage at hrun
  split at hrun
  · cases hrun
    exact hcreated.lastMessage _
  next root hroot =>
    obtain ⟨-, -, hrun⟩ := bind_eq_ok hrun
    obtain ⟨stamped, hstamp, hdone⟩ := bind_eq_ok hrun
    have hstamped : Wrote (.send sent) c stamped :=
      hcreated.stampMessage (fun _ hother => get?_recordThreadReply hother) hstamp
    split at hdone
    · cases hdone
      exact hstamped.lastMessage _
    · cases hdone
      exact hstamped

theorem tombstoneTopLevel_wrote (h : WellStamped c) (hrun : c.tombstoneTopLevel now id = .ok c') :
    Wrote write c c' := by
  unfold Channel.tombstoneTopLevel at hrun
  obtain ⟨blanked, hblanked, hdone⟩ := bind_eq_ok hrun
  have hwrote : Wrote write c blanked := (Wrote.refl h).tombstoneRow hblanked
  obtain ⟨row, hrow, habove⟩ := above_of_tombstoneRow (Nat.le_refl c.seq) hblanked
  split at hdone
  · cases hdone
    exact hwrote
  · cases hdone
    exact hwrote.hideRoot hrow habove fun _ _ => rfl

/-- A recount changes the root's thread and nothing else. -/
theorem recomputeThread_eq (c : Channel) (rootId : Nat) :
    (c.recomputeThread rootId).1 = { c with threads := (c.recomputeThread rootId).1.threads } := by
  unfold Channel.recomputeThread
  split <;> rfl

theorem tombstoneReply_wrote {msg : MessageRow} (h : WellStamped c)
    (hrun : c.tombstoneReply now msg rootId = .ok c') : Wrote write c c' := by
  unfold Channel.tombstoneReply at hrun
  split at hrun
  · cases hrun
  next root hroot =>
    obtain ⟨blanked, hblanked, hrun⟩ := bind_eq_ok hrun
    have hwrote : Wrote write c (if msg.inChannel then blanked.recomputeLastMessage else blanked) := by
      split
      · exact ((Wrote.refl h).tombstoneRow hblanked).lastMessage _
      · exact (Wrote.refl h).tombstoneRow hblanked
    simp only at hrun
    generalize (if msg.inChannel then blanked.recomputeLastMessage else blanked) = found at hwrote hrun
    split at hrun
    · -- replies remain: the root is stamped with its new summary
      rw [recomputeThread_eq] at hrun
      exact hwrote.stampMessage (fun _ hother => get?_recomputeThread hother) hrun
    · -- none remain: the summary goes, and a placeholder with it
      obtain ⟨stamped, hstamp, hdone⟩ := bind_eq_ok hrun
      rw [Channel.deleteThreadSummary, recomputeThread_eq] at hstamp
      have hstamped : Wrote write c stamped := by
        refine hwrote.stampMessage (fun other hother => ?_) hstamp
        have hdelete := @get?_deleteThreadSummary (found.recomputeThread rootId).1 rootId other
        rw [if_neg hother] at hdelete
        exact hdelete.trans (get?_recomputeThread hother)
      split at hdone
      · cases hdone
        exact hstamped
      · cases hdone
        obtain ⟨row, hrow, habove⟩ :=
          @above_of_stampMessage c _ _ _ (by exact hwrote.seq_le) hstamp
        exact hstamped.hideRoot hrow habove fun _ _ => rfl

theorem tombstoneAll_wrote {ids : List Nat} (h : Wrote write base c)
    (hrun : c.tombstoneAll now ids = .ok c') : Wrote write base c' := by
  induction ids generalizing c with
  | nil =>
    cases hrun
    exact h
  | cons id ids ih =>
    obtain ⟨blanked, hblanked, hrest⟩ := bind_eq_ok hrun
    exact ih (h.tombstoneRow hblanked) hrest

theorem tombstoneThread_wrote {root : MessageRow} (h : WellStamped c)
    (hrun : c.tombstoneThread now root = .ok c') : Wrote write c c' := by
  unfold Channel.tombstoneThread at hrun
  obtain ⟨blanked, hblanked, hrun⟩ := bind_eq_ok hrun
  have hwrote : Wrote write c blanked := tombstoneAll_wrote (.refl h) hblanked
  obtain ⟨stamped, hstamp, hdone⟩ := bind_eq_ok hrun
  cases hdone
  have hstamped : Wrote write c stamped ∧
      ∃ row, stamped.messages.get? root.id = some row ∧ c.seq < row.seq := by
    split at hstamp
    · exact ⟨hwrote.tombstoneRow hstamp, above_of_tombstoneRow hwrote.seq_le hstamp⟩
    · exact ⟨hwrote.stampMessage (fun _ _ => rfl) hstamp, above_of_stampMessage hwrote.seq_le hstamp⟩
  obtain ⟨row, hrow, habove⟩ := hstamped.2
  refine hstamped.1.hideRoot hrow habove fun other hother => ?_
  exact get?_deleteThreadSummary.trans (if_neg hother)

/-- **What every transaction that commits has done.** -/
theorem Write.wrote (write : Write) (h : WellStamped c)
    (hnew : ∀ id ∈ write.draws, c.messages.get? id = none) (hrun : write.run c = .ok c') :
    Wrote write c c' := by
  cases write with
  | send sent => exact sendMessage_wrote h (hnew sent.id rfl) hrun
  | edit msg now content urls previewing =>
    refine (Wrote.refl h).stampThen (fun held row hrow => ?_) (fun held row hrow hp => .inr ?_) hrun <;>
      split at hrow <;> cases hrow
    · rfl
    · exact hp
  | delete msg now =>
    change c.tombstoneMessage now msg = .ok c' at hrun
    unfold Channel.tombstoneMessage at hrun
    split at hrun
    · exact tombstoneTopLevel_wrote h hrun
    · exact tombstoneReply_wrote h hrun
  | deleteThread root now => exact tombstoneThread_wrote h hrun
  | react msg userId emoji =>
    have hkept : ∀ {held row : MessageRow},
        (if held.deletedAt.isNone && !held.reactions.contains (userId, emoji) then
            Except.ok { held with reactions := held.reactions ++ [(userId, emoji)] }
          else if held.reactions.contains (userId, emoji) then
            .ok { held with reactions := held.reactions.filter (· != (userId, emoji)) }
          else .error Refusal.placeholder) = .ok row →
        row.threadRootId = held.threadRootId ∧ row.pinnedBy = held.pinnedBy := by
      intro held row hrow
      split at hrow
      · cases hrow
        exact ⟨rfl, rfl⟩
      · split at hrow <;> cases hrow
        exact ⟨rfl, rfl⟩
    exact (Wrote.refl h).stampThen (fun _ _ hrow => (hkept hrow).1)
      (fun _ _ hrow hp => .inr ((hkept hrow).2 ▸ hp)) hrun
  | pin msg userId =>
    refine (Wrote.refl h).stampThen (fun held row hrow => ?_) (fun _ _ _ _ => .inl rfl) hrun
    split at hrow
    · cases hrow
    · split at hrow <;> cases hrow
      rfl
  | unpin msg =>
    refine (Wrote.refl h).stampThen (fun held row hrow => ?_) (fun held row hrow hp => .inr ?_) hrun <;>
      split at hrow <;> cases hrow
    · rfl
    · cases hp
  | dismiss msg url =>
    refine (Wrote.refl h).stampThen (fun held row hrow => ?_) (fun held row hrow hp => .inr ?_) hrun <;>
      split at hrow <;> cases hrow
    · rfl
    · exact hp
  | previewed messageId =>
    refine (Wrote.refl h).stampThen (fun held row hrow => ?_) (fun held row hrow hp => .inr ?_) hrun <;>
      split at hrow <;> cases hrow
    · rfl
    · exact hp

end

end Stoop.Messages
