import Stoop.Channel.Replicas

/-!
# An event is a notification

The event of the write that took seq `w` carries the whole row as written, a deletion, or one field;
merged into the log, it leaves the row's copy as a notification of `w` may (`Replica.Took`). A partial
event is right where the held row was current just before it: the write changed that field alone.
-/

set_option autoImplicit false

namespace Stoop.Channel

open Stoop.Lib

/-! ## The event of a write -/

/-- What the event of the write that took `seq` is made of. -/
theorem event?_eq_some {server : Server} {seq : Nat} {hydration : Hydration} {event : ServerEvent}
    (h : server.event? seq hydration = some event) :
    ∃ write row, seq ≤ server.seq ∧ 0 < seq ∧
      write.row? (rowsAt server.history (seq - 1)) = some row ∧
      server.rowAt seq write.target = some (row.withSeq seq) ∧
      moment server.history seq = write :: moment server.history (seq - 1) ∧
      ∃ fresh, event =
        eventOf server.channelId seq write fresh (hydration.fill (row.withSeq seq)) := by
  unfold Server.event? at h
  split at h
  next => cases h
  next write past hmoment =>
    split at h
    next hlength =>
      obtain ⟨row, hrow, rfl⟩ := Option.map_eq_some_iff.mp h
      have hle : seq ≤ server.history.length := by
        have := moment_length server.history seq
        rw [hmoment, List.length_cons] at this
        omega
      have hpast : moment server.history (seq - 1) = past := by
        rw [← moment_moment server.history (Nat.sub_le seq 1), hmoment, moment_of_le (by omega),
          moment_of_ge (by omega)]
      have hat : server.rowAt seq write.target = some row := hrow
      rw [Server.rowAt, rowsAt, hmoment, rowsAfter, hlength] at hrow
      cases hwritten : write.row? (rowsAfter past) with
      | none =>
        -- a write that found no row has no event
        rw [Write.run, hwritten] at hrow
        have hnone : (rowsAfter past).get? write.target = none := by
          cases write with
          | whole => cases hwritten
          | reactions | pinned | thread | deleted => exact Option.map_eq_none_iff.mp hwritten
        exact absurd (hrow.symm.trans hnone) (by rintro ⟨⟩)
      | some row' =>
        rw [get?_run_target hwritten] at hrow
        obtain rfl := Option.some.inj hrow
        exact ⟨write, row', hle, by omega, by rw [rowsAt, hpast]; exact hwritten, hat,
          by rw [hpast, hmoment], _, rfl⟩
    next => cases h

/-! ## What an event does to the log's rows -/

/-- An event merges one row, or none. -/
theorem changeOf_apply (event : ServerEvent) (log : ChannelLog) :
    (changeOf event).apply log = log ∨
      ∃ row, (changeOf event).apply log = withArrivals log [row] fromEvent := by
  cases event with
  | messageCreated row | messageUpdated row => exact .inr ⟨row, rfl⟩
  | messageDeleted deletion => exact .inr ⟨_, rfl⟩
  | reactionsChanged _ id _ _ | messagePinned _ id _ _ | threadChanged _ id _ _ =>
    simp only [changeOf, patched]
    split
    · exact .inl rfl
    · exact .inr ⟨_, rfl⟩

/-- An event moves the position, and what is owed, as a notification does. -/
theorem replica_withEvent {log : ChannelLog} {event : ServerEvent}
    (hchannel : (changeOf event).channelId = log.channelId)
    (habove : hasPage log = true → log.seq < (changeOf event).seq) :
    (withEvent log event).replica =
      ({ log.replica with held := ((changeOf event).apply log).copies }.tell (changeOf event).seq
        ((changeOf event).patches.all log.rows.has)) := by
  have hframe : ((changeOf event).apply log).seq = log.seq ∧
      ((changeOf event).apply log).seenSeq = log.seenSeq ∧
      ((changeOf event).apply log).needsCatchUp = log.needsCatchUp ∧
      hasPage ((changeOf event).apply log) = hasPage log := by
    rcases changeOf_apply event log with happly | ⟨row, happly⟩
    · rw [happly]
      exact ⟨rfl, rfl, rfl, rfl⟩
    · have h := reshapes_withArrivals log [row] fromEvent
      rw [happly]
      exact ⟨h.seq, h.seenSeq, h.needsCatchUp, h.hasPage⟩
  obtain ⟨hseq, hseen, howed, hpage⟩ := hframe
  have hnot : log.knows (changeOf event).seq = false := by
    rw [ChannelLog.knows, Bool.and_eq_false_imp]
    exact fun h => decide_eq_false (Nat.not_le_of_lt (habove h))
  simp only [withEvent, hchannel, bne_self_eq_false, hnot, Bool.false_eq_true, if_false]
  cases hopened : hasPage log with
  | false =>
    rw [hopened] at hpage
    simp only [Bool.not_false, if_true, ChannelLog.replica, Replica.tell, hopened, Bool.false_and,
      Bool.false_eq_true, if_false, Bool.or_false, hseq, hseen, howed]
    exact congrArg (Replica.mk _ _ _ _) hpage
  | true =>
    rw [hopened] at hpage
    simp only [Bool.not_true, Bool.false_eq_true, if_false, ChannelLog.replica, Replica.tell,
      hopened, Bool.true_and, hseq, hseen]
    split
    next hnext =>
      simp only [hnext, Bool.not_true, Bool.or_false, howed, Replica.mk.injEq, true_and]
      exact ⟨rfl, hpage⟩
    next hnext =>
      rw [Bool.not_eq_true] at hnext
      simp only [hnext, Replica.mk.injEq, Bool.not_false, Bool.or_true, true_and]
      exact ⟨rfl, hpage⟩

/-- The copies after an event that merges one row and drops none. -/
theorem copies_of_arrival {log : ChannelLog} {row : Message}
    (hkeeps : ∀ id, log.rows.has id = true ∨ id = row.id →
      (withArrivals log [row] fromEvent).rows.has id = true) :
    (∀ id, id ≠ row.id → (withArrivals log [row] fromEvent).copies id = log.copies id) ∧
      (withArrivals log [row] fromEvent).copies row.id =
        merge false (log.copies row.id) (some row.copy) := by
  have hcopies := @copies_of_merge _ _ [row] fromEvent
    (List.nodup_singleton row.id) (reshapes_withArrivals log [row] fromEvent).rows (fun id hid => hkeeps id (by
      rcases has_mergeRows hid with h | ⟨row', hrow', hid'⟩
      · exact .inl h
      · exact .inr (by rw [← hid', List.mem_singleton.mp hrow'])))
  constructor
  · intro id hid
    rw [hcopies]
    simp [copiesOf, Ne.symm hid]
  · rw [hcopies]
    simp [copiesOf, fromEvent]

/-! ## Partial events -/

/-- A change to one field, made alike to a row on the server and to a copy of it. -/
theorem copy_of_patch {stored held : Message} (hshown : isShown stored = true)
    (hcopy : stored.copy = held.copy) {patch patch' : Message → Message}
    (hpatch : ∀ a b : Message, a.versioned = b.versioned →
      (patch a).versioned = (patch' b).versioned) :
    (patch stored).copy = (patch' held).copy := by
  have hcontent : stored.shown = held.shown := congrArg Copy.content hcopy
  simp only [Message.shown, hshown, if_true] at hcontent
  split at hcontent
  next => exact copy_of_versioned (hpatch _ _ (Option.some.inj hcontent))
  next => cases hcontent

/-- What an event that merges one row, as written or patched, does to the replica. -/
theorem converging_arrival {server : Server} {log : ChannelLog} {told : Nat → Prop}
    {passes : List Pass} {seq : Nat} {event : ServerEvent} {row : Message} {written : Message}
    (inv : Converging server.timeline server.seq told log.replica passes)
    (hwritten : server.rowAt seq row.id = some written) (hstamp : written.seq = seq)
    (hseq : seq ≤ server.seq) (habove : log.seq < seq) (hfresh : ¬ told seq)
    (hchannel : (changeOf event).channelId = log.channelId) (heventseq : (changeOf event).seq = seq)
    (happly : (changeOf event).apply log = withArrivals log [row] fromEvent)
    (hcovered : (changeOf event).patches.all log.rows.has = true)
    (hkeeps : ∀ id, log.rows.has id = true ∨ id = row.id →
      (withArrivals log [row] fromEvent).rows.has id = true)
    (hrow : row.seq = seq)
    (hwhole : log.rows.get? row.id = none → row.copy = written.copy)
    (hright : ∀ held, log.rows.get? row.id = some held →
      server.timeline.copy (seq - 1) row.id = some held.copy → row.copy = written.copy) :
    Converging server.timeline server.seq (fun v => told v ∨ v = seq)
      (withEvent log event).replica passes := by
  have hcopy : server.timeline.copy seq row.id = some written.copy :=
    Server.timeline_eq_some.mpr ⟨written, hwritten, rfl⟩
  obtain ⟨hothers, hat⟩ := copies_of_arrival hkeeps
  obtain ⟨c', hmerge, htook⟩ : ∃ c', merge false (log.copies row.id) (some row.copy) = some c' ∧
      log.replica.Took server.timeline seq row.id c' := by
    refine Replica.took_merge (r := log.replica) (x := row.copy) hrow (fun hnone => ?_)
      fun c hheld hlt => ?_
    · have hnone' : log.rows.get? row.id = none := Option.map_eq_none_iff.mp hnone
      refine .whole (by rw [hcopy, hwhole hnone']) hrow fun c hc => ?_
      exact absurd (hc.symm.trans hnone) nofun
    · obtain ⟨held, hheld', rfl⟩ := Option.map_eq_some_iff.mp hheld
      exact .patched hheld hlt hrow fun hcurrent => by rw [hcopy, hright held hheld' hcurrent]
  rw [replica_withEvent hchannel (fun _ => heventseq.symm ▸ habove), heventseq, happly, hcovered]
  exact inv.notified hcopy hstamp hseq hfresh habove hothers (hat.trans hmerge) htook

theorem Server.Legal.channel {server : Server} (h : server.Legal) {k id : Nat} {row : Message}
    (hrow : server.rowAt k id = some row) (hydration : Hydration) :
    (hydration.fill row).channelId = server.channelId := by
  have hfill : (hydration.fill row).channelId = row.channelId :=
    (congrArg Message.channelId (hydration.versioned row) :)
  rw [hfill, (h.proper hrow).channel]

/-- What a partial event does to the replica: the row it is about is patched, or owed. -/
theorem converging_patch {server : Server} {log : ChannelLog} {told : Nat → Prop}
    {passes : List Pass} {seq id : Nat} {event : ServerEvent} {stored : Message}
    {patch patch' : Message → Message}
    (inv : Converging server.timeline server.seq told log.replica passes)
    (hbefore : server.rowAt (seq - 1) id = some stored) (hshown : isShown stored = true)
    (hat : server.rowAt seq id = some ((patch stored).withSeq seq))
    (hseq : seq ≤ server.seq) (habove : log.seq < seq) (hfresh : ¬ told seq)
    (hchannel : (changeOf event).channelId = log.channelId) (heventseq : (changeOf event).seq = seq)
    (happly : (changeOf event).apply log = patched log id seq patch')
    (hpatches : (changeOf event).patches = some id)
    (hid : ∀ row, (patch' row).id = row.id)
    (hpatch : ∀ a b : Message, a.versioned = b.versioned →
      ((patch a).withSeq seq).versioned = ((patch' b).withSeq seq).versioned)
    (hkeeps : ∀ row', (changeOf event).apply log = withArrivals log [row'] fromEvent →
      log.rows.has row'.id = true →
      ∀ id, log.rows.has id = true ∨ id = row'.id →
        (withArrivals log [row'] fromEvent).rows.has id = true) :
    Converging server.timeline server.seq (fun v => told v ∨ v = seq)
      (withEvent log event).replica passes := by
  cases hheld : log.rows.get? id with
  | none =>
    have hskip : (changeOf event).apply log = log := by rw [happly, patched, hheld]
    rw [replica_withEvent hchannel (fun _ => heventseq.symm ▸ habove), hskip, heventseq, hpatches,
      Option.all_some, Keyed.has, hheld]
    exact (inv.skipped seq).weaken (fun _ => .inl) fun _ hp => hp
  | some held =>
    have hheldid : held.id = id := Keyed.key_of_get? hheld
    have hrowid : ((patch' held).withSeq seq).id = id := (hid held).trans hheldid
    have hhas : log.rows.has id = true := Keyed.has_eq_true.mpr ⟨held, hheld⟩
    have harrive : (changeOf event).apply log =
        withArrivals log [(patch' held).withSeq seq] fromEvent := by rw [happly, patched, hheld]
    refine converging_arrival inv (by rw [hrowid]; exact hat) rfl hseq habove hfresh hchannel
      heventseq harrive (by rw [hpatches, Option.all_some, hhas])
      (hkeeps _ harrive (by rw [hrowid, hhas])) rfl (fun hnone => ?_) fun held' hheld' hcurrent => ?_
    · rw [hrowid, hheld] at hnone
      cases hnone
    · rw [hrowid] at hheld' hcurrent
      obtain rfl := Option.some.inj (hheld.symm.trans hheld')
      obtain ⟨stored', hstored', hcopy⟩ := Server.timeline_eq_some.mp hcurrent
      obtain rfl := Option.some.inj (hbefore.symm.trans hstored')
      exact (@copy_of_patch _ _ hshown hcopy (fun a => (patch a).withSeq seq)
        (fun b => (patch' b).withSeq seq) hpatch).symm

/-- An event of what is known already is ignored. -/
theorem withEvent_ignored {log : ChannelLog} {event : ServerEvent}
    (hknown : log.knows (changeOf event).seq = true) : withEvent log event = log := by
  simp only [withEvent, hknown, if_true, ite_self]

/-- The event of a write is about the write's channel, at its seq. -/
theorem changeOf_eventOf {channelId : String} {seq : Nat} (write : Write) (fresh : Bool)
    {row : Message} (hseq : row.seq = seq) (hchannel : row.channelId = channelId) :
    (changeOf (eventOf channelId seq write fresh row)).seq = seq ∧
      (changeOf (eventOf channelId seq write fresh row)).channelId = channelId := by
  cases write with
  | whole => cases fresh <;> exact ⟨hseq, hchannel⟩
  | reactions | pinned | thread | deleted => exact ⟨rfl, rfl⟩

/-- **An event is a notification of its write.** -/
theorem converging_withEvent {server : Server} {log : ChannelLog} {told : Nat → Prop}
    {passes : List Pass} {seq : Nat} {hydration : Hydration} {event : ServerEvent}
    (inv : Converging server.timeline server.seq told log.replica passes)
    (hlegal : server.Legal) (hchannel : log.channelId = server.channelId)
    (hevent : server.event? seq hydration = some event) (hfresh : ¬ told seq)
    (hkeeps : log.knows seq = false → ∀ id, log.rows.has id = true ∨
      id ∈ event.brings.map Prod.fst → (withEvent log event).rows.has id = true) :
    Converging server.timeline server.seq (fun v => told v ∨ v = seq) (withEvent log event).replica
      passes := by
  obtain ⟨write, row, hseq, hpos, hwritten, hat, hmoment, fresh, rfl⟩ := event?_eq_some hevent
  have hlegalwrite : write.Legal server.channelId (rowsAt server.history (seq - 1)) := by
    have := LegalHistory.drop hlegal (server.history.length - seq)
    rw [← moment, hmoment] at this
    exact this.1
  have hversioned := hydration.versioned (row.withSeq seq)
  have hfilledchannel := hlegal.channel hat hydration
  generalize hydration.fill (row.withSeq seq) = filled at hversioned hfilledchannel hkeeps hevent ⊢
  have hfilledseq : filled.seq = seq := (congrArg Message.seq hversioned :)
  obtain ⟨heventseq, heventchannel⟩ := changeOf_eventOf write fresh hfilledseq hfilledchannel
  cases hknown : log.knows seq with
  | true =>
    rw [withEvent_ignored (heventseq.symm ▸ hknown)]
    exact inv.weaken (fun _ => .inl) fun _ hp => hp
  | false =>
  replace hkeeps := hkeeps hknown
  have habove : log.seq < seq := by
    cases hopened : hasPage log with
    | false =>
      have hzero : log.seq = 0 := inv.unopened hopened
      omega
    | true =>
      rw [ChannelLog.knows, hopened, Bool.true_and, decide_eq_false_iff_not] at hknown
      exact Nat.lt_of_not_le hknown
  have hchannel' := heventchannel.trans hchannel.symm
  have happlied : ∀ {row' : Message},
      (changeOf (eventOf server.channelId seq write fresh filled)).apply log =
        withArrivals log [row'] fromEvent →
      (log.rows.has row'.id = true ∨ row'.id ∈
        (eventOf server.channelId seq write fresh filled).brings.map Prod.fst) →
      ∀ id, log.rows.has id = true ∨ id = row'.id →
        (withArrivals log [row'] fromEvent).rows.has id = true := by
    intro row' happly hid id h
    have hrows : (withEvent log (eventOf server.channelId seq write fresh filled)).rows =
        (withArrivals log [row'] fromEvent).rows := by
      simp only [withEvent, hchannel', bne_self_eq_false, heventseq, hknown, Bool.false_eq_true,
        if_false, happly]
      split
      · rfl
      · split <;> rfl
    rw [← hrows]
    rcases h with h | rfl
    · exact hkeeps id (.inl h)
    · exact hkeeps _ hid
  cases write with
  | whole row' =>
    obtain rfl : row' = row := Option.some.inj hwritten
    have hfilledid : filled.id = row'.id := (congrArg Message.id hversioned :)
    have happly : (changeOf (eventOf server.channelId seq (.whole row') fresh filled)).apply log =
        withArrivals log [filled] fromEvent := by
      cases fresh <;> rfl
    have hcopy : filled.copy = (row'.withSeq seq).copy := copy_of_versioned hversioned
    refine converging_arrival inv (by rw [hfilledid]; exact hat) rfl hseq habove hfresh hchannel'
      heventseq happly (by cases fresh <;> rfl) (happlied happly (.inr ?_)) hfilledseq
      (fun _ => hcopy) fun _ _ _ => hcopy
    cases fresh <;> exact List.mem_singleton.mpr rfl
  | deleted id =>
    obtain ⟨held, hheld, rfl⟩ := Option.map_eq_some_iff.mp hwritten
    have hrowid : (tombstoneOf (log.rows.get? id)
        ⟨id, server.channelId, filled.threadRootId, seq⟩).id = id :=
      tombstoneOf_id fun held' hheld' => Keyed.key_of_get? hheld'
    exact @converging_arrival _ _ _ _ _ _ _ ((tombstoned held).withSeq seq) inv
      (by rw [hrowid]; exact hat) rfl hseq habove hfresh hchannel' heventseq rfl rfl
      (happlied rfl (.inr (List.mem_singleton.mpr hrowid))) rfl (fun _ => rfl) fun _ _ _ => rfl
  | reactions id list =>
    obtain ⟨held, hheld, rfl⟩ := Option.map_eq_some_iff.mp hwritten
    obtain ⟨held', hheld', hshown⟩ := hlegalwrite
    obtain rfl := Option.some.inj (hheld.symm.trans hheld')
    exact @converging_patch _ _ _ _ _ _ _ _ (fun row => { row with reactions := list })
      (fun row => { row with reactions := list }) inv hheld hshown hat hseq habove hfresh
      hchannel' heventseq rfl rfl (fun _ => rfl)
      (fun _ _ h => congrArg (fun v : Message => { v with reactions := list, seq := seq }) h)
      fun _ happly hid => happlied happly (.inl hid)
  | pinned id isPinned =>
    obtain ⟨held, hheld, rfl⟩ := Option.map_eq_some_iff.mp hwritten
    obtain ⟨held', hheld', hshown⟩ := hlegalwrite
    obtain rfl := Option.some.inj (hheld.symm.trans hheld')
    exact @converging_patch _ _ _ _ _ _ _ _ (fun row => { row with pinned := isPinned })
      (fun row => { row with pinned := isPinned }) inv hheld hshown hat hseq habove hfresh
      hchannel' heventseq rfl rfl (fun _ => rfl)
      (fun _ _ h => congrArg (fun v : Message => { v with pinned := isPinned, seq := seq }) h)
      fun _ happly hid => happlied happly (.inl hid)
  | thread id summary =>
    obtain ⟨held, hheld, rfl⟩ := Option.map_eq_some_iff.mp hwritten
    obtain ⟨held', hheld', hshown, -⟩ := hlegalwrite
    obtain rfl := Option.some.inj (hheld.symm.trans hheld')
    refine @converging_patch _ _ _ _ _ _ _ _ (fun row => { row with thread := summary })
      (fun row => { row with thread := withViewerHalf summary row.thread }) inv hheld
      hshown hat hseq habove hfresh hchannel' heventseq rfl rfl (fun _ => rfl) (fun a b h => ?_)
      fun _ happly hid => happlied happly (.inl hid)
    have := congrArg
      (fun v : Message => { v with thread := summary.map ThreadSummary.shared, seq := seq }) h
    simp only [Message.versioned, Message.withSeq, withViewerHalf_shared] at this ⊢
    exact this

end Stoop.Channel
