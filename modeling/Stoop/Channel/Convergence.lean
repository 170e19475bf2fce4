import Stoop.Channel.Notified
import Stoop.Channel.World

/-!
# Catching up brings the log to what the server wrote

Whatever events come, in whatever order, and whatever pages and passes are out, a log that owes no
catch-up holds every row as the server had it at the row's own seq, and as it has it now if nothing
above the position was written to it. That takes two things of the pages (`PageClear`): one does not
bring a row that was written after it was read, at or below the position, unless a newer copy is
held; and the first page, which sets the position, does not leave behind a row held from an event
that was written since, at or below the position. Without them a stale row lies under the position,
and the next partial event stamps it as if it were whole (`stale_open_goes_unnoticed`).
-/

set_option autoImplicit false

namespace Stoop.Channel

open Stoop.Lib

/-! ## What is asked of a run -/

/-- A page brings no row written since it was read, at or below the position, while no newer copy is
held; and the first page leaves behind no row written since, at or below the position it sets. -/
structure PageClear (w : World) (ask : Ask) (res : ListMessagesResponse) : Prop where
  brings : ∀ row ∈ res.messages, row.seq ≤ w.log.seq →
    (∃ stored ∈ w.server.rowAt w.log.seq row.id, stored.seq = row.seq) ∨
      ∃ held ∈ w.log.rows.get? row.id, row.seq < held.seq
  leaves : ask.isFirst w.log = true → ∀ held ∈ w.log.rows.values,
    (∀ row ∈ res.messages, row.id ≠ held.id) → held.seq ≤ res.channelSeq →
      ∃ stored ∈ w.server.rowAt res.channelSeq held.id, stored.copy = held.copy

/-- No row held or handed to the log is dropped: no prune, thread close or sweep takes one. -/
def Undropped (w : World) (a : Label) : Prop :=
  (∀ w' ∈ w.step a, (∀ row ∈ w.log.rows.values, w'.log.rows.has row.id = true) ∧
      ∀ copy ∈ w.brings a, w'.log.rows.has copy.1 = true) ∧
    match a with
    | .closeThread _ => False
    | .changes _ _ reading => reading.swept = []
    | _ => True

/-- Every page that is still what its view asked for is clear. -/
def PagesClear (w : World) (a : Label) : Prop :=
  match a with
  | .answer i reading => ∀ ask ∈ w.asks[i]?,
      ∀ res ∈ listMessages w.server ask.rootId ask.paging ask.limit reading,
        ask.stands w.log = true → PageClear w ask res
  | _ => True

/-- The runs that converge. -/
def Undisturbed (w : World) (a : Label) : Prop := Undropped w a ∧ PagesClear w a

instance (w : World) (ask : Ask) (res : ListMessagesResponse) : Decidable (PageClear w ask res) :=
  decidable_of_iff (_ ∧ _) ⟨fun ⟨hbrings, hleaves⟩ => ⟨hbrings, hleaves⟩,
    fun ⟨hbrings, hleaves⟩ => ⟨hbrings, hleaves⟩⟩

instance (w : World) (a : Label) : Decidable (Undropped w a) :=
  haveI : Decidable (match a with
      | .closeThread _ => False
      | .changes _ _ reading => reading.swept = []
      | _ => True) := by
    split <;> infer_instance
  inferInstanceAs (Decidable (_ ∧ _))

instance (w : World) (a : Label) : Decidable (PagesClear w a) := by
  unfold PagesClear
  split <;> infer_instance

instance (w : World) (a : Label) : Decidable (Undisturbed w a) :=
  inferInstanceAs (Decidable (_ ∧ _))

/-! ## The invariant -/

/-- The events a world's log has been told of, or never will be. -/
def World.Told (w : World) (seq : Nat) : Prop := seq ≤ w.server.seq ∧ seq ∉ w.flight

/-- What the undisturbed runs keep: the log is a replica that keeps its promise. -/
structure Convergent (w : World) : Prop where
  legal : w.server.Legal
  channel : w.log.channelId = w.server.channelId
  flight : w.flight.Nodup
  flight_le : ∀ seq ∈ w.flight, seq ≤ w.server.seq
  replica : Converging w.server.timeline w.server.seq w.Told w.log.replica w.passes

theorem convergent_empty (channelId : String) : Convergent (World.empty channelId) where
  legal := trivial
  channel := rfl
  flight := List.nodup_nil
  flight_le := fun _ h => absurd h List.not_mem_nil
  replica := .start _ _ _

/-- What is sent, asked or given up leaves the invariant. -/
theorem Convergent.of_same {w w' : World} (inv : Convergent w) (hserver : w'.server = w.server)
    (hlog : w'.log = w.log)
    (hflight : w'.flight.Sublist w.flight) (hpasses : ∀ p ∈ w'.passes, p ∈ w.passes) :
    Convergent w' where
  legal := hserver ▸ inv.legal
  channel := by rw [hserver, hlog, inv.channel]
  flight := inv.flight.sublist hflight
  flight_le seq h := hserver ▸ inv.flight_le seq (hflight.mem h)
  replica := by
    rw [hserver, hlog]
    refine inv.replica.weaken (fun seq h => ?_) hpasses
    exact ⟨by rw [hserver]; exact h.1, fun hmem => h.2 (hflight.mem hmem)⟩

/-- **A write committed keeps the invariant**: nothing it says is about a moment to come. -/
theorem Convergent.commit {w : World} {write : Write} (inv : Convergent w)
    (hlegal : write.Legal w.server.channelId (rowsAfter w.server.history)) :
    Convergent { w with
      server := { w.server with history := write :: w.server.history }
      flight := if w.socket then w.flight ++ [w.server.seq + 1] else w.flight
      missed := if w.socket then w.missed else w.missed ++ [w.server.seq + 1] } := by
  have hmem : ∀ seq, seq ∈ (if w.socket then w.flight ++ [w.server.seq + 1] else w.flight) →
      seq ∈ w.flight ∨ seq = w.server.seq + 1 := by
    intro seq hseq
    split at hseq
    · exact (List.mem_append.mp hseq).imp_right List.mem_singleton.mp
    · exact .inl hseq
  refine ⟨⟨hlegal, inv.legal⟩, inv.channel, ?_, ?_, ?_⟩
  · simp only
    split
    · refine inv.flight.append (List.nodup_singleton _) ?_
      rintro seq hseq hnew
      have := inv.flight_le seq hseq
      rw [List.mem_singleton.mp hnew] at this
      omega
    · exact inv.flight
  · intro seq hseq
    change seq ≤ w.server.seq + 1
    rcases hmem seq hseq with hold | rfl
    · exact Nat.le_succ_of_le (inv.flight_le seq hold)
    · exact Nat.le_refl _
  · refine (inv.replica.grow (Nat.le_succ _) fun k hk => ?_).weaken (fun seq htold => ?_)
      fun _ hp => hp
    · funext id
      exact congrArg (Option.map Message.copy) (Server.rowAt_commit hk)
    · refine ⟨Nat.le_succ_of_le htold.1, fun hin => ?_⟩
      rcases hmem seq hin with hold | rfl
      · exact htold.2 hold
      · exact absurd htold.1 (Nat.not_succ_le_self _)

/-! ## What a rule leaves of the log's name and rows -/

theorem channelId_withArrivals (log : ChannelLog) (incoming : List Message) (source : Source) :
    (withArrivals log incoming source).channelId = log.channelId :=
  (reshapes_withArrivals log incoming source).channelId

theorem channelId_withEvent (log : ChannelLog) (event : ServerEvent) :
    (withEvent log event).channelId = log.channelId := by
  have happly : ((changeOf event).apply log).channelId = log.channelId := by
    rcases changeOf_apply event log with h | ⟨row, h⟩
    · rw [h]
    · rw [h, channelId_withArrivals]
  simp only [withEvent]
  split
  · rfl
  · split
    · rfl
    · split
      · exact happly
      · split <;> exact happly

theorem channelId_withView (log : ChannelLog) (rootId : Option Nat) (view : View) :
    (withView log rootId view).channelId = log.channelId := by
  cases rootId <;> rfl

theorem channelId_opened (log : ChannelLog) (answer : PageAnswer) :
    (opened log answer).channelId = log.channelId := by
  simp only [opened]
  split
  · rfl
  · rw [(reshapes_stretched _ _).channelId, (floors_withFloor _ _).channelId, channelId_withView]
    split <;> rfl

theorem channelId_paged (log : ChannelLog) (direction : Direction) (answer : PageAnswer) :
    (paged log direction answer).channelId = log.channelId := by
  unfold paged
  split
  · rfl
  · split
    · rfl
    · rw [(reshapes_pruned _ _ _).channelId, (reshapes_stretched _ _).channelId,
        (floors_withFloor _ _).channelId, channelId_withView]

theorem channelId_refreshed (log : ChannelLog) (res : ListMessagesResponse) :
    (refreshed log res).channelId = log.channelId := by
  rw [refreshed, (floors_withFloor _ _).channelId, channelId_withArrivals]

theorem channelId_settle (ask : Ask) (log : ChannelLog) (res : ListMessagesResponse) :
    (ask.settle log res).channelId = log.channelId := by
  unfold Ask.settle
  split
  · exact channelId_opened _ _
  · exact channelId_opened _ _
  · exact channelId_opened _ _
  · exact channelId_paged _ _ _
  · exact channelId_refreshed _ _

theorem channelId_caughtUp (log : ChannelLog) (res : ListChangesResponse) :
    (caughtUp log res).channelId = log.channelId := by
  have h : (withFloor (withArrivals log res.messages fromPage) res.retentionFloorId).channelId =
      log.channelId := by
    rw [(floors_withFloor _ _).channelId, channelId_withArrivals]
  simp only [caughtUp]
  split <;> exact h

/-- An answer that no longer stands is dropped. -/
theorem settle_stale {ask : Ask} {log : ChannelLog} {res : ListMessagesResponse}
    (h : ask.stands log = false) : ask.settle log res = log := by
  unfold Ask.stands at h
  unfold Ask.settle
  cases huse : ask.use with
  | opened =>
    rw [huse] at h
    exact opened_stale (by simpa using h)
  | jumped atRoot =>
    rw [huse] at h
    cases atRoot
    · exact opened_stale (by simpa using h)
    · exact opened_stale (by simpa using h)
  | paged direction =>
    rw [huse] at h
    refine paged_stale fun view hview hgen => ?_
    have hview : viewOf log ask.rootId = some view := hview
    have hgen : view.generation = ask.generation := hgen
    simp [hview, hgen] at h
  | refreshed =>
    rw [huse] at h
    cases h

/-- **An answer that stands and drops nothing is a snapshot that arrives**, and the first sets the
position. -/
theorem replica_settle {ask : Ask} {log : ChannelLog} {res : ListMessagesResponse}
    (h : ask.stands log = true) (hnodup : (res.messages.map (·.id)).Nodup)
    (hkeeps : KeepsAll (mergeRows log.rows res.messages fromPage) (ask.settle log res)) :
    (ask.settle log res).replica =
      if ask.isFirst log then
        { (log.replica.arrive (copiesOf res.messages)).position res.channelSeq with opened := true }
      else log.replica.arrive (copiesOf res.messages) := by
  have hopened : ∀ answer : PageAnswer, answer.rootId = ask.rootId →
      answer.generation = ask.generation → answer.res.messages = res.messages →
      answer.res.channelSeq = res.channelSeq →
      ((viewOf log ask.rootId).getD emptyView).generation = ask.generation →
      KeepsAll (mergeRows log.rows res.messages fromPage) (opened log answer) →
      (opened log answer).replica =
        if !hasPage log then
          { (log.replica.arrive (copiesOf res.messages)).position res.channelSeq with opened := true }
        else log.replica.arrive (copiesOf res.messages) := by
    intro answer hroot hgen hmessages hseq hstands hkeeps
    rw [replica_opened (by rw [hroot, hgen, hstands]) (by rw [hmessages]; exact hnodup)
      (by rw [hmessages]; exact hkeeps), hmessages, hseq]
    cases hasPage log <;> rfl
  unfold Ask.stands at h
  unfold Ask.settle at hkeeps ⊢
  unfold Ask.isFirst
  cases huse : ask.use with
  | opened =>
    rw [huse] at h hkeeps
    rw [Bool.and_true]
    exact hopened _ rfl rfl rfl rfl (eq_of_beq h) hkeeps
  | jumped atRoot =>
    rw [huse] at h hkeeps
    rw [Bool.and_true]
    cases atRoot
    · exact hopened _ rfl rfl rfl rfl (eq_of_beq h) hkeeps
    · exact hopened _ rfl rfl rfl rfl (eq_of_beq h) hkeeps
  | paged direction =>
    rw [huse] at h hkeeps
    rw [Bool.and_false, if_neg Bool.false_ne_true]
    cases hview : viewOf log ask.rootId with
    | none =>
      rw [hview] at h
      cases h
    | some view =>
      rw [hview] at h
      exact replica_paged hview (eq_of_beq h) hnodup hkeeps
  | refreshed =>
    rw [huse] at hkeeps
    rw [Bool.and_false, if_neg Bool.false_ne_true]
    exact replica_refreshed hnodup hkeeps

/-! ## The steps that hand the log something -/

/-- A log that keeps what was held, and what it was handed, keeps what the merge of the two leaves. -/
theorem keepsAll_of_undropped {w : World} {log : ChannelLog} {rows : List Message} {source : Source}
    (hold : ∀ row ∈ w.log.rows.values, log.rows.has row.id = true)
    (hbrought : ∀ copy ∈ rows.map (·.stamp), log.rows.has copy.1 = true) :
    KeepsAll (mergeRows w.log.rows rows source) log := by
  intro id hid
  rcases has_mergeRows hid with hheld | ⟨row, hrow, rfl⟩
  · obtain ⟨held, hheld⟩ := Keyed.has_eq_true.mp hheld
    have hid : held.id = id := Keyed.key_of_get? hheld
    rw [← hid]
    exact hold held (Keyed.mem_values.mpr (by rw [hid]; exact hheld))
  · exact hbrought row.stamp (List.mem_map.mpr ⟨row, hrow, rfl⟩)

/-- **An event keeps the invariant.** -/
theorem Convergent.deliver {w : World} {seq : Nat} {hydration : Hydration} {event : ServerEvent}
    (inv : Convergent w) (hflight : seq ∈ w.flight)
    (hevent : w.server.event? seq hydration = some event)
    (hold : ∀ row ∈ w.log.rows.values, (withEvent w.log event).rows.has row.id = true)
    (hbrought : ∀ copy ∈ w.brings (.deliver seq hydration),
      (withEvent w.log event).rows.has copy.1 = true) :
    Convergent { w.handed (withEvent w.log event) with flight := w.flight.erase seq } := by
  have hconverging := @converging_withEvent _ _ w.Told _ _ _ _ inv.replica inv.legal inv.channel
    hevent (fun htold => htold.2 hflight) fun hknown id hid => by
      rcases hid with hheld | hid
      · obtain ⟨held, hheld⟩ := Keyed.has_eq_true.mp hheld
        have hid : held.id = id := Keyed.key_of_get? hheld
        rw [← hid]
        exact hold held (Keyed.mem_values.mpr (by rw [hid]; exact hheld))
      · obtain ⟨copy, hcopy, rfl⟩ := List.mem_map.mp hid
        refine hbrought copy ?_
        rw [World.brings, hknown, hevent]
        exact hcopy
  refine ⟨inv.legal, (channelId_withEvent _ _).trans inv.channel, inv.flight.erase seq,
    fun s hs => inv.flight_le s (List.mem_of_mem_erase hs),
    hconverging.weaken (fun s hs => ?_) fun _ hp => hp⟩
  rcases hs with ⟨hle, hnot⟩ | rfl
  · exact ⟨hle, fun hin => hnot (List.mem_of_mem_erase hin)⟩
  · exact ⟨inv.flight_le s hflight, fun hin => (inv.flight.mem_erase_iff.mp hin).1 rfl⟩

/-- What a clear page asks of the replica. -/
theorem PageClear.clear {w : World} {ask : Ask} {res : ListMessagesResponse} {lo hi : Nat}
    (h : PageClear w ask res) (hread : w.server.Read lo hi res.messages) :
    w.log.replica.Clear w.server.timeline (copiesOf res.messages) := by
  intro id x hx hle
  obtain ⟨row, hrow, rfl, rfl⟩ := (copiesOf_eq_some hread.nodup).mp hx
  rcases h.brings row hrow hle with ⟨stored, hstored, hseq⟩ | ⟨held, hheld, hlt⟩
  · obtain ⟨k, -, -, hhad⟩ := hread.had row hrow
    have hcopy := hhad.copy
    have hright := w.server.timeline.steady hcopy (Nat.le_refl _)
      (w.server.timeline.seq_le hcopy)
    have hstored' : w.server.rowAt row.seq row.id = some stored :=
      Server.rowAt_steady hstored (Nat.le_of_eq hseq) hle
    obtain ⟨stored', hat, hsame⟩ := Server.timeline_eq_some.mp hright
    obtain rfl := Option.some.inj (hstored'.symm.trans hat)
    exact .inl (Server.timeline_eq_some.mpr ⟨stored, hstored, hsame⟩)
  · exact .inr ⟨held.copy, congrArg (Option.map Message.copy) hheld, hlt⟩

/-- **A page keeps the invariant**, if it is clear. -/
theorem Convergent.answer {w : World} {i : Nat} {reading : Reading} {ask : Ask}
    {res : ListMessagesResponse} (inv : Convergent w) (hask : w.asks[i]? = some ask)
    (hbetween : reading.Between ask.asked w.server.seq)
    (hres : listMessages w.server ask.rootId ask.paging ask.limit reading = some res)
    (hold : ∀ row ∈ w.log.rows.values, (ask.settle w.log res).rows.has row.id = true)
    (hbrought : ∀ copy ∈ w.brings (.answer i reading),
      (ask.settle w.log res).rows.has copy.1 = true)
    (hclear : ask.stands w.log = true → PageClear w ask res) :
    Convergent { w.handed (ask.settle w.log res) with asks := w.asks.eraseIdx i } := by
  obtain ⟨hseq, hread⟩ := listMessages_read hbetween hres
  refine ⟨inv.legal, (channelId_settle _ _ _).trans inv.channel, inv.flight, inv.flight_le, ?_⟩
  change Converging w.server.timeline w.server.seq w.Told (ask.settle w.log res).replica w.passes
  cases hstands : ask.stands w.log with
  | false =>
    rw [settle_stale hstands]
    exact inv.replica
  | true =>
    have hpage := hclear hstands
    have hkeeps : KeepsAll (mergeRows w.log.rows res.messages fromPage)
        (ask.settle w.log res) := by
      refine keepsAll_of_undropped hold ?_
      simpa only [World.brings, hask, hstands, if_true, hres, Option.map_some, Option.getD_some]
        using hbrought
    rw [replica_settle hstands hread.nodup hkeeps]
    split
    next hfirst =>
      obtain ⟨hopened, -⟩ := Bool.and_eq_true_iff.mp hfirst
      have hopened : w.log.replica.opened = false := Bool.not_eq_true' _ ▸ hopened
      -- before the first page no pass can have started
      have hpasses : w.passes = [] := List.eq_nil_iff_forall_not_mem.mpr fun p hp => by
        have := (inv.replica.covers p hp).opened
        rw [hopened] at this
        cases this
      rw [hpasses]
      have hle : res.channelSeq ≤ w.server.seq := by
        obtain ⟨-, h₁, h₂, h₃⟩ := hbetween
        omega
      refine (hpasses ▸ inv.replica :).first hopened hread.copies (Nat.le_refl _)
        (Nat.le_of_eq hseq) hle fun id c hc hnone hcle => ?_
      obtain ⟨held, hheld, rfl⟩ := Option.map_eq_some_iff.mp hc
      have hid : held.id = id := Keyed.key_of_get? hheld
      subst hid
      obtain ⟨stored, hstored, hsame⟩ := hpage.leaves hfirst held (Keyed.mem_values.mpr hheld)
        (fun row hrow hid => by
          have := (copiesOf_eq_some hread.nodup).mpr ⟨row, hrow, hid, rfl⟩
          rw [hnone] at this
          cases this) hcle
      exact Server.timeline_eq_some.mpr ⟨stored, hstored, hsame⟩
    next => exact inv.replica.arrive hread.copies (Nat.le_refl _) (hpage.clear hread)

/-- **A page of changes keeps the invariant.** -/
theorem Convergent.changes {w : World} {i limit : Nat} {reading : Reading} {pass : Pass}
    {res : ListChangesResponse} (inv : Convergent w) (hpass : w.passes[i]? = some pass)
    (hbetween : reading.Between pass.asked w.server.seq)
    (hres : listChanges w.server pass.since limit reading = res) (hswept : reading.swept = [])
    (hold : ∀ row ∈ w.log.rows.values, (caughtUp w.log res).rows.has row.id = true)
    (hbrought : ∀ copy ∈ w.brings (.changes i limit reading),
      (caughtUp w.log res).rows.has copy.1 = true) :
    Convergent { w.handed (caughtUp w.log res) with
      passes :=
        if res.hasMore then
          w.passes.set i { pass with since := nextSince pass.since res, asked := w.server.seq }
        else w.passes.eraseIdx i } := by
  have hp : pass ∈ w.passes := List.mem_of_getElem? hpass
  obtain ⟨hasked, hseq, hafter, hnow⟩ := hbetween
  obtain ⟨hread, habove⟩ := @listChanges_read w.server pass.since limit reading
  have hsince : pass.since ≤ reading.rowsAt := by
    have := (inv.replica.covers pass hp).since_asked
    omega
  obtain ⟨hreach, hreachle⟩ := @reach_bounds w.server _ limit _ hsince
  have hcopies := hread.copies
  have htop : (listChanges w.server pass.since limit reading).top ≤ reading.rowsAt :=
    top_le (by omega)
  have hbrings : ∀ id c, w.server.timeline.copy reading.rowsAt id = some c → pass.since < c.seq →
      c.seq ≤ reach pass.since (listChanges w.server pass.since limit reading) reading →
      copiesOf (listChanges w.server pass.since limit reading).messages id = some c := by
    intro id c hc hlt hle
    obtain ⟨stored, hstored, rfl⟩ := Server.timeline_eq_some.mp hc
    have hid : stored.id = id := Keyed.key_of_get? hstored
    refine (copiesOf_eq_some hread.nodup).mpr
      ⟨reading.hydration.fill stored, listChanges_brings hswept hstored hlt hle, ?_, ?_⟩
    · rw [Hydration.fill_id, hid]
    · exact copy_of_versioned (reading.hydration.versioned stored)
  have hkeeps : KeepsAll (mergeRows w.log.rows res.messages fromPage) (caughtUp w.log res) := by
    refine keepsAll_of_undropped hold ?_
    simpa only [World.brings, hpass, hres] using hbrought
  rw [hres] at hread habove hreach hreachle hcopies htop hbrings
  have habove' : ∀ id x, copiesOf res.messages id = some x → pass.since < x.seq := by
    intro id x hx
    obtain ⟨row, hrow, -, rfl⟩ := (copiesOf_eq_some hread.nodup).mp hx
    exact (habove row hrow).1
  refine ⟨inv.legal, (channelId_caughtUp _ _).trans inv.channel, inv.flight, inv.flight_le, ?_⟩
  change Converging w.server.timeline w.server.seq w.Told (caughtUp w.log res).replica _
  rw [replica_caughtUp hread.nodup hkeeps]
  cases hmore : res.hasMore with
  | true =>
    rw [if_pos rfl, if_pos rfl]
    rw [reach, if_pos hmore] at hreach hreachle hbrings
    refine inv.replica.passed hp hcopies (by omega) (by omega) hreach hreachle habove' hbrings ?_
    intro q hq
    exact (List.mem_or_eq_of_mem_set hq).imp_right fun h => h
  | false =>
    rw [if_neg Bool.false_ne_true, if_neg Bool.false_ne_true]
    rw [reach, if_neg (by rw [hmore]; exact Bool.false_ne_true)] at hbrings
    refine inv.replica.settled hp hcopies (by omega) (by omega) htop habove' ?_
      fun q hq => List.mem_of_mem_eraseIdx hq
    exact fun id c hc hlt => hbrings id c hc hlt (w.server.timeline.seq_le hc)

/-! ## Every run -/

/-- **One step.** -/
theorem Convergent.step {w w' : World} {a : Label} (inv : Convergent w) (hok : Undisturbed w a)
    (h : w.step a = some w') : Convergent w' := by
  obtain ⟨⟨hkept, hquiet⟩, hclear⟩ := hok
  obtain ⟨hold, hbrought⟩ := hkept w' h
  cases stepped h with
  | commit hlegal => exact inv.commit hlegal
  | drop | request => exact inv.of_same rfl rfl (.refl _) fun _ hp => hp
  | ready => exact ⟨inv.legal, inv.channel, inv.flight, inv.flight_le, inv.replica.owe⟩
  | lose => exact inv.of_same rfl rfl List.erase_sublist fun _ hp => hp
  | deliver hflight hevent => exact inv.deliver hflight hevent hold hbrought
  | answer hask hbetween hres =>
    exact inv.answer hask hbetween hres hold hbrought (hclear _ hask _ hres)
  | fail => exact inv.of_same rfl rfl (.refl _) fun _ hp => hp
  | catchUp hopened =>
    exact ⟨inv.legal, inv.channel, inv.flight, inv.flight_le, inv.replica.begin hopened⟩
  | changes hpass hbetween hres =>
    exact inv.changes hpass hbetween hres hquiet hold hbrought
  | giveUp => exact inv.of_same rfl rfl (.refl _) fun _ hp => List.mem_of_mem_eraseIdx hp
  | closeThread => exact hquiet.elim

/-- **Every undisturbed run.** -/
theorem Convergent.run {channelId : String} {w : World}
    (h : Runs World.step Undisturbed (World.empty channelId) w) : Convergent w :=
  h.keeps (convergent_empty channelId) fun _ _ _ inv hok hstep => inv.step hok hstep

/-- **Catching up converges.** On every undisturbed run, a log that has had a page and owes no
catch-up holds each row with what the server wrote at the row's own seq; and one at or below the
position, as the server has it there. -/
theorem caught_up_rows_right {channelId : String} {w : World}
    (h : Runs World.step Undisturbed (World.empty channelId) w) (hpage : hasPage w.log = true)
    (howed : w.log.needsCatchUp = false) {id : Nat} {held : Message}
    (hheld : w.log.rows.get? id = some held) :
    (∃ stored, w.server.rowAt held.seq id = some stored ∧ stored.seq = held.seq ∧
        stored.shown = held.shown) ∧
      (held.seq ≤ w.log.seq → ∃ stored, w.server.rowAt w.log.seq id = some stored ∧
        stored.seq = held.seq ∧ stored.shown = held.shown) := by
  have inv := (Convergent.run h).replica
  have hcopy : w.log.replica.held id = some held.copy := congrArg (Option.map Message.copy) hheld
  have hfields : ∀ {k}, w.server.timeline.copy k id = some held.copy →
      ∃ stored, w.server.rowAt k id = some stored ∧ stored.seq = held.seq ∧
        stored.shown = held.shown := by
    intro k hk
    obtain ⟨stored, hstored, heq⟩ := Server.timeline_eq_some.mp hk
    exact ⟨stored, hstored, congrArg Copy.seq heq, congrArg Copy.content heq⟩
  exact ⟨hfields (inv.right hpage howed hcopy), fun hle => hfields (inv.current hcopy hle)⟩

/-! ## Two runs -/

/-- A row of the channel the runs are about. -/
def sent (id : Nat) (content : String) : Message :=
  { id := id, channelId := "c1", content := content, inChannel := true, author := some "them" }

/-- An answer read at one moment, with nothing swept. -/
def readAt (k : Nat) : Reading :=
  { seqAt := k, rowsAt := k, afterAt := k, swept := [], floorId := none, hydration := .none }

/-- A message opened on a first page, edited, and reacted to: the reaction comes before the edit, and
a catch-up follows. -/
def gapCaughtUp : List Label :=
  [.commit (.whole (sent 1 "tpyo")), .openView none, .answer 0 (readAt 1),
    .commit (.whole (sent 1 "typo")), .commit (.reactions 1 [⟨"👍", ["me"]⟩]),
    .deliver 3 .none, .catchUp, .changes 0 200 (readAt 3)]

def gapCaughtUpWorld : World :=
  (runList World.step (World.empty "c1") gapCaughtUp).getD (World.empty "c1")

/-- After the catch-up the row reads as the server has it, edit and reaction. -/
theorem gap_caught_up :
    (gapCaughtUpWorld.log.rows.get? 1).map (·.content) = some "typo" ∧
      ∃ held, gapCaughtUpWorld.log.rows.get? 1 = some held ∧
        ∃ stored, gapCaughtUpWorld.server.rowAt held.seq 1 = some stored ∧
          stored.seq = held.seq ∧ stored.shown = held.shown := by
  refine ⟨by decide, _, rfl, ?_⟩
  exact (@caught_up_rows_right "c1" gapCaughtUpWorld
    (Runs.ofList gapCaughtUp (by decide) rfl) (by decide) (by decide) 1 _ rfl).1

/-- A channel and one of its threads are opened together. The thread's page is read, its reply is
edited, and the channel's page, read after the edit, answers first: the position passes over the
edit, and the thread's page brings the reply as it was. -/
def staleOpen : List Label :=
  [.commit (.whole (sent 1 "root")),
    .commit (.whole { sent 2 "tpyo" with threadRootId := some 1, inChannel := false }),
    .commit (.thread 1 (some { replyCount := 1 })),
    .openView none, .openView (some 1),
    .commit (.whole { sent 2 "typo" with threadRootId := some 1, inChannel := false }),
    .answer 0 (readAt 4), .answer 0 (readAt 3), .deliver 4 .none,
    .commit (.reactions 2 [⟨"👍", ["me"]⟩]), .deliver 5 .none]

def staleOpenWorld : World :=
  (runList World.step (World.empty "c1") staleOpen).getD (World.empty "c1")

/-- **A stale page under the position goes unnoticed.** The reaction that follows stamps the reply at
its own seq, without the edit, and nothing is owed. -/
theorem stale_open_goes_unnoticed :
    ¬ ∀ channelId w, Runs World.step Undropped (World.empty channelId) w → hasPage w.log = true →
      w.log.needsCatchUp = false → ∀ id held, w.log.rows.get? id = some held →
        ∃ stored, w.server.rowAt held.seq id = some stored ∧ stored.shown = held.shown := by
  intro claim
  have hwrong : ∀ held ∈ staleOpenWorld.log.rows.get? 2,
      ¬ ∃ stored ∈ staleOpenWorld.server.rowAt held.seq 2, stored.shown = held.shown := by decide
  obtain ⟨held, hheld⟩ : ∃ held, staleOpenWorld.log.rows.get? 2 = some held := ⟨_, rfl⟩
  exact hwrong held hheld (claim "c1" staleOpenWorld (Runs.ofList staleOpen (by decide) rfl)
    (by decide) (by decide) 2 held hheld)

end Stoop.Channel
