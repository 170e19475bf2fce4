import Stoop.Channel.Answers

/-!
# The log as a replica

Less its ranges, a channel's log is a replica of the server's rows (`ChannelLog.replica`), and where a
rule drops nothing it is one of the replica's moves: a page is a snapshot that arrives, the first one
sets the position, an event is a notification, and the last page of changes settles a pass.
-/

set_option autoImplicit false

namespace Stoop.Channel

open Stoop.Lib

/-- A channel's log, less its ranges. -/
def ChannelLog.replica (log : ChannelLog) : Replica Nat (Option Message) :=
  { held := log.copies, seq := log.seq, seenSeq := log.seenSeq, owed := log.needsCatchUp
    opened := hasPage log }

/-- A rule's log drops none of the rows. -/
def KeepsAll (rows : Rows) (log : ChannelLog) : Prop :=
  ∀ id, rows.has id = true → log.rows.has id = true

/-- Rows thinned out and none dropped hold the same copies. -/
theorem copies_of_thins {rows : Rows} {log : ChannelLog} (h : Thins rows log.rows)
    (hkeeps : KeepsAll rows log) : log.copies = fun id => (rows.get? id).map Message.copy := by
  funext id
  cases hc : log.copies id with
  | some c => exact (h.copy hc).symm
  | none =>
    cases hrow : rows.get? id with
    | none => rfl
    | some row =>
      have hheld := hkeeps id (by rw [Keyed.has, hrow, Option.isSome_some])
      rw [Keyed.has, Option.isSome_iff_exists] at hheld
      obtain ⟨held, hheld⟩ := hheld
      rw [ChannelLog.copies, hheld] at hc
      cases hc

theorem copies_of_merge {log log' : ChannelLog} {incoming : List Message} {source : Source}
    (hnodup : (incoming.map (·.id)).Nodup)
    (h : Thins (mergeRows log.rows incoming source) log'.rows)
    (hkeeps : KeepsAll (mergeRows log.rows incoming source) log') :
    log'.copies = fun id => merge source.fromServer (log.copies id) (copiesOf incoming id) := by
  rw [copies_of_thins h hkeeps]
  exact funext (copies_mergeRows hnodup)

/-- What a merge leaves is what was there and what arrived. -/
theorem has_mergeRows {rows : Rows} {incoming : List Message} {source : Source} {id : Nat}
    (h : (mergeRows rows incoming source).has id = true) :
    rows.has id = true ∨ ∃ row ∈ incoming, row.id = id := by
  by_cases hin : ∃ row ∈ incoming, row.id = id ∧ takes rows source row = true
  · obtain ⟨row, hrow, hid, -⟩ := hin
    exact .inr ⟨row, hrow, hid⟩
  · refine .inl ?_
    rwa [Keyed.has, get?_mergeRows_of_not] at h
    intro row hrow hid
    exact Bool.eq_false_iff.mpr fun ht => hin ⟨row, hrow, hid, ht⟩

/-! ## Arrivals -/

/-- **An arrival that drops nothing is a merge.** -/
theorem replica_withArrivals {log : ChannelLog} {incoming : List Message} {source : Source}
    (hnodup : (incoming.map (·.id)).Nodup)
    (hkeeps : KeepsAll (mergeRows log.rows incoming source) (withArrivals log incoming source)) :
    (withArrivals log incoming source).replica =
      { log.replica with
        held := fun id => merge source.fromServer (log.copies id) (copiesOf incoming id) } := by
  have h := reshapes_withArrivals log incoming source
  simp only [ChannelLog.replica, Replica.mk.injEq]
  refine ⟨copies_of_merge hnodup h.rows hkeeps, h.seq, h.seenSeq, h.needsCatchUp, ?_⟩
  rw [h.hasPage]
  rfl

/-- A floor that drops nothing changes nothing but itself. -/
theorem replica_withFloor {log : ChannelLog} {floorId : Option Nat}
    (hkeeps : KeepsAll log.rows (withFloor log floorId)) :
    (withFloor log floorId).replica = log.replica := by
  have h := floors_withFloor log floorId
  simp only [ChannelLog.replica, Replica.mk.injEq]
  exact ⟨copies_of_thins h.thins hkeeps, h.seq, h.seenSeq, h.needsCatchUp,
    hasPage_of_generations (h.generations hkeeps)⟩

theorem KeepsAll.mid {rows : Rows} {mid log : ChannelLog} (h : KeepsAll rows log)
    (hthins : Thins mid.rows log.rows) : KeepsAll rows mid := by
  intro id hid
  obtain ⟨row, hrow⟩ := Keyed.has_eq_true.mp (h id hid)
  obtain ⟨row', hrow', -⟩ := hthins id row hrow
  exact Keyed.has_eq_true.mpr ⟨row', hrow'⟩

theorem KeepsAll.later {rows rows' : Rows} {log : ChannelLog} (h : KeepsAll rows log)
    (hthins : Thins rows rows') : KeepsAll rows' log := by
  intro id hid
  obtain ⟨row, hrow⟩ := Keyed.has_eq_true.mp hid
  obtain ⟨row', hrow', -⟩ := hthins id row hrow
  exact h id (Keyed.has_eq_true.mpr ⟨row', hrow'⟩)

/-- **A refreshed page that drops nothing is a snapshot that arrives.** -/
theorem replica_refreshed {log : ChannelLog} {res : ListMessagesResponse}
    (hnodup : (res.messages.map (·.id)).Nodup)
    (hkeeps : KeepsAll (mergeRows log.rows res.messages fromPage) (refreshed log res)) :
    (refreshed log res).replica = log.replica.arrive (copiesOf res.messages) := by
  have hfloors := floors_withFloor (withArrivals log res.messages fromPage) res.retentionFloorId
  have harrivals := hkeeps.mid hfloors.thins
  rw [refreshed, replica_withFloor (hkeeps.later (reshapes_withArrivals ..).rows),
    replica_withArrivals hnodup harrivals]
  rfl

/-! ## Pages -/

theorem thins_opened {log : ChannelLog} {answer : PageAnswer} {view : View}
    (hview : (viewOf log answer.rootId).getD emptyView = view)
    (hgen : view.generation = answer.generation) :
    Thins (mergeRows log.rows answer.res.messages fromPage) (opened log answer).rows := by
  simp only [opened, hview, hgen, bne_self_eq_false, Bool.false_eq_true, if_false]
  refine .trans ?_ ((floors_withFloor _ _).thins.trans (reshapes_stretched _ _).rows)
  rw [rows_withView]
  split <;> exact .refl _

/-- A page under a generation that has passed is dropped. -/
theorem opened_stale {log : ChannelLog} {answer : PageAnswer}
    (hgen : ((viewOf log answer.rootId).getD emptyView).generation ≠ answer.generation) :
    opened log answer = log := by
  simp only [opened, bne_iff_ne.mpr hgen, if_true]

/-- **A page that opens a view and drops nothing is a snapshot that arrives**, and the first sets the
position. -/
theorem replica_opened {log : ChannelLog} {answer : PageAnswer}
    (hgen : ((viewOf log answer.rootId).getD emptyView).generation = answer.generation)
    (hnodup : (answer.res.messages.map (·.id)).Nodup)
    (hkeeps : KeepsAll (mergeRows log.rows answer.res.messages fromPage) (opened log answer)) :
    (opened log answer).replica =
      if hasPage log then log.replica.arrive (copiesOf answer.res.messages)
      else { (log.replica.arrive (copiesOf answer.res.messages)).position answer.res.channelSeq with
        opened := true } := by
  have hthins := thins_opened rfl hgen
  simp only [opened, hgen, bne_self_eq_false, Bool.false_eq_true, if_false] at hkeeps hthins ⊢
  generalize hreplaced : ({ oldestId := _, newestId := _, hasOlder := _, hasNewer := _
                            pendingNewer := _, generation := _ } : View) = replaced at hkeeps hthins ⊢
  have hpos : 0 < replaced.generation := by
    rw [← hreplaced]
    exact Nat.succ_pos _
  generalize hbase : withView (if hasPage log = true then
      { log with rows := mergeRows log.rows answer.res.messages fromPage }
    else positioned { log with rows := mergeRows log.rows answer.res.messages fromPage }
      answer.res.channelSeq) answer.rootId replaced = base at hkeeps hthins ⊢
  have hfloors := floors_withFloor base answer.res.retentionFloorId
  have hstretch := reshapes_stretched (withFloor base answer.res.retentionFloorId) answer.rootId
  have hcopies := copies_of_merge hnodup hthins hkeeps
  have hbaserows : base.rows = mergeRows log.rows answer.res.messages fromPage := by
    rw [← hbase, rows_withView]
    split <;> rfl
  have hkept : KeepsAll base.rows (withFloor base answer.res.retentionFloorId) := by
    rw [hbaserows]
    exact hkeeps.mid hstretch.rows
  have hopened : hasPage (stretched (withFloor base answer.res.retentionFloorId) answer.rootId) =
      true := by
    rw [hstretch.hasPage, hasPage_of_generations (hfloors.generations hkept), hasPage_iff]
    refine ⟨answer.rootId, replaced.generation, ?_, hpos⟩
    rw [generations, ← hbase, viewOf_withView, if_pos rfl, Option.map_some]
  have hreplica : (stretched (withFloor base answer.res.retentionFloorId) answer.rootId).replica =
      ⟨fun id => merge true (log.copies id) (copiesOf answer.res.messages id), base.seq, base.seenSeq,
        base.needsCatchUp, true⟩ := by
    simp only [ChannelLog.replica, Replica.mk.injEq]
    exact ⟨hcopies, hstretch.seq.trans hfloors.seq, hstretch.seenSeq.trans hfloors.seenSeq,
      hstretch.needsCatchUp.trans hfloors.needsCatchUp, hopened⟩
  rw [hreplica, ← hbase]
  cases hpage : hasPage log with
  | true =>
    simp only [if_true, Replica.arrive, ChannelLog.replica, hpage]
    cases answer.rootId <;> rfl
  | false =>
    simp only [Bool.false_eq_true, if_false, Replica.arrive, Replica.position, ChannelLog.replica]
    cases answer.rootId <;> rfl

/-- A page beyond an edge under a generation that has passed, or for a view that is gone, is
dropped. -/
theorem paged_stale {log : ChannelLog} {direction : Direction} {answer : PageAnswer}
    (h : ∀ view, viewOf log answer.rootId = some view → view.generation ≠ answer.generation) :
    paged log direction answer = log := by
  unfold paged
  split
  next => rfl
  next view hview => rw [if_pos (bne_iff_ne.mpr (h view hview))]

/-- What a page beyond an edge does after its merge. -/
theorem thins_paged {log : ChannelLog} {direction : Direction} {answer : PageAnswer} {view : View}
    (hview : viewOf log answer.rootId = some view) (hgen : view.generation = answer.generation) :
    Thins (mergeRows log.rows answer.res.messages fromPage) (paged log direction answer).rows := by
  simp only [paged, hview, hgen, bne_self_eq_false, Bool.false_eq_true, if_false]
  refine .trans ?_ ((floors_withFloor _ _).thins.trans
    ((reshapes_stretched _ _).rows.trans (reshapes_pruned _ _ _).rows))
  rw [rows_withView]
  exact .refl _

/-- **A page beyond an edge that drops nothing is a snapshot that arrives.** -/
theorem replica_paged {log : ChannelLog} {direction : Direction} {answer : PageAnswer} {view : View}
    (hview : viewOf log answer.rootId = some view) (hgen : view.generation = answer.generation)
    (hnodup : (answer.res.messages.map (·.id)).Nodup)
    (hkeeps : KeepsAll (mergeRows log.rows answer.res.messages fromPage)
      (paged log direction answer)) :
    (paged log direction answer).replica = log.replica.arrive (copiesOf answer.res.messages) := by
  have hthins := @thins_paged _ direction _ _ hview hgen
  have hcopies := copies_of_merge hnodup hthins hkeeps
  simp only [paged, hview, hgen, bne_self_eq_false, Bool.false_eq_true, if_false] at hkeeps hcopies ⊢
  generalize hmerged : ({ log with
    rows := mergeRows log.rows answer.res.messages fromPage } : ChannelLog) = merged
    at hkeeps hcopies ⊢
  have hrows : merged.rows = mergeRows log.rows answer.res.messages fromPage := by rw [← hmerged]
  have hwith : Reshapes merged (withView merged answer.rootId (grown view direction answer.res)) := by
    refine @reshapes_withView _ _ view _ ?_ ?_
    · rw [← hmerged, ← hview]
      cases answer.rootId <;> rfl
    · cases direction <;> rfl
  have hfloors := floors_withFloor (withView merged answer.rootId (grown view direction answer.res))
    answer.res.retentionFloorId
  have hstretch := reshapes_stretched (withFloor (withView merged answer.rootId
    (grown view direction answer.res)) answer.res.retentionFloorId) answer.rootId
  have hprune := reshapes_pruned (stretched (withFloor (withView merged answer.rootId
    (grown view direction answer.res)) answer.res.retentionFloorId) answer.rootId) answer.rootId
    direction.farEnd
  have hkept : KeepsAll (withView merged answer.rootId (grown view direction answer.res)).rows
      (withFloor (withView merged answer.rootId (grown view direction answer.res))
        answer.res.retentionFloorId) := by
    rw [rows_withView, hrows]
    exact hkeeps.mid (hstretch.rows.trans hprune.rows)
  simp only [ChannelLog.replica, Replica.arrive, Replica.mk.injEq]
  refine ⟨hcopies, ?_, ?_, ?_, ?_⟩
  · rw [hprune.seq, hstretch.seq, hfloors.seq, hwith.seq, ← hmerged]
  · rw [hprune.seenSeq, hstretch.seenSeq, hfloors.seenSeq, hwith.seenSeq, ← hmerged]
  · rw [hprune.needsCatchUp, hstretch.needsCatchUp, hfloors.needsCatchUp, hwith.needsCatchUp,
      ← hmerged]
  · rw [hprune.hasPage, hstretch.hasPage, hasPage_of_generations (hfloors.generations hkept),
      hwith.hasPage, ← hmerged]
    rfl

/-! ## Catching up -/

/-- **A page of changes that drops nothing is a snapshot that arrives**, and the last settles the
position. -/
theorem replica_caughtUp {log : ChannelLog} {res : ListChangesResponse}
    (hnodup : (res.messages.map (·.id)).Nodup)
    (hkeeps : KeepsAll (mergeRows log.rows res.messages fromPage) (caughtUp log res)) :
    (caughtUp log res).replica =
      if res.hasMore then log.replica.arrive (copiesOf res.messages)
      else (log.replica.arrive (copiesOf res.messages)).position (max log.seq res.top) := by
  have hfloors := floors_withFloor (withArrivals log res.messages fromPage) res.retentionFloorId
  have hrows : (caughtUp log res).rows =
      (withFloor (withArrivals log res.messages fromPage) res.retentionFloorId).rows := by
    unfold caughtUp
    simp only
    split <;> rfl
  have hkept : KeepsAll (mergeRows log.rows res.messages fromPage)
      (withFloor (withArrivals log res.messages fromPage) res.retentionFloorId) := by
    intro id hid
    rw [← hrows]
    exact hkeeps id hid
  have harrivals := hkept.mid hfloors.thins
  have hreplica : (withFloor (withArrivals log res.messages fromPage) res.retentionFloorId).replica =
      log.replica.arrive (copiesOf res.messages) := by
    rw [replica_withFloor (hkept.later (reshapes_withArrivals ..).rows),
      replica_withArrivals hnodup harrivals]
    rfl
  simp only [caughtUp]
  split
  · exact hreplica
  · have hseq : (withFloor (withArrivals log res.messages fromPage) res.retentionFloorId).seq =
        log.seq := congrArg Replica.seq hreplica
    rw [hseq, ← hreplica]
    rfl

end Stoop.Channel
