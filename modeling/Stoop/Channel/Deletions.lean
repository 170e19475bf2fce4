import Mathlib.Data.List.Forall2
import Stoop.Channel.Convergence

/-!
# A deletion's event and its catch-up row

A client that is told of a deletion builds the tombstone from its own copy of the row (`tombstoneOf`);
one that catches up is handed the row the server left (`tombstoned`). The log's rules read six fields of
a tombstone. The client's agrees with the server's on five of them whatever it held, and on `pinned`
exactly where the copy it held was not pinned: the server takes the pin with the row, and `tombstoneOf`
keeps it (`deletion_agrees`).

Rows that agree on the six fields and are hidden both are `Twin`s. Logs whose rows are twins keep, show
and floor the same rows (`Twins.sameRows`).
-/

set_option autoImplicit false

namespace Stoop.Channel

open Stoop.Lib

/-! ## Tombstones alike -/

/-- Two tombstones agree on what the log's rules read of them. -/
structure Alike (a b : Message) : Prop where
  deleted : a.deleted = b.deleted
  seq : a.seq = b.seq
  thread : a.thread = b.thread
  pinned : a.pinned = b.pinned
  threadRootId : a.threadRootId = b.threadRootId
  inChannel : a.inChannel = b.inChannel

/-- One row, or two of one id that agree and are both hidden. -/
def Twin (a b : Message) : Prop :=
  a = b ∨ a.id = b.id ∧ isShown a = false ∧ isShown b = false ∧ Alike a b

theorem Twin.id {a b : Message} (h : Twin a b) : a.id = b.id := by
  rcases h with rfl | h
  · rfl
  · exact h.1

theorem Twin.pinned {a b : Message} (h : Twin a b) : a.pinned = b.pinned := by
  rcases h with rfl | h
  · rfl
  · exact h.2.2.2.pinned

theorem Twin.threadRootId {a b : Message} (h : Twin a b) : a.threadRootId = b.threadRootId := by
  rcases h with rfl | h
  · rfl
  · exact h.2.2.2.threadRootId

/-- Rows that are twins one by one. -/
def Twins (rows rows' : Rows) : Prop := List.Forall₂ Twin rows.list rows'.list

/-- Two logs keep and show the same rows, in the same views. -/
structure SameRows (log log' : ChannelLog) : Prop where
  has : ∀ id, log.rows.has id = log'.rows.has id
  shown : ∀ rootId, shownRows log rootId = shownRows log' rootId
  channel : log.channel = log'.channel
  threads : log.threads = log'.threads

namespace Twins

variable {rows rows' : Rows}

/-- What a lookup finds has its twin found. -/
theorem get? (h : Twins rows rows') (id : Nat) : Option.Rel Twin (rows.get? id) (rows'.get? id) := by
  unfold Keyed.get?
  unfold Twins at h
  generalize rows.list = list, rows'.list = list' at h
  induction h with
  | nil => exact .none
  | @cons a b _ _ hab _ ih =>
    rw [List.find?_cons, List.find?_cons, hab.id]
    split
    · exact .some hab
    · exact ih

theorem has (h : Twins rows rows') (id : Nat) : rows.has id = rows'.has id := by
  have hfound := h.get? id
  unfold Keyed.has
  generalize rows.get? id = a, rows'.get? id = b at hfound
  cases hfound with
  | some _ => rfl
  | none => rfl

/-- Whether a root that is held is pinned. -/
theorem pinned (h : Twins rows rows') (root : Nat) :
    (rows.get? root).map (!·.pinned) = (rows'.get? root).map (!·.pinned) := by
  have hfound := h.get? root
  generalize rows.get? root = a, rows'.get? root = b at hfound
  cases hfound with
  | some hab => exact congrArg (fun pinned => some !pinned) hab.pinned
  | none => rfl

/-- A floor takes a row and its twin alike. -/
theorem belowFloor (h : Twins rows rows') {a b : Message} (hab : Twin a b) (floorId : Nat) :
    belowFloor rows a floorId = belowFloor rows' b floorId := by
  unfold Channel.belowFloor
  rw [hab.threadRootId, hab.id, hab.pinned]
  split
  · rw [h.pinned]
  · rfl

/-- The ids of the rows a condition holds of, where it holds of a row and its twin alike. -/
theorem ids (h : Twins rows rows') {p q : Message → Bool} (hpq : ∀ a b, Twin a b → p a = q b) :
    (rows.values.filter p).map (·.id) = (rows'.values.filter q).map (·.id) := by
  unfold Keyed.values
  unfold Twins at h
  generalize rows.list = list, rows'.list = list' at h
  induction h with
  | nil => rfl
  | @cons a b _ _ hab _ ih =>
    rw [List.filter_cons, List.filter_cons, hpq a b hab]
    split
    · rw [List.map_cons, List.map_cons, ih, hab.id]
    · exact ih

/-- Rows dropped by their ids. -/
theorem withoutRows (h : Twins rows rows') (ids : List Nat) :
    Twins (withoutRows rows ids) (withoutRows rows' ids) := by
  refine List.rel_filter ?_ h
  intro a b hab
  show _ = true ↔ _ = true
  rw [hab.id]

/-- **What a view shows**: the rows that are twins only are shown in neither. -/
theorem shown (h : Twins rows rows') (rootId : Option Nat) (view : View) :
    rows.values.filter (fun row => belongs row rootId && inRange view row.id && isShown row) =
      rows'.values.filter fun row => belongs row rootId && inRange view row.id && isShown row := by
  unfold Keyed.values
  unfold Twins at h
  generalize rows.list = list, rows'.list = list' at h
  induction h with
  | nil => rfl
  | @cons a b _ _ hab _ ih =>
    rw [List.filter_cons, List.filter_cons]
    rcases hab with rfl | ⟨_, ha, hb, _⟩
    · rw [ih]
    · rw [ha, hb, Bool.and_false, Bool.and_false, if_neg Bool.false_ne_true, if_neg Bool.false_ne_true, ih]

/-- Logs alike but for rows that are twins. -/
theorem sameRows (h : Twins rows rows') (log : ChannelLog) :
    SameRows { log with rows := rows } { log with rows := rows' } where
  has := h.has
  shown rootId := h.shown rootId _
  channel := rfl
  threads := rfl

/-- **A floor leaves logs alike so.** -/
theorem withFloor (h : Twins rows rows') (log : ChannelLog) (floorId : Option Nat) :
    SameRows (withFloor { log with rows := rows } floorId)
      (withFloor { log with rows := rows' } floorId) := by
  unfold Channel.withFloor
  dsimp only
  cases laterFloor floorId log.floor with
  | none => exact h.sameRows log
  | some floor =>
    have hgone := h.ids fun a b hab => h.belowFloor hab floor
    show SameRows ⟨_, _, _, _, _, _, _, _⟩ ⟨_, _, _, _, _, _, _, _⟩
    simp only [hgone]
    exact (h.withoutRows _).sameRows
      { log with floor := some floor, threads := log.threads.filter _ }

end Twins

/-! ## What a tombstone's arrival does -/

/-- A tombstone of a row that is held takes the row's place and blanks the quotes of it. -/
theorem withArrivals_tombstone {log : ChannelLog} {row held : Message} {source : Source}
    (hheld : log.rows.get? row.id = some held) (hwins : wins row held source = true)
    (hdeleted : row.deleted = true) (hthread : row.thread = none) :
    withArrivals log [row] source =
      { log with rows := withQuotesBlanked (log.rows.set row) row.id } := by
  have htakes : takes log.rows source row = true := by
    rw [takes, hheld]
    exact hwins
  have htaken : taken log.rows source row = row := by
    rw [taken, hheld]
    obtain ⟨⟩ := row
    obtain rfl := hthread
    cases source.keepViewerHalf <;> rfl
  have hmerged : mergeRows log.rows [row] source = log.rows.set row := by
    rw [mergeRows, List.foldl_cons, List.foldl_nil, if_pos htakes, htaken]
  have hchanged : changed log.rows [row] source row.id = true := by
    simp [changed, htakes]
  have hhas : log.rows.has row.id = true := by rw [Keyed.has, hheld, Option.isSome_some]
  have harrived : arrived log (log.rows.set row) [row] source ({ log with rows := log.rows.set row }, [])
      row = ({ log with rows := withQuotesBlanked (log.rows.set row) row.id }, []) := by
    simp [arrived, hchanged, hhas, hdeleted]
  unfold withArrivals
  rw [List.any_cons, htakes, Bool.true_or, if_pos rfl, hmerged]
  simp only [List.foldl_cons, List.foldl_nil, harrived]
  exact if_pos rfl

/-- Rows set under one id, that agree and are hidden, leave twins. -/
theorem twins_set {rows : Rows} {a b : Message} (hid : a.id = b.id) (hheld : rows.has a.id = true)
    (ha : isShown a = false) (hb : isShown b = false) (hab : Alike a b) :
    Twins (withQuotesBlanked (rows.set a) a.id) (withQuotesBlanked (rows.set b) b.id) := by
  have hmem : a.id ∈ rows.list.map (·.id) := by
    obtain ⟨held, hfound⟩ := Keyed.has_eq_true.mp hheld
    obtain ⟨hin, hkey⟩ := Keyed.get?_eq_some.mp hfound
    exact hkey ▸ List.mem_map_of_mem hin
  have hblank : ∀ (quote quote' : Message → Option ReplyRef), Twin
      { a with replyTo := quote a, threadRoot := quote' a }
      { b with replyTo := quote b, threadRoot := quote' b } := fun _ _ =>
    .inr ⟨hid, ha, hb, hab.deleted, hab.seq, hab.thread, hab.pinned, hab.threadRootId, hab.inChannel⟩
  unfold Twins withQuotesBlanked Keyed.set Keyed.map
  rw [dif_pos hmem, dif_pos (hid ▸ hmem)]
  simp only [List.map_map, List.forall₂_map_left_iff, List.forall₂_map_right_iff, ← hid]
  refine List.forall₂_same.mpr fun row _ => ?_
  simp only [Function.comp_apply]
  split
  · exact hblank (fun m => m.replyTo.map (blanked a.id)) fun m => m.threadRoot.map (blanked a.id)
  · exact .inl rfl

/-! ## The event and the row -/

variable {server : Server} {hydration : Hydration} {deletion : MessageDeleted} {held row : Message}

/-- A held row is a copy of the server's row: it stands where the row stands. -/
def Server.Placed (server : Server) (held : Message) : Prop :=
  ∃ k stored, server.rowAt k held.id = some stored ∧
    held.threadRootId = stored.threadRootId ∧ held.inChannel = stored.inChannel

/-- Two copies of one row stand alike. -/
theorem Server.Legal.placed (legal : server.Legal) (hheld : server.Placed held) {k : Nat}
    (hat : server.rowAt k held.id = some row) :
    held.threadRootId = row.threadRootId ∧ held.inChannel = row.inChannel := by
  obtain ⟨j, stored, hstored, hroot, hin⟩ := hheld
  rw [hroot, hin]
  rcases Nat.le_total j k with hle | hle
  · obtain ⟨hroot', hin'⟩ := legal.place hstored hle hat
    exact ⟨hroot'.symm, hin'.symm⟩
  · exact legal.place hat hle hstored

/-- The row a deletion's write left. -/
theorem deletion_left (hevent : server.event? deletion.seq hydration = some (.messageDeleted deletion)) :
    ∃ stored, server.rowAt (deletion.seq - 1) deletion.messageId = some stored ∧
      server.rowAt deletion.seq deletion.messageId =
        some ((tombstoned stored).withSeq deletion.seq) := by
  obtain ⟨write, left, -, -, hwritten, hat, -, fresh, heq⟩ := event?_eq_some hevent
  cases write with
  | whole => cases fresh <;> cases heq
  | reactions | pinned | thread => cases heq
  | deleted id =>
    obtain ⟨stored, hstored, rfl⟩ := Option.map_eq_some_iff.mp hwritten
    have hid : deletion.messageId = id := congrArg MessageDeleted.messageId (ServerEvent.messageDeleted.inj heq)
    rw [hid]
    exact ⟨stored, hstored, hat⟩

/-- The row `ListChanges` returns for the write is the one it left, less what no seq governs. -/
theorem change_left {sinceSeq limit : Nat} {reading : Reading} {left : Message}
    (hrow : row ∈ (listChanges server sinceSeq limit reading).messages)
    (hat : server.rowAt row.seq row.id = some left) : row.versioned = left.versioned := by
  obtain ⟨stored, -, hstored, rfl⟩ := mem_listChanges hrow
  have hversioned := reading.hydration.versioned stored
  have hseq : (reading.hydration.fill stored).seq = stored.seq := (congrArg Message.seq hversioned :)
  rw [hseq, Hydration.fill_id, Server.rowAt_steady hstored (Nat.le_refl _) (Server.rowAt_seq hstored).2.1]
    at hat
  obtain rfl := Option.some.inj hat
  exact hversioned

/-- **The two tombstones agree exactly where the copy held was not pinned.** -/
theorem tombstones_alike (legal : server.Legal)
    (hevent : server.event? deletion.seq hydration = some (.messageDeleted deletion))
    (hid : held.id = deletion.messageId) (hplaced : server.Placed held) {sinceSeq limit : Nat}
    {reading : Reading} (hrow : row ∈ (listChanges server sinceSeq limit reading).messages)
    (hrowId : row.id = deletion.messageId) (hrowSeq : row.seq = deletion.seq) :
    isShown row = false ∧ (Alike (tombstoneOf (some held) deletion) row ↔ held.pinned = false) := by
  obtain ⟨stored, hstored, hat⟩ := deletion_left hevent
  have hleft : row.versioned = ((tombstoned stored).withSeq deletion.seq).versioned :=
    change_left hrow (by rw [hrowId, hrowSeq, hat])
  obtain ⟨hroot, hin⟩ := legal.placed hplaced (hid ▸ hstored)
  have hpinned : row.pinned = false := (congrArg Message.pinned hleft :)
  have hthread : row.thread = none := Option.map_eq_none_iff.mp (congrArg Message.thread hleft :)
  refine ⟨isShown_of_versioned hleft, fun h => h.pinned.trans hpinned, fun h => ?_⟩
  exact
    { deleted := (congrArg Message.deleted hleft :).symm
      seq := hrowSeq.symm
      thread := hthread.symm
      pinned := h.trans hpinned.symm
      threadRootId := hroot.trans (congrArg Message.threadRootId hleft :).symm
      inChannel := hin.trans (congrArg Message.inChannel hleft :).symm }

/-- **A deletion's event and its catch-up row agree exactly where the held row was not pinned**: on the
fields the log's rules read, and so on the rows a log keeps and shows from then on, under whatever
floor. -/
theorem deletion_agrees (legal : server.Legal)
    (hevent : server.event? deletion.seq hydration = some (.messageDeleted deletion)) {log : ChannelLog}
    (hheld : log.rows.get? deletion.messageId = some held) (hbefore : held.seq < deletion.seq)
    (hplaced : server.Placed held) {sinceSeq limit : Nat} {reading : Reading}
    (hrow : row ∈ (listChanges server sinceSeq limit reading).messages)
    (hrowId : row.id = deletion.messageId) (hrowSeq : row.seq = deletion.seq) :
    (Alike (tombstoneOf (some held) deletion) row ∧
      ∀ floorId, SameRows (withFloor ((changeOf (.messageDeleted deletion)).apply log) floorId)
        (withFloor (withArrivals log [row] fromPage) floorId)) ↔ held.pinned = false := by
  have hid : held.id = deletion.messageId := Keyed.key_of_get? hheld
  obtain ⟨hhidden, hiff⟩ := tombstones_alike legal hevent hid hplaced hrow hrowId hrowSeq
  refine ⟨fun h => hiff.mp h.1, fun h => ?_⟩
  have halike := hiff.mpr h
  refine ⟨halike, fun floorId => ?_⟩
  have hseen : (changeOf (.messageDeleted deletion)).apply log =
      { log with
        rows := withQuotesBlanked (log.rows.set (tombstoneOf (some held) deletion)) held.id } := by
    show withArrivals log [tombstoneOf (log.rows.get? deletion.messageId) deletion] fromEvent = _
    rw [hheld]
    have hheld' : log.rows.get? (tombstoneOf (some held) deletion).id = some held := by
      rw [← hid] at hheld
      exact hheld
    exact withArrivals_tombstone hheld' (decide_eq_true hbefore) rfl rfl
  have hcaught : withArrivals log [row] fromPage =
      { log with rows := withQuotesBlanked (log.rows.set row) row.id } :=
    withArrivals_tombstone (hrowId ▸ hheld) (decide_eq_true (hrowSeq ▸ hbefore.le))
      halike.deleted.symm halike.thread.symm
  rw [hseen, hcaught]
  refine Twins.withFloor (twins_set (a := tombstoneOf (some held) deletion) (hid.trans hrowId.symm) ?_ rfl
    hhidden halike) log floorId
  rw [Keyed.has, show (tombstoneOf (some held) deletion).id = deletion.messageId from hid, hheld,
    Option.isSome_some]

/-! ## A message deleted, and a pinned one -/

/-- The message of the runs below, pinned or not, at a seq. -/
def heldMessage (pinned : Bool) (seq : Nat) : Message := { sent 1 "hello" with pinned := pinned, seq := seq }

/-- It is sent, and deleted. -/
def sentThenDeleted : Server := ⟨"c1", [.deleted 1, .whole (sent 1 "hello")]⟩

/-- It is sent, pinned, and deleted. -/
def pinnedThenDeleted : Server := ⟨"c1", [.deleted 1, .pinned 1 true, .whole (sent 1 "hello")]⟩

/-- The log of a client that holds one row. -/
def logHolding (row : Message) : ChannelLog :=
  { emptyLog "c1" with rows := Keyed.empty.set row, seq := row.seq }

/-- The deletion of the message, at a seq. -/
def deletionAt (seq : Nat) : MessageDeleted := ⟨1, "c1", none, seq⟩

/-- The row the deletion left, at a seq. -/
def deletedAt (seq : Nat) : Message := (tombstoned (sent 1 "hello")).withSeq seq

/-- A message that was not pinned: the tombstones agree. -/
theorem unpinned_deletion_agrees :
    Alike (tombstoneOf (some (heldMessage false 1)) (deletionAt 2)) (deletedAt 2) ∧
      ∀ floorId, SameRows
        (withFloor ((changeOf (.messageDeleted (deletionAt 2))).apply (logHolding (heldMessage false 1)))
          floorId)
        (withFloor (withArrivals (logHolding (heldMessage false 1)) [deletedAt 2] fromPage) floorId) :=
  (@deletion_agrees sentThenDeleted .none (deletionAt 2) (heldMessage false 1) (deletedAt 2)
    ⟨by decide, by decide, trivial⟩ rfl (logHolding (heldMessage false 1)) rfl (by decide)
    ⟨1, heldMessage false 1, rfl, rfl, rfl⟩ 1 0 (readAt 2) (by decide) rfl rfl).mpr rfl

/-- **A pinned message's tombstones disagree**: the client's stays pinned, and a floor above it keeps the
row in one log and drops it from the other. -/
theorem pinned_deletion_disagrees :
    ¬ ∀ (server : Server) (hydration : Hydration) (deletion : MessageDeleted) (log : ChannelLog)
      (held row : Message) (sinceSeq limit : Nat) (reading : Reading), server.Legal →
      server.event? deletion.seq hydration = some (.messageDeleted deletion) →
      log.rows.get? deletion.messageId = some held → held.seq < deletion.seq → server.Placed held →
      row ∈ (listChanges server sinceSeq limit reading).messages → row.id = deletion.messageId →
      row.seq = deletion.seq →
      Alike (tombstoneOf (some held) deletion) row ∧
        ∀ floorId, SameRows (withFloor ((changeOf (.messageDeleted deletion)).apply log) floorId)
          (withFloor (withArrivals log [row] fromPage) floorId) := by
  intro claim
  obtain ⟨-, same⟩ := claim pinnedThenDeleted .none (deletionAt 3) (logHolding (heldMessage true 2))
    (heldMessage true 2) (deletedAt 3) 2 0 (readAt 3) ⟨by decide, by decide, by decide, trivial⟩ rfl rfl
    (by decide) ⟨2, heldMessage true 2, rfl, rfl, rfl⟩ (by decide) rfl rfl
  exact absurd ((same (some 5)).has 1) (by decide)

end Stoop.Channel
