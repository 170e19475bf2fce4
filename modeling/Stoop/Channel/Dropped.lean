import Stoop.Channel.Convergence

/-!
# A row dropped and held again

The merge protects a row by its seq only while the row is held: what drops it (a prune, a thread's
close, the floor) forgets the seq with it, and an answer read before can still be out. So a deleted
message comes back with its content (`closed_thread_revives`). It takes an answer read, or an event
sent, before a seq at which the log has held the row (`Fresh`); without one no copy is ever followed
by a staler one, and no text by an earlier one (`held_again_no_staler`).
-/

set_option autoImplicit false

namespace Stoop.Channel

open Stoop.Lib

/-! ## What is asked of a run -/

/-- The moments an answer was read at, or an event is of. -/
def Label.moments : Label → List Nat
  | .deliver seq _ => [seq]
  | .answer _ reading => [reading.rowsAt, reading.afterAt]
  | .changes _ _ reading => [reading.rowsAt]
  | _ => []

/-- A copy of a row that is not held was found at a moment no earlier than each seq at which the log has
held the row. -/
def Fresh (w : World) (a : Label) : Prop :=
  ∀ copy ∈ w.brings a, w.log.rows.has copy.1 = false →
    ∀ held ∈ w.everHeld, held.1 = copy.1 →
      ∃ k ∈ a.moments, held.2 ≤ k ∧ ∃ stored ∈ w.server.rowAt k copy.1, stored.seq = copy.2

instance (w : World) (a : Label) : Decidable (Fresh w a) :=
  inferInstanceAs (Decidable (∀ copy ∈ w.brings a, _))

/-! ## Texts and stamps -/

/-- What a message says, and whether it is deleted. -/
def Message.text (row : Message) : String × Bool := (row.content, row.deleted)

theorem text_of_versioned {row row' : Message} (h : row'.versioned = row.versioned) :
    row'.text = row.text :=
  (congrArg Message.text h :)

theorem seq_of_versioned {row row' : Message} (h : row'.versioned = row.versioned) :
    row'.seq = row.seq :=
  (congrArg Message.seq h :)

/-- A seq at which the server wrote the row. -/
def Server.Stamped (server : Server) (id seq : Nat) : Prop :=
  ∃ stored, server.rowAt seq id = some stored ∧ stored.seq = seq

/-- The text of a row as the server had it at a moment. -/
def Server.Told (server : Server) (k : Nat) (row : Message) : Prop :=
  ∃ stored, server.rowAt k row.id = some stored ∧ stored.text = row.text

/-- A later server: what was there at an earlier moment is still what was. -/
def Server.Grows (server server' : Server) : Prop :=
  ∀ k, k ≤ server.seq → ∀ id, server'.rowAt k id = server.rowAt k id

theorem Server.Grows.refl (server : Server) : server.Grows server := fun _ _ _ => rfl

theorem Server.Stamped.le {server : Server} {id seq : Nat} (h : server.Stamped id seq) :
    seq ≤ server.seq := by
  obtain ⟨stored, hstored, rfl⟩ := h
  exact (Server.rowAt_seq hstored).2.2

theorem Server.Stamped.grow {server server' : Server} {id seq : Nat} (h : server.Stamped id seq)
    (hgrows : server.Grows server') : server'.Stamped id seq := by
  obtain ⟨stored, hstored, hseq⟩ := h
  exact ⟨stored, by rw [hgrows seq (Server.Stamped.le ⟨stored, hstored, hseq⟩), hstored], hseq⟩

theorem Server.Told.grow {server server' : Server} {k : Nat} {row : Message}
    (h : server.Told k row) (hk : k ≤ server.seq) (hgrows : server.Grows server') :
    server'.Told k row := by
  obtain ⟨stored, hstored, htext⟩ := h
  exact ⟨stored, by rw [hgrows k hk, hstored], htext⟩

/-- A row found after a stamp of it is stamped no lower. -/
theorem Server.Stamped.le_of_found {server : Server} {id seq k : Nat} (h : server.Stamped id seq)
    (hk : seq ≤ k) {stored : Message} (hstored : server.rowAt k id = some stored) :
    seq ≤ stored.seq := by
  obtain ⟨stored', hstored', hseq⟩ := h
  by_contra hlt
  have := Server.rowAt_steady hstored (Nat.le_of_not_le hlt) hk
  rw [hstored'] at this
  rw [← Option.some.inj this, hseq] at hlt
  exact hlt (Nat.le_refl _)

/-! ## What each rule leaves of the rows -/

/-- A rule that merges some rows leaves each row as it was, or as it came, if what came was no
older. -/
def Merges (log log' : ChannelLog) (incoming : List Message) : Prop :=
  ∀ id row', log'.rows.get? id = some row' →
    (∃ held, log.rows.get? id = some held ∧ row'.versioned = held.versioned) ∨
      ∃ row ∈ incoming, row.id = id ∧ row'.versioned = row.versioned ∧
        ∀ held, log.rows.get? id = some held → held.seq ≤ row.seq

theorem merges_of_thins {log log' : ChannelLog} {incoming : List Message} {source : Source}
    (hnodup : (incoming.map (·.id)).Nodup)
    (h : Thins (mergeRows log.rows incoming source) log'.rows) : Merges log log' incoming := by
  intro id row' hrow'
  obtain ⟨merged, hmerged, heq⟩ := h id row' hrow'
  by_cases hin : ∃ row ∈ incoming, row.id = id ∧ takes log.rows source row = true
  · obtain ⟨row, hrow, rfl, htakes⟩ := hin
    rw [get?_mergeRows_of_takes hnodup hrow htakes] at hmerged
    obtain rfl := Option.some.inj hmerged
    refine .inr ⟨row, hrow, rfl, heq.trans (taken_versioned _ _ _), fun held hheld => ?_⟩
    rcases (takes_iff_beats hheld).mp htakes with hlt | ⟨-, hsame⟩
    · exact Nat.le_of_lt hlt
    · exact Nat.le_of_eq hsame
  · rw [get?_mergeRows_of_not] at hmerged
    · exact .inl ⟨merged, hmerged, heq⟩
    · exact fun row hrow hid => Bool.eq_false_iff.mpr fun ht => hin ⟨row, hrow, hid, ht⟩

theorem merges_arrival (log : ChannelLog) (row : Message) :
    Merges log (withArrivals log [row] fromEvent) [row] :=
  merges_of_thins (by exact List.nodup_singleton _)
    (reshapes_withArrivals log [row] fromEvent).rows

theorem thins_refreshed (log : ChannelLog) (res : ListMessagesResponse) :
    Thins (mergeRows log.rows res.messages fromPage) (refreshed log res).rows :=
  (reshapes_withArrivals log res.messages fromPage).rows.trans (floors_withFloor _ _).thins

theorem thins_caughtUp (log : ChannelLog) (res : ListChangesResponse) :
    Thins (mergeRows log.rows res.messages fromPage) (caughtUp log res).rows := by
  have h := (reshapes_withArrivals log res.messages fromPage).rows.trans
    (floors_withFloor _ res.retentionFloorId).thins
  simp only [caughtUp]
  split <;> exact h

/-- What an answer that stands does after its merge. -/
theorem thins_settle {ask : Ask} {log : ChannelLog} {res : ListMessagesResponse}
    (h : ask.stands log = true) :
    Thins (mergeRows log.rows res.messages fromPage) (ask.settle log res).rows := by
  unfold Ask.stands at h
  unfold Ask.settle
  cases huse : ask.use with
  | opened =>
    rw [huse] at h
    exact @thins_opened _ ⟨ask.rootId, ask.generation, res⟩ _ rfl (eq_of_beq h)
  | jumped atRoot =>
    rw [huse] at h
    cases atRoot
    · exact @thins_opened _ ⟨ask.rootId, ask.generation, res⟩ _ rfl (eq_of_beq h)
    · exact @thins_opened _
        ⟨ask.rootId, ask.generation, { res with hasOlder := false }⟩ _ rfl (eq_of_beq h)
  | paged direction =>
    rw [huse] at h
    cases hview : viewOf log ask.rootId with
    | none =>
      rw [hview] at h
      cases h
    | some view =>
      rw [hview] at h
      exact @thins_paged _ _ ⟨ask.rootId, ask.generation, res⟩ _ hview (eq_of_beq h)
  | refreshed => exact thins_refreshed _ _

theorem thins_closedThread (log : ChannelLog) (rootId : Nat) :
    Thins log.rows (closedThread log rootId).rows := by
  unfold closedThread
  split
  · exact thins_withoutRows _ _
  · exact .refl _

/-- An event of what is known leaves the log; any other leaves the rows its change does. -/
theorem withEvent_rows (log : ChannelLog) (event : ServerEvent) :
    withEvent log event = log ∨ log.knows (changeOf event).seq = false ∧
      (withEvent log event).rows = ((changeOf event).apply log).rows := by
  simp only [withEvent]
  split
  · exact .inl rfl
  · split
    · exact .inl rfl
    next hknown =>
      refine .inr ⟨Bool.not_eq_true _ ▸ hknown, ?_⟩
      split
      · rfl
      · split <;> rfl

/-! ## What each step leaves of the rows -/

/-- A row after a step: it was held, its text is the same, and its seq no lower and a stamp of it; or
it was handed to the log as the server wrote it, and is no older than what was held. -/
def Renewed (w w' : World) (a : Label) (id : Nat) (row' : Message) : Prop :=
  (∃ held, w.log.rows.get? id = some held ∧ row'.text = held.text ∧ held.seq ≤ row'.seq ∧
      (row'.seq = held.seq ∨ w'.server.Stamped id row'.seq)) ∨
    (id, row'.seq) ∈ w.brings a ∧ w'.server.Stamped id row'.seq ∧ w'.server.Told row'.seq row' ∧
      ∀ held, w.log.rows.get? id = some held → held.seq ≤ row'.seq

/-- A row that is held as it was. -/
theorem Renewed.of_held {w w' : World} {a : Label} {id : Nat} {row' held : Message}
    (hheld : w.log.rows.get? id = some held) (heq : row'.versioned = held.versioned) :
    Renewed w w' a id row' :=
  .inl ⟨held, hheld, text_of_versioned heq, Nat.le_of_eq (seq_of_versioned heq).symm,
    .inl (seq_of_versioned heq)⟩

/-- A row that was read from the server. -/
theorem Renewed.of_had {w w' : World} {a : Label} {id k : Nat} {row' row : Message}
    (hid : row.id = id) (hrow' : row'.id = id) (heq : row'.versioned = row.versioned)
    (hhad : w'.server.Had k row) (hbrings : row.stamp ∈ w.brings a)
    (hle : ∀ held, w.log.rows.get? id = some held → held.seq ≤ row.seq) :
    Renewed w w' a id row' := by
  obtain ⟨stored, hstored, hsame⟩ := hhad
  subst hid
  have hstamp : row.seq = stored.seq := seq_of_versioned hsame
  have hat : w'.server.rowAt row.seq row.id = some stored :=
    Server.rowAt_steady hstored (Nat.le_of_eq hstamp.symm)
      (hstamp ▸ (Server.rowAt_seq hstored).2.1)
  refine .inr ⟨?_, ?_, ?_, ?_⟩
  all_goals rw [seq_of_versioned heq]
  · exact hbrings
  · exact ⟨stored, hat, hstamp.symm⟩
  · refine ⟨stored, by rw [hrow']; exact hat, ?_⟩
    rw [text_of_versioned heq, text_of_versioned hsame]
  · exact hle

/-- A partial event patches the row it is about, where that is held; the write's stamp is of that row. -/
theorem renewed_patched {w w' : World} {a : Label} {seq target : Nat} {patch : Message → Message}
    {row : Message} (hserver : w'.server = w.server)
    (hstored : w.server.rowAt seq target = some (row.withSeq seq))
    (hpatch : ∀ held, (patch held).id = held.id ∧ ((patch held).withSeq seq).text = held.text)
    {id : Nat} {row' : Message} (hrow' : (patched w.log target seq patch).rows.get? id = some row') :
    Renewed w w' a id row' := by
  unfold patched at hrow'
  split at hrow'
  next => exact .of_held hrow' rfl
  next held hheld =>
    have hheldid : held.id = target := Keyed.key_of_get? hheld
    rcases merges_arrival w.log _ id row' hrow' with
      ⟨held', hheld', heq⟩ | ⟨row'', hrow'', hid, heq, hle⟩
    · exact .of_held hheld' heq
    · obtain rfl := List.mem_singleton.mp hrow''
      rw [Message.withSeq_id, (hpatch held).1, hheldid] at hid
      subst hid
      refine .inl ⟨held, hheld, ?_, ?_, .inr ?_⟩
      · rw [text_of_versioned heq, (hpatch held).2]
      · rw [seq_of_versioned heq]
        exact hle held hheld
      · rw [seq_of_versioned heq, hserver]
        exact ⟨_, hstored, rfl⟩

/-- A whole row that arrives is the row as the server wrote it. -/
theorem renewed_whole {w w' : World} {a : Label} {seq : Nat} {stored filled : Message}
    (hserver : w'.server = w.server) (hat : w.server.rowAt seq stored.id = some (stored.withSeq seq))
    (hversioned : filled.versioned = (stored.withSeq seq).versioned)
    (hbrings : filled.stamp ∈ w.brings a) {id : Nat} {row' : Message}
    (hrow' : (withArrivals w.log [filled] fromEvent).rows.get? id = some row') :
    Renewed w w' a id row' := by
  have hfilledid : filled.id = stored.id := (id_of_versioned hversioned :)
  rcases merges_arrival w.log _ id row' hrow' with ⟨held', hheld', heq⟩ | ⟨row, hrow, hid, heq, hle⟩
  · exact .of_held hheld' heq
  · obtain rfl := List.mem_singleton.mp hrow
    refine .of_had (k := seq) hid (Keyed.key_of_get? hrow') heq ⟨_, ?_, hversioned⟩ hbrings hle
    rw [hserver, hfilledid]
    exact hat

/-- A tombstone that arrives has no text, as the row the server left. -/
theorem renewed_deleted {w w' : World} {a : Label} {deletion : MessageDeleted} {stored : Message}
    (hserver : w'.server = w.server)
    (hat : w.server.rowAt deletion.seq deletion.messageId =
      some ((tombstoned stored).withSeq deletion.seq))
    (hbrings : (deletion.messageId, deletion.seq) ∈ w.brings a) {id : Nat} {row' : Message}
    (hrow' : (withArrivals w.log [tombstoneOf (w.log.rows.get? deletion.messageId) deletion]
      fromEvent).rows.get? id = some row') : Renewed w w' a id row' := by
  have hid' : row'.id = id := Keyed.key_of_get? hrow'
  rcases merges_arrival w.log _ id row' hrow' with ⟨held', hheld', heq⟩ | ⟨row, hrow, hid, heq, hle⟩
  · exact .of_held hheld' heq
  · obtain rfl := List.mem_singleton.mp hrow
    rw [tombstoneOf_id fun held hheld => Keyed.key_of_get? hheld] at hid
    subst hid
    refine .inr ⟨?_, ?_, ?_, ?_⟩
    all_goals rw [seq_of_versioned heq]
    · exact hbrings
    · rw [hserver]
      exact ⟨_, hat, rfl⟩
    · refine ⟨_, by rw [hserver, hid']; exact hat, ?_⟩
      rw [text_of_versioned heq]
      rfl
    · exact hle

/-- The rows a delivered event leaves. -/
theorem renewed_deliver {w w' : World} {seq : Nat} {hydration : Hydration} {event : ServerEvent}
    (hevent : w.server.event? seq hydration = some event) (hserver : w'.server = w.server)
    {id : Nat} {row' : Message} (hrow' : (withEvent w.log event).rows.get? id = some row') :
    Renewed w w' (.deliver seq hydration) id row' := by
  rcases withEvent_rows w.log event with hignored | ⟨hunknown, hrows⟩
  · rw [hignored] at hrow'
    exact .of_held hrow' rfl
  rw [hrows] at hrow'
  have hbrings : w.log.knows seq = false →
      w.brings (.deliver seq hydration) = event.brings := fun h => by
    rw [World.brings, h, hevent]
    rfl
  obtain ⟨write, row, -, -, hwritten, hat, -, fresh, rfl⟩ := event?_eq_some hevent
  have hversioned := hydration.versioned (row.withSeq seq)
  generalize hydration.fill (row.withSeq seq) = filled at hversioned hrow' hbrings hunknown
  have hfilledseq : filled.seq = seq := seq_of_versioned hversioned
  cases write with
  | whole row'' =>
    obtain rfl : row'' = row := Option.some.inj hwritten
    have hchange : (changeOf (eventOf w.server.channelId seq (.whole row'') fresh filled)).seq = seq ∧
        (changeOf (eventOf w.server.channelId seq (.whole row'') fresh filled)).apply w.log =
          withArrivals w.log [filled] fromEvent ∧
        (eventOf w.server.channelId seq (.whole row'') fresh filled).brings = [filled.stamp] := by
      cases fresh <;> exact ⟨hfilledseq, rfl, rfl⟩
    obtain ⟨hseq, happly, hstamp⟩ := hchange
    rw [hseq] at hunknown
    rw [happly] at hrow'
    refine renewed_whole hserver hat hversioned ?_ hrow'
    rw [hbrings hunknown, hstamp]
    exact List.mem_singleton.mpr rfl
  | deleted target =>
    obtain ⟨stored, -, rfl⟩ := Option.map_eq_some_iff.mp hwritten
    refine renewed_deleted hserver hat ?_ hrow'
    rw [hbrings hunknown]
    exact List.mem_singleton.mpr rfl
  | reactions target list =>
    exact @renewed_patched _ _ _ _ _ (fun held => { held with reactions := list }) _ hserver hat
      (fun _ => ⟨rfl, rfl⟩) _ _ hrow'
  | pinned target isPinned =>
    exact @renewed_patched _ _ _ _ _ (fun held => { held with pinned := isPinned }) _ hserver hat
      (fun _ => ⟨rfl, rfl⟩) _ _ hrow'
  | thread target summary =>
    exact @renewed_patched _ _ _ _ _ (fun held => { held with thread := withViewerHalf summary held.thread })
      _ hserver hat (fun _ => ⟨rfl, rfl⟩) _ _ hrow'

/-- A step leaves what the server was. -/
theorem grows_of_step {w w' : World} {a : Label} (h : w.step a = some w') :
    w.server.Grows w'.server := by
  cases stepped h with
  | commit => exact fun _ hk _ => Server.rowAt_commit hk
  | _ => exact .refl _

/-- **Every row after a step is renewed.** -/
theorem renewed {w w' : World} {a : Label} (h : w.step a = some w') {id : Nat} {row' : Message}
    (hrow' : w'.log.rows.get? id = some row') : Renewed w w' a id row' := by
  have hid' : row'.id = id := Keyed.key_of_get? hrow'
  cases stepped h with
  | commit | drop | ready | lose | request | fail | catchUp | giveUp => exact .of_held hrow' rfl
  | deliver _ hevent => exact renewed_deliver hevent rfl hrow'
  | @answer i reading ask res hask hbetween hres =>
    obtain ⟨-, hread⟩ := listMessages_read hbetween hres
    cases hstands : ask.stands w.log with
    | false =>
      have hrow' : (ask.settle w.log res).rows.get? id = some row' := hrow'
      rw [settle_stale hstands] at hrow'
      exact .of_held hrow' rfl
    | true =>
      rcases merges_of_thins hread.nodup (thins_settle hstands) id row' hrow' with
        ⟨held, hheld, heq⟩ | ⟨row, hrow, hid, heq, hle⟩
      · exact .of_held hheld heq
      · obtain ⟨k, -, -, hhad⟩ := hread.had row hrow
        refine .of_had hid hid' heq hhad ?_ hle
        simp only [World.brings, hask, hstands, if_true, hres, Option.map_some, Option.getD_some]
        exact List.mem_map.mpr ⟨row, hrow, rfl⟩
  | @changes i limit reading pass hpass hbetween res hres =>
    obtain ⟨hread, -⟩ := @listChanges_read w.server pass.since limit reading
    rw [hres] at hread
    rcases merges_of_thins hread.nodup (thins_caughtUp w.log res) id row' hrow' with
      ⟨held, hheld, heq⟩ | ⟨row, hrow, hid, heq, hle⟩
    · exact .of_held hheld heq
    · obtain ⟨k, -, -, hhad⟩ := hread.had row hrow
      refine .of_had hid hid' heq hhad ?_ hle
      simp only [World.brings, hpass, hres]
      exact List.mem_map.mpr ⟨row, hrow, rfl⟩
  | @closeThread rootId =>
    obtain ⟨held, hheld, heq⟩ := thins_closedThread w.log rootId id row' hrow'
    exact .of_held hheld heq

/-- What a log has ever held grows by what it holds, and no row is held unseen. -/
theorem everHeld_of_step {w w' : World} {a : Label} (h : w.step a = some w') :
    w'.everHeld = w.everHeld ++ w'.log.rows.values.map (·.stamp) ∨
      w'.everHeld = w.everHeld ∧ Thins w.log.rows w'.log.rows := by
  cases stepped h with
  | deliver | answer | changes => exact .inl rfl
  | closeThread => exact .inr ⟨rfl, thins_closedThread _ _⟩
  | _ => exact .inr ⟨rfl, .refl _⟩

/-! ## Every run -/

/-- What fresh runs keep: every copy the log ever held was stamped by the server, the one held is the
newest of them, and its text is the server's at some moment up to its seq. -/
structure Unstale (w : World) : Prop where
  legal : w.server.Legal
  held : ∀ id row, w.log.rows.get? id = some row → (id, row.seq) ∈ w.everHeld
  stamped : ∀ copy ∈ w.everHeld, w.server.Stamped copy.1 copy.2
  newest : ∀ copy ∈ w.everHeld, ∀ row, w.log.rows.get? copy.1 = some row → copy.2 ≤ row.seq
  told : ∀ id row, w.log.rows.get? id = some row → ∃ k, k ≤ row.seq ∧ w.server.Told k row

theorem unstale_empty (channelId : String) : Unstale (World.empty channelId) where
  legal := trivial
  held := fun _ _ h => by cases h
  stamped := fun _ h => absurd h List.not_mem_nil
  newest := fun _ h => absurd h List.not_mem_nil
  told := fun _ _ h => by cases h

/-- A fresh copy of a row is no older than any the log ever held. -/
theorem Fresh.newest {w : World} {a : Label} (hfresh : Fresh w a) (inv : Unstale w)
    {copy held : Nat × Nat} (hcopy : copy ∈ w.brings a) (hnot : w.log.rows.has copy.1 = false)
    (hheld : held ∈ w.everHeld) (hid : held.1 = copy.1) : held.2 ≤ copy.2 := by
  obtain ⟨k, -, hk, stored, hstored, hseq⟩ := hfresh copy hcopy hnot held hheld hid
  rw [← hseq]
  exact (hid ▸ inv.stamped held hheld).le_of_found hk hstored

/-- A row after a fresh step is no older than any copy of it the log held before. -/
theorem Renewed.newest {w w' : World} {a : Label} {id : Nat} {row' : Message}
    (h : Renewed w w' a id row') (inv : Unstale w) (hfresh : Fresh w a) {copy : Nat × Nat}
    (hcopy : copy ∈ w.everHeld) (hid : copy.1 = id) : copy.2 ≤ row'.seq := by
  subst hid
  rcases h with ⟨held, hheld, -, hle, -⟩ | ⟨hbrings, -, -, hle⟩
  · exact (inv.newest copy hcopy held hheld).trans hle
  · cases hheld : w.log.rows.get? copy.1 with
    | some held => exact (inv.newest copy hcopy held hheld).trans (hle held hheld)
    | none =>
      exact hfresh.newest inv hbrings (by rw [Keyed.has, hheld, Option.isSome_none]) hcopy rfl

/-- A copy the log has held by the end of a step is one it had held, or one it holds. -/
theorem everHeld_cases {w w' : World} {a : Label} (h : w.step a = some w') {copy : Nat × Nat}
    (hcopy : copy ∈ w'.everHeld) :
    copy ∈ w.everHeld ∨ ∃ row, w'.log.rows.get? copy.1 = some row ∧ row.seq = copy.2 := by
  rcases everHeld_of_step h with heq | ⟨heq, -⟩
  · rw [heq] at hcopy
    refine (List.mem_append.mp hcopy).imp_right fun hnow => ?_
    obtain ⟨row, hrow, rfl⟩ := List.mem_map.mp hnow
    exact ⟨row, Keyed.mem_values.mp hrow, rfl⟩
  · exact .inl (heq ▸ hcopy)

/-- **One step.** -/
theorem Unstale.step {w w' : World} {a : Label} (inv : Unstale w) (hfresh : Fresh w a)
    (h : w.step a = some w') : Unstale w' := by
  have hgrows := grows_of_step h
  have hnow : ∀ {id row'}, w'.log.rows.get? id = some row' → w'.server.Stamped id row'.seq := by
    intro id row' hrow'
    rcases renewed h hrow' with ⟨held, hheld, -, -, hsame | hstamped⟩ | ⟨-, hstamped, -⟩
    · rw [hsame]
      exact (inv.stamped _ (inv.held id held hheld)).grow hgrows
    · exact hstamped
    · exact hstamped
  refine ⟨?_, ?_, ?_, ?_, ?_⟩
  · cases stepped h with
    | commit hlegal => exact ⟨hlegal, inv.legal⟩
    | _ => exact inv.legal
  · intro id row' hrow'
    rcases everHeld_of_step h with heq | ⟨heq, hthins⟩
    · rw [heq]
      have hid : row'.id = id := Keyed.key_of_get? hrow'
      refine List.mem_append_right _ (List.mem_map.mpr
        ⟨row', Keyed.mem_values.mpr (by rw [hid]; exact hrow'), by rw [Message.stamp, hid]⟩)
    · obtain ⟨row, hrow, hsame⟩ := hthins id row' hrow'
      rw [heq, seq_of_versioned hsame]
      exact inv.held id row hrow
  · intro copy hcopy
    rcases everHeld_cases h hcopy with hold | ⟨row, hrow, hseq⟩
    · exact (inv.stamped copy hold).grow hgrows
    · rw [← hseq]
      exact hnow hrow
  · intro copy hcopy row' hrow'
    rcases everHeld_cases h hcopy with hold | ⟨row, hrow, hseq⟩
    · exact (renewed h hrow').newest inv hfresh hold rfl
    · rw [← hseq, Option.some.inj (hrow.symm.trans hrow')]
  · intro id row' hrow'
    rcases renewed h hrow' with ⟨held, hheld, htext, hle, -⟩ | ⟨-, -, htold, -⟩
    · obtain ⟨k, hk, stored, hstored, hsame⟩ := inv.told id held hheld
      have hheldid : held.id = row'.id :=
        (Keyed.key_of_get? hheld :).trans (Keyed.key_of_get? hrow' :).symm
      have hkle : k ≤ w.server.seq :=
        hk.trans (inv.stamped _ (inv.held id held hheld)).le
      exact ⟨k, hk.trans hle, stored, by rw [hgrows k hkle, ← hheldid, hstored],
        hsame.trans htext.symm⟩
    · exact ⟨row'.seq, Nat.le_refl _, htold⟩

/-- **Every fresh run.** -/
theorem Unstale.run {channelId : String} {w : World}
    (h : Runs World.step Fresh (World.empty channelId) w) : Unstale w :=
  h.keeps (unstale_empty channelId) fun _ _ _ inv hok hstep => inv.step hok hstep

/-! ## What is held again -/

/-- What a copy once held, with the server's text of moment `k`, leaves for the copies after it: none
is older, and none says what the server said before. -/
structure Follows (w : World) (earlier : Message) (k : Nat) : Prop where
  unstale : Unstale w
  held : (earlier.id, earlier.seq) ∈ w.everHeld
  le : k ≤ earlier.seq
  told : w.server.Told k earlier
  later : ∀ row, w.log.rows.get? earlier.id = some row →
    ∃ k', k ≤ k' ∧ k' ≤ row.seq ∧ w.server.Told k' row

theorem Follows.step {w w' : World} {a : Label} {earlier : Message} {k : Nat}
    (inv : Follows w earlier k) (hfresh : Fresh w a) (h : w.step a = some w') :
    Follows w' earlier k := by
  have hgrows := grows_of_step h
  have hseq : ∀ {k}, k ≤ earlier.seq → k ≤ w.server.seq := fun hk =>
    hk.trans (inv.unstale.stamped _ inv.held).le
  refine ⟨inv.unstale.step hfresh h, ?_, inv.le, inv.told.grow (hseq inv.le) hgrows,
    fun row' hrow' => ?_⟩
  · rcases everHeld_of_step h with heq | ⟨heq, -⟩
    · exact heq ▸ List.mem_append_left _ inv.held
    · exact heq ▸ inv.held
  · have hnewest := (renewed h hrow').newest inv.unstale hfresh inv.held rfl
    rcases renewed h hrow' with ⟨held, hheld, htext, hle, -⟩ | ⟨-, -, htold, -⟩
    · obtain ⟨k', hkk', hk', stored, hstored, hsame⟩ := inv.later held hheld
      have hheldid : held.id = row'.id :=
        (Keyed.key_of_get? hheld :).trans (Keyed.key_of_get? hrow' :).symm
      have hkle : k' ≤ w.server.seq :=
        hk'.trans (inv.unstale.stamped _ (inv.unstale.held _ held hheld)).le
      exact ⟨k', hkk', hk'.trans hle, stored, by rw [hgrows k' hkle, ← hheldid, hstored],
        hsame.trans htext.symm⟩
    · exact ⟨row'.seq, inv.le.trans hnewest, Nat.le_refl _, htold⟩

theorem Follows.run {w w' : World} {earlier : Message} {k : Nat} (inv : Follows w earlier k)
    (h : Runs World.step Fresh w w') : Follows w' earlier k := by
  induction h with
  | refl => exact inv
  | tail _ hok hstep ih => exact ih.step hok hstep

/-- **What is held again is no staler**, on every run whose answers are fresh: a copy of a row held
later is at no lower seq, is deleted if the earlier one was, and says what the server said no
earlier. -/
theorem held_again_no_staler {channelId : String} {w₁ w₂ : World}
    (h₁ : Runs World.step Fresh (World.empty channelId) w₁) (h₂ : Runs World.step Fresh w₁ w₂)
    {id : Nat} {earlier later : Message} (hearlier : w₁.log.rows.get? id = some earlier)
    (hlater : w₂.log.rows.get? id = some later) :
    earlier.seq ≤ later.seq ∧ (earlier.deleted = true → later.deleted = true) ∧
      ∃ k k', k ≤ k' ∧ w₂.server.Told k earlier ∧ w₂.server.Told k' later := by
  have inv := Unstale.run h₁
  have hid : earlier.id = id := Keyed.key_of_get? hearlier
  have hid' : later.id = id := Keyed.key_of_get? hlater
  obtain ⟨k, hk, htold⟩ := inv.told id earlier hearlier
  have hstart : Follows w₁ earlier k := by
    refine ⟨inv, hid ▸ inv.held id earlier hearlier, hk, htold, fun row hrow => ?_⟩
    rw [hid, hearlier] at hrow
    obtain rfl := Option.some.inj hrow
    exact ⟨k, Nat.le_refl _, hk, htold⟩
  have hend : Follows w₂ earlier k := hstart.run h₂
  have hlater' : w₂.log.rows.get? earlier.id = some later := by rw [hid, hlater]
  obtain ⟨k', hkk', -, htold'⟩ := hend.later later hlater'
  refine ⟨hend.unstale.newest _ hend.held later hlater', fun hdeleted => ?_,
    k, k', hkk', hend.told, htold'⟩
  obtain ⟨stored, hstored, htext⟩ := hend.told
  obtain ⟨stored', hstored', htext'⟩ := htold'
  rw [hid] at hstored
  rw [hid'] at hstored'
  rw [← show stored'.deleted = later.deleted from (congrArg Prod.snd htext' :)]
  exact hend.unstale.legal.deleted hstored
    ((congrArg Prod.snd htext :).trans hdeleted) hkk' hstored'

/-! ## Two runs -/

/-- A reply shown in the channel too. -/
def reply (content : String) : Message := { sent 2 content with threadRootId := some 1 }

/-- The channel's page, asked for first, is still out when a reply of a thread is written to again and
the log holds it so. -/
def heldWhileOut (write : Write) : List Label :=
  [.commit (.whole (sent 1 "root")), .commit (.whole (reply "oops")),
    .commit (.whole (sent 3 "another root")), .openView none, .openView (some 1),
    .openView (some 3), .answer 1 (readAt 3), .answer 1 (readAt 3), .commit write,
    .deliver 4 .none]

/-- The thread closes, which drops the reply, and the channel's page answers, read at `k`. -/
def heldAgain (k : Nat) : List Label := [.closeThread 1, .answer 0 (readAt k)]

def heldWhileOutWorld (write : Write) : World :=
  (runList World.step (World.empty "c1") (heldWhileOut write)).getD (World.empty "c1")

def heldAgainWorld (write : Write) (k : Nat) : World :=
  (runList World.step (heldWhileOutWorld write) (heldAgain k)).getD (World.empty "c1")

/-- An edited reply comes back as edited, from a page read after the edit. -/
theorem edit_held_again :
    ∃ earlier later, (heldWhileOutWorld (.whole (reply "fixed"))).log.rows.get? 2 = some earlier ∧
      (closedThread (heldWhileOutWorld (.whole (reply "fixed"))).log 1).rows.get? 2 = none ∧
      (heldAgainWorld (.whole (reply "fixed")) 4).log.rows.get? 2 = some later ∧
      earlier.seq ≤ later.seq := by
  obtain ⟨earlier, hearlier⟩ := Option.isSome_iff_exists.mp (show Option.isSome
    ((heldWhileOutWorld (.whole (reply "fixed"))).log.rows.get? 2) = true by decide)
  obtain ⟨later, hlater⟩ := Option.isSome_iff_exists.mp (show Option.isSome
    ((heldAgainWorld (.whole (reply "fixed")) 4).log.rows.get? 2) = true by decide)
  refine ⟨earlier, later, hearlier, by decide, hlater, ?_⟩
  exact (@held_again_no_staler "c1" (heldWhileOutWorld (.whole (reply "fixed")))
    (heldAgainWorld (.whole (reply "fixed")) 4)
    (Runs.ofList (heldWhileOut (.whole (reply "fixed"))) (by decide) rfl)
    (Runs.ofList (heldAgain 4) (by decide) rfl) _ _ _ hearlier hlater).1

/-- **A page read before a deletion brings the message back** once the thread's close has dropped the
tombstone: it is shown in the channel's range, under the position, with nothing owed. -/
theorem closed_thread_revives :
    ¬ ∀ channelId w, Runs World.step Always (World.empty channelId) w →
      w.log.needsCatchUp = false → ∀ copy ∈ w.everHeld, copy.2 ≤ w.log.seq →
      ∀ row, w.log.rows.get? copy.1 = some row →
        belongs row none = true → inRange w.log.channel row.id = true → copy.2 ≤ row.seq := by
  intro claim
  obtain ⟨row, hrow⟩ : ∃ row, (heldAgainWorld (.deleted 2) 3).log.rows.get? 2 = some row := ⟨_, rfl⟩
  have hstale : ∀ row ∈ (heldAgainWorld (.deleted 2) 3).log.rows.get? 2, belongs row none = true ∧
      inRange (heldAgainWorld (.deleted 2) 3).log.channel row.id = true ∧ ¬ 4 ≤ row.seq := by decide
  obtain ⟨hbelongs, hin, hlt⟩ := hstale row hrow
  have hruns : Runs World.step Always (World.empty "c1") (heldAgainWorld (.deleted 2) 3) :=
    (Runs.ofList (heldWhileOut (.deleted 2)) (EachStep.always _ _) rfl).trans
      (Runs.ofList (heldAgain 3) (EachStep.always _ _) rfl)
  exact hlt (claim "c1" _ hruns (by decide) (2, 4) (by decide) (by decide) row hrow hbelongs hin)

end Stoop.Channel
