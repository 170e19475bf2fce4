import Stoop.Channel.Server

/-!
# The server's rows through time

A row changes only by a write, which stamps it with the seq it took: so the row of an id at a moment
is the row it had at its own seq, and stays until the next write to it (`rowAt_steady`,
`Server.timeline`). What the writes keep to (`Server.Legal`) makes a row's place constant and its
hiding final.
-/

set_option autoImplicit false

namespace Stoop.Channel

open Stoop.Lib

/-! ## Moments -/

theorem moment_of_le {history : List Write} {write : Write} {k : Nat} (h : k ≤ history.length) :
    moment (write :: history) k = moment history k := by
  rw [moment, moment, List.length_cons, Nat.succ_sub h, List.drop_succ_cons]

theorem moment_of_ge {history : List Write} {k : Nat} (h : history.length ≤ k) :
    moment history k = history := by
  rw [moment, Nat.sub_eq_zero_of_le h, List.drop_zero]

theorem moment_length (history : List Write) (k : Nat) :
    (moment history k).length = min k history.length := by
  rw [moment, List.length_drop]
  omega

/-- An earlier moment of a moment is that earlier moment. -/
theorem moment_moment (history : List Write) {j k : Nat} (h : j ≤ k) :
    moment (moment history k) j = moment history j := by
  rw [moment, moment_length, moment, moment, List.drop_drop]
  congr 1
  omega

/-- The moment after the next one is one write longer. -/
theorem moment_succ {history : List Write} {k : Nat} (h : k < history.length) :
    ∃ write, moment history (k + 1) = write :: moment history k := by
  have hlt : history.length - (k + 1) < history.length := by omega
  refine ⟨history[history.length - (k + 1)], ?_⟩
  rw [moment, moment, List.drop_eq_getElem_cons hlt]
  congr 2
  omega

/-! ## One write -/

theorem Write.row?_id {rows : Rows} {write : Write} {row : Message}
    (h : write.row? rows = some row) : row.id = write.target := by
  cases write with
  | whole row' => exact (Option.some.inj h) ▸ rfl
  | reactions | pinned | thread | deleted =>
    obtain ⟨held, hheld, rfl⟩ := Option.map_eq_some_iff.mp h
    exact (Keyed.key_of_get? hheld :)

/-- A write stamps its own row, where there is one. -/
theorem get?_run_target {seq : Nat} {rows : Rows} {write : Write} {row : Message}
    (h : write.row? rows = some row) :
    (write.run seq rows).get? write.target = some (row.withSeq seq) := by
  rw [Write.run, h, Keyed.get?_set, Message.withSeq_id, if_pos (Write.row?_id h)]

/-- A write leaves every other row as it was. -/
theorem get?_run_of_ne {seq : Nat} {rows : Rows} {write : Write} {id : Nat}
    (h : id ≠ write.target) : (write.run seq rows).get? id = rows.get? id := by
  rw [Write.run]
  split
  next row hrow =>
    rw [Keyed.get?_set, Message.withSeq_id, if_neg fun hid => h (hid.symm.trans (Write.row?_id hrow))]
  next => rfl

/-- A row after a write is the row the write stamped, or the row before it. -/
theorem get?_run_cases {seq : Nat} {rows : Rows} {write : Write} {id : Nat} {row : Message}
    (h : (write.run seq rows).get? id = some row) :
    id = write.target ∧ row.seq = seq ∨ rows.get? id = some row := by
  by_cases hid : id = write.target
  · cases hrow : write.row? rows with
    | none =>
      rw [Write.run, hrow] at h
      exact .inr h
    | some row' =>
      rw [hid, get?_run_target hrow] at h
      exact .inl ⟨hid, Option.some.inj h ▸ rfl⟩
  · rw [get?_run_of_ne hid] at h
    exact .inr h

/-- A row that is there stays there. -/
theorem get?_run_stays {seq : Nat} {rows : Rows} {write : Write} {id : Nat} {row : Message}
    (h : rows.get? id = some row) : ∃ row', (write.run seq rows).get? id = some row' := by
  by_cases hid : id = write.target
  · cases hrow : write.row? rows with
    | none =>
      rw [Write.run, hrow]
      exact ⟨row, h⟩
    | some row' => exact ⟨_, by rw [hid]; exact get?_run_target hrow⟩
  · exact ⟨row, by rw [get?_run_of_ne hid, h]⟩

/-! ## Histories -/

theorem rowsAfter_seq {history : List Write} {id : Nat} {row : Message}
    (h : (rowsAfter history).get? id = some row) : 0 < row.seq ∧ row.seq ≤ history.length := by
  induction history with
  | nil => cases h
  | cons write past ih =>
    rw [List.length_cons]
    rcases get?_run_cases h with ⟨-, hseq⟩ | hpast
    · omega
    · have := ih hpast
      omega

theorem rowsAfter_steady {history : List Write} {id : Nat} {row : Message} {j : Nat}
    (h : (rowsAfter history).get? id = some row) (hseq : row.seq ≤ j) :
    (rowsAfter (moment history j)).get? id = some row := by
  induction history with
  | nil => cases h
  | cons write past ih =>
    by_cases hj : j ≤ past.length
    · rw [moment_of_le hj]
      rcases get?_run_cases h with ⟨-, hseq'⟩ | hpast
      · omega
      · exact ih hpast
    · rw [moment_of_ge (by rw [List.length_cons]; omega)]
      exact h

theorem rowsAfter_unique {history : List Write} {i j : Nat} {a b : Message}
    (ha : (rowsAfter history).get? i = some a) (hb : (rowsAfter history).get? j = some b)
    (hseq : a.seq = b.seq) : i = j := by
  induction history with
  | nil => cases ha
  | cons write past ih =>
    rcases get?_run_cases ha with ⟨hi, ha'⟩ | ha'
    · rcases get?_run_cases hb with ⟨hj, -⟩ | hb'
      · rw [hi, hj]
      · have := (rowsAfter_seq hb').2
        omega
    · rcases get?_run_cases hb with ⟨-, hb'⟩ | hb'
      · have := (rowsAfter_seq ha').2
        omega
      · exact ih ha' hb'

/-! ## A server's rows -/

/-- A row as a copy: its stamp, and what it shows. -/
def Message.copy (row : Message) : Copy (Option Message) := ⟨row.seq, row.shown⟩

namespace Server

variable {server : Server} {j k : Nat} {id : Nat} {row row' : Message}

/-- Moments past the last write are all the same. -/
theorem rowAt_of_ge (h : server.seq ≤ k) : server.rowAt k id = server.rowAt server.seq id := by
  rw [rowAt, rowAt, rowsAt, rowsAt, moment_of_ge h, moment_of_ge (Nat.le_refl server.seq)]

theorem rowAt_seq (h : server.rowAt k id = some row) :
    0 < row.seq ∧ row.seq ≤ k ∧ row.seq ≤ server.seq := by
  have := rowsAfter_seq h
  rw [moment_length] at this
  exact ⟨this.1, by omega, by rw [Server.seq]; omega⟩

theorem rowAt_steady (h : server.rowAt k id = some row) (hseq : row.seq ≤ j) (hjk : j ≤ k) :
    server.rowAt j id = some row := by
  have := rowsAfter_steady h hseq
  rwa [moment_moment _ hjk] at this

theorem rowAt_stays (h : server.rowAt k id = some row) :
    ∃ row', server.rowAt (k + 1) id = some row' := by
  by_cases hk : k < server.history.length
  · obtain ⟨write, hwrite⟩ := moment_succ hk
    rw [rowAt, rowsAt, hwrite, rowsAfter]
    exact get?_run_stays h
  · have hk : server.seq ≤ k := Nat.le_of_not_lt hk
    exact ⟨row, by rw [rowAt_of_ge (Nat.le_succ_of_le hk), ← rowAt_of_ge hk, h]⟩

theorem rowAt_later (h : server.rowAt j id = some row) (hjk : j ≤ k) :
    ∃ row', server.rowAt k id = some row' := by
  induction hjk with
  | refl => exact ⟨row, h⟩
  | step _ ih => exact ih.elim fun _ => rowAt_stays

/-- What a server's rows show, through time. -/
def timeline (server : Server) : Timeline Nat (Option Message) where
  copy k id := (server.rowAt k id).map Message.copy
  seq_le h := by
    obtain ⟨row, hrow, rfl⟩ := Option.map_eq_some_iff.mp h
    exact (rowAt_seq hrow).2.1
  steady h hseq hjk := by
    obtain ⟨row, hrow, rfl⟩ := Option.map_eq_some_iff.mp h
    rw [rowAt_steady hrow hseq hjk]
    rfl
  stays h := by
    obtain ⟨row, hrow, rfl⟩ := Option.map_eq_some_iff.mp h
    obtain ⟨row', hrow'⟩ := rowAt_stays hrow
    exact ⟨row'.copy, by rw [hrow']; rfl⟩
  unique h h' hseq := by
    obtain ⟨row, hrow, rfl⟩ := Option.map_eq_some_iff.mp h
    obtain ⟨row', hrow', rfl⟩ := Option.map_eq_some_iff.mp h'
    exact rowsAfter_unique hrow hrow' hseq

theorem timeline_eq_some {c : Copy (Option Message)} :
    server.timeline.copy k id = some c ↔ ∃ row, server.rowAt k id = some row ∧ row.copy = c :=
  Option.map_eq_some_iff

/-- One more write changes no moment before it. -/
theorem rowAt_commit {write : Write} (h : k ≤ server.seq) :
    ({ server with history := write :: server.history } : Server).rowAt k id =
      server.rowAt k id := by
  rw [rowAt, rowAt, rowsAt, rowsAt, moment_of_le h]

end Server

/-! ## What the writes keep to -/

/-- Whether every write of a history was legal where it was made. -/
def LegalHistory (channelId : String) : List Write → Prop
  | [] => True
  | write :: past => write.Legal channelId (rowsAfter past) ∧ LegalHistory channelId past

/-- Whether every write of a channel was. -/
def Server.Legal (server : Server) : Prop := LegalHistory server.channelId server.history

/-- What every row of a legal history keeps to. -/
structure Message.Proper (channelId : String) (row : Message) : Prop where
  channel : row.channelId = channelId
  topLevel : row.threadRootId = none → row.inChannel = true
  reply : ∀ root, row.threadRootId = some root → row.thread = none ∧ root < row.id

theorem LegalHistory.drop {channelId : String} {history : List Write}
    (h : LegalHistory channelId history) (n : Nat) : LegalHistory channelId (history.drop n) := by
  induction history generalizing n with
  | nil => rw [List.drop_nil]; trivial
  | cons write past ih =>
    cases n with
    | zero => exact h
    | succ n => exact ih h.2 n

/-- What a legal write makes of a row that is there: the row was shown, keeps its place, and stays
deleted if it was. -/
theorem Write.Legal.change {channelId : String} {rows : Rows} {write : Write} {held : Message}
    (h : write.Legal channelId rows) (hheld : rows.get? write.target = some held) :
    isShown held = true ∧ (write.change held).threadRootId = held.threadRootId ∧
      (write.change held).inChannel = held.inChannel ∧
      (held.deleted = true → (write.change held).deleted = true) := by
  cases write with
  | whole row => exact h.2.2.1 held hheld
  | reactions id _ | pinned id _ =>
    obtain ⟨held', hheld', hshown⟩ := h
    obtain rfl := Option.some.inj (hheld.symm.trans hheld')
    exact ⟨hshown, rfl, rfl, fun hdeleted => hdeleted⟩
  | deleted id =>
    obtain ⟨held', hheld', hshown⟩ := h
    obtain rfl := Option.some.inj (hheld.symm.trans hheld')
    exact ⟨hshown, rfl, rfl, fun _ => rfl⟩
  | thread id _ =>
    obtain ⟨held', hheld', hshown, -, -⟩ := h
    obtain rfl := Option.some.inj (hheld.symm.trans hheld')
    exact ⟨hshown, rfl, rfl, fun hdeleted => hdeleted⟩

theorem isShown_tombstoned (row : Message) : isShown (tombstoned row) = false := rfl

/-- A row of a legal history is proper. -/
theorem rowsAfter_proper {channelId : String} {history : List Write}
    (h : LegalHistory channelId history) {id : Nat} {row : Message}
    (hrow : (rowsAfter history).get? id = some row) : row.Proper channelId := by
  induction history generalizing id row with
  | nil => cases hrow
  | cons write past ih =>
    rw [rowsAfter] at hrow
    by_cases hid : id = write.target
    · cases hwritten : write.row? (rowsAfter past) with
      | none =>
        rw [Write.run, hwritten] at hrow
        exact ih h.2 hrow
      | some row' =>
        rw [hid, get?_run_target hwritten] at hrow
        obtain rfl := Option.some.inj hrow
        cases write with
        | whole row'' =>
          obtain rfl := Option.some.inj hwritten
          obtain ⟨-, hchannel, -, htop, hreply⟩ := h.1
          exact ⟨hchannel, htop, hreply⟩
        | reactions _ _ | pinned _ _ =>
          obtain ⟨held, hheld, rfl⟩ := Option.map_eq_some_iff.mp hwritten
          have hp := ih h.2 hheld
          exact ⟨hp.channel, hp.topLevel, hp.reply⟩
        | deleted _ =>
          obtain ⟨held, hheld, rfl⟩ := Option.map_eq_some_iff.mp hwritten
          have hp := ih h.2 hheld
          exact ⟨hp.channel, hp.topLevel, fun root hroot => ⟨rfl, (hp.reply root hroot).2⟩⟩
        | thread _ _ =>
          obtain ⟨held, hheld, rfl⟩ := Option.map_eq_some_iff.mp hwritten
          obtain ⟨held', hheld', -, hroot, -⟩ := h.1
          obtain rfl := Option.some.inj (hheld.symm.trans hheld')
          have hp := ih h.2 hheld
          exact ⟨hp.channel, hp.topLevel, fun root hr => absurd (hr.symm.trans hroot) nofun⟩
    · rw [get?_run_of_ne hid] at hrow
      exact ih h.2 hrow

namespace Server

variable {server : Server} {j k : Nat} {id : Nat} {row row' : Message}

theorem Legal.proper (h : server.Legal) (hrow : server.rowAt k id = some row) :
    row.Proper server.channelId :=
  rowsAfter_proper (LegalHistory.drop h _) hrow

/-- What one write does to a row it finds: the row was shown, keeps its place, and stays deleted if
it was. -/
theorem Legal.step (h : server.Legal) (hrow : server.rowAt k id = some row)
    (hrow' : server.rowAt (k + 1) id = some row') :
    row' = row ∨ isShown row = true ∧ row'.threadRootId = row.threadRootId ∧
      row'.inChannel = row.inChannel ∧ (row.deleted = true → row'.deleted = true) := by
  by_cases hk : k < server.history.length
  · obtain ⟨write, hwrite⟩ := moment_succ hk
    have hlegal : LegalHistory server.channelId (write :: moment server.history k) :=
      hwrite ▸ LegalHistory.drop h _
    rw [rowAt, rowsAt, hwrite, rowsAfter] at hrow'
    by_cases hid : id = write.target
    · subst hid
      cases hwritten : write.row? (rowsAfter (moment server.history k)) with
      | none =>
        rw [Write.run, hwritten] at hrow'
        exact .inl (Option.some.inj (hrow'.symm.trans hrow))
      | some row'' =>
        obtain ⟨hshown, hroot, hin, hdeleted⟩ := hlegal.1.change hrow
        rw [get?_run_target hwritten] at hrow'
        obtain rfl := Option.some.inj hrow'
        have hchange : row'' = write.change row := by
          cases write with
          | whole => exact (Option.some.inj hwritten).symm
          | reactions | pinned | thread | deleted =>
            obtain ⟨held, hheld, rfl⟩ := Option.map_eq_some_iff.mp hwritten
            rw [Option.some.inj (hheld.symm.trans hrow)]
        subst hchange
        exact .inr ⟨hshown, hroot, hin, hdeleted⟩
    · rw [get?_run_of_ne hid] at hrow'
      exact .inl (Option.some.inj (hrow'.symm.trans hrow))
  · have hk : server.seq ≤ k := Nat.le_of_not_lt hk
    rw [rowAt_of_ge (Nat.le_succ_of_le hk), ← rowAt_of_ge hk, hrow] at hrow'
    exact .inl (Option.some.inj hrow').symm

/-- **A row keeps its place.** -/
theorem Legal.place (h : server.Legal) (hrow : server.rowAt j id = some row) (hjk : j ≤ k)
    (hrow' : server.rowAt k id = some row') :
    row'.threadRootId = row.threadRootId ∧ row'.inChannel = row.inChannel := by
  induction hjk generalizing row' with
  | refl =>
    obtain rfl := Option.some.inj (hrow.symm.trans hrow')
    exact ⟨rfl, rfl⟩
  | @step m hjm ih =>
    obtain ⟨mid, hmid⟩ := rowAt_later hrow hjm
    obtain ⟨hroot, hin⟩ := ih hmid
    rcases h.step hmid hrow' with rfl | ⟨-, hroot', hin', -⟩
    · exact ⟨hroot, hin⟩
    · exact ⟨hroot'.trans hroot, hin'.trans hin⟩

/-- **A row that is deleted stays so.** -/
theorem Legal.deleted (h : server.Legal) (hrow : server.rowAt j id = some row)
    (hdeleted : row.deleted = true) (hjk : j ≤ k) (hrow' : server.rowAt k id = some row') :
    row'.deleted = true := by
  induction hjk generalizing row' with
  | refl => exact (Option.some.inj (hrow.symm.trans hrow')) ▸ hdeleted
  | @step m hjm ih =>
    obtain ⟨mid, hmid⟩ := rowAt_later hrow hjm
    rcases h.step hmid hrow' with rfl | ⟨-, -, -, hstays⟩
    · exact ih hmid
    · exact hstays (ih hmid)

/-- **A row that is hidden is not written again.** -/
theorem Legal.hidden (h : server.Legal) (hrow : server.rowAt j id = some row)
    (hhidden : isShown row = false) (hjk : j ≤ k) : server.rowAt k id = some row := by
  induction hjk with
  | refl => exact hrow
  | @step m _ ih =>
    obtain ⟨row', hrow'⟩ := rowAt_stays ih
    rcases h.step ih hrow' with rfl | ⟨hshown, -⟩
    · exact hrow'
    · rw [hhidden] at hshown
      cases hshown

end Server

end Stoop.Channel
