import Stoop.Lib.Sorted
import Stoop.Channel.Frames

/-!
# What an answer carries

Every row of an answer is a row the server had at a moment the answer was read at, each id once
(`Reading.Rows`). A page of changes brings everything stamped above where it was asked from, or, when
it is full, everything through its last row (`listChanges_brings`).
-/

set_option autoImplicit false

namespace Stoop.Channel

open Stoop.Lib

/-! ## Sorted lists -/

theorem nodup_values_ids (rows : Rows) : (rows.values.map (·.id)).Nodup := rows.nodup

theorem nodup_sorted_ids {rows : Rows} (p : Message → Bool) (f : Message → Nat) :
    (((rows.values.filter p).insertionSort fun a b => f a ≤ f b).map (·.id)).Nodup :=
  ((List.perm_insertionSort _ _).map _).nodup_iff.mpr
    ((nodup_values_ids rows).sublist (List.filter_sublist.map _))

/-! ## Rows as they were read -/

/-- A row as the server had it at a moment, but for what no seq governs. -/
def Server.Had (server : Server) (k : Nat) (row : Message) : Prop :=
  ∃ stored, server.rowAt k row.id = some stored ∧ row.versioned = stored.versioned

theorem Server.Had.copy {server : Server} {k : Nat} {row : Message} (h : server.Had k row) :
    server.timeline.copy k row.id = some row.copy := by
  obtain ⟨stored, hstored, heq⟩ := h
  exact Server.timeline_eq_some.mpr ⟨stored, hstored, (copy_of_versioned heq).symm⟩

/-- What rows read between two moments are: each as the server had it at some moment between, each
id once. -/
structure Server.Read (server : Server) (lo hi : Nat) (rows : List Message) : Prop where
  nodup : (rows.map (·.id)).Nodup
  had : ∀ row ∈ rows, ∃ k, lo ≤ k ∧ k ≤ hi ∧ server.Had k row

theorem Server.Read.copies {server : Server} {lo hi : Nat} {rows : List Message}
    (h : server.Read lo hi rows) : server.timeline.Read lo hi (copiesOf rows) := by
  intro id x hx
  obtain ⟨row, hrow, rfl, rfl⟩ := (copiesOf_eq_some h.nodup).mp hx
  obtain ⟨k, hlo, hhi, hhad⟩ := h.had row hrow
  exact ⟨k, hlo, hhi, hhad.copy⟩

@[simp] theorem Hydration.fill_id (hydration : Hydration) (row : Message) :
    (hydration.fill row).id = row.id :=
  id_of_versioned (hydration.versioned row)

theorem Hydration.map_ids (hydration : Hydration) (rows : List Message) :
    (rows.map hydration.fill).map (·.id) = rows.map (·.id) := by
  rw [List.map_map]
  exact List.map_congr_left fun row _ => hydration.fill_id row

/-- Rows found in the table at a moment, filled in as they are read. -/
theorem Server.Read.fill {server : Server} {lo hi : Nat} {rows : List Message}
    (hydration : Hydration) (hnodup : (rows.map (·.id)).Nodup)
    (h : ∀ row ∈ rows, ∃ k, lo ≤ k ∧ k ≤ hi ∧ server.rowAt k row.id = some row) :
    server.Read lo hi (rows.map hydration.fill) := by
  refine ⟨by rwa [hydration.map_ids], fun filled hfilled => ?_⟩
  obtain ⟨row, hrow, rfl⟩ := List.mem_map.mp hfilled
  obtain ⟨k, hlo, hhi, hk⟩ := h row hrow
  exact ⟨k, hlo, hhi, row, by rw [hydration.fill_id, hk], hydration.versioned row⟩

theorem mem_found {reading : Reading} {rows : Rows} {row : Message}
    (h : row ∈ (reading.found rows).values) : rows.get? row.id = some row :=
  Keyed.mem_values.mp (List.mem_of_mem_filter h)

/-- Where nothing was swept, a reading finds every row. -/
theorem found_of_swept_nil {reading : Reading} (h : reading.swept = []) (rows : Rows) :
    (reading.found rows).values = rows.values := by
  rw [Reading.found, h]
  exact List.filter_eq_self.mpr fun row _ => by simp

/-! ## Pages -/

theorem mem_timelineRows {rows : Rows} {rootId : Option Nat} {row : Message} :
    row ∈ timelineRows rows rootId ↔ row ∈ rows.values ∧ lists rootId row = true := by
  rw [timelineRows, List.mem_insertionSort, List.mem_filter]

theorem pageBefore_sublist (rows : Rows) (rootId beforeId : Option Nat) (limit : Nat) :
    (pageBefore rows rootId beforeId limit).Sublist (timelineRows rows rootId) :=
  (List.drop_sublist _ _).trans List.filter_sublist

theorem pageAfter_sublist (rows : Rows) (rootId : Option Nat) (afterId : Nat) (inclusive : Bool)
    (limit : Nat) : (pageAfter rows rootId afterId inclusive limit).Sublist
      (timelineRows rows rootId) :=
  (List.take_sublist _ _).trans List.filter_sublist

theorem nodup_timelineRows (rows : Rows) (rootId : Option Nat) :
    ((timelineRows rows rootId).map (·.id)).Nodup :=
  nodup_sorted_ids _ _

theorem lt_of_mem_pageBefore {rows : Rows} {rootId : Option Nat} {beforeId limit : Nat}
    {row : Message} (h : row ∈ pageBefore rows rootId (some beforeId) limit) :
    row.id < beforeId := by
  have := List.of_mem_filter (List.mem_of_mem_drop h)
  simpa using this

theorem le_of_mem_pageAfter {rows : Rows} {rootId : Option Nat} {afterId limit : Nat}
    {inclusive : Bool} {row : Message} (h : row ∈ pageAfter rows rootId afterId inclusive limit) :
    afterId ≤ row.id := by
  have := List.of_mem_filter (List.mem_of_mem_take h)
  simp only [Bool.or_eq_true, decide_eq_true_eq, Bool.and_eq_true, beq_iff_eq] at this
  omega

/-- What a page's rows are: in the timeline as the first query finds it, or at and after a centre as
the second does; each id once. -/
theorem pageOf_rows {rows rowsAfter : Rows} {rootId : Option Nat} {paging : Paging} {limit : Nat}
    {page : List Message × Bool × Bool}
    (h : pageOf rows rowsAfter rootId paging limit = some page) :
    (page.1.map (·.id)).Nodup ∧ ∀ row ∈ page.1,
      row ∈ timelineRows rows rootId ∨ row ∈ timelineRows rowsAfter rootId := by
  have hone : ∀ {page : List Message}, page.Sublist (timelineRows rows rootId) →
      (page.map (·.id)).Nodup ∧ ∀ row ∈ page,
        row ∈ timelineRows rows rootId ∨ row ∈ timelineRows rowsAfter rootId :=
    fun hpage => ⟨(nodup_timelineRows _ _).sublist (hpage.map _),
      fun row hrow => .inl (hpage.mem hrow)⟩
  cases paging with
  | newest => exact Option.some.inj h ▸ hone (pageBefore_sublist ..)
  | before id => exact Option.some.inj h ▸ hone (pageBefore_sublist ..)
  | after id => exact Option.some.inj h ▸ hone (pageAfter_sublist ..)
  | around id =>
    obtain ⟨centre, -, rfl⟩ := Option.map_eq_some_iff.mp h
    refine ⟨?_, fun row hrow => ?_⟩
    · rw [List.map_append]
      refine ((nodup_timelineRows _ _).sublist ((pageBefore_sublist ..).map _)).append
        ((nodup_timelineRows _ _).sublist ((pageAfter_sublist ..).map _)) ?_
      intro id hbefore hafter
      obtain ⟨row, hrow, rfl⟩ := List.mem_map.mp hbefore
      obtain ⟨row', hrow', hid⟩ := List.mem_map.mp hafter
      have := lt_of_mem_pageBefore hrow
      have := le_of_mem_pageAfter hrow'
      omega
    · rcases List.mem_append.mp hrow with hrow | hrow
      · exact .inl ((pageBefore_sublist ..).mem hrow)
      · exact .inr ((pageAfter_sublist ..).mem hrow)

/-- What an answer is made of. -/
theorem listMessages_eq_some {server : Server} {rootId : Option Nat} {paging : Paging}
    {limit : Nat} {reading : Reading} {res : ListMessagesResponse}
    (h : listMessages server rootId paging limit reading = some res) :
    ∃ page, pageOf (reading.found (rowsAt server.history reading.rowsAt))
        (reading.found (rowsAt server.history reading.afterAt)) rootId paging
        (clampPageSize limit defaultPageSize maxPageSize) = some page ∧
      res = { messages := page.1.map reading.hydration.fill, hasOlder := page.2.1
              hasNewer := page.2.2, channelSeq := reading.seqAt
              retentionFloorId := reading.floorId } := by
  simp only [listMessages] at h
  split at h
  next =>
    obtain ⟨page, hpage, rfl⟩ := Option.map_eq_some_iff.mp h
    exact ⟨page, hpage, rfl⟩
  next => cases h

/-- **A page is rows the server had.** -/
theorem listMessages_read {server : Server} {rootId : Option Nat} {paging : Paging} {limit : Nat}
    {reading : Reading} {asked now : Nat} (hbetween : reading.Between asked now)
    {res : ListMessagesResponse}
    (h : listMessages server rootId paging limit reading = some res) :
    res.channelSeq = reading.seqAt ∧ server.Read reading.seqAt now res.messages := by
  obtain ⟨page, hpage, rfl⟩ := listMessages_eq_some h
  obtain ⟨hnodup, hrows⟩ := pageOf_rows hpage
  obtain ⟨-, hseq, hafter, hnow⟩ := hbetween
  refine ⟨rfl, .fill _ hnodup fun row hrow => ?_⟩
  rcases hrows row hrow with hrow | hrow
  · exact ⟨reading.rowsAt, hseq, hafter.trans hnow, mem_found (mem_timelineRows.mp hrow).1⟩
  · exact ⟨reading.afterAt, hseq.trans hafter, hnow, mem_found (mem_timelineRows.mp hrow).1⟩

/-! ## Changes -/

theorem clampPageSize_pos (requested : Nat) {fallback maximum : Nat} (hf : 0 < fallback)
    (hm : 0 < maximum) : 0 < clampPageSize requested fallback maximum := by
  unfold clampPageSize
  split <;> omega

/-- The rows a page of changes is the first part of. -/
def changeRows (server : Server) (sinceSeq : Nat) (reading : Reading) : List Message :=
  (((reading.found (rowsAt server.history reading.rowsAt)).values.filter fun row =>
    decide (sinceSeq < row.seq)).insertionSort fun a b => a.seq ≤ b.seq)

theorem mem_changeRows {server : Server} {sinceSeq : Nat} {reading : Reading} {row : Message} :
    row ∈ changeRows server sinceSeq reading ↔
      row ∈ (reading.found (rowsAt server.history reading.rowsAt)).values ∧ sinceSeq < row.seq := by
  rw [changeRows, List.mem_insertionSort, List.mem_filter, decide_eq_true_eq]

theorem mem_listChanges {server : Server} {sinceSeq limit : Nat} {reading : Reading}
    {row : Message} (h : row ∈ (listChanges server sinceSeq limit reading).messages) :
    ∃ stored ∈ changeRows server sinceSeq reading,
      server.rowAt reading.rowsAt stored.id = some stored ∧ row = reading.hydration.fill stored := by
  obtain ⟨stored, hstored, rfl⟩ := List.mem_map.mp h
  have hmem := List.mem_of_mem_take hstored
  exact ⟨stored, hmem, mem_found (mem_changeRows.mp hmem).1, rfl⟩

/-- **A page of changes is rows the server had, all stamped above where it was asked from.** -/
theorem listChanges_read {server : Server} {sinceSeq limit : Nat} {reading : Reading} :
    server.Read reading.rowsAt reading.rowsAt (listChanges server sinceSeq limit reading).messages ∧
      ∀ row ∈ (listChanges server sinceSeq limit reading).messages,
        sinceSeq < row.seq ∧ row.seq ≤ reading.rowsAt := by
  constructor
  · refine .fill _ ((nodup_sorted_ids _ _).sublist ((List.take_sublist _ _).map _)) fun row hrow => ?_
    exact ⟨reading.rowsAt, Nat.le_refl _, Nat.le_refl _,
      mem_found (mem_changeRows.mp (List.mem_of_mem_take hrow)).1⟩
  · intro row hrow
    obtain ⟨stored, hmem, hat, rfl⟩ := mem_listChanges hrow
    have hseq : (reading.hydration.fill stored).seq = stored.seq :=
      (congrArg Message.seq (reading.hydration.versioned stored) :)
    rw [hseq]
    exact ⟨(mem_changeRows.mp hmem).2, (Server.rowAt_seq hat).2.1⟩

/-- What a page of changes reaches to: its last row when there is more to come, and else the moment
it was read at. -/
def reach (since : Nat) (res : ListChangesResponse) (reading : Reading) : Nat :=
  if res.hasMore then nextSince since res else reading.rowsAt

/-- **A page of changes brings everything it reaches over.** -/
theorem listChanges_brings {server : Server} {sinceSeq limit : Nat} {reading : Reading}
    (hswept : reading.swept = []) {id : Nat} {stored : Message}
    (hat : server.rowAt reading.rowsAt id = some stored) (hsince : sinceSeq < stored.seq)
    (hreach : stored.seq ≤
      reach sinceSeq (listChanges server sinceSeq limit reading) reading) :
    reading.hydration.fill stored ∈ (listChanges server sinceSeq limit reading).messages := by
  have hid : stored.id = id := Keyed.key_of_get? hat
  have hmem : stored ∈ changeRows server sinceSeq reading := by
    rw [mem_changeRows, found_of_swept_nil hswept]
    exact ⟨Keyed.mem_values.mpr (by rw [hid]; exact hat), hsince⟩
  refine List.mem_map.mpr ⟨stored, ?_, rfl⟩
  change stored ∈ (changeRows server sinceSeq reading).take
    (clampPageSize limit defaultChangesPageSize maxChangesPageSize)
  have hpos := @clampPageSize_pos limit defaultChangesPageSize maxChangesPageSize (by decide) (by decide)
  generalize hlimit : clampPageSize limit defaultChangesPageSize maxChangesPageSize = n at hpos ⊢
  rcases (List.mem_append.mp (by rwa [List.take_append_drop n]) :
    stored ∈ (changeRows server sinceSeq reading).take n ∨
      stored ∈ (changeRows server sinceSeq reading).drop n) with htake | hdrop
  · exact htake
  · -- a row left behind: the page is full, and the row is no lower than its last
    have hfull : ((changeRows server sinceSeq reading).take n).length = n := by
      rw [List.length_take]
      have := List.length_pos_of_mem hdrop
      rw [List.length_drop] at this
      omega
    obtain ⟨last, hlast⟩ : ∃ last,
        ((changeRows server sinceSeq reading).take n).getLast? = some last := by
      cases h : ((changeRows server sinceSeq reading).take n).getLast? with
      | none =>
        rw [List.getLast?_eq_none_iff.mp h] at hfull
        exact absurd hfull (by simp; omega)
      | some last => exact ⟨last, rfl⟩
    have hlastmem := List.mem_of_getLast? hlast
    have hle := le_of_mem_drop (pairwise_sorted Message.seq _) hlastmem hdrop
    have hres : reach sinceSeq (listChanges server sinceSeq limit reading) reading =
        max sinceSeq last.seq := by
      have hmessages : (listChanges server sinceSeq limit reading).messages.getLast? =
          some (reading.hydration.fill last) := by
        change (((changeRows server sinceSeq reading).take _).map _).getLast? = _
        rw [hlimit, List.getLast?_map, hlast, Option.map_some]
      have hmore : (listChanges server sinceSeq limit reading).hasMore = true := by
        change (((changeRows server sinceSeq reading).take _).length == _) = true
        rw [hlimit, hfull, beq_self_eq_true]
      have hseq : (reading.hydration.fill last).seq = last.seq :=
        (congrArg Message.seq (reading.hydration.versioned last) :)
      rw [reach, if_pos hmore, nextSince, hmessages, ← hseq]
    have hlastsince := (mem_changeRows.mp (List.mem_of_mem_take hlastmem)).2
    have heq : last.seq = stored.seq := by omega
    have hlastat := mem_found (mem_changeRows.mp (List.mem_of_mem_take hlastmem)).1
    have hsame : last.id = id := rowsAfter_unique hlastat hat heq
    rw [hsame] at hlastat
    rw [Option.some.inj (hat.symm.trans hlastat)]
    exact hlastmem

/-- A page of changes reaches no further than the moment it was read at, and no less far than where
it was asked from. -/
theorem reach_bounds {server : Server} {sinceSeq limit : Nat} {reading : Reading}
    (h : sinceSeq ≤ reading.rowsAt) :
    sinceSeq ≤ reach sinceSeq (listChanges server sinceSeq limit reading) reading ∧
      reach sinceSeq (listChanges server sinceSeq limit reading) reading ≤ reading.rowsAt := by
  unfold reach
  split
  · unfold nextSince
    split
    next last hlast =>
      have := (listChanges_read.2 last (List.mem_of_getLast? hlast)).2
      omega
    next => omega
  · omega

/-- A page of changes speaks for no position after the moment it was read at. -/
theorem top_le {server : Server} {sinceSeq limit : Nat} {reading : Reading}
    (h : reading.seqAt ≤ reading.rowsAt) :
    (listChanges server sinceSeq limit reading).top ≤ reading.rowsAt := by
  have hfold : ∀ (rows : List Message) (n : Nat), n ≤ reading.rowsAt →
      (∀ row ∈ rows, row.seq ≤ reading.rowsAt) →
        rows.foldl (fun top row => max top row.seq) n ≤ reading.rowsAt := by
    intro rows
    induction rows with
    | nil => exact fun _ hn _ => hn
    | cons row rows ih =>
      intro n hn hrows
      exact ih _ (Nat.max_le.mpr ⟨hn, hrows row List.mem_cons_self⟩)
        fun row' hrow' => hrows row' (List.mem_cons_of_mem _ hrow')
  exact hfold _ _ h fun row hrow => (listChanges_read.2 row hrow).2

end Stoop.Channel
