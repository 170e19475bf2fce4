import Stoop.Channel.ThreadUnread

/-!
# A thread's unread count is never inflated

The law runs the screen beside a tally: the replies that the reader's count of one thread stands for, as far
as the server's reading and the events tell (`Tallied`). What an event adds was sent after the copy of the
root that was held, at that copy's seq; what a copy brings was read by the server.

## The law

`unread_never_inflated`: where the replies a copy of the root counts had been sent by the copy's seq
(`ReadTogether`), the count is no more than the thread's replies, stands for replies told apart, and an event
that is stale moves no row.

`reply_counted_twice`: a reply that lands between the server's two queries is in the copy's count, and its own
event adds it again.
-/

set_option autoImplicit false

namespace Stoop.Channel

open Stoop.Lib

/-! ## The machine -/

/-- The copies of rows a page brings that the log takes. -/
def ScreenAction.copies (log : ChannelLog) : ScreenAction → List Message
  | .caughtUp res => res.messages.filter (takes log.rows fromPage)
  | .refreshed res => res.messages.filter (takes log.rows fromPage)
  | .opened answer =>
    if answer.stands log then answer.res.messages.filter (takes log.rows fromPage) else []
  | .paged _ answer =>
    if (viewOf log answer.rootId).isSome && answer.stands log then
      answer.res.messages.filter (takes log.rows fromPage)
    else []
  | .header _ | .threadChanged .. | .messageCreated _ | .threadRead _ | .threadMuted .. => []

/-- A screen, and the replies that its count of one thread stands for. -/
structure Tallied where
  screen : ChannelScreen
  counted : List Nat

/-- What a summary counts. -/
def countOf (summary : Option ThreadSummary) : Nat := (summary.map (·.replyCount)).getD 0

/-- The reader's count of a root, where it is held with a summary. -/
def unreadOf (log : ChannelLog) (rootId : Nat) : Nat :=
  (((log.rows.get? rootId).bind (·.thread)).map (·.unreadCount)).getD 0

variable (thread : Thread) (user : String)

/-- What a count stands for once it goes from one number to another as a summary takes a held copy's place:
what it stood for, and where it rose what was sent since. -/
def raised (counted : List Nat) (root : Message) (seq unread unread' : Nat) : List Nat :=
  let base := if root.thread.isSome then counted else []
  if unread < unread' then base ++ thread.sentIn root.seq seq else base

/-- The tally after an action: a read or a mute clears it, an event that raises the count adds what was sent
since the copy held, and a copy brings the server's. -/
def tally (before after : ChannelLog) (reading : ThreadReading) (counted : List Nat) :
    ScreenAction → List Nat
  | .threadRead rootId => if rootId = thread.rootId then [] else counted
  | .threadMuted rootId muted => if rootId = thread.rootId ∧ muted = true then [] else counted
  | .threadChanged _ rootId _ seq =>
    if rootId = thread.rootId then
      match before.rows.get? rootId with
      | some root => raised thread counted root seq (unreadOf before rootId) (unreadOf after rootId)
      | none => counted
    else counted
  | action =>
    if (action.copies before).any (·.id == thread.rootId) then
      (((after.rows.get? thread.rootId).bind (·.thread)).map (thread.counted user reading)).getD []
    else counted

/-- One action, with when the server worked out the reader's half in what it brings. -/
def tallied (t : Tallied) (a : ScreenAction × ThreadReading) : Option Tallied :=
  let screen := screenReducer t.screen a.1
  some { screen := screen, counted := tally thread user t.screen.log screen.log a.2 t.counted a.1 }

/-- What the server sends of a root. An event counts what the thread does at its seq; a message sent has no
replies yet; and a copy counts what the thread does at its own seq, and what of it was unread at the reading
or after. -/
def Sends (t : Tallied) (a : ScreenAction × ThreadReading) : Prop :=
  match a.1 with
  | .threadChanged _ rootId next seq => rootId = thread.rootId → countOf next = thread.countAt seq
  | .messageCreated row => row.id = thread.rootId → row.thread = none ∧ thread.countAt row.seq = 0
  | action => ∀ copy ∈ action.copies t.screen.log, copy.id = thread.rootId →
    countOf copy.thread = thread.countAt copy.seq ∧ copy.seq ≤ a.2.moment ∧
      ∀ summary ∈ copy.thread, summary.unreadCount = (thread.counted user a.2 summary).length

/-- What a copy of the root counts as unread had been sent by the copy's seq. -/
def ReadTogether (t : Tallied) (a : ScreenAction × ThreadReading) : Prop :=
  ∀ copy ∈ a.1.copies t.screen.log, copy.id = thread.rootId → ∀ summary ∈ copy.thread,
    ∀ reply ∈ thread.replies, reply.id ∈ thread.counted user a.2 summary → reply.sentAt ≤ copy.seq

instance (t : Tallied) : (a : ScreenAction × ThreadReading) → Decidable (Sends thread user t a)
  | (.threadChanged .., _) => inferInstanceAs (Decidable (_ = _ → _ = _))
  | (.messageCreated _, _) => inferInstanceAs (Decidable (_ = _ → _ ∧ _ = _))
  | (.caughtUp _, _) | (.refreshed _, _) | (.opened _, _) | (.paged .., _) | (.header _, _)
  | (.threadRead _, _) | (.threadMuted .., _) =>
    inferInstanceAs (Decidable (∀ copy ∈ ScreenAction.copies t.screen.log _, copy.id = thread.rootId →
      countOf copy.thread = thread.countAt copy.seq ∧ copy.seq ≤ ThreadReading.moment _ ∧
        ∀ summary, summary ∈ copy.thread →
          summary.unreadCount = (thread.counted user _ summary).length))

instance (t : Tallied) (a : ScreenAction × ThreadReading) : Decidable (ReadTogether thread user t a) :=
  inferInstanceAs (Decidable (∀ copy ∈ a.1.copies t.screen.log, copy.id = thread.rootId →
    ∀ summary, summary ∈ copy.thread → ∀ reply ∈ thread.replies,
      reply.id ∈ thread.counted user a.2 summary → reply.sentAt ≤ copy.seq))

/-- The count of a held root, and what it stands for. -/
structure Explained (counted : List Nat) (row : Message) : Prop where
  count : countOf row.thread = thread.countAt row.seq
  half : ∀ summary ∈ row.thread, summary.unreadCount ≤ summary.replyCount ∧
    summary.unreadCount ≤ counted.length ∧ counted.Nodup ∧
      ∀ id ∈ counted, ∃ reply ∈ thread.replies, reply.id = id ∧ reply.sentAt ≤ row.seq

/-- **The invariant.** -/
def Uninflated (t : Tallied) : Prop :=
  ∀ row, t.screen.log.rows.get? thread.rootId = some row → Explained thread t.counted row

variable {thread user}

/-! ## Rows that keep their summaries -/

/-- Rows that are all rows of before, each with its summary, at its seq. -/
def KeepsThreads (rows rows' : Rows) : Prop :=
  ∀ id row', rows'.get? id = some row' →
    ∃ row, rows.get? id = some row ∧ row'.thread = row.thread ∧ row'.seq = row.seq

theorem KeepsThreads.refl (rows : Rows) : KeepsThreads rows rows := fun _ row' h => ⟨row', h, rfl, rfl⟩

theorem KeepsThreads.trans {a b c : Rows} (h : KeepsThreads a b) (h' : KeepsThreads b c) : KeepsThreads a c := by
  intro id row'' hrow''
  obtain ⟨row', hrow', hthread', hseq'⟩ := h' id row'' hrow''
  obtain ⟨row, hrow, hthread, hseq⟩ := h id row' hrow'
  exact ⟨row, hrow, hthread'.trans hthread, hseq'.trans hseq⟩

theorem keepsThreads_withoutRows (rows : Rows) (ids : List Nat) :
    KeepsThreads rows (withoutRows rows ids) := by
  intro id row h
  rw [get?_withoutRows] at h
  split at h
  · cases h
  · exact ⟨row, h, rfl, rfl⟩

theorem keepsThreads_withQuotesBlanked (rows : Rows) (deletedId : Nat) :
    KeepsThreads rows (withQuotesBlanked rows deletedId) := by
  intro id row h
  rw [get?_withQuotesBlanked] at h
  obtain ⟨row', hrow', rfl⟩ := Option.map_eq_some_iff.mp h
  exact ⟨row', hrow', rfl, rfl⟩

theorem keepsThreads_pruned (log : ChannelLog) (rootId : Option Nat) (drop : Drop) :
    KeepsThreads log.rows (pruned log rootId drop).rows := by
  unfold pruned
  split
  next => exact .refl _
  next =>
    simp only
    split
    next => exact .refl _
    next =>
      rw [rows_withView]
      exact keepsThreads_withoutRows _ _

theorem keepsThreads_prunedIfGrown (log next : ChannelLog) (rootId : Option Nat) :
    KeepsThreads next.rows (prunedIfGrown log next rootId).rows := by
  unfold prunedIfGrown
  split
  · exact .refl _
  · exact keepsThreads_pruned _ _ _

theorem keepsThreads_withFloor (log : ChannelLog) (floorId : Option Nat) :
    KeepsThreads log.rows (withFloor log floorId).rows :=
  fun id row hrow => ⟨row, (floors_withFloor log floorId).rows id row hrow, rfl, rfl⟩

theorem keepsThreads_arrived {log : ChannelLog} {rows : Rows} {incoming : List Message} {source : Source}
    (next : ChannelLog × List Nat) (row : Message) :
    KeepsThreads next.1.rows (arrived log rows incoming source next row).1.rows := by
  unfold arrived
  split
  next =>
    have quotes : KeepsThreads next.1.rows (if (rows.get? row.id).any (·.deleted) then
        { next.1 with rows := withQuotesBlanked next.1.rows row.id } else next.1).rows := by
      split
      · exact keepsThreads_withQuotesBlanked _ _
      · exact .refl _
    simp only
    split
    · exact quotes
    · rw [rows_placed]
      exact quotes
  next => exact .refl _

/-- **An arrival keeps the summaries of its merge.** -/
theorem keepsThreads_withArrivals (log : ChannelLog) (incoming : List Message) (source : Source) :
    KeepsThreads (mergeRows log.rows incoming source) (withArrivals log incoming source).rows := by
  unfold withArrivals
  split
  next =>
    have placed : ∀ (rest : List Message) (next : ChannelLog × List Nat), KeepsThreads next.1.rows
        (rest.foldl (arrived log (mergeRows log.rows incoming source) incoming source) next).1.rows := by
      intro rest
      induction rest with
      | nil => exact fun next => .refl _
      | cons row rest ih => exact fun next => (keepsThreads_arrived next row).trans (ih _)
    have pruned : ∀ (roots : List Nat) (next : ChannelLog), KeepsThreads next.rows
        (roots.foldl (fun next root => prunedIfGrown log next (some root)) next).rows := by
      intro roots
      induction roots with
      | nil => exact fun next => .refl _
      | cons root roots ih => exact fun next => (keepsThreads_prunedIfGrown _ _ _).trans (ih _)
    exact ((placed incoming ({ log with rows := mergeRows log.rows incoming source }, [])).trans
      (keepsThreads_prunedIfGrown _ _ _)).trans (pruned _ _)
  next h =>
    rw [Bool.not_eq_true] at h
    rw [mergeRows_of_takes_none h]
    exact .refl _

/-! ## Counting replies -/

theorem countP_or_le {α : Type} (p q : α → Bool) (l : List α) :
    l.countP (fun a => p a || q a) ≤ l.countP p + l.countP q := by
  induction l with
  | nil => exact Nat.zero_le _
  | cons a l ih =>
    simp only [List.countP_cons]
    cases p a <;> cases q a <;> simp <;> omega

/-- A thread counts no more at a later seq than at an earlier, and what was sent since. -/
theorem countAt_le {since through : Nat} (h : since ≤ through) :
    thread.countAt through ≤ thread.countAt since + (thread.sentIn since through).length := by
  simp only [Thread.countAt, Thread.sentIn, List.length_map, ← List.countP_eq_length_filter]
  refine le_trans (List.countP_mono_left fun reply _ hlive => ?_) (countP_or_le _ _ _)
  simp only [Reply.liveAt, Bool.and_eq_true, decide_eq_true_eq, Bool.or_eq_true] at hlive ⊢
  obtain ⟨hsent, hstands⟩ := hlive
  by_cases hbefore : reply.sentAt ≤ since
  · refine .inl ⟨hbefore, ?_⟩
    cases hremoved : reply.removedAt with
    | none => rfl
    | some removed =>
      rw [hremoved, Option.all_some, decide_eq_true_eq] at hstands
      exact decide_eq_true (h.trans_lt hstands)
  · exact .inr ⟨Nat.lt_of_not_le hbefore, hsent⟩

theorem nodup_map_filter (p : Reply → Bool) : ((thread.replies.filter p).map (·.id)).Nodup :=
  thread.nodup.sublist (List.filter_sublist.map _)

theorem mem_sentIn {since through id : Nat} : id ∈ thread.sentIn since through ↔
    ∃ reply ∈ thread.replies, reply.id = id ∧ since < reply.sentAt ∧ reply.sentAt ≤ through := by
  simp only [Thread.sentIn, List.mem_map, List.mem_filter, Bool.and_eq_true, decide_eq_true_eq]
  constructor
  · rintro ⟨reply, ⟨hreply, hsince, hthrough⟩, hid⟩
    exact ⟨reply, hreply, hid, hsince, hthrough⟩
  · rintro ⟨reply, hreply, hid, hsince, hthrough⟩
    exact ⟨reply, ⟨hreply, hsince, hthrough⟩, hid⟩

/-- What was sent since is none of what had been sent by then. -/
theorem nodup_append_sentIn {counted : List Nat} {since : Nat} (through : Nat) (hnodup : counted.Nodup)
    (hsent : ∀ id ∈ counted, ∃ reply ∈ thread.replies, reply.id = id ∧ reply.sentAt ≤ since) :
    (counted ++ thread.sentIn since through).Nodup := by
  refine hnodup.append (nodup_map_filter _) fun id hid hlater => ?_
  obtain ⟨reply, hreply, heq, hle⟩ := hsent id hid
  obtain ⟨reply', hreply', heq', hlt, -⟩ := mem_sentIn.mp hlater
  obtain rfl := List.inj_on_of_nodup_map thread.nodup hreply hreply' (heq.trans heq'.symm)
  exact absurd hle (Nat.not_le_of_lt hlt)

theorem counted_nodup (reading : ThreadReading) (summary : ThreadSummary) :
    (thread.counted user reading summary).Nodup := by
  unfold Thread.counted
  split
  · exact nodup_map_filter _
  · exact List.nodup_nil

theorem mem_counted {reading : ThreadReading} {summary : ThreadSummary} {id : Nat}
    (h : id ∈ thread.counted user reading summary) :
    ∃ reply ∈ thread.replies, reply.id = id ∧ reply.liveAt reading.moment = true := by
  unfold Thread.counted at h
  split at h
  · obtain ⟨reply, hreply, rfl⟩ := List.mem_map.mp h
    obtain ⟨hmem, hreads⟩ := List.mem_filter.mp hreply
    simp only [Bool.and_eq_true] at hreads
    exact ⟨reply, hmem, rfl, hreads.1.2⟩
  · cases h

/-- What a copy counts, all sent by its seq and read at it or after, is no more than its summary counts. -/
theorem length_counted_le {reading : ThreadReading} {summary : ThreadSummary} {seq : Nat}
    (hmoment : seq ≤ reading.moment) (hsent : ∀ reply ∈ thread.replies,
      reply.id ∈ thread.counted user reading summary → reply.sentAt ≤ seq) :
    (thread.counted user reading summary).length ≤ thread.countAt seq := by
  have live : ∀ id ∈ thread.counted user reading summary,
      id ∈ (thread.replies.filter (·.liveAt seq)).map (·.id) := by
    intro id hid
    obtain ⟨reply, hreply, rfl, hlive⟩ := mem_counted hid
    refine List.mem_map_of_mem (List.mem_filter.mpr ⟨hreply, ?_⟩)
    simp only [Reply.liveAt, Bool.and_eq_true, decide_eq_true_eq] at hlive ⊢
    refine ⟨hsent reply hreply hid, ?_⟩
    cases hremoved : reply.removedAt with
    | none => rfl
    | some removed =>
      rw [hremoved, Option.all_some, decide_eq_true_eq] at hlive
      exact decide_eq_true (hmoment.trans_lt hlive.2)
  have few := (List.subperm_of_subset (counted_nodup reading summary) live).length_le
  rwa [List.length_map] at few

/-! ## One action -/

theorem Explained.of_kept {counted : List Nat} {row row' : Message} (h : Explained thread counted row)
    (hthread : row'.thread = row.thread) (hseq : row'.seq = row.seq) : Explained thread counted row' := by
  refine ⟨?_, ?_⟩
  · rw [hthread, hseq]
    exact h.count
  · rw [hthread, hseq]
    exact h.half

/-- A root with no summary explains its count by anything. -/
theorem explained_of_none {counted : List Nat} {row : Message} (hthread : row.thread = none)
    (hcount : thread.countAt row.seq = 0) : Explained thread counted row :=
  ⟨by rw [hthread, hcount]; rfl, fun summary h => by rw [hthread] at h; cases h⟩

/-- A summary whose count was cleared, and what it did not change. -/
theorem get?_withThreadOverlay {log : ChannelLog} {rootId id : Nat} {patch : ThreadOverlay} {row : Message}
    (h : (withThreadOverlay log rootId patch).rows.get? id = some row) :
    log.rows.get? id = some row ∧ (id = rootId → row.thread = none) ∨
      id = rootId ∧ ∃ held summary, log.rows.get? id = some held ∧ held.thread = some summary ∧
        row = { held with thread := some { summary with
          participating := patch.participating.getD summary.participating
          muted := patch.muted.getD summary.muted
          unreadCount := patch.unreadCount.getD summary.unreadCount } } := by
  unfold withThreadOverlay at h
  cases hheld : log.rows.get? rootId with
  | none =>
    rw [hheld] at h
    refine .inl ⟨h, fun hid => ?_⟩
    rw [hid, hheld] at h
    cases h
  | some held =>
    rw [hheld] at h
    simp only at h
    cases hthread : held.thread with
    | none =>
      rw [hthread] at h
      refine .inl ⟨h, fun hid => ?_⟩
      rw [hid, hheld] at h
      rw [← Option.some.inj h]
      exact hthread
    | some summary =>
      rw [hthread] at h
      obtain rfl := Keyed.key_of_get? hheld
      rcases Keyed.get?_set_cases h with ⟨hid, rfl⟩ | ⟨hne, hkept⟩
      · obtain rfl : held.id = id := hid
        exact .inr ⟨rfl, held, summary, hheld, hthread, rfl⟩
      · exact .inl ⟨hkept, fun hid => absurd hid.symm hne⟩

/-- The reader's read or mute of a thread, which clears its count. -/
theorem explained_cleared {t : Tallied} (inv : Uninflated thread t) {patch : ThreadOverlay}
    (hclears : patch.unreadCount = some 0) {row : Message}
    (h : (withThreadOverlay t.screen.log thread.rootId patch).rows.get? thread.rootId = some row) :
    Explained thread [] row := by
  rcases get?_withThreadOverlay h with ⟨hrow, hnone⟩ | ⟨-, held, summary, hheld, hthread, rfl⟩
  · have count := (inv row hrow).count
    rw [hnone rfl] at count
    exact explained_of_none (hnone rfl) count.symm
  · have count := (inv held hheld).count
    rw [hthread] at count
    refine ⟨count, fun summary' hsummary' => ?_⟩
    obtain rfl := Option.some.inj hsummary'
    simp only [hclears, Option.getD_some]
    exact ⟨Nat.zero_le _, Nat.zero_le _, List.nodup_nil, fun id hid => absurd hid List.not_mem_nil⟩

/-- An overlay on another root, or one that leaves the count. -/
theorem explained_overlaid {t : Tallied} (inv : Uninflated thread t) {rootId : Nat} {patch : ThreadOverlay}
    (hkeeps : rootId = thread.rootId → patch.unreadCount = none) {row : Message}
    (h : (withThreadOverlay t.screen.log rootId patch).rows.get? thread.rootId = some row) :
    Explained thread t.counted row := by
  rcases get?_withThreadOverlay h with ⟨hrow, -⟩ | ⟨hroot, held, summary, hheld, hthread, rfl⟩
  · exact inv row hrow
  · have before := inv held hheld
    have count := before.count
    rw [hthread] at count
    refine ⟨count, fun summary' hsummary' => ?_⟩
    obtain rfl := Option.some.inj hsummary'
    rw [hkeeps hroot.symm]
    exact before.half summary hthread

/-- An arrival of one row, at another id or with no summary, moves no other root's. -/
theorem get?_arrival {log : ChannelLog} {row row' : Message} {source : Source} {id : Nat}
    (h : (withArrivals log [row] source).rows.get? id = some row') :
    (∃ held, log.rows.get? id = some held ∧ row'.thread = held.thread ∧ row'.seq = held.seq) ∨
      row.id = id ∧ takes log.rows source row = true ∧ row'.thread = (taken log.rows source row).thread ∧
        row'.seq = row.seq := by
  obtain ⟨merged, hmerged, hthread, hseq⟩ := keepsThreads_withArrivals log [row] source id row' h
  rcases mergeRows_cases hmerged with ⟨hheld, -⟩ | ⟨copy, hcopy, htakes, hid, rfl⟩
  · exact .inl ⟨merged, hheld, hthread, hseq⟩
  · obtain rfl := List.mem_singleton.mp hcopy
    refine .inr ⟨hid, htakes, hthread, hseq.trans ?_⟩
    unfold taken
    split
    · split <;> rfl
    · rfl

theorem taken_thread_none {rows : Rows} {source : Source} {row : Message} (h : row.thread = none) :
    (taken rows source row).thread = none := by
  unfold taken
  split
  · split
    · simp [h, withViewerHalf]
    · exact h
  · exact h

theorem explained_created {t : Tallied} (inv : Uninflated thread t) {row : Message}
    (hsends : row.id = thread.rootId → row.thread = none ∧ thread.countAt row.seq = 0) {row' : Message}
    (h : (withEvent t.screen.log (.messageCreated row)).rows.get? thread.rootId = some row') :
    Explained thread t.counted row' := by
  rcases withEvent_rows t.screen.log (.messageCreated row) with hsame | ⟨-, hrows⟩
  · rw [hsame] at h
    exact inv row' h
  · rw [hrows] at h
    rcases get?_arrival h with ⟨held, hheld, hthread, hseq⟩ | ⟨hid, -, hthread, hseq⟩
    · exact (inv held hheld).of_kept hthread hseq
    · obtain ⟨hnone, hcount⟩ := hsends hid
      exact explained_of_none (hthread.trans (taken_thread_none hnone)) (by rw [hseq, hcount])

/-! ## A page -/

/-- The rows a page of any kind leaves: as they were, or copies of it that were taken. -/
theorem page_cases {state : ChannelScreen} {messages : List Message} {rows' : Rows} {id : Nat} {row' : Message}
    (hrows : KeepsThreads (mergeRows state.log.rows messages fromPage) rows')
    (h : rows'.get? id = some row') :
    (∃ row, state.log.rows.get? id = some row ∧ row'.thread = row.thread ∧ row'.seq = row.seq ∧
        ∀ copy ∈ messages.filter (takes state.log.rows fromPage), copy.id ≠ id) ∨
      ∃ copy ∈ messages.filter (takes state.log.rows fromPage), copy.id = id ∧
        row'.thread = copy.thread ∧ row'.seq = copy.seq := by
  obtain ⟨merged, hmerged, hthread, hseq⟩ := hrows id row' h
  rcases mergeRows_cases hmerged with ⟨hheld, hkept⟩ | ⟨copy, hcopy, htakes, hid, rfl⟩
  · refine .inl ⟨merged, hheld, hthread, hseq, fun copy hcopy hid => ?_⟩
    obtain ⟨hmem, htakes⟩ := List.mem_filter.mp hcopy
    rw [changed_iff.mpr ⟨copy, hmem, hid, htakes⟩] at hkept
    cases hkept
  · have same : taken state.log.rows fromPage copy = copy := by
      unfold taken
      split <;> rfl
    rw [same] at hthread hseq
    exact .inr ⟨copy, List.mem_filter.mpr ⟨hcopy, htakes⟩, hid, hthread, hseq⟩

/-- The copy a page leaves, read together with its count, explains it. -/
theorem explained_copy {reading : ThreadReading} {copy : Message}
    (hsends : countOf copy.thread = thread.countAt copy.seq ∧ copy.seq ≤ reading.moment ∧
      ∀ summary ∈ copy.thread, summary.unreadCount = (thread.counted user reading summary).length)
    (htogether : ∀ summary ∈ copy.thread, ∀ reply ∈ thread.replies,
      reply.id ∈ thread.counted user reading summary → reply.sentAt ≤ copy.seq) :
    Explained thread ((copy.thread.map (thread.counted user reading)).getD []) copy := by
  obtain ⟨count, moment, unread⟩ := hsends
  refine ⟨count, fun summary hsummary => ?_⟩
  rw [Option.mem_def.mp hsummary] at count
  rw [Option.mem_def.mp hsummary, Option.map_some, Option.getD_some, unread summary hsummary]
  refine ⟨?_, le_rfl, counted_nodup reading summary, fun id hid => ?_⟩
  · rw [show summary.replyCount = thread.countAt copy.seq from count]
    exact length_counted_le moment (htogether summary hsummary)
  · obtain ⟨reply, hreply, rfl, -⟩ := mem_counted hid
    exact ⟨reply, hreply, rfl, htogether summary hsummary reply hreply hid⟩

/-- A page's rows, taken or not. -/
theorem explained_page {t : Tallied} (inv : Uninflated thread t) {reading : ThreadReading}
    {messages : List Message} {rows' : Rows}
    (hrows : KeepsThreads (mergeRows t.screen.log.rows messages fromPage) rows')
    (hsends : ∀ copy ∈ messages.filter (takes t.screen.log.rows fromPage), copy.id = thread.rootId →
      countOf copy.thread = thread.countAt copy.seq ∧ copy.seq ≤ reading.moment ∧
        ∀ summary ∈ copy.thread, summary.unreadCount = (thread.counted user reading summary).length)
    (htogether : ∀ copy ∈ messages.filter (takes t.screen.log.rows fromPage), copy.id = thread.rootId →
      ∀ summary ∈ copy.thread, ∀ reply ∈ thread.replies,
        reply.id ∈ thread.counted user reading summary → reply.sentAt ≤ copy.seq)
    {row' : Message} (h : rows'.get? thread.rootId = some row') :
    Explained thread
      (if (messages.filter (takes t.screen.log.rows fromPage)).any (·.id == thread.rootId) then
        (((rows'.get? thread.rootId).bind (·.thread)).map (thread.counted user reading)).getD []
      else t.counted) row' := by
  rcases page_cases hrows h with ⟨row, hrow, hthread, hseq, hnone⟩ | ⟨copy, hcopy, hid, hthread, hseq⟩
  · have away : (messages.filter (takes t.screen.log.rows fromPage)).any (·.id == thread.rootId) = false :=
      List.any_eq_false.mpr fun copy hcopy hid => hnone copy hcopy (eq_of_beq hid)
    rw [away, if_neg Bool.false_ne_true]
    exact (inv row hrow).of_kept hthread hseq
  · have brings : (messages.filter (takes t.screen.log.rows fromPage)).any (·.id == thread.rootId) = true :=
      List.any_eq_true.mpr ⟨copy, hcopy, beq_iff_eq.mpr hid⟩
    rw [brings, if_pos rfl, h, Option.bind_some, hthread]
    exact (explained_copy (hsends copy hcopy hid) (htogether copy hcopy hid)).of_kept hthread hseq

theorem keepsThreads_opened {log : ChannelLog} {answer : PageAnswer} (hstands : answer.stands log = true) :
    KeepsThreads (mergeRows log.rows answer.res.messages fromPage) (opened log answer).rows := by
  have hgen : ((viewOf log answer.rootId).getD emptyView).generation = answer.generation := eq_of_beq hstands
  simp only [opened, hgen, bne_self_eq_false, Bool.false_eq_true, if_false, rows_stretched]
  refine KeepsThreads.trans ?_ (keepsThreads_withFloor _ _)
  rw [rows_withView]
  split <;> exact .refl _

theorem paged_cases (log : ChannelLog) (direction : Direction) (answer : PageAnswer) :
    ((viewOf log answer.rootId).isSome && answer.stands log) = true ∧
        KeepsThreads (mergeRows log.rows answer.res.messages fromPage) (paged log direction answer).rows ∨
      ((viewOf log answer.rootId).isSome && answer.stands log) = false ∧ paged log direction answer = log := by
  unfold paged PageAnswer.stands
  cases viewOf log answer.rootId with
  | none => exact .inr ⟨rfl, rfl⟩
  | some view =>
    by_cases hgen : (view.generation == answer.generation) = true
    · refine .inl ⟨by simpa using hgen, ?_⟩
      simp only [bne, hgen, Bool.not_true, Bool.false_eq_true, if_false]
      refine KeepsThreads.trans ?_ (keepsThreads_pruned _ _ _)
      rw [rows_stretched]
      refine KeepsThreads.trans ?_ (keepsThreads_withFloor _ _)
      rw [rows_withView]
      exact .refl _
    · refine .inr ⟨by simpa using hgen, ?_⟩
      simp [bne, Bool.eq_false_iff.mpr hgen]

/-! ## A new summary -/

/-- The half that is kept is kept once. -/
theorem withViewerHalf_twice (next held : Option ThreadSummary) :
    withViewerHalf (withViewerHalf next held) held = withViewerHalf next held := by
  cases next <;> cases held <;> rfl

/-- An event the log applies raises the root's seq; one it does not leaves the rows. -/
theorem threadChanged_cases (log : ChannelLog) (channelId : String) (rootId : Nat) (next : Option ThreadSummary)
    (seq : Nat) : (withEvent log (.threadChanged channelId rootId next seq)).rows = log.rows ∨
      ∃ held, log.rows.get? rootId = some held ∧ held.seq < seq ∧ log.knows seq = false ∧
        ∀ id row', (withEvent log (.threadChanged channelId rootId next seq)).rows.get? id = some row' →
          id = rootId ∧ row'.thread = withViewerHalf next held.thread ∧ row'.seq = seq ∨
            id ≠ rootId ∧ ∃ held', log.rows.get? id = some held' ∧ row'.thread = held'.thread ∧
              row'.seq = held'.seq := by
  rcases withEvent_rows log (.threadChanged channelId rootId next seq) with hsame | ⟨hknows, hrows⟩
  · exact .inl (congrArg _ hsame)
  · cases hheld : log.rows.get? rootId with
    | none =>
      left
      rw [hrows]
      simp only [changeOf, patched, hheld]
    | some held =>
      obtain rfl := Keyed.key_of_get? hheld
      let row : Message := { held with thread := withViewerHalf next held.thread, seq := seq }
      have apply : (changeOf (.threadChanged channelId held.id next seq)).apply log =
          withArrivals log [row] fromEvent := by
        simp only [changeOf, patched, hheld]
        rfl
      rw [apply] at hrows
      have takesRow : takes log.rows fromEvent row = decide (held.seq < seq) := by
        simp only [takes, row, hheld]
        rfl
      by_cases hlater : held.seq < seq
      · refine .inr ⟨held, rfl, hlater, hknows, fun id row' h => ?_⟩
        rw [hrows] at h
        obtain ⟨merged, hmerged, hthread, hseq⟩ := keepsThreads_withArrivals log [row] fromEvent id row' h
        rcases mergeRows_cases hmerged with ⟨hbefore, hkept⟩ | ⟨copy, hcopy, -, hid, rfl⟩
        · refine .inr ⟨fun hid => ?_, merged, hbefore, hthread, hseq⟩
          rw [hid, changed_iff.mpr ⟨row, List.mem_singleton_self _, rfl, takesRow.trans (decide_eq_true hlater)⟩]
            at hkept
          cases hkept
        · obtain rfl := List.mem_singleton.mp hcopy
          have kept : taken log.rows fromEvent row =
              { row with thread := withViewerHalf row.thread held.thread } := by
            unfold taken
            rw [show log.rows.get? row.id = some held from hheld]
            rfl
          rw [kept] at hthread hseq
          exact .inl ⟨hid.symm, hthread.trans (withViewerHalf_twice next held.thread), hseq⟩
      · left
        rw [hrows, withArrivals, if_neg]
        rw [List.any_cons, takesRow, decide_eq_false hlater]
        exact Bool.false_ne_true

/-- **A stale event moves no row.** -/
theorem threadChanged_stale (state : ChannelScreen) (channelId : String) (rootId : Nat)
    (next : Option ThreadSummary) (seq : Nat)
    (h : state.log.knows seq = true ∨ ∀ held ∈ state.log.rows.get? rootId, seq ≤ held.seq) :
    (screenReducer state (.threadChanged channelId rootId next seq)).log.rows = state.log.rows := by
  have same : (withEvent state.log (.threadChanged channelId rootId next seq)).rows = state.log.rows := by
    rcases threadChanged_cases state.log channelId rootId next seq with hsame | ⟨held, hheld, hlater, hknows, -⟩
    · exact hsame
    · rcases h with h | h
      · rw [hknows] at h
        cases h
      · exact absurd (h held hheld) (Nat.not_le_of_lt hlater)
  simp only [screenReducer, withThreadChanged, same]
  split
  next root after next hroot hafter =>
    rw [hroot, Option.some.injEq] at hafter
    rw [if_pos hafter.symm]
    exact same
  next => exact same

/-- How far the half moves on: to no more than the summary counts, nor than what was added to the count. -/
theorem viewerHalfAfter_unread (root : Message) (next : ThreadSummary) (me : Option String) (namedIn : Bool) :
    ∃ unread, (viewerHalfAfter root next me namedIn).unreadCount = some unread ∧ unread ≤ next.replyCount ∧
      unread ≤ (root.thread.map (·.unreadCount)).getD 0 + (next.replyCount - countOf root.thread) := by
  refine ⟨_, rfl, Nat.min_le_left _ _, (Nat.min_le_right _ _).trans ?_⟩
  have previous : (root.thread.getD (summaryBefore root me)).unreadCount =
      (root.thread.map (·.unreadCount)).getD 0 ∧
        (root.thread.getD (summaryBefore root me)).replyCount = countOf root.thread := by
    cases root.thread <;> exact ⟨rfl, rfl⟩
  rw [previous.1, previous.2]
  refine Nat.add_le_add_left ?_ _
  split
  · omega
  · exact Nat.zero_le _

/-- What a `ThreadChanged` leaves of the rows: all of them; or the root's with the new summary, and the half
moved on from the held one. -/
theorem withThreadChanged_cases (state : ChannelScreen) (channelId : String) (rootId : Nat)
    (next : Option ThreadSummary) (seq : Nat) :
    (withThreadChanged state channelId rootId next seq).log.rows = state.log.rows ∨
      ∃ held, state.log.rows.get? rootId = some held ∧ held.seq < seq ∧
        ∀ id row', (withThreadChanged state channelId rootId next seq).log.rows.get? id = some row' →
          id = rootId ∧ row'.seq = seq ∧ (row'.thread = none ∧ next = none ∨
            ∃ summary new, row'.thread = some summary ∧ next = some new ∧ summary.replyCount = new.replyCount ∧
              some summary.unreadCount = (viewerHalfAfter held new state.myUserId
                (state.namedIn.contains rootId)).unreadCount) ∨
          id ≠ rootId ∧ ∃ held', state.log.rows.get? id = some held' ∧ row'.thread = held'.thread ∧
            row'.seq = held'.seq := by
  rcases threadChanged_cases state.log channelId rootId next seq with hsame | ⟨held, hheld, hlater, -, hrows⟩
  · left
    simp only [withThreadChanged, hsame]
    split
    next root after next hroot hafter =>
      rw [hroot, Option.some.injEq] at hafter
      rw [if_pos hafter.symm]
      exact hsame
    next => exact hsame
  · refine .inr ⟨held, hheld, hlater, fun id row' h => ?_⟩
    simp only [withThreadChanged, hheld] at h
    cases next with
    | none =>
      have unmoved : (withEvent state.log (.threadChanged channelId rootId none seq)).rows.get? id = some row' := by
        cases hafter : (withEvent state.log (.threadChanged channelId rootId none seq)).rows.get? rootId <;>
          rw [hafter] at h <;> exact h
      rcases hrows id row' unmoved with ⟨hid, hthread, hseq⟩ | hother
      · exact .inl ⟨hid, hseq, .inl ⟨hthread, rfl⟩⟩
      · exact .inr hother
    | some new =>
      cases hafter : (withEvent state.log (.threadChanged channelId rootId (some new) seq)).rows.get? rootId with
      | none =>
        rw [hafter] at h
        rcases hrows id row' h with ⟨rfl, -⟩ | hother
        · exact nomatch hafter.symm.trans h
        · exact .inr hother
      | some after =>
        obtain ⟨-, hthread, hseq⟩ | ⟨hne, -⟩ := hrows rootId after hafter
        swap
        · exact absurd rfl hne
        have moved : after ≠ held := fun heq => by
          rw [heq] at hseq
          omega
        simp only [hafter, if_neg moved] at h
        rcases get?_withThreadOverlay h with ⟨hrow, hnone⟩ | ⟨rfl, after', summary, hafter', hsummary, rfl⟩
        · rcases hrows id row' hrow with ⟨hid, hhalf, -⟩ | ⟨hne, hkept⟩
          · -- the applied copy has the summary, so the overlay is on it
            rw [hnone hid] at hhalf
            cases hwas : held.thread <;> rw [hwas] at hhalf <;> cases hhalf
          · exact .inr ⟨hne, hkept⟩
        · obtain rfl := Option.some.inj (hafter.symm.trans hafter')
          obtain ⟨unread, hunread, -⟩ :=
            viewerHalfAfter_unread held new state.myUserId (state.namedIn.contains id)
          have replies : summary.replyCount = new.replyCount := by
            rw [hthread] at hsummary
            cases hwas : held.thread <;> rw [hwas] at hsummary <;>
              exact (congrArg ThreadSummary.replyCount (Option.some.inj hsummary).symm :)
          refine .inl ⟨rfl, hseq, .inr ⟨_, new, rfl, rfl, replies, ?_⟩⟩
          rw [hunread]
          rfl

/-- A count that moves on from an explained one is explained by what was sent since. -/
theorem explained_raised {counted : List Nat} {held row' : Message} {summary : ThreadSummary}
    (before : Explained thread counted held) (hlater : held.seq < row'.seq)
    (hthread : row'.thread = some summary) (hcount : summary.replyCount = thread.countAt row'.seq)
    (hreplies : summary.unreadCount ≤ summary.replyCount)
    (hadded : summary.unreadCount ≤ (held.thread.map (·.unreadCount)).getD 0 +
      (summary.replyCount - countOf held.thread)) :
    Explained thread (raised thread counted held row'.seq ((held.thread.map (·.unreadCount)).getD 0)
      summary.unreadCount) row' := by
  -- what the count stood for, none where there was no summary
  have base : ∃ base, (if held.thread.isSome then counted else []) = base ∧
      (held.thread.map (·.unreadCount)).getD 0 ≤ base.length ∧ base.Nodup ∧
        ∀ id ∈ base, ∃ reply ∈ thread.replies, reply.id = id ∧ reply.sentAt ≤ held.seq := by
    refine ⟨_, rfl, ?_⟩
    cases hheld : held.thread with
    | none => exact ⟨Nat.le_refl _, List.nodup_nil, fun id hid => absurd hid List.not_mem_nil⟩
    | some was => exact (before.half was hheld).2
  obtain ⟨base, hbase, hlength, hnodup, hsent⟩ := base
  refine ⟨by rw [hthread]; exact hcount, fun other hother => ?_⟩
  obtain rfl : summary = other := Option.some.inj (hthread.symm.trans hother)
  refine ⟨hreplies, ?_⟩
  simp only [raised, hbase]
  split
  next hrose =>
    refine ⟨?_, nodup_append_sentIn _ hnodup hsent, fun id hid => ?_⟩
    · rw [before.count, hcount] at hadded
      have since := @countAt_le thread held.seq row'.seq hlater.le
      rw [List.length_append]
      omega
    · rcases List.mem_append.mp hid with hid | hid
      · obtain ⟨reply, hreply, heq, hle⟩ := hsent id hid
        exact ⟨reply, hreply, heq, hle.trans hlater.le⟩
      · obtain ⟨reply, hreply, heq, -, hle⟩ := mem_sentIn.mp hid
        exact ⟨reply, hreply, heq, hle⟩
  next hnot =>
    refine ⟨(Nat.le_of_not_lt hnot).trans hlength, hnodup, fun id hid => ?_⟩
    obtain ⟨reply, hreply, heq, hle⟩ := hsent id hid
    exact ⟨reply, hreply, heq, hle.trans hlater.le⟩

theorem explained_changed {t : Tallied} (inv : Uninflated thread t) {channelId : String} {rootId : Nat}
    {next : Option ThreadSummary} {seq : Nat} {reading : ThreadReading}
    (hsends : rootId = thread.rootId → countOf next = thread.countAt seq) {row' : Message}
    (h : (withThreadChanged t.screen channelId rootId next seq).log.rows.get? thread.rootId = some row') :
    Explained thread (tally thread user t.screen.log
      (withThreadChanged t.screen channelId rootId next seq).log reading t.counted
        (.threadChanged channelId rootId next seq)) row' := by
  have unread : unreadOf (withThreadChanged t.screen channelId rootId next seq).log thread.rootId =
      (row'.thread.map (·.unreadCount)).getD 0 := by rw [unreadOf, h, Option.bind_some]
  simp only [tally]
  rcases withThreadChanged_cases t.screen channelId rootId next seq with
    hsame | ⟨held, hheld, hlater, hrows⟩
  · rw [hsame] at h
    split
    next hroot =>
      subst hroot
      have was : unreadOf t.screen.log thread.rootId = (row'.thread.map (·.unreadCount)).getD 0 := by
        rw [unreadOf, h, Option.bind_some]
      rw [h, unread, was]
      simp only [raised, if_neg (Nat.lt_irrefl _)]
      cases hthread : row'.thread with
      | none =>
        have zero := (inv row' h).count
        rw [hthread] at zero
        exact explained_of_none hthread zero.symm
      | some summary => exact inv row' h
    next => exact inv row' h
  · rcases hrows thread.rootId row' h with ⟨hroot, hseq, hnew⟩ | ⟨hne, held', hheld', hthread, hseq⟩
    · subst hroot
      have was : unreadOf t.screen.log thread.rootId = (held.thread.map (·.unreadCount)).getD 0 := by
        rw [unreadOf, hheld, Option.bind_some]
      rw [if_pos rfl, hheld, was, unread]
      rcases hnew with ⟨hthread, rfl⟩ | ⟨summary, new, hthread, rfl, hcount, hhalf⟩
      · exact explained_of_none hthread (by rw [hseq, ← hsends rfl]; rfl)
      · obtain ⟨unread', hunread, hreplies, hadded⟩ := viewerHalfAfter_unread held new t.screen.myUserId
          (t.screen.namedIn.contains thread.rootId)
        obtain rfl := Option.some.inj (hhalf.trans hunread)
        simp only [hthread, Option.map_some, Option.getD_some]
        subst hseq
        refine explained_raised (inv held hheld) hlater hthread (hcount.trans (hsends rfl)) ?_ ?_
        · rwa [hcount]
        · rwa [hcount]
    · rw [if_neg fun h => hne h.symm]
      exact (inv held' hheld').of_kept hthread hseq

/-! ## Every run -/

/-- **The step lemma.** -/
theorem Uninflated.step {t t' : Tallied} (inv : Uninflated thread t) {a : ScreenAction × ThreadReading}
    (hsends : Sends thread user t a) (htogether : ReadTogether thread user t a)
    (h : tallied thread user t a = some t') : Uninflated thread t' := by
  obtain rfl := Option.some.inj h
  obtain ⟨action, reading⟩ := a
  intro row hrow
  cases action with
  | header myUserId => exact inv row hrow
  | threadChanged channelId rootId next seq =>
    exact @explained_changed thread user t inv channelId rootId next seq reading hsends row hrow
  | messageCreated created => exact explained_created inv hsends hrow
  | threadRead rootId =>
    simp only [tally]
    split
    next hroot => exact explained_cleared inv rfl (hroot ▸ hrow)
    next hne => exact explained_overlaid inv (fun hroot => absurd hroot hne) hrow
  | threadMuted rootId muted =>
    simp only [tally]
    split
    next hcut =>
      obtain ⟨hroot, rfl⟩ := hcut
      exact explained_cleared inv rfl (hroot ▸ hrow)
    next hnot =>
      refine explained_overlaid inv (fun hroot => ?_) hrow
      have unmutes : muted = false := Bool.eq_false_iff.mpr fun hmuted => hnot ⟨hroot, hmuted⟩
      rw [unmutes]
      rfl
  | caughtUp res =>
    refine explained_page inv ?_ hsends htogether hrow
    refine (keepsThreads_withArrivals t.screen.log res.messages fromPage).trans ?_
    simp only [screenReducer, Channel.caughtUp]
    split <;> exact keepsThreads_withFloor _ _
  | refreshed res =>
    exact explained_page inv ((keepsThreads_withArrivals _ _ _).trans (keepsThreads_withFloor _ _)) hsends
      htogether hrow
  | opened answer =>
    by_cases hstands : answer.stands t.screen.log = true
    · simp only [Sends, ReadTogether, ScreenAction.copies, if_pos hstands] at hsends htogether
      simp only [tally, ScreenAction.copies, if_pos hstands]
      exact explained_page inv (keepsThreads_opened hstands) hsends htogether hrow
    · have same : opened t.screen.log answer = t.screen.log :=
        opened_stale fun hgen => hstands (beq_iff_eq.mpr hgen)
      simp only [tally, ScreenAction.copies, if_neg hstands]
      simp only [screenReducer, same] at hrow
      exact inv row hrow
  | paged direction answer =>
    rcases paged_cases t.screen.log direction answer with ⟨hstands, hkeeps⟩ | ⟨hstale, hsame⟩
    · simp only [Sends, ReadTogether, ScreenAction.copies, if_pos hstands] at hsends htogether
      simp only [tally, ScreenAction.copies, if_pos hstands]
      exact explained_page inv hkeeps hsends htogether hrow
    · simp only [tally, ScreenAction.copies, hstale]
      simp only [screenReducer, hsame] at hrow
      exact inv row hrow

theorem emptyScreen_uninflated (channelId : String) : Uninflated thread ⟨emptyScreen channelId, []⟩ :=
  fun row (hrow : none = some row) => nomatch hrow

/-- **A thread's unread count is never inflated**, in a run whose copies of the root were read together with
the reader's half: the count of a held root is no more than its replies, and stands for replies told apart; and
an event that is known, or no newer than the root that is held, moves no row. -/
theorem unread_never_inflated {channelId : String} {t : Tallied}
    (h : Runs (tallied thread user) (fun t a => Sends thread user t a ∧ ReadTogether thread user t a)
      ⟨emptyScreen channelId, []⟩ t) :
    (∀ root summary, t.screen.log.rows.get? thread.rootId = some root → root.thread = some summary →
      summary.unreadCount ≤ summary.replyCount ∧ summary.unreadCount ≤ t.counted.length ∧ t.counted.Nodup) ∧
    ∀ channelId rootId next seq,
      (t.screen.log.knows seq = true ∨ ∀ held ∈ t.screen.log.rows.get? rootId, seq ≤ held.seq) →
        (screenReducer t.screen (.threadChanged channelId rootId next seq)).log.rows = t.screen.log.rows := by
  refine ⟨fun root summary hroot hsummary => ?_, fun channelId rootId next seq hstale =>
    threadChanged_stale t.screen channelId rootId next seq hstale⟩
  have inv : Uninflated thread t := by
    refine @Runs.keeps _ _ _ _ _ _ (fun t => Uninflated thread t) (emptyScreen_uninflated channelId) ?_ h
    exact fun t a t' inv hok hstep => inv.step hok.1 hok.2 hstep
  obtain ⟨hreplies, hcounted, hnodup, -⟩ := (inv root hroot).half summary hsummary
  exact ⟨hreplies, hcounted, hnodup⟩

/-! ## Two runs -/

/-- The reader's own message, answered twice by another. -/
def answeredTwice : Thread where
  rootId := 1
  replies := [{ id := 10, author := "dee", sentAt := 3 }, { id := 11, author := "dee", sentAt := 5 }]
  nodup := by decide

/-- The root as the channel stood at seq 3, with the reader's count as it was read. -/
def answeredRoot (unread : Nat) : Message :=
  { id := 1, channelId := "general", author := some "me", seq := 3
    thread := some { replyCount := 1, participating := true, unreadCount := unread } }

def answeredPage (unread : Nat) : ListMessagesResponse :=
  { messages := [answeredRoot unread], hasOlder := false, hasNewer := false, channelSeq := 4
    retentionFloorId := none }

/-- The second reply's event. -/
def secondReply : ScreenAction :=
  .threadChanged "general" 1 (some { replyCount := 2, recentAuthors := ["dee"] }) 5

/-- The page read before the second reply, and the event of it. -/
def readBefore : List (ScreenAction × ThreadReading) :=
  [(.opened { rootId := none, generation := 0, res := answeredPage 0 }, { moment := 4, marker := 10 }),
    (secondReply, { moment := 0, marker := 0 })]

theorem readBefore_counts : ∃ t, runList (tallied answeredTwice "me") ⟨emptyScreen "general", []⟩ readBefore =
    some t ∧ unreadOf t.screen.log 1 = 1 ∧ t.counted.Nodup := by
  refine ⟨_, rfl, by decide, ?_⟩
  have run := Runs.ofList readBefore
    (by decide : EachStep (tallied answeredTwice "me")
      (fun t a => Sends answeredTwice "me" t a ∧ ReadTogether answeredTwice "me" t a)
        ⟨emptyScreen "general", []⟩ readBefore) rfl
  obtain ⟨-, -, hnodup⟩ := (unread_never_inflated run).1 _ _ rfl rfl
  exact hnodup

/-- The page asked for again: its rows read before the second reply, and the reader's half after it. -/
def readAcross : List (ScreenAction × ThreadReading) :=
  [(.opened { rootId := none, generation := 0, res := answeredPage 0 }, { moment := 4, marker := 10 }),
    (.refreshed (answeredPage 1), { moment := 5, marker := 10 }),
    (secondReply, { moment := 0, marker := 0 })]

/-- **A reply that lands between the two queries is counted twice**: by the copy of the root, and by its own
event. -/
theorem reply_counted_twice : ¬ ∀ thread user channelId t,
    Runs (tallied thread user) (Sends thread user) ⟨emptyScreen channelId, []⟩ t →
      ∀ root summary, t.screen.log.rows.get? thread.rootId = some root → root.thread = some summary →
        summary.unreadCount ≤ summary.replyCount ∧ summary.unreadCount ≤ t.counted.length ∧
          t.counted.Nodup := by
  intro claim
  have run : ∀ t, runList (tallied answeredTwice "me") ⟨emptyScreen "general", []⟩ readAcross = some t →
      Runs (tallied answeredTwice "me") (Sends answeredTwice "me") ⟨emptyScreen "general", []⟩ t :=
    fun t ht => Runs.ofList readAcross (by decide) ht
  obtain ⟨-, -, hnodup⟩ := claim _ _ _ _ (run _ rfl) _ _ rfl rfl
  exact absurd hnodup (by decide)

end Stoop.Channel
