import Stoop.Lib.Sorted
import Stoop.Messages.World

/-!
# Thread summaries

A root's `threads` row is what its live replies come to (`Summarised`): none without replies, and else
what `RecomputeThread` counts. A reply is counted in from the row alone (`recounted_append`), and a
deletion counts again.

`thread_summaries` says it of every order of calls on a channel, in its own terms: the number of live
replies, the newest of them, and the recency list of their authors.
-/

set_option autoImplicit false

namespace Stoop.Messages

open Stoop.Lib

/-! ## What a summary comes to -/

/-- Live replies no two of which have one id. -/
abbrev Distinct (replies : List Reply) : Prop := (replies.map (·.id)).Nodup

theorem newestFirst_perm (replies : List Reply) : (newestFirst replies).Perm replies :=
  List.perm_insertionSort _ _

@[simp] theorem mem_newestFirst {replies : List Reply} {reply : Reply} :
    reply ∈ newestFirst replies ↔ reply ∈ replies := (newestFirst_perm replies).mem_iff

section
variable {replies : List Reply} {reply : Reply} {rootId : Nat}

theorem newestFirst_strict (h : Distinct replies) :
    (newestFirst replies).Pairwise fun x y => y.id < x.id :=
  pairwise_lt_of_nodup (pairwise_sorted_desc (·.id) replies)
    ((((newestFirst_perm replies).map _).nodup_iff).mpr h)

/-- A reply after all the others comes first. -/
theorem newestFirst_append (h : Distinct replies) (hlast : ∀ other ∈ replies, other.id < reply.id) :
    newestFirst (replies ++ [reply]) = reply :: newestFirst replies := by
  refine @sorted_desc_eq Reply Reply.id _ _ ?_ ?_
  · exact ((newestFirst_perm replies).cons reply).trans (List.perm_append_singleton _ _).symm
  · refine List.pairwise_cons.mpr ⟨fun other hother => ?_, newestFirst_strict h⟩
    exact hlast other (mem_newestFirst.mp hother)

/-- **The authors a recount names**: the first three of the recency list. -/
theorem recounted_recentAuthorIds (h : Distinct replies) :
    (recounted rootId replies).recentAuthorIds =
      (recency ((newestFirst replies).map (·.authorId))).take recentAuthors := by
  have hstrict := newestFirst_strict h
  have hsame : isNewest (·.authorId) (·.id) replies = isNewest (·.authorId) (·.id) (newestFirst replies) := by
    ext reply
    exact ((newestFirst_perm replies).all_eq).symm
  have hsorted : newestFirst (replies.filter (isNewest (·.authorId) (·.id) replies)) =
      (newestFirst replies).filter (isNewest (·.authorId) (·.id) (newestFirst replies)) := by
    refine @sorted_desc_eq Reply Reply.id _ _ ?_ (hstrict.filter _)
    rw [hsame]
    exact (newestFirst_perm replies).filter _
  have hnewest := @map_newest Nat Reply _ Reply.authorId Reply.id _ hstrict
  rw [recounted, hsorted, List.map_take]
  exact congrArg (·.take recentAuthors) hnewest

/-- **A reply counted in gives what a recount would.** -/
theorem recounted_append (h : Distinct replies) (hlast : ∀ other ∈ replies, other.id < reply.id) :
    { recounted rootId replies with
      replyCount := (recounted rootId replies).replyCount + 1, lastReplyId := some reply.id
      lastReplyAt := some reply.createdAt
      recentAuthorIds := touch recentAuthors reply.authorId (recounted rootId replies).recentAuthorIds } =
    recounted rootId (replies ++ [reply]) := by
  have hdistinct : Distinct (replies ++ [reply]) := by
    rw [Distinct, List.map_append]
    refine h.append (List.nodup_singleton _) fun id hid hid' => ?_
    obtain ⟨other, hother, rfl⟩ := List.mem_map.mp hid
    exact absurd (List.mem_singleton.mp hid') (Nat.ne_of_lt (hlast other hother))
  have hauthors := @recounted_recentAuthorIds _ rootId hdistinct
  rw [newestFirst_append h hlast, List.map_cons, ← touch_take_recency,
    ← @recounted_recentAuthorIds _ rootId h] at hauthors
  rw [← hauthors]
  simp [recounted, newestFirst_append h hlast]

/-- The first reply of a thread. -/
theorem recounted_singleton :
    recounted rootId [reply] =
      ⟨rootId, 1, some reply.id, some reply.createdAt, [reply.authorId]⟩ := by
  simp [recounted, newestFirst, isNewest, recentAuthors]

end

/-! ## Summaries of a channel -/

/-- A root's summary: none without live replies. -/
def summaryOf (rootId : Nat) (replies : List Reply) : Option Thread :=
  if replies = [] then none else some (recounted rootId replies)

/-- Every root's row is its summary. -/
def Summarised (c : Channel) : Prop :=
  ∀ rootId, c.threads.get? rootId = summaryOf rootId (c.replies rootId)

/-- Two channels with the same threads, and the same live replies. -/
structure Quiet (c c' : Channel) : Prop where
  threads : c'.threads = c.threads
  replies : ∀ rootId, c'.replies rootId = c.replies rootId

section
variable {c c' c'' : Channel} {now id rootId : Nat}

theorem Quiet.trans (h : Quiet c c') (h' : Quiet c' c'') : Quiet c c'' :=
  ⟨h'.threads.trans h.threads, fun rootId => (h'.replies rootId).trans (h.replies rootId)⟩

theorem Quiet.summarised (h : Quiet c c') (hc : Summarised c) : Summarised c' := by
  intro rootId
  rw [h.threads, h.replies, hc]

/-- What a reply is read off. -/
theorem replyTo_eq_some {row : MessageRow} {reply : Reply} :
    row.replyTo rootId = some reply ↔
      row.threadRootId = some rootId ∧ row.deletedAt = none ∧
        reply = ⟨row.id, row.authorId, row.createdAt⟩ := by
  unfold MessageRow.replyTo
  split
  next h => simp [h, eq_comm]
  next h =>
    simp only [reduceCtorEq, false_iff]
    exact fun hreply => h ⟨hreply.1, hreply.2.1⟩

theorem mem_replies {reply : Reply} :
    reply ∈ c.replies rootId ↔ ∃ row, c.messages.get? row.id = some row ∧ row.replyTo rootId = some reply := by
  simp only [Channel.replies, List.mem_filterMap, Keyed.mem_values]

theorem distinct_replies (c : Channel) (rootId : Nat) : Distinct (c.replies rootId) := by
  have hids : (c.replies rootId).map (·.id) =
      (c.messages.values.filter fun row => (row.replyTo rootId).isSome).map (·.id) := by
    rw [Channel.replies]
    induction c.messages.values with
    | nil => rfl
    | cons row rows ih =>
      cases hreply : row.replyTo rootId with
      | none => simp [hreply, ih]
      | some reply =>
        obtain ⟨-, -, rfl⟩ := replyTo_eq_some.mp hreply
        simp [hreply, ih]
  rw [Distinct, hids]
  exact c.messages.nodup.sublist (List.filter_sublist.map _)

/-- A row written where one of the same reply stood. -/
theorem quiet_set {row held : MessageRow} (hheld : c.messages.get? row.id = some held)
    (hsame : ∀ rootId, row.replyTo rootId = held.replyTo rootId) : Quiet c (c.stamped row) :=
  ⟨rfl, fun rootId => Keyed.filterMap_values_set (MessageRow.replyTo · rootId)
    (a := row.withSeq (c.seq + 1)) hheld (hsame rootId)⟩

theorem quiet_stampMessage (h : c.stampMessage id = .ok c') : Quiet c c' := by
  obtain ⟨row, hrow, rfl⟩ := stampMessage_eq_ok h
  obtain rfl : row.id = id := Keyed.key_of_get? hrow
  exact quiet_set hrow fun _ => rfl

/-- A row changed and stamped, where it is the reply it was. -/
theorem quiet_stampThen {change : MessageRow → Except Refusal MessageRow}
    (hsame : ∀ held row, change held = .ok row → row.threadRootId = held.threadRootId ∧
      row.deletedAt = held.deletedAt ∧ row.authorId = held.authorId ∧ row.createdAt = held.createdAt)
    (h : c.stampThen id change = .ok c') : Quiet c c' := by
  obtain ⟨held, row, hheld, hchange, rfl⟩ := stampThen_eq_ok h
  refine @quiet_set _ { row with id := id } held hheld fun rootId => ?_
  obtain ⟨hroot, hdeleted, hauthor, hcreated⟩ := hsame held row hchange
  obtain rfl : held.id = id := Keyed.key_of_get? hheld
  simp only [MessageRow.replyTo, hroot, hdeleted, hauthor, hcreated]

theorem quiet_hideRoot : Quiet c (c.hideRoot rootId) := by
  rw [Channel.hideRoot, Channel.unpinMessage]
  split
  · exact ⟨rfl, fun _ => rfl⟩
  next row hrow =>
    obtain rfl : row.id = rootId := Keyed.key_of_get? hrow
    exact ⟨rfl, fun root => Keyed.filterMap_values_set (MessageRow.replyTo · root)
      (a := { row with pinnedBy := none }) hrow rfl⟩

/-- **A tombstone takes its reply out of its thread**, and nothing else. -/
theorem tombstoneRow_replies (h : c.tombstoneRow now id = .ok c') :
    c'.threads = c.threads ∧
      ∀ rootId, c'.replies rootId = (c.replies rootId).filter fun reply => reply.id ≠ id := by
  obtain ⟨row, hrow, -, rfl⟩ := tombstoneRow_eq_ok h
  obtain rfl : row.id = id := Keyed.key_of_get? hrow
  refine ⟨rfl, fun rootId => ?_⟩
  have hnone : ((row.tombstoned now).withSeq (c.seq + 1)).replyTo rootId = none := by
    simp [MessageRow.replyTo, MessageRow.withSeq, MessageRow.tombstoned]
  refine @Keyed.filterMap_values_set_none _ _ _ _ _ (MessageRow.replyTo · rootId) Reply.id
    (fun found reply hreply => ?_) _ _ hnone
  obtain ⟨-, -, rfl⟩ := replyTo_eq_some.mp hreply
  rfl

/-! ## The writes -/

/-- Live replies, without a message that is no reply of that thread. -/
theorem filter_replies {msg : MessageRow} (h : Stands c msg) (hroot : msg.threadRootId ≠ some rootId) :
    (c.replies rootId).filter (fun reply => reply.id ≠ msg.id) = c.replies rootId := by
  refine List.filter_eq_self.mpr fun reply hreply => decide_eq_true fun hid => ?_
  obtain ⟨found, hfound, hread⟩ := mem_replies.mp hreply
  obtain ⟨hfoundroot, -, rfl⟩ := replyTo_eq_some.mp hread
  exact hroot ((h found ((show found.id = msg.id from hid) ▸ hfound)).symm.trans hfoundroot)

theorem summarised_tombstoneTopLevel {msg : MessageRow} (hc : Summarised c) (hstands : Stands c msg)
    (htop : msg.threadRootId = none) (h : c.tombstoneTopLevel now msg.id = .ok c') : Summarised c' := by
  unfold Channel.tombstoneTopLevel at h
  obtain ⟨blanked, hblanked, hdone⟩ := bind_eq_ok h
  obtain ⟨hthreads, hreplies⟩ := tombstoneRow_replies hblanked
  have hquiet : Quiet c blanked := ⟨hthreads, fun rootId => by
    rw [hreplies, filter_replies hstands (by rw [htop]; nofun)]⟩
  split at hdone
  · cases hdone
    exact hquiet.summarised hc
  · cases hdone
    exact (hquiet.trans quiet_hideRoot).summarised hc

/-- **A recount puts a root's row right**, whatever became of its replies, when there was one. -/
theorem summarised_recompute {found : Channel} (hc : Summarised c) (hthreads : found.threads = c.threads)
    (hothers : ∀ other, other ≠ rootId → found.replies other = c.replies other)
    (hgone : c.replies rootId = [] → found.replies rootId = []) :
    (found.replies rootId ≠ [] → Summarised (found.recomputeThread rootId).1) ∧
      (found.replies rootId = [] →
        Summarised ((found.recomputeThread rootId).1.deleteThreadSummary rootId)) := by
  have hkept : ∀ root, (found.recomputeThread rootId).1.replies root = found.replies root := by
    intro root
    rw [recomputeThread_eq]
    rfl
  have hother : ∀ other, other ≠ rootId → (found.recomputeThread rootId).1.threads.get? other =
      summaryOf other (found.replies other) := by
    intro other hne
    rw [get?_recomputeThread hne, hthreads, hc, hothers other hne]
  constructor
  · intro hne root
    rw [hkept]
    by_cases hroot : root = rootId
    · subst hroot
      have hhas : found.threads.has root = true := by
        rw [Keyed.has, hthreads, hc, summaryOf, if_neg fun hnil => hne (hgone hnil)]
        rfl
      rw [Channel.recomputeThread, if_pos hhas, summaryOf, if_neg hne]
      exact Keyed.get?_set_self found.threads (recounted root (found.replies root))
    · exact hother root hroot
  · intro hnil root
    have hsame : ((found.recomputeThread rootId).1.deleteThreadSummary rootId).replies root =
        found.replies root := hkept root
    rw [hsame, get?_deleteThreadSummary]
    by_cases hroot : root = rootId
    · rw [if_pos hroot, hroot, hnil]
      rfl
    · rw [if_neg hroot, hother root hroot]

theorem summarised_tombstoneReply {msg : MessageRow} (hc : Summarised c) (hstands : Stands c msg)
    (hroot : msg.threadRootId = some rootId) (h : c.tombstoneReply now msg rootId = .ok c') :
    Summarised c' := by
  unfold Channel.tombstoneReply at h
  split at h
  · cases h
  next root _ =>
    obtain ⟨blanked, hblanked, hrun⟩ := bind_eq_ok h
    obtain ⟨hthreads, hreplies⟩ := tombstoneRow_replies hblanked
    have hfound : ∀ found, found = (if msg.inChannel then blanked.recomputeLastMessage else blanked) →
        found.threads = c.threads ∧
          ∀ root, found.replies root = (c.replies root).filter fun reply => reply.id ≠ msg.id := by
      rintro found rfl
      split
      · exact ⟨hthreads, hreplies⟩
      · exact ⟨hthreads, hreplies⟩
    simp only at hrun
    generalize (if msg.inChannel then blanked.recomputeLastMessage else blanked) = found at hfound hrun
    obtain ⟨hthreads, hreplies⟩ := hfound found rfl
    obtain ⟨hsome, hnone⟩ := @summarised_recompute c rootId found hc hthreads
      (fun other hother => by
        rw [hreplies, filter_replies hstands]
        rw [hroot, ne_eq, Option.some.injEq]
        exact Ne.symm hother)
      (fun hnil => by rw [hreplies, hnil, List.filter_nil])
    -- the count returned is of the replies found, where there is a row to recount
    have hcount : 0 < ((found.recomputeThread rootId).2.map (·.replyCount)).getD 0 ↔
        found.replies rootId ≠ [] := by
      unfold Channel.recomputeThread
      split
      next hhas => exact List.length_pos_iff
      next hhas =>
        have hnil : c.replies rootId = [] := by
          by_contra hne
          rw [Keyed.has, hthreads, hc, summaryOf, if_neg hne] at hhas
          exact hhas rfl
        simp [hreplies, hnil]
    split at hrun
    next hpos => exact (quiet_stampMessage hrun).summarised (hsome (hcount.mp hpos))
    next hzero =>
      have hnil : found.replies rootId = [] := not_not.mp fun hne => hzero (hcount.mpr hne)
      obtain ⟨stamped, hstamp, hdone⟩ := bind_eq_ok hrun
      have hstamped := (quiet_stampMessage hstamp).summarised (hnone hnil)
      split at hdone
      · cases hdone
        exact hstamped
      · cases hdone
        exact quiet_hideRoot.summarised hstamped

theorem tombstoneAll_replies {ids : List Nat} (h : c.tombstoneAll now ids = .ok c') :
    c'.threads = c.threads ∧
      ∀ root, c'.replies root = (c.replies root).filter fun reply => reply.id ∉ ids := by
  induction ids generalizing c with
  | nil =>
    cases h
    exact ⟨rfl, fun root => by simp⟩
  | cons id ids ih =>
    obtain ⟨blanked, hblanked, hrest⟩ := bind_eq_ok h
    obtain ⟨hthreads, hreplies⟩ := tombstoneRow_replies hblanked
    obtain ⟨hthreads', hreplies'⟩ := ih hrest
    refine ⟨hthreads'.trans hthreads, fun root => ?_⟩
    rw [hreplies', hreplies, List.filter_filter]
    refine List.filter_congr fun reply _ => ?_
    simp [not_or, Bool.and_comm]

theorem summarised_tombstoneThread {root : MessageRow} (hc : Summarised c) (hstands : Stands c root)
    (htop : root.threadRootId = none) (h : c.tombstoneThread now root = .ok c') : Summarised c' := by
  unfold Channel.tombstoneThread at h
  obtain ⟨blanked, hblanked, hrun⟩ := bind_eq_ok h
  obtain ⟨hthreads, hreplies⟩ := tombstoneAll_replies hblanked
  obtain ⟨stamped, hstamp, hdone⟩ := bind_eq_ok hrun
  cases hdone
  -- the root is no reply, so blanking or stamping it leaves the replies alone
  have hstamped : stamped.threads = c.threads ∧
      ∀ other, stamped.replies other = (c.replies other).filter fun reply =>
        reply.id ∉ ((c.replies root.id).map (·.id)).insertionSort (· ≤ ·) := by
    split at hstamp
    · obtain ⟨hthreads', hreplies'⟩ := tombstoneRow_replies hstamp
      refine ⟨hthreads'.trans hthreads, fun other => ?_⟩
      rw [hreplies', hreplies, List.filter_comm,
        filter_replies hstands (by rw [htop]; nofun)]
    · have hquiet := quiet_stampMessage hstamp
      exact ⟨hquiet.threads.trans hthreads, fun other => (hquiet.replies other).trans (hreplies other)⟩
  refine quiet_hideRoot.summarised fun other => ?_
  have hkept : (stamped.deleteThreadSummary root.id).replies other = stamped.replies other := rfl
  rw [hkept, get?_deleteThreadSummary, hstamped.2]
  by_cases hother : other = root.id
  · have hnil : (c.replies other).filter (fun reply =>
        reply.id ∉ ((c.replies root.id).map (·.id)).insertionSort (· ≤ ·)) = [] := by
      refine List.filter_eq_nil_iff.mpr fun reply hreply => ?_
      simp only [List.mem_insertionSort, decide_not, Bool.not_eq_true', decide_eq_false_iff_not, not_not]
      exact List.mem_map.mpr ⟨reply, hother ▸ hreply, rfl⟩
    rw [if_pos hother, hnil]
    rfl
  · have hall : (c.replies other).filter (fun reply =>
        reply.id ∉ ((c.replies root.id).map (·.id)).insertionSort (· ≤ ·)) = c.replies other := by
      refine List.filter_eq_self.mpr fun reply hreply => decide_eq_true fun hmem => ?_
      obtain ⟨mine, hmine, hid⟩ := List.mem_map.mp ((List.mem_insertionSort _).mp hmem)
      obtain ⟨row, hrow, hread⟩ := mem_replies.mp hreply
      obtain ⟨row', hrow', hread'⟩ := mem_replies.mp hmine
      obtain ⟨hplace, -, rfl⟩ := replyTo_eq_some.mp hread
      obtain ⟨hplace', -, rfl⟩ := replyTo_eq_some.mp hread'
      rw [show row'.id = row.id from hid, hrow, Option.some.injEq] at hrow'
      rw [← hrow', hplace, Option.some.injEq] at hplace'
      exact hother hplace'
    rw [if_neg hother, hstamped.1, hc, hall]

/-- A new row's replies: its own thread's has one more. -/
theorem replies_sent {row : MessageRow} (hnew : c.messages.get? row.id = none) :
    (c.stamped row).replies rootId = c.replies rootId ++ (row.replyTo rootId).toList := by
  have hvalues : (c.messages.set (row.withSeq (c.seq + 1))).values =
      c.messages.values ++ [row.withSeq (c.seq + 1)] := Keyed.values_set_new hnew
  have hread : (row.withSeq (c.seq + 1)).replyTo rootId = row.replyTo rootId := rfl
  rw [Channel.replies, Channel.stamped, Channel.setRow, hvalues, List.filterMap_append,
    List.filterMap_cons, hread]
  cases row.replyTo rootId <;> rfl

theorem summarised_sendMessage {sent : Sent} (hc : Summarised c)
    (hlast : ∀ {id row}, c.messages.get? id = some row → id < sent.id)
    (h : c.sendMessage sent = .ok c') : Summarised c' := by
  have hnew : c.messages.get? sent.id = none := by
    cases hget : c.messages.get? sent.id with
    | none => rfl
    | some row => exact absurd (hlast hget) (Nat.lt_irrefl _)
  have hreplies := fun root => @replies_sent c root sent.row hnew
  unfold Channel.sendMessage at h
  split at h
  next hroot =>
    cases h
    have hquiet : Quiet c (c.stamped sent.row) := ⟨rfl, fun root => by
      have hnone : sent.row.replyTo root = none := by
        simp [MessageRow.replyTo, Sent.row, hroot]
      rw [hreplies, hnone]
      exact List.append_nil _⟩
    exact hquiet.summarised hc
  next root hroot =>
    obtain ⟨-, -, hrun⟩ := bind_eq_ok h
    obtain ⟨stamped, hstamp, hdone⟩ := bind_eq_ok hrun
    have hrecorded : Summarised ((c.stamped sent.row).recordThreadReply root.id sent.reply) := by
      intro other
      have hkept : ((c.stamped sent.row).recordThreadReply root.id sent.reply).replies other =
          (c.stamped sent.row).replies other := rfl
      rw [hkept, hreplies]
      by_cases hother : other = root.id
      · subst hother
        have hread : sent.row.replyTo root.id = some sent.reply := by
          simp [MessageRow.replyTo, Sent.row, Sent.reply, hroot]
        have hbelow : ∀ other ∈ c.replies root.id, other.id < sent.reply.id := by
          intro other hmem
          obtain ⟨row, hrow, hread⟩ := mem_replies.mp hmem
          obtain ⟨-, -, rfl⟩ := replyTo_eq_some.mp hread
          exact hlast hrow
        have hthread := hc root.id
        rw [hread, Option.toList_some, summaryOf, if_neg (by simp), Channel.recordThreadReply]
        change Keyed.get? (Keyed.set c.threads _) root.id = _
        have hthreads : (c.stamped sent.row).threads = c.threads := rfl
        rw [hthreads]
        by_cases hnil : c.replies root.id = []
        · rw [summaryOf, if_pos hnil] at hthread
          simp only [hthread, hnil, List.nil_append, recounted_singleton]
          exact Keyed.get?_set_self c.threads _
        · rw [summaryOf, if_neg hnil] at hthread
          rw [← recounted_append (distinct_replies c root.id) hbelow]
          simp only [hthread]
          exact Keyed.get?_set_self c.threads _
      · have hread : sent.row.replyTo other = none := by
          simp [MessageRow.replyTo, Sent.row, hroot, Ne.symm hother]
        rw [get?_recordThreadReply hother, hread, Option.toList_none, List.append_nil]
        exact hc other
    have hstamped := (quiet_stampMessage hstamp).summarised hrecorded
    split at hdone
    · cases hdone
      exact hstamped
    · cases hdone
      exact hstamped

/-- **Every transaction that commits keeps the summaries.** -/
theorem Write.summarised {write : Write} (hc : Summarised c) (hadmitted : write.admitted = true)
    (hreads : ∀ msg ∈ write.reads, Stands c msg)
    (hlast : ∀ new ∈ write.draws, ∀ {id row}, c.messages.get? id = some row → id < new)
    (h : write.run c = .ok c') : Summarised c' := by
  cases write with
  | send sent => exact summarised_sendMessage hc (hlast sent.id rfl) h
  | edit msg now content urls previewing =>
    refine (quiet_stampThen (fun held row hrow => ?_) h).summarised hc
    split at hrow <;> cases hrow
    exact ⟨rfl, rfl, rfl, rfl⟩
  | delete msg now =>
    change c.tombstoneMessage now msg = .ok c' at h
    unfold Channel.tombstoneMessage at h
    split at h
    next htop => exact summarised_tombstoneTopLevel hc (hreads msg rfl) htop h
    next rootId hroot => exact summarised_tombstoneReply hc (hreads msg rfl) hroot h
  | deleteThread root now =>
    have htop : root.threadRootId = none := by simpa [Write.admitted] using hadmitted
    exact summarised_tombstoneThread hc (hreads root rfl) htop h
  | react msg userId emoji =>
    refine (quiet_stampThen (fun held row hrow => ?_) h).summarised hc
    split at hrow
    · cases hrow
      exact ⟨rfl, rfl, rfl, rfl⟩
    · split at hrow <;> cases hrow
      exact ⟨rfl, rfl, rfl, rfl⟩
  | pin msg userId =>
    refine (quiet_stampThen (fun held row hrow => ?_) h).summarised hc
    split at hrow
    · cases hrow
    · split at hrow <;> cases hrow
      exact ⟨rfl, rfl, rfl, rfl⟩
  | unpin msg =>
    refine (quiet_stampThen (fun held row hrow => ?_) h).summarised hc
    split at hrow <;> cases hrow
    exact ⟨rfl, rfl, rfl, rfl⟩
  | dismiss msg url =>
    refine (quiet_stampThen (fun held row hrow => ?_) h).summarised hc
    split at hrow <;> cases hrow
    exact ⟨rfl, rfl, rfl, rfl⟩
  | previewed messageId =>
    refine (quiet_stampThen (fun held row hrow => ?_) h).summarised hc
    split at hrow <;> cases hrow
    exact ⟨rfl, rfl, rfl, rfl⟩

end

/-! ## The runs -/

/-- The summaries of the channel as committed, and as its row's holder would commit it. -/
structure World.Summarised (w : World) : Prop where
  channel : Messages.Summarised w.channel
  opened : ∀ c ∈ w.opened, Messages.Summarised c

theorem World.Summarised.step {w w' : World} {a : Step} (hsound : w.Sound) (h : w.Summarised)
    (hstep : w.step a = some w') : w'.Summarised := by
  rcases World.step_cases hstep with ⟨id, row, -, -, rfl⟩ | ⟨write, -, hready, rfl⟩ |
    ⟨c, -, hopened, rfl⟩ | ⟨-, rfl⟩
  · exact ⟨h.channel, h.opened⟩
  · refine ⟨h.channel, fun c hc => ?_⟩
    obtain ⟨-, hadmitted, hread, hdraws⟩ := World.ready_spec hready
    exact Write.summarised h.channel hadmitted (fun msg hmsg => (hsound.read msg (hread msg hmsg)).2.1)
      (fun new hnew _ _ hrow => (hsound.drawn hrow).trans_lt (hdraws new hnew)) (Write.run_of_toOption hc)
  · exact ⟨h.opened c hopened, nofun⟩
  · exact ⟨h.channel, nofun⟩

theorem World.summarised {w : World} (h : Runs World.step Always newWorld w) : w.Summarised := by
  induction h with
  | refl => exact ⟨fun _ => rfl, nofun⟩
  | tail hrun _ hstep ih => exact ih.step (World.sound hrun) hstep

/-- **A thread's summary is right after every run.** A root has a row exactly when it has live replies;
the row counts them, names the newest, and the authors of the newest ones, at most three, each once and
newest first; and it is the row a recount would write. -/
theorem thread_summaries {w : World} (h : Runs World.step Always newWorld w) (rootId : Nat) :
    ((w.channel.threads.get? rootId).isSome ↔ w.channel.replies rootId ≠ []) ∧
    ∀ thread, w.channel.threads.get? rootId = some thread →
      thread.replyCount = (w.channel.replies rootId).length ∧
      (∃ newest ∈ w.channel.replies rootId, (∀ reply ∈ w.channel.replies rootId, reply.id ≤ newest.id) ∧
        thread.lastReplyId = some newest.id ∧ thread.lastReplyAt = some newest.createdAt) ∧
      thread.recentAuthorIds =
        (recency ((newestFirst (w.channel.replies rootId)).map (·.authorId))).take 3 ∧
      (w.channel.recomputeThread rootId).2 = some thread := by
  have hsummary := (World.summarised h).channel rootId
  refine ⟨?_, fun thread hthread => ?_⟩
  · rw [hsummary, summaryOf]
    split
    next hnil => simp [hnil]
    next hne => simp [hne]
  · rw [hthread, summaryOf] at hsummary
    split at hsummary
    · cases hsummary
    next hne =>
      obtain rfl := Option.some.inj hsummary
      have hhas : w.channel.threads.has rootId = true := Keyed.has_eq_true.mpr ⟨_, hthread⟩
      refine ⟨rfl, ?_, recounted_recentAuthorIds (distinct_replies _ _), ?_⟩
      · have hlength := (newestFirst_perm (w.channel.replies rootId)).length_eq
        obtain ⟨newest, older, hsorted⟩ := List.exists_cons_of_ne_nil
          (List.ne_nil_of_length_pos (hlength ▸ List.length_pos_iff.mpr hne))
        have hstrict := newestFirst_strict (distinct_replies w.channel rootId)
        rw [hsorted, List.pairwise_cons] at hstrict
        have hmem : ∀ reply, reply ∈ w.channel.replies rootId ↔ reply = newest ∨ reply ∈ older := by
          intro reply
          rw [← mem_newestFirst, hsorted, List.mem_cons]
        refine ⟨newest, (hmem newest).mpr (.inl rfl), fun reply hreply => ?_, ?_, ?_⟩
        · rcases (hmem reply).mp hreply with rfl | hreply
          · exact Nat.le_refl _
          · exact Nat.le_of_lt (hstrict.1 reply hreply)
        · simp [recounted, hsorted]
        · simp [recounted, hsorted]
      · rw [Channel.recomputeThread, if_pos hhas]

/-- Three people reply, one of them twice, and the newest reply is deleted: its author, whose other
reply is older, goes back behind the two who wrote since. -/
theorem thread_summaries_runs :
    let root : MessageRow := { id := 1, authorId := 7, content := "", createdAt := 1, seq := 1 }
    let answer : Nat → Nat → Step := fun id authorId => .begin <| .send
      { id := id, authorId := authorId, content := "", createdAt := id, threadRoot := some root }
    let last : MessageRow :=
      { id := 5, authorId := 8, content := "", createdAt := 5, threadRootId := some 1, inChannel := false
        seq := 8 }
    let steps : List Step :=
      [.begin (.send { id := 1, authorId := 7, content := "", createdAt := 1 }), .commit, .read 1,
        answer 2 8, .commit, answer 3 9, .commit, answer 4 10, .commit, answer 5 8, .commit, .read 5,
        .begin (.delete last 6), .commit]
    ∃ w, runList World.step newWorld steps = some w ∧
      ∃ thread, w.channel.threads.get? 1 = some thread ∧ thread.replyCount = 3 ∧
        thread.recentAuthorIds = [10, 9, 8] := by
  intro root answer last steps
  have hreplies : (runList World.step newWorld steps).map (fun w => w.channel.replies 1) =
      some [⟨2, 8, 2⟩, ⟨3, 9, 3⟩, ⟨4, 10, 4⟩] := by decide +kernel
  obtain ⟨w, hw, hreplies⟩ := Option.map_eq_some_iff.mp hreplies
  refine ⟨w, hw, ?_⟩
  obtain ⟨hrow, hsummary⟩ := thread_summaries (.ofList _ (.always _ _) hw) 1
  rw [hreplies] at hrow hsummary
  obtain ⟨thread, hthread⟩ := Option.isSome_iff_exists.mp (hrow.mpr nofun)
  obtain ⟨hcount, -, hauthors, -⟩ := hsummary thread hthread
  exact ⟨thread, hthread, hcount, hauthors⟩

end Stoop.Messages
