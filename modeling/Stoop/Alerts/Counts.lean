import Mathlib.Data.List.Nodup

/-!
# What the server counts as an alert

`CountAlerts` (`internal/db/queries/chat/alerts.sql`) over the tables it reads, and what a send writes to them
(`SendMessage` of `internal/chat/messages.go`): the message with the mentions resolved for it, and its author's
markers. A keyed table is a function of its key, so that it has one row for each; the references that the
query's joins go by are the tables' own (`Tables.mentioned`, `Tables.answered`).

A send reads its people before its transaction, so those it tells by `@channel` or `@here` (`resolveMentions`) may
not be those who are there when it commits.

`alertCount_commit`: a send adds one to the count of whoever its message counts for, and to nobody else's.
-/

set_option autoImplicit false

namespace Stoop.Alerts.Counts

/-! ## The tables -/

/-- A row of `messages`, as far as alerts look at it. -/
structure Message where
  id : Nat
  channelId : Nat
  authorId : Nat
  inChannel : Bool
  threadRootId : Option Nat
  replyToMessageId : Option Nat
  deleted : Bool
  deriving DecidableEq, Repr

inductive ChannelKind
  | text
  | voice
  deriving DecidableEq, Repr

/-- A row of `channels`; a direct message has no space. -/
structure ChannelRow where
  spaceId : Option Nat
  kind : ChannelKind
  deriving DecidableEq, Repr

/-- The tables; the mutes, blocks and markers are looked up by the person and what they are of. -/
structure Tables where
  messages : List Message
  messageMentions : Nat → Nat → Bool
  channels : Nat → Option ChannelRow
  channelReaders : Nat → Nat → Bool
  channelReads : Nat → Nat → Option Nat
  threadReads : Nat → Nat → Option Nat
  userBlocks : Nat → Nat → Bool
  channelMutes : Nat → Nat → Bool
  spaceMutes : Nat → Nat → Bool
  threadMutes : Nat → Nat → Bool
  threads : Nat → Option Nat
  distinct : (messages.map Message.id).Nodup
  mentioned : ∀ id user, messageMentions id user = true → id ∈ messages.map Message.id
  answered : ∀ m ∈ messages, ∀ id, m.replyToMessageId = some id → id ∈ messages.map Message.id

/-! ## The query -/

/-- Whether a message replies to one of a person's. -/
def Tables.repliesTo (db : Tables) (user : Nat) (m : Message) : Bool :=
  m.replyToMessageId.any fun id => db.messages.any fun mine => mine.id == id && mine.authorId == user

/-- `addressed`: the live messages that mention a person or reply to one of theirs, each once. -/
def Tables.addressed (db : Tables) (user : Nat) : List Message :=
  db.messages.filter fun m => !m.deleted && (db.messageMentions m.id user || db.repliesTo user m)

/-- Past a marker; past no marker is everything. -/
def past (marker : Option Nat) (id : Nat) : Bool := marker.all fun lastRead => decide (lastRead < id)

/-- The marker a message counts against: the channel's for what the channel shows, else its thread's. -/
def Tables.marker (db : Tables) (user : Nat) (m : Message) : Option Nat :=
  if m.inChannel then db.channelReads user m.channelId else m.threadRootId.bind (db.threadReads user)

/-- The query's conditions on a message addressed to a person, of every space or of one. -/
def Tables.counts (db : Tables) (user : Nat) (spaceId : Option Nat) (m : Message) : Bool :=
  match db.channels m.channelId with
  | some ⟨some space, .text⟩ =>
    spaceId.all (· == space) && db.channelReaders m.channelId user && m.authorId != user &&
      !db.userBlocks user m.authorId && past (db.marker user m) m.id && !db.channelMutes user m.channelId &&
        !db.spaceMutes user space && !m.threadRootId.any (db.threadMutes user)
  | _ => false

/-- `CountAlerts`' count of a channel; of a channel it has no row for there is none. -/
def Tables.alertCount (db : Tables) (user : Nat) (spaceId : Option Nat) (channelId : Nat) : Nat :=
  ((db.addressed user).filter (db.counts user spaceId)).countP (·.channelId == channelId)

/-! ## A send -/

/-- Who a message's tokens and words name, as they were read before its transaction: the people, those in its
groups, and the channel's readers with those of them who are online. -/
structure MentionTargets where
  people : List Nat
  groupMembers : List Nat
  readers : List Nat
  online : List Nat
  entireChannel : Bool
  here : Bool
  deriving DecidableEq, Repr

structure MentionResult where
  userIDs : List Nat
  entireChannel : Bool
  here : Bool
  deriving DecidableEq, Repr

/-- `resolveMentions`: `@channel` or `@here` decides alone where the author may use it, which in a direct message
nobody may. -/
def resolveMentions (isDM mayNotify : Bool) (authorID : Nat) (targets : MentionTargets) : MentionResult :=
  if (targets.entireChannel || targets.here) && !isDM && mayNotify then
    let recipients := if targets.entireChannel then targets.readers else targets.online
    ⟨recipients.filter (· != authorID), targets.entireChannel, !targets.entireChannel⟩
  else ⟨(targets.people ++ targets.groupMembers).eraseDups.filter (· != authorID), false, false⟩

/-- What a send has in hand when its transaction begins. -/
structure Sending where
  authorID : Nat
  channelId : Nat
  threadRootId : Option Nat
  alsoSendToChannel : Bool
  replyToMessageId : Option Nat
  targets : MentionTargets
  mayNotify : Bool
  deriving DecidableEq, Repr

/-- The event of a new message, as far as alerts look at it. -/
structure MessageCreated where
  id : Nat
  channelId : Nat
  spaceId : Option Nat
  authorId : Nat
  mentionUserIds : List Nat
  mentionsEntireChannel : Bool
  mentionsHere : Bool
  replyToAuthor : Option Nat
  threadRootId : Option Nat
  inChannel : Bool
  deriving DecidableEq, Repr

def Sending.row (s : Sending) (id : Nat) : Message :=
  { id, channelId := s.channelId, authorId := s.authorID
    inChannel := s.threadRootId.isNone || s.alsoSendToChannel
    threadRootId := s.threadRootId, replyToMessageId := s.replyToMessageId, deleted := false }

/-- Whether the thread is one the message can be in: a live top-level message of its channel. -/
def Tables.rootFor (db : Tables) (s : Sending) : Bool :=
  s.threadRootId.all fun root =>
    db.messages.any fun m => m.id == root && m.channelId == s.channelId && m.threadRootId.isNone && !m.deleted

/-- `GREATEST` of a marker and a message. -/
def forward (marker : Option Nat) (id : Nat) : Option Nat := some (marker.elim id (max · id))

/-- The tables after a send: its row and its mentions, its author's markers, and its thread's reply. -/
def Tables.insert (db : Tables) (m : Message) (mentions : List Nat) (hfresh : m.id ∉ db.messages.map Message.id)
    (hreply : ∀ id, m.replyToMessageId = some id → id ∈ db.messages.map Message.id) : Tables :=
  { db with
    messages := db.messages ++ [m]
    messageMentions := fun id user => if id = m.id then mentions.contains user else db.messageMentions id user
    channelReads := fun user channel =>
      if m.inChannel ∧ user = m.authorId ∧ channel = m.channelId then forward (db.channelReads user channel) m.id
      else db.channelReads user channel
    threadReads := fun user root =>
      if user = m.authorId ∧ m.threadRootId = some root then forward (db.threadReads user root) m.id
      else db.threadReads user root
    threads := fun root =>
      if m.threadRootId = some root then some ((db.threads root).getD 0 + 1) else db.threads root
    distinct := by
      rw [List.map_append]
      refine db.distinct.append (List.nodup_singleton _) ?_
      intro id hid hm
      obtain rfl := List.mem_singleton.mp hm
      exact hfresh hid
    mentioned := by
      intro id user h
      rw [List.map_append]
      split at h
      · next heq =>
        rw [heq]
        exact List.mem_append_right _ (List.mem_singleton_self _)
      · exact List.mem_append_left _ (db.mentioned id user h)
    answered := by
      intro n hn id hid
      rw [List.map_append]
      obtain hn | hn := List.mem_append.mp hn
      · exact List.mem_append_left _ (db.answered n hn id hid)
      · obtain rfl := List.mem_singleton.mp hn
        exact List.mem_append_left _ (hreply id hid) }

/-- The event of a row: whose message it replies to is read with it. -/
def Tables.event (db : Tables) (m : Message) (spaceId : Option Nat) (mentions : MentionResult) : MessageCreated :=
  { id := m.id, channelId := m.channelId, spaceId, authorId := m.authorId
    mentionUserIds := mentions.userIDs, mentionsEntireChannel := mentions.entireChannel
    mentionsHere := mentions.here
    replyToAuthor := m.replyToMessageId.bind fun id =>
      (db.messages.find? fun parent => parent.id == id).map Message.authorId
    threadRootId := m.threadRootId, inChannel := m.inChannel }

/-- `SendMessage`'s transaction and what it publishes. It fails if its channel, its thread's root or the message
it replies to is gone, or if its id is taken. -/
def Tables.commit (db : Tables) (s : Sending) (id : Nat) : Option (Tables × MessageCreated) :=
  match db.channels s.channelId with
  | none => none
  | some channel =>
    let mentions := resolveMentions channel.spaceId.isNone s.mayNotify s.authorID s.targets
    if h : db.rootFor s = true ∧ id ∉ db.messages.map Message.id ∧
        ∀ parent, s.replyToMessageId = some parent → parent ∈ db.messages.map Message.id then
      some (db.insert (s.row id) mentions.userIDs h.2.1 h.2.2, db.event (s.row id) channel.spaceId mentions)
    else none

/-! ## What a send adds -/

section

variable {db : Tables} {m : Message} {mentions : List Nat} {hfresh : m.id ∉ db.messages.map Message.id}
  {hreply : ∀ id, m.replyToMessageId = some id → id ∈ db.messages.map Message.id}

theorem insert_repliesTo {n : Message} (hold : ∀ id, n.replyToMessageId = some id →
    id ∈ db.messages.map Message.id)
    (user : Nat) : (db.insert m mentions hfresh hreply).repliesTo user n = db.repliesTo user n := by
  unfold Tables.repliesTo
  cases hid : n.replyToMessageId with
  | none => rfl
  | some id =>
    have hne : m.id ≠ id := fun heq => hfresh (heq ▸ hold id hid)
    simp [Tables.insert, hne]

/-- For a message that was there, what it is addressed to is as it was. -/
theorem insert_mentions {n : Message} (hn : n ∈ db.messages) (user : Nat) :
    (db.insert m mentions hfresh hreply).messageMentions n.id user = db.messageMentions n.id user := by
  have hne : n.id ≠ m.id := fun heq => hfresh (heq ▸ List.mem_map_of_mem hn)
  exact if_neg hne

/-- Nobody's markers move but the author's. -/
theorem insert_marker {user : Nat} (huser : user ≠ m.authorId) (n : Message) :
    (db.insert m mentions hfresh hreply).marker user n = db.marker user n := by
  have hthread : (db.insert m mentions hfresh hreply).threadReads user = db.threadReads user := by
    funext root
    exact if_neg fun h => huser h.1
  have hchannel : ∀ channel, (db.insert m mentions hfresh hreply).channelReads user channel =
      db.channelReads user channel := fun channel => if_neg fun h => huser h.2.1
  rw [Tables.marker, hthread, hchannel, Tables.marker]

theorem past_of_forward {marker : Option Nat} {id n : Nat} (h : past (forward marker id) n = true) :
    past marker n = true := by
  cases marker with
  | none => rfl
  | some lastRead =>
    have hlt : max lastRead id < n := of_decide_eq_true h
    exact decide_eq_true (Nat.lt_of_le_of_lt (Nat.le_max_left lastRead id) hlt)

/-- The author's only move forward. -/
theorem past_of_insert {user : Nat} {n : Message}
    (h : past ((db.insert m mentions hfresh hreply).marker user n) n.id = true) :
    past (db.marker user n) n.id = true := by
  unfold Tables.marker at h ⊢
  cases hin : n.inChannel with
  | true =>
    rw [hin, if_pos rfl] at h
    rw [if_pos rfl]
    simp only [Tables.insert] at h
    split at h
    · exact past_of_forward h
    · exact h
  | false =>
    rw [hin, if_neg Bool.false_ne_true] at h
    rw [if_neg Bool.false_ne_true]
    cases hroot : n.threadRootId with
    | none => rfl
    | some root =>
      rw [hroot, Option.bind_some] at h
      rw [Option.bind_some]
      simp only [Tables.insert] at h
      split at h
      · exact past_of_forward h
      · exact h

theorem insert_counts {user : Nat} (huser : user ≠ m.authorId) (spaceId : Option Nat) (n : Message) :
    (db.insert m mentions hfresh hreply).counts user spaceId n = db.counts user spaceId n := by
  unfold Tables.counts
  rw [insert_marker huser]
  rfl

theorem counts_of_insert {user : Nat} {spaceId : Option Nat} {n : Message}
    (h : (db.insert m mentions hfresh hreply).counts user spaceId n = true) : db.counts user spaceId n =
      true := by
  unfold Tables.counts at h ⊢
  change (match db.channels n.channelId with | some ⟨some space, .text⟩ => _ | _ => false) = true at h
  split at h
  · simp only [Bool.and_eq_true] at h ⊢
    obtain ⟨⟨⟨⟨⟨⟨⟨hspace, hreads⟩, hown⟩, hblock⟩, hpast⟩, hmute⟩, hspaceMute⟩, hthread⟩ := h
    exact ⟨⟨⟨⟨⟨⟨⟨hspace, hreads⟩, hown⟩, hblock⟩, past_of_insert hpast⟩, hmute⟩, hspaceMute⟩, hthread⟩
  · exact nomatch h

theorem counts_own (spaceId : Option Nat) : db.counts m.authorId spaceId m = false := by
  unfold Tables.counts
  split
  · simp
  · rfl

theorem alertCount_eq (user : Nat) (spaceId : Option Nat) (channelId : Nat) :
    db.alertCount user spaceId channelId = db.messages.countP fun n =>
      n.channelId == channelId && db.counts user spaceId n &&
        (!n.deleted && (db.messageMentions n.id user || db.repliesTo user n)) := by
  rw [Tables.alertCount, List.countP_filter, Tables.addressed, List.countP_filter]

/-- Whether a message inserted with some mentions adds to a count. -/
def adds (db : Tables) (m : Message) (mentions : List Nat) (user : Nat) (spaceId : Option Nat) (channelId : Nat) :
    Bool :=
  m.channelId == channelId && db.counts user spaceId m &&
    (!m.deleted && (mentions.contains user || db.repliesTo user m))

/-- Somebody else's count has the message added if it counts for them. -/
theorem alertCount_insert {user : Nat} (huser : user ≠ m.authorId) (spaceId : Option Nat) (channelId : Nat) :
    (db.insert m mentions hfresh hreply).alertCount user spaceId channelId =
      db.alertCount user spaceId channelId + if adds db m mentions user spaceId channelId then 1 else 0 := by
  have hnew : (db.insert m mentions hfresh hreply).messageMentions m.id user = mentions.contains user :=
    if_pos rfl
  have happend : (db.insert m mentions hfresh hreply).messages = db.messages ++ [m] := rfl
  rw [alertCount_eq, alertCount_eq, happend, List.countP_append, List.countP_singleton]
  congr 1
  · refine List.countP_congr fun n hn => ?_
    rw [insert_counts huser, insert_mentions hn, insert_repliesTo (db.answered n hn)]
  · rw [insert_counts huser, hnew, insert_repliesTo hreply, adds]

/-- Its author's count does not grow. -/
theorem alertCount_insert_author (spaceId : Option Nat) (channelId : Nat) :
    (db.insert m mentions hfresh hreply).alertCount m.authorId spaceId channelId ≤
      db.alertCount m.authorId spaceId channelId := by
  have happend : (db.insert m mentions hfresh hreply).messages = db.messages ++ [m] := rfl
  have hown : (db.insert m mentions hfresh hreply).counts m.authorId spaceId m = false := counts_own spaceId
  rw [alertCount_eq, alertCount_eq, happend, List.countP_append, List.countP_singleton, hown]
  simp only [Bool.and_false, Bool.false_and, Bool.false_eq_true, if_false, Nat.add_zero]
  refine List.countP_mono_left fun n hn hcounted => ?_
  rw [insert_mentions hn, insert_repliesTo (db.answered n hn)] at hcounted
  simp only [Bool.and_eq_true] at hcounted ⊢
  exact ⟨⟨hcounted.1.1, counts_of_insert hcounted.1.2⟩, hcounted.2⟩

/-- The author of the message a message replies to. -/
theorem repliesTo_iff (user : Nat) :
    db.repliesTo user m = true ↔
      (m.replyToMessageId.bind fun id => (db.messages.find? (·.id == id)).map Message.authorId) = some user := by
  unfold Tables.repliesTo
  cases m.replyToMessageId with
  | none => exact iff_of_false Bool.false_ne_true nofun
  | some id =>
    rw [Option.any_some, Option.bind_some, List.any_eq_true, Option.map_eq_some_iff]
    constructor
    · rintro ⟨mine, hmem, hmine⟩
      obtain ⟨hid, hauthor⟩ := (Bool.and_eq_true _ _).mp hmine
      refine ⟨mine, ?_, beq_iff_eq.mp hauthor⟩
      cases hfound : db.messages.find? (·.id == id) with
      | none => exact absurd hid (List.find?_eq_none.mp hfound mine hmem)
      | some found =>
        have hfoundId : (found.id == id) = true := @List.find?_some Message (·.id == id) _ _ hfound
        have hsame : found.id = mine.id := (beq_iff_eq.mp hfoundId).trans (beq_iff_eq.mp hid).symm
        exact congrArg some (List.inj_on_of_nodup_map db.distinct (List.mem_of_find?_eq_some hfound) hmem hsame)
    · rintro ⟨mine, hfound, hauthor⟩
      have hfoundId : (mine.id == id) = true := @List.find?_some Message (·.id == id) _ _ hfound
      refine ⟨mine, List.mem_of_find?_eq_some hfound, ?_⟩
      rw [hfoundId, hauthor, beq_self_eq_true]
      rfl

end

/-- What a send commits: the row, with the mentions resolved for it, and its event. -/
theorem commit_cases {db db' : Tables} {s : Sending} {id : Nat} {e : MessageCreated}
    (h : db.commit s id = some (db', e)) :
    ∃ channel mentions hfresh hreply, db.channels s.channelId = some channel ∧
      mentions = resolveMentions channel.spaceId.isNone s.mayNotify s.authorID s.targets ∧
      db' = db.insert (s.row id) mentions.userIDs hfresh hreply ∧
      e = db.event (s.row id) channel.spaceId mentions := by
  unfold Tables.commit at h
  split at h
  · exact nomatch h
  · next channel hchannel =>
    split at h
    · next hguard =>
      obtain ⟨⟩ := h
      exact ⟨channel, _, hguard.2.1, hguard.2.2, hchannel, rfl, rfl, rfl⟩
    · exact nomatch h

/-- A send adds one to a person's count of its channel exactly if it is addressed to them and the query counts
it. -/
theorem alertCount_commit {db db' : Tables} {s : Sending} {id : Nat} {e : MessageCreated}
    (h : db.commit s id = some (db', e)) (user : Nat) (spaceId : Option Nat) :
    db'.alertCount user spaceId e.channelId = db.alertCount user spaceId e.channelId + 1 ↔
      db.counts user spaceId (s.row id) = true ∧ (user ∈ e.mentionUserIds ∨ e.replyToAuthor = some user) := by
  obtain ⟨channel, mentions, hfresh, hreply, -, -, rfl, rfl⟩ := commit_cases h
  have hreplies := @repliesTo_iff db (s.row id) user
  by_cases huser : user = s.authorID
  · have hown : db.counts user spaceId (s.row id) = false := huser ▸ @counts_own db (s.row id) spaceId
    refine iff_of_false (fun hgrows => ?_) (fun hcounts => ?_)
    · have hle := @alertCount_insert_author db (s.row id) mentions.userIDs hfresh hreply spaceId s.channelId
      rw [show (s.row id).authorId = user from huser.symm] at hle
      exact absurd (hgrows ▸ hle) (Nat.not_succ_le_self _)
    · rw [hown] at hcounts
      exact Bool.false_ne_true hcounts.1
  · have hcount := @alertCount_insert db (s.row id) mentions.userIDs hfresh hreply user huser spaceId s.channelId
    have hadds : adds db (s.row id) mentions.userIDs user spaceId s.channelId = true ↔
        db.counts user spaceId (s.row id) = true ∧ (user ∈ mentions.userIDs ∨ db.repliesTo user (s.row id) =
          true) := by
      simp [adds, Sending.row]
    rw [hreplies] at hadds
    refine Iff.trans ?_ hadds
    have hchannel : (db.event (s.row id) channel.spaceId mentions).channelId = s.channelId := rfl
    rw [hchannel, hcount]
    split
    · next hyes => exact iff_of_true rfl hyes
    · next hno => exact iff_of_false (fun heq => absurd heq (by omega)) hno

end Stoop.Alerts.Counts
