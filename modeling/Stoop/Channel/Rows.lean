import Stoop.Channel.Types

/-!
# Rows: which copy of a row wins, and which rows are shown

Copies of a row are merged by seq. `Message.shown` is what a reader can tell of a row that its seq
speaks for: nothing of a hidden tombstone, and else the row less what no seq governs (the reader's
half of a thread summary, and the author and preview of what it quotes, both filled in as the server
reads the row).

## The rules

`isShown`, `showsInChannel`, `mergeRows`, `withViewerHalf`, `withoutRows`, `tombstoneOf`,
`withQuotesBlanked`

## What they do to a row looked up

`get?_mergeRows`, `get?_withoutRows`, `get?_withQuotesBlanked`
-/

set_option autoImplicit false

namespace Stoop.Channel

open Stoop.Lib

/-- A tombstone stays hidden unless it is the placeholder root of a thread that still has
replies. -/
def isShown (row : Message) : Bool :=
  !row.deleted || decide (0 < (row.thread.map (·.replyCount)).getD 0)

/-- Whether a row is listed in the channel's timeline, range aside: a top-level message, or a reply
also sent to the channel. -/
def showsInChannel (row : Message) : Bool := row.threadRootId.isNone || row.inChannel

/-- Where an arriving copy came from. The server's read path hands out the whole row, so its copy
wins a tie; an event's, a send's or an edit's carries only the shared half of a thread summary. -/
structure Source where
  fromServer : Bool
  keepViewerHalf : Bool

def fromEvent : Source := { fromServer := false, keepViewerHalf := true }
def fromPage : Source := { fromServer := true, keepViewerHalf := false }

/-- Whether an arriving copy replaces the held one. -/
def wins (row held : Message) (source : Source) : Bool :=
  if source.fromServer then decide (held.seq ≤ row.seq) else decide (held.seq < row.seq)

/-- A summary from an event, with the reader's own half from the held one. -/
def withViewerHalf (next held : Option ThreadSummary) : Option ThreadSummary :=
  match next, held with
  | some next, some held =>
    some { next with
      participating := held.participating, muted := held.muted, unreadCount := held.unreadCount }
  | next, _ => next

/-- Whether the merge takes an arriving copy over what is held. -/
def takes (rows : Rows) (source : Source) (row : Message) : Bool :=
  match rows.get? row.id with
  | none => true
  | some held => wins row held source

/-- An arriving copy as the merge keeps it. -/
def taken (rows : Rows) (source : Source) (row : Message) : Message :=
  match rows.get? row.id with
  | some held =>
    if source.keepViewerHalf then { row with thread := withViewerHalf row.thread held.thread }
    else row
  | none => row

/-- Merge by seq: an arriving copy replaces the held one when its seq is higher, or equal and the
copy is the server's. -/
def mergeRows (rows : Rows) (incoming : List Message) (source : Source) : Rows :=
  incoming.foldl
    (fun next row => if takes rows source row then next.set (taken rows source row) else next) rows

/-- The rows without those named. -/
def withoutRows (rows : Rows) (ids : List Nat) : Rows := rows.filter fun row => !ids.contains row.id

/-! ## Deletions -/

/-- A deletion, as its event tells it. -/
structure MessageDeleted where
  messageId : Nat
  channelId : String
  threadRootId : Option Nat
  seq : Nat
  deriving DecidableEq, Repr

/-- The held row as a tombstone at the deletion's seq, made from the event alone when the row was
never held. -/
def tombstoneOf (held : Option Message) (deletion : MessageDeleted) : Message :=
  let base := held.getD
    { id := deletion.messageId, channelId := deletion.channelId,
      threadRootId := deletion.threadRootId }
  { base with
    deleted := true, content := "", attachments := [], reactions := [], linkPreviews := [],
    mentionUserIds := [], mentionsEntireChannel := false, mentionsHere := false, editedAt := none,
    thread := none, seq := deletion.seq }

/-- A tombstone is of the message deleted. -/
theorem tombstoneOf_id {held : Option Message} {deletion : MessageDeleted}
    (h : ∀ row, held = some row → row.id = deletion.messageId) :
    (tombstoneOf held deletion).id = deletion.messageId := by
  cases held with
  | none => rfl
  | some row => exact h row rfl

/-- Whether a quote still says whom it quotes, or what. -/
def named (ref : ReplyRef) : Bool := ref.author.isSome || ref.preview != ""

/-- A quote of the deleted message, read as a deleted message's. -/
def blanked (deletedId : Nat) (ref : ReplyRef) : ReplyRef :=
  if ref.messageId = deletedId ∧ named ref then { ref with author := none, preview := "" } else ref

/-- Rows quoting a deleted message, and replies in the channel answering its thread, read as a
deleted message's: no author, no preview. -/
def withQuotesBlanked (rows : Rows) (deletedId : Nat) : Rows :=
  rows.map
    (fun row => { row with
      replyTo := row.replyTo.map (blanked deletedId)
      threadRoot := row.threadRoot.map (blanked deletedId) })
    fun _ => rfl

/-! ## What a row's seq speaks for -/

/-- A summary less the reader's own half. -/
def ThreadSummary.shared (thread : ThreadSummary) : ThreadSummary :=
  { thread with participating := false, muted := false, unreadCount := 0 }

/-- A quote less what the server filled in as it read the row. -/
def ReplyRef.bare (ref : ReplyRef) : ReplyRef := { ref with author := none, preview := "" }

/-- A row less what no seq governs. -/
def Message.versioned (row : Message) : Message :=
  { row with
    thread := row.thread.map (·.shared)
    replyTo := row.replyTo.map (·.bare)
    threadRoot := row.threadRoot.map (·.bare) }

/-- What a reader is shown of a row, less what no seq governs. -/
def Message.shown (row : Message) : Option Message :=
  if isShown row then some row.versioned else none

/-! ## What the rules do to a row looked up -/

@[simp] theorem taken_id (rows : Rows) (source : Source) (row : Message) :
    (taken rows source row).id = row.id := by
  unfold taken
  split
  · split <;> rfl
  · rfl

theorem mergeRows_eq_setAll (rows : Rows) (incoming : List Message) (source : Source) :
    mergeRows rows incoming source =
      rows.setAll ((incoming.filter (takes rows source)).map (taken rows source)) := by
  rw [mergeRows, Keyed.setAll, List.foldl_map, List.foldl_filter]

/-- A row the merge takes no copy of stays as it was. -/
theorem get?_mergeRows_of_not {rows : Rows} {incoming : List Message} {source : Source} {id : Nat}
    (h : ∀ row ∈ incoming, row.id = id → takes rows source row = false) :
    (mergeRows rows incoming source).get? id = rows.get? id := by
  rw [mergeRows_eq_setAll, Keyed.get?_setAll, List.find?_eq_none.mpr, Option.none_or]
  intro row hrow hid
  obtain ⟨arriving, hmem, rfl⟩ := List.mem_map.mp (List.mem_reverse.mp hrow)
  obtain ⟨hin, htakes⟩ := List.mem_filter.mp hmem
  rw [taken_id, beq_iff_eq] at hid
  rw [h arriving hin hid] at htakes
  cases htakes

/-- A copy the merge takes is the row it keeps, where no other copy of the row arrives with it. -/
theorem get?_mergeRows_of_takes {rows : Rows} {incoming : List Message} {source : Source}
    (hnodup : (incoming.map (·.id)).Nodup) {row : Message} (hrow : row ∈ incoming)
    (htakes : takes rows source row = true) :
    (mergeRows rows incoming source).get? row.id = some (taken rows source row) := by
  rw [mergeRows_eq_setAll, Keyed.get?_setAll]
  have hmem : taken rows source row ∈
      ((incoming.filter (takes rows source)).map (taken rows source)).reverse :=
    List.mem_reverse.mpr (List.mem_map.mpr ⟨row, List.mem_filter.mpr ⟨hrow, htakes⟩, rfl⟩)
  cases hfind : ((incoming.filter (takes rows source)).map (taken rows source)).reverse.find?
      (fun a => a.id == row.id) with
  | none =>
    exact absurd (beq_iff_eq.mpr (taken_id rows source row))
      (List.find?_eq_none.mp hfind _ hmem)
  | some found =>
    obtain ⟨other, hother, rfl⟩ := List.mem_map.mp
      (List.mem_reverse.mp (List.mem_of_find?_eq_some hfind))
    have hid : other.id = row.id := by
      rw [← taken_id rows source other]
      exact eq_of_beq (List.find?_some hfind :)
    rw [Option.some_or, List.inj_on_of_nodup_map hnodup (List.mem_filter.mp hother).1 hrow hid]

theorem get?_withoutRows (rows : Rows) (ids : List Nat) (id : Nat) :
    (withoutRows rows ids).get? id = if id ∈ ids then none else rows.get? id := by
  rw [withoutRows, Keyed.get?_filter]
  cases h : rows.get? id with
  | none => simp
  | some row =>
    have hid := Keyed.key_of_get? h
    by_cases hmem : id ∈ ids <;> simp [Option.filter, hid, hmem]

@[simp] theorem get?_withQuotesBlanked (rows : Rows) (deletedId id : Nat) :
    (withQuotesBlanked rows deletedId).get? id = (rows.get? id).map fun row => { row with
      replyTo := row.replyTo.map (blanked deletedId)
      threadRoot := row.threadRoot.map (blanked deletedId) } :=
  Keyed.get?_map ..

end Stoop.Channel
