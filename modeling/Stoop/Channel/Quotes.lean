import Stoop.Channel.Dropped

/-!
# Quotes of deleted messages

A row that quotes a message, and a reply in the channel that answers a thread, carry a snapshot of
whom and what: the author and a preview, filled in by the server as it reads the row. A deletion that
arrives blanks the snapshots of the message that are held.

The module takes a log through anything it can be handed (`Input`): events, first pages, later pages
and jumps, refreshes, catch-ups, the answers to the reader's own requests and the reader's own changes
to a held row. The rows need not be ones a server sent, so a log in a `World` is one of these
(`runs_hand`).

## Main results

* `quotes_stay_blank`: over every run of inputs, no held row names a row held as deleted, as long as
  each input is one `Unnamed` allows.
* `late_quote_named`: a row whose event comes after the deletion of what it quotes is held with the
  quote as it was sent.

The snapshots are blanked once, when the tombstone comes: `withArrivals` does not look at what a row it
takes in quotes, a page's merge blanks nothing, and the reader's own delete hides the row alone.
-/

set_option autoImplicit false

namespace Stoop.Channel

open Stoop.Lib

/-! ## The reader's own requests -/

/-- The answer to the reader's own request is the server's whole row, less the reader's half of a
thread summary. -/
def fromAnswer : Source := { fromServer := true, keepViewerHalf := true }

/-- The reader's own change to a held row, at the row's own seq. -/
def withPatch (log : ChannelLog) (id : Nat) (change : Message → Message) : ChannelLog :=
  match log.rows.get? id with
  | none => log
  | some held =>
    { log with rows := log.rows.set { change held with id := held.id, seq := held.seq } }

/-- What the reader changes in a held row before the server answers. The phone changes the reactions
and the pin only while the row stands at the seq it was changed on. -/
inductive OwnChange
  | reacted (standing : Option Nat) (reactions : List Reaction)
  | pinned (standing : Option Nat) (isPinned : Bool)
  | removed
  | threadRemoved
  | deleted
  deriving DecidableEq, Repr

def OwnChange.change : OwnChange → Message → Message
  | .reacted standing reactions, held =>
    if standing.all (· == held.seq) then { held with reactions := reactions } else held
  | .pinned standing isPinned, held =>
    if standing.all (· == held.seq) then { held with pinned := isPinned } else held
  | .removed, held => { held with deleted := true }
  | .threadRemoved, held => { held with deleted := true, thread := none }
  -- the phone's, which leaves a root with a summary to the server's update for it
  | .deleted, held =>
    if held.deleted || held.thread.isSome then held else { held with deleted := true }

/-- The reader's own half of a root's thread summary, as the app patches it. -/
structure ThreadOverlay where
  participating : Option Bool := none
  muted : Option Bool := none
  unreadCount : Option Nat := none
  deriving DecidableEq, Repr

def withThreadOverlay (log : ChannelLog) (rootId : Nat) (patch : ThreadOverlay) : ChannelLog :=
  match log.rows.get? rootId with
  | none => log
  | some held =>
    match held.thread with
    | none => log
    | some thread =>
      { log with rows := log.rows.set { held with thread := some { thread with
          participating := patch.participating.getD thread.participating
          muted := patch.muted.getD thread.muted
          unreadCount := patch.unreadCount.getD thread.unreadCount } } }

/-! ## Inputs -/

/-- What a log is handed. -/
inductive Input
  | event (event : ServerEvent)
  | opened (answer : PageAnswer)
  | paged (direction : Direction) (answer : PageAnswer)
  | refreshed (res : ListMessagesResponse)
  | changes (res : ListChangesResponse)
  | answered (row : Message)
  | patched (id : Nat) (change : OwnChange)
  | overlaid (rootId : Nat) (patch : ThreadOverlay)
  | reconnected
  | threadClosed (rootId : Nat)

/-- The log once it was handed something. -/
def ChannelLog.hand (log : ChannelLog) : Input → ChannelLog
  | .event event => withEvent log event
  | .opened answer => Channel.opened log answer
  | .paged direction answer => Channel.paged log direction answer
  | .refreshed res => Channel.refreshed log res
  | .changes res => caughtUp log res
  | .answered row => withArrivals log [row] fromAnswer
  | .patched id change => withPatch log id change.change
  | .overlaid rootId patch => withThreadOverlay log rootId patch
  | .reconnected => Channel.reconnected log
  | .threadClosed rootId => closedThread log rootId

/-- A log may be handed anything at any time. -/
def hand (log : ChannelLog) (input : Input) : Option ChannelLog := some (log.hand input)

/-- **A step of the world hands its log one input, or none.** -/
theorem step_hands {w w' : World} {a : Label} (h : w.step a = some w') :
    w'.log = w.log ∨ ∃ input, w'.log = w.log.hand input := by
  cases stepped h with
  | commit _ | drop | lose _ _ | request _ _ | fail | catchUp _ | giveUp => exact .inl rfl
  | ready _ => exact .inr ⟨.reconnected, rfl⟩
  | closeThread => exact .inr ⟨.threadClosed _, rfl⟩
  | deliver _ _ => exact .inr ⟨.event _, rfl⟩
  | changes _ _ read => exact .inr ⟨.changes _, rfl⟩
  | @answer i reading ask res _ _ _ =>
    right
    show ∃ input, ask.settle w.log res = w.log.hand input
    unfold Ask.settle
    cases ask.use with
    | opened => exact ⟨.opened ⟨ask.rootId, ask.generation, res⟩, rfl⟩
    | jumped atRoot =>
      cases atRoot
      · exact ⟨.opened ⟨ask.rootId, ask.generation, res⟩, rfl⟩
      · exact ⟨.opened ⟨ask.rootId, ask.generation, { res with hasOlder := false }⟩, rfl⟩
    | paged direction => exact ⟨.paged direction ⟨ask.rootId, ask.generation, res⟩, rfl⟩
    | refreshed => exact ⟨.refreshed res, rfl⟩

/-- **The log of a world's run is a run of inputs.** -/
theorem runs_hand {w w' : World} (h : Runs World.step Always w w') :
    Runs hand Always w.log w'.log := by
  induction h with
  | refl => exact .refl
  | tail _ _ hstep ih =>
    rcases step_hands hstep with hsame | ⟨input, hinput⟩
    · exact hsame ▸ ih
    · exact .tail ih trivial (congrArg some hinput.symm)

/-! ## Quotes -/

/-- The snapshots a row carries of other messages. -/
def Message.quotes (row : Message) : List ReplyRef := row.replyTo.toList ++ row.threadRoot.toList

/-- Whether a row is held as deleted. -/
def heldDeleted (rows : Rows) (id : Nat) : Bool := (rows.get? id).any (·.deleted)

/-- No held row names a message, with its author or a preview of it. -/
def BlankOf (rows : Rows) (id : Nat) : Prop :=
  ∀ row ∈ rows.values, ∀ ref ∈ row.quotes, ref.messageId = id → named ref = false

instance (rows : Rows) (id : Nat) : Decidable (BlankOf rows id) :=
  inferInstanceAs (Decidable (∀ row ∈ rows.values, ∀ ref ∈ row.quotes, _))

/-- **No held row names a row held as deleted.** -/
def QuotesBlank (rows : Rows) : Prop :=
  ∀ row ∈ rows.values, ∀ ref ∈ row.quotes, heldDeleted rows ref.messageId = true → named ref = false

instance (rows : Rows) : Decidable (QuotesBlank rows) :=
  inferInstanceAs (Decidable (∀ row ∈ rows.values, ∀ ref ∈ row.quotes, _))

theorem heldDeleted_iff {rows : Rows} {id : Nat} :
    heldDeleted rows id = true ↔ ∃ row, rows.get? id = some row ∧ row.deleted = true := by
  rw [heldDeleted, Option.any_eq_true]

theorem mem_values_of_get? {rows : Rows} {id : Nat} {row : Message} (h : rows.get? id = some row) :
    row ∈ rows.values :=
  Keyed.mem_values.mpr (by rw [Keyed.key_of_get? h, h])

theorem quotesBlank_iff {rows : Rows} :
    QuotesBlank rows ↔ ∀ id row, rows.get? id = some row → ∀ ref ∈ row.quotes, named ref = true →
      ¬ heldDeleted rows ref.messageId = true := by
  constructor
  · intro h id row hrow ref href hnamed hdeleted
    rw [h row (mem_values_of_get? hrow) ref href hdeleted] at hnamed
    cases hnamed
  · intro h row hrow ref href hdeleted
    exact Bool.eq_false_iff.mpr fun hnamed =>
      h _ row (Keyed.mem_values.mp hrow) ref href hnamed hdeleted

theorem blankOf_iff {rows : Rows} {deletedId : Nat} :
    BlankOf rows deletedId ↔ ∀ id row, rows.get? id = some row → ∀ ref ∈ row.quotes,
      named ref = true → ref.messageId ≠ deletedId := by
  constructor
  · intro h id row hrow ref href hnamed hid
    rw [h row (mem_values_of_get? hrow) ref href hid] at hnamed
    cases hnamed
  · intro h row hrow ref href hid
    exact Bool.eq_false_iff.mpr fun hnamed => h _ row (Keyed.mem_values.mp hrow) ref href hnamed hid

/-! ## The inputs that keep quotes blank -/

/-- No row the merge takes names a row held as deleted, unless a copy of that one is taken with it. -/
def NamesNoTombstone (rows : Rows) (incoming : List Message) (source : Source) : Prop :=
  ∀ row ∈ incoming, takes rows source row = true → ∀ ref ∈ row.quotes, named ref = true →
    heldDeleted rows ref.messageId = true → changed rows incoming source ref.messageId = true

instance (rows : Rows) (incoming : List Message) (source : Source) :
    Decidable (NamesNoTombstone rows incoming source) :=
  inferInstanceAs (Decidable (∀ row ∈ incoming, _ → ∀ ref ∈ row.quotes, _))

/-- No tombstone the merge takes is of a message that a row taken with it, or a held row it leaves,
names. -/
def BringsNoTombstone (rows : Rows) (incoming : List Message) (source : Source) : Prop :=
  ∀ tombstone ∈ incoming, takes rows source tombstone = true → tombstone.deleted = true →
    (∀ row ∈ incoming, takes rows source row = true → ∀ ref ∈ row.quotes,
      ref.messageId = tombstone.id → named ref = false) ∧
    ∀ held ∈ rows.values, changed rows incoming source held.id = false → ∀ ref ∈ held.quotes,
      ref.messageId = tombstone.id → named ref = false

instance (rows : Rows) (incoming : List Message) (source : Source) :
    Decidable (BringsNoTombstone rows incoming source) :=
  inferInstanceAs (Decidable (∀ tombstone ∈ incoming, _ → _ →
    (∀ row ∈ incoming, _ → ∀ ref ∈ row.quotes, _) ∧ ∀ held ∈ rows.values, _ → ∀ ref ∈ held.quotes, _))

/-- What a page's merge may do: it blanks nothing. -/
def PageUnnamed (rows : Rows) (incoming : List Message) : Prop :=
  NamesNoTombstone rows incoming fromPage ∧ BringsNoTombstone rows incoming fromPage

instance (rows : Rows) (incoming : List Message) : Decidable (PageUnnamed rows incoming) :=
  inferInstanceAs (Decidable (_ ∧ _))

/-- Whether a page still answers its view. -/
def PageAnswer.stands (answer : PageAnswer) (log : ChannelLog) : Bool :=
  ((viewOf log answer.rootId).getD emptyView).generation == answer.generation

/-- The inputs that bring no quote of a deleted message beside its tombstone: a row that arrives names
no tombstone held, a page brings none together with a row that names it, and the reader deletes no
message that a held row names. -/
def Unnamed (log : ChannelLog) : Input → Prop
  | .event (.messageCreated row) | .event (.messageUpdated row) =>
    row.channelId = log.channelId → log.knows row.seq = false →
      NamesNoTombstone log.rows [row] fromEvent
  | .event _ => True
  | .opened answer => answer.stands log = true → PageUnnamed log.rows answer.res.messages
  | .paged _ answer =>
    (viewOf log answer.rootId).isSome = true → answer.stands log = true →
      PageUnnamed log.rows answer.res.messages
  | .refreshed res => NamesNoTombstone log.rows res.messages fromPage
  | .changes res => NamesNoTombstone log.rows res.messages fromPage
  | .answered row => NamesNoTombstone log.rows [row] fromAnswer
  | .patched id change =>
    ∀ held ∈ log.rows.get? id, held.deleted = false → (change.change held).deleted = true →
      BlankOf log.rows id
  | .overlaid .. | .reconnected | .threadClosed _ => True

instance (log : ChannelLog) : (input : Input) → Decidable (Unnamed log input)
  | .event (.messageCreated _) | .event (.messageUpdated _) =>
    inferInstanceAs (Decidable (_ → _ → NamesNoTombstone ..))
  | .event (.reactionsChanged ..) | .event (.messagePinned ..) | .event (.threadChanged ..)
  | .event (.messageDeleted _) => isTrue trivial
  | .opened _ => inferInstanceAs (Decidable (_ → PageUnnamed ..))
  | .paged .. => inferInstanceAs (Decidable (_ → _ → PageUnnamed ..))
  | .refreshed _ | .changes _ | .answered _ => inferInstanceAs (Decidable (NamesNoTombstone ..))
  | .patched .. =>
    inferInstanceAs (Decidable (∀ held, held ∈ (_ : Option Message) → _ → _ → BlankOf ..))
  | .overlaid .. | .reconnected | .threadClosed _ => isTrue trivial

/-! ## Rules that bring no quote -/

/-- Rows that are all rows of before, less some quotes. -/
def Quieter (rows rows' : Rows) : Prop :=
  ∀ id row', rows'.get? id = some row' → ∃ row, rows.get? id = some row ∧ row'.deleted = row.deleted ∧
    ∀ ref ∈ row'.quotes, named ref = true → ref ∈ row.quotes

theorem Quieter.refl (rows : Rows) : Quieter rows rows :=
  fun _ row' h => ⟨row', h, rfl, fun _ href _ => href⟩

theorem Quieter.trans {a b c : Rows} (h : Quieter a b) (h' : Quieter b c) : Quieter a c := by
  intro id row'' hrow''
  obtain ⟨row', hrow', hdeleted', hquotes'⟩ := h' id row'' hrow''
  obtain ⟨row, hrow, hdeleted, hquotes⟩ := h id row' hrow'
  exact ⟨row, hrow, hdeleted'.trans hdeleted,
    fun ref href hnamed => hquotes ref (hquotes' ref href hnamed) hnamed⟩

/-- A message no row names is named by none after. -/
theorem Quieter.blankOf {rows rows' : Rows} (h : Quieter rows rows') {id : Nat}
    (hblank : BlankOf rows id) : BlankOf rows' id := by
  refine blankOf_iff.mpr fun id' row' hrow' ref href hnamed => ?_
  obtain ⟨row, hrow, -, hquotes⟩ := h id' row' hrow'
  exact blankOf_iff.mp hblank id' row hrow ref (hquotes ref href hnamed) hnamed

/-- A row held as deleted was one before. -/
theorem Quieter.heldDeleted {rows rows' : Rows} (h : Quieter rows rows') {id : Nat}
    (hdeleted : heldDeleted rows' id = true) : Channel.heldDeleted rows id = true := by
  obtain ⟨row', hrow', hdel'⟩ := heldDeleted_iff.mp hdeleted
  obtain ⟨row, hrow, hdel, -⟩ := h id row' hrow'
  exact heldDeleted_iff.mpr ⟨row, hrow, hdel.symm.trans hdel'⟩

theorem Quieter.quotesBlank {rows rows' : Rows} (h : Quieter rows rows') (hblank : QuotesBlank rows) :
    QuotesBlank rows' := by
  refine quotesBlank_iff.mpr fun id row' hrow' ref href hnamed hdeleted => ?_
  obtain ⟨row, hrow, -, hquotes⟩ := h id row' hrow'
  exact quotesBlank_iff.mp hblank id row hrow ref (hquotes ref href hnamed) hnamed
    (h.heldDeleted hdeleted)

theorem quieter_withoutRows (rows : Rows) (ids : List Nat) : Quieter rows (withoutRows rows ids) := by
  intro id row h
  rw [get?_withoutRows] at h
  split at h
  · cases h
  · exact ⟨row, h, rfl, fun _ href _ => href⟩

/-- A blanked quote that still names one was not blanked. -/
theorem blanked_of_named {deletedId : Nat} {ref : ReplyRef} (h : named (blanked deletedId ref) = true) :
    blanked deletedId ref = ref ∧ ref.messageId ≠ deletedId := by
  unfold blanked at h ⊢
  split at h
  next hcut => cases h
  next hcut =>
    rw [if_neg hcut]
    exact ⟨rfl, fun hid => hcut ⟨hid, h⟩⟩

/-- The quotes of a row once those of a deleted message are blanked. -/
theorem mem_quotes_blanked {row : Message} {deletedId : Nat} {ref : ReplyRef}
    (h : ref ∈ Message.quotes { row with
      replyTo := row.replyTo.map (blanked deletedId)
      threadRoot := row.threadRoot.map (blanked deletedId) }) :
    ∃ old ∈ row.quotes, ref = blanked deletedId old := by
  simp only [Message.quotes, List.mem_append, Option.mem_toList, Option.map_eq_some_iff] at h ⊢
  rcases h with ⟨old, hold, rfl⟩ | ⟨old, hold, rfl⟩
  · exact ⟨old, .inl hold, rfl⟩
  · exact ⟨old, .inr hold, rfl⟩

theorem quieter_withQuotesBlanked (rows : Rows) (deletedId : Nat) :
    Quieter rows (withQuotesBlanked rows deletedId) := by
  intro id row' h
  rw [get?_withQuotesBlanked] at h
  obtain ⟨row, hrow, rfl⟩ := Option.map_eq_some_iff.mp h
  refine ⟨row, hrow, rfl, fun ref href hnamed => ?_⟩
  obtain ⟨old, hold, rfl⟩ := mem_quotes_blanked href
  rwa [(blanked_of_named hnamed).1]

/-- **A deletion's blanking leaves no row that names the message.** -/
theorem blankOf_withQuotesBlanked (rows : Rows) (deletedId : Nat) :
    BlankOf (withQuotesBlanked rows deletedId) deletedId := by
  refine blankOf_iff.mpr fun id row' hrow' ref href hnamed => ?_
  rw [get?_withQuotesBlanked] at hrow'
  obtain ⟨row, -, rfl⟩ := Option.map_eq_some_iff.mp hrow'
  obtain ⟨old, -, rfl⟩ := mem_quotes_blanked href
  obtain ⟨hsame, hne⟩ := blanked_of_named hnamed
  rwa [hsame]

theorem quieter_pruned (log : ChannelLog) (rootId : Option Nat) (drop : Drop) :
    Quieter log.rows (pruned log rootId drop).rows := by
  unfold pruned
  split
  next => exact .refl _
  next =>
    simp only
    split
    next => exact .refl _
    next =>
      rw [rows_withView]
      exact quieter_withoutRows _ _

theorem quieter_prunedIfGrown (log next : ChannelLog) (rootId : Option Nat) :
    Quieter next.rows (prunedIfGrown log next rootId).rows := by
  unfold prunedIfGrown
  split
  · exact .refl _
  · exact quieter_pruned _ _ _

theorem quieter_withFloor (log : ChannelLog) (floorId : Option Nat) :
    Quieter log.rows (withFloor log floorId).rows :=
  fun id row hrow => ⟨row, (floors_withFloor log floorId).rows id row hrow, rfl, fun _ href _ => href⟩

theorem quieter_closedThread (log : ChannelLog) (rootId : Nat) :
    Quieter log.rows (closedThread log rootId).rows := by
  unfold closedThread
  split
  · exact quieter_withoutRows _ _
  · exact .refl _

@[simp] theorem rows_placedIn (log : ChannelLog) (rootId : Option Nat) (id : Nat) :
    (placedIn log rootId id).rows = log.rows := by
  unfold placedIn
  split <;> simp

@[simp] theorem rows_placed (log : ChannelLog) (row : Message) : (placed log row).rows = log.rows := by
  unfold placed
  split <;> split <;> simp

@[simp] theorem rows_stretched (log : ChannelLog) (rootId : Option Nat) :
    (stretched log rootId).rows = log.rows := by
  unfold stretched
  split
  · rfl
  · split <;> simp

/-! ## Merges -/

theorem changed_iff {rows : Rows} {incoming : List Message} {source : Source} {id : Nat} :
    changed rows incoming source id = true ↔
      ∃ row ∈ incoming, row.id = id ∧ takes rows source row = true := by
  simp only [changed, List.any_eq_true, Bool.and_eq_true, beq_iff_eq]

/-- A row after a merge was held and no copy of it was taken, or is a copy that was. -/
theorem mergeRows_cases {rows : Rows} {incoming : List Message} {source : Source} {id : Nat}
    {row' : Message} (h : (mergeRows rows incoming source).get? id = some row') :
    rows.get? id = some row' ∧ changed rows incoming source id = false ∨
      ∃ row ∈ incoming, takes rows source row = true ∧ row.id = id ∧ row' = taken rows source row := by
  rw [mergeRows_eq_setAll, Keyed.get?_setAll] at h
  cases hfind : ((incoming.filter (takes rows source)).map (taken rows source)).reverse.find?
      (fun a => a.id == id) with
  | none =>
    rw [hfind, Option.none_or] at h
    refine .inl ⟨h, Bool.eq_false_iff.mpr fun hchanged => ?_⟩
    obtain ⟨row, hrow, hid, htakes⟩ := changed_iff.mp hchanged
    have hmem : taken rows source row ∈
        ((incoming.filter (takes rows source)).map (taken rows source)).reverse :=
      List.mem_reverse.mpr (List.mem_map.mpr ⟨row, List.mem_filter.mpr ⟨hrow, htakes⟩, rfl⟩)
    exact List.find?_eq_none.mp hfind _ hmem (by rw [taken_id, beq_iff_eq]; exact hid)
  | some found =>
    rw [hfind, Option.some_or] at h
    obtain rfl := Option.some.inj h
    obtain ⟨row, hrow, rfl⟩ := List.mem_map.mp (List.mem_reverse.mp (List.mem_of_find?_eq_some hfind))
    obtain ⟨hin, htakes⟩ := List.mem_filter.mp hrow
    have hid : (taken rows source row).id = id := eq_of_beq (List.find?_some hfind :)
    exact .inr ⟨row, hin, htakes, by rwa [taken_id] at hid, rfl⟩

/-- A tombstone a merge took no copy of was held before. -/
theorem heldDeleted_of_mergeRows {rows : Rows} {incoming : List Message} {source : Source} {id : Nat}
    (hkept : changed rows incoming source id = false)
    (h : heldDeleted (mergeRows rows incoming source) id = true) : heldDeleted rows id = true := by
  obtain ⟨tombstone, htombstone, hdel⟩ := heldDeleted_iff.mp h
  rcases mergeRows_cases htombstone with ⟨hbefore, -⟩ | ⟨row, hrow, htakes, hid, -⟩
  · exact heldDeleted_iff.mpr ⟨tombstone, hbefore, hdel⟩
  · rw [changed_iff.mpr ⟨row, hrow, hid, htakes⟩] at hkept
    cases hkept

/-- A copy kept quotes what the copy that came quotes. -/
@[simp] theorem taken_quotes (rows : Rows) (source : Source) (row : Message) :
    (taken rows source row).quotes = row.quotes := by
  unfold taken
  split
  · split <;> rfl
  · rfl

@[simp] theorem taken_deleted (rows : Rows) (source : Source) (row : Message) :
    (taken rows source row).deleted = row.deleted := by
  unfold taken
  split
  · split <;> rfl
  · rfl

/-- The rows once those of an arrival were gone through, in their order: quieter than the merge, and
each tombstone that was taken is named by none. -/
theorem quieter_arrived {log : ChannelLog} {incoming : List Message} {source : Source}
    (rest : List Message) (next : ChannelLog × List Nat) :
    let merged := mergeRows log.rows incoming source
    let last := rest.foldl (arrived log merged incoming source) next
    Quieter next.1.rows last.1.rows ∧ ∀ row ∈ rest, changed log.rows incoming source row.id = true →
      heldDeleted merged row.id = true → BlankOf last.1.rows row.id := by
  intro merged
  induction rest generalizing next with
  | nil => exact ⟨.refl _, fun _ h => absurd h List.not_mem_nil⟩
  | cons row rest ih =>
    have hone : Quieter next.1.rows (arrived log merged incoming source next row).1.rows ∧
        (changed log.rows incoming source row.id = true → heldDeleted merged row.id = true →
          BlankOf (arrived log merged incoming source next row).1.rows row.id) := by
      unfold arrived
      split
      next hchanged =>
        by_cases hdeleted : (merged.get? row.id).any (·.deleted) = true
        · rw [if_pos hdeleted]
          have hquiet := quieter_withQuotesBlanked next.1.rows row.id
          have hblank := blankOf_withQuotesBlanked next.1.rows row.id
          split
          · exact ⟨hquiet, fun _ _ => hblank⟩
          · rw [rows_placed]
            exact ⟨hquiet, fun _ _ => hblank⟩
        · rw [if_neg hdeleted]
          split
          · exact ⟨.refl _, fun _ h => absurd h hdeleted⟩
          · rw [rows_placed]
            exact ⟨.refl _, fun _ h => absurd h hdeleted⟩
      next hchanged => exact ⟨.refl _, fun h => absurd h hchanged⟩
    obtain ⟨hquiet, hblank⟩ := ih (arrived log merged incoming source next row)
    refine ⟨hone.1.trans hquiet, fun other hother hchanged hdeleted => ?_⟩
    rcases List.mem_cons.mp hother with rfl | hrest
    · exact hquiet.blankOf (hone.2 hchanged hdeleted)
    · exact hblank other hrest hchanged hdeleted

/-- **An arrival that names no tombstone keeps quotes blank.** -/
theorem QuotesBlank.withArrivals {log : ChannelLog} {incoming : List Message} {source : Source}
    (inv : QuotesBlank log.rows) (hnames : NamesNoTombstone log.rows incoming source) :
    QuotesBlank (withArrivals log incoming source).rows := by
  unfold Channel.withArrivals
  split
  next =>
    obtain ⟨hquiet, hblank⟩ := @quieter_arrived log incoming source incoming
      ({ log with rows := mergeRows log.rows incoming source }, [])
    have hpruned : ∀ (roots : List Nat) (next : ChannelLog), Quieter next.rows
        (roots.foldl (fun next root => prunedIfGrown log next (some root)) next).rows := by
      intro roots
      induction roots with
      | nil => exact fun next => .refl _
      | cons root roots ih => exact fun next => (quieter_prunedIfGrown _ _ _).trans (ih _)
    refine ((quieter_prunedIfGrown _ _ _).trans (hpruned _ _)).quotesBlank ?_
    refine quotesBlank_iff.mpr fun id row hrow ref href hnamed hdeleted => ?_
    obtain ⟨merged, hmerged, -, hquotes⟩ := hquiet id row hrow
    have hquoted := hquotes ref href hnamed
    have hleft := hquiet.heldDeleted hdeleted
    cases hchanged : changed log.rows incoming source ref.messageId with
    | true =>
      -- the tombstone came with this arrival, which blanked the quotes of it
      obtain ⟨copy, hcopy, hid, -⟩ := changed_iff.mp hchanged
      exact blankOf_iff.mp (hblank copy hcopy (hid ▸ hchanged) (hid ▸ hleft)) id row hrow ref href
        hnamed hid.symm
    | false =>
      -- the tombstone was held before
      have hheld : heldDeleted log.rows ref.messageId = true :=
        heldDeleted_of_mergeRows hchanged hleft
      rcases mergeRows_cases hmerged with ⟨hbefore, -⟩ | ⟨copy, hcopy, htakes, -, rfl⟩
      · exact quotesBlank_iff.mp inv id merged hbefore ref hquoted hnamed hheld
      · rw [taken_quotes] at hquoted
        rw [hnames copy hcopy htakes ref hquoted hnamed hheld] at hchanged
        cases hchanged
  next => exact inv

/-- **A page that brings no quote beside its tombstone keeps quotes blank.** -/
theorem QuotesBlank.mergeRows {rows : Rows} {incoming : List Message} (inv : QuotesBlank rows)
    (hpage : PageUnnamed rows incoming) : QuotesBlank (mergeRows rows incoming fromPage) := by
  refine quotesBlank_iff.mpr fun id row hrow ref href hnamed hdeleted => ?_
  cases hchanged : changed rows incoming fromPage ref.messageId with
  | true =>
    -- the tombstone came with this page
    obtain ⟨tombstone, htombstone, hdel⟩ := heldDeleted_iff.mp hdeleted
    rcases mergeRows_cases htombstone with ⟨-, hkept⟩ | ⟨copy, hcopy, htakes, hid, rfl⟩
    · rw [hchanged] at hkept
      cases hkept
    · rw [taken_deleted] at hdel
      obtain ⟨htaken, hheld⟩ := hpage.2 copy hcopy htakes hdel
      have hblank : named ref = false := by
        rcases mergeRows_cases hrow with ⟨hbefore, hleft⟩ | ⟨quoting, hquoting, htakes', -, rfl⟩
        · exact hheld row (mem_values_of_get? hbefore) ((Keyed.key_of_get? hbefore).symm ▸ hleft) ref
            href hid.symm
        · rw [taken_quotes] at href
          exact htaken quoting hquoting htakes' ref href hid.symm
      rw [hblank] at hnamed
      cases hnamed
  | false =>
    -- the tombstone was held before
    have hheld := heldDeleted_of_mergeRows hchanged hdeleted
    rcases mergeRows_cases hrow with ⟨hbefore, -⟩ | ⟨quoting, hquoting, htakes, -, rfl⟩
    · exact quotesBlank_iff.mp inv id row hbefore ref href hnamed hheld
    · rw [taken_quotes] at href
      rw [hpage.1 quoting hquoting htakes ref href hnamed hheld] at hchanged
      cases hchanged

/-! ## One input -/

/-- A row that quotes what a held one does names no tombstone. -/
theorem QuotesBlank.namesNoTombstone {rows : Rows} {id : Nat} {held row : Message} {source : Source}
    (inv : QuotesBlank rows) (hheld : rows.get? id = some held) (hquotes : row.quotes = held.quotes) :
    NamesNoTombstone rows [row] source := by
  intro row' hrow' _ ref href hnamed hdeleted
  obtain rfl := List.mem_singleton.mp hrow'
  rw [hquotes] at href
  exact absurd hdeleted (quotesBlank_iff.mp inv id held hheld ref href hnamed)

/-- A held row that keeps its quotes and is not newly deleted may be replaced. -/
theorem QuotesBlank.set {rows : Rows} {id : Nat} {held row : Message} (inv : QuotesBlank rows)
    (hheld : rows.get? id = some held) (hid : row.id = held.id) (hquotes : row.quotes = held.quotes)
    (hdeleted : held.deleted = false → row.deleted = true → BlankOf rows id) :
    QuotesBlank (rows.set row) := by
  obtain rfl : held.id = id := Keyed.key_of_get? hheld
  refine quotesBlank_iff.mpr fun id' row' hrow' ref href hnamed hdel' => ?_
  -- the row that names was held with the same quotes
  obtain ⟨old, hold, hsame⟩ : ∃ old, rows.get? id' = some old ∧ row'.quotes = old.quotes := by
    rcases Keyed.get?_set_cases hrow' with ⟨hkey, rfl⟩ | ⟨-, hold⟩
    · exact ⟨held, by rw [← hkey, hid, hheld], hquotes⟩
    · exact ⟨row', hold, rfl⟩
  rw [hsame] at href
  have hbefore : ¬ heldDeleted rows ref.messageId = true :=
    quotesBlank_iff.mp inv id' old hold ref href hnamed
  obtain ⟨tombstone, htombstone, hdel⟩ := heldDeleted_iff.mp hdel'
  rcases Keyed.get?_set_cases htombstone with ⟨hkey, rfl⟩ | ⟨-, hkept⟩
  · cases hwas : held.deleted with
    | true => exact hbefore (heldDeleted_iff.mpr ⟨held, by rw [← hkey, hid, hheld], hwas⟩)
    | false =>
      exact blankOf_iff.mp (hdeleted hwas hdel) id' old hold ref href hnamed (hkey.symm.trans hid)
  · exact hbefore (heldDeleted_iff.mpr ⟨tombstone, hkept, hdel⟩)

/-- A partial event changes no quote. -/
theorem QuotesBlank.patched {log : ChannelLog} (inv : QuotesBlank log.rows) (id seq : Nat)
    {change : Message → Message} (hquotes : ∀ held, (change held).quotes = held.quotes) :
    QuotesBlank (patched log id seq change).rows := by
  unfold Channel.patched
  cases hheld : log.rows.get? id with
  | none => exact inv
  | some held => exact inv.withArrivals (inv.namesNoTombstone hheld (hquotes held))

/-- A deletion's tombstone quotes what the row did. -/
theorem QuotesBlank.deletion {log : ChannelLog} (inv : QuotesBlank log.rows)
    (deletion : MessageDeleted) :
    QuotesBlank (Channel.withArrivals log
      [tombstoneOf (log.rows.get? deletion.messageId) deletion] fromEvent).rows := by
  cases hheld : log.rows.get? deletion.messageId with
  | none =>
    refine inv.withArrivals fun row hrow _ ref href => ?_
    obtain rfl := List.mem_singleton.mp hrow
    cases href
  | some held => exact inv.withArrivals (inv.namesNoTombstone hheld rfl)

theorem QuotesBlank.event {log : ChannelLog} (inv : QuotesBlank log.rows) {event : ServerEvent}
    (hevent : Unnamed log (.event event)) : QuotesBlank (withEvent log event).rows := by
  by_cases hchannel : (changeOf event).channelId = log.channelId
  · rcases withEvent_rows log event with hsame | ⟨hknows, hrows⟩
    · rwa [hsame]
    · rw [hrows]
      cases event with
      | messageCreated row | messageUpdated row => exact inv.withArrivals (hevent hchannel hknows)
      | reactionsChanged _ _ _ _ | messagePinned _ _ _ _ | threadChanged _ _ _ _ =>
        exact inv.patched _ _ fun _ => rfl
      | messageDeleted deletion => exact inv.deletion deletion
  · have hsame : withEvent log event = log := by
      simp only [withEvent, bne_iff_ne.mpr hchannel, if_true]
    rwa [hsame]

theorem QuotesBlank.opened {log : ChannelLog} (inv : QuotesBlank log.rows) {answer : PageAnswer}
    (hpage : Unnamed log (.opened answer)) : QuotesBlank (opened log answer).rows := by
  by_cases hstands : answer.stands log = true
  · have hgen : ((viewOf log answer.rootId).getD emptyView).generation = answer.generation :=
      eq_of_beq hstands
    simp only [Channel.opened, hgen, bne_self_eq_false, Bool.false_eq_true, if_false, rows_stretched]
    refine (quieter_withFloor _ _).quotesBlank ?_
    rw [rows_withView]
    split <;> exact inv.mergeRows (hpage hstands)
  · rwa [opened_stale fun hgen => hstands (beq_iff_eq.mpr hgen)]

theorem QuotesBlank.paged {log : ChannelLog} (inv : QuotesBlank log.rows) {direction : Direction}
    {answer : PageAnswer} (hpage : Unnamed log (.paged direction answer)) :
    QuotesBlank (paged log direction answer).rows := by
  unfold Channel.paged
  split
  next => exact inv
  next view hview =>
    split
    next => exact inv
    next hgen =>
      have hstands : answer.stands log = true := by
        rw [PageAnswer.stands, hview, Option.getD_some]
        exact Bool.not_eq_false _ |>.mp fun h => hgen (by rw [bne, h]; rfl)
      refine (quieter_pruned _ _ _).quotesBlank ?_
      rw [rows_stretched]
      refine (quieter_withFloor _ _).quotesBlank ?_
      rw [rows_withView]
      exact inv.mergeRows (hpage (by rw [hview, Option.isSome_some]) hstands)

theorem QuotesBlank.withPatch {log : ChannelLog} (inv : QuotesBlank log.rows) {id : Nat}
    {change : OwnChange} (hpatch : Unnamed log (.patched id change)) :
    QuotesBlank (withPatch log id change.change).rows := by
  unfold Channel.withPatch
  cases hheld : log.rows.get? id with
  | none => exact inv
  | some held =>
    refine inv.set hheld rfl ?_ (hpatch held hheld)
    cases change with
    | reacted standing _ | pinned standing _ | deleted =>
      simp only [OwnChange.change]
      split <;> rfl
    | removed | threadRemoved => rfl

theorem QuotesBlank.withThreadOverlay {log : ChannelLog} (inv : QuotesBlank log.rows) (rootId : Nat)
    (patch : ThreadOverlay) : QuotesBlank (withThreadOverlay log rootId patch).rows := by
  unfold Channel.withThreadOverlay
  cases hheld : log.rows.get? rootId with
  | none => exact inv
  | some held =>
    simp only
    split
    next => exact inv
    next =>
      exact inv.set hheld rfl rfl fun hwas hdel => absurd hdel (Bool.eq_false_iff.mp hwas)

/-- **The step lemma.** -/
theorem QuotesBlank.hand {log : ChannelLog} (inv : QuotesBlank log.rows) {input : Input}
    (hinput : Unnamed log input) : QuotesBlank (log.hand input).rows := by
  cases input with
  | event event => exact inv.event hinput
  | opened answer => exact inv.opened hinput
  | paged direction answer => exact inv.paged hinput
  | refreshed res => exact (quieter_withFloor _ _).quotesBlank (inv.withArrivals hinput)
  | changes res =>
    simp only [ChannelLog.hand, caughtUp]
    have hquiet := (quieter_withFloor _ res.retentionFloorId).quotesBlank (inv.withArrivals hinput)
    split <;> exact hquiet
  | answered row => exact inv.withArrivals hinput
  | patched id change => exact inv.withPatch hinput
  | overlaid rootId patch => exact inv.withThreadOverlay rootId patch
  | reconnected => exact inv
  | threadClosed rootId => exact (quieter_closedThread log rootId).quotesBlank inv

/-! ## Every run -/

/-- **Quotes of deleted messages stay blank** where no input brings one beside its tombstone. -/
theorem quotes_stay_blank {channelId : String} {log : ChannelLog}
    (h : Runs hand Unnamed (emptyLog channelId) log) : QuotesBlank log.rows := by
  refine @Runs.keeps _ _ _ _ _ _ (fun log : ChannelLog => QuotesBlank log.rows)
    (fun row hrow => absurd hrow List.not_mem_nil) ?_ h
  intro log input log' inv hinput hstep
  obtain rfl := Option.some.inj hstep
  exact inv.hand hinput

/-! ## Two runs -/

/-- A message that quotes the first, as the server reads it while the first is there. -/
def quoting : Message :=
  { sent 2 "agreed" with replyTo := some { messageId := 1, author := some "ann", preview := "hello" } }

/-- The same message as it is stored. -/
def quotingStored : Message := { sent 2 "agreed" with replyTo := some { messageId := 1 } }

/-- The server's read of the quote of the first message. -/
def readQuote : Hydration where
  fill row := { row with replyTo := row.replyTo.map fun ref => { ref with
    author := some "ann", preview := "hello" } }
  versioned row := by
    cases row with
    | mk =>
      simp only [Message.versioned, Option.map_map]
      rfl

/-- The quoting row arrives before the deletion of what it quotes. -/
def quotedThenDeleted : List Input :=
  [.event (.messageCreated ((sent 1 "hello").withSeq 1)),
    .event (.messageCreated (quoting.withSeq 2)),
    .event (.messageDeleted { messageId := 1, channelId := "c1", threadRootId := none, seq := 3 })]

theorem quotedThenDeleted_blank :
    ∃ log, runList hand (emptyLog "c1") quotedThenDeleted = some log ∧ heldDeleted log.rows 1 = true ∧
      QuotesBlank log.rows := by
  exact ⟨_, rfl, by decide, quotes_stay_blank (Runs.ofList quotedThenDeleted (by decide) rfl)⟩

/-- A message, one that quotes it and its deletion, whose events come in another order. -/
def deletedThenQuoted : List Label :=
  [.openView none, .answer 0 (readAt 0), .commit (.whole (sent 1 "hello")),
    .commit (.whole quotingStored), .commit (.deleted 1), .deliver 1 .none, .deliver 3 .none,
    .deliver 2 readQuote]

/-- **A quote that comes late stays**: the row that quotes a message is held beside its tombstone with
the author and the preview. -/
theorem late_quote_named :
    ¬ ∀ channelId w, Runs World.step Always (World.empty channelId) w → QuotesBlank w.log.rows := by
  intro claim
  have hrun : ∀ w, runList World.step (World.empty "c1") deletedThenQuoted = some w →
      QuotesBlank w.log.rows :=
    fun w hw => claim "c1" w (Runs.ofList deletedThenQuoted (EachStep.always _ _) hw)
  have hlate : ¬ ∀ w ∈ runList World.step (World.empty "c1") deletedThenQuoted,
      QuotesBlank w.log.rows := by decide
  exact hlate hrun

end Stoop.Channel
