import Stoop.Channel.Timeline

/-!
# What the rules leave alone

Every rule that changes a log first merges rows and then moves ranges, blanks quotes and drops rows.
The second part is `Reshapes`: the position and what is owed stay, every view keeps its generation,
and a row that is still held is the row that was there, up to what no seq governs. So the copies held
after a rule are those of its merge, less what it dropped.
-/

set_option autoImplicit false

namespace Stoop.Channel

open Stoop.Lib

/-! ## Rows, up to what no seq governs -/

theorem isShown_versioned (row : Message) : isShown row.versioned = isShown row := by
  simp only [isShown, Message.versioned, Option.map_map]
  rfl

theorem isShown_of_versioned {row row' : Message} (h : row'.versioned = row.versioned) :
    isShown row' = isShown row := by
  rw [← isShown_versioned row', h, isShown_versioned]

theorem copy_of_versioned {row row' : Message} (h : row'.versioned = row.versioned) :
    row'.copy = row.copy := by
  have hseq : row'.seq = row.seq := (congrArg Message.seq h :)
  simp only [Message.copy, Message.shown, isShown_of_versioned h, h, hseq]

theorem id_of_versioned {row row' : Message} (h : row'.versioned = row.versioned) :
    row'.id = row.id :=
  (congrArg Message.id h :)

theorem belongs_of_versioned {row row' : Message} (h : row'.versioned = row.versioned)
    (rootId : Option Nat) : belongs row' rootId = belongs row rootId := by
  have hroot : row'.threadRootId = row.threadRootId := (congrArg Message.threadRootId h :)
  have hin : row'.inChannel = row.inChannel := (congrArg Message.inChannel h :)
  simp only [belongs, showsInChannel, hroot, hin]

theorem withViewerHalf_shared (next held : Option ThreadSummary) :
    (withViewerHalf next held).map (·.shared) = next.map (·.shared) := by
  cases next <;> cases held <;> rfl

theorem taken_versioned (rows : Rows) (source : Source) (row : Message) :
    (taken rows source row).versioned = row.versioned := by
  unfold taken
  split
  · split
    · simp only [Message.versioned, withViewerHalf_shared]
    · rfl
  · rfl

theorem blanked_bare (deletedId : Nat) (ref : ReplyRef) : (blanked deletedId ref).bare = ref.bare := by
  unfold blanked
  split <;> rfl

/-- Rows that are all rows of before, up to what no seq governs. -/
def Thins (rows rows' : Rows) : Prop :=
  ∀ id row', rows'.get? id = some row' →
    ∃ row, rows.get? id = some row ∧ row'.versioned = row.versioned

theorem Thins.refl (rows : Rows) : Thins rows rows := fun _ row' h => ⟨row', h, rfl⟩

theorem Thins.trans {a b c : Rows} (h : Thins a b) (h' : Thins b c) : Thins a c := by
  intro id row hrow
  obtain ⟨row', hrow', heq⟩ := h' id row hrow
  obtain ⟨row'', hrow'', heq'⟩ := h id row' hrow'
  exact ⟨row'', hrow'', heq.trans heq'⟩

theorem thins_withoutRows (rows : Rows) (ids : List Nat) : Thins rows (withoutRows rows ids) := by
  intro id row h
  rw [get?_withoutRows] at h
  split at h
  · cases h
  · exact ⟨row, h, rfl⟩

theorem thins_withQuotesBlanked (rows : Rows) (deletedId : Nat) :
    Thins rows (withQuotesBlanked rows deletedId) := by
  intro id row h
  rw [get?_withQuotesBlanked] at h
  obtain ⟨row', hrow', rfl⟩ := Option.map_eq_some_iff.mp h
  refine ⟨row', hrow', ?_⟩
  simp only [Message.versioned, Option.map_map]
  have hbare : ReplyRef.bare ∘ blanked deletedId = ReplyRef.bare := funext (blanked_bare deletedId)
  rw [show (fun ref : ReplyRef => ref.bare) = ReplyRef.bare from rfl, hbare]

/-! ## Views -/

theorem viewOf_withView (log : ChannelLog) (rootId rootId' : Option Nat) (view : View) :
    viewOf (withView log rootId view) rootId' =
      if rootId' = rootId then some view else viewOf log rootId' := by
  cases rootId with
  | none => cases rootId' <;> rfl
  | some root =>
    cases rootId' with
    | none => rfl
    | some root' =>
      simp only [viewOf, withView, Keyed.get?_set, Option.some.injEq, eq_comm (a := root)]
      split <;> rfl

@[simp] theorem rows_withView (log : ChannelLog) (rootId : Option Nat) (view : View) :
    (withView log rootId view).rows = log.rows := by
  cases rootId <;> rfl

/-- Every view's generation, where there is a view. -/
def generations (log : ChannelLog) (rootId : Option Nat) : Option Nat :=
  (viewOf log rootId).map (·.generation)

theorem hasPage_iff (log : ChannelLog) :
    hasPage log = true ↔ ∃ rootId generation, generations log rootId = some generation ∧
      0 < generation := by
  simp only [hasPage, Bool.or_eq_true, decide_eq_true_eq, List.any_eq_true]
  constructor
  · rintro (h | ⟨thread, hthread, h⟩)
    · exact ⟨none, _, rfl, h⟩
    · refine ⟨some thread.1, thread.2.generation, ?_, h⟩
      simp only [generations, viewOf, Keyed.mem_values.mp hthread, Option.map_some]
  · rintro ⟨rootId, generation, hgen, h⟩
    cases rootId with
    | none =>
      obtain rfl : log.channel.generation = generation := Option.some.inj hgen
      exact .inl h
    | some root =>
      obtain ⟨view, hview, rfl⟩ := Option.map_eq_some_iff.mp hgen
      obtain ⟨thread, hthread, rfl⟩ := Option.map_eq_some_iff.mp hview
      refine .inr ⟨thread, Keyed.mem_values.mpr ?_, h⟩
      rw [Keyed.key_of_get? hthread, hthread]

/-- Logs whose views have the same generations have had a page alike. -/
theorem hasPage_of_generations {log log' : ChannelLog}
    (h : ∀ rootId, generations log' rootId = generations log rootId) :
    hasPage log' = hasPage log := by
  rw [Bool.eq_iff_iff, hasPage_iff, hasPage_iff]
  simp only [h]

/-! ## Reshaping -/

/-- What moving ranges, blanking quotes and dropping rows leave alone. -/
structure Reshapes (log log' : ChannelLog) : Prop where
  channelId : log'.channelId = log.channelId
  seq : log'.seq = log.seq
  seenSeq : log'.seenSeq = log.seenSeq
  needsCatchUp : log'.needsCatchUp = log.needsCatchUp
  floor : log'.floor = log.floor
  generations : ∀ rootId, generations log' rootId = generations log rootId
  rows : Thins log.rows log'.rows

theorem Reshapes.refl (log : ChannelLog) : Reshapes log log :=
  ⟨rfl, rfl, rfl, rfl, rfl, fun _ => rfl, .refl _⟩

theorem Reshapes.trans {a b c : ChannelLog} (h : Reshapes a b) (h' : Reshapes b c) :
    Reshapes a c :=
  ⟨h'.channelId.trans h.channelId, h'.seq.trans h.seq, h'.seenSeq.trans h.seenSeq,
    h'.needsCatchUp.trans h.needsCatchUp, h'.floor.trans h.floor,
    fun rootId => (h'.generations rootId).trans (h.generations rootId), h.rows.trans h'.rows⟩

theorem Reshapes.hasPage {log log' : ChannelLog} (h : Reshapes log log') :
    Channel.hasPage log' = Channel.hasPage log :=
  hasPage_of_generations h.generations

theorem reshapes_withView {log : ChannelLog} {rootId : Option Nat} {view view' : View}
    (hview : viewOf log rootId = some view) (hgen : view'.generation = view.generation) :
    Reshapes log (withView log rootId view') := by
  refine ⟨?_, ?_, ?_, ?_, ?_, fun rootId' => ?_, ?_⟩
  iterate 5 cases rootId <;> rfl
  · rw [generations, generations, viewOf_withView]
    split
    next h => rw [h, hview, Option.map_some, Option.map_some, hgen]
    next => rfl
  · rw [rows_withView]
    exact .refl _

theorem reshapes_rows {log : ChannelLog} {rows : Rows} (h : Thins log.rows rows) :
    Reshapes log { log with rows := rows } :=
  ⟨rfl, rfl, rfl, rfl, rfl, fun rootId => by cases rootId <;> rfl, h⟩

@[simp] theorem extended_generation (view : View) (id : Nat) :
    (extended view id).generation = view.generation := by
  unfold extended
  split
  · rfl
  · split
    · split <;> rfl
    · split <;> rfl

theorem reshapes_placedIn (log : ChannelLog) (rootId : Option Nat) (id : Nat) :
    Reshapes log (placedIn log rootId id) := by
  unfold placedIn
  split
  next hview => exact reshapes_withView hview (extended_generation _ _)
  next => exact .refl _

theorem reshapes_placed (log : ChannelLog) (row : Message) : Reshapes log (placed log row) := by
  have hchannel : Reshapes log (if showsInChannel row then placedIn log none row.id else log) := by
    split
    · exact reshapes_placedIn _ _ _
    · exact .refl _
  unfold placed
  cases row.threadRootId with
  | none => exact hchannel
  | some root => exact hchannel.trans (reshapes_placedIn _ _ _)

theorem reshapes_pruned (log : ChannelLog) (rootId : Option Nat) (drop : Drop) :
    Reshapes log (pruned log rootId drop) := by
  unfold pruned
  split
  next => exact .refl _
  next view hview =>
    simp only
    split
    next => exact .refl _
    next =>
      refine (reshapes_withView hview ?_).trans (reshapes_rows (thins_withoutRows _ _))
      cases drop <;> rfl

theorem reshapes_stretched (log : ChannelLog) (rootId : Option Nat) :
    Reshapes log (stretched log rootId) := by
  unfold stretched
  split
  next => exact .refl _
  next view hview =>
    split
    next => exact .refl _
    next => exact reshapes_withView hview rfl

/-- One row of an arrival moves ranges and blanks quotes. -/
theorem reshapes_arrived {log : ChannelLog} {rows : Rows} {incoming : List Message}
    {source : Source} (next : ChannelLog × List Nat) (row : Message) :
    Reshapes next.1 (arrived log rows incoming source next row).1 := by
  unfold arrived
  split
  next =>
    have hquotes : Reshapes next.1
        (if (rows.get? row.id).any (·.deleted) then
          { next.1 with rows := withQuotesBlanked next.1.rows row.id } else next.1) := by
      split
      · exact reshapes_rows (thins_withQuotesBlanked _ _)
      · exact .refl _
    simp only
    split
    · exact hquotes
    · exact hquotes.trans (reshapes_placed _ _)
  next => exact .refl _

theorem reshapes_prunedIfGrown (log next : ChannelLog) (rootId : Option Nat) :
    Reshapes next (prunedIfGrown log next rootId) := by
  unfold prunedIfGrown
  split
  · exact .refl _
  · exact reshapes_pruned _ _ _

theorem mergeRows_of_takes_none {rows : Rows} {incoming : List Message} {source : Source}
    (h : incoming.any (takes rows source) = false) : mergeRows rows incoming source = rows := by
  rw [mergeRows_eq_setAll, List.filter_eq_nil_iff.mpr, List.map_nil]
  · rfl
  · intro row hrow htakes
    rw [List.any_eq_true.mpr ⟨row, hrow, htakes⟩] at h
    cases h

/-- **An arrival reshapes its merge.** -/
theorem reshapes_withArrivals (log : ChannelLog) (incoming : List Message) (source : Source) :
    Reshapes { log with rows := mergeRows log.rows incoming source }
      (withArrivals log incoming source) := by
  unfold withArrivals
  split
  next =>
    have hplaced : ∀ (rest : List Message) (next : ChannelLog × List Nat), Reshapes next.1
        (rest.foldl (arrived log (mergeRows log.rows incoming source) incoming source) next).1 := by
      intro rest
      induction rest with
      | nil => exact fun next => .refl _
      | cons row rest ih => exact fun next => (reshapes_arrived next row).trans (ih _)
    have hpruned : ∀ (roots : List Nat) (next : ChannelLog), Reshapes next
        (roots.foldl (fun next root => prunedIfGrown log next (some root)) next) := by
      intro roots
      induction roots with
      | nil => exact fun next => .refl _
      | cons root roots ih => exact fun next => (reshapes_prunedIfGrown _ _ _).trans (ih _)
    exact ((hplaced incoming ({ log with rows := mergeRows log.rows incoming source }, [])).trans
      (reshapes_prunedIfGrown _ _ _)).trans (hpruned _ _)
  next h =>
    rw [Bool.not_eq_true] at h
    rw [mergeRows_of_takes_none h]
    exact .refl _

/-! ## The floor -/

/-- The floor drops rows, and with a thread's root its view; the rest stays. -/
structure Floors (log log' : ChannelLog) : Prop where
  channelId : log'.channelId = log.channelId
  seq : log'.seq = log.seq
  seenSeq : log'.seenSeq = log.seenSeq
  needsCatchUp : log'.needsCatchUp = log.needsCatchUp
  channel : log'.channel = log.channel
  rows : ∀ id row, log'.rows.get? id = some row → log.rows.get? id = some row
  thread : ∀ root, viewOf log' (some root) = viewOf log (some root) ∨
    viewOf log' (some root) = none ∧ log.rows.has root = true ∧ log'.rows.has root = false

theorem floors_withFloor (log : ChannelLog) (floorId : Option Nat) :
    Floors log (withFloor log floorId) := by
  unfold withFloor
  split
  next => exact ⟨rfl, rfl, rfl, rfl, rfl, fun _ _ h => h, fun _ => .inl rfl⟩
  next floor _ =>
    refine ⟨rfl, rfl, rfl, rfl, rfl, fun id row h => ?_, fun root => ?_⟩
    · rw [get?_withoutRows] at h
      split at h
      · cases h
      · exact h
    · simp only [viewOf, Keyed.get?_filter, Keyed.has, get?_withoutRows]
      cases hthread : log.threads.get? root with
      | none => exact .inl rfl
      | some thread =>
        have hroot := Keyed.key_of_get? hthread
        by_cases hgone : root ∈ (log.rows.values.filter fun row =>
            belowFloor log.rows row floor).map (·.id)
        · obtain ⟨row, hrow, hid⟩ := List.mem_map.mp hgone
          have hheld := Keyed.mem_values.mp (List.mem_of_mem_filter hrow)
          refine .inr ⟨?_, ?_, ?_⟩
          · simp [Option.filter, hroot, hgone]
          · rw [← hid, hheld, Option.isSome_some]
          · rw [if_pos hgone, Option.isSome_none]
        · exact .inl (by simp [Option.filter, hroot, hgone])

theorem Floors.thins {log log' : ChannelLog} (h : Floors log log') : Thins log.rows log'.rows :=
  fun id row' hrow => ⟨row', h.rows id row' hrow, rfl⟩

/-- A floor that drops no row leaves every view. -/
theorem Floors.generations {log log' : ChannelLog} (h : Floors log log')
    (hkeeps : ∀ id, log.rows.has id = true → log'.rows.has id = true) (rootId : Option Nat) :
    generations log' rootId = generations log rootId := by
  cases rootId with
  | none => exact congrArg (fun view => some view.generation) h.channel
  | some root =>
    rcases h.thread root with hview | ⟨-, hheld, hgone⟩
    · rw [Channel.generations, hview, Channel.generations]
    · rw [hkeeps root hheld] at hgone
      cases hgone

/-! ## Copies -/

/-- The copies a log holds. -/
def ChannelLog.copies (log : ChannelLog) (id : Nat) : Option (Copy (Option Message)) :=
  (log.rows.get? id).map Message.copy

/-- The copies a list of rows brings. -/
def copiesOf (incoming : List Message) (id : Nat) : Option (Copy (Option Message)) :=
  (incoming.find? fun row => row.id == id).map Message.copy

theorem copiesOf_eq_some {incoming : List Message} (hnodup : (incoming.map (·.id)).Nodup)
    {id : Nat} {c : Copy (Option Message)} :
    copiesOf incoming id = some c ↔ ∃ row ∈ incoming, row.id = id ∧ row.copy = c := by
  rw [copiesOf, Option.map_eq_some_iff]
  constructor
  · rintro ⟨row, hrow, hc⟩
    exact ⟨row, List.mem_of_find?_eq_some hrow, eq_of_beq (List.find?_some hrow :), hc⟩
  · rintro ⟨row, hrow, rfl, hc⟩
    cases hfind : incoming.find? fun row' => row'.id == row.id with
    | none => exact absurd (beq_self_eq_true _) (List.find?_eq_none.mp hfind row hrow)
    | some row' =>
      have hid : row'.id = row.id := eq_of_beq (List.find?_some hfind :)
      exact ⟨row, congrArg some (List.inj_on_of_nodup_map hnodup
        (List.mem_of_find?_eq_some hfind) hrow hid), hc⟩

theorem takes_iff_beats {rows : Rows} {source : Source} {row held : Message}
    (hheld : rows.get? row.id = some held) :
    takes rows source row = true ↔ row.copy.Beats source.fromServer held.copy := by
  rw [takes, hheld]
  simp only [wins, Copy.Beats, Message.copy]
  cases source.fromServer
  · simp
  · simp; omega

/-- **The merge of rows is the merge of their copies.** -/
theorem copies_mergeRows {rows : Rows} {incoming : List Message} {source : Source}
    (hnodup : (incoming.map (·.id)).Nodup) (id : Nat) :
    ((mergeRows rows incoming source).get? id).map Message.copy =
      merge source.fromServer ((rows.get? id).map Message.copy) (copiesOf incoming id) := by
  cases hpage : copiesOf incoming id with
  | none =>
    rw [merge_none_right, get?_mergeRows_of_not]
    intro row hrow hid
    have := (copiesOf_eq_some hnodup (c := row.copy)).mpr ⟨row, hrow, hid, rfl⟩
    rw [hpage] at this
    cases this
  | some c =>
    obtain ⟨row, hrow, rfl, rfl⟩ := (copiesOf_eq_some hnodup).mp hpage
    by_cases htakes : takes rows source row = true
    · rw [get?_mergeRows_of_takes hnodup hrow htakes, Option.map_some,
        copy_of_versioned (taken_versioned rows source row)]
      cases hheld : rows.get? row.id with
      | none => rfl
      | some held =>
        rw [Option.map_some, merge, if_pos ((takes_iff_beats hheld).mp htakes)]
    · cases hheld : rows.get? row.id with
      | none => exact absurd (by rw [takes, hheld]) htakes
      | some held =>
        rw [Option.map_some, merge, if_neg fun h => htakes ((takes_iff_beats hheld).mpr h),
          get?_mergeRows_of_not, hheld, Option.map_some]
        intro row' hrow' hid
        rw [List.inj_on_of_nodup_map hnodup hrow' hrow hid]
        exact Bool.eq_false_iff.mpr htakes

/-- Rows thinned out hold copies of those before. -/
theorem Thins.copy {rows rows' : Rows} (h : Thins rows rows') {id : Nat}
    {c : Copy (Option Message)} (hc : (rows'.get? id).map Message.copy = some c) :
    (rows.get? id).map Message.copy = some c := by
  obtain ⟨row', hrow', rfl⟩ := Option.map_eq_some_iff.mp hc
  obtain ⟨row, hrow, heq⟩ := h id row' hrow'
  rw [hrow, Option.map_some, copy_of_versioned heq]

end Stoop.Channel
