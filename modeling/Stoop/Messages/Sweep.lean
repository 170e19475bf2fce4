import Stoop.Messages.World

/-!
# The retention sweep

`SweepMessages` beside the calls on every channel: it lists a batch of expired roots over the whole
store in one statement, and then deletes them with their threads, channel by channel, each in a
transaction of its own that takes the channel's row first. Nothing holds the rows between the list and
the deletes, and the delete statement does not ask again whether a root is pinned.

`sweep_spares_pinned` is what follows when no transaction commits a pin of a root that a sweep has
listed and has not come to. `sweep_takes_a_late_pin` is the run where one does.
-/

set_option autoImplicit false

namespace Stoop.Messages

open Stoop.Lib

def retentionBatch : Nat := 1000

/-! ## The statements -/

/-- The roots `ListExpiredMessages` finds in a channel: older than the cutoff, and not pinned. -/
def Channel.expired (c : Channel) (cutoff : Nat) : List Nat :=
  (c.messages.values.filter fun row =>
    decide (row.id < cutoff) && row.threadRootId.isNone && row.pinnedBy.isNone).map (·.id)

/-- Whether a row goes with these roots: one of them, or a reply under one. -/
def MessageRow.goesWith (row : MessageRow) (ids : List Nat) : Bool :=
  ids.contains row.id || row.threadRootId.any ids.contains

/-- `DeleteExpiredMessages`, with what the references to a message do then: its thread's summary goes
too, and an answer to it quotes nothing. An id is a row's in one channel alone. -/
def Channel.deleteExpired (c : Channel) (ids : List Nat) : Channel :=
  let gone := fun id => (c.messages.get? id).any (·.goesWith ids)
  { c with
    messages := (c.messages.filter fun row => !row.goesWith ids).map
      (fun row => { row with replyToMessageId := row.replyToMessageId.filter fun id => !gone id })
      fun _ => rfl
    threads := c.threads.filter fun thread => !gone thread.rootMessageId }

/-- `sweepChannel`'s transaction, once it holds the channel's row. -/
def Channel.sweep (c : Channel) (ids : List Nat) : Channel := (c.deleteExpired ids).recomputeLastMessage

/-! ## The store -/

/-- A channel of the store, with the calls on it. -/
structure Served where
  id : Nat
  world : World

/-- A running `SweepMessages`: its cutoff, the listed roots it has not come to yet, by channel, and
whether it lists again after them. -/
structure Sweep where
  id : Nat
  cutoff : Nat
  pending : List (Nat × List Nat)
  more : Bool

/-- The channels, the sweeps that run, and the last channel id drawn. -/
structure Store where
  channels : Keyed Served.id
  sweeps : Keyed Sweep.id
  lastChannel : Nat

def newStore : Store := ⟨Keyed.empty, Keyed.empty, 0⟩

/-- `ListExpiredMessages`: roots and their channels, oldest first, a batch of them. -/
def Store.listExpired (s : Store) (cutoff : Nat) : List (Nat × Nat) :=
  ((s.channels.values.flatMap fun ch =>
    (ch.world.channel.expired cutoff).map fun id => (id, ch.id)).insertionSort
      fun x y => x.1 ≤ y.1).take retentionBatch

/-- The rows of a batch by channel, channels in id order. -/
def byChannel (rows : List (Nat × Nat)) : List (Nat × List Nat) :=
  ((rows.map (·.2)).dedup.insertionSort (· ≤ ·)).map fun channelId =>
    (channelId, (rows.filter fun row => row.2 == channelId).map (·.1))

inductive StoreStep
  | createChannel (channelId : Nat)
  | deleteChannel (channelId : Nat)
  | channel (channelId : Nat) (a : Step)
  | startSweep (id cutoff : Nat)
  | list (id : Nat)
  | sweepChannel (id : Nat)
  /-- it is over, or a statement of it failed -/
  | stop (id : Nat)
  deriving DecidableEq, Repr

/-- A channel's calls taken one step further. -/
def Served.step (ch : Served) (a : Step) : Option Served :=
  (ch.world.step a).map fun world => ⟨ch.id, world⟩

/-- A channel's rows swept: the sweep waits while another transaction holds the channel's row. -/
def Served.sweep (ch : Served) (ids : List Nat) : Option Served :=
  if ch.world.opened.isNone then
    some ⟨ch.id, { ch.world with channel := ch.world.channel.sweep ids }⟩
  else none

/-- A batch listed: a short one is the last. -/
def Sweep.listed (sweep : Sweep) (rows : List (Nat × Nat)) : Sweep :=
  { sweep with pending := byChannel rows, more := !decide (rows.length < retentionBatch) }

def Store.step (s : Store) : StoreStep → Option Store
  | .createChannel channelId =>
    if s.lastChannel < channelId then
      some { s with channels := s.channels.set ⟨channelId, newWorld⟩, lastChannel := channelId }
    else none
  | .deleteChannel channelId =>
    (s.channels.get? channelId).bind fun ch =>
      if ch.world.opened.isNone then
        some { s with channels := s.channels.filter fun ch => ch.id != channelId }
      else none
  | .channel channelId a =>
    (s.channels.get? channelId).bind fun ch =>
      (ch.step a).map fun ch => { s with channels := s.channels.set ch }
  | .startSweep id cutoff =>
    if s.sweeps.has id then none else some { s with sweeps := s.sweeps.set ⟨id, cutoff, [], true⟩ }
  | .list id =>
    (s.sweeps.get? id).bind fun sweep =>
      if sweep.pending.isEmpty && sweep.more then
        some { s with sweeps := s.sweeps.set (sweep.listed (s.listExpired sweep.cutoff)) }
      else none
  | .sweepChannel id =>
    (s.sweeps.get? id).bind fun sweep =>
      match sweep.pending with
      | [] => none
      | (channelId, ids) :: rest =>
        let sweeps := s.sweeps.set { sweep with pending := rest }
        match s.channels.get? channelId with
        -- a channel deleted meanwhile took its rows with it
        | none => some { s with sweeps := sweeps }
        | some ch => (ch.sweep ids).map fun ch => { s with channels := s.channels.set ch, sweeps := sweeps }
  | .stop id => some { s with sweeps := s.sweeps.filter fun sweep => sweep.id != id }

/-! ## What a sweep owes -/

/-- A pinned message of a channel, and the thread under it, are still there. -/
def Channel.Spared (c c' : Channel) : Prop :=
  ∀ id row, c.messages.get? id = some row → row.pinnedBy.isSome →
    c'.messages.has id = true ∧ ∀ replyId reply, c.messages.get? replyId = some reply →
      reply.threadRootId = some id → c'.messages.has replyId = true

/-- No channel lost a message pinned in what was committed, nor one of such a root's thread. -/
def Spares (s s' : Store) : Prop :=
  ∀ channelId ch, s.channels.get? channelId = some ch →
    ∃ ch', s'.channels.get? channelId = some ch' ∧ ch.world.channel.Spared ch'.world.channel

/-- Whether a root is listed by a sweep that has not come to it. -/
def Store.reaching (s : Store) (channelId id : Nat) : Bool :=
  s.sweeps.values.any fun sweep =>
    sweep.pending.any fun batch => batch.1 == channelId && batch.2.contains id

/-- Whether a commit leaves every root that a sweep is coming to unpinned. -/
def Store.leavesListedUnpinned (s : Store) : StoreStep → Bool
  | .channel channelId .commit => (s.channels.get? channelId).all fun ch => ch.world.opened.all fun c =>
      c.messages.values.all fun row => row.pinnedBy.isNone || !s.reaching channelId row.id
  | _ => true

/-- No transaction commits a pin of a root that a sweep is coming to. -/
def NoListedPin (s : Store) (a : StoreStep) : Prop := s.leavesListedUnpinned a = true

instance (s : Store) (a : StoreStep) : Decidable (NoListedPin s a) := inferInstanceAs (Decidable (_ = true))

/-! ## What a sweep does to a channel -/

section
variable {c c' : Channel} {ids : List Nat} {id : Nat} {row : MessageRow}

/-- What a sweep leaves: rows that do not go, in their places. -/
theorem get?_sweep (h : (c.sweep ids).messages.get? id = some row) :
    ∃ held, c.messages.get? id = some held ∧ row.seq = held.seq ∧
      row.threadRootId = held.threadRootId ∧ row.pinnedBy = held.pinnedBy := by
  rw [Channel.sweep, Channel.recomputeLastMessage, Channel.deleteExpired, Keyed.get?_map] at h
  obtain ⟨held, hheld, rfl⟩ := Option.map_eq_some_iff.mp h
  exact ⟨held, (Keyed.get?_filter_eq_some hheld).1, rfl, rfl, rfl⟩

/-- A row that does not go stays. -/
theorem has_sweep (h : c.messages.get? id = some row) (hstays : row.goesWith ids = false) :
    (c.sweep ids).messages.has id = true := by
  have hfiltered : (c.messages.filter fun row => !row.goesWith ids).get? id = some row := by
    rw [Keyed.get?_filter, h, Option.filter_some_pos (by simp [hstays])]
  rw [Channel.sweep, Channel.recomputeLastMessage, Channel.deleteExpired, Keyed.has, Keyed.get?_map,
    hfiltered]
  rfl

theorem goesWith_eq_false :
    row.goesWith ids = false ↔ row.id ∉ ids ∧ ∀ rootId, row.threadRootId = some rootId → rootId ∉ ids := by
  cases hroot : row.threadRootId <;> simp [MessageRow.goesWith, hroot]

theorem WellStamped.sweep (h : WellStamped c) : WellStamped (c.sweep ids) where
  low hget := by
    obtain ⟨held, hheld, hseq, -⟩ := get?_sweep hget
    exact hseq ▸ h.low hheld
  apart hget hget' heq := by
    obtain ⟨held, hheld, hseq, -⟩ := get?_sweep hget
    obtain ⟨held', hheld', hseq', -⟩ := get?_sweep hget'
    exact h.apart hheld hheld' (hseq.symm.trans (heq.trans hseq'))

/-- Only top-level messages are pinned. -/
def Channel.PinsTop (c : Channel) : Prop :=
  ∀ id row, c.messages.get? id = some row → row.pinnedBy.isSome → row.threadRootId = none

/-- A root listed and not come to: whatever row it still has is top-level and not pinned. -/
def Channel.ListedRoot (c : Channel) (id : Nat) : Prop :=
  ∀ row, c.messages.get? id = some row → row.threadRootId = none ∧ row.pinnedBy = none

theorem Channel.PinsTop.sweep (h : c.PinsTop) : (c.sweep ids).PinsTop := by
  intro id row hget hpinned
  obtain ⟨held, hheld, -, hplace, hpin⟩ := get?_sweep hget
  exact hplace.trans (h id held hheld (hpin ▸ hpinned))

theorem Channel.ListedRoot.sweep (h : c.ListedRoot id) : (c.sweep ids).ListedRoot id := by
  intro row hget
  obtain ⟨held, hheld, -, hplace, hpin⟩ := get?_sweep hget
  exact ⟨hplace.trans (h held hheld).1, hpin.trans (h held hheld).2⟩

/-- **A sweep of roots that are not pinned spares what is.** -/
theorem Channel.Spared.sweep (htop : c.PinsTop) (hlisted : ∀ id ∈ ids, c.ListedRoot id) :
    c.Spared (c.sweep ids) := by
  intro id row hget hpinned
  have hnot : id ∉ ids := fun hid => by
    rw [(hlisted id hid row hget).2] at hpinned
    cases hpinned
  obtain rfl : row.id = id := Keyed.key_of_get? hget
  refine ⟨has_sweep hget (goesWith_eq_false.mpr ⟨hnot, fun rootId hroot => ?_⟩),
    fun replyId reply hreply hroot => has_sweep hreply
      (goesWith_eq_false.mpr ⟨fun hid => ?_, fun rootId hr => ?_⟩)⟩
  · rw [htop row.id row hget hpinned] at hroot
    cases hroot
  · -- a reply is no root, so it was not listed itself
    obtain rfl : reply.id = replyId := Keyed.key_of_get? hreply
    rw [(hlisted reply.id hid reply hreply).1] at hroot
    cases hroot
  · obtain rfl : row.id = rootId := Option.some.inj (hroot.symm.trans hr)
    exact hnot

theorem Channel.Spared.refl (c : Channel) : c.Spared c :=
  fun _ _ hget _ => ⟨Keyed.has_eq_true.mpr ⟨_, hget⟩,
    fun _ _ hreply _ => Keyed.has_eq_true.mpr ⟨_, hreply⟩⟩

end

/-! ## A channel's calls between the list and the sweep -/

section
variable {w w' : World} {a : Step} {ids : List Nat} {id cutoff : Nat}

/-- Only top-level messages are pinned, in what a transaction would commit too. -/
def World.PinsTop (w : World) : Prop := w.channel.PinsTop ∧ ∀ c ∈ w.opened, c.PinsTop

/-- A root that a sweep has listed, while the channel's calls go on. -/
structure World.Awaits (w : World) (id : Nat) : Prop where
  drawn : id ≤ w.drawn
  listed : w.channel.ListedRoot id
  top : ∀ c ∈ w.opened, ∀ row, c.messages.get? id = some row → row.threadRootId = none

theorem Write.eq_pin {write : Write} (h : write.pins = some id) :
    ∃ msg userId, write = .pin msg userId ∧ msg.id = id := by
  cases write with
  | pin msg userId => exact ⟨msg, userId, rfl, Option.some.inj h⟩
  | _ => cases h

/-- A transaction that begins pins nothing but a top-level message: its handler saw it so, and a
message keeps its place. -/
theorem World.Sound.pinsTop_wrote {write : Write} {c : Channel} (h : w.Sound) (htop : w.channel.PinsTop)
    (hready : w.ready write = true) (hwrote : Wrote write w.channel c) : c.PinsTop := by
  intro id row hget hpinned
  obtain ⟨hplace, hpin⟩ := hwrote.held hget
  rcases hpin hpinned with hpins | ⟨held, hheld, hp⟩
  · obtain ⟨msg, userId, rfl, rfl⟩ := Write.eq_pin hpins
    obtain ⟨-, hadmitted, hreads, -⟩ := World.ready_spec hready
    rcases hplace with ⟨found, hfound, hstood⟩ | ⟨-, hnew⟩
    · have hstands : Stands w.channel msg := (h.read msg (hreads msg rfl)).2.1
      simp only [Write.admitted, Bool.and_eq_true, Option.isNone_iff_eq_none] at hadmitted
      exact hstood.trans ((hstands found hfound).trans hadmitted.1)
    · cases hnew
  · rcases hplace with ⟨found, hfound, hstood⟩ | ⟨hnone, -⟩
    · obtain rfl : held = found := Option.some.inj (hheld.symm.trans hfound)
      exact hstood.trans (htop id held hheld hp)
    · exact absurd (hnone.symm.trans hheld) nofun

theorem World.PinsTop.step (h : w.PinsTop) (hsound : w.Sound) (hstep : w.step a = some w') : w'.PinsTop := by
  rcases World.step_cases hstep with ⟨_, _, -, -, rfl⟩ | ⟨write, -, hready, rfl⟩ |
    ⟨c, -, hopened, rfl⟩ | ⟨-, rfl⟩
  · exact h
  · refine ⟨h.1, fun c hc => hsound.pinsTop_wrote h.1 hready ?_⟩
    exact write.wrote hsound.stamped (hsound.fresh hready) (Write.run_of_toOption hc)
  · exact ⟨h.2 c hopened, nofun⟩
  · exact ⟨h.1, nofun⟩

/-- **A call leaves a listed root as the sweep listed it**, unless it commits its pin. -/
theorem World.Awaits.step (h : w.Awaits id) (hsound : w.Sound) (hstep : w.step a = some w')
    (hpin : a = .commit → ∀ c ∈ w.opened, ∀ row, c.messages.get? id = some row → row.pinnedBy = none) :
    w'.Awaits id := by
  rcases World.step_cases hstep with ⟨_, _, -, -, rfl⟩ | ⟨write, -, hready, rfl⟩ |
    ⟨c, rfl, hopened, rfl⟩ | ⟨-, rfl⟩
  · exact ⟨h.drawn, h.listed, h.top⟩
  · refine ⟨h.drawn.trans (World.drawn_le_draws hready), h.listed, fun c hc row hrow => ?_⟩
    have hwrote : Wrote write w.channel c :=
      write.wrote hsound.stamped (hsound.fresh hready) (Write.run_of_toOption hc)
    rcases (hwrote.held hrow).1 with ⟨found, hfound, hstood⟩ | ⟨-, hnew⟩
    · exact hstood.trans (h.listed found hfound).1
    · -- an id drawn now sorts after every id listed
      exact absurd h.drawn (Nat.not_le.mpr ((World.ready_spec hready).2.2.2 id hnew))
  · exact ⟨h.drawn, fun row hrow => ⟨h.top c hopened row hrow, hpin rfl c hopened row hrow⟩, nofun⟩
  · exact ⟨h.drawn, h.listed, nofun⟩

/-- What the list finds is there to be swept. -/
theorem World.Sound.awaits (h : w.Sound) (hid : id ∈ w.channel.expired cutoff) : w.Awaits id := by
  obtain ⟨row, hrow, rfl⟩ := List.mem_map.mp hid
  obtain ⟨hmem, hexpired⟩ := List.mem_filter.mp hrow
  simp only [Bool.and_eq_true, Option.isNone_iff_eq_none] at hexpired
  have hget : w.channel.messages.get? row.id = some row := Keyed.mem_values.mp hmem
  refine ⟨h.drawn hget, fun found hfound => ?_, fun c hc found hfound => ?_⟩
  · obtain rfl : row = found := Option.some.inj (hget.symm.trans hfound)
    exact ⟨hexpired.1.2, hexpired.2⟩
  · obtain ⟨⟨write, hwrote⟩, -⟩ := h.opened c hc
    rcases (hwrote.held hfound).1 with ⟨held, hheld, hstood⟩ | ⟨hnone, -⟩
    · obtain rfl : row = held := Option.some.inj (hget.symm.trans hheld)
      exact hstood.trans hexpired.1.2
    · exact absurd (hnone.symm.trans hget) nofun

/-- A channel whose row is free, swept. -/
theorem World.Sound.sweep (h : w.Sound) (hidle : w.opened = none) :
    ({ w with channel := w.channel.sweep ids } : World).Sound where
  stamped := h.stamped.sweep
  drawn hget := by
    obtain ⟨held, hheld, -⟩ := get?_sweep hget
    exact h.drawn hheld
  read msg hmsg := by
    obtain ⟨hlow, hstands, -⟩ := h.read msg hmsg
    refine ⟨hlow, fun row hrow => ?_, fun c hc => absurd (hidle.symm.trans hc) nofun⟩
    obtain ⟨held, hheld, -, hplace, -⟩ := get?_sweep hrow
    exact hplace.trans (hstands held hheld)
  opened c hc := absurd (hidle.symm.trans hc) nofun

end

/-! ## The store through a run -/

/-- What holds between the steps: every channel is sound, and a root that a sweep is coming to awaits
it, if its channel is still there. -/
structure Store.Sound (s : Store) : Prop where
  channels : ∀ {channelId ch}, s.channels.get? channelId = some ch →
    channelId ≤ s.lastChannel ∧ ch.world.Sound ∧ ch.world.PinsTop
  reaching : ∀ {channelId id}, s.reaching channelId id = true → channelId ≤ s.lastChannel ∧
    ∀ ch, s.channels.get? channelId = some ch → ch.world.Awaits id

section
variable {s s' : Store} {a : StoreStep} {channelId id cutoff : Nat}

theorem reaching_eq_true : s.reaching channelId id = true ↔
    ∃ sweepId sweep, s.sweeps.get? sweepId = some sweep ∧
      ∃ batch ∈ sweep.pending, batch.1 = channelId ∧ id ∈ batch.2 := by
  simp only [Store.reaching, List.any_eq_true, Bool.and_eq_true, beq_iff_eq, List.contains_eq_mem,
    decide_eq_true_eq]
  constructor
  · rintro ⟨sweep, hsweep, hbatch⟩
    exact ⟨sweep.id, sweep, Keyed.mem_values.mp hsweep, hbatch⟩
  · rintro ⟨sweepId, sweep, hsweep, hbatch⟩
    obtain rfl : sweep.id = sweepId := Keyed.key_of_get? hsweep
    exact ⟨sweep, Keyed.mem_values.mpr hsweep, hbatch⟩

/-- What is being come to after one sweep moved on. -/
theorem reaching_set {sweep : Sweep} {channels : Keyed Served.id} {lastChannel : Nat}
    (h : (⟨channels, s.sweeps.set sweep, lastChannel⟩ : Store).reaching channelId id = true) :
    s.reaching channelId id = true ∨ ∃ batch ∈ sweep.pending, batch.1 = channelId ∧ id ∈ batch.2 := by
  obtain ⟨sweepId, found, hfound, hbatch⟩ := reaching_eq_true.mp h
  rcases Keyed.get?_set_cases hfound with ⟨-, rfl⟩ | ⟨-, hheld⟩
  · exact .inr hbatch
  · exact .inl (reaching_eq_true.mpr ⟨sweepId, found, hheld, hbatch⟩)

theorem mem_byChannel {rows : List (Nat × Nat)} {batch : Nat × List Nat} (hbatch : batch ∈ byChannel rows)
    (hid : id ∈ batch.2) : (id, batch.1) ∈ rows := by
  obtain ⟨channelId, -, rfl⟩ := List.mem_map.mp hbatch
  obtain ⟨row, hrow, rfl⟩ := List.mem_map.mp hid
  obtain ⟨hmem, hchannel⟩ := List.mem_filter.mp hrow
  obtain rfl : row.2 = channelId := eq_of_beq hchannel
  exact hmem

theorem mem_listExpired (h : (id, channelId) ∈ s.listExpired cutoff) :
    ∃ ch, s.channels.get? channelId = some ch ∧ id ∈ ch.world.channel.expired cutoff := by
  have hmem := (List.mem_insertionSort _).mp (List.mem_of_mem_take h)
  obtain ⟨ch, hch, hrow⟩ := List.mem_flatMap.mp hmem
  obtain ⟨_, hid, heq⟩ := List.mem_map.mp hrow
  cases heq
  exact ⟨ch, Keyed.mem_values.mp hch, hid⟩

/-- A channel of a sound store moved on, where the roots a sweep is coming to still await it. -/
theorem Store.Sound.setChannel {ch ch' : Served} (h : s.Sound) (hget : s.channels.get? ch.id = some ch)
    (hid : ch'.id = ch.id) (hsound : ch'.world.Sound) (hpins : ch'.world.PinsTop)
    (hawaits : ∀ {id}, s.reaching ch.id id = true → ch.world.Awaits id → ch'.world.Awaits id) :
    ({ s with channels := s.channels.set ch' } : Store).Sound where
  channels hfound := by
    rcases Keyed.get?_set_cases hfound with ⟨rfl, rfl⟩ | ⟨-, hheld⟩
    · exact ⟨hid ▸ (h.channels hget).1, hsound, hpins⟩
    · exact h.channels hheld
  reaching hreaching := by
    refine ⟨(h.reaching hreaching).1, fun found hfound => ?_⟩
    rcases Keyed.get?_set_cases hfound with ⟨rfl, rfl⟩ | ⟨-, hheld⟩
    · rw [hid] at hreaching
      exact hawaits hreaching ((h.reaching hreaching).2 ch hget)
    · exact (h.reaching hreaching).2 found hheld

/-- A sweep of a sound store moved on, where every root it is coming to awaits it. -/
theorem Store.Sound.setSweep {sweep : Sweep} (h : s.Sound)
    (hawaits : ∀ batch ∈ sweep.pending, ∀ id ∈ batch.2, s.reaching batch.1 id = true ∨
      ∃ ch, s.channels.get? batch.1 = some ch ∧ ch.world.Awaits id) :
    ({ s with sweeps := s.sweeps.set sweep } : Store).Sound where
  channels := h.channels
  reaching hreaching := by
    rcases reaching_set hreaching with hheld | ⟨batch, hbatch, rfl, hid⟩
    · exact h.reaching hheld
    · rcases hawaits batch hbatch _ hid with hheld | ⟨ch, hget, hroot⟩
      · exact h.reaching hheld
      · refine ⟨(h.channels hget).1, fun found hfound => ?_⟩
        obtain rfl : ch = found := Option.some.inj (hget.symm.trans hfound)
        exact hroot

theorem Served.sweep_eq_some {ch ch' : Served} {ids : List Nat} (h : ch.sweep ids = some ch') :
    ch.world.opened = none ∧ ch' = ⟨ch.id, { ch.world with channel := ch.world.channel.sweep ids }⟩ := by
  unfold Served.sweep at h
  split at h
  next hidle => exact ⟨Option.isNone_iff_eq_none.mp hidle, (Option.some.inj h).symm⟩
  next => cases h

/-- What a sweep of a channel does to the store. -/
theorem sweepChannel_cases {sweepId : Nat} (h : s.step (.sweepChannel sweepId) = some s') :
    ∃ sweep ids rest channelId, s.sweeps.get? sweepId = some sweep ∧
      sweep.pending = (channelId, ids) :: rest ∧
      ((s.channels.get? channelId = none ∧
          s' = { s with sweeps := s.sweeps.set { sweep with pending := rest } }) ∨
        ∃ ch ch', s.channels.get? channelId = some ch ∧ ch.sweep ids = some ch' ∧
          s' = { s with
            channels := s.channels.set ch', sweeps := s.sweeps.set { sweep with pending := rest } }) := by
  obtain ⟨sweep, hsweep, hdone⟩ := Option.bind_eq_some_iff.mp h
  split at hdone
  · cases hdone
  next channelId ids rest hpending =>
    refine ⟨sweep, ids, rest, channelId, hsweep, hpending, ?_⟩
    split at hdone
    next hnone => exact .inl ⟨hnone, (Option.some.inj hdone).symm⟩
    next ch hget =>
      obtain ⟨ch', hswept, rfl⟩ := Option.map_eq_some_iff.mp hdone
      exact .inr ⟨ch, ch', hget, hswept, rfl⟩

/-- A commit that leaves what is listed unpinned. -/
theorem unpinned_of_noListedPin {ch : Served} {c : Channel} {row : MessageRow}
    (h : NoListedPin s (.channel channelId .commit)) (hget : s.channels.get? channelId = some ch)
    (hopened : ch.world.opened = some c) (hrow : c.messages.get? id = some row)
    (hreaching : s.reaching channelId id = true) : row.pinnedBy = none := by
  obtain rfl : row.id = id := Keyed.key_of_get? hrow
  simp only [NoListedPin, Store.leavesListedUnpinned, hget, hopened, Option.all_some,
    List.all_eq_true, Bool.or_eq_true, Option.isNone_iff_eq_none] at h
  rcases h row (Keyed.mem_values.mpr hrow) with hnone | hnot
  · exact hnone
  · simp [hreaching] at hnot

/-- **What begins sound stays sound**, while no pin of a listed root commits. -/
theorem Store.Sound.step (h : s.Sound) (hok : NoListedPin s a) (hstep : s.step a = some s') : s'.Sound := by
  cases a with
  | createChannel channelId =>
    simp only [Store.step] at hstep
    split at hstep
    next hnew =>
      cases hstep
      refine ⟨fun hfound => ?_, fun hreaching => ?_⟩
      · rcases Keyed.get?_set_cases hfound with ⟨rfl, rfl⟩ | ⟨-, hheld⟩
        · exact ⟨Nat.le_refl _, sound_newWorld, by rintro _ _ ⟨⟩, by rintro _ ⟨⟩⟩
        · obtain ⟨hlow, hrest⟩ := h.channels hheld
          exact ⟨hlow.trans (Nat.le_of_lt hnew), hrest⟩
      · obtain ⟨hlow, hawaits⟩ := h.reaching hreaching
        refine ⟨hlow.trans (Nat.le_of_lt hnew), fun found hfound => ?_⟩
        rcases Keyed.get?_set_cases hfound with ⟨rfl, -⟩ | ⟨-, hheld⟩
        · exact absurd hlow (Nat.not_le.mpr hnew)
        · exact hawaits found hheld
    next => cases hstep
  | deleteChannel channelId =>
    obtain ⟨ch, -, hdone⟩ := Option.bind_eq_some_iff.mp hstep
    split at hdone
    next =>
      cases hdone
      refine ⟨fun hfound => h.channels (Keyed.get?_filter_eq_some hfound).1, fun hreaching => ?_⟩
      obtain ⟨hlow, hawaits⟩ := h.reaching hreaching
      exact ⟨hlow, fun found hfound => hawaits found (Keyed.get?_filter_eq_some hfound).1⟩
    next => cases hdone
  | channel channelId a =>
    obtain ⟨ch, hget, hdone⟩ := Option.bind_eq_some_iff.mp hstep
    obtain ⟨ch', hch, rfl⟩ := Option.map_eq_some_iff.mp hdone
    obtain ⟨world, hworld, rfl⟩ := Option.map_eq_some_iff.mp hch
    obtain rfl : ch.id = channelId := Keyed.key_of_get? hget
    obtain ⟨-, hsound, hpins⟩ := h.channels hget
    refine h.setChannel hget rfl (hsound.step hworld) (hpins.step hsound hworld) fun hreaching hroot => ?_
    refine hroot.step hsound hworld ?_
    rintro rfl c hc row hrow
    exact unpinned_of_noListedPin hok hget hc hrow hreaching
  | startSweep sweepId cutoff =>
    simp only [Store.step] at hstep
    split at hstep
    next => cases hstep
    next =>
      cases hstep
      exact h.setSweep (by rintro _ ⟨⟩)
  | list sweepId =>
    obtain ⟨sweep, -, hdone⟩ := Option.bind_eq_some_iff.mp hstep
    split at hdone
    next =>
      cases hdone
      refine h.setSweep fun batch hbatch id hid => .inr ?_
      obtain ⟨ch, hget, hexpired⟩ := mem_listExpired (mem_byChannel hbatch hid)
      exact ⟨ch, hget, (h.channels hget).2.1.awaits hexpired⟩
    next => cases hdone
  | sweepChannel sweepId =>
    obtain ⟨sweep, ids, rest, channelId, hsweep, hpending, hdone⟩ := sweepChannel_cases hstep
    -- what is left of the sweep was listed before
    have hmoved : ({ s with sweeps := s.sweeps.set { sweep with pending := rest } } : Store).Sound := by
      refine h.setSweep fun batch hbatch id hid => .inl (reaching_eq_true.mpr ?_)
      exact ⟨sweepId, sweep, hsweep, batch, hpending ▸ List.mem_cons_of_mem _ hbatch, rfl, hid⟩
    rcases hdone with ⟨-, rfl⟩ | ⟨ch, ch', hget, hswept, rfl⟩
    · exact hmoved
    · obtain ⟨hidle, rfl⟩ := Served.sweep_eq_some hswept
      obtain rfl : ch.id = channelId := Keyed.key_of_get? hget
      obtain ⟨-, hsound, hpins⟩ := h.channels hget
      have hnone : ∀ c : Channel, c ∉ ch.world.opened := fun c hc => absurd (hidle.symm.trans hc) (by rintro ⟨⟩)
      refine hmoved.setChannel hget rfl (hsound.sweep hidle)
        ⟨hpins.1.sweep, fun c hc => absurd hc (hnone c)⟩ fun _ hroot => ?_
      exact ⟨hroot.drawn, hroot.listed.sweep, fun c hc => absurd hc (hnone c)⟩
  | stop sweepId =>
    cases hstep
    refine ⟨h.channels, fun hreaching => ?_⟩
    obtain ⟨_, found, hfound, hbatch⟩ := reaching_eq_true.mp hreaching
    exact h.reaching (reaching_eq_true.mpr ⟨_, found, (Keyed.get?_filter_eq_some hfound).1, hbatch⟩)

theorem sound_newStore : newStore.Sound :=
  ⟨nofun, fun hreaching => absurd hreaching (by simp [Store.reaching, newStore, Keyed.values, Keyed.empty])⟩

theorem Store.sound (h : Runs Store.step NoListedPin newStore s) : s.Sound :=
  h.keeps sound_newStore fun _ _ _ hsound hok hstep => hsound.step hok hstep

/-- **The sweep spares what is pinned**, in every run in which no transaction commits a pin of a root
that a sweep has listed and not come to. -/
theorem sweep_spares_pinned {sweepId : Nat} (h : Runs Store.step NoListedPin newStore s)
    (hsweep : s.step (.sweepChannel sweepId) = some s') : Spares s s' := by
  have hsound := Store.sound h
  obtain ⟨sweep, ids, rest, channelId, hget, hpending, hdone⟩ := sweepChannel_cases hsweep
  intro other found hfound
  rcases hdone with ⟨-, rfl⟩ | ⟨ch, ch', hch, hswept, rfl⟩
  · exact ⟨found, hfound, .refl _⟩
  · obtain ⟨-, rfl⟩ := Served.sweep_eq_some hswept
    obtain rfl : ch.id = channelId := Keyed.key_of_get? hch
    by_cases hother : ch.id = other
    · obtain rfl : ch = found := by rw [← hother, hch, Option.some.injEq] at hfound; exact hfound
      refine ⟨_, (Keyed.get?_set ..).trans (if_pos hother), ?_⟩
      refine .sweep (hsound.channels hch).2.2.1 fun id hid => ?_
      have hreaching : s.reaching ch.id id = true := reaching_eq_true.mpr
        ⟨sweepId, sweep, hget, (ch.id, ids), hpending ▸ List.mem_cons_self, rfl, hid⟩
      exact ((hsound.reaching hreaching).2 ch hch).listed
    · exact ⟨found, (Keyed.get?_set ..).trans ((if_neg hother).trans hfound), .refl _⟩

end

/-- A root with a reply, sent and answered in a channel of the store. -/
def answeredRoot : List StoreStep :=
  let root : MessageRow := { id := 1, authorId := 7, content := "", createdAt := 1, seq := 1 }
  [.createChannel 1, .channel 1 (.begin (.send { id := 1, authorId := 7, content := "", createdAt := 1 })),
    .channel 1 .commit, .channel 1 (.read 1),
    .channel 1 (.begin (.send
      { id := 2, authorId := 8, content := "", createdAt := 2, threadRoot := some root })),
    .channel 1 .commit]

/-- The root read as it stands then, pinned. -/
def pinRoot : List StoreStep :=
  let root : MessageRow := { id := 1, authorId := 7, content := "", createdAt := 1, seq := 3 }
  [.channel 1 (.read 1), .channel 1 (.begin (.pin root 9)), .channel 1 .commit]

/-- Whether a message of the first channel is pinned, and whether it is there. -/
def Store.shown (s : Store) (id : Nat) : Bool × Bool :=
  let row := (s.channels.get? 1).bind fun ch => ch.world.channel.messages.get? id
  ((row.bind (·.pinnedBy)).isSome, row.isSome)

/-- The root is pinned before the sweep lists it: it stays with its reply, and a later root goes. -/
theorem sweep_spares_pinned_root :
    let steps := answeredRoot ++ pinRoot ++
      [.channel 1 (.begin (.send { id := 3, authorId := 7, content := "", createdAt := 3 })),
        .channel 1 .commit, .startSweep 1 10, .list 1]
    ∃ s s', runList Store.step newStore steps = some s ∧ s.step (.sweepChannel 1) = some s' ∧
      s'.shown 3 = (false, false) ∧ Spares s s' := by
  intro steps
  have hrun : ((runList Store.step newStore steps).bind fun s => (s.step (.sweepChannel 1)).map
      fun s' => s'.shown 3) = some (false, false) := by decide +kernel
  obtain ⟨s, hs, hstep⟩ := Option.bind_eq_some_iff.mp hrun
  obtain ⟨s', hs', hshown⟩ := Option.map_eq_some_iff.mp hstep
  have hok : EachStep Store.step NoListedPin newStore steps := by decide +kernel
  exact ⟨s, s', hs, hs', hshown, sweep_spares_pinned (.ofList steps hok hs) hs'⟩

/-- **A pin that commits between the list and the delete is swept**, with the thread. -/
theorem sweep_takes_a_late_pin :
    ¬ ∀ s s' sweepId, Runs Store.step Always newStore s → s.step (.sweepChannel sweepId) = some s' →
      Spares s s' := by
  intro claim
  have hrun : ((runList Store.step newStore (answeredRoot ++ [.startSweep 1 10, .list 1] ++ pinRoot)).bind
      fun s => (s.step (.sweepChannel 1)).map fun s' => (s.shown 1, s'.shown 1)) =
        some ((true, true), (false, false)) := by decide +kernel
  obtain ⟨s, hs, hstep⟩ := Option.bind_eq_some_iff.mp hrun
  obtain ⟨s', hs', hshown⟩ := Option.map_eq_some_iff.mp hstep
  obtain ⟨hbefore, hafter⟩ := Prod.ext_iff.mp hshown
  have spared := claim s s' 1 (.ofList _ (.always _ _) hs) hs'
  simp only [Store.shown, Prod.ext_iff] at hbefore hafter
  obtain ⟨row, hrow⟩ := Option.isSome_iff_exists.mp hbefore.2
  obtain ⟨ch, hch, hget⟩ := Option.bind_eq_some_iff.mp hrow
  obtain ⟨ch', hch', hspared⟩ := spared 1 ch hch
  rw [hrow] at hbefore
  obtain ⟨hstays, -⟩ := hspared 1 row hget hbefore.1
  rw [hch'] at hafter
  exact absurd (hstays.symm.trans hafter.2) (by decide)

end Stoop.Messages
