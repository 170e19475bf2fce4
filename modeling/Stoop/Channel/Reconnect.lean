import Stoop.Channel.Convergence

/-!
# A reconnect owes a catch-up until the position is past what was missed

Ready marks the log as owing a catch-up, whatever it missed. What clears the mark is the next answer
that sets the position, whichever it is: a first page, or the last page of a catch-up. Read before
the drop, it says nothing of what was missed after it, and clears the mark all the same, as no event
was seen above it (`early_page_forgets`). A run none of whose settling answers leaves a missed write
above the position it sets (`Abreast`) loses nothing (`reconnect_loses_nothing`); and a step without
it loses a write there and then (`unabreast_forgets`).
-/

set_option autoImplicit false

namespace Stoop.Channel

open Stoop.Lib

/-! ## The position under each rule -/

/-- A rule that sets no position leaves it, and what is owed. -/
structure Unmoved (log log' : ChannelLog) : Prop where
  seq : log'.seq = log.seq
  seenSeq : log'.seenSeq = log.seenSeq
  needsCatchUp : log'.needsCatchUp = log.needsCatchUp

theorem Unmoved.refl (log : ChannelLog) : Unmoved log log := ⟨rfl, rfl, rfl⟩

theorem Unmoved.trans {a b c : ChannelLog} (h : Unmoved a b) (h' : Unmoved b c) : Unmoved a c :=
  ⟨h'.seq.trans h.seq, h'.seenSeq.trans h.seenSeq, h'.needsCatchUp.trans h.needsCatchUp⟩

theorem Reshapes.unmoved {log log' : ChannelLog} (h : Reshapes log log') : Unmoved log log' :=
  ⟨h.seq, h.seenSeq, h.needsCatchUp⟩

theorem Floors.unmoved {log log' : ChannelLog} (h : Floors log log') : Unmoved log log' :=
  ⟨h.seq, h.seenSeq, h.needsCatchUp⟩

theorem unmoved_withView (log : ChannelLog) (rootId : Option Nat) (view : View) :
    Unmoved log (withView log rootId view) := by
  cases rootId <;> exact ⟨rfl, rfl, rfl⟩

theorem unmoved_withArrivals (log : ChannelLog) (incoming : List Message) (source : Source) :
    Unmoved log (withArrivals log incoming source) :=
  have h := reshapes_withArrivals log incoming source
  ⟨h.seq, h.seenSeq, h.needsCatchUp⟩

theorem unmoved_refreshed (log : ChannelLog) (res : ListMessagesResponse) :
    Unmoved log (refreshed log res) :=
  (unmoved_withArrivals _ _ _).trans (floors_withFloor _ _).unmoved

theorem unmoved_paged (log : ChannelLog) (direction : Direction) (answer : PageAnswer) :
    Unmoved log (paged log direction answer) := by
  unfold paged
  split
  next => exact .refl _
  next =>
    split
    next => exact .refl _
    next =>
      have hmerged : Unmoved log
          { log with rows := mergeRows log.rows answer.res.messages fromPage } := ⟨rfl, rfl, rfl⟩
      exact ((hmerged.trans (unmoved_withView _ _ _)).trans (floors_withFloor _ _).unmoved).trans
        ((reshapes_stretched _ _).trans (reshapes_pruned _ _ _)).unmoved

theorem unmoved_closedThread (log : ChannelLog) (rootId : Nat) :
    Unmoved log (closedThread log rootId) := by
  unfold closedThread
  split
  · exact ⟨rfl, rfl, rfl⟩
  · exact .refl _

/-- A page that opens a view moves the position if it is the first. -/
theorem unmoved_opened {log : ChannelLog} {answer : PageAnswer}
    (hgen : ((viewOf log answer.rootId).getD emptyView).generation = answer.generation) :
    Unmoved (if hasPage log then log else positioned log answer.res.channelSeq)
      (opened log answer) := by
  simp only [opened, hgen, bne_self_eq_false, Bool.false_eq_true, if_false]
  refine .trans ?_ ((floors_withFloor _ _).unmoved.trans (reshapes_stretched _ _).unmoved)
  refine .trans ?_ (unmoved_withView _ _ _)
  split <;> exact ⟨rfl, rfl, rfl⟩

/-- **An answer moves the position if it stands and is the first page.** -/
theorem unmoved_settle (ask : Ask) (log : ChannelLog) (res : ListMessagesResponse) :
    Unmoved
      (if ask.stands log && ask.isFirst log then positioned log res.channelSeq else log)
      (ask.settle log res) := by
  cases hstands : ask.stands log with
  | false =>
    rw [settle_stale hstands]
    exact .refl _
  | true =>
    have hopened : ∀ answer : PageAnswer, answer.rootId = ask.rootId →
        answer.generation = ask.generation → answer.res.channelSeq = res.channelSeq →
        ((viewOf log ask.rootId).getD emptyView).generation = ask.generation →
        Unmoved (if !hasPage log then positioned log res.channelSeq else log)
          (opened log answer) := by
      intro answer hroot hgen hseq hstands
      have h := @unmoved_opened log answer (by rw [hroot, hgen, hstands])
      rw [hseq] at h
      cases hpage : hasPage log <;> simpa [hpage] using h
    unfold Ask.stands at hstands
    unfold Ask.settle Ask.isFirst
    rw [Bool.true_and]
    cases huse : ask.use with
    | opened =>
      rw [huse] at hstands
      rw [Bool.and_true]
      exact hopened _ rfl rfl rfl (eq_of_beq hstands)
    | jumped atRoot =>
      rw [huse] at hstands
      rw [Bool.and_true]
      cases atRoot <;> exact hopened _ rfl rfl rfl (eq_of_beq hstands)
    | paged direction =>
      rw [Bool.and_false, if_neg Bool.false_ne_true]
      exact unmoved_paged _ _ _
    | refreshed =>
      rw [Bool.and_false, if_neg Bool.false_ne_true]
      exact unmoved_refreshed _ _

/-- **A page of changes moves the position if it is the last.** -/
theorem unmoved_caughtUp (log : ChannelLog) (res : ListChangesResponse) :
    Unmoved (if res.hasMore then log else positioned log (max log.seq res.top))
      (caughtUp log res) := by
  have h := (unmoved_withArrivals log res.messages fromPage).trans
    (floors_withFloor _ res.retentionFloorId).unmoved
  simp only [caughtUp]
  split
  · exact h
  · simp only [positioned, h.seq, h.seenSeq]
    exact ⟨rfl, rfl, rfl⟩

/-- What applying an event changes of the position is nothing yet. -/
theorem unmoved_apply (event : ServerEvent) (log : ChannelLog) :
    Unmoved log ((changeOf event).apply log) := by
  rcases changeOf_apply event log with h | ⟨row, h⟩
  · rw [h]
    exact .refl _
  · rw [h]
    exact unmoved_withArrivals _ _ _

/-- **An event never takes the position back, and never settles what is owed.** -/
theorem withEvent_advances (log : ChannelLog) (event : ServerEvent) :
    log.seq ≤ (withEvent log event).seq ∧
      (log.needsCatchUp = true → (withEvent log event).needsCatchUp = true) := by
  have h := unmoved_apply event log
  simp only [withEvent]
  split
  next => exact ⟨Nat.le_refl _, id⟩
  next =>
    split
    next => exact ⟨Nat.le_refl _, id⟩
    next =>
      split
      next => exact ⟨Nat.le_of_eq h.seq.symm, h.needsCatchUp.trans⟩
      next =>
        split
        next hcovered =>
          have hnext := eq_of_beq (Bool.and_eq_true_iff.mp hcovered).2
          exact ⟨by simp only [hnext]; exact Nat.le_succ _, h.needsCatchUp.trans⟩
        next => exact ⟨Nat.le_of_eq h.seq.symm, fun _ => rfl⟩

/-! ## What is asked of a run -/

/-- The position a step sets, if it sets one. -/
def World.sets (w : World) : Label → Option Nat
  | .answer i reading => do
    let ask ← w.asks[i]?
    let res ← listMessages w.server ask.rootId ask.paging ask.limit reading
    if ask.stands w.log && ask.isFirst w.log then some res.channelSeq else none
  | .changes i limit reading => do
    let pass ← w.passes[i]?
    let res := listChanges w.server pass.since limit reading
    if res.hasMore then none else some (max w.log.seq res.top)
  | _ => none

/-- With the socket up, an answer that sets the position and leaves nothing owed, as no event was
seen above it, leaves no missed write above it either. -/
def Abreast (w : World) (a : Label) : Prop :=
  w.socket = true → ∀ position ∈ w.sets a, w.log.seenSeq ≤ position →
    ∀ seq ∈ w.missed, seq ≤ position

instance (w : World) (a : Label) : Decidable (Abreast w a) :=
  inferInstanceAs (Decidable (_ → _))

/-! ## Every run -/

/-- What such runs keep: while the socket is up, a write that was missed is owed or passed. -/
def Remembers (w : World) : Prop :=
  w.socket = true → w.log.needsCatchUp = true ∨ ∀ seq ∈ w.missed, seq ≤ w.log.seq

/-- A log that moved on only remembers what it did. -/
theorem Remembers.of_advances {w w' : World} (h : Remembers w) (hsocket : w'.socket = w.socket)
    (hmissed : w'.missed = w.missed) (hseq : w.log.seq ≤ w'.log.seq)
    (howed : w.log.needsCatchUp = true → w'.log.needsCatchUp = true) : Remembers w' := by
  intro hup
  rw [hsocket] at hup
  refine (h hup).imp howed fun hpast seq hseq' => ?_
  rw [hmissed] at hseq'
  exact (hpast seq hseq').trans hseq

/-- A log whose position was set remembers what is abreast of it. -/
theorem Remembers.of_positioned {w w' : World} {position : Nat} (hsocket : w'.socket = w.socket)
    (hmissed : w'.missed = w.missed) (hlog : Unmoved (positioned w.log position) w'.log)
    (habreast : w.socket = true → w.log.seenSeq ≤ position → ∀ seq ∈ w.missed, seq ≤ position) :
    Remembers w' := by
  intro hup
  rw [hsocket] at hup
  rw [hlog.needsCatchUp, hlog.seq, hmissed]
  by_cases hseen : position < w.log.seenSeq
  · exact .inl (decide_eq_true hseen)
  · exact .inr (habreast hup (Nat.le_of_not_lt hseen))

/-- **One step.** -/
theorem Remembers.step {w w' : World} {a : Label} (inv : Remembers w) (hok : Abreast w a)
    (h : w.step a = some w') : Remembers w' := by
  cases stepped h with
  | commit =>
    intro hup
    have hup : w.socket = true := hup
    simp only [hup, if_true]
    exact inv hup
  | drop => exact fun hup => absurd hup Bool.false_ne_true
  | ready => exact fun _ => .inl rfl
  | lose _ hdown => exact fun hup => absurd (hdown.symm.trans hup) Bool.false_ne_true
  | deliver =>
    obtain ⟨hseq, howed⟩ := withEvent_advances w.log _
    exact inv.of_advances rfl rfl hseq howed
  | request | fail | giveUp | catchUp => exact inv.of_advances rfl rfl (Nat.le_refl _) id
  | @answer i reading ask res hask _ hres =>
    have hlog := unmoved_settle ask w.log res
    split at hlog
    next hfirst =>
      refine .of_positioned (w := w) rfl rfl hlog fun hup hseen => hok hup _ ?_ hseen
      simp only [World.sets, hask, hres, hfirst, if_true, Option.bind_eq_bind, Option.bind_some,
        Option.mem_def]
    next => exact inv.of_advances rfl rfl (Nat.le_of_eq hlog.seq.symm) hlog.needsCatchUp.trans
  | @changes i limit reading pass hpass _ res hres =>
    have hlog := unmoved_caughtUp w.log res
    split at hlog
    next => exact inv.of_advances rfl rfl (Nat.le_of_eq hlog.seq.symm) hlog.needsCatchUp.trans
    next hmore =>
      refine .of_positioned (w := w) rfl rfl hlog fun hup hseen => hok hup _ ?_ hseen
      simp only [World.sets, hpass, hres, hmore, if_false, Option.bind_eq_bind, Option.bind_some,
        Option.mem_def, Bool.false_eq_true]
  | @closeThread rootId =>
    have hlog := unmoved_closedThread w.log rootId
    exact inv.of_advances rfl rfl (Nat.le_of_eq hlog.seq.symm) hlog.needsCatchUp.trans

/-- **A reconnect loses nothing** on a run whose settling answers are abreast of what was missed: with
the socket up and nothing owed, every write the client missed is at or below the position. -/
theorem reconnect_loses_nothing {channelId : String} {w : World}
    (h : Runs World.step Abreast (World.empty channelId) w) (hup : w.socket = true)
    (howed : w.log.needsCatchUp = false) : ∀ seq ∈ w.missed, seq ≤ w.log.seq := by
  have inv : Remembers w :=
    h.keeps (fun _ => .inr fun _ hseq => absurd hseq List.not_mem_nil)
      fun _ _ _ inv hok hstep => inv.step hok hstep
  rcases inv hup with howed' | hpast
  · rw [howed] at howed'
    cases howed'
  · exact hpast

/-- **The condition is exact.** A step without it leaves a missed write above the position, and
nothing owed. -/
theorem unabreast_forgets {w w' : World} {a : Label} (hbad : ¬ Abreast w a)
    (h : w.step a = some w') :
    w'.socket = true ∧ w'.log.needsCatchUp = false ∧ ∃ seq ∈ w'.missed, w'.log.seq < seq := by
  simp only [Abreast, not_forall, Nat.not_le] at hbad
  obtain ⟨hup, position, hsets, hseen, seq, hseq, hlt⟩ := hbad
  have hset : ∀ {w' : World}, w'.socket = w.socket → w'.missed = w.missed →
      Unmoved (positioned w.log position) w'.log →
      w'.socket = true ∧ w'.log.needsCatchUp = false ∧ ∃ seq ∈ w'.missed, w'.log.seq < seq := by
    intro w' hsocket hmissed hlog
    refine ⟨hsocket.trans hup, hlog.needsCatchUp.trans (decide_eq_false (Nat.not_lt.mpr hseen)),
      seq, hmissed ▸ hseq, ?_⟩
    rw [hlog.seq]
    exact hlt
  cases stepped h with
  | @answer i reading ask res hask _ hres =>
    simp only [World.sets, hask, hres, Option.bind_eq_bind, Option.bind_some, Option.mem_def,
      Option.ite_none_right_eq_some, Option.some.injEq] at hsets
    obtain ⟨hfirst, rfl⟩ := hsets
    have hlog := unmoved_settle ask w.log res
    rw [if_pos hfirst] at hlog
    exact hset rfl rfl hlog
  | @changes i limit reading pass hpass _ res hres =>
    simp only [World.sets, hpass, hres, Option.bind_eq_bind, Option.bind_some, Option.mem_def,
      Option.ite_none_left_eq_some, Option.some.injEq] at hsets
    obtain ⟨hmore, rfl⟩ := hsets
    have hlog := unmoved_caughtUp w.log res
    rw [if_neg hmore] at hlog
    exact hset rfl rfl hlog
  | request hsends =>
    have hnone : w.sets a = none := by
      cases a <;> first | rfl | cases hsends
    rw [hnone] at hsets
    exact absurd hsets (Option.not_mem_none _)
  | _ => exact absurd hsets (Option.not_mem_none _)

/-! ## Two runs -/

/-- A message sent while the socket was down, and the catch-up that Ready starts. -/
def downAndBack : List Label :=
  [.commit (.whole (sent 1 "one")), .openView none, .answer 0 (readAt 1), .deliver 1 .none, .drop,
    .commit (.whole (sent 2 "two")), .ready, .catchUp, .changes 0 200 (readAt 2)]

def downAndBackWorld : World :=
  (runList World.step (World.empty "c1") downAndBack).getD (World.empty "c1")

/-- The catch-up brings the message, and the position is past it. -/
theorem down_and_back :
    downAndBackWorld.missed = [2] ∧ downAndBackWorld.log.rows.has 2 = true ∧
      ∀ seq ∈ downAndBackWorld.missed, seq ≤ downAndBackWorld.log.seq :=
  ⟨by decide, by decide, @reconnect_loses_nothing "c1" downAndBackWorld
    (Runs.ofList downAndBack (by decide) rfl) (by decide) (by decide)⟩

/-- The first page is read, the socket drops, a message is sent, the socket is back, and only then the
page answers. No page was held at Ready, so no catch-up was started. -/
def earlyPage : List Label :=
  [.commit (.whole (sent 1 "one")), .deliver 1 .none, .openView none, .drop,
    .commit (.whole (sent 2 "two")), .ready, .answer 0 (readAt 1)]

def earlyPageWorld : World :=
  (runList World.step (World.empty "c1") earlyPage).getD (World.empty "c1")

/-- **A page read before the drop clears what Ready owes.** The second message is above the position,
the log has held nothing as new, nothing is out, and nothing is owed. -/
theorem early_page_forgets :
    ¬ ∀ channelId w, Runs World.step Always (World.empty channelId) w → w.socket = true →
      hasPage w.log = true → w.log.needsCatchUp = false → w.passes = [] → w.asks = [] →
      w.flight = [] → ∀ seq ∈ w.missed, w.log.seq < seq → ∃ copy ∈ w.everHeld, seq ≤ copy.2 := by
  intro claim
  have hnever : ∀ copy ∈ earlyPageWorld.everHeld, ¬ 2 ≤ copy.2 := by decide
  obtain ⟨copy, hcopy, hle⟩ := claim "c1" earlyPageWorld
    (Runs.ofList earlyPage (EachStep.always _ _) rfl) (by decide) (by decide) (by decide)
    (by decide) (by decide) (by decide) 2 (by decide) (by decide)
  exact hnever copy hcopy hle

end Stoop.Channel
