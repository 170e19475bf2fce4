import Stoop.Lib.Machine
import Stoop.Messages.Stamps

/-!
# A channel's calls and transactions

The calls on one channel, taken in any order. A handler reads a message; later its transaction takes
the channel's row, reads and writes as the row's holder, and commits or rolls back. While one holds the
row no other begins, and what it wrote is seen by nobody until it commits.

An id is drawn under the channel's row and sorts after every id drawn before it (`rowid.New`).
-/

set_option autoImplicit false

namespace Stoop.Messages

open Stoop.Lib

/-- A channel as committed, what the transaction that holds its row would commit, the messages that
handlers have read, and the last id drawn. -/
structure World where
  channel : Channel
  opened : Option Channel
  read : List MessageRow
  drawn : Nat

/-- A channel nobody has written to. -/
def newWorld : World := ⟨emptyChannel, none, [], 0⟩

inductive Step
  | read (id : Nat)
  | begin (write : Write)
  | commit
  | rollback
  deriving DecidableEq, Repr

/-- Whether a write's transaction can take the channel's row: its handler read what it needs and let
it through, and the row is free. -/
def World.ready (w : World) (write : Write) : Bool :=
  w.opened.isNone && write.admitted && (write.reads.all fun msg => w.read.contains msg) &&
    write.draws.all fun id => decide (w.drawn < id)

def World.step (w : World) : Step → Option World
  | .read id => (w.channel.getMessage id).map fun row => { w with read := row :: w.read }
  | .begin write =>
    if w.ready write then
      some { w with
        opened := (write.run w.channel).toOption, drawn := write.draws.getD w.drawn }
    else none
  | .commit => w.opened.map fun c => { w with channel := c, opened := none }
  | .rollback => w.opened.map fun _ => { w with opened := none }

/-- A message stands where its handler read it, if it is still there. -/
def Stands (c : Channel) (msg : MessageRow) : Prop :=
  ∀ row, c.messages.get? msg.id = some row → row.threadRootId = msg.threadRootId

/-- What holds between the steps, whatever the order: the channel is well stamped, its ids were drawn,
a message a handler read stands in the place it had, and the transaction that holds the row wrote on
the channel as it stands. -/
structure World.Sound (w : World) : Prop where
  stamped : WellStamped w.channel
  drawn : ∀ {id row}, w.channel.messages.get? id = some row → id ≤ w.drawn
  read : ∀ msg ∈ w.read, msg.id ≤ w.drawn ∧ Stands w.channel msg ∧ ∀ c ∈ w.opened, Stands c msg
  opened : ∀ c ∈ w.opened, (∃ write, Wrote write w.channel c) ∧
    ∀ {id row}, c.messages.get? id = some row → id ≤ w.drawn

section
variable {w w' : World} {write : Write}

/-- What a write that is ready finds. -/
theorem World.ready_spec (h : w.ready write = true) :
    w.opened = none ∧ write.admitted = true ∧ (∀ msg ∈ write.reads, msg ∈ w.read) ∧
      ∀ id ∈ write.draws, w.drawn < id := by
  simp only [World.ready, Bool.and_eq_true, Option.isNone_iff_eq_none, Option.all_eq_true,
    List.contains_eq_mem, decide_eq_true_eq] at h
  exact ⟨h.1.1.1, h.1.1.2, h.1.2, h.2⟩

/-- What a step does. -/
theorem World.step_cases {a : Step} (h : w.step a = some w') :
    (∃ id row, a = .read id ∧ w.channel.getMessage id = some row ∧ w' = { w with read := row :: w.read }) ∨
    (∃ write, a = .begin write ∧ w.ready write = true ∧
      w' = { w with opened := (write.run w.channel).toOption, drawn := write.draws.getD w.drawn }) ∨
    (∃ c, a = .commit ∧ w.opened = some c ∧ w' = { w with channel := c, opened := none }) ∨
    (a = .rollback ∧ w' = { w with opened := none }) := by
  cases a with
  | read id =>
    obtain ⟨row, hrow, rfl⟩ := Option.map_eq_some_iff.mp h
    exact .inl ⟨id, row, rfl, hrow, rfl⟩
  | begin write =>
    simp only [World.step] at h
    split at h
    next hready => exact .inr (.inl ⟨write, rfl, hready, (Option.some.inj h).symm⟩)
    next => cases h
  | commit =>
    obtain ⟨c, hc, rfl⟩ := Option.map_eq_some_iff.mp h
    exact .inr (.inr (.inl ⟨c, rfl, hc, rfl⟩))
  | rollback =>
    obtain ⟨_, -, rfl⟩ := Option.map_eq_some_iff.mp h
    exact .inr (.inr (.inr ⟨rfl, rfl⟩))

/-- A draw moves the last id on. -/
theorem World.drawn_le_draws (h : w.ready write = true) : w.drawn ≤ write.draws.getD w.drawn := by
  cases hdraws : write.draws with
  | none => exact Nat.le_refl _
  | some id => exact Nat.le_of_lt ((World.ready_spec h).2.2.2 id hdraws)

/-- A write's draw is no id of the channel. -/
theorem World.Sound.fresh (h : w.Sound) (hready : w.ready write = true) :
    ∀ id ∈ write.draws, w.channel.messages.get? id = none := by
  intro id hid
  cases hget : w.channel.messages.get? id with
  | none => rfl
  | some row =>
    exact absurd (h.drawn hget) (Nat.not_le.mpr ((World.ready_spec hready).2.2.2 id hid))

/-- What a transaction that begins would commit. -/
theorem Write.run_of_toOption {c c' : Channel} (h : c' ∈ (write.run c).toOption) :
    write.run c = .ok c' := by
  cases hrun : write.run c with
  | error refusal => simp [hrun, Except.toOption] at h
  | ok c'' => simpa [hrun, Except.toOption] using h

/-- A message drawn before a write stands where it stood. -/
theorem Stands.wrote {c c' : Channel} {msg : MessageRow} (hwrote : Wrote write c c')
    (hdraws : ∀ id ∈ write.draws, msg.id ≠ id) (h : Stands c msg) : Stands c' msg := by
  intro row hrow
  rcases (hwrote.held hrow).1 with ⟨found, hfound, hstood⟩ | ⟨-, hnew⟩
  · exact hstood.trans (h found hfound)
  · exact absurd rfl (hdraws msg.id hnew)

/-- What begins sound stays sound. -/
theorem World.Sound.step {a : Step} (h : w.Sound) (hstep : w.step a = some w') : w'.Sound := by
  rcases World.step_cases hstep with ⟨id, row, -, hread, rfl⟩ | ⟨write, -, hready, rfl⟩ |
    ⟨c, -, hopened, rfl⟩ | ⟨-, rfl⟩
  · have hrow : w.channel.messages.get? id = some row := (Option.filter_eq_some_iff.mp hread).1
    obtain rfl : row.id = id := Keyed.key_of_get? hrow
    refine ⟨h.stamped, h.drawn, fun msg hmsg => ?_, h.opened⟩
    rcases List.mem_cons.mp hmsg with rfl | hmsg
    · have hstands : Stands w.channel msg := fun found hfound => by
        rw [hrow, Option.some.injEq] at hfound
        rw [hfound]
      refine ⟨h.drawn hrow, hstands, fun c hc => ?_⟩
      obtain ⟨⟨write, hwrote⟩, -⟩ := h.opened c hc
      intro found hfound
      rcases (hwrote.held hfound).1 with ⟨held, hheld, hstood⟩ | ⟨hnone, -⟩
      · exact hstood.trans (hstands held hheld)
      · exact absurd (hnone.symm.trans hrow) nofun
    · exact h.read msg hmsg
  · have hle := World.drawn_le_draws hready
    obtain ⟨hidle, -, -, hdraws⟩ := World.ready_spec hready
    have hwrote : ∀ c ∈ (write.run w.channel).toOption, Wrote write w.channel c := fun c hc =>
      write.wrote h.stamped (h.fresh hready) (Write.run_of_toOption hc)
    refine ⟨h.stamped, fun hrow => (h.drawn hrow).trans hle, fun msg hmsg => ?_, fun c hc => ?_⟩
    · obtain ⟨hdrawn, hstands, -⟩ := h.read msg hmsg
      refine ⟨hdrawn.trans hle, hstands, fun c hc => hstands.wrote (hwrote c hc) fun id hid => ?_⟩
      exact Nat.ne_of_lt (hdrawn.trans_lt (hdraws id hid))
    · refine ⟨⟨write, hwrote c hc⟩, fun hrow => ?_⟩
      rcases ((hwrote c hc).held hrow).1 with ⟨found, hfound, -⟩ | ⟨-, hnew⟩
      · exact (h.drawn hfound).trans hle
      · simp [hnew]
  · obtain ⟨⟨write, hwrote⟩, hdrawn⟩ := h.opened c hopened
    refine ⟨hwrote.toWellStamped, hdrawn, fun msg hmsg => ?_, nofun⟩
    obtain ⟨hlow, -, hstands⟩ := h.read msg hmsg
    exact ⟨hlow, hstands c hopened, nofun⟩
  · refine ⟨h.stamped, h.drawn, fun msg hmsg => ?_, nofun⟩
    obtain ⟨hlow, hstands, -⟩ := h.read msg hmsg
    exact ⟨hlow, hstands, nofun⟩

theorem sound_newWorld : newWorld.Sound :=
  ⟨⟨nofun, nofun⟩, nofun, nofun, nofun⟩

/-- **Every order of calls keeps a channel sound.** -/
theorem World.sound (h : Runs World.step Always newWorld w) : w.Sound :=
  h.keeps sound_newWorld fun _ _ _ hsound _ hstep => hsound.step hstep

end

end Stoop.Messages
