import Stoop.Jobs.Schedule

/-!
# Runs of a kind come one at a time

What a step of the schedules keeps (`Planned`), over the transactions that are open, and from it the law of every
run (`one_at_a_time`): a run of a kind comes when the record has it due, a period after the one before it and once
that has finished.

A transaction whose snapshot is older than another's commit has passed over the run that one inserted. What keeps
it from a second is the row: by the time it has the lock, the row says a period later.
-/

set_option autoImplicit false

namespace Stoop.Jobs

open Stoop.Lib

/-! ## Records -/

section

variable {kind : String} {due : Option Time} {past marks : List Mark} {mark : Mark}

theorem runsOf_append (kind : String) (past marks : List Mark) :
    runsOf kind (past ++ marks) = runsOf kind past ++ runsOf kind marks := List.filterMap_append

theorem runsOf_asked (kind k : String) (every : Int) (now : Time) : runsOf kind [.asked k every now] = [] := rfl

theorem runsOf_ran (kind k : String) (id : JobId) (intervalMs : Int) (now : Time) :
    runsOf kind [.ran k id intervalMs now] = if k = kind then [(id, now)] else [] := by
  by_cases hk : k = kind <;> simp [runsOf, hk]

theorem timely_append (h : Timely kind due past)
    (hmarks : Timely kind (past.foldl (dueAfter kind) due) marks) : Timely kind due (past ++ marks) := by
  induction past generalizing due with
  | nil => exact hmarks
  | cons mark past ih => exact ⟨h.1, ih h.2 hmarks⟩

theorem timely_asked (k : String) (every : Int) (now : Time) : Timely kind due [.asked k every now] :=
  ⟨nofun, trivial⟩

theorem timely_ran {k : String} {id : JobId} {intervalMs : Int} {now : Time}
    (h : k = kind → ∃ time ∈ due, time ≤ now) : Timely kind due [.ran k id intervalMs now] := by
  refine ⟨?_, trivial⟩
  rintro _ _ _ ⟨⟩
  exact h rfl

/-- A kind that is scheduled stays so. -/
theorem foldl_dueAfter_isSome (h : due.isSome = true) : (past.foldl (dueAfter kind) due).isSome = true := by
  induction past generalizing due with
  | nil => exact h
  | cons mark past ih =>
    refine ih ?_
    obtain ⟨time, rfl⟩ := Option.isSome_iff_exists.mp h
    unfold dueAfter
    split
    · split <;> rfl
    · split <;> rfl

/-- A kind that has run is scheduled. -/
theorem foldl_dueAfter_of_runs {run : JobId × Time} (h : run ∈ runsOf kind past) :
    (past.foldl (dueAfter kind) due).isSome = true := by
  induction past generalizing due with
  | nil => exact absurd h List.not_mem_nil
  | cons mark past ih =>
    rw [← List.singleton_append, runsOf_append, List.mem_append] at h
    obtain hnow | hlater := h
    · cases mark with
      | asked k every now => exact absurd hnow List.not_mem_nil
      | ran k id intervalMs now =>
        rw [runsOf_ran] at hnow
        obtain ⟨hk, -⟩ := List.mem_ite_nil_right.mp hnow
        rw [List.foldl_cons]
        refine foldl_dueAfter_isSome ?_
        simp [dueAfter, hk]
    · exact ih hlater

end

/-! ## The rows -/

theorem get?_advance (kind k : String) (nextDue : Time) (id : JobId) (rows : ScheduleRows) :
    (advanceSchedule kind nextDue id rows).get? k = (rows.get? k).map fun row =>
      if row.kind = kind then { row with nextDue := nextDue, lastJobId := some id } else row := Keyed.get?_map ..

theorem get?_disable (kind k : String) (rows : ScheduleRows) :
    (disableSchedule kind rows).get? k = (rows.get? k).map fun row =>
      if row.kind = kind then { row with enabled := false } else row := Keyed.get?_map ..

/-- A row after it is advanced: that of another kind as it was, or the kind's own, due later. -/
theorem get?_advance_cases {kind k : String} {nextDue : Time} {id : JobId} {rows : ScheduleRows} {row : ScheduleRow}
    (h : (advanceSchedule kind nextDue id rows).get? k = some row) :
    ∃ old, rows.get? k = some old ∧ ((k ≠ kind ∧ row = old) ∨
      (k = kind ∧ row = { old with nextDue := nextDue, lastJobId := some id })) := by
  rw [get?_advance] at h
  obtain ⟨old, hold, rfl⟩ := Option.map_eq_some_iff.mp h
  refine ⟨old, hold, ?_⟩
  have hkey := Keyed.key_of_get? hold
  by_cases hk : k = kind
  · exact .inr ⟨hk, if_pos (hkey.trans hk)⟩
  · exact .inl ⟨hk, if_neg fun heq => hk (hkey.symm.trans heq)⟩

theorem get?_disable_cases {kind k : String} {rows : ScheduleRows} {row : ScheduleRow}
    (h : (disableSchedule kind rows).get? k = some row) :
    ∃ old, rows.get? k = some old ∧ ((k ≠ kind ∧ row = old) ∨ (k = kind ∧ row = { old with enabled := false })) := by
  rw [get?_disable] at h
  obtain ⟨old, hold, rfl⟩ := Option.map_eq_some_iff.mp h
  refine ⟨old, hold, ?_⟩
  have hkey := Keyed.key_of_get? hold
  by_cases hk : k = kind
  · exact .inr ⟨hk, if_pos (hkey.trans hk)⟩
  · exact .inl ⟨hk, if_neg fun heq => hk (hkey.symm.trans heq)⟩

/-- The row a kind has once it is scheduled. -/
theorem get?_upsert (arg : UpsertScheduleParams) (rows : ScheduleRows) (k : String) :
    (upsertSchedule arg rows).get? k = if arg.kind = k then
      some (match rows.get? arg.kind with
        | none => ⟨arg.kind, arg.intervalMs, arg.enabled, arg.firstDue, none⟩
        | some row => ⟨arg.kind, arg.intervalMs, arg.enabled,
            if arg.enabled then min row.nextDue arg.movedDue else row.nextDue, row.lastJobId⟩)
    else rows.get? k := by
  unfold upsertSchedule
  cases hrow : rows.get? arg.kind with
  | none => exact Keyed.get?_set ..
  | some row =>
    have hkey : row.kind = arg.kind := Keyed.key_of_get? hrow
    rw [Keyed.get?_set, ← hkey]

/-- The row `Schedule` leaves a kind with. -/
theorem get?_schedule (kind : String) (every : Int) (now : Time) (rows : ScheduleRows) (k : String) :
    (upsertSchedule (scheduleParams kind every now) rows).get? k = if kind = k then
      some
        { kind := kind, intervalMs := if millisecond ≤ every then every / millisecond else 0
          enabled := decide (millisecond ≤ every)
          nextDue := match rows.get? kind with
            | none => now + scheduleLead
            | some row => if millisecond ≤ every then min row.nextDue (now + every) else row.nextDue
          lastJobId := (rows.get? kind).bind (·.lastJobId) }
    else rows.get? k := by
  rw [get?_upsert]
  unfold scheduleParams
  by_cases hevery : millisecond ≤ every
  · rw [if_pos hevery]
    cases rows.get? kind <;> simp [hevery]
  · rw [if_neg hevery]
    cases rows.get? kind <;> simp [hevery]

/-! ## What every step keeps -/

/-- The jobs, the schedules and the record, with the transactions that are open. -/
structure Planned (period : Int) (s : Planner) (Open : Materialise → Prop) (past : List Mark) : Prop where
  apart : Apart s.world
  idle : Idle s.world
  drawn : ∀ kind, ∀ run ∈ runsOf kind past, run.1 ∈ s.drawn
  own : ∀ kind, ∀ run ∈ runsOf kind past, ∀ j ∈ s.world.jobs, j.id = run.1 → j.kind = kind ∧ j.lane = none
  interval : ∀ kind row, s.rows.get? kind = some row → row.enabled = true → period ≤ row.intervalMs * millisecond
  due : ∀ kind, (s.rows.get? kind).map (·.nextDue) = past.foldl (dueAfter kind) none
  timely : ∀ kind, Timely kind none past
  ahead : ∀ kind, ∀ run ∈ runsOf kind past, ∀ row, s.rows.get? kind = some row → run.2 + period ≤ row.nextDue
  spaced : ∀ kind, (runsOf kind past).Pairwise fun earlier later => earlier.2 + period ≤ later.2
  single : ∀ kind, (runsOf kind past).Pairwise fun earlier _ => s.world.Finished earlier.1
  /-- A row is as it was locked, and due then; the kind's runs have finished. -/
  locked : ∀ tx, Open tx → ∀ row ∈ tx.locked, row.kind ∈ tx.due ∧ s.rows.get? row.kind = some row ∧
    row.due tx.now = true ∧ ∀ run ∈ runsOf row.kind past, s.world.Finished run.1
  /-- What a transaction found due has finished its runs, but those inserted since. -/
  found : ∀ tx, Open tx → ∀ kind ∈ tx.due, ∀ run ∈ runsOf kind past,
    s.world.Finished run.1 ∨ tx.now < run.2 + period
  /-- A row is locked by one transaction, once. -/
  once : ∀ tx, Open tx → (tx.locked.map (·.kind)).Nodup
  alone : ∀ tx, Open tx → ∀ other, Open other → ∀ row ∈ tx.locked, ∀ row' ∈ other.locked, row.kind = row'.kind →
    tx.id = other.id

variable {period : Int} {s s' : Planner} {Open Open' : Materialise → Prop} {past : List Mark}

theorem planned_empty : Planned period Planner.empty (fun _ => False) [] where
  apart := apart_empty
  idle := idle_empty
  drawn _ _ hrun := absurd hrun List.not_mem_nil
  own _ _ hrun := absurd hrun List.not_mem_nil
  interval _ _ hrow := nomatch hrow
  due _ := rfl
  timely _ := trivial
  ahead _ _ hrun := absurd hrun List.not_mem_nil
  spaced _ := .nil
  single _ := .nil
  locked _ h := h.elim
  found _ h := h.elim
  once _ h := h.elim
  alone _ h := h.elim

namespace Planned

/-- Fewer transactions are open. -/
theorem fewer (inv : Planned period s Open past) (h : ∀ tx, Open' tx → Open tx) : Planned period s Open' past :=
  { inv with
    locked := fun tx htx => inv.locked tx (h tx htx)
    found := fun tx htx => inv.found tx (h tx htx)
    once := fun tx htx => inv.once tx (h tx htx)
    alone := fun tx htx other hother => inv.alone tx (h tx htx) other (h other hother) }

/-- Of one that is open, fewer rows are locked. -/
theorem shrink (inv : Planned period s Open past) {tx left : Materialise} (htx : Open tx)
    (hfewer : ∀ o, Open' o → Open o) (hid : left.id = tx.id) (hnow : left.now = tx.now) (hdue : left.due ⊆ tx.due)
    (hlocked : left.locked.Sublist tx.locked) (hheld : ∀ row ∈ left.locked, row.kind ∈ left.due) :
    Planned period s (fun o => Open' o ∨ o = left) past := by
  refine { inv with locked := ?_, found := ?_, once := ?_, alone := ?_ }
  · rintro o (ho | rfl) row hrow
    · exact inv.locked o (hfewer o ho) row hrow
    · obtain ⟨-, hsame, hdue, hdone⟩ := inv.locked tx htx row (hlocked.subset hrow)
      exact ⟨hheld row hrow, hsame, hnow ▸ hdue, hdone⟩
  · rintro o (ho | rfl) kind hkind run hrun
    · exact inv.found o (hfewer o ho) kind hkind run hrun
    · rw [hnow]
      exact inv.found tx htx kind (hdue hkind) run hrun
  · rintro o (ho | rfl)
    · exact inv.once o (hfewer o ho)
    · exact (inv.once tx htx).sublist (hlocked.map _)
  · rintro o (ho | rfl) o' (ho' | rfl) row hrow row' hrow' heq
    · exact inv.alone o (hfewer o ho) o' (hfewer o' ho') row hrow row' hrow' heq
    · rw [hid]
      exact inv.alone o (hfewer o ho) tx htx row hrow row' (hlocked.subset hrow') heq
    · rw [hid]
      exact inv.alone tx htx o' (hfewer o' ho') row (hlocked.subset hrow) row' hrow' heq
    · rfl

/-- What the invariant says does not look at the transactions in the state. -/
theorem passes (inv : Planned period s Open past) (passes : Keyed Materialise.id) :
    Planned period { s with passes := passes } Open past := { inv with }

/-- No step enqueues under the id of a run. -/
theorem not_enqueued (inv : Planned period s Open past) {a : Label} (hfresh : ∀ j ∈ a.enqueued, j.id ∉ s.drawn)
    {kind : String} {run : JobId × Time} (hrun : run ∈ runsOf kind past) : ∀ j ∈ a.enqueued, j.id ≠ run.1 := by
  intro j hj heq
  exact hfresh j hj (heq ▸ inv.drawn kind run hrun)

/-- A run that has finished stays so. -/
theorem finished_work (inv : Planned period s Open past) {a : Label} (h : s.work a = some s') {kind : String}
    {run : JobId × Time} (hrun : run ∈ runsOf kind past) (hdone : s.world.Finished run.1) :
    s'.world.Finished run.1 := by
  obtain ⟨hfresh, h⟩ := Option.ite_none_right_eq_some.mp h
  obtain ⟨w, hw, rfl⟩ := Option.map_eq_some_iff.mp h
  exact finished_step inv.idle inv.apart hw (inv.not_enqueued hfresh hrun)
    (fun j hj hid => (inv.own kind run hrun j hj hid).2) hdone

/-- **Anything that happens to the jobs.** -/
theorem work (inv : Planned period s Open past) {a : Label} (h : s.work a = some s') :
    Planned period s' Open past := by
  have hfinished : ∀ kind, ∀ run ∈ runsOf kind past, s.world.Finished run.1 → s'.world.Finished run.1 :=
    fun kind run hrun => inv.finished_work h hrun
  obtain ⟨hfresh, h⟩ := Option.ite_none_right_eq_some.mp h
  obtain ⟨w, hw, rfl⟩ := Option.map_eq_some_iff.mp h
  refine { inv with
    apart := inv.apart.step hw
    idle := inv.idle.step inv.apart hw
    drawn := fun kind run hrun => List.mem_append_left _ (inv.drawn kind run hrun)
    own := ?_
    single := ?_
    locked := ?_
    found := ?_ }
  · intro kind run hrun j' hj' hid
    obtain hmem | ⟨j, hj, hbecomes⟩ := jobs_step inv.apart hw j' hj'
    · exact absurd hid (inv.not_enqueued hfresh hrun j' hmem)
    · obtain ⟨hsame, hkind, hlane⟩ := hbecomes.kept
      rw [hkind, hlane]
      exact inv.own kind run hrun j hj (hsame.symm.trans hid)
  · intro kind
    exact (inv.single kind).imp_of_mem fun hearlier _ => hfinished kind _ hearlier
  · intro tx htx row hrow
    obtain ⟨hmem, hsame, hdue, hdone⟩ := inv.locked tx htx row hrow
    exact ⟨hmem, hsame, hdue, fun run hrun => hfinished row.kind run hrun (hdone run hrun)⟩
  · intro tx htx kind hkind run hrun
    exact (inv.found tx htx kind hkind run hrun).imp_left (hfinished kind run hrun)

/-- **A run is inserted**: of a row that was due, its runs finished, where no other transaction has it locked or read
a clock a period ahead. -/
theorem ran (inv : Planned period s Open past) {row : ScheduleRow} {id : JobId} {now : Time}
    (hrow : s.rows.get? row.kind = some row) (hdue : row.due now = true) (hpos : 0 < row.intervalMs)
    (hdone : ∀ run ∈ runsOf row.kind past, s.world.Finished run.1) (hid : id ∈ s.drawn)
    (hown : ∀ j ∈ s.world.jobs, j.id = id → j.kind = row.kind ∧ j.lane = none)
    (hfree : ∀ tx, Open tx → ∀ other ∈ tx.locked, other.kind ≠ row.kind)
    (hbrief : ∀ tx, Open tx → row.kind ∈ tx.due → tx.now < now + period) :
    Planned period
      { s with rows := advanceSchedule row.kind (now + row.intervalMs * millisecond) id s.rows } Open
      (past ++ [.ran row.kind id row.intervalMs now]) := by
  obtain ⟨henabled, hnext⟩ := (Bool.and_eq_true _ _).mp hdue
  have hnext : row.nextDue ≤ now := of_decide_eq_true hnext
  have hinterval := inv.interval row.kind row hrow henabled
  have hruns : ∀ kind, ∀ run ∈ runsOf kind (past ++ [.ran row.kind id row.intervalMs now]),
      run ∈ runsOf kind past ∨ row.kind = kind ∧ run = (id, now) := by
    intro kind run hrun
    rw [runsOf_append, runsOf_ran, List.mem_append] at hrun
    obtain hold | hnew := hrun
    · exact .inl hold
    · obtain ⟨hk, hmem⟩ := List.mem_ite_nil_right.mp hnew
      exact .inr ⟨hk, List.mem_singleton.mp hmem⟩
  have hpairs : ∀ (P : JobId × Time → JobId × Time → Prop) kind, (runsOf kind past).Pairwise P →
      (row.kind = kind → ∀ run ∈ runsOf kind past, P run (id, now)) →
      (runsOf kind (past ++ [.ran row.kind id row.intervalMs now])).Pairwise P := by
    intro P kind hold hnew
    rw [runsOf_append, runsOf_ran]
    refine List.pairwise_append.mpr ⟨hold, ?_, ?_⟩
    · split
      · exact List.pairwise_singleton _ _
      · exact .nil
    · intro run hrun other hother
      obtain ⟨hk, hmem⟩ := List.mem_ite_nil_right.mp hother
      rw [List.mem_singleton.mp hmem]
      exact hnew hk run hrun
  refine { inv with
    drawn := ?_, own := ?_, interval := ?_, due := ?_, timely := ?_, ahead := ?_, spaced := ?_, single := ?_
    locked := ?_, found := ?_ }
  · intro kind run hrun
    obtain hold | ⟨-, rfl⟩ := hruns kind run hrun
    · exact inv.drawn kind run hold
    · exact hid
  · intro kind run hrun
    obtain hold | ⟨rfl, rfl⟩ := hruns kind run hrun
    · exact inv.own kind run hold
    · exact hown
  · intro kind new hnew
    obtain ⟨old, hold, ⟨-, rfl⟩ | ⟨-, rfl⟩⟩ := get?_advance_cases hnew
    · exact inv.interval kind new hold
    · exact inv.interval kind old hold
  · intro kind
    rw [List.foldl_append, ← inv.due kind, List.foldl_cons, List.foldl_nil, dueAfter, get?_advance]
    by_cases hk : row.kind = kind
    · subst hk
      simp [hrow]
    · rw [if_neg hk, Option.map_map]
      cases hother : s.rows.get? kind with
      | none => rfl
      | some old =>
        have hne : old.kind ≠ row.kind := fun heq => hk (heq.symm.trans (Keyed.key_of_get? hother))
        simp [hne]
  · intro kind
    refine timely_append (inv.timely kind) (timely_ran ?_)
    rintro rfl
    exact ⟨row.nextDue, by rw [← inv.due, hrow]; rfl, hnext⟩
  · intro kind run hrun new hnew
    obtain ⟨old, hold, ⟨hk, rfl⟩ | ⟨rfl, rfl⟩⟩ := get?_advance_cases hnew
    · obtain hpast | ⟨rfl, -⟩ := hruns kind run hrun
      · exact inv.ahead kind run hpast new hold
      · exact absurd rfl hk
    · obtain hpast | ⟨-, rfl⟩ := hruns row.kind run hrun
      · have hahead := inv.ahead row.kind run hpast row hrow
        exact hahead.trans (hnext.trans (Int.le_add_of_nonneg_right (Int.mul_nonneg hpos.le (by decide))))
      · exact Int.add_le_add_left hinterval now
  · intro kind
    refine hpairs _ kind (inv.spaced kind) ?_
    rintro rfl run hrun
    exact (inv.ahead row.kind run hrun row hrow).trans hnext
  · intro kind
    refine hpairs _ kind (inv.single kind) ?_
    rintro rfl run hrun
    exact hdone run hrun
  · intro tx htx other hother
    obtain ⟨hmem, hsame, hother_due, hother_done⟩ := inv.locked tx htx other hother
    have hne := hfree tx htx other hother
    refine ⟨hmem, ?_, hother_due, ?_⟩
    · rw [get?_advance, hsame, Option.map_some, if_neg hne]
    · intro run hrun
      obtain hold | ⟨heq, -⟩ := hruns other.kind run hrun
      · exact hother_done run hold
      · exact absurd heq.symm hne
  · intro tx htx kind hkind run hrun
    obtain hold | ⟨rfl, rfl⟩ := hruns kind run hrun
    · exact inv.found tx htx kind hkind run hold
    · exact .inr (hbrief tx htx hkind)

/-- A schedule is turned off, its row locked by no transaction. -/
theorem disabled (inv : Planned period s Open past) {kind : String}
    (hfree : ∀ tx, Open tx → ∀ other ∈ tx.locked, other.kind ≠ kind) :
    Planned period { s with rows := disableSchedule kind s.rows } Open past := by
  refine { inv with interval := ?_, due := ?_, ahead := ?_, locked := ?_ }
  · intro k row hrow henabled
    obtain ⟨old, hold, ⟨-, rfl⟩ | ⟨-, rfl⟩⟩ := get?_disable_cases hrow
    · exact inv.interval k row hold henabled
    · exact nomatch henabled
  · intro k
    rw [← inv.due k, get?_disable, Option.map_map]
    refine congrArg (fun f => Option.map f (s.rows.get? k)) (funext fun row => ?_)
    by_cases hk : row.kind = kind <;> simp [hk]
  · intro k run hrun row hrow
    obtain ⟨old, hold, ⟨-, rfl⟩ | ⟨-, rfl⟩⟩ := get?_disable_cases hrow
    · exact inv.ahead k run hrun row hold
    · exact inv.ahead k run hrun old hold
  · intro tx htx other hother
    obtain ⟨hmem, hsame, hdue, hdone⟩ := inv.locked tx htx other hother
    refine ⟨hmem, ?_, hdue, hdone⟩
    rw [get?_disable, hsame, Option.map_some, if_neg (hfree tx htx other hother)]

/-- **A kind is scheduled**, its row locked by no transaction: with no shorter interval, and by a clock not behind. -/
theorem asked (inv : Planned period s Open past) {kind : String} {every : Int} {now : Time}
    (hfree : ∀ tx, Open tx → ∀ other ∈ tx.locked, other.kind ≠ kind)
    (hinterval : millisecond ≤ every → period ≤ every / millisecond * millisecond)
    (hclock : ∀ run ∈ runsOf kind past, run.2 ≤ now) :
    Planned period { s with rows := upsertSchedule (scheduleParams kind every now) s.rows } Open
      (past ++ [.asked kind every now]) := by
  have hruns : ∀ k, runsOf k (past ++ [.asked kind every now]) = runsOf k past := by
    intro k
    rw [runsOf_append, runsOf_asked, List.append_nil]
  refine ⟨inv.apart, inv.idle, ?_, ?_, ?_, ?_, ?_, ?_, ?_, ?_, ?_, ?_, inv.once, inv.alone⟩
  · simpa only [hruns] using inv.drawn
  · simpa only [hruns] using inv.own
  · intro k row hrow henabled
    rw [get?_schedule] at hrow
    split at hrow
    · obtain ⟨⟩ := hrow
      have hevery : millisecond ≤ every := of_decide_eq_true henabled
      show period ≤ (if millisecond ≤ every then every / millisecond else 0) * millisecond
      rw [if_pos hevery]
      exact hinterval hevery
    · exact inv.interval k row hrow henabled
  · intro k
    rw [List.foldl_append, ← inv.due k, List.foldl_cons, List.foldl_nil, get?_schedule]
    by_cases hk : kind = k
    · subst hk
      cases s.rows.get? kind <;> simp [dueAfter]
    · simp [dueAfter, hk]
  · intro k
    exact timely_append (inv.timely k) (timely_asked kind every now)
  · intro k run hrun row hrow
    rw [hruns] at hrun
    rw [get?_schedule] at hrow
    split at hrow
    · next hk =>
      subst hk
      obtain ⟨⟩ := hrow
      cases hold : s.rows.get? kind with
      | none =>
        -- a kind that has run has a row
        have hsome : (past.foldl (dueAfter kind) none).isSome = true := foldl_dueAfter_of_runs hrun
        rw [← inv.due kind, hold] at hsome
        cases hsome
      | some old =>
        have hahead := inv.ahead kind run hrun old hold
        by_cases hevery : millisecond ≤ every
        · have hmoved : run.2 + period ≤ now + every :=
            Int.add_le_add (hclock run hrun) ((hinterval hevery).trans (Int.ediv_mul_le every (by decide)))
          simpa [hold, hevery] using ⟨hahead, hmoved⟩
        · simpa [hold, hevery] using hahead
    · exact inv.ahead k run hrun row hrow
  · simpa only [hruns] using inv.spaced
  · simpa only [hruns] using inv.single
  · intro tx htx other hother
    obtain ⟨hmem, hsame, hdue, hdone⟩ := inv.locked tx htx other hother
    refine ⟨hmem, ?_, hdue, ?_⟩
    · rw [get?_schedule, if_neg fun hk => hfree tx htx other hother hk.symm]
      exact hsame
    · rw [hruns]
      exact hdone
  · simpa only [hruns] using inv.found

/-- A transaction begins: what it found due has no run that is unfinished. -/
theorem begun (inv : Planned period s Open past) {tx : Materialise} (hlocked : tx.locked = [])
    (hfound : ∀ kind ∈ tx.due, ∀ run ∈ runsOf kind past, s.world.Finished run.1) :
    Planned period s (fun o => Open o ∨ o = tx) past := by
  refine { inv with locked := ?_, found := ?_, once := ?_, alone := ?_ }
  · rintro o (ho | rfl) row hrow
    · exact inv.locked o ho row hrow
    · rw [hlocked] at hrow
      exact absurd hrow List.not_mem_nil
  · rintro o (ho | rfl) kind hkind run hrun
    · exact inv.found o ho kind hkind run hrun
    · exact .inl (hfound kind hkind run hrun)
  · rintro o (ho | rfl)
    · exact inv.once o ho
    · rw [hlocked]
      exact .nil
  · rintro o (ho | rfl) o' (ho' | rfl) row hrow row' hrow'
    · exact inv.alone o ho o' ho' row hrow row' hrow'
    · rw [hlocked] at hrow'
      exact absurd hrow' List.not_mem_nil
    · rw [hlocked] at hrow
      exact absurd hrow List.not_mem_nil
    · exact fun _ => rfl

/-- **A row is locked**: it is due still, so every run of its kind has finished. -/
theorem lock (inv : Planned period s Open past) {tx : Materialise} {row : ScheduleRow} (htx : Open tx)
    (hmem : row.kind ∈ tx.due) (hrow : s.rows.get? row.kind = some row) (hdue : row.due tx.now = true)
    (hfree : ∀ o, Open o → ∀ other ∈ o.locked, other.kind ≠ row.kind) :
    Planned period s (fun o => (Open o ∧ o.id ≠ tx.id) ∨ o = { tx with locked := tx.locked ++ [row] }) past := by
  have hdone : ∀ run ∈ runsOf row.kind past, s.world.Finished run.1 := by
    intro run hrun
    obtain hdone | hahead := inv.found tx htx row.kind hmem run hrun
    · exact hdone
    · have hnext : row.nextDue ≤ tx.now := of_decide_eq_true ((Bool.and_eq_true _ _).mp hdue).2
      exact absurd ((inv.ahead row.kind run hrun row hrow).trans hnext) (not_le.mpr hahead)
  refine { inv with locked := ?_, found := ?_, once := ?_, alone := ?_ }
  · rintro o (⟨ho, -⟩ | rfl) other hother
    · exact inv.locked o ho other hother
    · obtain hold | hnew := List.mem_append.mp hother
      · exact inv.locked tx htx other hold
      · rw [List.mem_singleton.mp hnew]
        exact ⟨hmem, hrow, hdue, hdone⟩
  · rintro o (⟨ho, -⟩ | rfl)
    · exact inv.found o ho
    · exact inv.found tx htx
  · rintro o (⟨ho, -⟩ | rfl)
    · exact inv.once o ho
    · rw [List.map_append, List.map_singleton]
      refine (inv.once tx htx).append (List.nodup_singleton _) ?_
      rw [List.disjoint_singleton]
      intro hheld
      obtain ⟨other, hother, heq⟩ := List.mem_map.mp hheld
      exact hfree tx htx other hother heq
  · rintro o (⟨ho, hne⟩ | rfl) o' (⟨ho', hne'⟩ | rfl) other hother other' hother'
    · exact inv.alone o ho o' ho' other hother other' hother'
    · obtain hold | hnew := List.mem_append.mp hother'
      · exact inv.alone o ho tx htx other hother other' hold
      · rw [List.mem_singleton.mp hnew]
        exact fun heq => absurd heq (hfree o ho other hother)
    · obtain hold | hnew := List.mem_append.mp hother
      · exact inv.alone tx htx o' ho' other hold other' hother'
      · rw [List.mem_singleton.mp hnew]
        exact fun heq => absurd heq.symm (hfree o' ho' other' hother')
    · exact fun _ => rfl

/-- What enqueueing a run does: its id is drawn, and its row is the only one under it. -/
theorem enqueued_work {id : JobId} {kind args : String} {maxAttempts : Int} {notBefore now : Time}
    (h : s.work (.insertJob id kind args none none maxAttempts notBefore now) = some s') :
    s'.rows = s.rows ∧ id ∈ s'.drawn ∧ ∀ j ∈ s'.world.jobs, j.id = id → j.kind = kind ∧ j.lane = none := by
  obtain ⟨-, h⟩ := Option.ite_none_right_eq_some.mp h
  obtain ⟨w, hw, rfl⟩ := Option.map_eq_some_iff.mp h
  refine ⟨rfl, List.mem_append_right _ (List.mem_singleton_self id), ?_⟩
  intro j hj hid
  simp only [World.step] at hw
  split at hw
  · cases hw
  · next hnew =>
    obtain ⟨⟩ := hw
    obtain hold | hmem := List.mem_append.mp hj
    · exact absurd (.inl (List.mem_map.mpr ⟨j, hold, hid⟩)) hnew
    · rw [List.mem_singleton.mp hmem]
      exact ⟨rfl, rfl⟩

/-- **One row of a commit**: a run of it, or its schedule turned off. -/
theorem materialise (inv : Planned period s Open past) {tx : Materialise} {row : ScheduleRow} {id : JobId}
    (h : s.materialise tx row id = some s') (hrow : s.rows.get? row.kind = some row) (hdue : row.due tx.now = true)
    (hdone : ∀ run ∈ runsOf row.kind past, s.world.Finished run.1)
    (hfree : ∀ o, Open o → ∀ other ∈ o.locked, other.kind ≠ row.kind)
    (hbrief : ∀ o, Open o → row.kind ∈ o.due → o.now < tx.now + period) :
    Planned period s' Open (past ++ tx.marks [(row, id)]) := by
  unfold Planner.materialise at h
  split at h
  · next hnone =>
    obtain ⟨⟩ := h
    have hmarks : tx.marks [(row, id)] = [] := by simp [Materialise.marks, Materialise.runs, hnone]
    rw [hmarks, List.append_nil]
    exact inv.disabled hfree
  · next opts hopts =>
    split at h
    · next hnever =>
      obtain ⟨⟩ := h
      have hmarks : tx.marks [(row, id)] = [] := by simp [Materialise.marks, Materialise.runs, not_lt.mpr hnever]
      rw [hmarks, List.append_nil]
      exact inv.disabled hfree
    · next hpos =>
      have hpos : 0 < row.intervalMs := not_le.mp hpos
      obtain ⟨t, ht, rfl⟩ := Option.map_eq_some_iff.mp h
      have hmarks : tx.marks [(row, id)] = [.ran row.kind id row.intervalMs tx.now] := by
        simp [Materialise.marks, Materialise.runs, hopts, hpos]
      rw [hmarks]
      obtain ⟨hrows, hdrawn, hown⟩ := enqueued_work ht
      refine (inv.work ht).ran (hrows ▸ hrow) hdue hpos (fun run hrun => inv.finished_work ht hrun (hdone run hrun))
        hdrawn hown hfree hbrief

theorem marks_cons (tx : Materialise) (entry : ScheduleRow × JobId) (entries : List (ScheduleRow × JobId)) :
    tx.marks (entry :: entries) = tx.marks [entry] ++ tx.marks entries := by
  rw [Materialise.marks, Materialise.marks, Materialise.marks, ← List.map_append, ← List.filter_append]
  rfl

/-- **The loop of a commit**, over rows that are locked by it alone. -/
theorem materialiseAll {tx : Materialise} {Others : Materialise → Prop} {entries : List (ScheduleRow × JobId)}
    (h : s.materialiseAll tx entries = some s')
    (inv : Planned period s
      (fun o => Others o ∨ o = { tx with due := entries.map (·.1.kind), locked := entries.map (·.1) }) past)
    (hothers : ∀ o, Others o → o.id ≠ tx.id ∧ o.now < tx.now + period) :
    Planned period s' Others (past ++ tx.marks entries) := by
  induction entries generalizing s past with
  | nil =>
    obtain ⟨⟩ := h
    rw [Materialise.marks, List.filter_nil, List.map_nil, List.append_nil]
    exact inv.fewer fun o ho => .inl ho
  | cons entry entries ih =>
    obtain ⟨row, id⟩ := entry
    obtain ⟨t, ht, hrest⟩ := Option.bind_eq_some_iff.mp h
    obtain ⟨-, hrow, hdue, hdone⟩ := inv.locked _ (.inr rfl) row List.mem_cons_self
    have honce := inv.once _ (.inr rfl)
    simp only [List.map_cons, List.map_map, List.nodup_cons, List.mem_map] at honce
    have hapart : ∀ o, Others o → ∀ other ∈ o.locked, other.kind ≠ row.kind := by
      intro o ho other hother heq
      have hsame := inv.alone o (.inl ho) _ (.inr rfl) other hother row List.mem_cons_self heq
      exact (hothers o ho).1 hsame
    -- what is left to do of the transaction, beside the others
    have hleft : Planned period s
        (fun o => Others o ∨ o = { tx with due := entries.map (·.1.kind), locked := entries.map (·.1) }) past := by
      refine inv.shrink (.inr rfl) (fun o ho => .inl ho) rfl rfl (List.subset_cons_self _ _)
        (List.sublist_cons_self _ _) ?_
      intro other hother
      obtain ⟨entry, hentry, rfl⟩ := List.mem_map.mp hother
      exact List.mem_map.mpr ⟨entry, hentry, rfl⟩
    have hstep := hleft.materialise ht hrow hdue hdone ?_ ?_
    · rw [marks_cons, ← List.append_assoc]
      exact ih hrest hstep
    · rintro o (ho | rfl) other hother heq
      · exact hapart o ho other hother heq
      · obtain ⟨entry, hentry, rfl⟩ := List.mem_map.mp hother
        exact honce.1 ⟨entry, hentry, heq⟩
    · rintro o (ho | rfl) hmem
      · exact (hothers o ho).2
      · obtain ⟨entry, hentry, heq⟩ := List.mem_map.mp hmem
        exact absurd ⟨entry, hentry, heq⟩ honce.1

end Planned

/-! ## Runs -/

/-- Of the transactions that are open, those of a state. -/
def Planner.Opened (s : Planner) (tx : Materialise) : Prop := tx ∈ s.passes.values

theorem opened_close {pass : Nat} {tx : Materialise} : (s.close pass).Opened tx ↔ s.Opened tx ∧ tx.id ≠ pass := by
  rw [Planner.Opened, Planner.close, Keyed.mem_values, Keyed.get?_filter_ne, Planner.Opened, Keyed.mem_values]
  by_cases hid : tx.id = pass <;> simp [hid]

theorem opened_set {tx o : Materialise} {passes : Keyed Materialise.id} (h : o ∈ (passes.set tx).values) :
    (o ∈ passes.values ∧ o.id ≠ tx.id) ∨ o = tx := by
  rw [Keyed.mem_values] at h
  obtain ⟨-, rfl⟩ | ⟨hne, hold⟩ := Keyed.get?_set_cases h
  · exact .inr rfl
  · exact .inl ⟨Keyed.mem_values.mpr hold, fun heq => hne heq.symm⟩

theorem passes_work {a : Label} (h : s.work a = some s') : s'.passes = s.passes := by
  obtain ⟨-, h⟩ := Option.ite_none_right_eq_some.mp h
  obtain ⟨w, -, rfl⟩ := Option.map_eq_some_iff.mp h
  rfl

theorem passes_materialise {tx : Materialise} {row : ScheduleRow} {id : JobId}
    (h : s.materialise tx row id = some s') : s'.passes = s.passes := by
  unfold Planner.materialise at h
  split at h
  · obtain ⟨⟩ := h
    rfl
  · split at h
    · obtain ⟨⟩ := h
      rfl
    · obtain ⟨t, ht, rfl⟩ := Option.map_eq_some_iff.mp h
      exact (passes_work ht : t.passes = s.passes)

theorem passes_materialiseAll {tx : Materialise} {entries : List (ScheduleRow × JobId)}
    (h : s.materialiseAll tx entries = some s') : s'.passes = s.passes := by
  induction entries generalizing s with
  | nil =>
    obtain ⟨⟩ := h
    rfl
  | cons entry entries ih =>
    obtain ⟨t, ht, hrest⟩ := Option.bind_eq_some_iff.mp h
    exact (ih hrest).trans (passes_materialise ht)

theorem free_of_not_locks {kind : String} (h : s.locks kind = false) :
    ∀ tx, s.Opened tx → ∀ row ∈ tx.locked, row.kind ≠ kind := by
  intro tx htx row hrow heq
  have hlocks : s.locks kind = true :=
    List.any_eq_true.mpr ⟨tx, htx, List.any_eq_true.mpr ⟨row, hrow, beq_iff_eq.mpr heq⟩⟩
  rw [h] at hlocks
  cases hlocks

/-- The invariant of a run. -/
abbrev Planned.Of (period : Int) (t : Plan) : Prop := Planned period t.state t.state.Opened t.past

/-- **One step.** -/
theorem Planned.step {t u : Plan} {a : PlanLabel} (inv : Planned.Of period t) (paced : Paced period t a)
    (h : t.step a = some u) : Planned.Of period u := by
  obtain ⟨hstate, hpast⟩ := recording_eq_some h
  rw [Planned.Of, hpast]
  cases a with
  | job a =>
    show Planned period u.state u.state.Opened (t.past ++ [])
    rw [List.append_nil]
    refine (inv.work hstate).fewer fun tx htx => ?_
    rwa [Planner.Opened, passes_work hstate] at htx
  | schedule registry kind every now =>
    simp only [Planner.step] at hstate
    split at hstate
    · next hnone =>
      rw [← Option.some.inj hstate, Planner.marks, if_pos hnone, List.append_nil]
      exact inv
    · next hsome =>
      obtain ⟨hfree, hstate⟩ := Option.ite_none_left_eq_some.mp hstate
      rw [← Option.some.inj hstate, Planner.marks, if_neg hsome]
      exact inv.asked (free_of_not_locks (Bool.eq_false_iff.mpr hfree))
        paced.1 paced.2
  | dueSchedules pass registry now =>
    obtain ⟨hnew, hstate⟩ := Option.ite_none_left_eq_some.mp hstate
    show Planned period u.state u.state.Opened (t.past ++ [])
    rw [List.append_nil, ← Option.some.inj hstate]
    refine ((inv.begun rfl ?_).passes _).fewer fun tx htx => (opened_set htx).imp_left And.left
    intro kind hkind run hrun j hj hid
    obtain ⟨row, hrow, rfl⟩ := List.mem_map.mp hkind
    obtain ⟨-, hdue⟩ := List.mem_filter.mp hrow
    have howes : t.state.world.jobs.owes row.kind = false := by
      simpa using ((Bool.and_eq_true _ _).mp hdue).2
    refine Bool.eq_false_iff.mpr fun hopen => ?_
    have hsome : t.state.world.jobs.owes row.kind = true := by
      refine List.any_eq_true.mpr ⟨j, hj, ?_⟩
      rw [hopen, (inv.own row.kind run hrun j hj hid).1, beq_self_eq_true]
      rfl
    rw [howes] at hsome
    cases hsome
  | lock pass kind =>
    obtain ⟨tx, htx, hstate⟩ := Option.bind_eq_some_iff.mp hstate
    obtain ⟨row, hrow, hstate⟩ := Option.bind_eq_some_iff.mp hstate
    obtain ⟨⟨hmem, hdue, hfree⟩, hstate⟩ := Option.ite_none_right_eq_some.mp hstate
    show Planned period u.state u.state.Opened (t.past ++ [])
    rw [List.append_nil, ← Option.some.inj hstate]
    obtain rfl := Keyed.key_of_get? hrow
    have hopen : t.state.Opened tx := Keyed.mem_values.mpr (Keyed.key_of_get? htx ▸ htx)
    exact ((inv.lock hopen hmem hrow hdue (free_of_not_locks hfree)).passes _).fewer fun o ho => opened_set ho
  | commit pass ids =>
    obtain ⟨tx, htx, hstate⟩ := Option.bind_eq_some_iff.mp hstate
    obtain ⟨hlen, hstate⟩ := Option.ite_none_right_eq_some.mp hstate
    obtain rfl := Keyed.key_of_get? htx
    have hopen : t.state.Opened tx := Keyed.mem_values.mpr htx
    have hrows : (tx.locked.zip ids).map (·.1) = tx.locked := List.map_fst_zip hlen.ge
    have hmarks : t.state.marks (.commit tx.id ids) = tx.marks (tx.locked.zip ids) := by
      rw [Planner.marks, htx]
    have hclosed : u.state.Opened = (t.state.close tx.id).Opened := by
      funext o
      rw [Planner.Opened, Planner.Opened, passes_materialiseAll hstate]
    rw [hmarks, hclosed]
    -- of the transaction, the rows it has locked are left
    have hleft : Planned period t.state (fun o => (t.state.close tx.id).Opened o ∨
        o = { tx with
          due := (tx.locked.zip ids).map (·.1.kind), locked := (tx.locked.zip ids).map (·.1) }) t.past := by
      refine inv.shrink hopen (fun o ho => (opened_close.mp ho).1) rfl rfl ?_ ?_ ?_
      · intro kind hkind
        obtain ⟨entry, hentry, rfl⟩ := List.mem_map.mp hkind
        exact (inv.locked tx hopen entry.1 (hrows ▸ List.mem_map_of_mem hentry)).1
      · rw [hrows]
      · intro row hrow
        obtain ⟨entry, hentry, rfl⟩ := List.mem_map.mp hrow
        exact List.mem_map.mpr ⟨entry, hentry, rfl⟩
    refine Planned.materialiseAll hstate (hleft.passes _) ?_
    intro o ho
    obtain ⟨hopened, hne⟩ := opened_close.mp ho
    rw [Paced, htx] at paced
    exact ⟨hne, paced o hopened hne⟩
  | rollback pass =>
    show Planned period u.state u.state.Opened (t.past ++ [])
    rw [List.append_nil, ← Option.some.inj hstate]
    exact (inv.passes _).fewer fun o ho => (opened_close.mp ho).1

/-- Every run. -/
theorem Planned.runs {t : Plan} (run : Runs Plan.step (Paced period) Plan.empty t) : Planned.Of period t :=
  run.keeps (planned_empty.fewer fun _ htx => absurd htx List.not_mem_nil) fun _ _ _ inv paced h => inv.step paced h

/-! ## A pass left alone -/

theorem materialise_fresh {tx : Materialise} {row : ScheduleRow} {id : JobId} {opts : Options} (hfresh : s.Fresh id)
    (hopts : tx.registry.lookup row.kind = some opts) (hpos : 0 < row.intervalMs) :
    ∃ s', s.materialise tx row id = some s' := by
  obtain ⟨hdrawn, hjobs, hleases⟩ := hfresh
  have hdraws : ∀ j ∈ (Label.insertJob id row.kind "{}" none none opts.maxAttempts tx.now tx.now).enqueued,
      j.id ∉ s.drawn := by
    intro j hj
    rw [List.mem_singleton.mp hj]
    exact hdrawn
  have hnew : ¬(id ∈ s.world.jobs.map (·.id) ∨ id ∈ s.world.leases ∨
      (none : Option String).isSome ≠ (none : Option Int).isSome) := by
    rintro (h | h | h)
    · exact hjobs h
    · exact hleases h
    · exact h rfl
  have hstep : ∃ w, s.world.step (.insertJob id row.kind "{}" none none opts.maxAttempts tx.now tx.now) = some w :=
    ⟨_, if_neg hnew⟩
  obtain ⟨w, hw⟩ := hstep
  unfold Planner.materialise
  rw [hopts]
  simp only [not_le.mpr hpos, if_false]
  rw [Planner.work, if_pos hdraws, hw]
  exact ⟨_, rfl⟩

/-- A pass that no other disturbs inserts what it finds due. -/
theorem comes (kind : String) (t : Plan) : Comes kind t := by
  intro row registry now pass id hrow hdue hpos howes hlocks hpass hregistry hfresh
  obtain ⟨opts, hopts⟩ := Option.isSome_iff_exists.mp hregistry
  obtain ⟨hdrawn, hjobs, hleases⟩ := hfresh
  have hkind : row.kind = kind := Keyed.key_of_get? hrow
  let found := (t.state.rows.values.filter fun row => row.due now && !t.state.world.jobs.owes row.kind).map (·.kind)
  let tx : Materialise := ⟨pass, now, registry, found, []⟩
  let begun : Planner := { t.state with passes := t.state.passes.set tx }
  let locked : Planner := { begun with passes := begun.passes.set { tx with locked := [row] } }
  have hbegin : t.state.step (.dueSchedules pass registry now) = some begun := by
    rw [Planner.step, hpass]
    rfl
  have hmem : kind ∈ found := by
    refine List.mem_map.mpr ⟨row, List.mem_filter.mpr ⟨?_, ?_⟩, hkind⟩
    · exact Keyed.mem_values.mpr (hkind.symm ▸ hrow)
    · rw [hdue, hkind, howes]
      rfl
  have hfree : begun.locks kind = false := by
    refine Bool.eq_false_iff.mpr fun h => ?_
    obtain ⟨o, ho, hheld⟩ := List.any_eq_true.mp h
    obtain ⟨hold, -⟩ | rfl := opened_set ho
    · have hlocked : t.state.locks kind = true := List.any_eq_true.mpr ⟨o, hold, hheld⟩
      rw [hlocks] at hlocked
      cases hlocked
    · cases hheld
  have hlock : begun.step (.lock pass kind) = some locked := by
    have htx : begun.passes.get? pass = some tx := Keyed.get?_set_self t.state.passes tx
    have hsame : begun.rows.get? kind = some row := hrow
    rw [Planner.step, htx, Option.bind_some, hsame, Option.bind_some]
    exact if_pos ⟨hmem, hdue, hfree⟩
  have hheld : locked.passes.get? pass = some { tx with locked := [row] } :=
    Keyed.get?_set_self begun.passes { tx with locked := [row] }
  obtain ⟨last, hcommit⟩ : ∃ last, locked.step (.commit pass [id]) = some last := by
    rw [Planner.step, hheld, Option.bind_some]
    obtain ⟨last, hlast⟩ : ∃ last, (locked.close pass).materialise { tx with locked := [row] } row id = some last :=
      materialise_fresh ⟨hdrawn, hjobs, hleases⟩ (hkind.symm ▸ hopts) hpos
    refine ⟨last, ?_⟩
    have hlen : [id].length = [row].length := rfl
    refine (if_pos hlen).trans ?_
    show ((locked.close pass).materialise { tx with locked := [row] } row id).bind _ = some last
    rw [hlast]
    rfl
  have hmarks : locked.marks (.commit pass [id]) = [.ran kind id row.intervalMs now] := by
    rw [Planner.marks, hheld, ← hkind]
    simp [Materialise.marks, Materialise.runs, hkind, tx, hregistry, hpos]
  refine ⟨⟨last, t.past ++ [] ++ [] ++ [.ran kind id row.intervalMs now]⟩, ?_, ?_⟩
  · have hfirst : t.step (.dueSchedules pass registry now) = some ⟨begun, t.past ++ []⟩ := by
      rw [Plan.step, recording, hbegin]
      rfl
    have hsecond : Plan.step ⟨begun, t.past ++ []⟩ (.lock pass kind) = some ⟨locked, t.past ++ [] ++ []⟩ := by
      rw [Plan.step, recording, hlock]
      rfl
    have hthird : Plan.step ⟨locked, t.past ++ [] ++ []⟩ (.commit pass [id]) =
        some ⟨last, t.past ++ [] ++ [] ++ [.ran kind id row.intervalMs now]⟩ := by
      rw [Plan.step, recording, hcommit, hmarks]
      rfl
    rw [runList, hfirst, Option.bind_some, runList, hsecond, Option.bind_some, runList, hthird]
    rfl
  · rw [List.append_nil, List.append_nil, runsOf_append, runsOf_ran, if_pos rfl]

/-- **One at a time**: in any run of any number of dispatchers, a kind's runs come when they are due, a period apart
and each once those before it have finished; and one that is due is inserted by the next pass. -/
theorem one_at_a_time {t : Plan} (run : Runs Plan.step (Paced period) Plan.empty t) (kind : String) :
    OneAtATime period kind t := by
  have inv := Planned.runs run
  exact ⟨inv.timely kind, inv.spaced kind, inv.single kind, comes kind t⟩

/-- A kind scheduled every ten minutes, and two passes that both find it due; the second comes to the row's lock when
the first has committed. -/
def tickRegistry : Registry := ⟨Keyed.empty.set ("tick", laneOptions)⟩

def secondOf (n : Int) : Time := n * 1000000000

def raced : List PlanLabel :=
  [.schedule tickRegistry "tick" (secondOf 600) 0, .dueSchedules 1 tickRegistry (secondOf 130),
    .dueSchedules 2 tickRegistry (secondOf 131), .lock 1 "tick", .commit 1 [7], .commit 2 []]

theorem raced_once : ∃ t, runList Plan.step Plan.empty raced = some t ∧
    runsOf "tick" t.past = [(7, secondOf 130)] ∧ OneAtATime (secondOf 600) "tick" t := by
  have hrun : ((runList Plan.step Plan.empty raced).map fun t => runsOf "tick" t.past) = some [(7, secondOf 130)] := by
    decide +kernel
  have hpaced : EachStep Plan.step (Paced (secondOf 600)) Plan.empty raced := by decide +kernel
  obtain ⟨t, ht, hruns⟩ := Option.map_eq_some_iff.mp hrun
  exact ⟨t, ht, hruns, one_at_a_time (.ofList raced hpaced ht) "tick"⟩

end Stoop.Jobs
