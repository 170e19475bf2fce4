/-!
# Machines: a step function, its runs, and what every run keeps

A machine is a partial step function `step : σ → ι → Option σ`: the state and the label of one
atomic action give the next state, or nothing when the action cannot be taken there. A run is a
list of labels. A law about runs is a law about one step, carried along a run by induction; this
module packages that induction once.

`Runs step ok s t` reads: some run leads from `s` to `t`, and each of its steps, judged in the
state it is taken from, satisfies `ok`. The unrestricted runs are those with `ok` true everywhere
(`Always`).

A law that speaks of what a run did, and not only of where it led, is a law of the machine that keeps
a record: `recording` runs a machine beside a list no step reads, to which each step adds what it did.
-/

set_option autoImplicit false

namespace Stoop.Lib

variable {σ ι : Type}

/-- A condition on single steps that every step satisfies. -/
def Always : σ → ι → Prop := fun _ _ => True

/-- The states reached from `s` by steps that each satisfy `ok` where they are taken. -/
inductive Runs (step : σ → ι → Option σ) (ok : σ → ι → Prop) (s : σ) : σ → Prop
  | refl : Runs step ok s s
  | tail {t u : σ} {a : ι} : Runs step ok s t → ok t a → step t a = some u → Runs step ok s u

/-- One run as a function: the state after a list of labels, if each can be taken in turn. -/
def runList (step : σ → ι → Option σ) : σ → List ι → Option σ
  | s, [] => some s
  | s, a :: as => (step s a).bind (fun t => runList step t as)

/-- The labels of a list, each judged in the state it is taken from. -/
def EachStep (step : σ → ι → Option σ) (ok : σ → ι → Prop) : σ → List ι → Prop
  | _, [] => True
  | s, a :: as => ok s a ∧ ∀ t, step s a = some t → EachStep step ok t as

/-- Whether each label of a list satisfies a condition is decided by taking them in turn. -/
instance EachStep.decide {step : σ → ι → Option σ} {ok : σ → ι → Prop}
    [∀ s a, Decidable (ok s a)] : (s : σ) → (as : List ι) → Decidable (EachStep step ok s as)
  | _, [] => isTrue trivial
  | s, a :: as =>
    haveI : Decidable (∀ t, step s a = some t → EachStep step ok t as) :=
      match step s a with
      | none => isTrue nofun
      | some t =>
        haveI : Decidable (EachStep step ok t as) := EachStep.decide t as
        decidable_of_iff (EachStep step ok t as) ⟨fun h _ ht => Option.some.inj ht ▸ h, fun h => h t rfl⟩
    inferInstanceAs (Decidable (ok s a ∧ _))

variable {step : σ → ι → Option σ} {ok ok' : σ → ι → Prop} {s t u : σ}

/-- Runs compose. -/
theorem Runs.trans (h : Runs step ok s t) (h' : Runs step ok t u) : Runs step ok s u := by
  induction h' with
  | refl => exact h
  | tail _ hok hstep ih => exact .tail ih hok hstep

/-- A run under a stronger condition is a run under a weaker one. -/
theorem Runs.weaken (himp : ∀ s a, ok s a → ok' s a) (h : Runs step ok s t) :
    Runs step ok' s t := by
  induction h with
  | refl => exact .refl
  | tail _ hok hstep ih => exact .tail ih (himp _ _ hok) hstep

/-- **The invariant rule.** What holds at the start, and is kept by every step the condition
allows, holds wherever such steps lead. -/
theorem Runs.keeps {Inv : σ → Prop} (start : Inv s)
    (keep : ∀ t a u, Inv t → ok t a → step t a = some u → Inv u)
    (h : Runs step ok s t) : Inv t := by
  induction h with
  | refl => exact start
  | tail _ hok hstep ih => exact keep _ _ _ ih hok hstep

/-- What a list of labels computes is a run, when each label satisfies the condition in turn. -/
theorem Runs.ofList (as : List ι) (hok : EachStep step ok s as)
    (h : runList step s as = some t) : Runs step ok s t := by
  induction as generalizing s with
  | nil =>
    simp only [runList, Option.some.injEq] at h
    exact h ▸ .refl
  | cons a as ih =>
    obtain ⟨m, hm, hrest⟩ := Option.bind_eq_some_iff.mp h
    exact (Runs.tail .refl hok.1 hm).trans (ih (hok.2 m hm) hrest)

/-- A list taken in two parts. -/
theorem runList_append (as bs : List ι) :
    runList step s (as ++ bs) = (runList step s as).bind fun t => runList step t bs := by
  induction as generalizing s with
  | nil => rfl
  | cons a as ih =>
    rw [List.cons_append, runList, runList]
    cases step s a with
    | none => rfl
    | some m => exact ih

/-- A list whose labels satisfy the condition in every state satisfies it in turn. -/
theorem EachStep.of_forall {as : List ι} (h : ∀ a ∈ as, ∀ s : σ, ok s a) :
    ∀ s : σ, EachStep step ok s as := by
  induction as with
  | nil => exact fun _ => trivial
  | cons a as ih =>
    exact fun s => ⟨h a List.mem_cons_self s, fun t _ =>
      ih (fun b hb => h b (List.mem_cons_of_mem _ hb)) t⟩

/-- Every list of labels satisfies the condition that is true everywhere. -/
theorem EachStep.always (as : List ι) (s : σ) : EachStep step Always s as :=
  EachStep.of_forall (fun _ _ _ => trivial) s

/-! ## Machines that keep a record -/

/-- A state, and what the steps up to it did, oldest first. -/
structure Recorded (σ ρ : Type) where
  state : σ
  past : List ρ
  deriving DecidableEq, Repr

variable {ρ : Type} {records : σ → ι → List ρ}

/-- One step of a machine, with what it did added to the record. -/
def recording (step : σ → ι → Option σ) (records : σ → ι → List ρ) (s : Recorded σ ρ) (a : ι) :
    Option (Recorded σ ρ) :=
  (step s.state a).map fun t => ⟨t, s.past ++ records s.state a⟩

/-- What a recorded step is: a step of the machine, and its record. -/
theorem recording_eq_some {r r' : Recorded σ ρ} {a : ι} (h : recording step records r a = some r') :
    step r.state a = some r'.state ∧ r'.past = r.past ++ records r.state a := by
  obtain ⟨t, ht, rfl⟩ := Option.map_eq_some_iff.mp h
  exact ⟨ht, rfl⟩

/-- A recorded run is a run of the machine. -/
theorem Runs.unrecorded {okr : Recorded σ ρ → ι → Prop} {r r' : Recorded σ ρ}
    (himp : ∀ r a, okr r a → ok r.state a) (h : Runs (recording step records) okr r r') :
    Runs step ok r.state r'.state := by
  induction h with
  | refl => exact .refl
  | tail _ hok hstep ih => exact .tail ih (himp _ _ hok) (recording_eq_some hstep).1

/-- What a run did stays on the record. -/
theorem Runs.past_grows {okr : Recorded σ ρ → ι → Prop} {r r' : Recorded σ ρ}
    (h : Runs (recording step records) okr r r') : r.past <+: r'.past := by
  induction h with
  | refl => exact List.prefix_refl _
  | tail _ _ hstep ih =>
    rw [(recording_eq_some hstep).2]
    exact ih.trans (List.prefix_append _ _)

/-- **The rule for records.** An invariant of the machine, and a law each step's record obeys where the
invariant holds: the whole record obeys it. -/
theorem Runs.past_holds (Inv : σ → Prop) (P : ρ → Prop) {r r' : Recorded σ ρ}
    (start : Inv r.state) (past : ∀ e ∈ r.past, P e)
    (keep : ∀ t a u, Inv t → ok t a → step t a = some u → Inv u)
    (each : ∀ t a, Inv t → ok t a → ∀ e ∈ records t a, P e)
    (h : Runs (recording step records) (fun r a => ok r.state a) r r') : ∀ e ∈ r'.past, P e := by
  have both : Inv r'.state ∧ ∀ e ∈ r'.past, P e := by
    induction h with
    | refl => exact ⟨start, past⟩
    | tail _ hok hstep ih =>
      obtain ⟨hstate, hpast⟩ := recording_eq_some hstep
      refine ⟨keep _ _ _ ih.1 hok hstate, fun e he => ?_⟩
      rw [hpast, List.mem_append] at he
      rcases he with hold | hnew
      · exact ih.2 e hold
      · exact each _ _ ih.1 hok e hnew
  exact both.2

end Stoop.Lib
