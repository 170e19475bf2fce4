import Stoop.Files.Uploads

/-!
# An account's uploads stay inside its allowance

Two laws of the world of upload slots. Whatever comes between whatever, the server's count for an account is the number
of handlers it has at work, never over the limit, and an app with uploads waiting has every slot taken or about to be
(`slots_kept`). And an app that has its account to itself is never refused: no more of its uploads are out than the
server admits, and they start in the order they were asked for (`never_refused`).

The second needs more than one queue per account to be absent. An upload asked for between a slot coming free and the
waiter it woke going on takes that slot too, so the app must not ask then; and a handler left working for nobody holds a
slot its app no longer counts.
-/

set_option autoImplicit false

namespace Stoop.Files.Uploads

open Stoop.Lib

/-! ## Counting over the requests under way -/

theorem countP_erase_add {l : List Upload} {u : Upload} (p : Upload → Bool) (h : u ∈ l) :
    (l.erase u).countP p + (if p u then 1 else 0) = l.countP p := by
  rw [(List.perm_cons_erase h).countP_eq, List.countP_cons]

/-- Whether an upload is one `app` waits for. -/
def Upload.for (app : Nat) (u : Upload) : Bool := u.app == some app

/-- Whether an upload is one of `account`. -/
def Upload.of (account : Nat) (u : Upload) : Bool := u.account == account

theorem Upload.for_eq_true {app : Nat} {u : Upload} : u.for app = true ↔ u.app = some app := beq_iff_eq

/-- A request its app gave up on is nobody's. -/
theorem Upload.for_nobody (app : Nat) (u : Upload) : Upload.for app { u with app := none } = false := by
  simp [Upload.for]

/-- How many requests an app has started and not seen settle. -/
def World.live (w : World) (app : Nat) : Nat :=
  w.sent.countP (·.for app) + w.held.countP (·.for app) + w.answered.countP (·.for app)

/-! ## The three ways a queue moves -/

namespace Slots

variable {max app : Nat} {s s' : Slots} {u : Upload}

/-- The uploads asked for and not started, in the order they will be. -/
def pending (s : Slots) : List Upload := s.woken ++ s.waiting

theorem pending_settled : s.settled.pending = s.pending := by
  simp only [pending, Slots.settled, List.append_assoc, List.take_append_drop]

/-- What a queue keeps: its uploads are its own app's, and while any waits no slot is idle. -/
structure Fit (max app : Nat) (s : Slots) : Prop where
  owned : ∀ u ∈ s.pending, u.app = some app
  taken : s.waiting ≠ [] → max ≤ s.running + s.woken.length

theorem Fit.withUploadSlot (h : Fit max app s) (hu : u.app = some app) :
    Fit max app (s.withUploadSlot max u).1 := by
  unfold Slots.withUploadSlot
  split
  next hfull =>
    refine ⟨?_, fun _ => Nat.le_add_right_of_le hfull⟩
    intro v hv
    rw [pending, ← List.append_assoc, List.mem_append, List.mem_singleton] at hv
    rcases hv with hv | rfl
    · exact h.owned v hv
    · exact hu
  next =>
    refine ⟨h.owned, ?_⟩
    intro hwaiting
    have := h.taken hwaiting
    show max ≤ s.running + 1 + s.woken.length
    omega

theorem running_withUploadSlot :
    (s.withUploadSlot max u).1.running = s.running + (s.withUploadSlot max u).2.length := by
  unfold Slots.withUploadSlot
  split <;> rfl

theorem mem_withUploadSlot {v : Upload} (hv : v ∈ (s.withUploadSlot max u).2) : v = u := by
  unfold Slots.withUploadSlot at hv
  split at hv
  · cases hv
  · exact List.mem_singleton.mp hv

theorem mem_pending_withUploadSlot {v : Upload} (hv : v ∈ (s.withUploadSlot max u).1.pending) :
    v = u ∨ v ∈ s.pending := by
  unfold Slots.withUploadSlot at hv
  split at hv
  · rw [pending, ← List.append_assoc, List.mem_append, List.mem_singleton] at hv
    exact hv.symm
  · exact .inr hv

theorem bounded_withUploadSlot (hwoken : s.woken = []) (h : s.running ≤ max) :
    (s.withUploadSlot max u).1.running + (s.withUploadSlot max u).1.woken.length ≤ max := by
  unfold Slots.withUploadSlot
  split
  · simpa [hwoken] using h
  next hroom =>
    simp only [hwoken, List.length_nil]
    omega

/-- With nobody woken, uploads start in the order they are asked for: one starts at once only if none waits. -/
theorem Fit.ordered_withUploadSlot (h : Fit max app s) (hwoken : s.woken = []) :
    (s.withUploadSlot max u).2 ++ (s.withUploadSlot max u).1.pending = s.pending ++ [u] := by
  unfold Slots.withUploadSlot
  split
  · simp [pending]
  next hroom =>
    have hnone : s.waiting = [] := by
      by_contra hwaiting
      have := h.taken hwaiting
      rw [hwoken, List.length_nil] at this
      omega
    simp [pending, hwoken, hnone]

theorem resume_eq_some (h : s.resume = some (s', u)) :
    s.pending = u :: s'.pending ∧ s'.running + s'.woken.length = s.running + s.woken.length := by
  obtain ⟨running, waiting, woken⟩ := s
  cases woken with
  | nil => cases h
  | cons v rest =>
    obtain ⟨rfl, rfl⟩ := Prod.mk.inj (Option.some.inj h)
    refine ⟨rfl, ?_⟩
    simp only [List.length_cons]
    omega

theorem Fit.resume (h : Fit max app s) (hres : s.resume = some (s', u)) :
    Fit max app s' ∧ u.app = some app ∧ s'.running = s.running + 1 := by
  obtain ⟨running, waiting, woken⟩ := s
  cases woken with
  | nil => cases hres
  | cons v rest =>
    obtain ⟨rfl, rfl⟩ := Prod.mk.inj (Option.some.inj hres)
    refine ⟨⟨fun x hx => h.owned x (List.mem_cons_of_mem _ hx), ?_⟩, h.owned v List.mem_cons_self, rfl⟩
    intro hwaiting
    have := h.taken hwaiting
    simp only [List.length_cons] at this
    show max ≤ running + 1 + rest.length
    omega

theorem Fit.settled (h : Fit max app s) (hrun : 0 < s.running) : Fit max app s.settled := by
  refine ⟨fun u hu => h.owned u (pending_settled ▸ hu), ?_⟩
  obtain ⟨running, waiting, woken⟩ := s
  cases waiting with
  | nil => exact fun hwaiting => absurd rfl hwaiting
  | cons v rest =>
    intro _
    have hfull : max ≤ running + woken.length := h.taken (List.cons_ne_nil _ _)
    have hpos : 0 < running := hrun
    simp only [Slots.settled, List.take_succ_cons, List.take_zero, List.length_append, List.length_singleton]
    show max ≤ running - 1 + (woken.length + 1)
    omega

end Slots

/-! ## What holds whatever comes between whatever -/

/-- The two counters agree with what is under way, and no slot is idle while an upload waits for one. -/
structure Sound (max limit : Nat) (w : World) : Prop where
  limit_eq : w.inflight.limit = limit
  counted : ∀ account, w.inflight.count account = w.held.countP (·.of account)
  admitted : ∀ account, w.inflight.count account ≤ limit
  positive : w.inflight.Positive
  running : ∀ app, (w.slots app).running = w.live app
  fit : ∀ app, (w.slots app).Fit max app

variable {max limit : Nat} {w w' : World} {events : List Event} {u : Upload} {label : Label}

theorem Sound.start : Sound max limit (.start limit) where
  limit_eq := rfl
  counted _ := rfl
  admitted _ := Nat.zero_le _
  positive _ _ h := nomatch h
  running _ := rfl
  fit _ := ⟨fun _ h => (nomatch h), fun h => absurd rfl h⟩

theorem World.settleFor_apply (app : Nat) :
    w.settleFor u app = if u.app = some app then (w.slots app).settled else w.slots app := by
  unfold World.settleFor
  cases huser : u.app with
  | none => simp
  | some a =>
    by_cases ha : a = app
    · subst ha
      simp
    · simp [ha, Function.update_of_ne (Ne.symm ha)]

/-- A queue counts what its app has under way after a task of it settles, when that task was under way. -/
theorem Sound.settleFor (h : Sound max limit w) {live : Nat → Nat}
    (hlive : ∀ app, live app + (if u.for app then 1 else 0) = w.live app) (app : Nat) :
    (w.settleFor u app).running = live app ∧ (w.settleFor u app).Fit max app := by
  have happ := hlive app
  rw [World.settleFor_apply]
  by_cases hu : u.app = some app
  · rw [if_pos (Upload.for_eq_true.mpr hu), ← h.running app] at happ
    rw [if_pos hu]
    refine ⟨?_, (h.fit app).settled (by omega)⟩
    show (w.slots app).running - 1 = live app
    omega
  · rw [if_neg (mt Upload.for_eq_true.mp hu), ← h.running app] at happ
    rw [if_neg hu]
    exact ⟨happ.symm, h.fit app⟩

/-- A queue moves, and what it starts is sent. -/
theorem Sound.starting {app : Nat} {s : Slots} {now : List Upload} (h : Sound max limit w) (hfit : s.Fit max app)
    (hrun : s.running = (w.slots app).running + now.length) (hnow : ∀ v ∈ now, v.app = some app) :
    Sound max limit { w with slots := Function.update w.slots app s, sent := now ++ w.sent } := by
  have hcount : ∀ a, now.countP (·.for a) = if a = app then now.length else 0 := by
    intro a
    split
    next ha =>
      subst ha
      exact List.countP_eq_length.mpr fun v hv => Upload.for_eq_true.mpr (hnow v hv)
    next ha =>
      refine List.countP_eq_zero.mpr fun v hv hfor => ha ?_
      exact Option.some.inj ((Upload.for_eq_true.mp hfor).symm.trans (hnow v hv))
  refine { h with running := ?_, fit := ?_ }
  · intro a
    have hlive := h.running a
    simp only [World.live, List.countP_append, hcount a] at hlive ⊢
    by_cases ha : a = app
    · subst ha
      simp only [Function.update_self, if_true]
      omega
    · simp only [Function.update_of_ne ha, if_neg ha]
      omega
  · intro a
    by_cases ha : a = app
    · subst ha
      simpa only [Function.update_self] using hfit
    · simpa only [Function.update_of_ne ha] using h.fit a

/-- The server comes to a request: a slot is taken for it, or none was left. -/
theorem Sound.arrive (h : Sound max limit w) (hsent : u ∈ w.sent) (hact : w.act max (.arrive u) = some (w', events)) :
    Sound max limit w' := by
  have herase := fun app => countP_erase_add (·.for app) hsent
  simp only [World.act, if_pos hsent] at hact
  split at hact
  next inflight hacq =>
    obtain ⟨rfl, -⟩ := Prod.mk.inj (Option.some.inj hact)
    obtain ⟨hroom, hlimit, hcount⟩ := Inflight.acquire_eq_some hacq
    refine
      { limit_eq := hlimit.trans h.limit_eq, counted := ?_, admitted := ?_, positive := h.positive.acquire hacq
        running := ?_, fit := h.fit }
    · intro account
      rw [hcount, h.counted, List.countP_cons]
      simp only [Upload.of, beq_iff_eq]
    · intro account
      show inflight.count account ≤ limit
      have hbefore := h.admitted account
      have hlim := h.limit_eq
      rw [hcount]
      split
      next hk =>
        subst hk
        omega
      · exact hbefore
    · intro app
      have := herase app
      simp only [h.running app, World.live, List.countP_cons]
      omega
  next =>
    obtain ⟨rfl, -⟩ := Prod.mk.inj (Option.some.inj hact)
    refine { h with running := ?_ }
    intro app
    have := herase app
    simp only [h.running app, World.live, List.countP_cons]
    omega

/-- A handler returns. -/
theorem Sound.reply (h : Sound max limit w) (hheld : u ∈ w.held) :
    Sound max limit
      { w with inflight := w.inflight.release u.account, held := w.held.erase u, answered := u :: w.answered } where
  limit_eq := Inflight.release_limit.trans h.limit_eq
  counted account := by
    have herase := countP_erase_add (·.of account) hheld
    have hbefore := h.counted account
    simp only [Upload.of, beq_iff_eq] at herase hbefore ⊢
    rw [Inflight.count_release]
    omega
  admitted account := by
    rw [Inflight.count_release]
    exact Nat.le_trans (Nat.sub_le _ _) (h.admitted account)
  positive := h.positive.release
  running app := by
    have := countP_erase_add (·.for app) hheld
    simp only [h.running app, World.live, List.countP_cons]
    omega
  fit := h.fit

/-- Giving up on a request the server is at leaves the server's count where it was. -/
theorem Sound.abandon (h : Sound max limit w) (hheld : u ∈ w.held) :
    Sound max limit { w with slots := w.settleFor u, held := { u with app := none } :: w.held.erase u } := by
  have hlive : ∀ app, World.live
      { w with slots := w.settleFor u, held := { u with app := none } :: w.held.erase u } app +
        (if u.for app then 1 else 0) = w.live app := by
    intro app
    have := countP_erase_add (·.for app) hheld
    simp only [World.live, List.countP_cons, Upload.for_nobody, Bool.false_eq_true, if_false]
    omega
  refine { h with counted := ?_, running := fun app => (h.settleFor hlive app).1, fit := fun app => (h.settleFor hlive app).2 }
  intro account
  have herase := countP_erase_add (·.of account) hheld
  rw [h.counted, List.countP_cons, ← herase]
  rfl

/-- Every step keeps the counters and the queues. -/
theorem Sound.act (h : Sound max limit w) (hact : w.act max label = some (w', events)) : Sound max limit w' := by
  cases label with
  | call u =>
    simp only [World.act] at hact
    split at hact
    next huser =>
      obtain ⟨rfl, -⟩ := Prod.mk.inj (Option.some.inj hact)
      refine { h with running := ?_ }
      intro app
      have hnot : ¬u.for app = true := by simp [Upload.for, huser]
      simp only [h.running app, World.live, List.countP_cons_of_neg hnot]
    next app huser =>
      obtain ⟨rfl, -⟩ := Prod.mk.inj (Option.some.inj hact)
      exact h.starting ((h.fit app).withUploadSlot huser) Slots.running_withUploadSlot
        fun v hv => (Slots.mem_withUploadSlot hv).symm ▸ huser
  | resume app =>
    obtain ⟨⟨s, u⟩, hres, heq⟩ := Option.map_eq_some_iff.mp hact
    obtain ⟨rfl, -⟩ := Prod.mk.inj heq
    obtain ⟨hfit, huser, hrun⟩ := (h.fit app).resume hres
    show Sound max limit { w with slots := Function.update w.slots app s, sent := [u] ++ w.sent }
    refine h.starting hfit hrun ?_
    intro v hv
    exact List.mem_singleton.mp hv ▸ huser
  | arrive u =>
    by_cases hsent : u ∈ w.sent
    · exact h.arrive hsent hact
    · simp [World.act, hsent] at hact
  | reply u =>
    simp only [World.act] at hact
    split at hact
    next hheld =>
      obtain ⟨rfl, -⟩ := Prod.mk.inj (Option.some.inj hact)
      exact h.reply hheld
    · cases hact
  | settle u =>
    simp only [World.act] at hact
    split at hact
    next hans =>
      obtain ⟨rfl, -⟩ := Prod.mk.inj (Option.some.inj hact)
      have hlive : ∀ app, World.live { w with slots := w.settleFor u, answered := w.answered.erase u } app +
          (if u.for app then 1 else 0) = w.live app := by
        intro app
        have := countP_erase_add (·.for app) hans
        simp only [World.live]
        omega
      exact { h with running := fun app => (h.settleFor hlive app).1, fit := fun app => (h.settleFor hlive app).2 }
    · cases hact
  | lose u =>
    simp only [World.act] at hact
    split at hact
    next hsent =>
      obtain ⟨rfl, -⟩ := Prod.mk.inj (Option.some.inj hact)
      have hlive : ∀ app, World.live { w with slots := w.settleFor u, sent := w.sent.erase u } app +
          (if u.for app then 1 else 0) = w.live app := by
        intro app
        have := countP_erase_add (·.for app) hsent
        simp only [World.live]
        omega
      exact { h with running := fun app => (h.settleFor hlive app).1, fit := fun app => (h.settleFor hlive app).2 }
    · cases hact
  | abandon u =>
    simp only [World.act] at hact
    split at hact
    next hheld =>
      obtain ⟨rfl, -⟩ := Prod.mk.inj (Option.some.inj hact)
      exact h.abandon hheld
    split at hact
    next hsent =>
      obtain ⟨rfl, -⟩ := Prod.mk.inj (Option.some.inj hact)
      have hlive : ∀ app, World.live
          { w with slots := w.settleFor u, sent := { u with app := none } :: w.sent.erase u } app +
            (if u.for app then 1 else 0) = w.live app := by
        intro app
        have := countP_erase_add (·.for app) hsent
        simp only [World.live, List.countP_cons, Upload.for_nobody, Bool.false_eq_true, if_false]
        omega
      exact { h with running := fun app => (h.settleFor hlive app).1, fit := fun app => (h.settleFor hlive app).2 }
    · cases hact

/-- Every run keeps the counters and the queues. -/
theorem Sound.run {ok : Recorded World Event → Label → Prop} {r : Recorded World Event}
    (run : Runs (step max) ok ⟨.start limit, []⟩ r) : Sound max limit r.state := by
  refine @Runs.keeps _ _ _ _ _ _ (fun r => Sound max limit r.state) .start ?_ run
  intro r label r' h _ hstep
  obtain ⟨⟨w, events⟩, hact, rfl⟩ := Option.map_eq_some_iff.mp hstep
  exact h.act hact

/-! ## An app that has its account to itself -/

/-- The upload an event says `app` asked for. -/
def Event.calledBy (app : Nat) : Event → Option Upload
  | .called u => if u.app = some app then some u else none
  | .started _ | .refused _ => none

/-- The upload an event says `app` started. -/
def Event.startedBy (app : Nat) : Event → Option Upload
  | .started u => if u.app = some app then some u else none
  | .called _ | .refused _ => none

@[simp] theorem Event.startedBy_called (app : Nat) (u : Upload) : Event.startedBy app (.called u) = none := rfl

@[simp] theorem calledBy_started (app : Nat) (now : List Upload) :
    (now.map Event.started).filterMap (Event.calledBy app) = [] := by
  rw [List.filterMap_map, List.filterMap_eq_nil_iff]
  exact fun _ _ => rfl

theorem startedBy_started {app : Nat} {now : List Upload} (h : ∀ v ∈ now, v.app = some app) :
    (now.map Event.started).filterMap (Event.startedBy app) = now := by
  rw [List.filterMap_map]
  exact (List.filterMap_congr fun v hv => if_pos (h v hv)).trans (List.filterMap_some)

theorem startedBy_others {app : Nat} {now : List Upload} (h : ∀ v ∈ now, v.app ≠ some app) :
    (now.map Event.started).filterMap (Event.startedBy app) = [] := by
  rw [List.filterMap_map, List.filterMap_eq_nil_iff]
  exact fun v hv => if_neg (h v hv)

/-- A run's next label leaves `account` to `app`: nobody else uploads with it, `app` never asks for a slot while a
waiter it woke has yet to go on, and never gives up on one of its requests the server is at. -/
def Alone (app account : Nat) (r : Recorded World Event) : Label → Prop
  | .call u => (u.app = some app → (r.state.slots app).woken = []) ∧ (u.account = account → u.app = some app)
  | .abandon u => u.app = some app → u.account ≠ account
  | .resume _ | .arrive _ | .reply _ | .settle _ | .lose _ => True

instance Alone.decide (app account : Nat) (r : Recorded World Event) : (label : Label) →
    Decidable (Alone app account r label)
  | .call u => inferInstanceAs (Decidable
      ((u.app = some app → (r.state.slots app).woken = []) ∧ (u.account = account → u.app = some app)))
  | .abandon u => inferInstanceAs (Decidable (u.app = some app → u.account ≠ account))
  | .resume _ | .arrive _ | .reply _ | .settle _ | .lose _ => isTrue trivial

/-- What an app that has its account to itself keeps. -/
structure Apart (max app account : Nat) (r : Recorded World Event) : Prop where
  bounded : (r.state.slots app).running + (r.state.slots app).woken.length ≤ max
  queued : ∀ a, ∀ u ∈ (r.state.slots a).pending, u.account = account → u.app = some app
  sent : ∀ u ∈ r.state.sent, u.account = account → u.app = some app
  held : ∀ u ∈ r.state.held, u.account = account → u.app = some app
  unrefused : ∀ u, .refused u ∈ r.past → u.account ≠ account
  inOrder : r.past.filterMap (Event.startedBy app) ++ (r.state.slots app).pending =
    r.past.filterMap (Event.calledBy app)

variable {app account : Nat} {r r' : Recorded World Event}

theorem World.live_pos (hu : u ∈ w.sent ∨ u ∈ w.held ∨ u ∈ w.answered) (happ : u.app = some app) : 0 < w.live app := by
  have hpos : ∀ l : List Upload, u ∈ l → 0 < l.countP (·.for app) :=
    fun _ hl => List.countP_pos_iff.mpr ⟨u, hl, Upload.for_eq_true.mpr happ⟩
  unfold World.live
  rcases hu with hu | hu | hu <;> have := hpos _ hu <;> omega

theorem World.pending_settleFor (a : Nat) : (w.settleFor u a).pending = (w.slots a).pending := by
  rw [World.settleFor_apply]
  split
  · exact Slots.pending_settled
  · rfl

/-- What a queue has taken and will take does not grow as a task of it settles. -/
theorem Slots.bounded_settled {s : Slots} (h : s.running + s.woken.length ≤ max) (hrun : 0 < s.running) :
    s.settled.running + s.settled.woken.length ≤ max := by
  have htake : (s.waiting.take 1).length ≤ 1 := List.length_take_le 1 s.waiting
  simp only [Slots.settled, List.length_append]
  omega

theorem Apart.bounded_settleFor (h : Apart max app account r) (hsound : Sound max limit r.state)
    (hlive : u.app = some app → 0 < r.state.live app) :
    (r.state.settleFor u app).running + (r.state.settleFor u app).woken.length ≤ max := by
  rw [World.settleFor_apply]
  split
  next happ => exact Slots.bounded_settled h.bounded (hsound.running app ▸ hlive happ)
  · exact h.bounded

/-- A step that asks for nothing, starts nothing and refuses nothing. -/
theorem Apart.quiet (h : Apart max app account r) (hbounded : (w'.slots app).running + (w'.slots app).woken.length ≤ max)
    (hpending : ∀ a, (w'.slots a).pending = (r.state.slots a).pending)
    (hsent : ∀ u ∈ w'.sent, u.account = account → u.app = some app)
    (hheld : ∀ u ∈ w'.held, u.account = account → u.app = some app) :
    Apart max app account ⟨w', r.past ++ []⟩ where
  bounded := hbounded
  queued a := hpending a ▸ h.queued a
  sent := hsent
  held := hheld
  unrefused u hu := h.unrefused u (List.append_nil r.past ▸ hu)
  inOrder := by
    rw [List.append_nil, hpending app]
    exact h.inOrder

/-- **No refusal.** The account's handlers at work are all for uploads its one app has under way, and so is the request
that arrives: there are fewer handlers than the app has slots. -/
theorem Apart.admits (h : Apart max app account r) (hsound : Sound max limit r.state) (hmax : max ≤ limit)
    (hsent : u ∈ r.state.sent) (hfull : r.state.inflight.acquire u.account = none) : u.account ≠ account := by
  rintro rfl
  rw [Inflight.acquire_eq_none, hsound.limit_eq, hsound.counted] at hfull
  have hheld : r.state.held.countP (·.of u.account) ≤ r.state.held.countP (·.for app) := by
    refine List.countP_mono_left ?_
    intro v hv hof
    exact Upload.for_eq_true.mpr (h.held v hv (eq_of_beq hof))
  have harrives : 0 < r.state.sent.countP (·.for app) :=
    List.countP_pos_iff.mpr ⟨u, hsent, Upload.for_eq_true.mpr (h.sent u hsent rfl)⟩
  have hrun := hsound.running app
  have hbound := h.bounded
  unfold World.live at hrun
  omega

theorem Apart.call (h : Apart max app account r) (hsound : Sound max limit r.state)
    (hok : Alone app account r (.call u)) (hact : r.state.act max (.call u) = some (w', events)) :
    Apart max app account ⟨w', r.past ++ events⟩ := by
  obtain ⟨hwoken, hown⟩ := hok
  have hsent : ∀ now : List Upload, (∀ v ∈ now, v = u) → ∀ v ∈ now ++ r.state.sent, v.account = account →
      v.app = some app := by
    intro now hnow v hv
    rcases List.mem_append.mp hv with hv | hv
    · exact hnow v hv ▸ hown
    · exact h.sent v hv
  have hunrefused : ∀ more : List Upload, ∀ v, .refused v ∈ r.past ++ .called u :: more.map .started →
      v.account ≠ account := by
    intro more v hv
    exact h.unrefused v (by simpa using hv)
  simp only [World.act] at hact
  split at hact
  next huser =>
    obtain ⟨rfl, rfl⟩ := Prod.mk.inj (Option.some.inj hact)
    refine { h with sent := hsent [u] fun v hv => List.mem_singleton.mp hv, unrefused := hunrefused [u], inOrder := ?_ }
    simpa [Event.startedBy, Event.calledBy, List.filterMap_cons, huser] using h.inOrder
  next a huser =>
    obtain ⟨rfl, rfl⟩ := Prod.mk.inj (Option.some.inj hact)
    refine
      { bounded := ?_, queued := ?_, sent := hsent _ fun v hv => Slots.mem_withUploadSlot hv, held := h.held
        unrefused := hunrefused _, inOrder := ?_ }
    · by_cases ha : app = a
      · subst ha
        have hbefore := h.bounded
        rw [hwoken huser, List.length_nil, Nat.add_zero] at hbefore
        simp only [Function.update_self]
        exact Slots.bounded_withUploadSlot (hwoken huser) hbefore
      · simpa only [Function.update_of_ne ha] using h.bounded
    · intro b v hv
      by_cases hb : b = a
      · subst hb
        simp only [Function.update_self] at hv
        rcases Slots.mem_pending_withUploadSlot hv with rfl | hold
        · exact hown
        · exact h.queued b v hold
      · simp only [Function.update_of_ne hb] at hv
        exact h.queued b v hv
    · have hbefore := h.inOrder
      by_cases ha : app = a
      · subst ha
        have hcalled := (hsound.fit app).ordered_withUploadSlot (u := u) (hwoken huser)
        have hnow : ∀ v ∈ ((r.state.slots app).withUploadSlot max u).2, v.app = some app :=
          fun v hv => (Slots.mem_withUploadSlot hv).symm ▸ huser
        simp only [Function.update_self, List.filterMap_append, List.filterMap_cons, Event.startedBy_called,
          Event.calledBy, if_pos huser, startedBy_started hnow, calledBy_started, List.append_assoc, hcalled]
        rw [← List.append_assoc, hbefore]
      · have hother : ∀ v ∈ ((r.state.slots a).withUploadSlot max u).2, v.app ≠ some app := by
          intro v hv
          rw [Slots.mem_withUploadSlot hv, huser]
          exact fun heq => ha (Option.some.inj heq).symm
        have hnot : u.app ≠ some app := huser ▸ fun heq => ha (Option.some.inj heq).symm
        simp only [Function.update_of_ne ha, List.filterMap_append, List.filterMap_cons, Event.startedBy_called,
          Event.calledBy, if_neg hnot, startedBy_others hother, calledBy_started, List.append_nil]
        exact hbefore

theorem Apart.resume {a : Nat} (h : Apart max app account r) (hsound : Sound max limit r.state)
    (hact : r.state.act max (.resume a) = some (w', events)) :
    Apart max app account ⟨w', r.past ++ events⟩ := by
  obtain ⟨⟨s, u⟩, hres, heq⟩ := Option.map_eq_some_iff.mp hact
  obtain ⟨rfl, rfl⟩ := Prod.mk.inj heq
  obtain ⟨hpending, hcount⟩ := Slots.resume_eq_some hres
  have huser : u.app = some a := (hsound.fit a).owned u (hpending ▸ List.mem_cons_self)
  have hown := h.queued a u (hpending ▸ List.mem_cons_self)
  refine { bounded := ?_, queued := ?_, sent := ?_, held := h.held, unrefused := ?_, inOrder := ?_ }
  · by_cases ha : app = a
    · subst ha
      simp only [Function.update_self, hcount]
      exact h.bounded
    · simpa only [Function.update_of_ne ha] using h.bounded
  · intro b v hv
    by_cases hb : b = a
    · subst hb
      simp only [Function.update_self] at hv
      exact h.queued b v (hpending ▸ List.mem_cons_of_mem u hv)
    · simp only [Function.update_of_ne hb] at hv
      exact h.queued b v hv
  · intro v hv
    rcases List.mem_cons.mp hv with rfl | hv
    · exact hown
    · exact h.sent v hv
  · intro v hv
    exact h.unrefused v (by simpa using hv)
  · have hbefore := h.inOrder
    by_cases ha : app = a
    · subst ha
      simp only [Function.update_self, List.filterMap_append, List.filterMap_cons, List.filterMap_nil, Event.startedBy,
        Event.calledBy, if_pos huser, List.append_assoc, List.singleton_append, List.append_nil, ← hpending]
      exact hbefore
    · have hnot : u.app ≠ some app := huser ▸ fun heq => ha (Option.some.inj heq).symm
      simp only [Function.update_of_ne ha, List.filterMap_append, List.filterMap_cons, List.filterMap_nil,
        Event.startedBy, Event.calledBy, if_neg hnot, List.append_nil]
      exact hbefore

theorem Apart.arrive (h : Apart max app account r) (hsound : Sound max limit r.state) (hmax : max ≤ limit)
    (hact : r.state.act max (.arrive u) = some (w', events)) :
    Apart max app account ⟨w', r.past ++ events⟩ := by
  simp only [World.act] at hact
  split at hact
  next hsent =>
    have hrest : ∀ v ∈ r.state.sent.erase u, v.account = account → v.app = some app :=
      fun v hv => h.sent v (List.mem_of_mem_erase hv)
    split at hact
    next inflight hacq =>
      obtain ⟨rfl, rfl⟩ := Prod.mk.inj (Option.some.inj hact)
      refine h.quiet h.bounded (fun _ => rfl) hrest ?_
      intro v hv
      rcases List.mem_cons.mp hv with rfl | hv
      · exact h.sent v hsent
      · exact h.held v hv
    next hfull =>
      obtain ⟨rfl, rfl⟩ := Prod.mk.inj (Option.some.inj hact)
      have hother := h.admits hsound hmax hsent hfull
      refine { h with sent := hrest, unrefused := ?_, inOrder := ?_ }
      · intro v hv
        rcases List.mem_append.mp hv with hv | hv
        · exact h.unrefused v hv
        · obtain ⟨rfl⟩ := Event.refused.inj (List.mem_singleton.mp hv)
          exact hother
      · simpa [Event.startedBy, Event.calledBy, List.filterMap_cons] using h.inOrder
  · cases hact

/-- Every step `Alone` allows keeps the app apart. -/
theorem Apart.step (h : Apart max app account r) (hsound : Sound max limit r.state) (hmax : max ≤ limit)
    {label : Label} (hok : Alone app account r label) (hact : r.state.act max label = some (w', events)) :
    Apart max app account ⟨w', r.past ++ events⟩ := by
  cases label with
  | call u => exact h.call hsound hok hact
  | resume a => exact h.resume hsound hact
  | arrive u => exact h.arrive hsound hmax hact
  | reply u =>
    simp only [World.act] at hact
    split at hact
    · obtain ⟨rfl, rfl⟩ := Prod.mk.inj (Option.some.inj hact)
      exact h.quiet h.bounded (fun _ => rfl) h.sent fun v hv => h.held v (List.mem_of_mem_erase hv)
    · cases hact
  | settle u =>
    simp only [World.act] at hact
    split at hact
    next hans =>
      obtain ⟨rfl, rfl⟩ := Prod.mk.inj (Option.some.inj hact)
      refine h.quiet (h.bounded_settleFor hsound fun happ => ?_) World.pending_settleFor h.sent h.held
      exact World.live_pos (.inr (.inr hans)) happ
    · cases hact
  | lose u =>
    simp only [World.act] at hact
    split at hact
    next hsent =>
      obtain ⟨rfl, rfl⟩ := Prod.mk.inj (Option.some.inj hact)
      refine h.quiet (h.bounded_settleFor hsound fun happ => ?_) World.pending_settleFor
        (fun v hv => h.sent v (List.mem_of_mem_erase hv)) h.held
      exact World.live_pos (.inl hsent) happ
    · cases hact
  | abandon u =>
    simp only [World.act] at hact
    split at hact
    next hheld =>
      obtain ⟨rfl, rfl⟩ := Prod.mk.inj (Option.some.inj hact)
      refine h.quiet (h.bounded_settleFor hsound fun happ => ?_) World.pending_settleFor h.sent ?_
      · exact World.live_pos (.inr (.inl hheld)) happ
      · intro v hv hof
        rcases List.mem_cons.mp hv with rfl | hv
        · exact absurd hof (hok (h.held u hheld hof))
        · exact h.held v (List.mem_of_mem_erase hv) hof
    split at hact
    next hsent =>
      obtain ⟨rfl, rfl⟩ := Prod.mk.inj (Option.some.inj hact)
      refine h.quiet (h.bounded_settleFor hsound fun happ => ?_) World.pending_settleFor ?_ h.held
      · exact World.live_pos (.inl hsent) happ
      · intro v hv hof
        rcases List.mem_cons.mp hv with rfl | hv
        · exact absurd hof (hok (h.sent u hsent hof))
        · exact h.sent v (List.mem_of_mem_erase hv) hof
    · cases hact

theorem Apart.run (hmax : max ≤ limit) (run : Runs (Uploads.step max) (Alone app account) ⟨.start limit, []⟩ r) :
    Apart max app account r := by
  have hboth : Sound max limit r.state ∧ Apart max app account r := by
    refine @Runs.keeps _ _ _ _ _ _ (fun r => Sound max limit r.state ∧ Apart max app account r) ⟨.start, ?_⟩ ?_ run
    · exact ⟨Nat.zero_le _, fun _ _ h => (nomatch h), fun _ h => (nomatch h), fun _ h => (nomatch h),
        fun _ h => (nomatch h), rfl⟩
    · rintro r label r' ⟨hsound, h⟩ hok hstep
      obtain ⟨⟨w, events⟩, hact, rfl⟩ := Option.map_eq_some_iff.mp hstep
      exact ⟨hsound.act hact, h.step hsound hmax hok hact⟩
  exact hboth.2

/-! ## The two laws -/

/-- What the two counters are worth. -/
structure Kept (max limit : Nat) (w : World) : Prop where
  /-- The server has no more than `limit` handlers of an account at work, and an entry for it only while it has one. -/
  handlers : ∀ account, w.held.countP (·.of account) ≤ limit
  entries : ∀ account, (w.inflight.byKey.get? account).isSome = true ↔ ∃ u ∈ w.held, u.account = account
  /-- An app's `running` is what it has under way. -/
  running : ∀ app, (w.slots app).running = w.live app
  /-- Nothing waits beside an idle slot. -/
  awake : ∀ app, (w.slots app).waiting ≠ [] → max ≤ w.live app + (w.slots app).woken.length

/-- **The server's allowance and the queue's slots hold**, whatever comes between whatever. -/
theorem slots_kept {ok : Recorded World Event → Label → Prop}
    (run : Runs (Uploads.step max) ok ⟨.start limit, []⟩ r) : Kept max limit r.state := by
  have h := Sound.run run
  refine ⟨fun account => h.counted account ▸ h.admitted account, ?_, h.running, ?_⟩
  · intro account
    have hcount := h.counted account
    have hsome : (∃ u ∈ r.state.held, u.account = account) ↔ 0 < r.state.held.countP (·.of account) := by
      simp only [List.countP_pos_iff, Upload.of, beq_iff_eq]
    rw [hsome, ← hcount, Inflight.count]
    cases hget : r.state.inflight.byKey.get? account with
    | none => simp
    | some held => simpa using h.positive account held hget
  · intro app hwaiting
    exact h.running app ▸ (h.fit app).taken hwaiting

/-- Five uploads of one app, three of which start at once, beside one of another account with no queue. -/
def fiveUploads : List Label :=
  let mine := Upload.mk (some 0) 7
  [.call (mine 0), .call (mine 1), .call (mine 2), .call (mine 3), .call (mine 4), .call ⟨none, 8, 5⟩,
    .arrive (mine 2), .arrive ⟨none, 8, 5⟩, .arrive (mine 0), .arrive (mine 1), .reply (mine 0), .settle (mine 0),
    .resume 0, .arrive (mine 3), .reply (mine 2)]

theorem slots_kept_five : ∃ r, runList (step MAX_PARALLEL_UPLOADS) ⟨.start MaxInflightUploads, []⟩ fiveUploads = some r ∧
    Kept 3 3 r.state :=
  ⟨_, rfl, slots_kept (.ofList fiveUploads (.always _ _) rfl)⟩

/-- What an app that has its account to itself can count on. -/
structure Served (max app account : Nat) (r : Recorded World Event) : Prop where
  /-- No upload of the account was refused for want of a slot. -/
  admitted : ∀ u, u.account = account → .refused u ∉ r.past
  /-- No more of the app's uploads are under way than it has slots. -/
  bounded : r.state.live app ≤ max
  /-- They start in the order they were asked for, and none is lost. -/
  inOrder : r.past.filterMap (Event.startedBy app) ++ ((r.state.slots app).woken ++ (r.state.slots app).waiting) =
    r.past.filterMap (Event.calledBy app)

/-- **An app that has its account to itself is never refused.** -/
theorem never_refused (hmax : max ≤ limit)
    (run : Runs (Uploads.step max) (Alone app account) ⟨.start limit, []⟩ r) : Served max app account r := by
  have h := Apart.run hmax run
  refine ⟨fun u hof hrefused => h.unrefused u hrefused hof, ?_, h.inOrder⟩
  have hrun := (Sound.run run).running app
  have := h.bounded
  omega

theorem never_refused_five : ∃ r, runList (step MAX_PARALLEL_UPLOADS) ⟨.start MaxInflightUploads, []⟩ fiveUploads = some r ∧
    Served 3 0 7 r :=
  ⟨_, rfl, never_refused (Nat.le_refl 3) (.ofList fiveUploads (by decide) rfl)⟩

-- Asked for before the waiter a settled upload woke goes on, an upload takes its slot as well, and one of the two is refused.
example :
    let mine := Upload.mk (some 0) 7
    (runList (step MAX_PARALLEL_UPLOADS) ⟨.start MaxInflightUploads, []⟩
      [.call (mine 0), .call (mine 1), .call (mine 2), .call (mine 3), .arrive (mine 0), .arrive (mine 1), .arrive (mine 2),
        .reply (mine 0), .settle (mine 0), .call (mine 4), .resume 0, .arrive (mine 4), .arrive (mine 3)]).any
      (fun r => Event.refused (mine 3) ∈ r.past) = true := by
  decide

end Stoop.Files.Uploads
