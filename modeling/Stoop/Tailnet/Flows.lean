import Mathlib.Data.List.Basic
import Stoop.Tailnet.Forward

/-!
# What a flow is closed for

In every run of the relay there are no more flows than the port may have, one for each peer, and each socket
opened is held or closed. A flow is closed for its own sake exactly in the runs whose drops each find the flow
they were made for, or none (`OwnDrop`); the pump of a flow dropped earlier, and the reaper with an address it
has noted, may find the peer's next flow there (`next_flow_closed`).
-/

set_option autoImplicit false

namespace Stoop.Tailnet

open Stoop.Lib

variable {κ : Type}

/-- A close whose cause is the socket's own, or the shutdown. -/
def Event.Own : Event → Prop
  | .closed host (.failed by_) => by_ = host
  | .closed host (.quiet by_) => by_ = host
  | .closed _ .raced => False
  | _ => True

instance (e : Event) : Decidable e.Own := by
  unfold Event.Own
  split <;> infer_instance

/-- Marking a flow as active changes no socket. -/
theorem UdpRelay.touch_hosts (r : UdpRelay κ) (host : Socket) (now : Int) :
    (r.touch host now).sessions.values.map (·.host) = r.sessions.values.map (·.host) := by
  change (r.sessions.list.map _).map _ = r.sessions.list.map _
  rw [List.map_map]
  refine List.map_congr_left fun s _ => ?_
  rw [Function.comp_apply]
  split <;> rfl

variable [DecidableEq κ]

theorem UdpRelay.get?_touch {r : UdpRelay κ} {src : κ} {host : Socket} {now : Int} {s : Session κ}
    (h : s ∈ (r.touch host now).sessions.get? src) : ∃ s' ∈ r.sessions.get? src, s.host = s'.host := by
  simp only [touch, Keyed.get?_map, Option.mem_def, Option.map_eq_some_iff] at h
  obtain ⟨s', hs', rfl⟩ := h
  refine ⟨s', hs', ?_⟩
  split <;> rfl

/-- A drop that finds the flow it is made for, or none. -/
def OwnDrop (r : UdpRelay κ) : Move κ → Prop
  | .pumpEnds src host => ∀ s ∈ r.sessions.get? src, s.host = host
  | .reap place => ∀ noted ∈ r.stale[place]?, ∀ s ∈ r.sessions.get? noted.key, s.host = noted.host
  | _ => True

instance (r : UdpRelay κ) (m : Move κ) : Decidable (OwnDrop r m) := by
  unfold OwnDrop
  split <;> infer_instance

namespace UdpRelay

variable {r r' : UdpRelay κ} {m : Move κ} {past : List Event} {key : κ}

theorem mem_dropped {cause : Cause} {e : Event} :
    e ∈ r.dropped key cause ↔ ∃ s ∈ r.sessions.get? key, e = .closed s.host cause := by
  simp [dropped, eq_comm]

/-- A flow is under its peer's address, or was dropped from it. -/
theorem held_drop {s : Session κ} (cause : Cause) (h : s ∈ r.sessions.values) :
    s ∈ (r.drop key).sessions.values ∨ .closed s.host cause ∈ r.dropped key cause := by
  by_cases hkey : s.key = key
  · refine .inr (mem_dropped.mpr ⟨s, ?_, rfl⟩)
    rw [← hkey]
    exact Keyed.mem_values.mp h
  · exact .inl (List.mem_filter.mpr ⟨h, bne_iff_ne.mpr hkey⟩)

/-- What holds of the relay and its record between any two steps. -/
structure Sound (r : UdpRelay κ) (past : List Event) : Prop where
  le : r.sessions.values.length ≤ maxSessionsPerPort
  opening : ∀ src, r.reader = .opening src →
    r.sessions.get? src = none ∧ r.sessions.values.length < maxSessionsPerPort
  own : ∀ src host, r.reader = .found src host ∨ r.reader = .writing src host →
    ∀ s ∈ r.sessions.get? src, s.host = host
  held : ∀ host, .opened host ∈ past →
    host ∈ r.sessions.values.map (·.host) ∨ ∃ cause, .closed host cause ∈ past
  noted : ∀ s ∈ r.stale, ∃ since, udpIdle < since ∧ .foundQuiet s.host since ∈ past
  quiet : ∀ host by_, .closed host (.quiet by_) ∈ past → ∃ since, udpIdle < since ∧ .foundQuiet by_ since ∈ past

theorem sound_new : Sound (newUDPRelay : UdpRelay κ) [] where
  le := Nat.zero_le _
  opening := nofun
  own := nofun
  held := fun _ h => absurd h List.not_mem_nil
  noted := fun _ h => absurd h List.not_mem_nil
  quiet := fun _ _ h => absurd h List.not_mem_nil

namespace Sound

/-- A step that opens and closes nothing, and leaves each peer's socket as it was or takes it away. -/
theorem quietly (h : Sound r past) (hevents : r.events m = [])
    (hhosts : r'.sessions.values.map (·.host) = r.sessions.values.map (·.host))
    (hopening : ∀ src, r'.reader = .opening src →
      r'.sessions.get? src = none ∧ r'.sessions.values.length < maxSessionsPerPort)
    (hown : ∀ src host, r'.reader = .found src host ∨ r'.reader = .writing src host →
      ∀ s ∈ r'.sessions.get? src, s.host = host)
    (hstale : r'.stale = r.stale) : Sound r' (past ++ r.events m) := by
  rw [hevents, List.append_nil]
  refine ⟨?_, hopening, hown, fun host hhost => ?_, ?_, h.quiet⟩
  · have hlength := congrArg List.length hhosts
    rw [List.length_map, List.length_map] at hlength
    exact hlength ▸ h.le
  · rw [hhosts]
    exact h.held host hhost
  · rw [hstale]
    exact h.noted

/-- A drop keeps what holds, whatever it is made for. -/
theorem drop (h : Sound r past) {cause : Cause} (hcause : ∀ by_, cause = .quiet by_ →
    ∃ since, udpIdle < since ∧ .foundQuiet by_ since ∈ past) (hsessions : r'.sessions = (r.drop key).sessions)
    (hreader : r'.reader = r.reader ∨ r'.reader = .reading) (hstale : r'.stale ⊆ r.stale) :
    Sound r' (past ++ r.dropped key cause) := by
  have hget : ∀ src s, s ∈ r'.sessions.get? src → s ∈ r.sessions.get? src := by
    intro src s hs
    rw [hsessions, UdpRelay.drop, Keyed.get?_filter_ne] at hs
    split at hs
    · cases hs
    · exact hs
  have hle : r'.sessions.values.length ≤ r.sessions.values.length := by
    rw [hsessions]
    exact List.length_filter_le _ _
  refine ⟨Nat.le_trans hle h.le, fun src hopening => ?_, fun src host hfound s hs => ?_, fun host hhost => ?_,
    fun s hs => ?_, fun host by_ hclosed => ?_⟩
  · rcases hreader with hreader | hreader
    · obtain ⟨hnone, hless⟩ := h.opening src (hreader ▸ hopening)
      refine ⟨Option.eq_none_iff_forall_not_mem.mpr fun s hs => ?_, Nat.lt_of_le_of_lt hle hless⟩
      cases hnone.symm.trans (hget src s hs)
    · cases hreader.symm.trans hopening
  · rcases hreader with hreader | hreader
    · exact h.own src host (hreader ▸ hfound) s (hget src s hs)
    · rw [hreader] at hfound
      rcases hfound with hfound | hfound <;> cases hfound
  · have hopened : .opened host ∈ past := by
      rcases List.mem_append.mp hhost with hold | hnew
      · exact hold
      · obtain ⟨s, -, hs⟩ := mem_dropped.mp hnew
        cases hs
    rcases h.held host hopened with hheld | ⟨cause', hclosed⟩
    · obtain ⟨s, hs, rfl⟩ := List.mem_map.mp hheld
      rcases @held_drop _ _ _ key _ cause hs with hstill | hgone
      · exact .inl (List.mem_map_of_mem (hsessions ▸ hstill))
      · exact .inr ⟨cause, List.mem_append_right _ hgone⟩
    · exact .inr ⟨cause', List.mem_append_left _ hclosed⟩
  · obtain ⟨since, hlong, hfound⟩ := h.noted s (hstale hs)
    exact ⟨since, hlong, List.mem_append_left _ hfound⟩
  · rcases List.mem_append.mp hclosed with hold | hnew
    · obtain ⟨since, hlong, hfound⟩ := h.quiet host by_ hold
      exact ⟨since, hlong, List.mem_append_left _ hfound⟩
    · obtain ⟨s, -, hs⟩ := mem_dropped.mp hnew
      obtain ⟨since, hlong, hfound⟩ := hcause by_ (by cases hs; rfl)
      exact ⟨since, hlong, List.mem_append_left _ hfound⟩

/-- The step of a flow marked as active. -/
theorem touch (h : Sound r past) (host : Socket) (now : Int) (hevents : r.events m = [])
    (hsessions : r'.sessions = (r.touch host now).sessions)
    (hopening : ∀ src, r'.reader = .opening src → r.reader = .opening src)
    (hown : ∀ src host, r'.reader = .found src host ∨ r'.reader = .writing src host →
      r.reader = .found src host ∨ r.reader = .writing src host)
    (hstale : r'.stale = r.stale) : Sound r' (past ++ r.events m) := by
  have hhosts := touch_hosts r host now
  refine h.quietly hevents (hsessions ▸ hhosts) (fun src hopen => ?_) (fun src host' hfound s hs => ?_) hstale
  · obtain ⟨hnone, hless⟩ := h.opening src (hopening src hopen)
    have hlength := congrArg List.length hhosts
    rw [List.length_map, List.length_map] at hlength
    rw [hsessions, hlength]
    refine ⟨Option.eq_none_iff_forall_not_mem.mpr fun s hs => ?_, hless⟩
    obtain ⟨s', hs', -⟩ := get?_touch hs
    exact nomatch hnone.symm.trans hs'
  · rw [hsessions] at hs
    obtain ⟨s', hs', hsame⟩ := get?_touch hs
    exact hsame.trans (h.own src host' (hown src host' hfound) s' hs')

/-- **The step law.** -/
theorem step (h : Sound r past) (hstep : r.step m = some r') : Sound r' (past ++ r.events m) := by
  cases m with
  | packet src =>
    simp only [UdpRelay.step] at hstep
    split at hstep
    next hreading =>
      cases hget : r.sessions.get? src with
      | some s =>
        rw [hget] at hstep
        obtain rfl := Option.some.inj hstep
        refine h.quietly rfl rfl (by rintro _ ⟨⟩) (fun src' host hfound s' hs' => ?_) rfl
        rcases hfound with hfound | hfound <;> cases hfound
        rw [hget] at hs'
        cases hs'
        rfl
      | none =>
        simp only [hget] at hstep
        split at hstep
        next =>
          obtain rfl := Option.some.inj hstep
          exact h.quietly rfl rfl h.opening h.own rfl
        next hroom =>
          obtain rfl := Option.some.inj hstep
          refine h.quietly rfl rfl (fun src' hopening => ?_) (fun _ _ hfound => by simp at hfound) rfl
          cases hopening
          exact ⟨hget, Nat.lt_of_not_le hroom⟩
    next => cases hstep
  | dial reached now =>
    simp only [UdpRelay.step] at hstep
    split at hstep
    next src hopening =>
      obtain ⟨hnone, hless⟩ := h.opening src hopening
      cases reached with
      | false =>
        obtain rfl := Option.some.inj hstep
        exact h.quietly rfl rfl (by rintro _ ⟨⟩) (fun _ _ hfound => by simp at hfound) rfl
      | true =>
        simp only [hnone, if_true] at hstep
        obtain rfl := Option.some.inj hstep
        have hevents : r.events (.dial true now) = [.opened r.opened] := by
          simp only [events, hopening, Keyed.has, hnone]
          rfl
        have hvalues : (r.sessions.set ⟨src, r.opened, now⟩).values =
            r.sessions.values ++ [⟨src, r.opened, now⟩] := Keyed.values_set_new hnone
        rw [hevents]
        refine ⟨?_, by rintro _ ⟨⟩, fun src' host hfound s hs => ?_, fun host hhost => ?_, fun s hs => ?_,
          fun host by_ hclosed => ?_⟩
        · rw [hvalues, List.length_append]
          exact hless
        · rcases hfound with hfound | hfound <;> cases hfound
          have hself := Keyed.get?_set_self r.sessions (⟨src, r.opened, now⟩ : Session κ)
          cases hself.symm.trans hs
          rfl
        · rw [hvalues, List.map_append, List.mem_append]
          rcases List.mem_append.mp hhost with hold | hnew
          · rcases h.held host hold with hheld | ⟨cause, hclosed⟩
            · exact .inl (.inl hheld)
            · exact .inr ⟨cause, List.mem_append_left _ hclosed⟩
          · cases List.mem_singleton.mp hnew
            exact .inl (.inr (List.mem_singleton_self _))
        · obtain ⟨since, hlong, hfound⟩ := h.noted s hs
          exact ⟨since, hlong, List.mem_append_left _ hfound⟩
        · rcases List.mem_append.mp hclosed with hold | hnew
          · obtain ⟨since, hlong, hfound⟩ := h.quiet host by_ hold
            exact ⟨since, hlong, List.mem_append_left _ hfound⟩
          · cases List.mem_singleton.mp hnew
    next => cases hstep
  | touch now =>
    simp only [UdpRelay.step] at hstep
    split at hstep
    next src host hfound =>
      obtain rfl := Option.some.inj hstep
      refine h.touch host now rfl rfl (by rintro _ ⟨⟩) (fun src' host' hwriting => ?_) rfl
      rcases hwriting with hwriting | hwriting <;> cases hwriting
      exact .inl hfound
    next => cases hstep
  | write sent =>
    simp only [UdpRelay.step] at hstep
    split at hstep
    next src host hwriting =>
      obtain rfl := Option.some.inj hstep
      cases sent with
      | true => exact h.quietly rfl rfl (by rintro _ ⟨⟩) (fun _ _ hfound => by simp at hfound) rfl
      | false =>
        have hevents : r.events (.write false) = r.dropped src (.failed host) := by
          simp only [events, hwriting]
        rw [hevents]
        exact h.drop (by rintro _ ⟨⟩) rfl (.inr rfl) (List.Subset.refl _)
    next => cases hstep
  | stop =>
    simp only [UdpRelay.step] at hstep
    split at hstep
    next =>
      obtain rfl := Option.some.inj hstep
      refine ⟨Nat.zero_le _, by rintro _ ⟨⟩, fun _ _ hfound => by simp at hfound, fun host hhost => ?_, fun s hs => ?_,
        fun host by_ hclosed => ?_⟩
      · rcases List.mem_append.mp hhost with hold | hnew
        · rcases h.held host hold with hheld | ⟨cause, hclosed⟩
          · obtain ⟨s, hs, rfl⟩ := List.mem_map.mp hheld
            exact .inr ⟨.shutdown, List.mem_append_right _ (List.mem_map.mpr ⟨s, hs, rfl⟩)⟩
          · exact .inr ⟨cause, List.mem_append_left _ hclosed⟩
        · obtain ⟨s, -, hs⟩ := List.mem_map.mp hnew
          cases hs
      · obtain ⟨since, hlong, hfound⟩ := h.noted s hs
        exact ⟨since, hlong, List.mem_append_left _ hfound⟩
      · rcases List.mem_append.mp hclosed with hold | hnew
        · obtain ⟨since, hlong, hfound⟩ := h.quiet host by_ hold
          exact ⟨since, hlong, List.mem_append_left _ hfound⟩
        · obtain ⟨s, -, hs⟩ := List.mem_map.mp hnew
          cases hs
    next => cases hstep
  | reply host now =>
    obtain ⟨-, ⟨⟩⟩ := Option.ite_none_right_eq_some.mp hstep
    exact h.touch host now rfl rfl (fun _ hopening => hopening) (fun _ _ hfound => hfound) rfl
  | pumpEnds src host =>
    obtain ⟨-, ⟨⟩⟩ := Option.ite_none_right_eq_some.mp hstep
    exact h.drop (by rintro _ ⟨⟩) rfl (.inl rfl) (List.Subset.refl _)
  | sweep now =>
    simp only [UdpRelay.step] at hstep
    split at hstep
    next =>
      obtain rfl := Option.some.inj hstep
      refine ⟨h.le, h.opening, h.own, fun host hhost => ?_, fun s hs => ?_, fun host by_ hclosed => ?_⟩
      · have hopened : .opened host ∈ past := by
          rcases List.mem_append.mp hhost with hold | hnew
          · exact hold
          · obtain ⟨s, -, hs⟩ := List.mem_map.mp hnew
            cases hs
        exact (h.held host hopened).imp_right fun hclosed =>
          hclosed.imp fun _ hin => List.mem_append_left _ hin
      · have hlong := of_decide_eq_true (List.mem_filter.mp hs).2
        exact ⟨now - s.last, hlong, List.mem_append_right _ (List.mem_map.mpr ⟨s, hs, rfl⟩)⟩
      · rcases List.mem_append.mp hclosed with hold | hnew
        · obtain ⟨since, hlong, hfound⟩ := h.quiet host by_ hold
          exact ⟨since, hlong, List.mem_append_left _ hfound⟩
        · obtain ⟨s, -, hs⟩ := List.mem_map.mp hnew
          cases hs
    next => cases hstep
  | reap place =>
    simp only [UdpRelay.step] at hstep
    split at hstep
    next => cases hstep
    next noted hnoted =>
      obtain rfl := Option.some.inj hstep
      have hevents : r.events (.reap place) = r.dropped noted.key (.quiet noted.host) := by
        simp only [events, hnoted]
      have hmem : noted ∈ r.stale := List.mem_of_getElem? hnoted
      rw [hevents]
      refine h.drop (fun by_ hby => ?_) rfl (.inl rfl) (List.eraseIdx_subset)
      cases hby
      exact h.noted noted hmem

/-- The closes of a step are each for the flow's own sake exactly where its drop finds the flow it is for. -/
theorem own_iff (h : Sound r past) (hstep : r.step m = some r') :
    (∀ e ∈ r.events m, e.Own) ↔ OwnDrop r m := by
  have hdropped : ∀ key by_, (∀ e ∈ r.dropped key (.failed by_), e.Own) ↔
      ∀ s ∈ r.sessions.get? key, s.host = by_ := by
    intro key by_
    constructor
    · exact fun hown s hs => (hown _ (mem_dropped.mpr ⟨s, hs, rfl⟩)).symm
    · intro hown e he
      obtain ⟨s, hs, rfl⟩ := mem_dropped.mp he
      exact (hown s hs).symm
  cases m with
  | packet | touch | reply =>
    exact iff_of_true (fun _ he => absurd he List.not_mem_nil) trivial
  | dial reached now =>
    refine iff_of_true (fun e he => ?_) trivial
    cases reached with
    | false => exact absurd he List.not_mem_nil
    | true =>
      simp only [events] at he
      split at he
      next src hopening =>
        have hnone := (h.opening src hopening).1
        simp only [Keyed.has, hnone, Option.isSome_none, Bool.false_eq_true, if_false,
          List.mem_singleton] at he
        subst he
        trivial
      next => exact absurd he List.not_mem_nil
  | write sent =>
    refine iff_of_true (fun e he => ?_) trivial
    cases sent with
    | true => exact absurd he List.not_mem_nil
    | false =>
      simp only [events] at he
      split at he
      next src host hwriting => exact (hdropped src host).mpr (h.own src host (.inr hwriting)) e he
      next => exact absurd he List.not_mem_nil
  | stop =>
    refine iff_of_true (fun e he => ?_) trivial
    obtain ⟨s, -, rfl⟩ := List.mem_map.mp he
    trivial
  | pumpEnds src host => exact hdropped src host
  | sweep now =>
    refine iff_of_true (fun e he => ?_) trivial
    obtain ⟨s, -, rfl⟩ := List.mem_map.mp he
    trivial
  | reap place =>
    simp only [events, OwnDrop]
    cases r.stale[place]? with
    | none => exact iff_of_true (fun _ he => absurd he List.not_mem_nil) (by rintro _ ⟨⟩)
    | some noted =>
      simp only [Option.mem_def, Option.some.injEq, forall_eq']
      constructor
      · exact fun hown s hs => (hown _ (mem_dropped.mpr ⟨s, hs, rfl⟩)).symm
      · intro hown e he
        obtain ⟨s, hs, rfl⟩ := mem_dropped.mp he
        exact (hown s hs).symm

end Sound

end UdpRelay

/-! ## Runs -/

open UdpRelay

/-- A run on the record, of steps that each satisfy a condition on the relay. -/
abbrev Reaches (ok : UdpRelay κ → Move κ → Prop) (t : Recorded (UdpRelay κ) Event) : Prop :=
  Runs (recording UdpRelay.step events) (fun t m => ok t.state m) ⟨newUDPRelay, []⟩ t

variable {t : Recorded (UdpRelay κ) Event}

theorem Reaches.sound (hrun : Reaches Always t) : Sound t.state t.past := by
  refine @Runs.keeps _ _ _ _ _ _ (fun t : Recorded (UdpRelay κ) Event => Sound t.state t.past) sound_new
    (fun t m u h _ hstep => ?_) hrun
  obtain ⟨hstate, hpast⟩ := recording_eq_some hstep
  rw [hpast]
  exact h.step hstate

/-- A run's closes are each for the flow's own sake exactly when each of its drops finds the flow it is for. -/
theorem Reaches.own_iff (hrun : Reaches Always t) : (∀ e ∈ t.past, e.Own) ↔ Reaches OwnDrop t := by
  constructor
  · intro hown
    induction hrun with
    | refl => exact .refl
    | tail hbefore _ hstep ih =>
      obtain ⟨hstate, hpast⟩ := recording_eq_some hstep
      rw [hpast] at hown
      have hok := ((Reaches.sound hbefore).own_iff hstate).mp fun e he => hown e (List.mem_append_right _ he)
      exact (ih fun e he => hown e (List.mem_append_left _ he)).tail hok hstep
  · intro hown
    induction hown with
    | refl => exact fun _ he => absurd he List.not_mem_nil
    | tail hbefore hok hstep ih =>
      obtain ⟨hstate, hpast⟩ := recording_eq_some hstep
      have halways : Reaches Always _ := hbefore.weaken fun _ _ _ => trivial
      intro e he
      rw [hpast, List.mem_append] at he
      rcases he with hold | hnew
      · exact ih halways e hold
      · exact (halways.sound.own_iff hstate).mpr hok e hnew

/-- **The relay's law.** In every run: no more flows than the port may have, one for each peer; each socket
opened is held or closed; what is closed as quiet was found quiet for longer than the idle time; and every close
is for the flow's own sake, or the shutdown's, exactly when each drop finds the flow it is made for, or none. -/
theorem relay_keeps_flows (hrun : Reaches Always t) :
    t.state.sessions.values.length ≤ maxSessionsPerPort ∧
      (t.state.sessions.values.map (·.key)).Nodup ∧
      (∀ host, .opened host ∈ t.past →
        host ∈ t.state.sessions.values.map (·.host) ∨ ∃ cause, .closed host cause ∈ t.past) ∧
      (∀ host by_, .closed host (.quiet by_) ∈ t.past →
        ∃ since, udpIdle < since ∧ .foundQuiet by_ since ∈ t.past) ∧
      ((∀ e ∈ t.past, e.Own) ↔ Reaches OwnDrop t) := by
  have hsound := hrun.sound
  exact ⟨hsound.le, t.state.sessions.nodup, hsound.held, hsound.quiet, hrun.own_iff⟩

/-- A peer's flow goes quiet and is reaped, its next packet opens another, and the pump of the first ends. -/
def nextFlow : List (Move String) :=
  [.packet "100.64.0.2:7", .dial true 0, .touch 0, .write true, .sweep 90000000001, .reap 0,
    .packet "100.64.0.2:7", .dial true 90000000002, .touch 90000000002, .write true, .pumpEnds "100.64.0.2:7" 0]

/-- The second flow is closed, for the first one's end. -/
theorem next_flow_closed : ∃ t : Recorded (UdpRelay String) Event,
    runList (recording UdpRelay.step events) ⟨newUDPRelay, []⟩ nextFlow = some t ∧
      t.past = [.opened 0, .foundQuiet 0 90000000001, .closed 0 (.quiet 0), .opened 1, .closed 1 (.failed 0)] ∧
      ¬∀ e ∈ t.past, e.Own := by
  refine ⟨_, rfl, ?_, ?_⟩ <;> decide

/-- Without that pump's end both flows are kept for their own time. -/
theorem nextFlow_held : ∃ t : Recorded (UdpRelay String) Event,
    runList (recording UdpRelay.step events) ⟨newUDPRelay, []⟩ nextFlow.dropLast = some t ∧
      t.state.sessions.values.map (·.host) = [1] ∧ Reaches OwnDrop t := by
  have hrun : ∃ t : Recorded (UdpRelay String) Event,
      runList (recording UdpRelay.step events) ⟨newUDPRelay, []⟩ nextFlow.dropLast = some t ∧
        t.state.sessions.values.map (·.host) = [1] ∧ ∀ e ∈ t.past, e.Own := by
    refine ⟨_, rfl, ?_, ?_⟩ <;> decide
  obtain ⟨t, ht, hheld, hown⟩ := hrun
  obtain ⟨-, -, -, -, hiff⟩ :=
    relay_keeps_flows (.ofList nextFlow.dropLast (.of_forall (fun _ _ _ => trivial) _) ht)
  exact ⟨t, ht, hheld, hiff.mp hown⟩

end Stoop.Tailnet
