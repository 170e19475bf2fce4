import Stoop.Voice.Rooms

/-!
# A call that is ended stays ended

Once the last room call for somebody's removal, or for a room's closing, has been made and repeated, they are out of the
room and no token of theirs admits them again, whatever came between the two calls: a token minted before and used
after, a handler that checked before and minted after, a room that was opened and closed again (`ended_for_good`).

What each denied place keeps is one of three things (`Outcome`): a call is still owed for it; a call is waiting to be
repeated, not before every token that could admit it is dead; or the repeat is done, and they are dead.
-/

set_option autoImplicit false

namespace Stoop.Voice

open Stoop.Lib

variable {lag gap : Nat} {w w' : World} {call : RoomCall} {label : Label}

/-- A run's next label: no handler mints more than `gap` seconds after it asked, a repeated call reaches the sidecar, and
no call is given up. -/
def Steady (gap : Nat) (w : World) : Label → Prop
  | .mintToken joining => w.now ≤ joining.since + gap
  | .repeatCall _ ok => ok = true
  | .drop _ | .stop => False
  | .tick _ | .addMember _ | .removeMember _ _ | .openVoice _ | .closeVoice _ | .isChannelMember _ | .isVoiceChannel _
  | .connect _ | .hangUp _ | .callRoom _ _ | .fire _ => True

instance Steady.decide (gap : Nat) (w : World) : (label : Label) → Decidable (Steady gap w label)
  | .mintToken joining => inferInstanceAs (Decidable (w.now ≤ joining.since + gap))
  | .repeatCall _ ok => inferInstanceAs (Decidable (ok = true))
  | .drop _ | .stop => isFalse id
  | .tick _ | .addMember _ | .removeMember _ _ | .openVoice _ | .closeVoice _ | .isChannelMember _ | .isVoiceChannel _
  | .connect _ | .hangUp _ | .callRoom _ _ | .fire _ => isTrue trivial

/-- What a call is made for: somebody is not a member, or a channel is not in use. -/
def World.Denies (w : World) : RoomCall → Prop
  | .removeParticipant place => place ∉ w.members
  | .closeRoom channel => channel ∉ w.voice

/-- Whether a handler is past the check that the rows behind a call now fail. -/
def RoomCall.past : RoomCall → Joining → Prop
  | .removeParticipant place, joining => place = joining.place
  | .closeRoom channel, joining => channel = joining.place.channel ∧ joining.isVoice = true

/-- No token admits anybody a call disconnects from `time` on, handed out or still to be minted. -/
structure DeadBy (lag gap : Nat) (w : World) (call : RoomCall) (time : Nat) : Prop where
  tokens : ∀ t ∈ w.tokens, call.disconnects t.place = true → t.expiresAt + lag ≤ time
  joining : ∀ j ∈ w.joining, call.past j → j.since + gap + TokenTTL + lag ≤ time

/-- How far ending a call has come. -/
inductive Outcome (lag gap : Nat) (w : World) (call : RoomCall) : Prop
  | owed (h : call ∈ w.owed)
  | waiting (due : Nat) (h : ⟨call, due⟩ ∈ w.repeats ++ w.repeating) (dead : DeadBy lag gap w call due)
  | finished (dead : DeadBy lag gap w call w.now) (out : ∀ place ∈ w.room, call.disconnects place = false)

/-- What every steady run keeps. -/
structure Sound (lag gap : Nat) (w : World) : Prop where
  asked : ∀ j ∈ w.joining, j.since ≤ w.now
  minted : ∀ t ∈ w.tokens, t.expiresAt ≤ w.now + TokenTTL
  soon : ∀ r ∈ w.repeats, r.due ≤ w.now + repeatDelay
  fired : ∀ r ∈ w.repeating, r.due ≤ w.now
  ends : ∀ call, w.Denies call → Outcome lag gap w call

theorem Sound.start : Sound lag gap .start where
  asked _ h := nomatch h
  minted _ h := nomatch h
  soon _ h := nomatch h
  fired _ h := nomatch h
  ends _ _ := .finished ⟨fun _ h => (nomatch h), fun _ h => (nomatch h)⟩ fun _ h => (nomatch h)

theorem DeadBy.mono {time time' : Nat} (h : DeadBy lag gap w call time) (hle : time ≤ time') :
    DeadBy lag gap w call time' where
  tokens t ht hd := Nat.le_trans (h.tokens t ht hd) hle
  joining j hj hp := Nat.le_trans (h.joining j hj hp) hle

/-- A call is dead by the time it is repeated: nobody past its check mints so late that the token outlives the wait. -/
theorem Sound.deadBy_repeat (h : Sound lag gap w) (hmargin : gap + lag ≤ repeatMargin) :
    DeadBy lag gap w call (w.now + repeatDelay) where
  tokens t ht _ := by
    have := h.minted t ht
    unfold repeatDelay
    omega
  joining j hj _ := by
    have := h.asked j hj
    unfold repeatDelay
    omega

/-- An outcome carries over a step that adds to what is owed and waiting, and admits nobody the call disconnects. -/
theorem Outcome.carry (h : Outcome lag gap w call) (hnow : w.now ≤ w'.now) (howed : call ∈ w.owed → call ∈ w'.owed)
    (hwait : ∀ due, ⟨call, due⟩ ∈ w.repeats ++ w.repeating → ⟨call, due⟩ ∈ w'.repeats ++ w'.repeating)
    (hdead : ∀ time, DeadBy lag gap w call time → DeadBy lag gap w' call time)
    (hroom : DeadBy lag gap w call w.now → (∀ place ∈ w.room, call.disconnects place = false) →
      ∀ place ∈ w'.room, call.disconnects place = false) :
    Outcome lag gap w' call := by
  cases h with
  | owed h => exact .owed (howed h)
  | waiting due h dead => exact .waiting due (hwait due h) (hdead due dead)
  | finished dead out => exact .finished ((hdead _ dead).mono hnow) (hroom dead out)

/-- What a call that reaches the sidecar leaves in the room. -/
theorem World.mem_disconnect {other : RoomCall} {ok : Bool} {place : Place} (h : place ∈ w.disconnect other ok) :
    place ∈ w.room := by
  unfold World.disconnect at h
  split at h
  · exact (List.mem_filter.mp h).1
  · exact h

/-! ## The steps that ask and mint -/

/-- Only a member's request is past its first check, and none of a denied place. -/
theorem Sound.ask {place : Place} (h : Sound lag gap w) (hmember : place ∈ w.members) :
    Sound lag gap { w with joining := ⟨place, w.now, false⟩ :: w.joining } where
  asked j hj := by
    rcases List.mem_cons.mp hj with rfl | hj
    · exact Nat.le_refl _
    · exact h.asked j hj
  minted := h.minted
  soon := h.soon
  fired := h.fired
  ends call hdenies := by
    refine (h.ends call hdenies).carry (Nat.le_refl _) id (fun _ hw => hw) ?_ fun _ out => out
    intro time dead
    refine ⟨dead.tokens, ?_⟩
    intro j hj hpast
    rcases List.mem_cons.mp hj with rfl | hj
    · cases call with
      | removeParticipant other => exact absurd hmember ((show other = place from hpast) ▸ hdenies)
      | closeRoom channel => exact absurd hpast.2 Bool.false_ne_true
    · exact dead.joining j hj hpast

/-- A handler goes on only in a channel in use. -/
theorem Sound.askVoice {joining : Joining} (h : Sound lag gap w) (hin : joining ∈ w.joining)
    (hvoice : joining.place.channel ∈ w.voice) :
    Sound lag gap { w with joining := { joining with isVoice := true } :: w.joining.erase joining } where
  asked j hj := by
    rcases List.mem_cons.mp hj with rfl | hj
    · exact h.asked joining hin
    · exact h.asked j (List.mem_of_mem_erase hj)
  minted := h.minted
  soon := h.soon
  fired := h.fired
  ends call hdenies := by
    refine (h.ends call hdenies).carry (Nat.le_refl _) id (fun _ hw => hw) ?_ fun _ out => out
    intro time dead
    refine ⟨dead.tokens, ?_⟩
    intro j hj hpast
    rcases List.mem_cons.mp hj with rfl | hj
    · cases call with
      | removeParticipant other => exact dead.joining joining hin hpast
      | closeRoom channel => exact absurd hvoice (hpast.1 ▸ hdenies)
    · exact dead.joining j (List.mem_of_mem_erase hj) hpast

theorem Sound.fewerJoining {joining : List Joining} (h : Sound lag gap w) (hsub : ∀ j ∈ joining, j ∈ w.joining) :
    Sound lag gap { w with joining } where
  asked j hj := h.asked j (hsub j hj)
  minted := h.minted
  soon := h.soon
  fired := h.fired
  ends call hdenies := (h.ends call hdenies).carry (Nat.le_refl _) id (fun _ hw => hw)
    (fun _ dead => ⟨dead.tokens, fun j hj => dead.joining j (hsub j hj)⟩) fun _ out => out

/-- A token a call disconnects is of a handler past the check the call is for. -/
theorem RoomCall.past_of_disconnects {joining : Joining} (hvoice : joining.isVoice = true)
    (h : call.disconnects joining.place = true) : call.past joining := by
  cases call with
  | removeParticipant place => exact eq_of_beq h
  | closeRoom channel => exact ⟨eq_of_beq h, hvoice⟩

theorem Sound.mint {joining : Joining} (h : Sound lag gap w) (hin : joining ∈ w.joining) (hvoice : joining.isVoice = true)
    (hgap : w.now ≤ joining.since + gap) :
    Sound lag gap { w with
      joining := w.joining.erase joining
      tokens := ⟨joining.place, w.now + TokenTTL⟩ :: w.tokens } where
  asked j hj := h.asked j (List.mem_of_mem_erase hj)
  minted t ht := by
    rcases List.mem_cons.mp ht with rfl | ht
    · exact Nat.le_refl _
    · exact h.minted t ht
  soon := h.soon
  fired := h.fired
  ends call hdenies := by
    refine (h.ends call hdenies).carry (Nat.le_refl _) id (fun _ hw => hw) ?_ fun _ out => out
    intro time dead
    refine ⟨?_, fun j hj => dead.joining j (List.mem_of_mem_erase hj)⟩
    intro t ht hdis
    rcases List.mem_cons.mp ht with rfl | ht
    · have := dead.joining joining hin (RoomCall.past_of_disconnects hvoice hdis)
      show w.now + TokenTTL + lag ≤ time
      omega
    · exact dead.tokens t ht hdis

/-- Nobody a call has ended comes in on a token. -/
theorem Sound.connect {token : Token} (h : Sound lag gap w) (hin : token ∈ w.tokens)
    (hlive : w.now < token.expiresAt + lag) : Sound lag gap { w with room := token.place :: w.room } where
  asked := h.asked
  minted := h.minted
  soon := h.soon
  fired := h.fired
  ends call hdenies := by
    refine (h.ends call hdenies).carry (Nat.le_refl _) id (fun _ hw => hw) (fun _ dead => ⟨dead.tokens, dead.joining⟩) ?_
    intro dead out place hplace
    rcases List.mem_cons.mp hplace with rfl | hplace
    · cases hdis : call.disconnects token.place with
      | false => rfl
      | true => exact absurd (dead.tokens token hin hdis) (Nat.not_le_of_lt hlive)
    · exact out place hplace

/-! ## The steps that change rows and make calls -/

/-- Rows change, and a call is owed for whatever they deny that they did not before. -/
theorem Sound.rows {members : List Place} {voice : List Nat} {more : List RoomCall} (h : Sound lag gap w)
    (hdenies : ∀ call, World.Denies { w with members, voice } call → w.Denies call ∨ call ∈ more) :
    Sound lag gap { w with members, voice, owed := w.owed ++ more } where
  asked := h.asked
  minted := h.minted
  soon := h.soon
  fired := h.fired
  ends call hdenied := by
    rcases hdenies call hdenied with hbefore | hmore
    · exact (h.ends call hbefore).carry (Nat.le_refl _) (fun howed => List.mem_append_left more howed) (fun _ hw => hw)
        (fun _ dead => ⟨dead.tokens, dead.joining⟩) fun _ out => out
    · exact .owed (List.mem_append_right w.owed hmore)

/-- A call is made, and its repeat waits. -/
theorem Sound.callRoom (h : Sound lag gap w) (hmargin : gap + lag ≤ repeatMargin) (made : RoomCall) (ok : Bool) :
    Sound lag gap { w with
      owed := w.owed.erase made
      room := w.disconnect made ok
      repeats := ⟨made, w.now + repeatDelay⟩ :: w.repeats } where
  asked := h.asked
  minted := h.minted
  soon r hr := by
    rcases List.mem_cons.mp hr with rfl | hr
    · exact Nat.le_refl _
    · exact h.soon r hr
  fired := h.fired
  ends call hdenies := by
    by_cases hmade : call = made
    · subst hmade
      have dead : DeadBy lag gap w call (w.now + repeatDelay) := h.deadBy_repeat hmargin
      exact .waiting (w.now + repeatDelay) List.mem_cons_self ⟨dead.tokens, dead.joining⟩
    · refine (h.ends call hdenies).carry (Nat.le_refl _) ?_ ?_ (fun _ dead => ⟨dead.tokens, dead.joining⟩) ?_
      · exact fun howed => (List.mem_erase_of_ne hmade).mpr howed
      · exact fun due hw => List.mem_cons_of_mem _ hw
      · exact fun _ out place hplace => out place (World.mem_disconnect hplace)

/-- A repeat's timer fires: it is on its way, unless its room is in use again, which no denied call's is. -/
theorem Sound.fire {rep : Repeat} (h : Sound lag gap w) (hin : rep ∈ w.repeats) (hdue : rep.due ≤ w.now)
    (hstep : w.step lag (.fire rep) = some w') : Sound lag gap w' := by
  simp only [World.step, if_pos (And.intro hin hdue)] at hstep
  split at hstep
  next hopen =>
    obtain rfl := Option.some.inj hstep
    refine { h with soon := fun r hr => h.soon r (List.mem_of_mem_erase hr), ends := ?_ }
    intro call hdenies
    refine (h.ends call hdenies).carry (Nat.le_refl _) id ?_ (fun _ dead => ⟨dead.tokens, dead.joining⟩) fun _ out => out
    intro due hwait
    have hne : (⟨call, due⟩ : Repeat) ≠ rep := by
      rintro rfl
      cases call with
      | removeParticipant place => exact absurd hopen Bool.false_ne_true
      | closeRoom channel => exact hdenies (of_decide_eq_true hopen)
    rcases List.mem_append.mp hwait with hwait | hwait
    · exact List.mem_append_left _ ((List.mem_erase_of_ne hne).mpr hwait)
    · exact List.mem_append_right _ hwait
  next =>
    obtain rfl := Option.some.inj hstep
    refine { h with soon := fun r hr => h.soon r (List.mem_of_mem_erase hr), fired := ?_, ends := ?_ }
    · intro r hr
      rcases List.mem_cons.mp hr with rfl | hr
      · exact hdue
      · exact h.fired r hr
    · intro call hdenies
      refine (h.ends call hdenies).carry (Nat.le_refl _) id ?_ (fun _ dead => ⟨dead.tokens, dead.joining⟩) fun _ out => out
      intro due hwait
      by_cases heq : (⟨call, due⟩ : Repeat) = rep
      · exact List.mem_append_right _ (heq ▸ List.mem_cons_self)
      · rcases List.mem_append.mp hwait with hwait | hwait
        · exact List.mem_append_left _ ((List.mem_erase_of_ne heq).mpr hwait)
        · exact List.mem_append_right _ (List.mem_cons_of_mem _ hwait)

/-- A call is repeated: it is not before every token that could admit whom it disconnects is dead. -/
theorem Sound.repeatCall {rep : Repeat} (h : Sound lag gap w) (hin : rep ∈ w.repeating) :
    Sound lag gap { w with repeating := w.repeating.erase rep, room := w.disconnect rep.call true } := by
  refine { h with fired := fun r hr => h.fired r (List.mem_of_mem_erase hr), ends := ?_ }
  intro call hdenies
  have hsub : ∀ place ∈ w.disconnect rep.call true, place ∈ w.room := fun place hplace => World.mem_disconnect hplace
  cases h.ends call hdenies with
  | owed howed => exact .owed howed
  | finished dead out => exact .finished ⟨dead.tokens, dead.joining⟩ fun place hplace => out place (hsub place hplace)
  | waiting due hwait dead =>
    by_cases heq : (⟨call, due⟩ : Repeat) = rep
    · subst heq
      have hnow : DeadBy lag gap w call w.now := dead.mono (h.fired _ hin)
      refine .finished ⟨hnow.tokens, hnow.joining⟩ ?_
      intro place hplace
      simpa using (List.mem_filter.mp hplace).2
    · refine .waiting due ?_ ⟨dead.tokens, dead.joining⟩
      rcases List.mem_append.mp hwait with hwait | hwait
      · exact List.mem_append_left _ hwait
      · exact List.mem_append_right _ ((List.mem_erase_of_ne heq).mpr hwait)

theorem Sound.tick (h : Sound lag gap w) (seconds : Nat) : Sound lag gap { w with now := w.now + seconds } where
  asked j hj := Nat.le_add_right_of_le (h.asked j hj)
  minted t ht := by
    have := h.minted t ht
    show t.expiresAt ≤ w.now + seconds + TokenTTL
    omega
  soon r hr := by
    have := h.soon r hr
    show r.due ≤ w.now + seconds + repeatDelay
    omega
  fired r hr := Nat.le_add_right_of_le (h.fired r hr)
  ends call hdenies := (h.ends call hdenies).carry (Nat.le_add_right _ _) id (fun _ hw => hw)
    (fun _ dead => ⟨dead.tokens, dead.joining⟩) fun _ out => out

theorem Sound.hangUp (h : Sound lag gap w) (place : Place) : Sound lag gap { w with room := w.room.erase place } :=
  { h with
    ends := fun call hdenies => (h.ends call hdenies).carry (Nat.le_refl _) id (fun _ hw => hw)
      (fun _ dead => ⟨dead.tokens, dead.joining⟩) fun _ out p hp => out p (List.mem_of_mem_erase hp) }

/-- Every steady step keeps what it takes for calls to end. -/
theorem Sound.step (h : Sound lag gap w) (hmargin : gap + lag ≤ repeatMargin) (hok : Steady gap w label)
    (hstep : w.step lag label = some w') : Sound lag gap w' := by
  cases label with
  | tick seconds =>
    obtain rfl := Option.some.inj hstep
    exact h.tick seconds
  | addMember place =>
    obtain rfl := Option.some.inj hstep
    refine { h with ends := fun call hdenies => ?_ }
    have hbefore : w.Denies call := by
      cases call with
      | removeParticipant other => exact fun hin => hdenies (List.mem_cons_of_mem place hin)
      | closeRoom channel => exact hdenies
    exact (h.ends call hbefore).carry (Nat.le_refl _) id (fun _ hw => hw) (fun _ dead => ⟨dead.tokens, dead.joining⟩)
      fun _ out => out
  | removeMember user channels =>
    obtain rfl := Option.some.inj hstep
    refine h.rows fun call hdenied => ?_
    cases call with
    | closeRoom channel => exact .inl hdenied
    | removeParticipant place =>
      by_cases hin : place ∈ w.members
      · have hgone : place.user = user ∧ place.channel ∈ channels := by
          simpa [World.Denies, hin] using hdenied
        exact .inr (List.mem_map.mpr ⟨place.channel, hgone.2, by rw [← hgone.1]⟩)
      · exact .inl hin
  | openVoice channels =>
    obtain rfl := Option.some.inj hstep
    refine { h with ends := fun call hdenies => ?_ }
    have hbefore : w.Denies call := by
      cases call with
      | removeParticipant other => exact hdenies
      | closeRoom channel => exact fun hin => hdenies (List.mem_append_right channels hin)
    exact (h.ends call hbefore).carry (Nat.le_refl _) id (fun _ hw => hw) (fun _ dead => ⟨dead.tokens, dead.joining⟩)
      fun _ out => out
  | closeVoice channels =>
    obtain rfl := Option.some.inj hstep
    refine h.rows fun call hdenied => ?_
    cases call with
    | removeParticipant place => exact .inl hdenied
    | closeRoom channel =>
      by_cases hin : channel ∈ w.voice
      · have hgone : channel ∈ channels := by simpa [World.Denies, hin] using hdenied
        exact .inr (List.mem_map_of_mem hgone)
      · exact .inl hin
  | isChannelMember place =>
    simp only [World.step] at hstep
    split at hstep
    next hmember =>
      obtain rfl := Option.some.inj hstep
      exact h.ask hmember
    · cases hstep
  | isVoiceChannel joining =>
    simp only [World.step] at hstep
    split at hstep
    next hin =>
      split at hstep
      next hvoice =>
        obtain rfl := Option.some.inj hstep
        exact h.askVoice hin hvoice
      next =>
        obtain rfl := Option.some.inj hstep
        exact h.fewerJoining fun j hj => List.mem_of_mem_erase hj
    · cases hstep
  | mintToken joining =>
    simp only [World.step] at hstep
    split at hstep
    next hin =>
      obtain rfl := Option.some.inj hstep
      exact h.mint hin.1 hin.2 hok
    · cases hstep
  | connect token =>
    simp only [World.step] at hstep
    split at hstep
    next hin =>
      obtain rfl := Option.some.inj hstep
      exact h.connect hin.1 hin.2
    · cases hstep
  | hangUp place =>
    obtain rfl := Option.some.inj hstep
    exact h.hangUp place
  | callRoom made ok =>
    simp only [World.step] at hstep
    split at hstep
    next =>
      obtain rfl := Option.some.inj hstep
      exact h.callRoom hmargin made ok
    · cases hstep
  | fire rep =>
    by_cases hin : rep ∈ w.repeats ∧ rep.due ≤ w.now
    · exact h.fire hin.1 hin.2 hstep
    · simp [World.step, hin] at hstep
  | repeatCall rep ok =>
    obtain rfl : ok = true := hok
    simp only [World.step] at hstep
    split at hstep
    next hin =>
      obtain rfl := Option.some.inj hstep
      exact h.repeatCall hin
    · cases hstep
  | drop made => exact hok.elim
  | stop => exact hok.elim

theorem Sound.run (hmargin : gap + lag ≤ repeatMargin) (run : Runs (World.step lag) (Steady gap) .start w) :
    Sound lag gap w :=
  run.keeps .start fun _ _ _ h hok hstep => h.step hmargin hok hstep

/-! ## The law -/

/-- Every call made for it has been made again. -/
def World.Settled (w : World) (call : RoomCall) : Prop :=
  call ∉ w.owed ∧ ∀ r ∈ w.repeats ++ w.repeating, r.call ≠ call

/-- What ending a call comes to. -/
structure Ended (lag : Nat) (w : World) : Prop where
  /-- Somebody who is not a member, once the calls for it are settled: out of the room, and no token admits them. -/
  removed : ∀ place, place ∉ w.members → w.Settled (.removeParticipant place) →
    place ∉ w.room ∧ ∀ t ∈ w.tokens, t.place = place → t.expiresAt + lag ≤ w.now
  /-- A channel that is not in use, once the calls for it are settled: an empty room, which no token opens. -/
  closed : ∀ channel, channel ∉ w.voice → w.Settled (.closeRoom channel) →
    ∀ place, place.channel = channel → place ∉ w.room ∧ ∀ t ∈ w.tokens, t.place = place → t.expiresAt + lag ≤ w.now
  /-- A call is settled soon: its repeat is due within `repeatDelay` of it. -/
  soon : ∀ r ∈ w.repeats, r.due ≤ w.now + repeatDelay

theorem Outcome.ended (h : Outcome lag gap w call) (hsettled : w.Settled call) {place : Place}
    (hplace : call.disconnects place = true) :
    place ∉ w.room ∧ ∀ t ∈ w.tokens, t.place = place → t.expiresAt + lag ≤ w.now := by
  cases h with
  | owed howed => exact absurd howed hsettled.1
  | waiting due hwait dead => exact absurd rfl (hsettled.2 _ hwait)
  | finished dead out =>
    refine ⟨fun hin => Bool.false_ne_true ((out place hin).symm.trans hplace), ?_⟩
    rintro t ht rfl
    exact dead.tokens t ht hplace

/-- **A call that is ended stays ended.** -/
theorem ended_for_good (hmargin : gap + lag ≤ repeatMargin) (run : Runs (World.step lag) (Steady gap) .start w) :
    Ended lag w := by
  have h := Sound.run hmargin run
  refine ⟨?_, ?_, h.soon⟩
  · intro place hout hsettled
    exact (h.ends (.removeParticipant place) hout).ended hsettled (beq_self_eq_true place)
  · intro channel hout hsettled place hchannel
    exact (h.ends (.closeRoom channel) hout).ended hsettled (beq_iff_eq.mpr hchannel.symm)

/-- Kicked a minute into a call, somebody comes back on the token they have, and is put out once it is dead. -/
def kicked : List Label :=
  let place := Place.mk 1 7
  [.addMember place, .openVoice [1], .isChannelMember place, .isVoiceChannel ⟨place, 0, false⟩,
    .mintToken ⟨place, 0, true⟩, .connect ⟨place, 90⟩, .tick 60, .removeMember 7 [1],
    .callRoom (.removeParticipant place) true, .connect ⟨place, 90⟩, .tick 105, .fire ⟨.removeParticipant place, 165⟩,
    .repeatCall ⟨.removeParticipant place, 165⟩ true]

theorem ended_for_good_kicked : ∃ w, runList (World.step 5) .start kicked = some w ∧ ⟨1, 7⟩ ∉ w.members ∧ Ended 5 w :=
  ⟨_, rfl, by decide, @ended_for_good 5 10 _ (by decide) (.ofList kicked (by decide) rfl)⟩

-- The margin is all a sidecar's clock may be behind by: past it, a token minted just before still admits after the repeat.
example :
    let place := Place.mk 1 7
    ((runList (World.step 16) .start [.addMember place, .openVoice [1], .isChannelMember place,
      .isVoiceChannel ⟨place, 0, false⟩, .mintToken ⟨place, 0, true⟩, .removeMember 7 [1],
      .callRoom (.removeParticipant place) true, .tick 105, .fire ⟨.removeParticipant place, 105⟩,
      .repeatCall ⟨.removeParticipant place, 105⟩ true, .connect ⟨place, 90⟩]).any fun w => place ∈ w.room) = true := by
  decide

-- A removal repeats whatever has come since: somebody let back in, and in the call again, is put out of it.
example :
    let place := Place.mk 1 7
    ((runList (World.step 5) .start (kicked.take 9 ++ [.addMember place, .connect ⟨place, 90⟩, .tick 105,
      .fire ⟨.removeParticipant place, 165⟩, .repeatCall ⟨.removeParticipant place, 165⟩ true])).any fun w =>
        place ∈ w.members ∧ place ∉ w.room) = true := by
  decide

end Stoop.Voice
