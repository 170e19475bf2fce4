import Stoop.Events.Mirror

/-!
# What the bus delivers

A run leaves a record of its calls, of the events its subscribers took and of the subscriptions it dropped.
From the calls alone it can be told what a subscription should have had: while it is open, each event published
to a topic it holds, in order (`Holds`). What a subscription that was not dropped has received, and what its
channel still has, is that (`bus_law`).

A closed subscription keeps the set of its topics, and only `Has` knows not to look at it: the two indexes
agree of open ones (`closed_keeps_topics`).
-/

set_option autoImplicit false

namespace Stoop.Events

open Stoop.Lib

variable {τ ε : Type}

/-! ## The record -/

/-- What happens on a bus. -/
inductive Happened (τ ε : Type)
  | subscribed (id : Nat) (own : List τ)
  | added (id : Nat) (topic : τ)
  | removed (id : Nat) (topic : τ)
  | closed (id : Nat)
  | published (topic : τ) (ev : ε)
  | received (id : Nat) (ev : ε)
  | dropped (id : Nat)
  deriving DecidableEq, Repr

/-- What a call puts on the record: a publish, whom it finds with a full buffer. -/
def records (b : InProcBus τ ε) : Call τ ε → List (Happened τ ε)
  | .subscribe id own => [.subscribed id own]
  | .add id topic => [.added id topic]
  | .remove id topic => [.removed id topic]
  | .close id => [.closed id]
  | .publish topic ev walk =>
    .published topic ev :: (walk.filter fun id => (b.subs.get? id).any (·.full)).map .dropped
  | .receive id => ((b.subs.get? id).bind fun sub => sub.ch.buffer.head?).toList.map (.received id)

/-- What a subscriber took, in order. -/
def received (id : Nat) (past : List (Happened τ ε)) : List ε :=
  past.filterMap fun
    | .received k ev => if k = id then some ev else none
    | _ => none

theorem received_append (id : Nat) (past more : List (Happened τ ε)) :
    received id (past ++ more) = received id past ++ received id more := List.filterMap_append

theorem received_dropped (id : Nat) (ids : List Nat) :
    received id (ids.map Happened.dropped : List (Happened τ ε)) = [] :=
  List.filterMap_eq_nil_iff.mpr fun happened h => by
    obtain ⟨k, -, rfl⟩ := List.mem_map.mp h
    rfl

variable {b b' : InProcBus τ ε} {id k : Nat} {sub : Subscription τ ε} {past : List (Happened τ ε)} {c : Call τ ε}

/-- What a taker takes: the first event of its own buffer. -/
theorem received_receive (hsub : b.subs.get? sub.id = some sub) :
    received sub.id (records b (.receive k)) = if k = sub.id then sub.ch.buffer.head?.toList else [] := by
  rw [records]
  by_cases hk : k = sub.id
  · rw [if_pos hk, hk, hsub, Option.bind_some]
    cases sub.ch.buffer.head? <;> simp [received]
  · rw [if_neg hk]
    cases (b.subs.get? k).bind fun sub => sub.ch.buffer.head? <;> simp [received, hk]

section Runs

variable [DecidableEq τ]

/-! ## What a subscription should have had -/

/-- A subscription by the calls made on it: whether it was closed since, the topics it holds, and the events
published to them while it held them. -/
structure Holds (τ ε : Type) where
  live : Bool
  topics : List τ
  got : List ε
  deriving DecidableEq, Repr

def Holds.after (id : Nat) (h : Holds τ ε) : Happened τ ε → Holds τ ε
  | .subscribed k own => if k = id then ⟨true, own, []⟩ else h
  | .added k topic => if k = id then { h with topics := topic :: h.topics } else h
  | .removed k topic => if k = id then { h with topics := h.topics.filter fun t => t != topic } else h
  | .closed k => if k = id then { h with live := false } else h
  | .published topic ev => if h.live ∧ topic ∈ h.topics then { h with got := h.got ++ [ev] } else h
  | .received _ _ => h
  | .dropped _ => h

def holds (id : Nat) (past : List (Happened τ ε)) : Holds τ ε :=
  past.foldl (Holds.after id) ⟨false, [], []⟩

/-- The events published to a subscription's topics while it held them. -/
def expected (id : Nat) (past : List (Happened τ ε)) : List ε := (holds id past).got

/-- The record so far accounts for a subscription. -/
structure Accounts (past : List (Happened τ ε)) (sub : Subscription τ ε) : Prop where
  live : (holds sub.id past).live = !sub.closed
  topics : sub.closed = false → ∀ t, t ∈ (holds sub.id past).topics ↔ t ∈ sub.topics
  got : received sub.id past ++ sub.ch.buffer = (holds sub.id past).got

/-- What one more entry makes of an account. -/
theorem holds_snoc (id : Nat) (past : List (Happened τ ε)) (happened : Happened τ ε) :
    holds id (past ++ [happened]) = (holds id past).after id happened := by
  rw [holds, List.foldl_append]
  rfl

/-- Those dropped leave what was held as it was. -/
theorem holds_dropped (past : List (Happened τ ε)) (ids : List Nat) :
    holds id (past ++ ids.map .dropped) = holds id past := by
  rw [holds, List.foldl_append]
  induction ids generalizing past with
  | nil => rfl
  | cons k ids ih => exact ih past

/-- An account after a call, from what the record then holds and what was taken. -/
theorem Accounts.mk' {more : List (Happened τ ε)} {sub' : Subscription τ ε} {held : Holds τ ε}
    (hid : sub'.id = sub.id) (hheld : holds sub.id (past ++ more) = held) (hlive : held.live = !sub'.closed)
    (htopics : sub'.closed = false → ∀ t, t ∈ held.topics ↔ t ∈ sub'.topics)
    (hgot : received sub.id past ++ (received sub.id more ++ sub'.ch.buffer) = held.got) :
    Accounts (past ++ more) sub' := by
  constructor
  · rw [hid, hheld, hlive]
  · rw [hid, hheld]
    exact htopics
  · rw [hid, hheld, received_append, List.append_assoc, hgot]

/-- An account stays one where a call leaves the subscription and what was held as they were. -/
theorem Accounts.same {more : List (Happened τ ε)} (h : Accounts past sub)
    (hheld : holds sub.id (past ++ more) = holds sub.id past) (hnone : received sub.id more = []) :
    Accounts (past ++ more) sub :=
  .mk' rfl hheld h.live h.topics (by rw [hnone, List.nil_append, h.got])

/-- The record accounts for a subscription after a call, unless it is dropped. -/
theorem Accounts.after (h : Accounts past sub) (hm : Mirrored b) (hsub : b.subs.get? sub.id = some sub)
    (hpossible : Possible b c) (hkept : .dropped sub.id ∉ records b c) :
    Accounts (past ++ records b c) (sub.after c) := by
  cases c with
  | subscribe k own =>
    have hk : k ≠ sub.id := fun hk => by cases (hk ▸ hsub).symm.trans hpossible
    exact h.same ((holds_snoc _ past _).trans (if_neg hk)) rfl
  | add k topic =>
    by_cases hk : k = sub.id
    · rw [Subscription.after, if_pos hk]
      refine .mk' Subscription.add_id ((holds_snoc _ past _).trans (if_pos hk)) ?_ ?_ ?_
      · rw [Subscription.add_closed]
        exact h.live
      · rw [Subscription.add_closed]
        intro hopen t
        rw [Subscription.mem_add hopen, List.mem_cons, h.topics hopen]
      · rw [Subscription.add_ch]
        exact h.got
    · rw [Subscription.after, if_neg hk]
      exact h.same ((holds_snoc _ past _).trans (if_neg hk)) rfl
  | remove k topic =>
    by_cases hk : k = sub.id
    · rw [Subscription.after, if_pos hk]
      refine .mk' Subscription.remove_id ((holds_snoc _ past _).trans (if_pos hk)) ?_ ?_ ?_
      · rw [Subscription.remove_closed]
        exact h.live
      · rw [Subscription.remove_closed]
        intro hopen t
        rw [Subscription.mem_remove hopen, List.mem_filter, h.topics hopen, bne_iff_ne]
      · rw [Subscription.remove_ch]
        exact h.got
    · rw [Subscription.after, if_neg hk]
      exact h.same ((holds_snoc _ past _).trans (if_neg hk)) rfl
  | close k =>
    by_cases hk : k = sub.id
    · rw [Subscription.after, if_pos hk]
      refine .mk' Subscription.close_id ((holds_snoc _ past _).trans (if_pos hk)) ?_ ?_ ?_
      · rw [Subscription.close_closed]
        rfl
      · rw [Subscription.close_closed]
        rintro ⟨⟩
      · rw [Subscription.close_buffer]
        exact h.got
    · rw [Subscription.after, if_neg hk]
      exact h.same ((holds_snoc _ past _).trans (if_neg hk)) rfl
  | publish topic ev walk =>
    have hwalk : sub.id ∈ walk ↔ sub.closed = false ∧ topic ∈ sub.topics := by
      constructor
      · intro hmem
        obtain ⟨held, hheld, hopen⟩ := (hm.mirror _ _).mp (hpossible.2.1 _ hmem)
        obtain rfl := Option.some.inj (hsub.symm.trans hheld)
        exact hopen
      · intro hopen
        exact hpossible.2.2 _ ((hm.mirror _ _).mpr ⟨sub, hsub, hopen⟩)
    have hheld : holds sub.id (past ++ records b (.publish topic ev walk)) =
        (holds sub.id past).after sub.id (.published topic ev) := by
      rw [records, ← List.singleton_append, ← List.append_assoc, holds_dropped, holds_snoc]
    have hnone : received sub.id (records b (.publish topic ev walk)) = [] := received_dropped _ _
    by_cases hmem : sub.id ∈ walk
    · obtain ⟨hopen, htopic⟩ := hwalk.mp hmem
      have hlive : (holds sub.id past).live = true := by rw [h.live, hopen]; rfl
      -- one that is full would be on the record as dropped
      have hroom : sub.full = false := by
        refine Bool.eq_false_iff.mpr fun hfull => hkept ?_
        refine List.mem_cons_of_mem _ (List.mem_map.mpr ⟨sub.id, List.mem_filter.mpr ⟨hmem, ?_⟩, rfl⟩)
        rw [hsub]
        exact hfull
      have hoffer : sub.offer ev = { sub with ch := { sub.ch with buffer := sub.ch.buffer ++ [ev] } } :=
        if_neg (by simp [hroom])
      rw [Holds.after, if_pos ⟨hlive, (h.topics hopen topic).mpr htopic⟩] at hheld
      rw [Subscription.after, if_pos hmem, hoffer]
      refine .mk' rfl hheld h.live h.topics ?_
      rw [hnone, List.nil_append, ← List.append_assoc, h.got]
    · have hnot : ¬((holds sub.id past).live = true ∧ topic ∈ (holds sub.id past).topics) := by
        rintro ⟨hlive, htopic⟩
        have hopen : sub.closed = false := by simpa [hlive] using h.live
        exact hmem (hwalk.mpr ⟨hopen, (h.topics hopen topic).mp htopic⟩)
      rw [Holds.after, if_neg hnot] at hheld
      rw [Subscription.after, if_neg hmem]
      exact h.same hheld hnone
  | receive k =>
    have hheld : holds sub.id (past ++ records b (.receive k)) = holds sub.id past := by
      rw [records]
      cases (b.subs.get? k).bind fun sub => sub.ch.buffer.head? with
      | none => rw [Option.toList_none, List.map_nil, List.append_nil]
      | some ev => exact holds_snoc _ past _
    have htaken := received_receive (k := k) hsub
    by_cases hk : k = sub.id
    · rw [Subscription.after, if_pos hk]
      have hgot : received sub.id past ++ (received sub.id (records b (.receive k)) ++ sub.receive.ch.buffer) =
          (holds sub.id past).got := by
        rw [← h.got, htaken, if_pos hk, Subscription.receive]
        cases sub.ch.buffer <;> rfl
      exact .mk' rfl hheld h.live h.topics hgot
    · rw [Subscription.after, if_neg hk]
      exact h.same hheld (htaken.trans (if_neg hk))

/-- A subscription that has just been made. -/
theorem accounts_new (own : List τ) (hnone : received id past = []) :
    Accounts (past ++ [.subscribed id own]) ((newSubscription id : Subscription τ ε).addAll own) := by
  obtain ⟨hid, hclosed, hch, htopics⟩ := Subscription.addAll_spec own (rfl : (newSubscription id).closed = false)
  have hid : ((newSubscription id : Subscription τ ε).addAll own).id = id := hid
  have hheld : holds id (past ++ [.subscribed id own]) = ⟨true, own, []⟩ :=
    (holds_snoc _ past _).trans (if_pos rfl)
  constructor
  · rw [hid, hheld, hclosed]
    rfl
  · intro _ t
    rw [hid, hheld, htopics]
    simp [newSubscription]
  · rw [hid, hheld, hch, received_append, hnone]
    rfl

/-! ## Closed subscriptions -/

/-- Nothing is sent to a closed subscription: what it takes was in its buffer. -/
theorem quiet (hclosed : sub.closed = true) (hm : Mirrored b) (hsub : b.subs.get? sub.id = some sub)
    (hpossible : Possible b c) : (sub.after c).closed = true ∧
      received sub.id (records b c) ++ (sub.after c).ch.buffer = sub.ch.buffer := by
  cases c with
  | subscribe k own => exact ⟨hclosed, rfl⟩
  | add k topic =>
    rw [Subscription.after]
    split
    · exact ⟨Subscription.add_closed.trans hclosed, congrArg Chan.buffer Subscription.add_ch⟩
    · exact ⟨hclosed, rfl⟩
  | remove k topic =>
    rw [Subscription.after]
    split
    · exact ⟨Subscription.remove_closed.trans hclosed, congrArg Chan.buffer Subscription.remove_ch⟩
    · exact ⟨hclosed, rfl⟩
  | close k =>
    rw [Subscription.after]
    split
    · exact ⟨Subscription.close_closed, Subscription.close_buffer⟩
    · exact ⟨hclosed, rfl⟩
  | publish topic ev walk =>
    have hnot : sub.id ∉ walk := by
      intro hmem
      obtain ⟨held, hheld, hopen, -⟩ := (hm.mirror _ _).mp (hpossible.2.1 _ hmem)
      obtain rfl := Option.some.inj (hsub.symm.trans hheld)
      cases hclosed.symm.trans hopen
    rw [Subscription.after, if_neg hnot, show received sub.id (records b (.publish topic ev walk)) = [] from
      received_dropped _ _]
    exact ⟨hclosed, rfl⟩
  | receive k =>
    rw [Subscription.after, received_receive hsub]
    split
    · refine ⟨hclosed, ?_⟩
      rw [Subscription.receive]
      cases sub.ch.buffer <;> rfl
    · exact ⟨hclosed, rfl⟩

/-! ## Runs -/

/-- What the record says of a pointer: nothing yet, or an account of the subscription there. -/
def Told (past : List (Happened τ ε)) (id : Nat) : Option (Subscription τ ε) → Prop
  | none => (holds id past).live = false ∧ received id past = []
  | some sub => .dropped id ∉ past → Accounts past sub

/-- Nothing is held or taken at a pointer no subscription is at. -/
theorem untold (hlive : (holds id past).live = false) (hnone : received id past = [])
    (hsub : b.subs.get? id = none) (hpossible : Possible b c) (hnew : ∀ own, c ≠ .subscribe id own) :
    (holds id (past ++ records b c)).live = false ∧ received id (past ++ records b c) = [] := by
  have other : ∀ k, (b.subs.get? k).isSome → k ≠ id := by
    rintro k hk rfl
    rw [hsub] at hk
    cases hk
  rw [received_append, hnone, List.nil_append]
  cases c with
  | subscribe k own =>
    have hk : k ≠ id := fun hk => hnew own (hk ▸ rfl)
    have hsame : holds id (past ++ records b (.subscribe k own)) = holds id past :=
      (holds_snoc id past _).trans (if_neg hk)
    exact ⟨hsame ▸ hlive, rfl⟩
  | add k topic =>
    have hsame : holds id (past ++ records b (.add k topic)) = holds id past :=
      (holds_snoc id past _).trans (if_neg (other k hpossible))
    exact ⟨hsame ▸ hlive, rfl⟩
  | remove k topic =>
    have hsame : holds id (past ++ records b (.remove k topic)) = holds id past :=
      (holds_snoc id past _).trans (if_neg (other k hpossible))
    exact ⟨hsame ▸ hlive, rfl⟩
  | close k =>
    have hsame := (holds_snoc id past (.closed k)).trans (if_neg (other k hpossible))
    exact ⟨hsame ▸ hlive, rfl⟩
  | publish topic ev walk =>
    have hnot : ¬((holds id past).live = true ∧ topic ∈ (holds id past).topics) := by
      rw [hlive]
      exact fun h => by cases h.1
    refine ⟨?_, received_dropped _ _⟩
    rw [records, ← List.singleton_append, ← List.append_assoc, holds_dropped, holds_snoc, Holds.after,
      if_neg hnot]
    exact hlive
  | receive k =>
    have hk : k ≠ id := by
      rintro rfl
      rw [Possible, hsub] at hpossible
      cases hpossible
    rw [records]
    cases (b.subs.get? k).bind fun sub => sub.ch.buffer.head? with
    | none => exact ⟨by rwa [Option.toList_none, List.map_nil, List.append_nil], rfl⟩
    | some ev =>
      refine ⟨(congrArg Holds.live (holds_snoc id past (.received k ev))).trans hlive, ?_⟩
      simp [received, hk]

/-- A run on the record, from a new bus. -/
abbrev Reaches (t : Recorded (InProcBus τ ε) (Happened τ ε)) : Prop :=
  Runs (recording step records) Always ⟨newInProcBus, []⟩ t

theorem step_eq_call (h : step b c = some b') : Possible b c ∧ call b c = .ok b' := by
  obtain ⟨hpossible, hcall⟩ := Option.ite_none_right_eq_some.mp h
  refine ⟨hpossible, ?_⟩
  cases hresult : call b c with
  | error panic =>
    rw [hresult] at hcall
    cases hcall
  | ok next =>
    rw [hresult] at hcall
    exact congrArg _ (Option.some.inj hcall)

variable {t u : Recorded (InProcBus τ ε) (Happened τ ε)}

theorem Reaches.told (hrun : Reaches t) :
    Mirrored t.state ∧ ∀ id, Told t.past id (t.state.subs.get? id) := by
  refine @Runs.keeps _ _ _ _ _ _ (fun t : Recorded (InProcBus τ ε) (Happened τ ε) =>
    Mirrored t.state ∧ ∀ id, Told t.past id (t.state.subs.get? id)) ?_ (fun t c u ⟨hm, htold⟩ _ hstep => ?_) hrun
  · exact ⟨mirrored_new, fun id => ⟨rfl, rfl⟩⟩
  · obtain ⟨hstate, hpast⟩ := recording_eq_some hstep
    obtain ⟨hpossible, hcall⟩ := step_eq_call hstate
    obtain ⟨b', hb', hm', hknown, hnew⟩ := call_spec hm hpossible
    obtain rfl : u.state = b' := Except.ok.inj (hcall.symm.trans hb')
    refine ⟨hm', fun id => ?_⟩
    rw [hpast]
    cases hsub : t.state.subs.get? id with
    | some sub =>
      have hid := Keyed.key_of_get? hsub
      subst hid
      rw [hknown _ _ hsub]
      intro hkept
      rw [List.mem_append, not_or] at hkept
      have haccounts := htold sub.id
      rw [hsub] at haccounts
      exact (haccounts hkept.1).after hm hsub hpossible hkept.2
    | none =>
      have hnothing := htold id
      rw [hsub] at hnothing
      rcases hnew id hsub with hnone | ⟨own, rfl, hmade⟩
      · rw [hnone]
        refine untold hnothing.1 hnothing.2 hsub hpossible fun own hc => ?_
        subst hc
        rw [show u.state = subscribe id own t.state from (Except.ok.inj hcall).symm,
          (subscribe_spec own hm hsub).2 id, if_pos rfl] at hnone
        cases hnone
      · rw [hmade]
        exact fun _ => accounts_new own hnothing.2

/-- Closed for good: a subscription that is closed stays so, and is sent nothing. -/
theorem stays_closed (hm : Mirrored t.state) (hsub : t.state.subs.get? id = some sub)
    (hclosed : sub.closed = true) (hrun : Runs (recording step records) Always t u) :
    Mirrored u.state ∧ ∃ sub', u.state.subs.get? id = some sub' ∧ sub'.closed = true ∧
      received id u.past ++ sub'.ch.buffer = received id t.past ++ sub.ch.buffer := by
  refine @Runs.keeps _ _ _ _ _ _ (fun u : Recorded (InProcBus τ ε) (Happened τ ε) =>
    Mirrored u.state ∧ ∃ sub', u.state.subs.get? id = some sub' ∧ sub'.closed = true ∧
      received id u.past ++ sub'.ch.buffer = received id t.past ++ sub.ch.buffer)
    ⟨hm, sub, hsub, hclosed, rfl⟩ (fun u c v ⟨hm, sub', hsub', hclosed', hsame⟩ _ hstep => ?_) hrun
  obtain ⟨hstate, hpast⟩ := recording_eq_some hstep
  obtain ⟨hpossible, hcall⟩ := step_eq_call hstate
  obtain ⟨b', hb', hm', hknown, -⟩ := call_spec hm hpossible
  obtain rfl : v.state = b' := Except.ok.inj (hcall.symm.trans hb')
  have hid := Keyed.key_of_get? hsub'
  obtain ⟨hstill, hquiet⟩ := quiet hclosed' hm (by rwa [hid]) hpossible
  rw [hid] at hquiet
  refine ⟨hm', _, hknown id sub' hsub', hstill, ?_⟩
  rw [hpast, received_append, List.append_assoc, hquiet, hsame]

/-- Who is closed, or dropped, is closed. -/
theorem Reaches.gone (hrun : Reaches t) :
    Mirrored t.state ∧ ∀ id, .closed id ∈ t.past ∨ .dropped id ∈ t.past →
      ∃ sub, t.state.subs.get? id = some sub ∧ sub.closed = true := by
  refine @Runs.keeps _ _ _ _ _ _ (fun t : Recorded (InProcBus τ ε) (Happened τ ε) =>
    Mirrored t.state ∧ ∀ id, .closed id ∈ t.past ∨ .dropped id ∈ t.past →
      ∃ sub, t.state.subs.get? id = some sub ∧ sub.closed = true)
    ⟨mirrored_new, fun id h => by simp at h⟩
    (fun t c u ⟨hm, hgone⟩ _ hstep => ?_) hrun
  obtain ⟨hstate, hpast⟩ := recording_eq_some hstep
  obtain ⟨hpossible, hcall⟩ := step_eq_call hstate
  obtain ⟨b', hb', hm', hknown, -⟩ := call_spec hm hpossible
  obtain rfl : u.state = b' := Except.ok.inj (hcall.symm.trans hb')
  refine ⟨hm', fun id h => ?_⟩
  rw [hpast, List.mem_append, List.mem_append, or_or_or_comm] at h
  rcases h with hold | hnew
  · obtain ⟨sub, hsub, hclosed⟩ := hgone id hold
    have hid := Keyed.key_of_get? hsub
    exact ⟨_, hknown id sub hsub, (quiet hclosed hm (by rwa [hid]) hpossible).1⟩
  · cases c with
    | subscribe k own | add k topic | remove k topic | receive k => simp [records] at hnew
    | close k =>
      obtain rfl : id = k := by simpa [records] using hnew
      obtain ⟨sub, hsub⟩ := Option.isSome_iff_exists.mp hpossible
      refine ⟨_, hknown id sub hsub, ?_⟩
      rw [Subscription.after, if_pos (Keyed.key_of_get? hsub).symm, Subscription.close_closed]
    | publish topic ev walk =>
      obtain ⟨hmem, hfull⟩ : id ∈ walk ∧ (t.state.subs.get? id).any (·.full) = true := by
        simpa [records] using hnew
      obtain ⟨sub, hsub, hfull⟩ := (Option.any_eq_true _ _).mp hfull
      refine ⟨_, hknown id sub hsub, ?_⟩
      rw [Subscription.after, Keyed.key_of_get? hsub, if_pos hmem, Subscription.offer, if_pos hfull,
        Subscription.close_closed]

/-- **The bus's law.** In any run: a subscription is listed under a topic exactly when it is open and the topic
is among its own; one that was closed or dropped is closed, its channel is closed with it, and no call closes
that again or sends on it; and one that was not dropped has received, with what its channel still has, exactly
the events published to its topics while it held them, in order. -/
theorem bus_law (hrun : Reaches t) :
    (∀ id topic, id ∈ listed t.state.topics topic ↔
        ∃ sub, t.state.subs.get? id = some sub ∧ sub.closed = false ∧ topic ∈ sub.topics) ∧
      (∀ id, .closed id ∈ t.past ∨ .dropped id ∈ t.past →
        ∃ sub, t.state.subs.get? id = some sub ∧ sub.closed = true) ∧
      (∀ id sub, t.state.subs.get? id = some sub → sub.ch.closed = sub.closed) ∧
      (∀ c, Possible t.state c → ∃ b', call t.state c = .ok b') ∧
      (∀ id sub u, t.state.subs.get? id = some sub → sub.closed = true →
        Runs (recording step records) Always t u → ∃ sub', u.state.subs.get? id = some sub' ∧
          sub'.closed = true ∧ received id u.past ++ sub'.ch.buffer = received id t.past ++ sub.ch.buffer) ∧
      ∀ id sub, t.state.subs.get? id = some sub → .dropped id ∉ t.past →
        received id t.past ++ sub.ch.buffer = expected id t.past := by
  obtain ⟨hm, htold⟩ := hrun.told
  refine ⟨hm.mirror, hrun.gone.2, hm.chan, fun c hpossible => ?_, fun id sub u hsub hclosed hlater => ?_,
    fun id sub hsub hkept => ?_⟩
  · obtain ⟨b', hb', -⟩ := call_spec hm hpossible
    exact ⟨b', hb'⟩
  · exact (stays_closed hm hsub hclosed hlater).2
  · have haccounts := htold id
    rw [hsub] at haccounts
    obtain rfl := Keyed.key_of_get? hsub
    exact (haccounts hkept).got

end Runs

/-- A subscription that closes keeps its own topics, and is listed under none. -/
theorem closed_keeps_topics : ∃ b : InProcBus String Nat,
    runList step newInProcBus [.subscribe 1 ["space:a"], .close 1] = some b ∧
      (b.subs.get? 1).map (·.topics) = some ["space:a"] ∧ listed b.topics "space:a" = [] := by
  refine ⟨_, rfl, ?_, ?_⟩ <;> decide

/-- Two subscribers, one of whom leaves a topic and takes an event. -/
def twoSubscribers : List (Call String Nat) :=
  [.subscribe 1 ["a", "b"], .subscribe 2 ["a"], .publish "a" 10 [2, 1], .remove 1 "a", .publish "a" 11 [2],
    .receive 1, .publish "b" 12 [1]]

/-- What they have received. -/
theorem twoSubscribers_received : ∃ t : Recorded (InProcBus String Nat) (Happened String Nat),
    runList (recording step records) ⟨newInProcBus, []⟩ twoSubscribers = some t ∧
      expected 1 t.past = [10, 12] ∧
      ∀ sub, t.state.subs.get? 1 = some sub → received 1 t.past ++ sub.ch.buffer = [10, 12] := by
  have hrun : ∃ t : Recorded (InProcBus String Nat) (Happened String Nat),
      runList (recording step records) ⟨newInProcBus, []⟩ twoSubscribers = some t ∧
        expected 1 t.past = [10, 12] ∧ .dropped 1 ∉ t.past := ⟨_, rfl, by decide, by decide⟩
  obtain ⟨t, ht, hexpected, hkept⟩ := hrun
  obtain ⟨-, -, -, -, -, hlaw⟩ := bus_law (.ofList twoSubscribers (.always _ _) ht)
  exact ⟨t, ht, hexpected, fun sub hsub => (hlaw 1 sub hsub hkept).trans hexpected⟩

end Stoop.Events
