import Stoop.Events.Bus

/-!
# The bus's two indexes

`Mirrored`: a subscription is listed under exactly its own topics while it is open, and under none after; its
channel is closed with it. Each call keeps this and does not panic, and changes one subscription at a time, in
the way its own operation says.
-/

set_option autoImplicit false

namespace Stoop.Events

open Stoop.Lib

variable {τ ε : Type}

/-! ## The index -/

section Index

variable [DecidableEq τ] {topics : Topics τ} {id k : Nat} {topic t : τ}

theorem mem_listed_list : k ∈ listed (list topics id topic) t ↔ k ∈ listed topics t ∨ k = id ∧ t = topic := by
  rw [listed, list, Keyed.get?_set]
  by_cases ht : topic = t
  · subst ht
    rw [if_pos rfl]
    simp only [List.mem_insert_iff, and_true]
    exact or_comm
  · rw [if_neg ht]
    simp only [Ne.symm ht, and_false, or_false, listed]

theorem mem_listed_unlist :
    k ∈ listed (unlist id topics topic) t ↔ k ∈ listed topics t ∧ ¬(k = id ∧ t = topic) := by
  by_cases ht : t = topic
  · subst ht
    simp only [and_true]
    rw [unlist]
    split
    next hempty =>
      rw [listed, Keyed.get?_filter_ne, if_pos rfl]
      have hnone := List.isEmpty_iff.mp hempty
      simp only [List.filter_eq_nil_iff, bne_iff_ne, ne_eq, not_not] at hnone
      exact iff_of_false List.not_mem_nil fun h => h.2 (hnone k h.1)
    next =>
      rw [listed, Keyed.get?_set, if_pos rfl]
      simp only [List.mem_filter, bne_iff_ne, ne_eq]
  · have hother : (unlist id topics topic).get? t = topics.get? t := by
      rw [unlist]
      split
      · rw [Keyed.get?_filter_ne, if_neg ht]
      · rw [Keyed.get?_set, if_neg (Ne.symm ht)]
    simp only [listed, hother, ht, and_false, not_false_eq_true, and_true]

theorem mem_listed_unlist_all {own : List τ} :
    k ∈ listed (own.foldl (unlist id) topics) t ↔ k ∈ listed topics t ∧ ¬(k = id ∧ t ∈ own) := by
  induction own generalizing topics with
  | nil => simp
  | cons topic own ih =>
    rw [List.foldl_cons, ih, mem_listed_unlist, List.mem_cons]
    tauto

end Index

/-! ## Mirrors -/

section Mirrors

variable {b b' : InProcBus τ ε} {id k : Nat} {topic : τ} {ev : ε} {sub : Subscription τ ε}

/-- One subscription has changed, and no other. -/
def Changes (b b' : InProcBus τ ε) (id : Nat) (f : Subscription τ ε → Subscription τ ε) : Prop :=
  ∀ k, b'.subs.get? k = if k = id then (b.subs.get? k).map f else b.subs.get? k

theorem changes_none {f : Subscription τ ε → Subscription τ ε} (h : b.subs.get? id = none) :
    Changes b b id f := by
  intro k
  split
  next hk => rw [hk, h, Option.map_none]
  next => rfl

theorem changes_set {f : Subscription τ ε → Subscription τ ε} {topics : Topics τ}
    (h : b.subs.get? id = some sub) (hid : (f sub).id = sub.id) :
    Changes b ⟨topics, b.subs.set (f sub)⟩ id f := by
  have hkey := Keyed.key_of_get? h
  intro k
  simp only [Keyed.get?_set, hid, hkey]
  by_cases hk : k = id
  · subst hk
    rw [if_pos rfl, if_pos rfl, h, Option.map_some]
  · rw [if_neg (Ne.symm hk), if_neg hk]

theorem changes_same {f : Subscription τ ε → Subscription τ ε} (h : b.subs.get? id = some sub)
    (hsame : f sub = sub) : Changes b b id f := by
  intro k
  split
  next hk => rw [hk, h, Option.map_some, hsame]
  next => rfl

variable [DecidableEq τ]

/-- The bus lists a subscription under exactly its own topics while it is open, and its channel is closed with
it. -/
structure Mirrored (b : InProcBus τ ε) : Prop where
  mirror : ∀ id topic, id ∈ listed b.topics topic ↔
    ∃ sub, b.subs.get? id = some sub ∧ sub.closed = false ∧ topic ∈ sub.topics
  chan : ∀ id sub, b.subs.get? id = some sub → sub.ch.closed = sub.closed

theorem mirrored_new : Mirrored (newInProcBus : InProcBus τ ε) := by
  constructor
  · intro id topic
    refine iff_of_false List.not_mem_nil ?_
    rintro ⟨sub, hsub, -⟩
    cases hsub
  · intro id sub hsub
    cases hsub

/-- What keeps a mirror when one subscription changes. -/
theorem Mirrored.change {f : Subscription τ ε → Subscription τ ε} (h : Mirrored b) (hchanges : Changes b b' id f)
    (hchan : ∀ sub, b.subs.get? id = some sub → (f sub).ch.closed = (f sub).closed)
    (hown : ∀ topic sub, b.subs.get? id = some sub →
      (id ∈ listed b'.topics topic ↔ (f sub).closed = false ∧ topic ∈ (f sub).topics))
    (hothers : ∀ topic k, b.subs.get? id = none ∨ k ≠ id →
      (k ∈ listed b'.topics topic ↔ k ∈ listed b.topics topic)) : Mirrored b' := by
  constructor
  · intro k topic
    rw [hchanges k]
    by_cases hk : k = id
    · subst hk
      rw [if_pos rfl]
      cases hsub : b.subs.get? k with
      | none =>
        rw [hothers topic k (.inl hsub), h.mirror, hsub]
        simp only [Option.map_none]
      | some sub =>
        rw [hown topic sub hsub]
        simp
    · rw [if_neg hk, hothers topic k (.inr hk), h.mirror]
  · intro k sub hsub
    rw [hchanges k] at hsub
    split at hsub
    next hk =>
      subst hk
      obtain ⟨prior, hprior, rfl⟩ := Option.map_eq_some_iff.mp hsub
      exact hchan prior hprior
    next => exact h.chan k sub hsub

/-! ## Calls -/

theorem addLocked_spec (id : Nat) (topic : τ) (h : Mirrored b) :
    Mirrored (addLocked id b topic) ∧ Changes b (addLocked id b topic) id (Subscription.add topic) := by
  unfold addLocked
  split
  next hnone => exact ⟨h, changes_none hnone⟩
  next sub hsub =>
    split
    next hclosed => exact ⟨h, changes_same hsub (if_pos hclosed)⟩
    next hopen =>
      have hadd : sub.add topic = { sub with topics := sub.topics.insert topic } := if_neg hopen
      have hchanges : Changes b ⟨list b.topics id topic, b.subs.set (sub.add topic)⟩ id
          (Subscription.add topic) := changes_set hsub (by rw [hadd])
      rw [← hadd]
      refine ⟨h.change hchanges ?_ ?_ ?_, hchanges⟩
      · intro held hheld
        obtain rfl := Option.some.inj (hsub.symm.trans hheld)
        rw [hadd]
        exact h.chan id sub hsub
      · intro t held hheld
        obtain rfl := Option.some.inj (hsub.symm.trans hheld)
        rw [mem_listed_list, h.mirror, hadd, hsub]
        simp [hopen, or_comm]
      · rintro t k (hnone | hk)
        · rw [hsub] at hnone
          cases hnone
        · rw [mem_listed_list]
          simp [hk]

theorem removeTopic_spec (id : Nat) (topic : τ) (h : Mirrored b) :
    Mirrored (removeTopic id b topic) ∧ Changes b (removeTopic id b topic) id (Subscription.remove topic) := by
  unfold removeTopic
  split
  next hnone => exact ⟨h, changes_none hnone⟩
  next sub hsub =>
    split
    next hclosed => exact ⟨h, changes_same hsub (if_pos hclosed)⟩
    next hopen =>
      have hremove : sub.remove topic = { sub with topics := sub.topics.filter fun t => t != topic } :=
        if_neg hopen
      have hchanges : Changes b ⟨unlist id b.topics topic, b.subs.set (sub.remove topic)⟩ id
          (Subscription.remove topic) := changes_set hsub (by rw [hremove])
      rw [← hremove]
      refine ⟨h.change hchanges ?_ ?_ ?_, hchanges⟩
      · intro held hheld
        obtain rfl := Option.some.inj (hsub.symm.trans hheld)
        rw [hremove]
        exact h.chan id sub hsub
      · intro t held hheld
        obtain rfl := Option.some.inj (hsub.symm.trans hheld)
        rw [mem_listed_unlist, h.mirror, hremove, hsub]
        simp [hopen]
      · rintro t k (hnone | hk)
        · rw [hsub] at hnone
          cases hnone
        · rw [mem_listed_unlist]
          simp [hk]

/-- `Close` and the drop of a slow consumer: no channel is closed twice. -/
theorem removeLocked_spec (id : Nat) (h : Mirrored b) :
    ∃ b', removeLocked id b = .ok b' ∧ Mirrored b' ∧ Changes b b' id Subscription.close := by
  unfold removeLocked
  split
  next hnone => exact ⟨b, rfl, h, changes_none hnone⟩
  next sub hsub =>
    split
    next hclosed => exact ⟨b, rfl, h, changes_same hsub (if_pos hclosed)⟩
    next hopen =>
      have hch : ¬sub.ch.closed = true := by rwa [h.chan id sub hsub]
      have hclose : sub.close = { sub with closed := true, ch := { sub.ch with closed := true } } := if_neg hopen
      have hchanges : Changes b ⟨sub.topics.foldl (unlist id) b.topics, b.subs.set sub.close⟩ id
          Subscription.close := changes_set hsub (by rw [hclose])
      simp only [Chan.close, if_neg hch]
      rw [← hclose]
      refine ⟨_, rfl, h.change hchanges ?_ ?_ ?_, hchanges⟩
      · intro held hheld
        obtain rfl := Option.some.inj (hsub.symm.trans hheld)
        rw [hclose]
      · intro t held hheld
        obtain rfl := Option.some.inj (hsub.symm.trans hheld)
        rw [mem_listed_unlist_all, h.mirror, hclose, hsub]
        simp
      · rintro t k (hnone | hk)
        · rw [hsub] at hnone
          cases hnone
        · rw [mem_listed_unlist_all]
          simp [hk]

/-- The buffer of one subscription has changed. -/
theorem Mirrored.buffered {f : Subscription τ ε → Subscription τ ε} (h : Mirrored b)
    (hsub : b.subs.get? id = some sub) (hid : (f sub).id = sub.id) (hclosed : (f sub).closed = sub.closed)
    (htopics : (f sub).topics = sub.topics) (hch : (f sub).ch.closed = sub.ch.closed) :
    Mirrored { b with subs := b.subs.set (f sub) } ∧ Changes b { b with subs := b.subs.set (f sub) } id f := by
  have hchanges : Changes b { b with subs := b.subs.set (f sub) } id f := changes_set hsub hid
  refine ⟨h.change hchanges ?_ ?_ fun _ _ _ => Iff.rfl, hchanges⟩
  · intro held hheld
    obtain rfl := Option.some.inj (hsub.symm.trans hheld)
    rw [hch, hclosed, h.chan id sub hsub]
  · intro t held hheld
    obtain rfl := Option.some.inj (hsub.symm.trans hheld)
    rw [h.mirror, hsub, hclosed, htopics]
    simp

/-- A turn of `Publish`: nothing is sent on a closed channel. -/
theorem deliver_spec (ev : ε) (h : Mirrored b) (hlisted : id ∈ listed b.topics topic) :
    ∃ b', deliver ev id b = .ok b' ∧ Mirrored b' ∧ Changes b b' id (Subscription.offer ev) := by
  obtain ⟨sub, hsub, hopen, -⟩ := (h.mirror id topic).mp hlisted
  have hch : ¬sub.ch.closed = true := by simp [h.chan id sub hsub, hopen]
  simp only [deliver, hsub, Chan.offer, if_neg hch]
  by_cases hroom : sub.ch.buffer.length < subscriptionBuffer
  · have hoffer : sub.offer ev = { sub with ch := { sub.ch with buffer := sub.ch.buffer ++ [ev] } } :=
      if_neg (by simpa [Subscription.full] using hroom)
    rw [if_pos hroom]
    obtain ⟨hmirrored, hchanges⟩ := Mirrored.buffered (f := Subscription.offer ev) h hsub
      (by rw [hoffer]) (by rw [hoffer]) (by rw [hoffer]) (by rw [hoffer])
    rw [hoffer] at hmirrored hchanges
    exact ⟨_, rfl, hmirrored, hchanges⟩
  · have hoffer : sub.offer ev = sub.close := if_pos (by simpa [Subscription.full] using hroom)
    obtain ⟨b', hb', hmirrored, hchanges⟩ := removeLocked_spec id h
    rw [if_neg hroom]
    refine ⟨b', hb', hmirrored, fun k => ?_⟩
    rw [hchanges k]
    split
    next hk => rw [hk, hsub, Option.map_some, Option.map_some, hoffer]
    next => rfl

theorem receive_spec (id : Nat) (h : Mirrored b) :
    Mirrored (receive id b) ∧ Changes b (receive id b) id Subscription.receive := by
  unfold receive
  split
  next hnone => exact ⟨h, changes_none hnone⟩
  next sub hsub => exact Mirrored.buffered (f := Subscription.receive) h hsub rfl rfl rfl rfl

/-- `Publish` offers the event to each subscription it walks, and changes no other. -/
theorem publish_spec {walk : List Nat} (ev : ε) (h : Mirrored b) (hnodup : walk.Nodup)
    (hwalk : ∀ id ∈ walk, id ∈ listed b.topics topic) :
    ∃ b', publish topic ev walk b = .ok b' ∧ Mirrored b' ∧
      ∀ k, b'.subs.get? k = if k ∈ walk then (b.subs.get? k).map (·.offer ev) else b.subs.get? k := by
  induction walk generalizing b with
  | nil => exact ⟨b, rfl, h, fun k => by simp⟩
  | cons id walk ih =>
    obtain ⟨hnot, hnodup⟩ := List.nodup_cons.mp hnodup
    obtain ⟨mid, hmid, hmirrored, hchanges⟩ := deliver_spec ev h (hwalk id List.mem_cons_self)
    have hstill : ∀ k ∈ walk, k ∈ listed mid.topics topic := by
      intro k hk
      have hne : k ≠ id := fun heq => hnot (heq ▸ hk)
      rw [hmirrored.mirror, hchanges k, if_neg hne, ← h.mirror]
      exact hwalk k (List.mem_cons_of_mem _ hk)
    obtain ⟨b', hb', hmirrored', hgets⟩ := ih hmirrored hnodup hstill
    refine ⟨b', ?_, hmirrored', fun k => ?_⟩
    · rw [publish, if_pos (hwalk id List.mem_cons_self), hmid]
      exact hb'
    · rw [hgets k, hchanges k]
      by_cases hk : k = id
      · subst hk
        simp [hnot]
      · simp [hk]

/-- Topics added one after the other. -/
theorem addAll_spec (own : List τ) (h : Mirrored b) (hsub : b.subs.get? id = some sub) :
    Mirrored (own.foldl (addLocked id) b) ∧ ∀ k, (own.foldl (addLocked id) b).subs.get? k =
      if k = id then some (sub.addAll own) else b.subs.get? k := by
  induction own generalizing b sub with
  | nil =>
    refine ⟨h, fun k => ?_⟩
    split
    next hk => rw [hk]; exact hsub
    next => rfl
  | cons t own ih =>
    obtain ⟨hmirrored, hchanges⟩ := addLocked_spec id t h
    have hadded : (addLocked id b t).subs.get? id = some (sub.add t) := by
      rw [hchanges id, if_pos rfl, hsub, Option.map_some]
    obtain ⟨hmirrored', hgets⟩ := ih hmirrored hadded
    refine ⟨hmirrored', fun k => ?_⟩
    rw [List.foldl_cons, hgets k]
    split
    next => rfl
    next hk => rw [hchanges k, if_neg hk]

/-- `Subscribe` at a pointer that is new: its topics are added to a subscription that has none. -/
theorem subscribe_spec (own : List τ) (h : Mirrored b) (hnew : b.subs.get? id = none) :
    Mirrored (subscribe id own b) ∧ ∀ k, (subscribe id own b).subs.get? k =
      if k = id then some ((newSubscription id).addAll own) else b.subs.get? k := by
  let new : Subscription τ ε := newSubscription id
  have hget : ∀ k, (b.subs.set new).get? k = if k = id then some new else b.subs.get? k := by
    intro k
    rw [Keyed.get?_set, show new.id = id from rfl]
    by_cases hk : k = id
    · rw [if_pos hk.symm, if_pos hk]
    · rw [if_neg (Ne.symm hk), if_neg hk]
  have hmirrored : Mirrored { b with subs := b.subs.set new } := by
    constructor
    · intro k t
      rw [h.mirror, hget k]
      by_cases hk : k = id
      · subst hk
        simp [hnew, new, newSubscription]
      · rw [if_neg hk]
    · intro k sub hsub
      rw [hget k] at hsub
      split at hsub
      · obtain rfl := Option.some.inj hsub
        rfl
      · exact h.chan k sub hsub
  obtain ⟨hdone, hgets⟩ := addAll_spec own hmirrored ((hget id).trans (if_pos rfl))
  refine ⟨hdone, fun k => ?_⟩
  rw [subscribe, hgets k]
  split
  next => rfl
  next hk => exact (hget k).trans (if_neg hk)

/-- **A call**: it does not panic, it keeps the mirror, and each subscription there was changes as it is
concerned. -/
theorem call_spec {c : Call τ ε} (h : Mirrored b) (hpossible : Possible b c) :
    ∃ b', call b c = .ok b' ∧ Mirrored b' ∧
      (∀ id sub, b.subs.get? id = some sub → b'.subs.get? id = some (sub.after c)) ∧
      ∀ id, b.subs.get? id = none → b'.subs.get? id = none ∨
        ∃ own, c = .subscribe id own ∧
          b'.subs.get? id = some ((newSubscription id).addAll own) := by
  -- a call on one subscription
  have single : ∀ {b' : InProcBus τ ε} {id : Nat} {f : Subscription τ ε → Subscription τ ε}, Changes b b' id f →
      (∀ sub, sub.after c = if id = sub.id then f sub else sub) →
      (∀ k sub, b.subs.get? k = some sub → b'.subs.get? k = some (sub.after c)) ∧
        ∀ k, b.subs.get? k = none → b'.subs.get? k = none := by
    intro b' id f hchanges hafter
    refine ⟨fun k sub hsub => ?_, fun k hnone => ?_⟩
    · rw [hchanges k, hafter, Keyed.key_of_get? hsub, hsub]
      by_cases hk : k = id
      · rw [if_pos hk, if_pos hk.symm, Option.map_some]
      · rw [if_neg hk, if_neg (Ne.symm hk)]
    · rw [hchanges k, hnone, Option.map_none, ite_self]
  cases c with
  | subscribe id own =>
    obtain ⟨hmirrored, hgets⟩ := subscribe_spec own h hpossible
    refine ⟨_, rfl, hmirrored, fun k sub hsub => ?_, fun k hnone => ?_⟩
    · have hk : k ≠ id := fun hk => nomatch (hk ▸ hsub).symm.trans hpossible
      rw [hgets k, if_neg hk, hsub]
      rfl
    · rw [hgets k]
      by_cases hk : k = id
      · subst hk
        exact .inr ⟨own, rfl, if_pos rfl⟩
      · exact .inl ((if_neg hk).trans hnone)
  | add id topic =>
    obtain ⟨hmirrored, hchanges⟩ := addLocked_spec id topic h
    obtain ⟨hknown, hnew⟩ := single hchanges fun _ => rfl
    exact ⟨_, rfl, hmirrored, hknown, fun k hk => .inl (hnew k hk)⟩
  | remove id topic =>
    obtain ⟨hmirrored, hchanges⟩ := removeTopic_spec id topic h
    obtain ⟨hknown, hnew⟩ := single hchanges fun _ => rfl
    exact ⟨_, rfl, hmirrored, hknown, fun k hk => .inl (hnew k hk)⟩
  | close id =>
    obtain ⟨b', hb', hmirrored, hchanges⟩ := removeLocked_spec id h
    obtain ⟨hknown, hnew⟩ := single hchanges fun _ => rfl
    exact ⟨b', hb', hmirrored, hknown, fun k hk => .inl (hnew k hk)⟩
  | publish topic ev walk =>
    obtain ⟨b', hb', hmirrored, hgets⟩ := publish_spec ev h hpossible.1 hpossible.2.1
    refine ⟨b', hb', hmirrored, fun k sub hsub => ?_, fun k hnone => .inl ?_⟩
    · rw [hgets k, hsub, Subscription.after, Keyed.key_of_get? hsub]
      split <;> rfl
    · rw [hgets k, hnone, Option.map_none, ite_self]
  | receive id =>
    obtain ⟨hmirrored, hchanges⟩ := receive_spec id h
    obtain ⟨hknown, hnew⟩ := single hchanges fun _ => rfl
    exact ⟨_, rfl, hmirrored, hknown, fun k hk => .inl (hnew k hk)⟩

end Mirrors

end Stoop.Events
