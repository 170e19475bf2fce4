import Stoop.Direct.Opening

/-!
# One conversation for the same people

What each step of an opening keeps (`Kept`), and from it the law of every run (`conversations`).

A key can be read back (`dmKey_inj`), so the channels under different keys are of different ids. An opening holds its
key, so what it found under it stays so to its end: the channel it makes is the only one, and the people of the one it
finds are all there already.
-/

set_option autoImplicit false

namespace Stoop.Direct

open Stoop.Lib

/-! ## Keys -/

theorem sorted_eq_iff {as bs : List Text} : as.insertionSort (· ≤ ·) = bs.insertionSort (· ≤ ·) ↔ as.Perm bs := by
  constructor
  · intro h
    exact (List.perm_insertionSort _ as).symm.trans (h ▸ List.perm_insertionSort _ bs)
  · intro h
    have hperm := ((List.perm_insertionSort (· ≤ ·) as).trans h).trans (List.perm_insertionSort (· ≤ ·) bs).symm
    refine hperm.eq_of_pairwise (fun a b _ _ hab hba => le_antisymm hab hba) ?_ ?_
    · exact List.pairwise_insertionSort _ as
    · exact List.pairwise_insertionSort _ bs

theorem dmKey_perm {as bs : List Text} (h : as.Perm bs) : dmKey as = dmKey bs := by
  rw [dmKey, dmKey, sorted_eq_iff.mpr h]

theorem dmKey_inj {as bs : List Text} (has : ∀ id ∈ as, ':' ∉ id) (hbs : ∀ id ∈ bs, ':' ∉ id) (hne : as ≠ [])
    (hne' : bs ≠ []) (h : dmKey as = dmKey bs) : as.Perm bs := by
  have hsplit : ∀ {cs : List Text}, (∀ id ∈ cs, ':' ∉ id) → cs ≠ [] →
      (dmKey cs).splitOn ':' = cs.insertionSort (· ≤ ·) := by
    intro cs hcs hcs'
    refine List.splitOn_intercalate ':' ?_ ?_
    · intro id hid
      exact hcs id ((List.mem_insertionSort _).mp hid)
    · intro hnil
      exact hcs' ((List.perm_nil.mp (hnil ▸ List.perm_insertionSort (· ≤ ·) cs).symm))
  rw [← sorted_eq_iff, ← hsplit has hne, ← hsplit hbs hne', h]

theorem colon_of_read {id : Text} (h : (Uuid.read id).isSome) : ':' ∉ id := by
  obtain ⟨u, hu⟩ := Option.isSome_iff_exists.mp h
  intro hcolon
  have hdigit := Uuid.digit_of_read hu hcolon
  exact absurd hdigit (by decide)

namespace Proper

variable {ids ids' : List Text}

theorem ne_nil (h : Proper ids) : ids ≠ [] := by
  rintro rfl
  exact absurd h.atLeast (by decide)

theorem perm (h : Proper ids) (h' : Proper ids') (hkey : dmKey ids = dmKey ids') : ids.Perm ids' :=
  dmKey_inj (fun id hid => colon_of_read (h.read id hid)) (fun id hid => colon_of_read (h'.read id hid)) h.ne_nil
    h'.ne_nil hkey

end Proper

theorem meant_perm {ids ids' : List Text} (h : ids.Perm ids') (u : UserId) : Meant ids u ↔ Meant ids' u := by
  unfold Meant
  simp only [h.mem_iff]

theorem meant_text {us : List UserId} {u : UserId} : Meant (us.map Uuid.text) u ↔ u ∈ us := by
  constructor
  · rintro ⟨id, hid, hu⟩
    obtain ⟨v, hv, rfl⟩ := List.mem_map.mp hid
    rw [Uuid.read_text] at hu
    exact Option.some.inj hu ▸ hv
  · intro hu
    exact ⟨u.text, List.mem_map_of_mem hu, Uuid.read_text u⟩

/-! ## Who is in it -/

theorem distinctIds_spec {me : Text} {ids seen out : List Text} (h : distinctIds me seen ids = .ok out) :
    out.Nodup ∧ ∀ id ∈ out, id ∉ seen := by
  induction ids generalizing seen out with
  | nil =>
    obtain ⟨⟩ := h
    exact ⟨.nil, fun _ hid => absurd hid List.not_mem_nil⟩
  | cons id ids ih =>
    rw [distinctIds] at h
    split at h
    · exact nomatch h
    · split at h
      · exact nomatch h
      · split at h
        · exact ih h
        · rename_i hseen
          cases hrest : distinctIds me (id :: seen) ids with
          | error refusal =>
            rw [hrest] at h
            exact nomatch h
          | ok rest =>
            rw [hrest] at h
            obtain ⟨⟩ := h
            obtain ⟨hnodup, hnew⟩ := ih hrest
            refine ⟨List.nodup_cons.mpr ⟨fun hid => hnew id hid List.mem_cons_self, hnodup⟩, ?_⟩
            intro other hother
            obtain rfl | hother := List.mem_cons.mp hother
            · exact hseen
            · exact fun hmem => hnew other hother (List.mem_cons_of_mem _ hmem)

theorem usersByID_read {view : View} {ids : List Text} {users : List User} (h : usersByID view ids = .ok users) :
    ∀ id ∈ ids, (Uuid.read id).isSome := by
  rw [usersByID] at h
  split at h
  · rename_i hall
    exact List.all_eq_true.mp hall
  · exact nomatch h

theorem dmTargets_spec {view : View} {reachAnyone : Bool} {me : UserId} {ids out : List Text}
    (h : dmTargets view reachAnyone me ids = .ok out) : Proper (me.text :: out) := by
  rw [dmTargets] at h
  cases hdistinct : distinctIds me.text [me.text] ids with
  | error refusal =>
    rw [hdistinct] at h
    exact nomatch h
  | ok rest =>
    rw [hdistinct] at h
    obtain ⟨hnodup, hnew⟩ := distinctIds_spec hdistinct
    replace h : (if rest = [] then Except.error Refusal.required else
      if maxDMParticipants ≤ rest.length then .error .tooMany else usersByID view rest >>= fun users => _) = .ok out := h
    split at h
    · exact nomatch h
    · rename_i hne
      split at h
      · exact nomatch h
      · rename_i hmost
        cases husers : usersByID view rest with
        | error refusal =>
          rw [husers] at h
          exact nomatch h
        | ok users =>
          rw [husers] at h
          have hout : rest = out := by
            simp only [bind, Except.bind] at h
            split at h
            · exact nomatch h
            · split at h
              · exact nomatch h
              · split at h
                · exact nomatch h
                · injection h
          subst hout
          refine ⟨List.nodup_cons.mpr ⟨fun hmem => hnew _ hmem List.mem_cons_self, hnodup⟩, ?_, ?_, ?_⟩
          · intro id hid
            obtain rfl | hid := List.mem_cons.mp hid
            · rw [Uuid.read_text]
              rfl
            · exact usersByID_read husers id hid
          · rw [List.length_cons]
            exact Nat.succ_le_succ (List.length_pos_iff.mpr hne)
          · rw [List.length_cons]
            exact Nat.lt_of_not_le hmost

theorem participantsOf_spec {view : View} {caller : Caller} {ids out : List Text}
    (h : participantsOf view caller ids = .ok out) : Proper out ∧ caller.id.text ∈ out := by
  rw [participantsOf] at h
  split at h
  · exact nomatch h
  · cases htargets : dmTargets view caller.reachAnyone caller.id ids with
    | error refusal =>
      rw [htargets] at h
      exact nomatch h
    | ok others =>
      rw [htargets] at h
      have hout : caller.id.text :: others = out := by
        simp only [bind, Except.bind] at h
        split at h
        · exact nomatch h
        · injection h
      subst hout
      exact ⟨dmTargets_spec htargets, List.mem_cons_self⟩

/-! ## What every step keeps -/

variable {s s' : World} {t : Tx} {o : Opened}

theorem has_setClosed {members : Keyed Member.key} {p : Member → Bool} {closed : Option Time}
    {k : ChannelId × UserId} : (World.setClosed members p closed).has k = members.has k := by
  rw [World.setClosed, Keyed.has, Keyed.get?_map, Option.isSome_map, Keyed.has]

/-- An opening that holds a key: it found the channel under it, with its people, or makes it and adds them. -/
structure Holding (s : World) (t : Tx) (o : Opened) : Prop where
  named : o.channel.dmKey = dmKey t.participants
  found : o.created = false → o.channel ∈ s.channels.values ∧ t.added = []
  drawn : o.created = true → o.channel.id ∈ s.drawn
  new : o.created = true → ∀ c ∈ s.channels.values, c.id ≠ o.channel.id ∧ c.dmKey ≠ o.channel.dmKey
  added : o.created = true → ∀ m ∈ t.added, m.channelId = o.channel.id
  meant : o.created = true → ∀ u, Meant t.participants u ↔ Meant t.rest u ∨ (o.channel.id, u) ∈ t.added.map Member.key

structure Opening (s : World) (t : Tx) : Prop where
  proper : Proper t.participants
  mine : t.me.text ∈ t.participants
  part : t.rest ⊆ t.participants
  holding : ∀ o ∈ t.opened, Holding s t o
  begins : t.opened = none → t.rest = t.participants ∧ t.added = []

structure Kept (s : World) : Prop where
  keys : ∀ c ∈ s.channels.values, ∀ d ∈ s.channels.values, c.dmKey = d.dmKey → c = d
  people : ∀ c ∈ s.channels.values, ∃ ids, Proper ids ∧ c.dmKey = dmKey ids ∧ ∀ u, s.people c u ↔ Meant ids u
  homes : ∀ k, s.members.has k = true → s.channels.has k.1 = true
  drawn : ∀ c ∈ s.channels.values, c.id ∈ s.drawn
  openings : ∀ t ∈ s.txs.values, Opening s t
  exclusive : ∀ t ∈ s.txs.values, ∀ o ∈ t.opened, ∀ u ∈ s.txs.values, ∀ p ∈ u.opened,
    o.channel.dmKey = p.channel.dmKey ∨ o.channel.id = p.channel.id → t = u
  replies : ∀ r ∈ s.replies, Proper r.participants ∧ r.me.text ∈ r.participants ∧
    ∃ c ∈ s.channels.values, c.id = r.channel ∧ c.dmKey = dmKey r.participants
  announced : s.announced.Nodup ∧ ∀ id, id ∈ s.announced ↔ s.channels.has id = true

theorem kept_empty : Kept World.empty where
  keys _ h := absurd h List.not_mem_nil
  people _ h := absurd h List.not_mem_nil
  homes _ h := nomatch h
  drawn _ h := absurd h List.not_mem_nil
  openings _ h := absurd h List.not_mem_nil
  exclusive _ h := absurd h List.not_mem_nil
  replies _ h := absurd h List.not_mem_nil
  announced := ⟨.nil, fun _ => ⟨fun h => absurd h List.not_mem_nil, nofun⟩⟩

theorem mem_set {t' u : Tx} {txs : Keyed Tx.id} (h : u ∈ (txs.set t').values) :
    u = t' ∨ u ∈ txs.values ∧ u.id ≠ t'.id := by
  obtain ⟨-, rfl⟩ | ⟨hne, hold⟩ := Keyed.get?_set_cases (Keyed.mem_values.mp h)
  · exact .inl rfl
  · exact .inr ⟨Keyed.mem_values.mpr hold, fun heq => hne heq.symm⟩

/-- What an opening knows, where the channels are as they were and more ids are drawn. -/
theorem Opening.mono (h : Opening s t) (hchannels : s'.channels = s.channels) (hdrawn : s.drawn ⊆ s'.drawn) :
    Opening s' t := by
  refine ⟨h.proper, h.mine, h.part, ?_, h.begins⟩
  intro o ho
  obtain ⟨hnamed, hfound, hdrew, hnew, hadded, hmeant⟩ := h.holding o ho
  exact ⟨hnamed, hchannels ▸ hfound, fun hc => hdrawn (hdrew hc), hchannels ▸ hnew, hadded, hmeant⟩

namespace Kept

/-- An opening begins or goes on. -/
theorem advance (inv : Kept s) {t' : Tx} {drawn : List ChannelId} (hdrawn : s.drawn ⊆ drawn)
    (hopening : Opening { s.advance t' with drawn := drawn } t')
    (hexclusive : ∀ o ∈ t'.opened, ∀ u ∈ s.txs.values, u.id ≠ t'.id → ∀ p ∈ u.opened,
      o.channel.dmKey ≠ p.channel.dmKey ∧ o.channel.id ≠ p.channel.id) :
    Kept { s.advance t' with drawn := drawn } := by
  refine ⟨inv.keys, inv.people, inv.homes, fun c hc => hdrawn (inv.drawn c hc), ?_, ?_, inv.replies, inv.announced⟩
  · intro u hu
    obtain rfl | ⟨hold, -⟩ := mem_set hu
    · exact hopening
    · exact (inv.openings u hold).mono rfl hdrawn
  · intro t ht o ho u hu p hp hsame
    obtain rfl | ⟨htold, htne⟩ := mem_set ht <;> obtain rfl | ⟨huold, hune⟩ := mem_set hu
    · rfl
    · obtain ⟨hkey, hid⟩ := hexclusive o ho u huold hune p hp
      exact (hsame.elim hkey hid).elim
    · obtain ⟨hkey, hid⟩ := hexclusive p hp t htold htne o ho
      exact (hsame.elim (fun h => hkey h.symm) fun h => hid h.symm).elim
    · exact inv.exclusive t htold o ho u huold p hp hsame

/-- It keeps hold of what it holds. -/
theorem goesOn (inv : Kept s) (ht : t ∈ s.txs.values) {t' : Tx} (hid : t'.id = t.id) (hopened : t'.opened = t.opened)
    (hopening : Opening (s.advance t') t') : Kept (s.advance t') := by
  refine inv.advance (fun _ h => h) hopening ?_
  intro o ho u hu hne p hp
  have hto : o ∈ t.opened := hopened ▸ ho
  have hneq : t ≠ u := by
    rintro rfl
    exact hne hid.symm
  exact ⟨fun h => hneq (inv.exclusive t ht o hto u hu p hp (.inl h)),
    fun h => hneq (inv.exclusive t ht o hto u hu p hp (.inr h))⟩

theorem begin (inv : Kept s) {tx : Nat} {view : View} {caller : Caller} {ids participants : List Text}
    (h : participantsOf view caller ids = .ok participants) :
    Kept (s.advance ⟨tx, caller.id, participants, none, participants, [], false⟩) := by
  obtain ⟨hproper, hmine⟩ := participantsOf_spec h
  refine inv.advance (fun _ h => h) ⟨hproper, hmine, fun _ h => h, ?_, fun _ => ⟨rfl, rfl⟩⟩ ?_
  · exact fun _ ho => nomatch ho
  · exact fun _ ho => nomatch ho

/-- No other opening holds a key. -/
theorem free_key {key : Text} (hfree : s.heldKey key = false) {u : Tx} (hu : u ∈ s.txs.values) {p : Opened}
    (hp : p ∈ u.opened) : key ≠ p.channel.dmKey := by
  rintro rfl
  have hheld : s.heldKey p.channel.dmKey = true := by
    refine List.any_eq_true.mpr ⟨u, hu, ?_⟩
    rw [Option.mem_def.mp hp, Option.any_some, beq_self_eq_true]
  rw [hfree] at hheld
  cases hheld

/-- The channel is there. -/
theorem finds (inv : Kept s) (ht : t ∈ s.txs.values) (hnone : t.opened = none)
    (hfree : s.heldKey (dmKey t.participants) = false) {channel : Channel} (hmem : channel ∈ s.channels.values)
    (hkey : channel.dmKey = dmKey t.participants) : Kept (s.advance { t with opened := some ⟨channel, false⟩ }) := by
  have hopening := inv.openings t ht
  obtain ⟨hrest, hadded⟩ := hopening.begins hnone
  refine inv.advance (fun _ h => h) ⟨hopening.proper, hopening.mine, hopening.part, ?_, nofun⟩ ?_
  · rintro _ ⟨⟩
    exact ⟨hkey, fun _ => ⟨hmem, hadded⟩, nofun, nofun, nofun, nofun⟩
  · rintro _ ⟨⟩ u hu _ p hp
    have hkeys : channel.dmKey ≠ p.channel.dmKey := hkey ▸ free_key hfree hu hp
    refine ⟨hkeys, ?_⟩
    intro hid
    obtain ⟨-, hfound, -, hnew, -, -⟩ := (inv.openings u hu).holding p hp
    cases hcreated : p.created with
    | true => exact (hnew hcreated channel hmem).1 hid
    | false =>
      have hsame := List.inj_on_of_nodup_map s.channels.nodup hmem (hfound hcreated).1 hid
      exact hkeys (congrArg Channel.dmKey hsame)

/-- The channel is made. -/
theorem makes (inv : Kept s) (ht : t ∈ s.txs.values) (hnone : t.opened = none)
    (hfree : s.heldKey (dmKey t.participants) = false)
    (hnew : ∀ c ∈ s.channels.values, c.dmKey ≠ dmKey t.participants) {id : ChannelId} (hid : id ∉ s.drawn) :
    Kept
      { s.advance { t with opened := some ⟨⟨id, dmKey t.participants⟩, true⟩ } with drawn := s.drawn ++ [id] } := by
  have hopening := inv.openings t ht
  obtain ⟨hrest, hadded⟩ := hopening.begins hnone
  have hgrows : s.drawn ⊆ s.drawn ++ [id] := fun _ h => List.mem_append_left _ h
  refine inv.advance hgrows ⟨hopening.proper, hopening.mine, hopening.part, ?_, nofun⟩ ?_
  · rintro _ ⟨⟩
    refine ⟨rfl, nofun, fun _ => List.mem_append_right _ List.mem_cons_self, fun _ c hc => ⟨?_, hnew c hc⟩, ?_, ?_⟩
    · rintro rfl
      exact hid (inv.drawn c hc)
    · rw [show Tx.added _ = [] from hadded]
      exact fun _ _ h => absurd h List.not_mem_nil
    · intro _ u
      rw [show Tx.rest _ = t.participants from hrest, show Tx.added _ = [] from hadded]
      exact (or_iff_left List.not_mem_nil).symm
  · rintro _ ⟨⟩ u hu _ p hp
    refine ⟨free_key hfree hu hp, ?_⟩
    rintro rfl
    obtain ⟨-, hfound, hdrew, -, -, -⟩ := (inv.openings u hu).holding p hp
    cases hcreated : p.created with
    | true => exact hid (hdrew hcreated)
    | false => exact hid (inv.drawn _ (hfound hcreated).1)

/-- Whoever is meant by an opening's ids is in the channel it found. -/
theorem found_people (inv : Kept s) (ht : t ∈ s.txs.values) (ho : o ∈ t.opened) (hcreated : o.created = false)
    (u : UserId) : s.people o.channel u ↔ Meant t.participants u := by
  have hopening := inv.openings t ht
  obtain ⟨hnamed, hfound, -, -, -, -⟩ := hopening.holding o ho
  obtain ⟨ids, hproper, hkey, hpeople⟩ := inv.people o.channel (hfound hcreated).1
  exact (hpeople u).trans (meant_perm (hproper.perm hopening.proper (hkey.symm.trans hnamed)) u)

/-- Someone is added, or is there. -/
theorem adds (inv : Kept s) (ht : t ∈ s.txs.values) (ho : o ∈ t.opened) {id : Text} {rest : List Text}
    (hrest : t.rest = id :: rest) {user : UserId} (hread : Uuid.read id = some user) :
    Kept (if s.members.has (o.channel.id, user) = true ∨ (o.channel.id, user) ∈ t.added.map Member.key then
        s.advance { t with rest := rest }
      else s.advance { t with rest := rest, added := t.added ++ [⟨o.channel.id, user, none⟩] }) := by
  have hopening := inv.openings t ht
  obtain ⟨hnamed, hfound, hdrew, hnew, hadded, hmeant⟩ := hopening.holding o ho
  have hpart : rest ⊆ t.participants := fun other hother => hopening.part (hrest ▸ List.mem_cons_of_mem _ hother)
  have hstep : ∀ u, Meant t.rest u ↔ u = user ∨ Meant rest u := by
    intro u
    rw [hrest]
    constructor
    · rintro ⟨other, hother, hu⟩
      obtain rfl | hother := List.mem_cons.mp hother
      · exact .inl (Option.some.inj (hu.symm.trans hread))
      · exact .inr ⟨other, hother, hu⟩
    · rintro (rfl | ⟨other, hother, hu⟩)
      · exact ⟨id, List.mem_cons_self, hread⟩
      · exact ⟨other, List.mem_cons_of_mem _ hother, hu⟩
  have hnotNone : t.opened ≠ none := by
    rw [Option.mem_def.mp ho]
    exact nofun
  split
  · rename_i hthere
    refine inv.goesOn ht rfl rfl ⟨hopening.proper, hopening.mine, hpart, ?_, fun h => absurd h hnotNone⟩
    intro p hp
    obtain rfl := Option.mem_unique ho hp
    refine ⟨hnamed, hfound, hdrew, hnew, hadded, ?_⟩
    intro hcreated u
    rw [hmeant hcreated u, hstep u, or_assoc]
    have hin : (o.channel.id, user) ∈ t.added.map Member.key := by
      refine hthere.resolve_left fun hhas => ?_
      -- no channel has the id it made, so no member has
      obtain ⟨c, hc⟩ := Keyed.has_eq_true.mp (inv.homes _ hhas)
      exact (hnew hcreated c (Keyed.mem_values.mpr (Keyed.key_of_get? hc ▸ hc))).1 (Keyed.key_of_get? hc)
    constructor
    · rintro (rfl | h)
      · exact .inr hin
      · exact h
    · exact .inr
  · rename_i hmissing
    refine inv.goesOn ht rfl rfl ⟨hopening.proper, hopening.mine, hpart, ?_, fun h => absurd h hnotNone⟩
    intro p hp
    obtain rfl := Option.mem_unique ho hp
    refine ⟨hnamed, ?_, hdrew, hnew, ?_, ?_⟩
    · intro hcreated
      have hin : s.people o.channel user := by
        refine (inv.found_people ht ho hcreated user).mpr ⟨id, hopening.part ?_, hread⟩
        rw [hrest]
        exact List.mem_cons_self
      exact absurd (.inl hin) hmissing
    · intro hcreated m hm
      obtain hold | hlast := List.mem_append.mp hm
      · exact hadded hcreated m hold
      · obtain rfl := List.mem_singleton.mp hlast
        rfl
    · intro hcreated u
      rw [hmeant hcreated u, hstep u, List.map_append, List.mem_append, List.map_singleton, List.mem_singleton]
      show _ ↔ _ ∨ _ ∨ (o.channel.id, u) = (o.channel.id, user)
      rw [Prod.mk.injEq]
      tauto

theorem reopens (inv : Kept s) (ht : t ∈ s.txs.values) : Kept (s.advance { t with reopened := true }) := by
  obtain ⟨hproper, hmine, hpart, hholding, hbegins⟩ := inv.openings t ht
  refine inv.goesOn ht rfl rfl ⟨hproper, hmine, hpart, ?_, hbegins⟩
  intro o ho
  obtain ⟨hnamed, hfound, hdrew, hnew, hadded, hmeant⟩ := hholding o ho
  exact ⟨hnamed, hfound, hdrew, hnew, hadded, hmeant⟩

/-- Openings given up. -/
theorem drop (inv : Kept s) (p : Tx → Bool) : Kept { s with txs := s.txs.filter p } := by
  have hopen : ∀ u ∈ (s.txs.filter p).values, u ∈ s.txs.values := fun u hu => (List.mem_filter.mp hu).1
  refine ⟨inv.keys, inv.people, inv.homes, inv.drawn, ?_, ?_, inv.replies, inv.announced⟩
  · intro u hu
    exact (inv.openings u (hopen u hu)).mono rfl fun _ h => h
  · intro t ht o ho u hu
    exact inv.exclusive t (hopen t ht) o ho u (hopen u hu)

/-- Rows are closed, or reopened. -/
theorem closes (inv : Kept s) (p : Member → Bool) (closed : Option Time) :
    Kept { s with members := World.setClosed s.members p closed } := by
  refine ⟨inv.keys, ?_, ?_, inv.drawn, fun t ht => (inv.openings t ht).mono rfl fun _ h => h, inv.exclusive,
    inv.replies, inv.announced⟩
  · intro c hc
    obtain ⟨ids, hproper, hkey, hpeople⟩ := inv.people c hc
    refine ⟨ids, hproper, hkey, fun u => ?_⟩
    rw [World.people, has_setClosed]
    exact hpeople u
  · intro k hk
    rw [has_setClosed] at hk
    exact inv.homes k hk

end Kept

/-- A state after an opening has committed. -/
def World.after (s : World) (t : Tx) (o : Opened) : World :=
  { s with
    channels := if o.created then s.channels.set o.channel else s.channels
    members := World.setClosed (s.members.setAll t.added) (·.key == (o.channel.id, t.me)) none
    txs := s.txs.filter (·.id != t.id)
    replies := s.replies ++ [⟨t.me, t.participants, o.channel.id⟩]
    announced := s.announced ++ if o.created then [o.channel.id] else [] }

namespace Kept

theorem mem_after (inv : Kept s) (ht : t ∈ s.txs.values) (ho : o ∈ t.opened) {c : Channel} :
    c ∈ (s.after t o).channels.values ↔ c = o.channel ∨ c ∈ s.channels.values := by
  obtain ⟨-, hfound, -, hnew, -, -⟩ := (inv.openings t ht).holding o ho
  show c ∈ (if o.created = true then s.channels.set o.channel else s.channels).values ↔ _
  cases hcreated : o.created with
  | false =>
    rw [if_neg Bool.false_ne_true]
    constructor
    · exact .inr
    · rintro (rfl | h)
      · exact (hfound hcreated).1
      · exact h
  | true =>
    have hnone : s.channels.get? o.channel.id = none :=
      Keyed.get?_eq_none.mpr fun d hd => (hnew hcreated d hd).1
    rw [if_pos rfl, Keyed.values_set_new hnone, List.mem_append, List.mem_singleton]
    exact or_comm

theorem has_after (k : ChannelId × UserId) :
    (s.after t o).members.has k = true ↔ k ∈ t.added.map Member.key ∨ s.members.has k = true := by
  show (World.setClosed (s.members.setAll t.added) _ none).has k = true ↔ _
  rw [has_setClosed, Keyed.has_setAll]

/-- The others' people are as they were. -/
theorem people_after (inv : Kept s) (ht : t ∈ s.txs.values) (ho : o ∈ t.opened) {c : Channel}
    (hc : c ∈ s.channels.values) (u : UserId) : (s.after t o).people c u ↔ s.people c u := by
  obtain ⟨-, hfound, -, hnew, hadded, -⟩ := (inv.openings t ht).holding o ho
  rw [World.people, has_after]
  refine or_iff_right ?_
  intro hmem
  obtain ⟨m, hm, hkey⟩ := List.mem_map.mp hmem
  cases hcreated : o.created with
  | false =>
    rw [(hfound hcreated).2] at hm
    exact absurd hm List.not_mem_nil
  | true => exact (hnew hcreated c hc).1 ((congrArg Prod.fst hkey).symm.trans (hadded hcreated m hm))

/-- Its own are those it was opened for. -/
theorem own_people (inv : Kept s) (ht : t ∈ s.txs.values) (ho : o ∈ t.opened) (hrest : t.rest = []) (u : UserId) :
    (s.after t o).people o.channel u ↔ Meant t.participants u := by
  obtain ⟨-, hfound, -, hnew, -, hmeant⟩ := (inv.openings t ht).holding o ho
  cases hcreated : o.created with
  | false => exact (inv.people_after ht ho (hfound hcreated).1 u).trans (inv.found_people ht ho hcreated u)
  | true =>
    rw [World.people, has_after, hmeant hcreated u, hrest]
    have hnobody : s.members.has (o.channel.id, u) ≠ true := by
      intro hhas
      obtain ⟨c, hc⟩ := Keyed.has_eq_true.mp (inv.homes _ hhas)
      exact (hnew hcreated c (Keyed.mem_values.mpr (Keyed.key_of_get? hc ▸ hc))).1 (Keyed.key_of_get? hc)
    have hmeantNone : ¬Meant [] u := by
      rintro ⟨id, hid, -⟩
      exact List.not_mem_nil hid
    rw [or_iff_left hnobody, or_iff_right hmeantNone]

theorem commit (inv : Kept s) (ht : t ∈ s.txs.values) (ho : o ∈ t.opened) (hrest : t.rest = []) :
    Kept (s.after t o) := by
  have hopening := inv.openings t ht
  obtain ⟨hnamed, hfound, hdrew, hnew, hadded, hmeant⟩ := hopening.holding o ho
  have hopen : ∀ u ∈ (s.after t o).txs.values, u ∈ s.txs.values ∧ t ≠ u := by
    intro u hu
    obtain ⟨hmem, hne⟩ := List.mem_filter.mp hu
    refine ⟨hmem, ?_⟩
    rintro rfl
    exact bne_iff_ne.mp hne rfl
  have hhas : ∀ id, (s.after t o).channels.has id = true ↔ id = o.channel.id ∨ s.channels.has id = true := by
    intro id
    have hiff : ∀ w : World, w.channels.has id = true ↔ ∃ c ∈ w.channels.values, c.id = id := by
      intro w
      rw [Keyed.has_eq_true]
      exact ⟨fun ⟨c, hc⟩ => ⟨c, (Keyed.get?_eq_some.mp hc).1, Keyed.key_of_get? hc⟩,
        fun ⟨c, hc, hid⟩ => ⟨c, hid ▸ Keyed.mem_values.mp hc⟩⟩
    rw [hiff, hiff]
    constructor
    · rintro ⟨c, hc, rfl⟩
      obtain rfl | hold := (inv.mem_after ht ho).mp hc
      · exact .inl rfl
      · exact .inr ⟨c, hold, rfl⟩
    · rintro (rfl | ⟨c, hc, rfl⟩)
      · exact ⟨o.channel, (inv.mem_after ht ho).mpr (.inl rfl), rfl⟩
      · exact ⟨c, (inv.mem_after ht ho).mpr (.inr hc), rfl⟩
  have hkeys : ∀ c ∈ s.channels.values, c.dmKey = o.channel.dmKey → c = o.channel := by
    intro c hc hkey
    cases hcreated : o.created with
    | false => exact inv.keys c hc o.channel (hfound hcreated).1 hkey
    | true => exact absurd hkey (hnew hcreated c hc).2
  refine ⟨?_, ?_, ?_, ?_, ?_, ?_, ?_, ?_⟩
  · intro c hc d hd hkey
    obtain rfl | hcold := (inv.mem_after ht ho).mp hc <;> obtain rfl | hdold := (inv.mem_after ht ho).mp hd
    · rfl
    · exact (hkeys d hdold hkey.symm).symm
    · exact hkeys c hcold hkey
    · exact inv.keys c hcold d hdold hkey
  · intro c hc
    obtain rfl | hold := (inv.mem_after ht ho).mp hc
    · exact ⟨t.participants, hopening.proper, hnamed, inv.own_people ht ho hrest⟩
    · obtain ⟨ids, hproper, hkey, hpeople⟩ := inv.people c hold
      exact ⟨ids, hproper, hkey, fun u => (inv.people_after ht ho hold u).trans (hpeople u)⟩
  · intro k hk
    rw [hhas]
    obtain hmem | hold := (has_after k).mp hk
    · obtain ⟨m, hm, rfl⟩ := List.mem_map.mp hmem
      cases hcreated : o.created with
      | false =>
        rw [(hfound hcreated).2] at hm
        exact absurd hm List.not_mem_nil
      | true => exact .inl (hadded hcreated m hm)
    · exact .inr (inv.homes k hold)
  · intro c hc
    obtain rfl | hold := (inv.mem_after ht ho).mp hc
    · cases hcreated : o.created with
      | false => exact inv.drawn _ (hfound hcreated).1
      | true => exact hdrew hcreated
    · exact inv.drawn c hold
  · intro u hu
    obtain ⟨hmem, hne⟩ := hopen u hu
    obtain ⟨hproper, hmine, hpart, hholding, hbegins⟩ := inv.openings u hmem
    refine ⟨hproper, hmine, hpart, ?_, hbegins⟩
    intro p hp
    obtain ⟨hpnamed, hpfound, hpdrew, hpnew, hpadded, hpmeant⟩ := hholding p hp
    refine ⟨hpnamed, ?_, hpdrew, ?_, hpadded, hpmeant⟩
    · intro hcreated
      exact (hpfound hcreated).imp_left fun h => (inv.mem_after ht ho).mpr (.inr h)
    · intro hcreated c hc
      obtain rfl | hold := (inv.mem_after ht ho).mp hc
      · exact ⟨fun hid => hne (inv.exclusive t ht o ho u hmem p hp (.inr hid)),
          fun hkey => hne (inv.exclusive t ht o ho u hmem p hp (.inl hkey))⟩
      · exact hpnew hcreated c hold
  · intro u hu p hp v hv
    exact inv.exclusive u (hopen u hu).1 p hp v (hopen v hv).1
  · intro r hr
    obtain hold | hlast := List.mem_append.mp hr
    · obtain ⟨hproper, hmine, c, hc, hid, hkey⟩ := inv.replies r hold
      exact ⟨hproper, hmine, c, (inv.mem_after ht ho).mpr (.inr hc), hid, hkey⟩
    · obtain rfl := List.mem_singleton.mp hlast
      exact ⟨hopening.proper, hopening.mine, o.channel, (inv.mem_after ht ho).mpr (.inl rfl), rfl, hnamed⟩
  · obtain ⟨hnodup, hannounced⟩ := inv.announced
    show (s.announced ++ if o.created = true then [o.channel.id] else []).Nodup ∧ ∀ id,
      id ∈ (s.announced ++ if o.created = true then [o.channel.id] else []) ↔ _
    simp only [hhas]
    cases hcreated : o.created with
    | false =>
      rw [if_neg Bool.false_ne_true, List.append_nil]
      refine ⟨hnodup, fun id => (hannounced id).trans ⟨.inr, ?_⟩⟩
      rintro (rfl | h)
      · exact Keyed.has_eq_true.mpr ⟨o.channel, Keyed.mem_values.mp (hfound hcreated).1⟩
      · exact h
    | true =>
      rw [if_pos rfl]
      have hfirst : o.channel.id ∉ s.announced := by
        rw [hannounced]
        intro hthere
        obtain ⟨c, hc⟩ := Keyed.has_eq_true.mp hthere
        exact (hnew hcreated c (Keyed.mem_values.mpr (Keyed.key_of_get? hc ▸ hc))).1 (Keyed.key_of_get? hc)
      refine ⟨List.nodup_append.mpr ⟨hnodup, List.nodup_singleton _, ?_⟩, fun id => ?_⟩
      · rintro id hid other hother rfl
        exact hfirst (List.mem_singleton.mp hother ▸ hid)
      · rw [List.mem_append, List.mem_singleton, hannounced, or_comm]

end Kept

/-! ## Every run -/

/-- Every conversation is still there, with the people it had. -/
def Stays (s s' : World) : Prop :=
  ∀ c ∈ s.channels.values, c ∈ s'.channels.values ∧ ∀ u, s'.people c u ↔ s.people c u

theorem Stays.refl (s : World) : Stays s s := fun _ hc => ⟨hc, fun _ => Iff.rfl⟩

theorem Stays.trans {s s' s'' : World} (h : Stays s s') (h' : Stays s' s'') : Stays s s'' := by
  intro c hc
  obtain ⟨hmem, hpeople⟩ := h c hc
  obtain ⟨hmem', hpeople'⟩ := h' c hmem
  exact ⟨hmem', fun u => (hpeople' u).trans (hpeople u)⟩

theorem stays_closes (s : World) (p : Member → Bool) (closed : Option Time) :
    Stays s { s with members := World.setClosed s.members p closed } := by
  intro c hc
  refine ⟨hc, fun u => ?_⟩
  rw [World.people, has_setClosed]
  rfl

namespace Kept

/-- Each step keeps what is kept, and every conversation. -/
theorem step (inv : Kept s) (a : Label) (hstep : s.step a = some s') : Kept s' ∧ Stays s s' := by
  cases a with
  | openDirectMessage tx view caller ids =>
    simp only [World.step] at hstep
    split at hstep
    · rw [← Option.some.inj hstep]
      exact ⟨inv, .refl s⟩
    · rename_i participants hparticipants
      obtain ⟨-, ⟨⟩⟩ := Option.ite_none_left_eq_some.mp hstep
      exact ⟨inv.begin hparticipants, .refl s⟩
  | openDMChannel tx id =>
    obtain ⟨t, ht, hopens⟩ := Option.bind_eq_some_iff.mp hstep
    have ht := Keyed.mem_values.mpr (Keyed.key_of_get? ht ▸ ht)
    obtain ⟨hfree, hopens⟩ := Option.ite_none_left_eq_some.mp hopens
    obtain ⟨hnone, hfree⟩ := not_or.mp hfree
    have hnone : t.opened = none := by
      simpa using hnone
    have hfree : s.heldKey (dmKey t.participants) = false := by
      simpa using hfree
    split at hopens
    · rename_i channel hfind
      obtain ⟨⟩ := hopens
      have hkey := List.find?_some hfind
      exact ⟨inv.finds ht hnone hfree (List.mem_of_find?_eq_some hfind) (eq_of_beq hkey), .refl s⟩
    · rename_i hfind
      obtain ⟨hid, ⟨⟩⟩ := Option.ite_none_left_eq_some.mp hopens
      refine ⟨inv.makes ht hnone hfree ?_ hid, .refl s⟩
      intro c hc hkey
      exact List.find?_eq_none.mp hfind c hc (beq_iff_eq.mpr hkey)
  | addDMMember tx =>
    obtain ⟨t, ht, hadds⟩ := Option.bind_eq_some_iff.mp hstep
    have ht := Keyed.mem_values.mpr (Keyed.key_of_get? ht ▸ ht)
    obtain ⟨o, ho, hadds⟩ := Option.bind_eq_some_iff.mp hadds
    split at hadds
    · cases hadds
    · rename_i id rest hrest
      obtain ⟨user, hread, rfl⟩ := Option.map_eq_some_iff.mp hadds
      refine ⟨inv.adds ht ho hrest hread, ?_⟩
      split
      · exact .refl s
      · exact .refl s
  | reopen tx =>
    obtain ⟨t, ht, hreopens⟩ := Option.bind_eq_some_iff.mp hstep
    have ht := Keyed.mem_values.mpr (Keyed.key_of_get? ht ▸ ht)
    obtain ⟨-, ⟨⟩⟩ := Option.ite_none_right_eq_some.mp hreopens
    exact ⟨inv.reopens ht, .refl s⟩
  | commit tx =>
    obtain ⟨t, ht, hcommits⟩ := Option.bind_eq_some_iff.mp hstep
    obtain rfl := Keyed.key_of_get? ht
    have ht := Keyed.mem_values.mpr ht
    obtain ⟨o, ho, hcommits⟩ := Option.bind_eq_some_iff.mp hcommits
    obtain ⟨⟨hrest, -⟩, ⟨⟩⟩ := Option.ite_none_right_eq_some.mp hcommits
    exact ⟨inv.commit ht ho hrest, fun c hc => ⟨(inv.mem_after ht ho).mpr (.inr hc), inv.people_after ht ho hc⟩⟩
  | rollback tx =>
    obtain ⟨⟩ := hstep
    exact ⟨inv.drop _, .refl s⟩
  | setDirectMessageClosed me channel closed =>
    obtain ⟨-, ⟨⟩⟩ := Option.ite_none_left_eq_some.mp hstep
    exact ⟨inv.closes _ _, stays_closes s _ _⟩
  | reopenDM channel =>
    obtain ⟨-, ⟨⟩⟩ := Option.ite_none_left_eq_some.mp hstep
    exact ⟨inv.closes _ _, stays_closes s _ _⟩

theorem runs (run : Runs World.step Always World.empty s) : Kept s :=
  run.keeps kept_empty fun _ a _ inv _ hstep => (inv.step a hstep).1

theorem stays (inv : Kept s) (run : Runs World.step Always s s') : Stays s s' := by
  have hboth : Kept s' ∧ Stays s s' := by
    induction run with
    | refl => exact ⟨inv, .refl s⟩
    | tail _ _ hstep ih =>
      obtain ⟨hnext, hstep⟩ := ih.1.step _ hstep
      exact ⟨hnext, ih.2.trans hstep⟩
  exact hboth.2

/-- Two conversations of the same people are one, where their keys are of ids as they are written. -/
theorem one (inv : Kept s) {c d : Channel} (hc : c ∈ s.channels.values) (hd : d ∈ s.channels.values) (hplain : c.Plain)
    (hplain' : d.Plain) (hpeople : ∀ u, s.people c u ↔ s.people d u) : c = d := by
  have hmeant : ∀ e ∈ s.channels.values, ∀ us : List UserId, us ≠ [] → e.dmKey = dmKey (us.map Uuid.text) →
      us.Nodup ∧ ∀ u, s.people e u ↔ u ∈ us := by
    intro e he us hne hkey
    obtain ⟨ids, hproper, hkey', hpeople⟩ := inv.people e he
    have hcolon : ∀ id ∈ us.map Uuid.text, ':' ∉ id := by
      intro id hid
      obtain ⟨u, -, rfl⟩ := List.mem_map.mp hid
      exact colon_of_read ((Uuid.read_text u).symm ▸ rfl)
    have hperm : (us.map Uuid.text).Perm ids :=
      dmKey_inj hcolon (fun id hid => colon_of_read (hproper.read id hid)) (fun h => hne (List.map_eq_nil_iff.mp h))
        hproper.ne_nil (hkey.symm.trans hkey')
    refine ⟨List.Nodup.of_map _ (hperm.nodup_iff.mpr hproper.nodup), fun u => ?_⟩
    rw [hpeople u, ← meant_perm hperm u, meant_text]
  obtain ⟨us, hne, hkey⟩ := hplain
  obtain ⟨vs, hne', hkey'⟩ := hplain'
  obtain ⟨hnodup, hus⟩ := hmeant c hc us hne hkey
  obtain ⟨hnodup', hvs⟩ := hmeant d hd vs hne' hkey'
  have hperm : us.Perm vs := by
    refine (List.perm_ext_iff_of_nodup hnodup hnodup').mpr fun u => ?_
    rw [← hus u, ← hvs u, hpeople u]
  refine inv.keys c hc d hd ?_
  rw [hkey, hkey', dmKey_perm (hperm.map Uuid.text)]

end Kept

/-- **One conversation for the same people**, in every run of openings, closings and reopenings in any order: openings
for the same ids come to one channel and for others to another, its people are those the ids name, everyone who opened
it among them, and stay so; each channel is announced once; and two channels have the same people only if one of them
was opened by an id not written as ids are. -/
theorem conversations (run : Runs World.step Always World.empty s) :
    Conversations s ∧ ∀ s', Runs World.step Always s s' → Stays s s' := by
  have inv := Kept.runs run
  refine ⟨⟨inv.people, fun c hc d hd => inv.one hc hd, ?_, ?_, inv.announced⟩, fun s' => inv.stays⟩
  · intro r hr
    obtain ⟨hproper, hmine, c, hc, hid, hkey⟩ := inv.replies r hr
    obtain ⟨ids, hids, hkey', hpeople⟩ := inv.people c hc
    have hmeant : ∀ u, s.people c u ↔ Meant r.participants u := fun u =>
      (hpeople u).trans (meant_perm (hids.perm hproper (hkey'.symm.trans hkey)) u)
    exact ⟨c, hc, hid, (hmeant r.me).mpr ⟨_, hmine, Uuid.read_text r.me⟩, hmeant⟩
  · intro r hr q hq
    obtain ⟨hproper, -, c, hc, hid, hkey⟩ := inv.replies r hr
    obtain ⟨hproper', -, d, hd, hid', hkey'⟩ := inv.replies q hq
    constructor
    · intro hsame
      obtain rfl := List.inj_on_of_nodup_map s.channels.nodup hc hd (hid.trans (hsame.trans hid'.symm))
      exact hproper.perm hproper' (hkey.symm.trans hkey')
    · intro hperm
      have heq : c = d := inv.keys c hc d hd (by rw [hkey, hkey', dmKey_perm hperm])
      rw [← hid, ← hid', heq]

def ann : UserId := ⟨List.replicate 16 10, rfl⟩

def bob : UserId := ⟨List.replicate 16 11, rfl⟩

def neighbours : View := ⟨(Keyed.empty.set ⟨ann, .person⟩).set ⟨bob, .person⟩, [(1, ann), (1, bob)], []⟩

/-- One opening, by itself. -/
def opening (tx : Nat) (me : UserId) (ids : List Text) (channel : ChannelId) : List Label :=
  [.openDirectMessage tx neighbours ⟨me, .person, false⟩ ids, .openDMChannel tx channel, .addDMMember tx,
    .addDMMember tx, .reopen tx, .commit tx]

/-- Each opens a conversation with the other at once. -/
def atOnce : List Label :=
  [.openDirectMessage 1 neighbours ⟨ann, .person, false⟩ [bob.text],
    .openDirectMessage 2 neighbours ⟨bob, .person, false⟩ [ann.text], .openDMChannel 1 7, .addDMMember 1,
    .addDMMember 1, .reopen 1, .commit 1, .openDMChannel 2 8, .addDMMember 2, .addDMMember 2, .reopen 2, .commit 2]

theorem conversations_atOnce : ∃ s, runList World.step World.empty atOnce = some s ∧
    s.replies.map (·.channel) = [7, 7] ∧ Conversations s := by
  have hrun : ((runList World.step World.empty atOnce).map fun s => s.replies.map (·.channel)) = some [7, 7] := by
    decide +kernel
  obtain ⟨s, hs, hreplies⟩ := Option.map_eq_some_iff.mp hrun
  exact ⟨s, hs, hreplies, (conversations (.ofList _ (.always _ _) hs)).1⟩

/-- Asked for in capitals, the same two have a second one. -/
example :
    ((runList World.step World.empty (opening 1 ann [bob.text] 7 ++ opening 2 ann [bob.text.map Char.toUpper] 8)).map
      fun s => s.members.values.map Member.key) = some [(7, ann), (7, bob), (8, ann), (8, bob)] := by
  decide +kernel

end Stoop.Direct
