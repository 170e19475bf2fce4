import Mathlib.Data.List.Nodup

/-!
# Keyed lists: insertion-ordered maps whose values carry their keys

A `Keyed key` is a list of values no two of which share a key: the map of a language whose maps
keep insertion order, for values that know their own key. A value cannot be filed under another
key, and a key cannot be there twice, so neither has to be excluded again.

The laws say what each operation does to a lookup; nothing outside this module looks at the list.
-/

set_option autoImplicit false

namespace Stoop.Lib

variable {κ α : Type}

/-- Values under their own keys, oldest first. -/
structure Keyed (key : α → κ) where
  list : List α
  nodup : (list.map key).Nodup

namespace Keyed

variable {key : α → κ}

/-- The map that holds nothing. -/
def empty : Keyed key := ⟨[], List.nodup_nil⟩

/-- The values held, in order. -/
def values (m : Keyed key) : List α := m.list

/-- The values that satisfy `p`. -/
def filter (p : α → Bool) (m : Keyed key) : Keyed key :=
  ⟨m.list.filter p, m.nodup.sublist (List.filter_sublist.map key)⟩

/-- Each value changed, under the key it has. -/
def map (f : α → α) (h : ∀ a, key (f a) = key a) (m : Keyed key) : Keyed key :=
  ⟨m.list.map f, by
    rw [List.map_map, show key ∘ f = key from funext h]
    exact m.nodup⟩

theorem eq_of_list {m m' : Keyed key} (h : m.list = m'.list) : m = m' := by
  cases m
  cases m'
  cases h
  rfl

variable [DecidableEq κ]

/-- The value under a key. -/
def get? (m : Keyed key) (k : κ) : Option α := m.list.find? (fun a => key a == k)

/-- Whether a key is there. -/
def has (m : Keyed key) (k : κ) : Bool := (m.get? k).isSome

/-- A value under its key: in the place of the one that was there, or last. -/
def set (m : Keyed key) (a : α) : Keyed key :=
  if h : key a ∈ m.list.map key then
    ⟨m.list.map (fun b => if key b = key a then a else b), by
      rw [List.map_map, show m.list.map (key ∘ fun b => if key b = key a then a else b) =
        m.list.map key from List.map_congr_left fun b _ => by
          by_cases hb : key b = key a <;> simp [hb]]
      exact m.nodup⟩
  else
    ⟨m.list ++ [a], by
      rw [List.map_append, List.map_singleton]
      exact m.nodup.append (List.nodup_singleton _) (by simpa using h)⟩

/-- Values set one after the other. -/
def setAll (m : Keyed key) (as : List α) : Keyed key := as.foldl set m

/-! ## What an operation does to a lookup -/

theorem get?_eq_some {m : Keyed key} {k : κ} {a : α} :
    m.get? k = some a ↔ a ∈ m.list ∧ key a = k := by
  refine ⟨fun h => ⟨List.mem_of_find?_eq_some h, eq_of_beq (List.find?_some h :)⟩, ?_⟩
  rintro ⟨ha, rfl⟩
  cases hb : m.get? (key a) with
  | none => exact absurd (BEq.rfl : key a == key a) (List.find?_eq_none.mp hb a ha)
  | some b =>
    -- what the lookup found has the same key, and no two values share one
    have hkey : key b = key a := eq_of_beq (List.find?_some hb :)
    exact congrArg some
      (List.inj_on_of_nodup_map m.nodup (List.mem_of_find?_eq_some hb) ha hkey)

theorem get?_eq_none {m : Keyed key} {k : κ} :
    m.get? k = none ↔ ∀ a ∈ m.list, key a ≠ k := by
  simp only [get?, List.find?_eq_none, beq_iff_eq, ne_eq]

/-- A value found has the key it was looked up by. -/
theorem key_of_get? {m : Keyed key} {k : κ} {a : α} (h : m.get? k = some a) : key a = k :=
  (get?_eq_some.mp h).2

/-- The values of a map are what its lookups find. -/
theorem mem_values {m : Keyed key} {a : α} : a ∈ m.values ↔ m.get? (key a) = some a := by
  rw [get?_eq_some, values, and_iff_left rfl]

theorem has_eq_true {m : Keyed key} {k : κ} : m.has k = true ↔ ∃ a, m.get? k = some a := by
  rw [has, Option.isSome_iff_exists]

@[simp] theorem get?_empty (k : κ) : (empty : Keyed key).get? k = none := rfl

@[simp] theorem get?_filter (m : Keyed key) (p : α → Bool) (k : κ) :
    (m.filter p).get? k = (m.get? k).filter p := by
  cases h : m.get? k with
  | none =>
    rw [get?_eq_none] at h
    rw [Option.filter_none, get?_eq_none]
    exact fun a ha => h a (List.mem_of_mem_filter ha)
  | some a =>
    obtain ⟨ha, hk⟩ := get?_eq_some.mp h
    by_cases hp : p a = true
    · rw [Option.filter_some_pos hp, get?_eq_some]
      exact ⟨List.mem_filter.mpr ⟨ha, hp⟩, hk⟩
    · rw [Option.filter_some_neg (Bool.eq_false_iff.mpr hp), get?_eq_none]
      intro b hb hbk
      have hsame : m.get? k = some b := get?_eq_some.mpr ⟨List.mem_of_mem_filter hb, hbk⟩
      rw [h, Option.some.injEq] at hsame
      exact hp (hsame ▸ List.of_mem_filter hb)

/-- A lookup after what is under one key goes. -/
theorem get?_filter_ne (m : Keyed key) (k' k : κ) :
    (m.filter fun a => key a != k').get? k = if k = k' then none else m.get? k := by
  rw [get?_filter]
  cases h : m.get? k with
  | none => simp
  | some a =>
    have hkey := key_of_get? h
    by_cases hk : k = k' <;> simp [Option.filter, hkey, hk]

/-- Nothing goes when nothing is under the key. -/
theorem filter_ne_of_get?_none {m : Keyed key} {k : κ} (h : m.get? k = none) :
    (m.filter fun a => key a != k) = m :=
  eq_of_list (List.filter_eq_self.mpr fun a ha => bne_iff_ne.mpr (get?_eq_none.mp h a ha))

/-- The values under one key: what its lookup finds. -/
theorem filter_values_eq (m : Keyed key) (k : κ) :
    m.values.filter (fun a => key a == k) = (m.get? k).toList := by
  cases h : m.get? k with
  | none =>
    rw [get?_eq_none] at h
    exact List.filter_eq_nil_iff.mpr fun a ha => by simpa using h a ha
  | some a =>
    obtain ⟨ha, hk⟩ := get?_eq_some.mp h
    have hnodup : (m.values.filter fun b => key b == k).Nodup := (List.Nodup.of_map key m.nodup).filter _
    refine List.perm_singleton.mp ((List.perm_ext_iff_of_nodup hnodup (List.nodup_singleton a)).mpr fun b => ?_)
    rw [List.mem_filter, List.mem_singleton, beq_iff_eq]
    constructor
    · rintro ⟨hb, hbk⟩
      exact List.inj_on_of_nodup_map m.nodup hb ha (hbk.trans hk.symm)
    · rintro rfl
      exact ⟨ha, hk⟩

/-- Counting what is left when the value under a key goes. -/
theorem countP_filter_ne (p : α → Bool) {m : Keyed key} {k : κ} {a : α} (h : m.get? k = some a) :
    m.values.countP p = (m.filter fun b => key b != k).values.countP p + if p a then 1 else 0 := by
  rw [List.countP_eq_countP_filter_add m.values p (fun b => key b == k), filter_values_eq, h,
    Option.toList_some, List.countP_singleton, Nat.add_comm]
  rfl

@[simp] theorem get?_map (m : Keyed key) (f : α → α) (hf : ∀ a, key (f a) = key a) (k : κ) :
    (m.map f hf).get? k = (m.get? k).map f := by
  simp only [get?, map, List.find?_map]
  congr 2
  funext a
  simp only [Function.comp, hf]

theorem get?_set (m : Keyed key) (a : α) (k : κ) :
    (m.set a).get? k = if key a = k then some a else m.get? k := by
  have hmem : ∀ b, b ∈ (m.set a).list ↔ b = a ∨ b ∈ m.list ∧ key b ≠ key a := by
    intro b
    unfold set
    split
    next h =>
      obtain ⟨c, hc, hck⟩ := List.mem_map.mp h
      simp only [List.mem_map]
      constructor
      · rintro ⟨d, hd, rfl⟩
        by_cases hdk : key d = key a
        · exact .inl (if_pos hdk)
        · rw [if_neg hdk]
          exact .inr ⟨hd, hdk⟩
      · rintro (rfl | ⟨hb, hbk⟩)
        · exact ⟨c, hc, if_pos hck⟩
        · exact ⟨b, hb, if_neg hbk⟩
    next h =>
      simp only [List.mem_append, List.mem_singleton]
      constructor
      · rintro (hb | rfl)
        · exact .inr ⟨hb, fun hbk => h (List.mem_map.mpr ⟨b, hb, hbk⟩)⟩
        · exact .inl rfl
      · rintro (rfl | ⟨hb, -⟩)
        · exact .inr rfl
        · exact .inl hb
  by_cases hk : key a = k
  · rw [if_pos hk, get?_eq_some]
    exact ⟨(hmem a).mpr (.inl rfl), hk⟩
  · rw [if_neg hk]
    cases h : m.get? k with
    | none =>
      rw [get?_eq_none] at h ⊢
      intro b hb
      rcases (hmem b).mp hb with rfl | ⟨hb, -⟩
      · exact hk
      · exact h b hb
    | some b =>
      rw [get?_eq_some] at h ⊢
      exact ⟨(hmem b).mpr (.inr ⟨h.1, fun hbk => hk (hbk ▸ h.2)⟩), h.2⟩

/-- What is looked up after a value is set: that value, or what was under another key. -/
theorem get?_set_cases {m : Keyed key} {a b : α} {k : κ} (h : (m.set a).get? k = some b) :
    (key a = k ∧ a = b) ∨ (key a ≠ k ∧ m.get? k = some b) := by
  rw [get?_set] at h
  split at h
  next hk => exact .inl ⟨hk, Option.some.inj h⟩
  next hk => exact .inr ⟨hk, h⟩

/-- What is looked up among the values that satisfy `p`: a value that was there, and does. -/
theorem get?_filter_eq_some {m : Keyed key} {p : α → Bool} {a : α} {k : κ}
    (h : (m.filter p).get? k = some a) : m.get? k = some a ∧ p a = true := by
  rw [get?_filter] at h
  exact Option.filter_eq_some_iff.mp h

@[simp] theorem get?_set_self (m : Keyed key) (a : α) : (m.set a).get? (key a) = some a := by
  rw [get?_set, if_pos rfl]

theorem list_set_of_mem {m : Keyed key} {a : α} (h : key a ∈ m.list.map key) :
    (m.set a).list = m.list.map fun b => if key b = key a then a else b := by
  rw [set, dif_pos h]

theorem list_set_of_not_mem {m : Keyed key} {a : α} (h : key a ∉ m.list.map key) :
    (m.set a).list = m.list ++ [a] := by
  rw [set, dif_neg h]

/-- Of two values set under one key, the later stays. -/
theorem set_set {m : Keyed key} {a b : α} (h : key a = key b) : (m.set a).set b = m.set b := by
  apply eq_of_list
  by_cases hmem : key a ∈ m.list.map key
  · have hafter : key b ∈ (m.set a).list.map key := by
      rw [list_set_of_mem hmem, List.map_map]
      obtain ⟨x, hx, hk⟩ := List.mem_map.mp hmem
      exact List.mem_map.mpr ⟨x, hx, by simp [hk, h]⟩
    rw [list_set_of_mem hafter, list_set_of_mem hmem, list_set_of_mem (h ▸ hmem), List.map_map]
    refine List.map_congr_left fun x _ => ?_
    by_cases hx : key x = key b <;> simp [hx, h]
  · have hafter : key b ∈ (m.set a).list.map key := by
      rw [list_set_of_not_mem hmem]
      simp [h]
    have hnot : ∀ x ∈ m.list, key x ≠ key b := fun x hx hk =>
      hmem (List.mem_map.mpr ⟨x, hx, hk.trans h.symm⟩)
    rw [list_set_of_mem hafter, list_set_of_not_mem hmem, list_set_of_not_mem (h ▸ hmem),
      List.map_append, (List.map_congr_left fun x hx => if_neg (hnot x hx)).trans (List.map_id' _)]
    simp [h]

/-- A value under a new key goes last. -/
theorem values_set_new {m : Keyed key} {a : α} (h : m.get? (key a) = none) :
    (m.set a).values = m.values ++ [a] := by
  refine list_set_of_not_mem fun hmem => ?_
  obtain ⟨b, hb, hk⟩ := List.mem_map.mp hmem
  exact get?_eq_none.mp h b hb hk

/-- What is under other keys than the one set is what it was. -/
theorem filter_set_ne (m : Keyed key) (a : α) :
    ((m.set a).filter fun b => key b != key a) = m.filter fun b => key b != key a := by
  refine eq_of_list ?_
  change (m.set a).list.filter _ = m.list.filter _
  by_cases hmem : key a ∈ m.list.map key
  · have hsame : (fun b => key b != key a) ∘ (fun b => if key b = key a then a else b) =
        fun b => key b != key a := by
      funext b
      by_cases hb : key b = key a <;> simp [hb]
    rw [list_set_of_mem hmem, List.filter_map, hsame]
    refine (List.map_congr_left fun b hb => ?_).trans (List.map_id' _)
    exact if_neg (bne_iff_ne.mp (List.mem_filter.mp hb).2)
  · rw [list_set_of_not_mem hmem, List.filter_append]
    simp

/-- Counting once a value takes the place of another. -/
theorem countP_set (p : α → Bool) {m : Keyed key} {a b : α} (h : m.get? (key a) = some b) :
    (m.set a).values.countP p + (if p b then 1 else 0) = m.values.countP p + if p a then 1 else 0 := by
  rw [countP_filter_ne p h, countP_filter_ne p (get?_set_self m a), filter_set_ne, Nat.add_right_comm]

/-- One value fewer when the value under a key goes. -/
theorem length_filter_ne {m : Keyed key} {k : κ} {a : α} (h : m.get? k = some a) :
    (m.filter fun b => key b != k).values.length + 1 = m.values.length := by
  simpa only [List.countP_true, if_true] using (countP_filter_ne (fun _ => true) h).symm

/-- As many values once one takes the place of another. -/
theorem length_set {m : Keyed key} {a b : α} (h : m.get? (key a) = some b) :
    (m.set a).values.length = m.values.length := by
  simpa only [List.countP_true, if_true, Nat.add_right_cancel_iff] using countP_set (fun _ => true) h

/-- What is read off the values stays, where the value replaced reads the same. -/
theorem filterMap_values_set {β : Type} (f : α → Option β) {m : Keyed key} {a b : α}
    (h : m.get? (key a) = some b) (hf : f a = f b) :
    (m.set a).values.filterMap f = m.values.filterMap f := by
  obtain ⟨hb, hk⟩ := get?_eq_some.mp h
  have hmem : key a ∈ m.list.map key := List.mem_map.mpr ⟨b, hb, hk⟩
  rw [values, values, list_set_of_mem hmem, List.filterMap_map]
  refine List.filterMap_congr fun c hc => ?_
  by_cases hck : key c = key a
  · have hcb : c = b := List.inj_on_of_nodup_map m.nodup hc hb (hck.trans hk.symm)
    rw [Function.comp_apply, if_pos hck, hcb, hf]
  · rw [Function.comp_apply, if_neg hck]

/-- What is read off the values after a value that reads as nothing is set: all but what its key had. -/
theorem filterMap_values_set_none {β : Type} {f : α → Option β} {keyOf : β → κ}
    (hkey : ∀ b c, f b = some c → keyOf c = key b) {m : Keyed key} {a : α} (hf : f a = none) :
    (m.set a).values.filterMap f = (m.values.filterMap f).filter fun c => keyOf c ≠ key a := by
  have hnone : ∀ l : List α, (∀ b ∈ l, key b ≠ key a) →
      (l.filterMap f).filter (fun c => keyOf c ≠ key a) = l.filterMap f := by
    intro l hl
    refine List.filter_eq_self.mpr fun c hc => ?_
    obtain ⟨b, hb, hbc⟩ := List.mem_filterMap.mp hc
    exact decide_eq_true fun hca => hl b hb ((hkey b c hbc).symm.trans hca)
  by_cases hmem : key a ∈ m.list.map key
  · rw [values, values, list_set_of_mem hmem, List.filterMap_map, List.filter_filterMap]
    refine List.filterMap_congr fun b _ => ?_
    rw [Function.comp_apply]
    by_cases hb : key b = key a
    · cases hfb : f b with
      | none => simp [hb, hf]
      | some c => simp [hb, hf, Option.filter, hkey b c hfb]
    · cases hfb : f b with
      | none => simp [hb, hfb]
      | some c => simp [hb, hfb, Option.filter, hkey b c hfb]
  · have hne : ∀ b ∈ m.list, key b ≠ key a := fun b hb hk => hmem (List.mem_map.mpr ⟨b, hb, hk⟩)
    rw [values, values, list_set_of_not_mem hmem, List.filterMap_append, hnone _ hne]
    simp [hf]

/-- Of values set one after the other, a lookup finds the last with its key. -/
theorem get?_setAll (m : Keyed key) (as : List α) (k : κ) :
    (m.setAll as).get? k = (as.reverse.find? fun a => key a == k).or (m.get? k) := by
  induction as generalizing m with
  | nil => rfl
  | cons a as ih =>
    rw [setAll, List.foldl_cons, ← setAll, ih, List.reverse_cons, List.find?_append, get?_set,
      Option.or_assoc]
    by_cases hk : key a = k <;> simp [hk]

/-- A key is there after values are set: it is of one of them, or was there. -/
theorem has_setAll {m : Keyed key} {as : List α} {k : κ} :
    (m.setAll as).has k = true ↔ k ∈ as.map key ∨ m.has k = true := by
  rw [has, get?_setAll, Option.isSome_or, Bool.or_eq_true, List.find?_isSome, List.mem_map]
  simp only [List.mem_reverse, beq_iff_eq]
  rfl

end Keyed

end Stoop.Lib
