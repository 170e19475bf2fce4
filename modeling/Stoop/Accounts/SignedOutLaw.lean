import Stoop.Accounts.SignedOut

/-!
# What each step does to credentials

A lemma for each thing a transaction does, and from them the law of every run.
-/

set_option autoImplicit false

namespace Stoop.Accounts.Credentials

open Stoop.Lib

variable {s s' : World} {t : Tx}

/-! ## Scripts -/

theorem mem_script_insert {flow : Flow} {c : Credential} (h : .insert c ∈ flow.script) :
    c.madeWith = none ∧ flow.signsOut = none := by
  cases flow with
  | createSession holderId new =>
    obtain ⟨⟩ | ⟨_, ⟨⟩⟩ := h
    exact ⟨rfl, rfl⟩
  | createBotCredential holderId hook new =>
    obtain ⟨⟩ | ⟨_, ⟨⟩⟩ := h
    exact ⟨rfl, rfl⟩
  | replaceSession holderId oldSessionId new =>
    simp only [Flow.script, List.mem_cons, reduceCtorEq, Statement.insert.injEq, List.not_mem_nil, or_false,
      false_or] at h
    subst h
    exact ⟨rfl, rfl⟩
  | createPersonalToken session new => simp [Flow.script] at h
  | signOutEverywhere holderId => simp [Flow.script] at h
  | completePasswordReset holderId revokePersonalTokens => cases revokePersonalTokens <;> simp [Flow.script] at h
  | delete c => simp [Flow.script] at h

theorem mem_script_insertWith {flow : Flow} {session : CredentialId} {c : Credential}
    (h : .insertWith session c ∈ flow.script) :
    ∃ made new, flow = .createPersonalToken made new ∧ made.id = session ∧
      c = new.row made.holderId .personalToken (some session) := by
  cases flow with
  | createPersonalToken made new =>
    obtain ⟨rfl, rfl⟩ : session = made.id ∧ c = new.row made.holderId .personalToken (some made.id) := by
      simpa [Flow.script] using h
    exact ⟨made, new, rfl, rfl, rfl⟩
  | createSession holderId new => simp [Flow.script] at h
  | createBotCredential holderId hook new => simp [Flow.script] at h
  | replaceSession holderId oldSessionId new => simp [Flow.script] at h
  | signOutEverywhere holderId => simp [Flow.script] at h
  | completePasswordReset holderId revokePersonalTokens => cases revokePersonalTokens <;> simp [Flow.script] at h
  | delete c => simp [Flow.script] at h

theorem script_of_replaces {flow : Flow} {old : CredentialId} (h : old ∈ flow.replaces) :
    ∃ c, flow.script = [.delete (.credential old), .one, .insert c] := by
  cases flow with
  | replaceSession holderId oldSessionId new =>
    obtain ⟨⟩ := h
    exact ⟨_, rfl⟩
  | _ => exact nomatch h

theorem suffix_rest {st : Statement} {rest script : List Statement} (h : st :: rest <:+ script) :
    st ∈ script ∧ rest <:+ script ∧ rest ≠ script := by
  refine ⟨h.mem List.mem_cons_self, (List.suffix_cons st rest).trans h, ?_⟩
  rintro rfl
  have hlength := h.length_le
  rw [List.length_cons] at hlength
  omega

/-! ## Rows -/

theorem fresh_ne {c d : Credential} (hfresh : s.fresh c = true) (hd : d ∈ s.drawn) :
    c.id ≠ d.id ∧ c.tokenHash ≠ d.tokenHash :=
  ((Bool.and_eq_true _ _).mp (List.all_eq_true.mp hfresh d hd)).imp bne_iff_ne.mp bne_iff_ne.mp

namespace Kept

/-- A row that is there is no row on its way. -/
theorem past_row (inv : Kept s) {row : Credential} (h : row ∈ s.rows.values) : Past s row := by
  refine ⟨inv.rows row h, ?_⟩
  intro u hu d hd heq
  have hnew : s.rows.has d.id = false := (inv.orderly.fits u hu (.insert d) hd).1
  exact not_has_iff.mp hnew row h heq.symm

/-- One id, one credential. -/
theorem eq_of_id (inv : Kept s) {c d : Credential} (hc : c ∈ s.drawn) (hd : d ∈ s.drawn) (h : c.id = d.id) : c = d := by
  by_contra hne
  have : Std.Symm fun c d : Credential => c.id ≠ d.id ∧ c.tokenHash ≠ d.tokenHash :=
    ⟨fun _ _ h => ⟨h.1.symm, h.2.symm⟩⟩
  exact (inv.distinct.forall hc hd hne).1 h

theorem eq_of_hash (inv : Kept s) {c d : Credential} (hc : c ∈ s.drawn) (hd : d ∈ s.drawn)
    (h : c.tokenHash = d.tokenHash) : c = d := by
  by_contra hne
  have : Std.Symm fun c d : Credential => c.id ≠ d.id ∧ c.tokenHash ≠ d.tokenHash :=
    ⟨fun _ _ h => ⟨h.1.symm, h.2.symm⟩⟩
  exact (inv.distinct.forall hc hd hne).2 h

theorem fresh_not_has (inv : Kept s) {c : Credential} (hfresh : s.fresh c = true) : s.rows.has c.id = false := by
  refine not_has_iff.mpr ?_
  intro row hrow heq
  exact (fresh_ne hfresh (inv.rows row hrow)).1 heq.symm

/-- A row made with no session is in nobody's way. -/
theorem free_insert (inv : Kept s) {c : Credential} (hfresh : s.fresh c = true) (hmade : c.madeWith = none) :
    s.free (.insert c) = true := by
  refine List.all_eq_true.mpr fun u hu => List.all_eq_true.mpr fun d hd => ?_
  cases d with
  | delete i =>
    have hthere : s.rows.has i = true := inv.orderly.fits u hu (.delete i) hd
    have hid : c.id ≠ i := by
      rintro rfl
      rw [inv.fresh_not_has hfresh] at hthere
      cases hthere
    show (c.id != i && c.madeWith != some i) = true
    rw [hmade, bne_iff_ne.mpr hid]
    rfl
  | insert e => exact bne_iff_ne.mpr (fresh_ne hfresh (inv.inserts u hu e hd)).1

/-! ## A transaction that writes no more, or one change more -/

/-- It writes no more. -/
theorem same (inv : Kept s) (ht : t ∈ s.txs.values) {t' : Tx} (hid : t'.id = t.id) (hwritten : t'.written = t.written)
    (hflow : t'.flow = t.flow) (course : t'.rest <:+ t'.flow.script)
    (signing : ∀ holderId ∈ t'.flow.signsOut, SigningOut (s.advance t') t' holderId)
    (replacing : ∀ old ∈ t'.flow.replaces, Replacing t' old) : Advances s t' s.drawn where
  fits := by
    rw [hwritten]
    exact inv.orderly.fits t ht
  within := by
    rw [hwritten]
    exact inv.orderly.within t ht
  across := by
    rw [hwritten, hid]
    exact fun u hu hne => inv.orderly.across u hu t ht hne
  grows := fun _ hc => hc
  inserts := by
    rw [hwritten]
    exact inv.inserts t ht
  distinct := inv.distinct
  makers := inv.makers
  pending := by
    rw [hwritten]
    exact fun c hc => hc.pending t ht
  course := course
  makes := by
    rw [hflow]
    exact inv.makes t ht
  signing := signing
  replacing := replacing
  unmade := by
    rw [hwritten]
    exact fun c hc => (inv.ended c hc).unmade t ht

/-- It deletes a row that no open transaction needs. -/
theorem more_delete (inv : Kept s) (ht : t ∈ s.txs.values) {i : CredentialId} (hthere : s.rows.has i = true)
    (hfree : s.free (.delete i) = true) {t' : Tx} (hid : t'.id = t.id) (hwritten : t'.written = t.written ++ [.delete i])
    (hflow : t'.flow = t.flow) (course : t'.rest <:+ t'.flow.script)
    (signing : ∀ holderId ∈ t'.flow.signsOut, SigningOut (s.advance t') t' holderId)
    (replacing : ∀ old ∈ t'.flow.replaces, Replacing t' old) : Advances s t' s.drawn := by
  have hapart : ∀ u ∈ s.txs.values, ∀ d ∈ u.written, Change.apart d (.delete i) = true := by
    intro u hu d hd
    rw [Change.apart_comm]
    exact List.all_eq_true.mp (List.all_eq_true.mp hfree u hu) d hd
  have hmem : ∀ d ∈ t'.written, d ∈ t.written ∨ d = .delete i := by
    rw [hwritten]
    exact fun d hd => (List.mem_append.mp hd).imp_right List.mem_singleton.mp
  have hinsert : ∀ c, .insert c ∈ t'.written → .insert c ∈ t.written := by
    intro c hc
    obtain hold | hnew := hmem _ hc
    · exact hold
    · exact nomatch hnew
  refine ⟨?_, ?_, ?_, fun _ hc => hc, fun c hc => inv.inserts t ht c (hinsert c hc), inv.distinct, inv.makers,
    fun c hc d hd => hc.pending t ht d (hinsert d hd), course, ?_, signing, replacing,
    fun c hc d hd => (inv.ended c hc).unmade t ht d (hinsert d hd)⟩
  · intro d hd
    obtain hold | rfl := hmem d hd
    · exact inv.orderly.fits t ht d hold
    · exact hthere
  · rw [hwritten]
    refine List.pairwise_append.mpr ⟨inv.orderly.within t ht, List.pairwise_singleton _ _, ?_⟩
    intro d hd e he
    rw [List.mem_singleton.mp he]
    exact hapart t ht d hd
  · intro u hu hne c hc d hd
    obtain hold | rfl := hmem d hd
    · exact inv.orderly.across u hu t ht (hid ▸ hne) c hc d hold
    · exact hapart u hu c hc
  · rw [hflow]
    exact inv.makes t ht

/-- It inserts a fresh row, and no sign-out does. -/
theorem more_insert (inv : Kept s) (ht : t ∈ s.txs.values) {c : Credential} (hfresh : s.fresh c = true)
    (hfree : s.free (.insert c) = true) (hsession : ∀ session ∈ c.madeWith, s.rows.has session = true)
    (hmaker : ∀ session ∈ c.madeWith, c.kind = .personalToken ∧
      ∃ d ∈ s.drawn, d.id = session ∧ d.kind = .session ∧ d.holderId = c.holderId)
    {t' : Tx} (hid : t'.id = t.id) (hwritten : t'.written = t.written ++ [.insert c])
    (hflow : t'.flow = t.flow) (course : t'.rest <:+ t'.flow.script) (signing : t'.flow.signsOut = none)
    (replacing : ∀ old ∈ t'.flow.replaces, Replacing t' old) : Advances s t' (s.drawn ++ [c]) := by
  have hapart : ∀ u ∈ s.txs.values, ∀ d ∈ u.written, Change.apart d (.insert c) = true := by
    intro u hu d hd
    rw [Change.apart_comm]
    exact List.all_eq_true.mp (List.all_eq_true.mp hfree u hu) d hd
  have hmem : ∀ d ∈ t'.written, d ∈ t.written ∨ d = .insert c := by
    rw [hwritten]
    exact fun d hd => (List.mem_append.mp hd).imp_right List.mem_singleton.mp
  have hgrows : s.drawn ⊆ s.drawn ++ [c] := fun _ hd => List.mem_append_left _ hd
  refine ⟨?_, ?_, ?_, hgrows, ?_, ?_, ?_, ?_, course, ?_, ?_, replacing, ?_⟩
  · intro d hd
    obtain hold | rfl := hmem d hd
    · exact inv.orderly.fits t ht d hold
    · exact ⟨inv.fresh_not_has hfresh, hsession⟩
  · rw [hwritten]
    refine List.pairwise_append.mpr ⟨inv.orderly.within t ht, List.pairwise_singleton _ _, ?_⟩
    intro d hd e he
    rw [List.mem_singleton.mp he]
    exact hapart t ht d hd
  · intro u hu hne e he d hd
    obtain hold | rfl := hmem d hd
    · exact inv.orderly.across u hu t ht (hid ▸ hne) e he d hold
    · exact hapart u hu e he
  · intro d hd
    obtain hold | hnew := hmem _ hd
    · exact hgrows (inv.inserts t ht d hold)
    · injection hnew with hnew
      exact hnew ▸ List.mem_append_right _ List.mem_cons_self
  · refine List.pairwise_append.mpr ⟨inv.distinct, List.pairwise_singleton _ _, ?_⟩
    intro d hd e he
    rw [List.mem_singleton.mp he]
    exact (fresh_ne hfresh hd).imp Ne.symm Ne.symm
  · intro row hrow session hmade
    obtain hold | hnew := List.mem_append.mp hrow
    · obtain ⟨hkind, d, hd, hwho⟩ := inv.makers row hold session hmade
      exact ⟨hkind, d, hgrows hd, hwho⟩
    · obtain rfl := List.mem_singleton.mp hnew
      obtain ⟨hkind, d, hd, hwho⟩ := hmaker session hmade
      exact ⟨hkind, d, hgrows hd, hwho⟩
  · intro d hd e he
    obtain hold | hnew := hmem _ he
    · exact hd.pending t ht e hold
    · injection hnew with hnew
      exact hnew ▸ (fresh_ne hfresh hd.drawn).1
  · rw [hflow]
    exact inv.makes t ht
  · intro holderId hsigns
    rw [signing] at hsigns
    exact nomatch hsigns
  · intro d hd e he hmade
    obtain hold | hnew := hmem _ he
    · exact (inv.ended d hd).unmade t ht e hold hmade
    · -- the session it is made with is there, and what was signed out of is not
      injection hnew with hnew
      obtain ⟨row, hrow⟩ := Keyed.has_eq_true.mp (hsession d.id (hnew ▸ hmade))
      exact ((inv.ended d hd).gone row (Keyed.mem_values.mpr (Keyed.key_of_get? hrow ▸ hrow))).1 (Keyed.key_of_get? hrow)

end Kept

/-! ## A sign-out, step by step -/

namespace SigningOut

variable {t' : Tx} {holderId : String}

/-- A sign-out that begins. -/
theorem start (hwritten : t'.written = []) (hseen : t'.seen = []) (hfound : t'.found = none)
    (hrest : t'.rest = t'.flow.script) : SigningOut s' t' holderId := by
  have hnone : ∀ c, c ∉ t'.seen := by
    rw [hseen]
    exact fun _ => List.not_mem_nil
  refine ⟨?_, fun c hc => absurd hc (hnone c), fun _ c hc => absurd hc (hnone c), fun hne => absurd hrest hne, ?_,
    fun _ _ _ c hc => absurd hc (hnone c)⟩
  · rw [hwritten]
    exact fun _ hd => absurd hd List.not_mem_nil
  · intro todo _ htodo
    rw [hfound] at htodo
    exact nomatch htodo

theorem rest_cases (hcourse : t.rest <:+ t.flow.script) (hflow : holderId ∈ t.flow.signsOut) :
    t.rest = t.flow.script ∨ t.rest = [.delete (.personalTokens holderId)] ∨ t.rest = [] := by
  rw [script_of_signsOut hflow] at hcourse ⊢
  rw [List.suffix_cons_iff, List.suffix_cons_iff, List.suffix_nil] at hcourse
  exact hcourse

/-- Its snapshot. -/
theorem find (inv : Kept s) (ht : t ∈ s.txs.values) (hflow : holderId ∈ t.flow.signsOut) {c : Condition}
    {rest : List Statement} (hrest : t.rest = .delete c :: rest) {found : List Credential}
    (hfound : found = s.rows.values.filter fun row => c.meets row && !t.written.contains (.delete row.id)) :
    SigningOut (s.advance { t with
        found := some (found.map (·.id)), seen := if t.rest = t.flow.script then found else t.seen })
      { t with found := some (found.map (·.id)), seen := if t.rest = t.flow.script then found else t.seen }
      holderId := by
  have hsigning := inv.signing t ht holderId hflow
  have hscript := script_of_signsOut hflow
  have hpast := Kept.past_advance { t with
    found := some (found.map (·.id)), seen := if t.rest = t.flow.script then found else t.seen }
    (fun _ hc => hc) fun c hc => hc.pending t ht
  by_cases hfirst : t.rest = t.flow.script
  · -- the sessions: what it finds, it has come to none of
    rw [if_pos hfirst] at hpast ⊢
    obtain ⟨rfl, -⟩ : c = .sessions holderId ∧ rest = [.delete (.personalTokens holderId)] := by
      simpa [hrest, hscript] using hfirst
    have hmem : ∀ row ∈ found, row ∈ s.rows.values ∧ row.holderId = holderId ∧ row.kind = .session := by
      rw [hfound]
      intro row hrow
      obtain ⟨hthere, hmeets⟩ := List.mem_filter.mp hrow
      have hboth := (Bool.and_eq_true _ _).mp ((Bool.and_eq_true _ _).mp hmeets).1
      exact ⟨hthere, hboth.imp eq_of_beq eq_of_beq⟩
    refine ⟨hsigning.deletes, ?_, ?_, fun hne => absurd hfirst hne, ?_, ?_⟩
    · intro row hrow
      obtain ⟨hthere, hwho, hkind⟩ := hmem row hrow
      exact ⟨hpast row (inv.past_row hthere), hkind, hwho⟩
    · intro _ row hrow
      exact ⟨_, rfl, .inl (List.mem_map_of_mem hrow)⟩
    · intro todo hlast
      rw [show t.rest = _ from hlast, hscript] at hfirst
      exact nomatch hfirst
    · intro hlast
      rw [show t.rest = _ from hlast, hscript] at hfirst
      exact nomatch hfirst
  · -- the tokens: each made with a session it found is the holder's, and there to be found
    rw [if_neg hfirst] at hpast ⊢
    refine ⟨hsigning.deletes, fun row hrow => (hsigning.seen row hrow).imp_left (hpast row),
      fun heq => absurd heq hfirst, hsigning.past, ?_, hsigning.done⟩
    rintro todo hlast ⟨⟩ row hrow session hsession hmade
    obtain ⟨rfl, -⟩ : c = .personalTokens holderId ∧ rest = [] := by
      simpa [hrest] using hlast
    obtain ⟨hkind, maker, hmaker, hid, -, hholder⟩ := inv.makers row (inv.rows row hrow) session.id hmade
    obtain ⟨hpastSession, -, hwho⟩ := hsigning.seen session hsession
    obtain rfl := inv.eq_of_id hmaker hpastSession.drawn hid
    by_cases hdeleted : .delete row.id ∈ t.written
    · exact .inr hdeleted
    · refine .inl (List.mem_map_of_mem (hfound ▸ List.mem_filter.mpr ⟨hrow, ?_⟩))
      have hmeets : (row.holderId == holderId && row.kind == .personalToken) = true := by
        rw [← hholder, hwho, hkind, beq_self_eq_true]
        rfl
      rw [show Condition.meets (.personalTokens holderId) row = true from hmeets, Bool.true_and, Bool.not_eq_true',
        List.contains_eq_mem, decide_eq_false hdeleted]

/-- It comes to a row. -/
theorem take (hsigning : SigningOut s t holderId) {found : List CredentialId} (hfound : t.found = some found)
    {id : CredentialId} {written : List Change} (hgrows : ∀ d ∈ t.written, d ∈ written)
    (hdeletes : ∀ d ∈ written, d ∈ t.written ∨ d = .delete id)
    (hclosed : s.rows.has id = false ∨ .delete id ∈ written)
    (hpast : ∀ c, Past s c → Past s' c) (hrows : s'.rows = s.rows) :
    SigningOut s' { t with found := some (found.erase id), written := written } holderId := by
  have hstays : ∀ i, Closed s t i → Closed s' { t with found := some (found.erase id), written := written } i := by
    intro i hi
    exact hi.imp (hgrows _) fun hgone => hrows ▸ hgone
  have hid : Closed s' { t with found := some (found.erase id), written := written } id :=
    hclosed.elim (fun hgone => .inr (hrows ▸ hgone)) .inl
  refine ⟨?_, fun c hc => (hsigning.seen c hc).imp_left (hpast c), ?_, ?_, ?_, ?_⟩
  · intro d hd
    obtain hold | rfl := hdeletes d hd
    · exact hsigning.deletes d hold
    · exact ⟨id, rfl⟩
  · intro hrest c hc
    obtain ⟨todo, htodo, hcase⟩ := hsigning.first hrest c hc
    obtain rfl : found = todo := Option.some.inj (hfound.symm.trans htodo)
    refine ⟨_, rfl, ?_⟩
    by_cases heq : c.id = id
    · exact .inr (heq ▸ hid)
    · exact hcase.imp (List.mem_erase_of_ne heq).mpr (hstays c.id)
  · exact fun hrest c hc => hstays c.id (hsigning.past hrest c hc)
  · rintro todo hlast ⟨⟩ row hrow c hc hmade
    rw [hrows] at hrow
    by_cases heq : row.id = id
    · refine .inr (heq ▸ hclosed.resolve_left fun hgone => ?_)
      exact not_has_iff.mp hgone row hrow heq
    · exact (hsigning.tokens found hlast hfound row hrow c hc hmade).imp (List.mem_erase_of_ne heq).mpr (hgrows _)
  · intro hlast row hrow c hc hmade
    exact hgrows _ (hsigning.done hlast row (hrows ▸ hrow) c hc hmade)

/-- A statement of it is done. -/
theorem finish (hsigning : SigningOut s t holderId) (hflow : holderId ∈ t.flow.signsOut)
    (hcourse : t.rest <:+ t.flow.script) {st : Statement} {rest : List Statement} (hrest : t.rest = st :: rest)
    (hfound : t.found = some []) (hpast : ∀ c, Past s c → Past s' c) (hrows : s'.rows = s.rows) :
    SigningOut s' { t with rest := rest, found := none } holderId := by
  obtain ⟨-, -, hne⟩ := suffix_rest (hrest ▸ hcourse)
  have hstays : ∀ i, Closed s t i → Closed s' { t with rest := rest, found := none } i := by
    intro i hi
    exact hi.imp_right fun hgone => hrows ▸ hgone
  refine ⟨hsigning.deletes, fun c hc => (hsigning.seen c hc).imp_left (hpast c), fun heq => absurd heq hne, ?_,
    (fun _ _ hnone => nomatch hnone), ?_⟩
  · intro _ c hc
    by_cases hfirst : t.rest = t.flow.script
    · obtain ⟨todo, htodo, hcase⟩ := hsigning.first hfirst c hc
      obtain rfl : [] = todo := Option.some.inj (hfound.symm.trans htodo)
      exact hstays c.id (hcase.resolve_left List.not_mem_nil)
    · exact hstays c.id (hsigning.past hfirst c hc)
  · intro hlast row hrow c hc hmade
    rw [hrows] at hrow
    obtain hfirst | htokens | hdone := rest_cases hcourse hflow
    · rw [script_of_signsOut hflow, hrest, show rest = [] from hlast] at hfirst
      exact nomatch hfirst
    · exact (hsigning.tokens [] htokens hfound row hrow c hc hmade).resolve_left List.not_mem_nil
    · exact absurd hdone (hrest ▸ List.cons_ne_nil _ _)

end SigningOut

/-! ## A replacement, step by step -/

namespace Replacing

variable {old : CredentialId}

theorem start {t' : Tx} (hwritten : t'.written = []) (hfound : t'.found = none) (hrest : t'.rest = t'.flow.script)
    (hflow : old ∈ t'.flow.replaces) : Replacing t' old := by
  obtain ⟨c, hscript⟩ := script_of_replaces hflow
  refine ⟨?_, ?_, ?_⟩
  · rw [hwritten]
    exact fun _ hd => absurd hd List.not_mem_nil
  · rw [hfound]
    exact fun _ hnone => nomatch hnone
  · rw [hrest, hscript]
    exact fun hlength => absurd hlength (Nat.not_succ_le_self 1 ∘ Nat.le_of_succ_le)

theorem rest_cases (hcourse : t.rest <:+ t.flow.script) (hflow : old ∈ t.flow.replaces) :
    ∃ c, t.rest = [.delete (.credential old), .one, .insert c] ∨ t.rest = [.one, .insert c] ∨ t.rest = [.insert c] ∨
      t.rest = [] := by
  obtain ⟨c, hscript⟩ := script_of_replaces hflow
  rw [hscript, List.suffix_cons_iff, List.suffix_cons_iff, List.suffix_cons_iff, List.suffix_nil] at hcourse
  exact ⟨c, hcourse⟩

/-- It looks for the session it replaces. -/
theorem find (hreplacing : Replacing t old) (hcourse : t.rest <:+ t.flow.script) (hflow : old ∈ t.flow.replaces)
    {c : Condition} {rest : List Statement} (hrest : t.rest = .delete c :: rest) {found seen : List Credential}
    (hfound : ∀ row ∈ found, c.meets row = true) :
    Replacing { t with found := some (found.map (·.id)), seen := seen } old := by
  refine ⟨hreplacing.deletes, ?_, hreplacing.past⟩
  rintro todo ⟨⟩ i hi
  obtain ⟨row, hrow, rfl⟩ := List.mem_map.mp hi
  obtain ⟨d, hfirst | hlater | hlater | hlater⟩ := rest_cases hcourse hflow
  · obtain ⟨rfl, -⟩ : c = .credential old ∧ rest = [.one, .insert d] := by
      simpa [hrest] using hfirst
    exact eq_of_beq (hfound row hrow)
  all_goals
    rw [hrest] at hlater
    exact nomatch hlater

theorem take (hreplacing : Replacing t old) {found : List CredentialId} (hfound : t.found = some found)
    {id : CredentialId} (hid : id ∈ found) {written : List Change} (hgrows : ∀ d ∈ t.written, d ∈ written)
    (hdeletes : ∀ d ∈ written, d ∈ t.written ∨ d = .delete id) :
    Replacing { t with found := some (found.erase id), written := written } old := by
  refine ⟨?_, ?_, fun hlength => hgrows _ (hreplacing.past hlength)⟩
  · intro i hi
    obtain hold | hnew := hdeletes _ hi
    · exact hreplacing.deletes i hold
    · injection hnew with hnew
      exact hnew ▸ hreplacing.found found hfound id hid
  · rintro todo ⟨⟩ i hi
    exact hreplacing.found found hfound i (List.mem_of_mem_erase hi)

/-- A statement of it is done: the `DELETE`, or what it goes on by. -/
theorem finish (hreplacing : Replacing t old) {rest : List Statement} {found : Option (List CredentialId)}
    {written : List Change} (hfound : found = none ∨ found = t.found) (hgrows : ∀ d ∈ t.written, d ∈ written)
    (hdeletes : ∀ i, .delete i ∈ written → .delete i ∈ t.written)
    (hpast : rest.length ≤ 1 → t.rest.length ≤ 1 ∨ ∃ i, .delete i ∈ t.written) :
    Replacing { t with rest := rest, found := found, written := written } old := by
  refine ⟨fun i hi => hreplacing.deletes i (hdeletes i hi), ?_, ?_⟩
  · rintro todo htodo i hi
    obtain rfl | rfl := hfound
    · exact nomatch htodo
    · exact hreplacing.found todo htodo i hi
  · intro hlength
    obtain hshort | ⟨i, hi⟩ := hpast hlength
    · exact hgrows _ (hreplacing.past hshort)
    · exact hgrows _ (hreplacing.deletes i hi ▸ hi)

end Replacing

/-! ## Every step -/

namespace Kept

theorem start (inv : Kept s) {tx : Nat} {flow : Flow}
    (hmakes : ∀ session new, flow = .createPersonalToken session new → session ∈ s.drawn ∧ session.kind = .session) :
    Kept (s.advance ⟨tx, flow, flow.script, none, [], []⟩) := by
  have hbegins : Advances s ⟨tx, flow, flow.script, none, [], []⟩ s.drawn := by
    refine ⟨?_, .nil, ?_, fun _ hc => hc, ?_, inv.distinct, inv.makers, ?_, List.suffix_refl _, hmakes,
      fun _ _ => .start rfl rfl rfl rfl, fun _ hflow => .start rfl rfl rfl hflow, ?_⟩
    all_goals
      intros
      contradiction
  exact inv.advance hbegins

theorem find (inv : Kept s) (ht : t ∈ s.txs.values) {c : Condition} {rest : List Statement}
    (hrest : t.rest = .delete c :: rest) {found : List Credential}
    (hfound : found = s.rows.values.filter fun row => c.meets row && !t.written.contains (.delete row.id)) :
    Kept (s.advance { t with
      found := some (found.map (·.id)), seen := if t.rest = t.flow.script then found else t.seen }) := by
  refine inv.advance (inv.same ht rfl rfl rfl (inv.course t ht) ?_ ?_)
  · intro holderId hflow
    exact SigningOut.find inv ht hflow hrest hfound
  · intro old hflow
    refine (inv.replacing t ht old hflow).find (inv.course t ht) hflow hrest ?_
    rw [hfound]
    exact fun row hrow => ((Bool.and_eq_true _ _).mp (List.mem_filter.mp hrow).2).1

/-- It comes to a row that is gone. -/
theorem pass (inv : Kept s) (ht : t ∈ s.txs.values) {found : List CredentialId} (hfound : t.found = some found)
    {id : CredentialId} (hid : id ∈ found) (hgone : s.rows.has id = false) :
    Kept (s.advance { t with found := some (found.erase id) }) := by
  have hpast := past_advance { t with found := some (found.erase id) } (fun _ hc => hc)
    fun c (hc : Past s c) => hc.pending t ht
  refine inv.advance (inv.same ht rfl rfl rfl (inv.course t ht) ?_ ?_)
  · intro holderId hflow
    exact (inv.signing t ht holderId hflow).take hfound (fun _ hd => hd) (fun _ hd => .inl hd) (.inl hgone) hpast rfl
  · intro old hflow
    exact (inv.replacing t ht old hflow).take hfound hid (fun _ hd => hd) fun _ hd => .inl hd

/-- It comes to a row and deletes it. -/
theorem take (inv : Kept s) (ht : t ∈ s.txs.values) {found : List CredentialId} (hfound : t.found = some found)
    {id : CredentialId} (hid : id ∈ found) (hthere : s.rows.has id = true) (hfree : s.free (.delete id) = true) :
    Kept (s.advance { t with found := some (found.erase id), written := t.written ++ [.delete id] }) := by
  have hgrows : ∀ d ∈ t.written, d ∈ t.written ++ [.delete id] := fun _ hd => List.mem_append_left _ hd
  have hdeletes : ∀ d ∈ t.written ++ [.delete id], d ∈ t.written ∨ d = .delete id :=
    fun _ hd => (List.mem_append.mp hd).imp_right List.mem_singleton.mp
  have hdeleted : Change.delete id ∈ t.written ++ [.delete id] := List.mem_append_right _ List.mem_cons_self
  have hpast := @past_advance s { t with found := some (found.erase id), written := t.written ++ [.delete id] } s.drawn
    (fun _ hc => hc) ?_
  · refine inv.advance (inv.more_delete ht hthere hfree rfl rfl rfl (inv.course t ht) ?_ ?_)
    · intro holderId hflow
      exact (inv.signing t ht holderId hflow).take hfound hgrows hdeletes (.inr hdeleted) hpast rfl
    · intro old hflow
      exact (inv.replacing t ht old hflow).take hfound hid hgrows hdeletes
  · intro c hc d hd
    obtain hold | hnew := hdeletes _ hd
    · exact hc.pending t ht d hold
    · exact nomatch hnew

/-- A `DELETE` is done. -/
theorem deleted (inv : Kept s) (ht : t ∈ s.txs.values) {c : Condition} {rest : List Statement}
    (hrest : t.rest = .delete c :: rest) (hfound : t.found = some []) :
    Kept (s.advance { t with rest := rest, found := none }) := by
  have hcourse : .delete c :: rest <:+ t.flow.script := hrest ▸ inv.course t ht
  obtain ⟨-, hsuffix, -⟩ := suffix_rest hcourse
  have hpast := past_advance { t with rest := rest, found := none } (fun _ hc => hc)
    fun c (hc : Past s c) => hc.pending t ht
  refine inv.advance (inv.same ht rfl rfl rfl hsuffix ?_ ?_)
  · intro holderId hflow
    exact (inv.signing t ht holderId hflow).finish hflow (inv.course t ht) hrest hfound hpast rfl
  · intro old hflow
    refine (inv.replacing t ht old hflow).finish (.inl rfl) (fun _ hd => hd) (fun _ hd => hd) ?_
    intro hlength
    obtain ⟨d, hfirst | hlater | hlater | hlater⟩ := Replacing.rest_cases (inv.course t ht) hflow
    · obtain ⟨-, rfl⟩ : c = .credential old ∧ rest = [.one, .insert d] := by
        simpa [hrest] using hfirst
      exact absurd hlength (Nat.not_succ_le_self 1)
    all_goals
      rw [hrest] at hlater
      exact nomatch hlater

/-- One row was deleted. -/
theorem one (inv : Kept s) (ht : t ∈ s.txs.values) {rest : List Statement} (hrest : t.rest = .one :: rest)
    (hcount : t.written.countP (fun | .delete _ => true | .insert _ => false) = 1) :
    Kept (s.advance { t with rest := rest }) := by
  have hcourse : .one :: rest <:+ t.flow.script := hrest ▸ inv.course t ht
  obtain ⟨hmem, hsuffix, -⟩ := suffix_rest hcourse
  refine inv.advance (inv.same ht rfl rfl rfl hsuffix ?_ ?_)
  · intro holderId hflow
    rw [script_of_signsOut hflow] at hmem
    simp at hmem
  · intro old hflow
    refine (inv.replacing t ht old hflow).finish (.inr rfl) (fun _ hd => hd) (fun _ hd => hd) fun _ => .inr ?_
    obtain ⟨d, hd, hdelete⟩ := List.countP_pos_iff.mp (hcount ▸ Nat.one_pos)
    cases d with
    | delete i => exact ⟨i, hd⟩
    | insert e => exact nomatch hdelete

/-- A row is inserted. -/
theorem inserted (inv : Kept s) (ht : t ∈ s.txs.values) {st : Statement} {rest : List Statement}
    (hrest : t.rest = st :: rest) {c : Credential} (hfresh : s.fresh c = true) (hfree : s.free (.insert c) = true)
    (hsession : ∀ session ∈ c.madeWith, s.rows.has session = true)
    (hmaker : ∀ session ∈ c.madeWith, c.kind = .personalToken ∧
      ∃ d ∈ s.drawn, d.id = session ∧ d.kind = .session ∧ d.holderId = c.holderId)
    (hsigns : t.flow.signsOut = none) (hlong : ∀ old ∈ t.flow.replaces, t.rest.length ≤ 1) :
    Kept { s.advance { t with rest := rest, written := t.written ++ [.insert c] } with drawn := s.drawn ++ [c] } := by
  have hcourse : st :: rest <:+ t.flow.script := hrest ▸ inv.course t ht
  obtain ⟨-, hsuffix, -⟩ := suffix_rest hcourse
  refine inv.advance (inv.more_insert ht hfresh hfree hsession hmaker rfl rfl rfl hsuffix hsigns ?_)
  intro old hflow
  refine (inv.replacing t ht old hflow).finish (.inr rfl) (fun _ hd => List.mem_append_left _ hd) ?_
    fun _ => .inl (hlong old hflow)
  intro i hi
  obtain hold | hnew := List.mem_append.mp hi
  · exact hold
  · exact nomatch List.mem_singleton.mp hnew

theorem finish (inv : Kept s) (ht : t ∈ s.txs.values) (hstep : s.finish t = some s') : Kept s' := by
  unfold World.finish at hstep
  split at hstep
  · exact nomatch hstep
  · rename_i c rest hrest
    obtain ⟨hfound, ⟨⟩⟩ := Option.ite_none_right_eq_some.mp hstep
    exact inv.deleted ht hrest hfound
  · rename_i rest hrest
    obtain ⟨hcount, ⟨⟩⟩ := Option.ite_none_right_eq_some.mp hstep
    exact inv.one ht hrest hcount
  · rename_i c rest hrest
    obtain ⟨hfresh, ⟨⟩⟩ := Option.ite_none_right_eq_some.mp hstep
    obtain ⟨hmem, -, -⟩ := suffix_rest (hrest ▸ inv.course t ht)
    obtain ⟨hmade, hsigns⟩ := mem_script_insert hmem
    have hnone : ∀ session, session ∉ c.madeWith := by
      rw [hmade]
      exact nofun
    refine inv.inserted ht hrest hfresh (inv.free_insert hfresh hmade) (fun session h => absurd h (hnone session))
      (fun session h => absurd h (hnone session)) hsigns ?_
    intro old hflow
    obtain ⟨d, hfirst | hfirst | hlast | hdone⟩ := Replacing.rest_cases (inv.course t ht) hflow
    · rw [hrest] at hfirst
      exact nomatch hfirst
    · rw [hrest] at hfirst
      exact nomatch hfirst
    · exact hlast ▸ Nat.le_refl 1
    · exact hdone ▸ Nat.zero_le 1
  · rename_i session c rest hrest
    obtain ⟨⟨hthere, hfresh, hfree⟩, ⟨⟩⟩ := Option.ite_none_right_eq_some.mp hstep
    obtain ⟨hmem, -, -⟩ := suffix_rest (hrest ▸ inv.course t ht)
    obtain ⟨made, new, hflow, rfl, rfl⟩ := mem_script_insertWith hmem
    obtain ⟨hdrawn, hkind⟩ := inv.makes t ht made new hflow
    refine inv.inserted ht hrest hfresh hfree ?_ ?_ (hflow ▸ rfl) ?_
    · rintro session ⟨⟩
      exact hthere
    · rintro session ⟨⟩
      exact ⟨rfl, made, hdrawn, rfl, hkind, rfl⟩
    · rw [hflow]
      exact nofun

/-- **A commit keeps what is kept.** What a sign-out found is gone with it, for it is past its last statement. -/
theorem commit (inv : Kept s) (ht : t ∈ s.txs.values) (hrest : t.rest = []) :
    Kept
      { s with
        rows := t.written.foldl applyChange s.rows
        txs := s.txs.filter (·.id != t.id)
        ended := s.ended ++ if t.flow.signsOut.isSome then t.seen else []
        replaced := s.replaced ++ t.flow.replaces.toList } := by
  have hopen : ∀ u ∈ (s.txs.filter (·.id != t.id)).values, u ∈ s.txs.values :=
    fun u hu => (List.mem_filter.mp hu).1
  have hpast : ∀ c, Past s c →
      Past
        { s with
          rows := t.written.foldl applyChange s.rows
          txs := s.txs.filter (·.id != t.id)
          ended := s.ended ++ if t.flow.signsOut.isSome then t.seen else []
          replaced := s.replaced ++ t.flow.replaces.toList } c :=
    fun c hc => ⟨hc.drawn, fun u hu => hc.pending u (hopen u hu)⟩
  refine ⟨inv.orderly.commit ht, ?_, fun u hu => inv.inserts u (hopen u hu), inv.distinct, inv.makers,
    fun u hu => inv.course u (hopen u hu), fun u hu => inv.makes u (hopen u hu), ?_,
    fun u hu => inv.replacing u (hopen u hu), ?_, ?_, ?_⟩
  · intro row hrow
    obtain hnew | ⟨hold, -⟩ := mem_applyAll hrow
    · exact inv.inserts t ht row hnew
    · exact inv.rows row hold
  · intro u hu holderId hflow
    refine (inv.signing u (hopen u hu) holderId hflow).mono hflow hpast fun row hrow => ?_
    obtain hnew | ⟨hold, -⟩ := mem_applyAll hrow
    · exact .inr ⟨fun c hc => hc.pending t ht row hnew, fun c _ hclosed =>
        hclosed.not_made inv.orderly (hopen u hu) ht hnew⟩
    · exact .inl hold
  · intro c hc
    obtain hbefore | hnow := List.mem_append.mp hc
    · obtain ⟨hcpast, hgone, hunmade⟩ := inv.ended c hbefore
      refine ⟨hpast c hcpast, ?_, fun u hu => hunmade u (hopen u hu)⟩
      intro row hrow
      obtain hnew | ⟨hold, -⟩ := mem_applyAll hrow
      · exact ⟨hcpast.pending t ht row hnew, hunmade t ht row hnew⟩
      · exact hgone row hold
    · obtain ⟨holderId, hsigns, hseen⟩ : ∃ holderId, t.flow.signsOut = some holderId ∧ c ∈ t.seen := by
        split at hnow
        · rename_i hsome
          obtain ⟨holderId, hsigns⟩ := Option.isSome_iff_exists.mp hsome
          exact ⟨holderId, hsigns, hnow⟩
        · exact absurd hnow List.not_mem_nil
      have hsigning := inv.signing t ht holderId hsigns
      have hne : t.rest ≠ t.flow.script := by
        rw [hrest, script_of_signsOut hsigns]
        rintro ⟨⟩
      have hclosed : Closed s t c.id := hsigning.past hne c hseen
      refine ⟨hpast c (hsigning.seen c hseen).1, ?_, fun u hu d hd =>
        hclosed.not_made inv.orderly ht (hopen u hu) hd⟩
      intro row hrow
      obtain hnew | ⟨hold, hkept⟩ := mem_applyAll hrow
      · obtain ⟨i, hi⟩ := hsigning.deletes _ hnew
        cases hi
      · refine ⟨?_, fun hmade => hkept (hsigning.done hrest row hold c hseen hmade)⟩
        intro heq
        obtain hdeleted | hgone := hclosed
        · exact hkept (heq ▸ hdeleted)
        · exact not_has_iff.mp hgone row hold heq
  · refine List.nodup_append.mpr ⟨inv.replaced.1, ?_, ?_⟩
    · cases t.flow.replaces with
      | none => exact .nil
      | some old => exact List.nodup_singleton old
    · rintro i hi old hold rfl
      obtain ⟨-, -, -, hgone⟩ := inv.replaced.2 i hi
      have hdeleted := (inv.replacing t ht i (Option.mem_toList.mp hold)).past (hrest ▸ Nat.zero_le 1)
      have hthere : s.rows.has i = true := inv.orderly.fits t ht _ hdeleted
      rw [hgone] at hthere
      cases hthere
  · intro i hi
    obtain hbefore | hnow := List.mem_append.mp hi
    · obtain ⟨c, hc, rfl, hgone⟩ := inv.replaced.2 i hbefore
      refine ⟨c, hpast c hc, rfl, not_has_iff.mpr fun row hrow => ?_⟩
      obtain hnew | ⟨hold, -⟩ := mem_applyAll hrow
      · exact hc.pending t ht row hnew
      · exact not_has_iff.mp hgone row hold
    · have hdeleted := (inv.replacing t ht i (Option.mem_toList.mp hnow)).past (hrest ▸ Nat.zero_le 1)
      obtain ⟨c, hc⟩ := Keyed.has_eq_true.mp (inv.orderly.fits t ht _ hdeleted)
      obtain rfl := Keyed.key_of_get? hc
      have hcpast := inv.past_row (Keyed.mem_values.mpr hc)
      refine ⟨c, hpast c hcpast, rfl, not_has_iff.mpr fun row hrow heq => ?_⟩
      obtain hnew | ⟨-, hkept⟩ := mem_applyAll hrow
      · exact hcpast.pending t ht row hnew heq
      · exact hkept (heq ▸ hdeleted)

/-- Each step keeps it. -/
theorem step (inv : Kept s) (a : Label) (hstep : s.step a = some s') : Kept s' := by
  cases a with
  | start tx flow =>
    obtain ⟨-, hstep⟩ := Option.ite_none_left_eq_some.mp hstep
    split at hstep
    · rename_i session new
      obtain ⟨hmakes, ⟨⟩⟩ := Option.ite_none_right_eq_some.mp hstep
      refine inv.start ?_
      rintro made _ ⟨⟩
      exact hmakes
    · rename_i hflow
      obtain ⟨⟩ := hstep
      exact inv.start fun session new heq => absurd heq (hflow session new)
  | find tx =>
    obtain ⟨t, ht, hfind⟩ := Option.bind_eq_some_iff.mp hstep
    obtain rfl := Keyed.key_of_get? ht
    split at hfind
    · rename_i c rest hrest hfound
      obtain ⟨⟩ := hfind
      exact inv.find (Keyed.mem_values.mpr ht) hrest rfl
    · exact nomatch hfind
  | take tx id =>
    obtain ⟨t, ht, htake⟩ := Option.bind_eq_some_iff.mp hstep
    obtain rfl := Keyed.key_of_get? ht
    obtain ⟨found, hfound, htake⟩ := Option.bind_eq_some_iff.mp htake
    obtain ⟨hid, htake⟩ := Option.ite_none_left_eq_some.mp htake
    have hid : id ∈ found := not_not.mp hid
    split at htake
    · rename_i hgone
      obtain ⟨⟩ := htake
      exact inv.pass (Keyed.mem_values.mpr ht) hfound hid ((Bool.not_eq_true' _).mp hgone)
    · rename_i hthere
      obtain ⟨hfree, ⟨⟩⟩ := Option.ite_none_right_eq_some.mp htake
      have hthere : s.rows.has id = true := by
        simpa using hthere
      exact inv.take (Keyed.mem_values.mpr ht) hfound hid hthere hfree
  | finish tx =>
    obtain ⟨t, ht, hfinish⟩ := Option.bind_eq_some_iff.mp hstep
    obtain rfl := Keyed.key_of_get? ht
    exact inv.finish (Keyed.mem_values.mpr ht) hfinish
  | commit tx =>
    obtain ⟨t, ht, hcommit⟩ := Option.bind_eq_some_iff.mp hstep
    obtain rfl := Keyed.key_of_get? ht
    obtain ⟨hrest, ⟨⟩⟩ := Option.ite_none_right_eq_some.mp hcommit
    exact inv.commit (Keyed.mem_values.mpr ht) hrest
  | rollback tx =>
    obtain ⟨⟩ := hstep
    exact inv.drop _

theorem runs (run : Runs World.step Always World.empty s) : Kept s :=
  run.keeps kept_empty fun _ a _ inv _ hstep => inv.step a hstep

end Kept

/-! ## The law -/

/-- A credential of which no row is there is verified no more. -/
theorem verify_gone {hashToken : String → TokenHash} {token : String} {rows : Rows} (htoken : token ≠ "")
    (hgone : ∀ row ∈ rows.values, row.tokenHash ≠ hashToken token) (users : String → Option Holder)
    (setting : PersonalTokens) (now : Time) (allowHook : Bool) :
    verify hashToken users setting now rows token allowHook = .error .invalidOrExpired := by
  have hnone : getCredentialByTokenHash users now (hashToken token) rows = none := by
    rw [getCredentialByTokenHash, List.find?_eq_none.mpr]
    · rfl
    · intro row hrow hfound
      exact hgone row hrow (eq_of_beq ((Bool.and_eq_true _ _).mp hfound).1)
  rw [verify, if_neg htoken, hnone]

/-- **What has been signed out of stays so**, in every run, however the transactions come between one another: a
sign-out everywhere, or a password reset that revokes the tokens, leaves no session it found and no token made with
one, committed before it or while it ran, and none of them is verified again; and no session is replaced twice. -/
theorem signed_out (run : Runs World.step Always World.empty s) : SignedOut s := by
  have inv := Kept.runs run
  refine ⟨fun c hc => (inv.ended c hc).gone, ?_, inv.replaced.1⟩
  intro c hc row hdrawn hwhose hashToken users setting now token allowHook hhash htoken
  refine verify_gone htoken ?_ users setting now allowHook
  intro there hthere heq
  obtain rfl : there = row := inv.eq_of_hash (inv.rows there hthere) hdrawn (heq.trans hhash)
  obtain ⟨hid, hmade⟩ := (inv.ended c hc).gone there hthere
  exact hwhose.elim hid hmade

/-- A session, and a token being made with it. -/
def laptop : Credential := ⟨1, "ann", .session, 11, none, none⟩

def deployToken : Credential := ⟨2, "ann", .personalToken, 12, none, some 1⟩

/-- She signs in, and makes a token with the session. -/
def making : List Label :=
  [.start 1 (.createSession "ann" ⟨1, 11, none⟩), .finish 1, .commit 1,
    .start 2 (.createPersonalToken laptop ⟨2, 12, none⟩), .finish 2]

/-- Beside it `flow` finds the session, and comes to it once the token is made; then it looks for what else it ends. -/
def beside (flow : Flow) : List Label := making ++ [.start 3 flow, .find 3, .commit 2, .take 3 1, .finish 3]

def signingOut : List Label := beside (.signOutEverywhere "ann") ++ [.find 3, .take 3 2, .finish 3, .commit 3]

theorem signed_out_beside : ∃ s, runList World.step World.empty signingOut = some s ∧
    s.ended = [laptop] ∧ s.drawn = [laptop, deployToken] ∧ s.rows.values = [] ∧ SignedOut s := by
  have hrun : ((runList World.step World.empty signingOut).map fun s => (s.ended, s.drawn, s.rows.values)) =
      some ([laptop], [laptop, deployToken], []) := by
    decide +kernel
  obtain ⟨s, hs, hwhat⟩ := Option.map_eq_some_iff.mp hrun
  obtain ⟨hended, hdrawn, hrows⟩ : s.ended = [laptop] ∧ s.drawn = [laptop, deployToken] ∧ s.rows.values = [] := by
    simpa using hwhat
  exact ⟨s, hs, hended, hdrawn, hrows, signed_out (.ofList _ (.always _ _) hs)⟩

/-- Until then it waits. -/
example : ((runList World.step World.empty (making ++ [.start 3 (.signOutEverywhere "ann"), .find 3, .take 3 1])).map
    fun s => s.drawn) = none := by
  decide +kernel

/-- One `DELETE` of everything does not find the token: `revokeAll` leaves it. -/
example : ((runList World.step World.empty (beside (.delete (.credentialsOf "ann")) ++ [.commit 3])).map
    fun s => s.rows.values) = some [deployToken] := by
  decide +kernel

end Stoop.Accounts.Credentials
