import Stoop.Accounts.Credentials

/-!
# Signed out for good

What the transactions on credentials keep (`Kept`), whichever way they come between one another, and from it the law
of every run (`signed_out`).

The changes that open transactions have written keep out of each other's way (`changes`): that is what the locks
are for. A sign-out deletes the sessions first. Once it is past them, each is deleted by it or gone, so none is held
by a token in the making (`Closed.not_made`); the tokens made with them are committed, and its second statement
finds them.
-/

set_option autoImplicit false

namespace Stoop.Accounts.Credentials

open Stoop.Lib

/-! ## Changes -/

theorem Change.apart_comm (c d : Change) : c.apart d = d.apart c := by
  cases c with
  | delete i =>
    cases d with
    | delete j => exact bne_comm
    | insert e => rfl
  | insert e =>
    cases d with
    | delete i => rfl
    | insert f => exact bne_comm

/-- What a change finds where it is made: the row it deletes, or none under the id it inserts, and the session its
token is made with. -/
def Change.Fits (rows : Rows) : Change → Prop
  | .delete i => rows.has i = true
  | .insert c => rows.has c.id = false ∧ ∀ session ∈ c.madeWith, rows.has session = true

theorem has_delete (rows : Rows) (i k : CredentialId) :
    (applyChange rows (.delete i)).has k = (rows.has k && k != i) := by
  rw [applyChange, Keyed.has, Keyed.get?_filter_ne, Keyed.has]
  by_cases hk : k = i <;> simp [hk]

theorem has_insert (rows : Rows) (c : Credential) (k : CredentialId) :
    (applyChange rows (.insert c)).has k = (rows.has k || k == c.id) := by
  rw [applyChange, Keyed.has, Keyed.get?_set, Keyed.has]
  by_cases hk : c.id = k
  · simp [hk]
  · simp [hk, Ne.symm hk]

theorem fits_applyChange {rows : Rows} {c d : Change} (hapart : c.apart d = true) (hfits : d.Fits rows) :
    d.Fits (applyChange rows c) := by
  cases c with
  | delete i =>
    cases d with
    | delete j =>
      have hne : j ≠ i := fun heq => bne_iff_ne.mp hapart heq.symm
      rw [Change.Fits, has_delete, show rows.has j = true from hfits]
      exact bne_iff_ne.mpr hne
    | insert e =>
      obtain ⟨hid, hmade⟩ := (Bool.and_eq_true _ _).mp hapart
      refine ⟨?_, ?_⟩
      · rw [has_delete, hfits.1]
        rfl
      · intro session hsession
        have hne : session ≠ i := by
          rintro rfl
          exact bne_iff_ne.mp hmade hsession
        rw [has_delete, hfits.2 session hsession]
        exact bne_iff_ne.mpr hne
  | insert e =>
    cases d with
    | delete j =>
      rw [Change.Fits, has_insert, show rows.has j = true from hfits]
      rfl
    | insert f =>
      have hne : f.id ≠ e.id := fun heq => bne_iff_ne.mp hapart heq.symm
      refine ⟨?_, ?_⟩
      · rw [has_insert, hfits.1, Bool.false_or]
        exact beq_eq_false_iff_ne.mpr hne
      · intro session hsession
        rw [has_insert, hfits.2 session hsession]
        rfl

/-- The discipline of the locks. -/
def changes : Discipline Rows Change where
  apply := applyChange
  Sound _ := True
  Fits := fun rows c => c.Fits rows
  Apart c d := c.apart d = true
  symm h := (Change.apart_comm _ _).trans h
  sound _ _ := trivial
  fits _ _ hapart hfits := fits_applyChange hapart hfits

/-- A row after a commit: one it inserted, or one that was there and it did not delete. -/
theorem mem_applyAll {rows : Rows} {cs : List Change} {row : Credential}
    (h : row ∈ (cs.foldl applyChange rows).values) :
    .insert row ∈ cs ∨ row ∈ rows.values ∧ .delete row.id ∉ cs := by
  induction cs generalizing rows with
  | nil => exact .inr ⟨h, List.not_mem_nil⟩
  | cons c cs ih =>
    obtain hmem | ⟨hmem, hkept⟩ := ih h
    · exact .inl (List.mem_cons_of_mem c hmem)
    · cases c with
      | delete i =>
        obtain ⟨hold, hne⟩ := List.mem_filter.mp hmem
        refine .inr ⟨hold, ?_⟩
        intro hdeleted
        obtain heq | hlater := List.mem_cons.mp hdeleted
        · injection heq with heq
          exact bne_iff_ne.mp hne heq
        · exact hkept hlater
      | insert d =>
        obtain ⟨-, rfl⟩ | ⟨-, hold⟩ := Keyed.get?_set_cases (Keyed.mem_values.mp hmem)
        · exact .inl List.mem_cons_self
        · refine .inr ⟨Keyed.mem_values.mpr hold, ?_⟩
          intro hdeleted
          obtain heq | hlater := List.mem_cons.mp hdeleted
          · exact nomatch heq
          · exact hkept hlater

theorem not_has_iff {rows : Rows} {i : CredentialId} : rows.has i = false ↔ ∀ row ∈ rows.values, row.id ≠ i := by
  rw [Keyed.has, Option.isSome_eq_false_iff, Option.isNone_iff_eq_none, Keyed.get?_eq_none]
  rfl

/-! ## What every step keeps -/

variable {s s' : World} {t : Tx} {c : Credential}

/-- A credential that was committed once: none is being inserted under its id. -/
structure Past (s : World) (c : Credential) : Prop where
  drawn : c ∈ s.drawn
  pending : ∀ t ∈ s.txs.values, ∀ d, .insert d ∈ t.written → d.id ≠ c.id

/-- A row is deleted by the transaction, or gone. -/
def Closed (s : World) (t : Tx) (i : CredentialId) : Prop := .delete i ∈ t.written ∨ s.rows.has i = false

/-- How far a sign-out has come. -/
structure SigningOut (s : World) (t : Tx) (holderId : String) : Prop where
  deletes : ∀ d ∈ t.written, ∃ i, d = .delete i
  seen : ∀ c ∈ t.seen, Past s c ∧ c.kind = .session ∧ c.holderId = holderId
  first : t.rest = t.flow.script → ∀ c ∈ t.seen, ∃ todo, t.found = some todo ∧ (c.id ∈ todo ∨ Closed s t c.id)
  past : t.rest ≠ t.flow.script → ∀ c ∈ t.seen, Closed s t c.id
  tokens : ∀ todo, t.rest = [.delete (.personalTokens holderId)] → t.found = some todo →
    ∀ row ∈ s.rows.values, ∀ c ∈ t.seen, row.madeWith = some c.id → row.id ∈ todo ∨ .delete row.id ∈ t.written
  done : t.rest = [] → ∀ row ∈ s.rows.values, ∀ c ∈ t.seen, row.madeWith = some c.id → .delete row.id ∈ t.written

/-- How far a replacement has come. -/
structure Replacing (t : Tx) (old : CredentialId) : Prop where
  deletes : ∀ i, .delete i ∈ t.written → i = old
  found : ∀ todo, t.found = some todo → ∀ i ∈ todo, i = old
  past : t.rest.length ≤ 1 → .delete old ∈ t.written

/-- What a committed sign-out found: neither it nor a token made with it is there or on its way. -/
structure Ended (s : World) (c : Credential) : Prop where
  past : Past s c
  gone : ∀ row ∈ s.rows.values, row.id ≠ c.id ∧ row.madeWith ≠ some c.id
  unmade : ∀ t ∈ s.txs.values, ∀ d, .insert d ∈ t.written → d.madeWith ≠ some c.id

structure Kept (s : World) : Prop where
  orderly : Orderly changes (·.written) s.rows s.txs
  rows : ∀ row ∈ s.rows.values, row ∈ s.drawn
  inserts : ∀ t ∈ s.txs.values, ∀ c, .insert c ∈ t.written → c ∈ s.drawn
  distinct : s.drawn.Pairwise fun c d => c.id ≠ d.id ∧ c.tokenHash ≠ d.tokenHash
  makers : ∀ row ∈ s.drawn, ∀ session ∈ row.madeWith, row.kind = .personalToken ∧
    ∃ c ∈ s.drawn, c.id = session ∧ c.kind = .session ∧ c.holderId = row.holderId
  course : ∀ t ∈ s.txs.values, t.rest <:+ t.flow.script
  makes : ∀ t ∈ s.txs.values, ∀ session new, t.flow = .createPersonalToken session new →
    session ∈ s.drawn ∧ session.kind = .session
  signing : ∀ t ∈ s.txs.values, ∀ holderId ∈ t.flow.signsOut, SigningOut s t holderId
  replacing : ∀ t ∈ s.txs.values, ∀ old ∈ t.flow.replaces, Replacing t old
  ended : ∀ c ∈ s.ended, Ended s c
  replaced : s.replaced.Nodup ∧ ∀ i ∈ s.replaced, ∃ c, Past s c ∧ c.id = i ∧ s.rows.has i = false

theorem kept_empty : Kept World.empty where
  orderly := .idle trivial
  rows _ h := absurd h List.not_mem_nil
  inserts _ h := absurd h List.not_mem_nil
  distinct := .nil
  makers _ h := absurd h List.not_mem_nil
  course _ h := absurd h List.not_mem_nil
  makes _ h := absurd h List.not_mem_nil
  signing _ h := absurd h List.not_mem_nil
  replacing _ h := absurd h List.not_mem_nil
  ended _ h := absurd h List.not_mem_nil
  replaced := ⟨.nil, fun _ h => absurd h List.not_mem_nil⟩

theorem script_of_signsOut {flow : Flow} {holderId : String} (h : holderId ∈ flow.signsOut) :
    flow.script = [.delete (.sessions holderId), .delete (.personalTokens holderId)] := by
  cases flow with
  | signOutEverywhere holderId =>
    obtain ⟨⟩ := h
    rfl
  | completePasswordReset holderId revokePersonalTokens =>
    cases revokePersonalTokens with
    | true =>
      obtain ⟨⟩ := h
      rfl
    | false => exact nomatch h
  | _ => exact nomatch h

/-- No token is being made with a session that is deleted or gone. -/
theorem Closed.not_made {i : CredentialId} (h : Closed s t i) (orderly : Orderly changes (·.written) s.rows s.txs)
    (ht : t ∈ s.txs.values) {u : Tx} (hu : u ∈ s.txs.values) {d : Credential} (hd : .insert d ∈ u.written) :
    d.madeWith ≠ some i := by
  obtain hdeleted | hgone := h
  · have hapart : Change.apart (.delete i) (.insert d) = true := orderly.apart ht hu hdeleted hd (by rintro ⟨⟩)
    exact bne_iff_ne.mp ((Bool.and_eq_true _ _).mp hapart).2
  · intro hmade
    have hthere : s.rows.has i = true := (orderly.fits u hu (.insert d) hd).2 i hmade
    rw [hgone] at hthere
    cases hthere

/-- What a step leaves a sign-out with, that it is not a step of. -/
theorem SigningOut.mono {holderId : String} (h : SigningOut s t holderId) (hflow : holderId ∈ t.flow.signsOut)
    (hpast : ∀ c, Past s c → Past s' c)
    (hrows : ∀ row ∈ s'.rows.values, row ∈ s.rows.values ∨
      (∀ c, Past s c → row.id ≠ c.id) ∧ ∀ c ∈ t.seen, Closed s t c.id → row.madeWith ≠ some c.id) :
    SigningOut s' t holderId := by
  have hscript := script_of_signsOut hflow
  have hclosed : ∀ c ∈ t.seen, Closed s t c.id → Closed s' t c.id := by
    intro c hc hclosed
    refine hclosed.imp_right fun hgone => not_has_iff.mpr fun row hrow => ?_
    obtain hold | ⟨hnew, -⟩ := hrows row hrow
    · exact not_has_iff.mp hgone row hold
    · exact hnew c (h.seen c hc).1
  have hpassed : t.rest ≠ t.flow.script → ∀ row ∈ s'.rows.values, ∀ c ∈ t.seen, row.madeWith = some c.id →
      row ∈ s.rows.values := by
    intro hrest row hrow c hc hmade
    obtain hold | ⟨-, hnew⟩ := hrows row hrow
    · exact hold
    · exact absurd hmade (hnew c hc (h.past hrest c hc))
  refine ⟨h.deletes, fun c hc => (h.seen c hc).imp_left (hpast c), ?_, ?_, ?_, ?_⟩
  · intro hrest c hc
    obtain ⟨todo, htodo, hcase⟩ := h.first hrest c hc
    exact ⟨todo, htodo, hcase.imp_right (hclosed c hc)⟩
  · intro hrest c hc
    exact hclosed c hc (h.past hrest c hc)
  · intro todo hrest htodo row hrow c hc hmade
    have hne : t.rest ≠ t.flow.script := by
      rw [hrest, hscript]
      exact nofun
    exact h.tokens todo hrest htodo row (hpassed hne row hrow c hc hmade) c hc hmade
  · intro hrest row hrow c hc hmade
    have hne : t.rest ≠ t.flow.script := by
      rw [hrest, hscript]
      exact nofun
    exact h.done hrest row (hpassed hne row hrow c hc hmade) c hc hmade

theorem mem_set {t' u : Tx} {txs : Keyed Tx.id} (h : u ∈ (txs.set t').values) :
    u = t' ∨ u ∈ txs.values ∧ u.id ≠ t'.id := by
  obtain ⟨-, rfl⟩ | ⟨hne, hold⟩ := Keyed.get?_set_cases (Keyed.mem_values.mp h)
  · exact .inl rfl
  · exact .inr ⟨Keyed.mem_values.mpr hold, fun heq => hne heq.symm⟩

/-- A transaction begins, or writes more: what is asked of it. -/
structure Advances (s : World) (t' : Tx) (drawn : List Credential) : Prop where
  fits : ∀ d ∈ t'.written, d.Fits s.rows
  within : t'.written.Pairwise fun c d => c.apart d = true
  across : ∀ u ∈ s.txs.values, u.id ≠ t'.id → ∀ c ∈ u.written, ∀ d ∈ t'.written, c.apart d = true
  grows : s.drawn ⊆ drawn
  inserts : ∀ c, .insert c ∈ t'.written → c ∈ drawn
  distinct : drawn.Pairwise fun c d => c.id ≠ d.id ∧ c.tokenHash ≠ d.tokenHash
  makers : ∀ row ∈ drawn, ∀ session ∈ row.madeWith, row.kind = .personalToken ∧
    ∃ c ∈ drawn, c.id = session ∧ c.kind = .session ∧ c.holderId = row.holderId
  pending : ∀ c, Past s c → ∀ d, .insert d ∈ t'.written → d.id ≠ c.id
  course : t'.rest <:+ t'.flow.script
  makes : ∀ session new, t'.flow = .createPersonalToken session new → session ∈ s.drawn ∧ session.kind = .session
  signing : ∀ holderId ∈ t'.flow.signsOut, SigningOut { s.advance t' with drawn := drawn } t' holderId
  replacing : ∀ old ∈ t'.flow.replaces, Replacing t' old
  unmade : ∀ c ∈ s.ended, ∀ d, .insert d ∈ t'.written → d.madeWith ≠ some c.id

namespace Kept

theorem past_advance (t' : Tx) {drawn : List Credential} (hgrows : s.drawn ⊆ drawn)
    (hpending : ∀ c, Past s c → ∀ d, .insert d ∈ t'.written → d.id ≠ c.id) (c : Credential) (h : Past s c) :
    Past { s.advance t' with drawn := drawn } c := by
  refine ⟨hgrows h.drawn, ?_⟩
  intro u hu d hd
  obtain rfl | ⟨hold, -⟩ := mem_set hu
  · exact hpending c h d hd
  · exact h.pending u hold d hd

theorem advance (inv : Kept s) {t' : Tx} {drawn : List Credential} (h : Advances s t' drawn) :
    Kept { s.advance t' with drawn := drawn } := by
  have hpast := past_advance t' h.grows h.pending
  refine ⟨inv.orderly.set h.fits h.within h.across, fun row hrow => h.grows (inv.rows row hrow), ?_, h.distinct,
    h.makers, ?_, ?_, ?_, ?_, ?_, inv.replaced.1, ?_⟩
  · intro u hu c hc
    obtain rfl | ⟨hold, -⟩ := mem_set hu
    · exact h.inserts c hc
    · exact h.grows (inv.inserts u hold c hc)
  · intro u hu
    obtain rfl | ⟨hold, -⟩ := mem_set hu
    · exact h.course
    · exact inv.course u hold
  · intro u hu session new hflow
    obtain rfl | ⟨hold, -⟩ := mem_set hu
    · exact (h.makes session new hflow).imp_left fun hmem => h.grows hmem
    · exact (inv.makes u hold session new hflow).imp_left fun hmem => h.grows hmem
  · intro u hu holderId hflow
    obtain rfl | ⟨hold, -⟩ := mem_set hu
    · exact h.signing holderId hflow
    · exact (inv.signing u hold holderId hflow).mono hflow hpast fun row hrow => .inl hrow
  · intro u hu old hflow
    obtain rfl | ⟨hold, -⟩ := mem_set hu
    · exact h.replacing old hflow
    · exact inv.replacing u hold old hflow
  · intro c hc
    obtain ⟨hcpast, hgone, hunmade⟩ := inv.ended c hc
    refine ⟨hpast c hcpast, hgone, ?_⟩
    intro u hu d hd
    obtain rfl | ⟨hold, -⟩ := mem_set hu
    · exact h.unmade c hc d hd
    · exact hunmade u hold d hd
  · intro i hi
    obtain ⟨c, hc, hid, hgone⟩ := inv.replaced.2 i hi
    exact ⟨c, hpast c hc, hid, hgone⟩

/-- Transactions that are over, having written nothing to the rows. -/
theorem drop (inv : Kept s) (p : Tx → Bool) : Kept { s with txs := s.txs.filter p } := by
  have hpast : ∀ c, Past s c → Past { s with txs := s.txs.filter p } c := fun c hc =>
    ⟨hc.drawn, fun u hu => hc.pending u (List.mem_filter.mp hu).1⟩
  refine ⟨inv.orderly.drop p, inv.rows, fun u hu => inv.inserts u (List.mem_filter.mp hu).1, inv.distinct, inv.makers,
    fun u hu => inv.course u (List.mem_filter.mp hu).1, fun u hu => inv.makes u (List.mem_filter.mp hu).1, ?_,
    fun u hu => inv.replacing u (List.mem_filter.mp hu).1, ?_, inv.replaced.1, ?_⟩
  · intro u hu holderId hflow
    exact (inv.signing u (List.mem_filter.mp hu).1 holderId hflow).mono hflow hpast fun row hrow => .inl hrow
  · intro c hc
    obtain ⟨hcpast, hgone, hunmade⟩ := inv.ended c hc
    exact ⟨hpast c hcpast, hgone, fun u hu => hunmade u (List.mem_filter.mp hu).1⟩
  · intro i hi
    obtain ⟨c, hc, hid, hgone⟩ := inv.replaced.2 i hi
    exact ⟨c, hpast c hc, hid, hgone⟩

end Kept

end Stoop.Accounts.Credentials
