import Stoop.Lib.Keyed

/-!
# Accounts' addresses and their links

The columns of `users` that hold an account's addresses, the rows of `email_tokens`, and the statements over
them (`internal/db/queries/auth`). An address is `citext`: two are the same address where `fold` makes them
one, and a unique index holds the confirmed ones apart. A message carries a token, and the table its hash.

The transactions lock the account's row before they read, and hold it to their end, so each is one step on
the tables (`internal/auth/account_email.go`, `email_confirm.go`, `password_reset.go`): nobody else changes
that row meanwhile, and nobody marks a link used. What other requests read before the lock is given to them.
-/

set_option autoImplicit false

namespace Stoop.Accounts.Email

open Stoop.Lib

/-! ## Rows -/

inductive Purpose
  | confirmEmail
  | resetPassword
  deriving DecidableEq, Repr

/-- A row of `email_tokens`. -/
structure EmailToken where
  id : Nat
  userId : String
  purpose : Purpose
  tokenHash : String
  address : String
  createdAt : Nat
  expiresAt : Nat
  usedAt : Option Nat := none
  deriving DecidableEq, Repr

/-- A row of `users`: a deactivated account is no active one, and a bot no person. -/
structure UserRow where
  id : String
  email : Option String := none
  pendingEmail : Option String := none
  deactivated : Bool := false
  person : Bool := true
  passwordHash : Option String := none
  deriving DecidableEq, Repr

structure Tables where
  users : Keyed UserRow.id
  tokens : Keyed EmailToken.tokenHash

/-- An account's confirmed address. -/
def Tables.emailOf (t : Tables) (id : String) : Option String := (t.users.get? id).bind (·.email)

/-- An account's password. -/
def Tables.passwordOf (t : Tables) (id : String) : Option String := (t.users.get? id).bind (·.passwordHash)

/-! ## Statements on accounts -/

/-- A row changed where it is the one meant. -/
def changeWhere {α : Type} (p : α → Bool) (change : α → α) (a : α) : α := if p a then change a else a

theorem key_changeWhere {α κ : Type} {key : α → κ} (p : α → Bool) {change : α → α}
    (h : ∀ a, key (change a) = key a) (a : α) : key (changeWhere p change a) = key a := by
  unfold changeWhere
  split
  · exact h a
  · rfl

/-- `UPDATE users … WHERE id = …`. -/
def Tables.update (t : Tables) (id : String) (change : UserRow → UserRow)
    (h : ∀ u, (change u).id = u.id) : Tables :=
  { t with users := t.users.map (changeWhere (·.id == id) change) (key_changeWhere _ h) }

def Tables.setPendingEmail (t : Tables) (id address : String) : Tables :=
  t.update id (fun u => { u with pendingEmail := some address }) fun _ => rfl

def Tables.clearPendingEmail (t : Tables) (id : String) : Tables :=
  t.update id (fun u => { u with pendingEmail := none }) fun _ => rfl

def Tables.clearUserEmail (t : Tables) (id : String) : Tables :=
  t.update id (fun u => { u with email := none, pendingEmail := none }) fun _ => rfl

def Tables.updateUserPasswordHash (t : Tables) (id hash : String) : Tables :=
  t.update id (fun u => { u with passwordHash := some hash }) fun _ => rfl

def Tables.setUserDeactivated (t : Tables) (id : String) (deactivated : Bool) : Tables :=
  t.update id (fun u => { u with deactivated := deactivated }) fun _ => rfl

/-- `DeleteAccount`, as far as these columns go. -/
def Tables.deleteAccount (t : Tables) (id : String) : Tables :=
  t.update id (fun u => { u with deactivated := true, passwordHash := none }) fun _ => rfl

section Citext

variable (fold : String → String)

/-- Whether a column holds an address. -/
def holds (address : String) (column : Option String) : Bool :=
  column.any fun held => fold held == fold address

def Tables.emailConfirmedElsewhere (t : Tables) (address id : String) : Bool :=
  t.users.values.any fun u => u.id != id && holds fold address u.email

/-- Nothing where the unique index refuses. -/
def Tables.confirmPendingEmail (t : Tables) (id : String) : Option Tables :=
  match (t.users.get? id).bind (·.pendingEmail) with
  | none => some t
  | some address =>
    if t.emailConfirmedElsewhere fold address id then none
    else some (t.update id (fun u => { u with email := some address, pendingEmail := none }) fun _ => rfl)

/-- Nothing changes where an account holds the address. -/
def Tables.adoptProviderEmail (t : Tables) (id address : String) : Tables :=
  if t.users.values.any fun u => holds fold address u.email then t
  else t.update id (fun u => { u with email := some address }) fun _ => rfl

end Citext

/-- **What an update leaves of a row.** -/
theorem get?_update (t : Tables) {id : String} {change : UserRow → UserRow}
    (h : ∀ u, (change u).id = u.id) (k : String) :
    (t.update id change h).users.get? k =
      if k = id then (t.users.get? k).map change else t.users.get? k := by
  rw [Tables.update, Keyed.get?_map]
  cases hk : t.users.get? k with
  | none => simp only [Option.map_none, ite_self]
  | some u =>
    have hid : u.id = k := Keyed.key_of_get? hk
    simp only [Option.map_some, changeWhere, hid, beq_iff_eq]
    split <;> rfl

/-- A confirmed address that another account holds is held there. -/
theorem emailConfirmedElsewhere_eq_false {fold : String → String} {t : Tables} {address id : String}
    (h : t.emailConfirmedElsewhere fold address id = false) {k held : String} (hk : k ≠ id)
    (hheld : t.emailOf k = some held) : fold held ≠ fold address := by
  obtain ⟨u, hu, hemail⟩ := Option.bind_eq_some_iff.mp hheld
  have hid : u.id = k := Keyed.key_of_get? hu
  have hmem : u ∈ t.users.values := Keyed.mem_values.mpr (by rw [hid, hu])
  intro heq
  have hnone := List.any_eq_false.mp h u hmem
  simp only [hid, holds, hemail, Option.any_some, heq, beq_self_eq_true, Bool.and_true, bne_iff_ne,
    ne_eq, Decidable.not_not] at hnone
  exact hk hnone

/-! ## Statements on links -/

def Tables.createEmailToken (t : Tables) (row : EmailToken) : Tables :=
  { t with tokens := t.tokens.set row }

def Tables.markEmailTokenUsed (t : Tables) (id now : Nat) : Tables :=
  { t with
    tokens := t.tokens.map (changeWhere (·.id == id) fun row => { row with usedAt := some now })
      (key_changeWhere _ fun _ => rfl) }

/-- `DELETE FROM email_tokens WHERE …`. -/
def Tables.deleteTokens (t : Tables) (where? : EmailToken → Bool) : Tables :=
  { t with tokens := t.tokens.filter fun row => !where? row }

def Tables.deleteOtherEmailTokens (t : Tables) (userId : String) (purpose : Purpose) (keepId : Nat) :
    Tables :=
  t.deleteTokens fun row => row.userId == userId && row.purpose == purpose && row.id != keepId

/-- The links made before the kept one, where that is still there. -/
def Tables.deleteOlderEmailTokens (t : Tables) (keepId : Nat) : Tables :=
  match t.tokens.values.find? fun row => row.id == keepId with
  | none => t
  | some kept =>
    t.deleteTokens fun old => old.userId == kept.userId && old.purpose == kept.purpose &&
      (old.createdAt < kept.createdAt || (old.createdAt == kept.createdAt && decide (old.id < kept.id)))

/-- `late` are the links stored after the statement began, which it does not see. -/
def Tables.deleteUserEmailTokens (t : Tables) (userId : String) (purpose : Purpose)
    (late : List String := []) : Tables :=
  t.deleteTokens fun row =>
    row.userId == userId && row.purpose == purpose && !late.contains row.tokenHash

def Tables.deleteAllUserEmailTokens (t : Tables) (userId : String) (late : List String := []) : Tables :=
  t.deleteTokens fun row => row.userId == userId && !late.contains row.tokenHash

def Tables.sweepEmailTokens (t : Tables) (before : Nat) : Tables :=
  t.deleteTokens fun row => decide (row.expiresAt ≤ before) || row.usedAt.any (· ≤ before)

/-- A live link: of the purpose, unused, not expired. -/
def Tables.liveToken (t : Tables) (now : Nat) (tokenHash : String) (purpose : Purpose) : Option EmailToken :=
  (t.tokens.get? tokenHash).filter fun row =>
    row.purpose == purpose && row.usedAt.isNone && decide (now < row.expiresAt)

section Citext

variable (fold : String → String)

/-- A link whose address is the account's pending one, on an active account. -/
def Tables.getConfirmableEmailToken (t : Tables) (now : Nat) (tokenHash : String) :
    Option (EmailToken × UserRow) :=
  (t.liveToken now tokenHash .confirmEmail).bind fun row =>
    ((t.users.get? row.userId).filter fun u => !u.deactivated && holds fold row.address u.pendingEmail).map
      fun u => (row, u)

/-- A link whose address is the account's confirmed one, on an active person's account. -/
def Tables.lockPasswordResetToken (t : Tables) (now : Nat) (tokenHash : String) :
    Option (EmailToken × UserRow) :=
  (t.liveToken now tokenHash .resetPassword).bind fun row =>
    ((t.users.get? row.userId).filter fun u =>
      !u.deactivated && u.person && holds fold row.address u.email).map fun u => (row, u)

/-! ## Transactions -/

variable (equalFold : String → String → Bool)

/-- `ConfirmEmail`, with the hash of its token; nothing where it refuses. -/
def confirmEmail (t : Tables) (now : Nat) (tokenHash : String) : Option Tables :=
  (t.getConfirmableEmailToken fold now tokenHash).bind fun (link, _) =>
    if t.emailConfirmedElsewhere fold link.address link.userId then none
    else
      (t.confirmPendingEmail fold link.userId).map fun t =>
        ((t.markEmailTokenUsed link.id now).deleteOtherEmailTokens link.userId .confirmEmail link.id)
          |>.deleteUserEmailTokens link.userId .resetPassword

/-- `CompletePasswordReset`; `allowed` is what the password policy says. -/
def completePasswordReset (t : Tables) (now : Nat) (tokenHash newHash : String) (allowed : Bool) :
    Option Tables :=
  (t.lockPasswordResetToken fold now tokenHash).bind fun (link, _) =>
    if !allowed then none
    else some
      (((t.updateUserPasswordHash link.userId newHash).markEmailTokenUsed link.id now)
        |>.deleteOtherEmailTokens link.userId .resetPassword link.id)

end Citext

/-- `RequestEmailChange`, of an account that `EqualFold` does not find at the address already: asked again
for the address that waits, it changes nothing. -/
def requestEmailChange (equalFold : String → String → Bool) (t : Tables) (userId address : String) :
    Option Tables :=
  (t.users.get? userId).map fun u =>
    if u.pendingEmail.any (equalFold · address) then t
    else (t.setPendingEmail userId address).deleteUserEmailTokens userId .confirmEmail

/-- `CancelEmailChange`. Its lock lets a link be stored meanwhile. -/
def cancelEmailChange (t : Tables) (userId : String) (late : List String) : Tables :=
  (t.clearPendingEmail userId).deleteUserEmailTokens userId .confirmEmail late

/-- `clearEmail`. -/
def clearEmail (t : Tables) (userId : String) (late : List String) : Tables :=
  (t.clearUserEmail userId).deleteAllUserEmailTokens userId late

/-- `setPasswordHash`. -/
def setPasswordHash (t : Tables) (userId hash : String) : Tables :=
  (t.updateUserPasswordHash userId hash).deleteUserEmailTokens userId .resetPassword

/-! ## What the statements leave -/

/-- No account came by an address. -/
def KeepsEmails (t t' : Tables) : Prop := ∀ k address, t'.emailOf k = some address → t.emailOf k = some address

/-- No account came by a password. -/
def KeepsPasswords (t t' : Tables) : Prop := ∀ k hash, t'.passwordOf k = some hash → t.passwordOf k = some hash

/-- No link is new or for another address, and none used is unused again. -/
def KeepsLinks (t t' : Tables) : Prop :=
  ∀ hash row', t'.tokens.get? hash = some row' → ∃ row, t.tokens.get? hash = some row ∧
    row'.address = row.address ∧ (row.usedAt.isSome = true → row'.usedAt.isSome = true)

section Leaving

variable {t t' t'' : Tables} {id : String} {change : UserRow → UserRow} (h : ∀ u, (change u).id = u.id)

theorem KeepsLinks.refl (t : Tables) : KeepsLinks t t := fun _ row hrow => ⟨row, hrow, rfl, fun h => h⟩

theorem KeepsLinks.trans (first : KeepsLinks t t') (then? : KeepsLinks t' t'') : KeepsLinks t t'' := by
  intro hash row'' hrow''
  obtain ⟨row', hrow', haddress', hused'⟩ := then? hash row'' hrow''
  obtain ⟨row, hrow, haddress, hused⟩ := first hash row' hrow'
  exact ⟨row, hrow, haddress'.trans haddress, fun h => hused' (hused h)⟩

theorem keepsLinks_update : KeepsLinks t (t.update id change h) := KeepsLinks.refl t

theorem keepsLinks_deleteTokens (t : Tables) (where? : EmailToken → Bool) :
    KeepsLinks t (t.deleteTokens where?) :=
  fun _ row hrow => ⟨row, (Keyed.get?_filter_eq_some hrow).1, rfl, fun h => h⟩

theorem get?_markUsed (t : Tables) (id now : Nat) (hash : String) :
    (t.markEmailTokenUsed id now).tokens.get? hash =
      (t.tokens.get? hash).map (changeWhere (·.id == id) fun row => { row with usedAt := some now }) := by
  rw [Tables.markEmailTokenUsed, Keyed.get?_map]

theorem keepsLinks_markUsed (t : Tables) (id now : Nat) : KeepsLinks t (t.markEmailTokenUsed id now) := by
  intro hash row' hrow'
  rw [get?_markUsed] at hrow'
  obtain ⟨row, hrow, rfl⟩ := Option.map_eq_some_iff.mp hrow'
  refine ⟨row, hrow, ?_, fun hused => ?_⟩
  · unfold changeWhere
    split <;> rfl
  · unfold changeWhere
    split
    · rfl
    · exact hused

/-- The link marked is used. -/
theorem used_markUsed {row : EmailToken} {now : Nat} (hrow : t.tokens.get? row.tokenHash = some row)
    {row' : EmailToken} (hrow' : (t.markEmailTokenUsed row.id now).tokens.get? row.tokenHash = some row') :
    row'.usedAt.isSome = true := by
  rw [get?_markUsed] at hrow'
  obtain ⟨row₁, hrow₁, rfl⟩ := Option.map_eq_some_iff.mp hrow'
  obtain rfl := Option.some.inj (hrow.symm.trans hrow₁)
  simp only [changeWhere, beq_self_eq_true, if_true, Option.isSome_some]

theorem emailOf_update (k : String) :
    (t.update id change h).emailOf k =
      if k = id then (t.users.get? k).bind fun u => (change u).email else t.emailOf k := by
  rw [Tables.emailOf, get?_update]
  split
  · rw [Option.bind_map]
    rfl
  · rfl

theorem passwordOf_update (k : String) :
    (t.update id change h).passwordOf k =
      if k = id then (t.users.get? k).bind fun u => (change u).passwordHash else t.passwordOf k := by
  rw [Tables.passwordOf, get?_update]
  split
  · rw [Option.bind_map]
    rfl
  · rfl

/-- An update that gives no address. -/
theorem keepsEmails_update (hchange : ∀ u address, (change u).email = some address → u.email = some address) :
    KeepsEmails t (t.update id change h) := by
  intro k address hk
  rw [emailOf_update] at hk
  split at hk
  · obtain ⟨u, hu, hemail⟩ := Option.bind_eq_some_iff.mp hk
    exact Option.bind_eq_some_iff.mpr ⟨u, hu, hchange u address hemail⟩
  · exact hk

theorem keepsPasswords_update
    (hchange : ∀ u hash, (change u).passwordHash = some hash → u.passwordHash = some hash) :
    KeepsPasswords t (t.update id change h) := by
  intro k hash hk
  rw [passwordOf_update] at hk
  split at hk
  · obtain ⟨u, hu, hpassword⟩ := Option.bind_eq_some_iff.mp hk
    exact Option.bind_eq_some_iff.mpr ⟨u, hu, hchange u hash hpassword⟩
  · exact hk

/-- Nothing new: no address, no password, no link. -/
structure Quiet (t t' : Tables) : Prop where
  emails : KeepsEmails t t'
  passwords : KeepsPasswords t t'
  links : KeepsLinks t t'

theorem Quiet.refl (t : Tables) : Quiet t t := ⟨fun _ _ h => h, fun _ _ h => h, KeepsLinks.refl t⟩

theorem Quiet.trans (first : Quiet t t') (then? : Quiet t' t'') : Quiet t t'' where
  emails k address hk := first.emails k address (then?.emails k address hk)
  passwords k hash hk := first.passwords k hash (then?.passwords k hash hk)
  links := first.links.trans then?.links

theorem quiet_update (hemail : ∀ u address, (change u).email = some address → u.email = some address)
    (hpassword : ∀ u hash, (change u).passwordHash = some hash → u.passwordHash = some hash) :
    Quiet t (t.update id change h) where
  emails := keepsEmails_update h hemail
  passwords := keepsPasswords_update h hpassword
  links := keepsLinks_update h

theorem quiet_deleteTokens (t : Tables) (where? : EmailToken → Bool) : Quiet t (t.deleteTokens where?) where
  emails _ _ hk := hk
  passwords _ _ hk := hk
  links := keepsLinks_deleteTokens t where?

theorem quiet_deleteOlder (t : Tables) (keepId : Nat) : Quiet t (t.deleteOlderEmailTokens keepId) := by
  unfold Tables.deleteOlderEmailTokens
  split
  · exact Quiet.refl t
  · exact quiet_deleteTokens t _

theorem quiet_requestEmailChange {equalFold : String → String → Bool} {address : String}
    (hdone : requestEmailChange equalFold t id address = some t') : Quiet t t' := by
  obtain ⟨u, -, rfl⟩ := Option.map_eq_some_iff.mp hdone
  split
  · exact Quiet.refl t
  · have hpending : Quiet t (t.setPendingEmail id address) :=
      quiet_update _ (fun _ _ h => h) fun _ _ h => h
    exact hpending.trans (quiet_deleteTokens _ _)

theorem quiet_cancelEmailChange (t : Tables) (id : String) (late : List String) :
    Quiet t (cancelEmailChange t id late) := by
  have hpending : Quiet t (t.clearPendingEmail id) := quiet_update _ (fun _ _ h => h) fun _ _ h => h
  exact hpending.trans (quiet_deleteTokens _ _)

theorem quiet_clearEmail (t : Tables) (id : String) (late : List String) :
    Quiet t (clearEmail t id late) := by
  have hcleared : Quiet t (t.clearUserEmail id) := quiet_update _ (fun _ _ h => nomatch h) fun _ _ h => h
  exact hcleared.trans (quiet_deleteTokens _ _)

theorem quiet_deleteAccount (t : Tables) (id : String) : Quiet t (t.deleteAccount id) :=
  quiet_update _ (fun _ _ h => h) fun _ _ h => nomatch h

theorem confirmPendingEmail_spec {fold : String → String} {u : UserRow} {address : String}
    (hu : t.users.get? id = some u) (hpending : u.pendingEmail = some address)
    (hdone : t.confirmPendingEmail fold id = some t') :
    t.emailConfirmedElsewhere fold address id = false ∧ t'.emailOf id = some address ∧
      (∀ k, k ≠ id → t'.emailOf k = t.emailOf k) ∧ KeepsPasswords t t' ∧ t'.tokens = t.tokens := by
  simp only [Tables.confirmPendingEmail, hu, Option.bind_some, hpending] at hdone
  split at hdone
  · cases hdone
  next hfree =>
    obtain rfl := Option.some.inj hdone
    refine ⟨Bool.eq_false_iff.mpr hfree, ?_, fun k hk => ?_, keepsPasswords_update _ fun _ _ h => h, rfl⟩
    · rw [emailOf_update, if_pos rfl, hu, Option.bind_some]
    · rw [emailOf_update, if_neg hk]

theorem updateUserPasswordHash_spec {u : UserRow} (hu : t.users.get? id = some u) (hash : String) :
    (t.updateUserPasswordHash id hash).passwordOf id = some hash ∧
      (∀ k, k ≠ id → (t.updateUserPasswordHash id hash).passwordOf k = t.passwordOf k) ∧
      KeepsEmails t (t.updateUserPasswordHash id hash) := by
  refine ⟨?_, fun k hk => ?_, keepsEmails_update _ fun _ _ h => h⟩
  · rw [Tables.updateUserPasswordHash, passwordOf_update, if_pos rfl, hu, Option.bind_some]
  · rw [Tables.updateUserPasswordHash, passwordOf_update, if_neg hk]

end Leaving

/-! ## One address, one account -/

/-- No confirmed address is two accounts'. -/
def Tables.Unique (fold : String → String) (t : Tables) : Prop :=
  ∀ k k' address address', t.emailOf k = some address → t.emailOf k' = some address' →
    fold address = fold address' → k = k'

section Unique

variable {fold : String → String} {t t' : Tables}

theorem Tables.Unique.keeps (unique : t.Unique fold) (h : KeepsEmails t t') : t'.Unique fold :=
  fun k k' address address' hk hk' => unique k k' address address' (h k address hk) (h k' address' hk')

/-- An account may come by an address that no other holds. -/
theorem Tables.Unique.gives (unique : t.Unique fold) (id address : String)
    (hfree : ∀ k held, k ≠ id → t.emailOf k = some held → fold held ≠ fold address)
    (hself : ∀ held, t'.emailOf id = some held → held = address)
    (hothers : ∀ k, k ≠ id → t'.emailOf k = t.emailOf k) : t'.Unique fold := by
  intro k k' held held' hk hk' heq
  by_cases hid : k = id
  · by_cases hid' : k' = id
    · exact hid.trans hid'.symm
    · obtain rfl := hself held (hid ▸ hk)
      rw [hothers k' hid'] at hk'
      exact absurd heq.symm (hfree k' held' hid' hk')
  · rw [hothers k hid] at hk
    by_cases hid' : k' = id
    · obtain rfl := hself held' (hid' ▸ hk')
      exact absurd heq (hfree k held hid hk)
    · rw [hothers k' hid'] at hk'
      exact unique k k' held held' hk hk' heq

end Unique

end Stoop.Accounts.Email
