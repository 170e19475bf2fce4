import Stoop.Lib.Machine
import Stoop.Accounts.EmailTables

/-!
# Email links act once, for the address they were sent to

Requests and mail jobs over the accounts' addresses, in any order (`internal/auth`). A job reads its
recipient, stores the link it mints, hands the message over, and where that was sent retires the older
links: three steps, and any others in between. A job runs at any time and for any account, as often as it
likes, which is more than the queue has it do.

A token drawn has a hash none drawn before has.

## Main result

* `links_act_once`: in every state reached no confirmed address is two accounts', each link has been used
  at most once, and a step gives an account an address or a password only as `Acts` says: a confirmation
  only through an unused link, sent to the address that is pending then; a reset only through an unused
  link, sent to the address that is confirmed then, of an active account.

The transactions look at the link and at the account together, under the account's lock. So it does not
matter when a link was minted or what was to be retired: `Sound` says nothing of either.
-/

set_option autoImplicit false

namespace Stoop.Accounts.Email

open Stoop.Lib

/-! ## What a link does -/

/-- A link is used: it was unused, and is used from then on. -/
structure Uses (t t' : Tables) (link : EmailToken) : Prop where
  found : t.tokens.get? link.tokenHash = some link
  unused : link.usedAt = none
  links : KeepsLinks t t'
  used : ∀ row, t'.tokens.get? link.tokenHash = some row → row.usedAt.isSome = true

/-- A confirmation: the account's pending address, the link's, becomes its confirmed one. -/
structure Confirms (fold : String → String) (t t' : Tables) (link : EmailToken) (user : UserRow)
    (address : String) : Prop extends Uses t t' link where
  account : t.users.get? link.userId = some user
  active : user.deactivated = false
  pending : user.pendingEmail = some address
  same : fold address = fold link.address
  free : t.emailConfirmedElsewhere fold address link.userId = false
  gives : t'.emailOf link.userId = some address
  others : ∀ k, k ≠ link.userId → t'.emailOf k = t.emailOf k
  passwords : KeepsPasswords t t'

/-- A reset: the account with the link's address gets the password. -/
structure Resets (fold : String → String) (t t' : Tables) (link : EmailToken) (user : UserRow)
    (newHash : String) : Prop extends Uses t t' link where
  account : t.users.get? link.userId = some user
  active : user.deactivated = false
  confirmed : ∃ address, user.email = some address ∧ fold address = fold link.address
  gives : t'.passwordOf link.userId = some newHash
  others : ∀ k, k ≠ link.userId → t'.passwordOf k = t.passwordOf k
  emails : KeepsEmails t t'

section Transactions

variable {fold : String → String} {t t' : Tables}

theorem liveToken_eq_some {now : Nat} {hash : String} {purpose : Purpose} {link : EmailToken}
    (h : t.liveToken now hash purpose = some link) :
    link.tokenHash = hash ∧ t.tokens.get? link.tokenHash = some link ∧ link.usedAt = none := by
  obtain ⟨hlink, hlive⟩ := Option.filter_eq_some_iff.mp h
  have hhash : link.tokenHash = hash := Keyed.key_of_get? hlink
  simp only [Bool.and_eq_true] at hlive
  exact ⟨hhash, by rw [hhash, hlink], Option.isNone_iff_eq_none.mp hlive.1.2⟩

theorem holds_eq_true {address : String} {column : Option String} (h : holds fold address column = true) :
    ∃ held, column = some held ∧ fold held = fold address := by
  cases column with
  | none => cases h
  | some held => exact ⟨held, rfl, eq_of_beq h⟩

/-- A link marked used in tables that keep the links of others, with some deleted after. -/
theorem Uses.of_mark {t₁ : Tables} {link : EmailToken} {now : Nat}
    (hlink : t.tokens.get? link.tokenHash = some link) (hunused : link.usedAt = none)
    (hsame : t₁.tokens = t.tokens) (hafter : KeepsLinks (t₁.markEmailTokenUsed link.id now) t') :
    Uses t t' link where
  found := hlink
  unused := hunused
  links := by
    have hbefore : KeepsLinks t t₁ := fun hash row hrow => ⟨row, hsame ▸ hrow, rfl, fun h => h⟩
    exact (hbefore.trans (keepsLinks_markUsed t₁ link.id now)).trans hafter
  used row hrow := by
    obtain ⟨row₁, hrow₁, -, hused⟩ := hafter link.tokenHash row hrow
    exact hused (used_markUsed (hsame ▸ hlink) hrow₁)

/-- **What a confirmation does.** -/
theorem confirmEmail_spec {now : Nat} {hash : String} (h : confirmEmail fold t now hash = some t') :
    ∃ link user address, link.tokenHash = hash ∧ Confirms fold t t' link user address := by
  obtain ⟨⟨link, user⟩, hfound, hrest⟩ := Option.bind_eq_some_iff.mp h
  obtain ⟨row, hlive, hrow⟩ := Option.bind_eq_some_iff.mp hfound
  obtain ⟨u, hu, hpair⟩ := Option.map_eq_some_iff.mp hrow
  obtain ⟨rfl, rfl⟩ := Prod.mk.inj hpair
  obtain ⟨haccount, hpasses⟩ := Option.filter_eq_some_iff.mp hu
  obtain ⟨hactive, hholds⟩ := Bool.and_eq_true_iff.mp hpasses
  obtain ⟨address, hpending, hsame⟩ := holds_eq_true hholds
  obtain ⟨hhash, hlink, hunused⟩ := liveToken_eq_some hlive
  simp only at hrest
  split at hrest
  · cases hrest
  obtain ⟨t₁, hconfirm, rfl⟩ := Option.map_eq_some_iff.mp hrest
  obtain ⟨hfree, hgives, hothers, hpasswords, htokens⟩ :=
    confirmPendingEmail_spec haccount hpending hconfirm
  refine ⟨row, u, address, hhash,
    { toUses := ?_
      account := haccount
      active := by simpa only [Bool.not_eq_true'] using hactive
      pending := hpending
      same := hsame
      free := hfree
      gives := hgives
      others := hothers
      passwords := hpasswords }⟩
  exact Uses.of_mark hlink hunused htokens
    ((keepsLinks_deleteTokens _ _).trans (keepsLinks_deleteTokens _ _))

/-- **What a reset does.** -/
theorem completePasswordReset_spec {now : Nat} {hash newHash : String} {allowed : Bool}
    (h : completePasswordReset fold t now hash newHash allowed = some t') :
    ∃ link user, link.tokenHash = hash ∧ Resets fold t t' link user newHash := by
  obtain ⟨⟨link, user⟩, hfound, hrest⟩ := Option.bind_eq_some_iff.mp h
  obtain ⟨row, hlive, hrow⟩ := Option.bind_eq_some_iff.mp hfound
  obtain ⟨u, hu, hpair⟩ := Option.map_eq_some_iff.mp hrow
  obtain ⟨rfl, rfl⟩ := Prod.mk.inj hpair
  obtain ⟨haccount, hpasses⟩ := Option.filter_eq_some_iff.mp hu
  obtain ⟨hactive, hholds⟩ := Bool.and_eq_true_iff.mp hpasses
  obtain ⟨address, hemail, hsame⟩ := holds_eq_true hholds
  obtain ⟨hhash, hlink, hunused⟩ := liveToken_eq_some hlive
  simp only at hrest
  split at hrest
  · cases hrest
  obtain rfl := Option.some.inj hrest
  obtain ⟨hgives, hothers, hemails⟩ := updateUserPasswordHash_spec haccount newHash
  refine ⟨row, u, hhash,
    { toUses := ?_
      account := haccount
      active := by simpa only [Bool.not_eq_true'] using (Bool.and_eq_true_iff.mp hactive).1
      confirmed := ⟨address, hemail, hsame⟩
      gives := hgives
      others := hothers
      emails := hemails }⟩
  exact Uses.of_mark hlink hunused rfl (keepsLinks_deleteTokens _ _)

end Transactions

/-! ## Requests and jobs -/

/-- In seconds. -/
def confirmEmailLifetime : Nat := 24 * 60 * 60
def resetPasswordLifetime : Nat := 60 * 60

def Purpose.lifetime : Purpose → Nat
  | .confirmEmail => confirmEmailLifetime
  | .resetPassword => resetPasswordLifetime

/-- A mail job: its recipient read, or its message handed over. -/
inductive Job
  | read (userId : String) (purpose : Purpose) (address : String)
  | minted (tokenId : Nat)
  deriving DecidableEq, Repr

/-- The clock, the tables and the jobs at work; and, which no step reads but to draw a token, the messages
handed over, each with its link's hash and whom it goes to, and the links used. -/
structure State where
  now : Nat
  tables : Tables
  jobs : Nat → Option Job
  mailed : List (String × String)
  used : List String

def State.start : State := ⟨0, ⟨Keyed.empty, Keyed.empty⟩, fun _ => none, [], []⟩

/-- One step. A request that is refused is none; `read` is the address a request read before its lock, and
`late` the links its deletes did not see. -/
inductive Label
  | createAccount (id : String) (person : Bool) (passwordHash : Option String)
  | requestEmailChange (userId address : String) (read : Option String)
  | cancelEmailChange (userId : String) (late : List String)
  | removeEmail (userId : String)
  | deleteAccount (userId : String) (late : List String)
  | setDeactivated (userId : String) (deactivated : Bool)
  | setPasswordHash (userId hash : String)
  | adoptProviderEmail (userId address : String)
  | confirmEmail (token : String)
  | completePasswordReset (token newHash : String) (allowed : Bool)
  | buildConfirmEmail (n : Nat) (userId : String)
  | buildPasswordReset (n : Nat) (userId : String) (asked : Option String) (allowed : Bool)
  | mint (n id : Nat) (token : String)
  | sent (n : Nat)
  | sweep (before : Nat)
  | tick (span : Nat)
  deriving DecidableEq, Repr

def State.put (s : State) (tables : Tables) : State := { s with tables := tables }

/-- A job at its next stage, or over. -/
def State.job (s : State) (n : Nat) (job : Option Job) : State :=
  { s with jobs := fun m => if m = n then job else s.jobs m }

/-- A link used. -/
def State.use (s : State) (hash : String) (tables : Tables) : State :=
  { s with tables := tables, used := hash :: s.used }

section Machine

-- `citext`'s comparison, `strings.EqualFold`, and SHA-256
variable (fold : String → String) (equalFold : String → String → Bool) (hashToken : String → String)

/-- `BuildConfirmEmail`, up to the token: the pending address. -/
def confirmRecipient (t : Tables) (userId : String) : Option String :=
  (t.users.get? userId).bind fun u =>
    u.pendingEmail.filter fun address => !u.deactivated && address != ""

/-- `BuildPasswordReset`, up to the token: the confirmed address, still the one asked about. -/
def resetRecipient (t : Tables) (userId : String) (asked : Option String) (allowed : Bool) :
    Option String :=
  (t.users.get? userId).bind fun u =>
    u.email.filter fun address => address != "" && asked.all (equalFold address ·) &&
      !u.deactivated && u.person && allowed

def State.step (s : State) : Label → Option State
  | .createAccount id person passwordHash =>
    if s.tables.users.has id then none
    else some (s.put { s.tables with
      users := s.tables.users.set { id := id, person := person, passwordHash := passwordHash } })
  | .requestEmailChange userId address read =>
    if read.any (equalFold · address) then none
    else (requestEmailChange equalFold s.tables userId address).map s.put
  | .cancelEmailChange userId late => some (s.put (cancelEmailChange s.tables userId late))
  | .removeEmail userId => some (s.put (clearEmail s.tables userId []))
  | .deleteAccount userId late => some (s.put ((clearEmail s.tables userId late).deleteAccount userId))
  | .setDeactivated userId deactivated => some (s.put (s.tables.setUserDeactivated userId deactivated))
  | .setPasswordHash userId hash => some (s.put (setPasswordHash s.tables userId hash))
  | .adoptProviderEmail userId address => some (s.put (s.tables.adoptProviderEmail fold userId address))
  | .confirmEmail token =>
    (confirmEmail fold s.tables s.now (hashToken token)).map (s.use (hashToken token))
  | .completePasswordReset token newHash allowed =>
    (completePasswordReset fold s.tables s.now (hashToken token) newHash allowed).map
      (s.use (hashToken token))
  | .buildConfirmEmail n userId =>
    (confirmRecipient s.tables userId).map fun address =>
      s.job n (some (.read userId .confirmEmail address))
  | .buildPasswordReset n userId asked allowed =>
    (resetRecipient equalFold s.tables userId asked allowed).map fun address =>
      s.job n (some (.read userId .resetPassword address))
  | .mint n id token =>
    match s.jobs n with
    | some (.read userId purpose address) =>
      if hashToken token ∈ s.mailed.map Prod.fst then none
      else
        let row : EmailToken :=
          { id := id, userId := userId, purpose := purpose, tokenHash := hashToken token
            address := address, createdAt := s.now, expiresAt := s.now + purpose.lifetime }
        some { (s.put (s.tables.createEmailToken row)).job n (some (.minted id)) with
          mailed := (hashToken token, address) :: s.mailed }
    | _ => none
  | .sent n =>
    match s.jobs n with
    | some (.minted tokenId) => some ((s.put (s.tables.deleteOlderEmailTokens tokenId)).job n none)
    | _ => none
  | .sweep before => some (s.put (s.tables.sweepEmailTokens before))
  | .tick span => some { s with now := s.now + span }

/-! ## What every step keeps -/

/-- What a step may give an account: an address by a link or a provider, a password by a link, by its person
or an admin, or when it is made. -/
def Acts (s s' : State) : Label → Prop
  | .confirmEmail token =>
    ∃ link user address, link.tokenHash = hashToken token ∧
      Confirms fold s.tables s'.tables link user address ∧
      (hashToken token, link.address) ∈ s.mailed ∧ hashToken token ∉ s.used
  | .completePasswordReset token newHash _ =>
    ∃ link user, link.tokenHash = hashToken token ∧ Resets fold s.tables s'.tables link user newHash ∧
      (hashToken token, link.address) ∈ s.mailed ∧ hashToken token ∉ s.used
  | .adoptProviderEmail _ _ => KeepsPasswords s.tables s'.tables
  | .setPasswordHash _ _ => KeepsEmails s.tables s'.tables
  | .createAccount _ _ _ => KeepsEmails s.tables s'.tables
  | _ => KeepsEmails s.tables s'.tables ∧ KeepsPasswords s.tables s'.tables

/-- The addresses are apart; each link stands for the address its message went to, and one used stays so. -/
structure Sound (s : State) : Prop where
  unique : s.tables.Unique fold
  mailedOnce : (s.mailed.map Prod.fst).Nodup
  usedOnce : s.used.Nodup
  mailed : ∀ hash row, s.tables.tokens.get? hash = some row → (hash, row.address) ∈ s.mailed
  usedMailed : ∀ hash ∈ s.used, hash ∈ s.mailed.map Prod.fst
  used : ∀ hash ∈ s.used, ∀ row, s.tables.tokens.get? hash = some row → row.usedAt.isSome = true

end Machine

section Keeping

variable {fold : String → String} {equalFold : String → String → Bool} {hashToken : String → String}
  {s s' : State}

theorem Sound.start : Sound fold State.start where
  unique _ _ _ _ h := by cases h
  mailedOnce := List.nodup_nil
  usedOnce := List.nodup_nil
  mailed _ _ h := by cases h
  usedMailed _ h := absurd h List.not_mem_nil
  used _ h := absurd h List.not_mem_nil

/-- A step that mints no link and uses none. -/
theorem Sound.keeps (inv : Sound fold s) (hmailed : s'.mailed = s.mailed) (hused : s'.used = s.used)
    (hlinks : KeepsLinks s.tables s'.tables) (hunique : s'.tables.Unique fold) : Sound fold s' where
  unique := hunique
  mailedOnce := hmailed ▸ inv.mailedOnce
  usedOnce := hused ▸ inv.usedOnce
  mailed hash row' hrow' := by
    obtain ⟨row, hrow, haddress, -⟩ := hlinks hash row' hrow'
    rw [hmailed, haddress]
    exact inv.mailed hash row hrow
  usedMailed hash hhash := by
    rw [hmailed]
    exact inv.usedMailed hash (hused ▸ hhash)
  used hash hhash row' hrow' := by
    obtain ⟨row, hrow, -, hstays⟩ := hlinks hash row' hrow'
    exact hstays (inv.used hash (hused ▸ hhash) row hrow)

/-- A link that is used was not before, and its message went to its address. -/
theorem Sound.uses (inv : Sound fold s) {t' : Tables} {link : EmailToken} (h : Uses s.tables t' link)
    (hunique : t'.Unique fold) :
    Sound fold (s.use link.tokenHash t') ∧ (link.tokenHash, link.address) ∈ s.mailed ∧
      link.tokenHash ∉ s.used := by
  have hsent := inv.mailed link.tokenHash link h.found
  have hfresh : link.tokenHash ∉ s.used := fun hmem => by
    have hused := inv.used link.tokenHash hmem link h.found
    rw [h.unused] at hused
    cases hused
  refine ⟨⟨hunique, inv.mailedOnce, List.nodup_cons.mpr ⟨hfresh, inv.usedOnce⟩, fun hash row' hrow' => ?_,
    fun hash hmem => ?_, fun hash hmem row' hrow' => ?_⟩, hsent, hfresh⟩
  · obtain ⟨row, hrow, haddress, -⟩ := h.links hash row' hrow'
    rw [haddress]
    exact inv.mailed hash row hrow
  · rcases List.mem_cons.mp hmem with rfl | hmem
    · exact List.mem_map_of_mem hsent
    · exact inv.usedMailed hash hmem
  · rcases List.mem_cons.mp hmem with rfl | hmem
    · exact h.used row' hrow'
    · obtain ⟨row, hrow, -, hstays⟩ := h.links hash row' hrow'
      exact hstays (inv.used hash hmem row hrow)

/-- A step with nothing new. -/
theorem Sound.quiet (inv : Sound fold s) {t' : Tables} (h : Quiet s.tables t') :
    Sound fold (s.put t') ∧ KeepsEmails s.tables t' ∧ KeepsPasswords s.tables t' :=
  ⟨inv.keeps rfl rfl h.links (inv.unique.keeps h.emails), h.emails, h.passwords⟩

/-- A link is minted: its message is handed over. -/
theorem Sound.mints (inv : Sound fold s) (row : EmailToken)
    (hfresh : row.tokenHash ∉ s.mailed.map Prod.fst) :
    Sound fold
      { s.put (s.tables.createEmailToken row) with mailed := (row.tokenHash, row.address) :: s.mailed } where
  unique := inv.unique
  mailedOnce := List.nodup_cons.mpr ⟨hfresh, inv.mailedOnce⟩
  usedOnce := inv.usedOnce
  mailed hash row' hrow' := by
    rcases Keyed.get?_set_cases hrow' with ⟨rfl, rfl⟩ | ⟨-, hrow'⟩
    · exact List.mem_cons_self
    · exact List.mem_cons_of_mem _ (inv.mailed hash row' hrow')
  usedMailed hash hmem := List.mem_cons_of_mem _ (inv.usedMailed hash hmem)
  used hash hmem row' hrow' := by
    rcases Keyed.get?_set_cases hrow' with ⟨rfl, rfl⟩ | ⟨-, hrow'⟩
    · exact absurd (inv.usedMailed _ hmem) hfresh
    · exact inv.used hash hmem row' hrow'

/-- A provider's address is adopted where no account holds it. -/
theorem unique_adopt {t : Tables} (unique : t.Unique fold) (userId address : String) :
    (t.adoptProviderEmail fold userId address).Unique fold := by
  unfold Tables.adoptProviderEmail
  split
  · exact unique
  next hfree =>
    refine unique.gives userId address (fun k held hk hheld => ?_) (fun held hself => ?_) fun k hk => ?_
    · have helsewhere : t.emailConfirmedElsewhere fold address userId = false := by
        refine List.any_eq_false.mpr fun u hu hand => hfree ?_
        exact List.any_eq_true.mpr ⟨u, hu, (Bool.and_eq_true_iff.mp hand).2⟩
      exact emailConfirmedElsewhere_eq_false helsewhere hk hheld
    · rw [emailOf_update, if_pos rfl] at hself
      obtain ⟨u, -, hu⟩ := Option.bind_eq_some_iff.mp hself
      exact (Option.some.inj hu).symm
    · rw [emailOf_update, if_neg hk]

/-- **The step lemma.** -/
theorem Sound.step (inv : Sound fold s) {label : Label}
    (h : s.step fold equalFold hashToken label = some s') :
    Sound fold s' ∧ Acts fold hashToken s s' label := by
  cases label with
  | createAccount id person passwordHash =>
    simp only [State.step] at h
    split at h
    · cases h
    next hnew =>
      cases h
      have hemails : KeepsEmails s.tables { s.tables with
          users := s.tables.users.set { id := id, person := person, passwordHash := passwordHash } } := by
        intro k address hk
        obtain ⟨u, hu, hemail⟩ := Option.bind_eq_some_iff.mp hk
        rcases Keyed.get?_set_cases hu with ⟨-, rfl⟩ | ⟨-, hu⟩
        · cases hemail
        · exact Option.bind_eq_some_iff.mpr ⟨u, hu, hemail⟩
      exact ⟨inv.keeps rfl rfl (KeepsLinks.refl _) (inv.unique.keeps hemails), hemails⟩
  | requestEmailChange userId address read =>
    simp only [State.step] at h
    split at h
    · cases h
    · obtain ⟨t', ht', rfl⟩ := Option.map_eq_some_iff.mp h
      exact inv.quiet (quiet_requestEmailChange ht')
  | cancelEmailChange userId late =>
    cases h
    exact inv.quiet (quiet_cancelEmailChange _ userId late)
  | removeEmail userId =>
    cases h
    exact inv.quiet (quiet_clearEmail _ userId [])
  | deleteAccount userId late =>
    cases h
    exact inv.quiet ((quiet_clearEmail _ userId late).trans (quiet_deleteAccount _ userId))
  | setDeactivated userId deactivated =>
    cases h
    exact inv.quiet (quiet_update _ (fun _ _ h => h) fun _ _ h => h)
  | setPasswordHash userId hash =>
    cases h
    have hemails : KeepsEmails s.tables (s.tables.updateUserPasswordHash userId hash) :=
      keepsEmails_update _ fun _ _ h => h
    exact ⟨inv.keeps rfl rfl (keepsLinks_deleteTokens _ _) (inv.unique.keeps hemails), hemails⟩
  | adoptProviderEmail userId address =>
    cases h
    have hpasswords : KeepsPasswords s.tables (s.tables.adoptProviderEmail fold userId address) := by
      unfold Tables.adoptProviderEmail
      split
      · exact fun _ _ h => h
      · exact keepsPasswords_update _ fun _ _ h => h
    have hlinks : KeepsLinks s.tables (s.tables.adoptProviderEmail fold userId address) := by
      unfold Tables.adoptProviderEmail
      split <;> exact KeepsLinks.refl _
    exact ⟨inv.keeps rfl rfl hlinks (unique_adopt inv.unique userId address), hpasswords⟩
  | confirmEmail token =>
    obtain ⟨t', ht', rfl⟩ := Option.map_eq_some_iff.mp h
    obtain ⟨link, user, address, hhash, confirms⟩ := confirmEmail_spec ht'
    have hunique : t'.Unique fold := by
      refine inv.unique.gives link.userId address (fun k held hk hheld => ?_) (fun held hself => ?_)
        confirms.others
      · exact emailConfirmedElsewhere_eq_false confirms.free hk hheld
      · exact Option.some.inj (hself.symm.trans confirms.gives)
    obtain ⟨inv', hsent, hfresh⟩ := inv.uses confirms.toUses hunique
    rw [hhash] at inv' hsent hfresh
    exact ⟨inv', link, user, address, hhash, confirms, hsent, hfresh⟩
  | completePasswordReset token newHash allowed =>
    obtain ⟨t', ht', rfl⟩ := Option.map_eq_some_iff.mp h
    obtain ⟨link, user, hhash, resets⟩ := completePasswordReset_spec ht'
    obtain ⟨inv', hsent, hfresh⟩ := inv.uses resets.toUses (inv.unique.keeps resets.emails)
    rw [hhash] at inv' hsent hfresh
    exact ⟨inv', link, user, hhash, resets, hsent, hfresh⟩
  | buildConfirmEmail n userId =>
    obtain ⟨address, -, rfl⟩ := Option.map_eq_some_iff.mp h
    exact ⟨inv.keeps rfl rfl (KeepsLinks.refl _) inv.unique, fun _ _ h => h, fun _ _ h => h⟩
  | buildPasswordReset n userId asked allowed =>
    obtain ⟨address, -, rfl⟩ := Option.map_eq_some_iff.mp h
    exact ⟨inv.keeps rfl rfl (KeepsLinks.refl _) inv.unique, fun _ _ h => h, fun _ _ h => h⟩
  | mint n id token =>
    simp only [State.step] at h
    split at h
    next userId purpose address hjob =>
      split at h
      · cases h
      next hfresh =>
        cases h
        have inv' := inv.mints
          { id := id, userId := userId, purpose := purpose, tokenHash := hashToken token
            address := address, createdAt := s.now, expiresAt := s.now + purpose.lifetime } hfresh
        exact ⟨⟨inv'.unique, inv'.mailedOnce, inv'.usedOnce, inv'.mailed, inv'.usedMailed, inv'.used⟩,
          fun _ _ h => h, fun _ _ h => h⟩
    · cases h
  | sent n =>
    simp only [State.step] at h
    split at h
    next tokenId hjob =>
      cases h
      have quiet := quiet_deleteOlder s.tables tokenId
      exact ⟨inv.keeps rfl rfl quiet.links (inv.unique.keeps quiet.emails), quiet.emails, quiet.passwords⟩
    · cases h
  | sweep before =>
    cases h
    exact inv.quiet (quiet_deleteTokens _ _)
  | tick span =>
    cases h
    exact ⟨inv.keeps rfl rfl (KeepsLinks.refl _) inv.unique, fun _ _ h => h, fun _ _ h => h⟩

theorem Sound.run (h : Runs (State.step fold equalFold hashToken) Always State.start s) : Sound fold s :=
  @Runs.keeps _ _ _ _ _ _ (Sound fold) Sound.start (fun _ _ _ inv _ hstep => (inv.step hstep).1) h

end Keeping

/-- **Links act once, for the address they were sent to.** A message's address is its link's one address. -/
theorem links_act_once (fold : String → String) (equalFold : String → String → Bool)
    (hashToken : String → String) {s : State}
    (h : Runs (State.step fold equalFold hashToken) Always State.start s) :
    s.tables.Unique fold ∧ s.used.Nodup ∧ (s.mailed.map Prod.fst).Nodup ∧
      ∀ label s', s.step fold equalFold hashToken label = some s' → Acts fold hashToken s s' label := by
  have inv : Sound fold s := Sound.run h
  exact ⟨inv.unique, inv.usedOnce, inv.mailedOnce, fun label s' hstep => (inv.step hstep).2⟩

/-! ### A link, confirmed -/

/-- An account asks for an address, and its job sends the link. -/
def linkSent : List Label :=
  [.createAccount "ada" true none, .requestEmailChange "ada" "ada@example.com" none,
    .buildConfirmEmail 0 "ada", .mint 0 1 "token", .sent 0]

def stateAfter (labels : List Label) : State :=
  (runList (State.step id (· == ·) id) State.start labels).getD State.start

theorem sent_link_confirms :
    Acts id id (stateAfter linkSent) (stateAfter (linkSent ++ [.confirmEmail "token"]))
        (.confirmEmail "token") ∧
      (stateAfter (linkSent ++ [.confirmEmail "token"])).tables.emailOf "ada" = some "ada@example.com" :=
  ⟨(links_act_once id (· == ·) id (Runs.ofList linkSent (EachStep.always _ _) rfl)).2.2.2 _ _ rfl,
    by decide +kernel⟩

end Stoop.Accounts.Email
