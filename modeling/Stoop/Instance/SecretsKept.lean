import Stoop.Instance.Secrets

/-!
# A secret goes only where it was typed for

What each page writes has known secrets (`page_known`), and what an environment sets has, so in every run what is
in force, and what a test send uses, was typed for the account it is used with.

For the issuer and the control server that holds of the runs in which no blank secret is saved beside another one
(`Page.Beside`): a save may keep a client secret and change the issuer beside it.

## Main results

* `rows_known`: the invariant, over every run.
* `secrets_typed`: what is in force, and what is sent.
-/

set_option autoImplicit false

namespace Stoop.Instance.Rows

open Stoop.Lib
open Stoop.Lib.NetIP (Text)
open Stoop.Lib.Json
open Stoop.Instance.TrustedProxy (trimSpace)

variable {r : Readers} {s : Service} {t : Table} {strict : Prop} {typed : List Typed}

/-! ## A secret typed, or kept -/

theorem keepSecret_blank {typed current : Text} (h : typed = []) : keepSecret typed current = current := by
  rw [keepSecret, if_neg (not_not.mpr h)]

theorem keepSecret_typed {typed current : Text} (h : typed ≠ []) : keepSecret typed current = typed := by
  rw [keepSecret, if_pos h]

/-- A secret of which nothing but itself is known. -/
theorem known_keepSecret {secret current : Text} {f : Text → Typed} (htyped : typedUnless secret (f secret) ⊆ typed)
    (hcurrent : current ≠ [] → f current ∈ typed) :
    keepSecret secret current ≠ [] → f (keepSecret secret current) ∈ typed := by
  by_cases hblank : secret = []
  · rw [keepSecret_blank hblank]
    exact hcurrent
  · rw [keepSecret_typed hblank]
    exact fun _ => htyped (mem_typedUnless hblank)

section Hosting

variable {msg : UpdateReachability} {current : Reachability} (hform : msg.typed ⊆ typed)

/-- What is typed in one group of the form. -/
theorem mem_typed_iff {x : Typed} : x ∈ msg.typed ↔
    (∃ form ∈ msg.turn, x ∈ typedUnless form.credential (.turn form.credential)) ∨
    (∃ form ∈ msg.cloudflare,
      x ∈ typedUnless (trimSpace form.apiToken) (.cloudflare (trimSpace form.keyId) (trimSpace form.apiToken))) ∨
    (∃ form ∈ msg.tailscale, x ∈
      typedUnless (trimSpace form.authKey) (.tailscale (trimSpace form.controlUrl) (trimSpace form.authKey))) ∨
    ∃ form ∈ msg.cloudflareTunnel, x ∈ typedUnless (trimSpace form.token) (.tunnel (trimSpace form.token)) := by
  simp only [UpdateReachability.typed, List.mem_append, List.mem_flatMap, Option.mem_toList,
    Option.mem_def, or_assoc]

include hform

theorem stageTURN_known (hcurrent : Group.turn.Known strict typed current.turn) :
    Writes (RowKnown strict typed) (stageTURN msg current) := by
  rw [stageTURN]
  split
  · exact .nothing
  next form hmsg =>
    dsimp only
    split
    · exact .one (@RowKnown.encode _ _ .turn {} nofun)
    · refine .checked fun _ => @RowKnown.encode _ _ .turn _ ?_
      exact known_keepSecret (fun x hx => hform (mem_typed_iff.mpr (.inl ⟨form, hmsg, hx⟩))) hcurrent

theorem stageCloudflareTURN_known (hcurrent : Group.cloudflareTURN.Known strict typed current.cloudflare) :
    Writes (RowKnown strict typed) (stageCloudflareTURN msg current) := by
  rw [stageCloudflareTURN]
  split
  · exact .nothing
  next form hmsg =>
    have htyped : typedUnless (trimSpace form.apiToken)
        (.cloudflare (trimSpace form.keyId) (trimSpace form.apiToken)) ⊆ typed := fun x hx =>
      hform (mem_typed_iff.mpr (.inr (.inl ⟨form, hmsg, hx⟩)))
    dsimp only
    split
    · exact .one (@RowKnown.encode _ _ .cloudflareTURN {} nofun)
    · refine .ite (fun _ => .refused _) fun _ => .one (@RowKnown.encode _ _ .cloudflareTURN _ ?_)
      change ite _ _ _ ≠ [] → Typed.cloudflare (trimSpace form.keyId) (ite _ _ _) ∈ typed
      split
      next hkey =>
        refine known_keepSecret htyped fun hsecret => ?_
        rw [← hkey]
        exact hcurrent hsecret
      next => exact fun hsecret => htyped (mem_typedUnless hsecret)

theorem stageCloudflareTunnel_known
    (hcurrent : Group.cloudflareTunnel.Known strict typed current.cloudflareTunnel) :
    Writes (RowKnown strict typed) (stageCloudflareTunnel r msg current) := by
  rw [stageCloudflareTunnel]
  split
  · exact .nothing
  next form hmsg =>
    refine .bind fun tunnel htunnel => .one (@RowKnown.encode _ _ .cloudflareTunnel tunnel ?_)
    obtain ⟨secret, hsecret, htunnel⟩ := bind_eq_ok htunnel
    have htyped : secret = trimSpace form.token := parseTunnelToken_ok hsecret
    dsimp only at htunnel
    split at htunnel
    next => cases htunnel
    next =>
      obtain rfl := Except.ok.inj htunnel
      rw [htyped]
      exact known_keepSecret
        (fun x hx => hform (mem_typed_iff.mpr (.inr (.inr (.inr ⟨form, hmsg, hx⟩))))) hcurrent

/-- A key typed, or kept. -/
theorem stageTailscale_known (hcurrent : Group.tailscale.Known strict typed current.tailscale)
    (hbeside : strict → ∀ form ∈ msg.tailscale, trimSpace form.authKey = [] →
      trimSpace form.controlUrl = current.tailscale.controlURL) :
    Writes (RowKnown strict typed) (stageTailscale r msg current) := by
  rw [stageTailscale]
  split
  · exact .nothing
  next form hmsg =>
    refine .checked fun _ => @RowKnown.encode _ _ .tailscale _ ?_
    intro hkey
    change keepSecret (trimSpace form.authKey) current.tailscale.authKey ≠ [] at hkey
    change ∃ controlURL, Typed.tailscale controlURL
      (keepSecret (trimSpace form.authKey) current.tailscale.authKey) ∈ typed ∧
        (strict → controlURL = trimSpace form.controlUrl)
    by_cases hblank : trimSpace form.authKey = []
    · rw [keepSecret_blank hblank] at hkey ⊢
      obtain ⟨controlURL, hmem, hsame⟩ := hcurrent hkey
      exact ⟨controlURL, hmem, fun hstrict => (hsame hstrict).trans (hbeside hstrict form hmsg hblank).symm⟩
    · rw [keepSecret_typed hblank]
      exact ⟨trimSpace form.controlUrl,
        hform (mem_typed_iff.mpr (.inr (.inr (.inl ⟨form, hmsg, mem_typedUnless hblank⟩)))), fun _ => rfl⟩

end Hosting

theorem priorOf_mem {current : List LoginProvider} {id : Text} {prior : LoginProvider}
    (h : priorOf current id = some prior) : prior ∈ current ∧ prior.id = id := by
  rw [priorOf] at h
  have hid := List.find?_some h
  exact ⟨List.mem_reverse.mp (List.mem_of_find?_eq_some h), eq_of_beq hid⟩

/-- A provider as its form has it. -/
def LoginProvider.FormedBy (p : LoginProvider) (form : ProviderForm) : Prop :=
  p.id = trimSpace form.id ∧ p.issuer = trimSpace form.issuer ∧ p.clientID = trimSpace form.clientId ∧
    p.clientSecret = trimSpace form.clientSecret

theorem validateLoginProvider_formed {i : Nat} {form : ProviderForm} {p : LoginProvider}
    (h : validateLoginProvider r i form = .ok p) : p.FormedBy form := by
  obtain ⟨rfl, -⟩ := checked_eq_ok h
  exact ⟨rfl, rfl, rfl, rfl⟩

/-- A saved provider is a form's, with its secret or the one that was kept. -/
theorem nextProviders_mem {current next : List LoginProvider} {forms : List ProviderForm} {i : Nat}
    {seen : List Text} (h : nextProviders r current i seen forms = .ok next) {p : LoginProvider} (hp : p ∈ next) :
    ∃ form ∈ forms, ∃ q : LoginProvider, q.FormedBy form ∧ p = q.keeping (priorOf current q.id) := by
  induction forms generalizing i seen next with
  | nil =>
    cases h
    cases hp
  | cons form forms ih =>
    rw [nextProviders] at h
    obtain ⟨q, hq, h⟩ := bind_eq_ok h
    dsimp only at h
    split at h
    next => cases h
    next =>
      split at h
      next => cases h
      next =>
        obtain ⟨rest, hrest, h⟩ := bind_eq_ok h
        obtain rfl := Except.ok.inj h
        rcases List.mem_cons.mp hp with rfl | hp
        · exact ⟨form, List.mem_cons_self, q, validateLoginProvider_formed hq, rfl⟩
        · obtain ⟨form', hform', hkept⟩ := ih hrest hp
          exact ⟨form', List.mem_cons_of_mem _ hform', hkept⟩

/-- A client secret typed, or kept. -/
theorem known_keeping {current : List LoginProvider} {form : ProviderForm} {q : LoginProvider}
    (hq : q.FormedBy form) (hform : form.typed ⊆ typed) (hcurrent : ∀ p ∈ current, p.Known strict typed)
    (hbeside : strict → trimSpace form.clientSecret = [] →
      ∀ prior ∈ priorOf current (trimSpace form.id), trimSpace form.issuer = prior.issuer) :
    (q.keeping (priorOf current q.id)).Known strict typed := by
  obtain ⟨hid, hissuer, hclient, hsecret⟩ := hq
  have htyped : q.Known strict typed := fun hne => by
    rw [hsecret] at hne
    refine ⟨q.issuer, ?_, fun _ => rfl⟩
    rw [hid, hissuer, hclient, hsecret]
    exact hform (mem_typedUnless hne)
  cases hprior : priorOf current q.id with
  | none => exact htyped
  | some prior =>
    obtain ⟨hmem, hsame⟩ := priorOf_mem hprior
    rw [LoginProvider.keeping]
    split
    next hclientID =>
      by_cases hblank : q.clientSecret = []
      · -- the secret in force, which is the prior one's
        rw [keepSecret_blank hblank]
        intro hne
        obtain ⟨issuer, hmem', hissuer'⟩ := hcurrent prior hmem hne
        rw [hsame, hclientID] at hmem'
        refine ⟨issuer, hmem', fun hstrict => (hissuer' hstrict).trans ?_⟩
        rw [hid] at hprior
        exact ((hbeside hstrict (hsecret.symm.trans hblank) prior hprior).symm.trans hissuer.symm)
      · rw [keepSecret_typed hblank]
        exact htyped
    next => exact htyped

/-- What a form makes of the server in force, with a password typed or kept. -/
theorem known_smtpFromProto {form : SmtpForm} {current : SMTP} (hform : form.typed ⊆ typed)
    (hcurrent : current.Known typed) : (smtpFromProto form current).Known typed := by
  intro hpassword
  change (if form.password = [] ∧ trimSpace form.host = current.host ∧ trimSpace form.username = current.username
    then current.password else form.password) ≠ [] at hpassword
  change Typed.smtp (trimSpace form.host) (trimSpace form.username)
    (if form.password = [] ∧ trimSpace form.host = current.host ∧ trimSpace form.username = current.username
      then current.password else form.password) ∈ typed
  split at hpassword
  next hkept =>
    obtain ⟨-, hhost, husername⟩ := id hkept
    rw [if_pos hkept, hhost, husername]
    exact hcurrent hpassword
  next hnot =>
    rw [if_neg hnot]
    exact hform (mem_typedUnless hpassword)

/-! ## Each page, and each start -/

/-- **Each page writes known secrets**, with those typed in its form. -/
theorem page_known {page : Page} (h : RowsHold (RowKnown strict typed) t) (henv : s.typed ⊆ typed)
    (hform : page.typed ⊆ typed) (hbeside : strict → page.Beside s t) :
    page.Writes (RowKnown strict typed) r s t := by
  cases page with
  | reachability msg =>
    refine ⟨?_, ?_, fun current hcurrent => ?_⟩
    · rw [stagePublicURL]
      split
      · exact .nothing
      · exact .ite (fun _ => .one (@RowKnown.encode _ _ .publicURL _ trivial)) fun _ =>
          .ite (fun _ => .one (@RowKnown.encode _ _ .publicURL _ trivial)) fun _ => .refused _
    · rw [stageTrustedProxies]
      split
      · exact .nothing
      · dsimp only
        refine .ite (fun _ => .refused _) fun _ => ?_
        split
        · exact .refused _
        · exact .one (.inl rfl)
    · obtain ⟨-, hturn, hcloudflare, htailscale, htunnel, -⟩ := reachability_ok hcurrent
      exact ⟨stageTURN_known hform (known_inForce h henv hturn),
        stageCloudflareTURN_known hform (known_inForce h henv hcloudflare),
        stageTailscale_known hform (known_inForce h henv htailscale) fun hstrict form hmsg =>
          hbeside hstrict form hmsg current.tailscale htailscale,
        stageCloudflareTunnel_known hform (known_inForce h henv htunnel)⟩
  | loginProviders providers =>
    intro current next hcurrent hnext
    have hknown : Group.loginProviders.Known strict typed current :=
      @known_inForce s t strict typed .loginProviders h henv current hcurrent
    refine @RowKnown.encode strict typed .loginProviders next fun p hp => ?_
    obtain ⟨form, hmem, q, hq, rfl⟩ := nextProviders_mem hnext hp
    exact known_keeping hq (fun x hx => hform (List.mem_flatMap.mpr ⟨form, hmem, hx⟩)) hknown
      fun hstrict => hbeside hstrict form hmem current hcurrent
  | email form =>
    rintro f current rfl hcurrent -
    refine @RowKnown.encode strict typed .smtp _ (known_smtpFromProto (fun x hx => hform ?_) ?_)
    · exact List.mem_flatMap.mpr ⟨f, List.mem_singleton_self f, hx⟩
    · exact @known_inForce s t strict typed .smtp h henv current hcurrent
  | settings msg =>
    refine ⟨?_, ?_⟩
    · rw [stageInstanceName]
      split
      · exact .nothing
      · exact .ite (fun _ => .refused _) fun _ =>
          .ite (fun _ => .refused _) fun _ => .one (@RowKnown.encode _ _ .instanceName _ trivial)
    · intro writes hwrites write hwrite
      obtain ⟨form, password, -, rfl⟩ := stagePasswordSignIn_writes hwrites hwrite
      exact @RowKnown.encode _ _ .passwordSignIn password trivial
  | password value => exact fun _ => @RowKnown.encode _ _ .passwordSignIn value trivial
  | reset name => trivial

/-- What the repair fills is the environment's. -/
theorem repaired_known (henv : s.typed ⊆ typed) {g : Group} {value value' : Value}
    (h : Repaired s value value' g) : RowKnown strict typed g value' := by
  cases g
  case cloudflareTunnel =>
    obtain ⟨saved, -, -, -, rfl⟩ := h
    have hknown := @known_setting s strict typed henv [] .cloudflareTunnel
    exact @RowKnown.encode strict typed .cloudflareTunnel { saved with token := s.env.cloudflareTunnel.token } hknown
  case loginProviders =>
    obtain ⟨-, -, rfl⟩ := h
    exact @RowKnown.encode strict typed .loginProviders s.loginEnv (known_setting henv [] .loginProviders)
  all_goals exact h.elim

/-- **A start keeps the secrets known**, with those of its environment. -/
theorem start_known (h : RowsHold (RowKnown strict typed) t) (henv : s.typed ⊆ typed) (random : Text) :
    RowsHold (RowKnown strict typed) (start s random t).1 := by
  refine h.start s random (fun g value hseeded => ?_) (.encode (known_setting henv random _))
    fun g value value' _ hrepaired => repaired_known henv hrepaired
  rw [seeded_setting hseeded random]
  exact .encode (known_setting henv random g)

/-! ## Every run -/

/-- Rows, and all that has been typed. -/
abbrev History := Recorded Table Typed

variable (r) in
/-- A start, or a call whose page has no blank secret beside another issuer or control server. -/
def StepBeside (w : History) : Step → Prop
  | .start .. => True
  | .call cfg call => ∀ page, call.page r (useSettingsEnv cfg) w.state = .ok page →
      page.Beside (useSettingsEnv cfg) w.state

variable (r) in
/-- A run from an empty database. -/
abbrev SettingsRun (ok : History → Step → Prop) (w : History) : Prop :=
  Runs (recording (step r) (typedBy r)) ok ⟨.empty, []⟩ w

theorem step_known {w w' : History} {label : Step} (h : RowsHold (RowKnown strict w.past) w.state)
    (hbeside : strict → StepBeside r w label) (hstep : recording (step r) (typedBy r) w label = some w') :
    RowsHold (RowKnown strict w'.past) w'.state := by
  obtain ⟨hstate, hpast⟩ := recording_eq_some hstep
  rw [hpast]
  have hgrown : RowsHold (RowKnown strict (w.past ++ typedBy r w.state label)) w.state :=
    h.mono fun g value hknown => hknown.mono (List.subset_append_left _ _)
  cases label with
  | start cfg random =>
    have hstart := start_known hgrown (List.subset_append_right w.past _) random
    rwa [Option.some.inj hstate] at hstart
  | call cfg call =>
    have henv : (useSettingsEnv cfg).typed ⊆ w.past ++ typedBy r w.state (.call cfg call) :=
      List.Subset.trans (List.subset_append_left _ _) (List.subset_append_right w.past _)
    rcases step_call hstate with hsame | hperform
    · rwa [hsame]
    · refine hgrown.perform (fun page hpage => ?_) hperform
      refine page_known hgrown henv ?_ fun hstrict => hbeside hstrict page hpage
      have htyped : page.typed ⊆ typedBy r w.state (.call cfg call) := by
        rw [typedBy, hperform, Call.typed, hpage]
        exact List.subset_append_right _ _
      exact List.Subset.trans htyped (List.subset_append_right w.past _)

/-- **The invariant of a run.** -/
theorem rows_known {w : History} (h : SettingsRun r (fun w label => strict → StepBeside r w label) w) :
    RowsHold (RowKnown strict w.past) w.state :=
  @Runs.keeps _ _ _ _ _ _ (fun w : History => RowsHold (RowKnown strict w.past) w.state) RowsHold.empty
    (fun _ _ _ hknown hbeside hstep => step_known hknown hbeside hstep) h

/-! ## What is in force, and what is sent -/

theorem mailServer_ok {smtp : SMTP} {server : Server} (h : mailServer s t smtp = .ok server) :
    server.host = smtp.host ∧ server.username = smtp.username ∧ server.password = smtp.password := by
  rw [mailServer] at h
  split at h
  next =>
    cases hname : instanceName s t with
    | error key =>
      rw [hname] at h
      cases h
    | ok name =>
      rw [hname] at h
      obtain rfl := Except.ok.inj h
      exact ⟨rfl, rfl, rfl⟩
  next =>
    obtain rfl := Except.ok.inj h
    exact ⟨rfl, rfl, rfl⟩

/-- What goes to a server was typed for it. -/
def Server.Known (typed : List Typed) (server : Server) : Prop :=
  server.password ≠ [] → .smtp server.host server.username server.password ∈ typed

theorem SMTP.Known.mailServer {smtp : SMTP} (h : smtp.Known typed) {server : Server}
    (hserver : mailServer s t smtp = .ok server) : server.Known typed := by
  obtain ⟨hhost, husername, hpassword⟩ := mailServer_ok hserver
  rw [Server.Known, hhost, husername, hpassword]
  exact h

theorem smtp_known (h : RowsHold (RowKnown strict typed) t) (henv : s.typed ⊆ typed) {smtp : SMTP}
    (hforce : smtpSettings s t = .ok smtp) : smtp.Known typed :=
  @known_inForce s t strict typed .smtp h henv smtp hforce

theorem send_known (h : RowsHold (RowKnown strict typed) t) (henv : s.typed ⊆ typed) {server : Server}
    (hsend : send s t = .ok (some server)) : server.Known typed := by
  rw [send] at hsend
  split at hsend
  next => cases hsend
  next smtp hforce =>
    split at hsend
    next =>
      cases hserver : mailServer s t smtp with
      | error key =>
        rw [hserver] at hsend
        cases hsend
      | ok sent =>
        rw [hserver] at hsend
        obtain rfl := Option.some.inj (Except.ok.inj hsend)
        exact (smtp_known h henv hforce).mailServer hserver
    next => cases hsend

theorem sendTestEmail_known (h : RowsHold (RowKnown strict typed) t) (henv : s.typed ⊆ typed) {form : SmtpForm}
    (hform : form.typed ⊆ typed) {recipient : Text} {sent : Server × Text}
    (hsend : sendTestEmail r s t (some form) recipient = .ok sent) : sent.1.Known typed := by
  obtain ⟨saved, hsaved, hsend⟩ := bind_eq_ok hsend
  obtain ⟨smtp, hchecked, hsend⟩ := bind_eq_ok hsend
  obtain ⟨rfl, -⟩ := checked_eq_ok hchecked
  have hknown := known_smtpFromProto hform (smtp_known h henv (ofKey_eq_ok hsaved))
  split at hsend
  next => cases hsend
  next =>
    split at hsend
    next => cases hsend
    next =>
      split at hsend
      next => cases hsend
      next =>
        obtain ⟨server, hserver, hsend⟩ := bind_eq_ok hsend
        obtain rfl := Except.ok.inj hsend
        exact hknown.mailServer (ofKey_eq_ok hserver)

/-- What is in force in a process, and what is sent and tested from it, was typed for the account it is used
with, in a save or the process's environment; a test's also in the test itself. -/
structure TypedFor (r : Readers) (strict : Prop) (w : History) : Prop where
  inForce : ∀ cfg g setting, inForce (useSettingsEnv cfg) w.state g = .ok setting →
    g.Known strict (w.past ++ (useSettingsEnv cfg).typed) setting
  sent : ∀ cfg server, send (useSettingsEnv cfg) w.state = .ok (some server) →
    server.Known (w.past ++ (useSettingsEnv cfg).typed)
  tested : ∀ cfg form recipient sent, sendTestEmail r (useSettingsEnv cfg) w.state (some form) recipient = .ok sent →
    sent.1.Known (w.past ++ (useSettingsEnv cfg).typed ++ form.typed)

theorem typedFor {w : History} (h : RowsHold (RowKnown strict w.past) w.state) : TypedFor r strict w := by
  have hgrown : ∀ typed, RowsHold (RowKnown strict (w.past ++ typed)) w.state := fun typed =>
    h.mono fun g value hknown => hknown.mono (List.subset_append_left _ _)
  refine ⟨fun cfg g setting hforce => ?_, fun cfg server hsend => ?_, fun cfg form recipient sent hsend => ?_⟩
  · exact known_inForce (hgrown _) (List.subset_append_right _ _) hforce
  · exact send_known (hgrown _) (List.subset_append_right _ _) hsend
  · rw [List.append_assoc]
    refine sendTestEmail_known (hgrown _) ?_ ?_ hsend
    · exact List.Subset.trans (List.subset_append_left _ _) (List.subset_append_right w.past _)
    · exact List.Subset.trans (List.subset_append_right _ _) (List.subset_append_right w.past _)

/-- **A secret goes only where it was typed for**: in every run to the account it was typed with, and where no
blank secret is saved beside another issuer or control server, to those it was typed with too. -/
theorem secrets_typed (r : Readers) : (∀ w, SettingsRun r Always w → TypedFor r False w) ∧
    ∀ w, SettingsRun r (StepBeside r) w → TypedFor r True w :=
  ⟨fun _ hrun => typedFor (rows_known (hrun.weaken fun _ _ _ => False.elim)),
    fun _ hrun => typedFor (rows_known (hrun.weaken fun _ _ hbeside _ => hbeside))⟩

end Stoop.Instance.Rows
