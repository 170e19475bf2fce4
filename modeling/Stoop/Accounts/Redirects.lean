import Stoop.Lib.Url

/-!
# Where a sign-in sends people back to

`safeRedirectPath` of `internal/auth/loginflow.go` and `safeRedirect` of `web/src/api/safeRedirect.ts`, against
the URL parser of the browser that follows what they let through. Both look at the second character as it is
written, which the parser does not always read: it drops a tab or the end of a line there, and goes on to the
next. `SlipsThrough` is what they miss by it.

The server's function looks at bytes. Those it compares are characters by themselves, so the text is its
characters here as in the client's.
-/

set_option autoImplicit false

namespace Stoop.Accounts.Redirects

open Stoop.Lib.Url

/-! ## The two filters -/

/-- Pages whose job is done. -/
def donePages : List Text := ["/login".toList, "/setup".toList]

def isDone (p : Text) : Bool :=
  donePages.any fun done => p == done || (done ++ ['?']).isPrefixOf p || (done ++ ['/']).isPrefixOf p

/-- `safeRedirectPath`: no path where it lets nothing through. -/
def safeRedirectPath (p : Text) : Text :=
  match p with
  | first :: second :: _ =>
    if first != '/' || second == '/' || second == '\\' then [] else if isDone p then [] else p
  | _ => []

/-- A value of the client's, of which only a string is looked at. -/
inductive Unknown
  | string (value : Text)
  | other
  deriving DecidableEq, Repr

/-- `safeRedirect`. -/
def safeRedirect : Unknown → Option Text
  | .other => none
  | .string value =>
    if !("/".toList.isPrefixOf value) || value[1]? == some '/' || value[1]? == some '\\' then none
    else if isDone value then none
    else some value

/-! ## What they let through -/

variable {η : Type} (browser : Browser η) (site : Origin η) (p : Text)

/-- Whatever either lets through of a text stays on the site. -/
def Stays : Prop :=
  (safeRedirectPath p ≠ [] → browser.origin site (safeRedirectPath p) = some site) ∧
    ∀ path, safeRedirect (.string p) = some path → browser.origin site path = some site

/-- The two let the same through, but that the server writes the home page as no path. -/
def Agree : Prop :=
  safeRedirect (.string p) =
    if p = "/".toList then some p else if safeRedirectPath p = [] then none else some (safeRedirectPath p)

/-- Its slash is followed by a tab or the end of a line, after which a slash is read. -/
def SlipsThrough : Text → Prop
  | first :: c :: rest => first = '/' ∧ isTabOrNewline c = true ∧ (firstRead rest).any isSlash = true
  | _ => False

/-- The server's path is empty or the text. -/
theorem safeRedirectPath_eq : safeRedirectPath p = [] ∨ safeRedirectPath p = p := by
  unfold safeRedirectPath
  split
  · split
    · exact .inl rfl
    · split
      · exact .inl rfl
      · exact .inr rfl
  · exact .inl rfl

theorem agree : Agree p := by
  unfold Agree safeRedirectPath safeRedirect
  match p with
  | [] => simp
  | [c] =>
    by_cases hc : c = '/'
    · subst hc
      decide
    · simp [hc, Ne.symm hc]
  | c :: d :: rest =>
    by_cases hc : c = '/'
    · subst hc
      by_cases hd : d = '/' ∨ d = '\\'
      · obtain rfl | rfl := hd <;> simp
      · obtain ⟨hslash, hback⟩ := not_or.mp hd
        cases hdone : isDone ('/' :: d :: rest) with
        | true => simp [hslash, hback, hdone]
        | false => simp [hslash, hback, hdone]
    · simp [hc, Ne.symm hc]

/-- Where the client's lets a text through, both go where the text leads. -/
theorem stays_of_passed (h : safeRedirect (.string p) = some p) :
    Stays browser site p ↔ browser.origin site p = some site := by
  constructor
  · rintro ⟨-, hclient⟩
    exact hclient p h
  · intro horigin
    refine ⟨fun hsome => ?_, fun path hpath => ?_⟩
    · obtain hnone | hsame := safeRedirectPath_eq p
      · exact absurd hnone hsome
      · rw [hsame]
        exact horigin
    · rw [h] at hpath
      obtain rfl := Option.some.inj hpath
      exact horigin

/-- Where it lets none through, neither goes anywhere. -/
theorem stays_of_refused (h : safeRedirect (.string p) = none) : Stays browser site p := by
  refine ⟨fun hsome => ?_, fun path hpath => ?_⟩
  · have hagree := agree p
    rw [Agree, h] at hagree
    split at hagree
    · exact nomatch hagree
    · exact nomatch hagree
  · rw [h] at hpath
    exact nomatch hpath

theorem not_done_of_tab {c : Char} {rest : Text} (hc : isTabOrNewline c = true) :
    isDone ('/' :: c :: rest) = false := by
  obtain rfl | rfl | rfl := isTabOrNewline_iff.mp hc <;> simp [isDone, donePages, List.isPrefixOf]

theorem safeRedirect_of_slash {c : Char} {rest : Text} (hc : isSlash c = true) :
    safeRedirect (.string ('/' :: c :: rest)) = none := by
  obtain hc | hc := (Bool.or_eq_true _ _).mp hc
  · obtain rfl := beq_iff_eq.mp hc
    simp [safeRedirect]
  · obtain rfl := beq_iff_eq.mp hc
    simp [safeRedirect]

theorem safeRedirect_of_not_slash {c : Char} {rest : Text} (hc : isSlash c = false) :
    safeRedirect (.string ('/' :: c :: rest)) =
      if isDone ('/' :: c :: rest) then none else some ('/' :: c :: rest) := by
  obtain ⟨hslash, hback⟩ := (Bool.or_eq_false_iff.mp hc)
  simp only [beq_eq_false_iff_ne, ne_eq] at hslash hback
  simp [safeRedirect, hslash, hback]

/-- A text whose second character is read as it is written leads to the site. -/
theorem origin_of_plain {c : Char} {rest : Text} (htab : isTabOrNewline c = false) (hslash : isSlash c = false) :
    browser.origin site ('/' :: c :: rest) = some site := by
  have hread : firstRead (c :: rest) = some c := List.find?_cons_of_pos (by simp [htab])
  rw [browser.origin_slash, hread, Option.any_some, hslash, if_neg Bool.false_ne_true]

/-- A text whose second character is dropped leads where the rest does. -/
theorem origin_of_tab {c : Char} {rest : Text} (htab : isTabOrNewline c = true) :
    browser.origin site ('/' :: c :: rest) = some site ↔
      (SlipsThrough ('/' :: c :: rest) →
        browser.authorityOrigin site.scheme ((stripped ('/' :: c :: rest)).dropWhile isSlash) = some site) := by
  have hread : firstRead (c :: rest) = firstRead rest := List.find?_cons_of_neg (by simp [htab])
  rw [browser.origin_slash, hread, SlipsThrough]
  cases hnext : (firstRead rest).any isSlash with
  | true => simp [htab]
  | false => simp

/-- Whatever either lets through stays on the site, and both let the same through, exactly if no text slips
through but one whose authority is the site's own. -/
theorem redirects_stay :
    (Stays browser site p ∧ Agree p) ↔
      (SlipsThrough p → browser.authorityOrigin site.scheme ((stripped p).dropWhile isSlash) = some site) := by
  rw [and_iff_left (agree p)]
  match p with
  | [] => exact iff_of_true (stays_of_refused browser site [] rfl) nofun
  | [c] =>
    refine iff_of_true ?_ nofun
    by_cases hc : c = '/'
    · subst hc
      exact (stays_of_passed browser site _ rfl).mpr (browser.origin_slash site [])
    · exact stays_of_refused browser site _ (by simp [safeRedirect, Ne.symm hc])
  | first :: c :: rest =>
    by_cases hfirst : first = '/'
    · subst hfirst
      cases hslash : isSlash c with
      | true =>
        refine iff_of_true (stays_of_refused browser site _ (safeRedirect_of_slash hslash)) ?_
        rintro ⟨-, htab, -⟩
        exact absurd hslash (by rw [not_slash_of_tab htab]; exact Bool.false_ne_true)
      | false =>
        have hlets := @safeRedirect_of_not_slash c rest hslash
        cases htab : isTabOrNewline c with
        | true =>
          rw [not_done_of_tab htab, if_neg Bool.false_ne_true] at hlets
          rw [stays_of_passed browser site _ hlets]
          exact origin_of_tab browser site htab
        | false =>
          refine iff_of_true ?_ (fun h => absurd h.2.1 (by rw [htab]; exact Bool.false_ne_true))
          cases hdone : isDone ('/' :: c :: rest) with
          | true => exact stays_of_refused browser site _ (by rw [hlets, hdone, if_pos rfl])
          | false =>
            rw [hdone, if_neg Bool.false_ne_true] at hlets
            exact (stays_of_passed browser site _ hlets).mpr (origin_of_plain browser site htab hslash)
    · refine iff_of_true (stays_of_refused browser site _ (by simp [safeRedirect, Ne.symm hfirst])) ?_
      rintro ⟨hslash, -⟩
      exact absurd hslash hfirst

/-- A browser that takes a host as it is written. -/
def plainBrowser : Browser Text where
  parseHost host := some host
  schemed _ _ := none

def stoopSite : Origin Text := ⟨.https, "stoop.example".toList, none⟩

/-- Both let a slash, a tab and a slash through, which lead to another host. -/
theorem tab_leaves_site :
    ¬ (Stays plainBrowser stoopSite "/\t/evil.example".toList ∧ Agree "/\t/evil.example".toList) ∧
      plainBrowser.origin stoopSite "/\t/evil.example".toList = some ⟨.https, "evil.example".toList, none⟩ := by
  have hpasses : safeRedirect (.string "/\t/evil.example".toList) = some "/\t/evil.example".toList := by decide
  have hleads : plainBrowser.origin stoopSite "/\t/evil.example".toList =
      some ⟨.https, "evil.example".toList, none⟩ := by decide
  refine ⟨fun h => ?_, hleads⟩
  have hstays := (stays_of_passed plainBrowser stoopSite _ hpasses).mp h.1
  rw [hleads] at hstays
  exact absurd hstays (by decide)

end Stoop.Accounts.Redirects
