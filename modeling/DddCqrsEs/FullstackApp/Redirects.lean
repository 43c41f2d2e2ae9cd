import DddCqrsEs.FullstackApp.Base
import DddCqrsEs.UrlResolution

/- Where the sign-in forms lead afterwards. -/
namespace DddCqrsEs.FullstackApp

open UrlResolution

def isSafeRedirect (value : Text) : Bool :=
  ['/'].isPrefixOf value && ! ['/', '/'].isPrefixOf value

def validateSafeRedirectOption (value : Option Text) : Except AuthStackError Unit :=
  if value.any (! isSafeRedirect ·) then .error (.validation "redirect_url must be a local path")
  else .ok ()

def dashboard : Text := "/dashboard".toList

def safeRedirectOrDefault (redirectUrl : Option Text) : Text :=
  (redirectUrl.filter isSafeRedirect).getD dashboard

theorem isSafeRedirect_eq_true {value : Text} :
    isSafeRedirect value = true ↔ ∃ rest, value = '/' :: rest ∧ rest.head? ≠ some '/' := by
  rw [isSafeRedirect, Bool.and_eq_true, Bool.not_eq_true', Bool.eq_false_iff, ne_eq,
    List.isPrefixOf_iff_prefix, List.isPrefixOf_iff_prefix]
  constructor
  · rintro ⟨⟨rest, rfl⟩, single⟩
    refine ⟨rest, rfl, fun double => ?_⟩
    obtain ⟨more, rfl⟩ := List.head?_eq_some_iff.mp double
    exact single ⟨more, rfl⟩
  · rintro ⟨rest, rfl, single⟩
    refine ⟨⟨rest, rfl⟩, ?_⟩
    rintro ⟨more, same⟩
    exact single (by rw [← (List.cons.inj same).2]; rfl)

theorem validateSafeRedirectOption_ok {value : Option Text} :
    validateSafeRedirectOption value = .ok () ↔ ∀ text ∈ value, isSafeRedirect text = true := by
  rw [validateSafeRedirectOption]
  cases value with
  | none => simp
  | some text => simp

theorem isSafeRedirect_dashboard : isSafeRedirect dashboard = true := by decide +kernel

theorem isSafeRedirect_default (redirectUrl : Option Text) :
    isSafeRedirect (safeRedirectOrDefault redirectUrl) = true := by
  rw [safeRedirectOrDefault]
  cases kept : redirectUrl.filter isSafeRedirect with
  | none => exact isSafeRedirect_dashboard
  | some value => exact (Option.filter_eq_some_iff.mp kept).2

def https : Text := "https".toList

/-- From every page that was loaded over HTTPS, the reference leads to the page's own site. -/
def StaysOnSite (browser : Browser) (value : Text) : Prop :=
  ∀ base : Site, base.scheme = https → base.host ≠ [] → resolve browser base value = some base

/-- The first character behind the leading slash that is no tab or newline is neither a slash nor
a backslash. -/
def SingleSlash (value : Text) : Prop := ∀ c ∈ opening value.tail, isSlash c = false

theorem staysOnSite_iff (browser : Browser) {value : Text} (safe : isSafeRedirect value = true) :
    StaysOnSite browser value ↔ SingleSlash value := by
  obtain ⟨rest, rfl, _⟩ := isSafeRedirect_eq_true.mp safe
  exact stays_iff browser rest https

theorem singleSlash_dashboard : SingleSlash dashboard := by
  have first : opening dashboard.tail = some 'd' := by decide +kernel
  intro c member
  rw [Option.mem_def, first, Option.some_inj] at member
  rw [← member]
  decide

/-- Every value that the check accepts, and with it every value that a redirect is sent to, stays
on the site exactly when what follows its slash does not make a second one of it. -/
theorem acceptedRedirect_staysOnSite (browser : Browser) :
    (∀ value, validateSafeRedirectOption (some value) = .ok () →
      (StaysOnSite browser value ↔ SingleSlash value)) ∧
    ∀ redirectUrl, StaysOnSite browser (safeRedirectOrDefault redirectUrl) ↔
      ∀ value ∈ redirectUrl, isSafeRedirect value = true → SingleSlash value := by
  refine ⟨fun value accepted => ?_, fun redirectUrl => ?_⟩
  · exact staysOnSite_iff browser (validateSafeRedirectOption_ok.mp accepted value rfl)
  · rw [staysOnSite_iff browser (isSafeRedirect_default redirectUrl)]
    cases redirectUrl with
    | none =>
      refine iff_of_true singleSlash_dashboard ?_
      intro value impossible
      cases impossible
    | some value =>
      rw [safeRedirectOrDefault]
      cases safe : isSafeRedirect value with
      | true => simp [Option.filter, safe]
      | false => simp [Option.filter, safe, singleSlash_dashboard]

/-- A browser on hosts that are plain names already. -/
def plainHosts : Browser := ⟨some⟩

theorem acceptedRedirect_staysOnSite_query : StaysOnSite plainHosts "/orgs?next=//x".toList := by
  have accepted : validateSafeRedirectOption (some "/orgs?next=//x".toList) = .ok () := by
    decide +kernel
  refine ((acceptedRedirect_staysOnSite plainHosts).1 _ accepted).mpr ?_
  have first : opening "/orgs?next=//x".toList.tail = some 'o' := by decide +kernel
  intro c member
  rw [Option.mem_def, first, Option.some_inj] at member
  rw [← member]
  decide

def appSite : Site := ⟨https, "app.example".toList, none⟩

def evilSite : Site := ⟨https, "evil.example".toList, none⟩

/-- A backslash is a second slash to a browser, and a tab before one is nothing. -/
theorem acceptedRedirect_leaves :
    (validateSafeRedirectOption (some "/\\evil.example".toList) = .ok () ∧
      safeRedirectOrDefault (some "/\\evil.example".toList) = "/\\evil.example".toList ∧
      resolve plainHosts appSite "/\\evil.example".toList = some evilSite ∧
      validateSafeRedirectOption (some "/\t/evil.example".toList) = .ok () ∧
      resolve plainHosts appSite "/\t/evil.example".toList = some evilSite) ∧
    ¬ StaysOnSite plainHosts "/\\evil.example".toList := by
  have leads : resolve plainHosts appSite "/\\evil.example".toList = some evilSite := by
    decide +kernel
  refine ⟨by decide +kernel, fun stays => ?_⟩
  have stayed := stays appSite rfl (by decide +kernel)
  rw [leads, Option.some_inj] at stayed
  revert stayed
  decide +kernel

end DddCqrsEs.FullstackApp
