import DddCqrsEs.Ascii
import DddCqrsEs.FullstackApp.Profiles
import DddCqrsEs.Hyphenated
import DddCqrsEs.Utf8

/- Workspace slugs: how one is suggested for a name, which ones are accepted, and how an
organization gets one. -/
namespace DddCqrsEs.FullstackApp

open Ascii

/-- Reserved workspace URL segments (not usable as org slugs). -/
def reservedOrgSlugs : List Text :=
  ["new", "settings", "admin", "api", "account", "org", "orgs", "organizations", "onboarding",
    "dashboard", "login", "register", "auth", "u", "invitations", "vault", "www", "app", "static",
    "assets"].map String.toList

def maxSlugLen : Nat := 48

/-- One character of the name; the flag says whether a hyphen was written last. -/
def suggestStep (written : Text × Bool) (ch : Char) : Text × Bool :=
  let lower := ch.toLower
  if lower.isAlphanum then (written.1 ++ [lower], false)
  else if ¬ written.2 ∧ written.1 ≠ [] then (written.1 ++ ['-'], true)
  else written

/-- Suggest a URL slug from a display name. -/
def suggestOrgSlug (name : Text) : Text :=
  let out := ((Cuts.trim isWhitespace name).foldl suggestStep ([], false)).1
  let trimmed := Cuts.trim (· == '-') out
  if trimmed = [] then "workspace".toList
  else if maxSlugLen < Utf8.size trimmed then (trimmed.take maxSlugLen).rdropWhile (· == '-')
  else trimmed

def isSlugChar (c : Char) : Bool := c.isLower || c.isDigit || c == '-'

def reservedSlug (slug : Text) : AuthStackError :=
  .validation ("workspace URL “" ++ String.ofList slug ++ "” is reserved")

/-- Validate org URL slug: `^[a-z][a-z0-9-]{1,47}$`. -/
def validateOrgSlug (slug : Text) : Except AuthStackError Unit :=
  let slug := Cuts.trim isWhitespace slug
  if Utf8.size slug < 2 ∨ maxSlugLen < Utf8.size slug then
    .error (.validation "workspace URL must be 2–48 characters")
  else
    match slug with
    | [] => .error (.validation "workspace URL is required")
    | first :: chars =>
      if ¬ first.isLower then
        .error (.validation "workspace URL must start with a lowercase letter")
      else if ¬ chars.all isSlugChar then
        .error (.validation "workspace URL may only contain a–z, 0–9, and hyphens")
      else if ['-'] <+: slug ∨ ['-'] <:+ slug ∨ ['-', '-'] <:+: slug then
        .error (.validation
          "workspace URL cannot start/end with a hyphen or contain double hyphens")
      else if slug ∈ reservedOrgSlugs then .error (reservedSlug slug)
      else .ok ()

/-- What the stores answer: the slug kept for an organization, the active organization that has a
slug, and the writes of the cache. -/
structure SlugStores where
  cached : Text → Except AuthStackError (Option Text)
  active : Text → Except AuthStackError (Option Text)
  write : Text → Text → Except AuthStackError Unit

namespace SlugStores

variable (stores : SlugStores)

def resolveOrgIdForSlugPostgres (slug : Text) : Except AuthStackError Text := do
  match ← stores.active slug with
  | some organization =>
    if organization = [] then .error (.notFound "workspace not found") else .ok organization
  | none => .error (.notFound "workspace not found")

def resolveOrgIdForSlug (slug : Text) : Except AuthStackError Text := do
  validateOrgSlug slug
  stores.resolveOrgIdForSlugPostgres slug

def slugForOrganization (orgId : Text) : Except AuthStackError (Option Text) :=
  let orgId := Cuts.trim isWhitespace orgId
  if orgId = [] then .ok none
  else (stores.cached orgId).map fun kept => kept.filter (! isBlank ·)

def cacheOrgSlug (orgId slug : Text) : Except AuthStackError Unit := do
  validateOrgSlug slug
  let orgId := Cuts.trim isWhitespace orgId
  if orgId = [] then .error (.validation "organization_id is required")
  else stores.write orgId ((Cuts.trim isWhitespace slug).map Char.toLower)

def takenSlug (slug : Text) : AuthStackError :=
  .validation ("workspace URL “" ++ String.ofList slug ++ "” is already taken")

/-- Register a unique slug for an organization. Fails if slug is taken by another org. -/
def registerOrgSlug (orgId slug : Text) : Except AuthStackError Unit := do
  validateOrgSlug slug
  let orgId := Cuts.trim isWhitespace orgId
  if orgId = [] then .error (.validation "organization_id is required")
  else
    let slug := (Cuts.trim isWhitespace slug).map Char.toLower
    match stores.resolveOrgIdForSlugPostgres slug with
    | .ok existing =>
      if existing ≠ orgId then .error (takenSlug slug) else stores.cacheOrgSlug orgId slug
    | .error _ => stores.cacheOrgSlug orgId slug

def candidateSlug (orgId base : Text) (attempt : Nat) : Text :=
  if attempt = 0 then base
  else
    let candidate := base ++ '-' :: (toString (attempt + 1)).toList
    if maxSlugLen < Utf8.size candidate then "ws-".toList ++ orgId.take 8 else candidate

def allocateSlug (orgId base : Text) : List Nat → Except AuthStackError Text
  | [] => .error (.validation "could not allocate a unique workspace URL")
  | attempt :: attempts =>
    let candidate := candidateSlug orgId base attempt
    match validateOrgSlug candidate with
    | .error _ => allocateSlug orgId base attempts
    | .ok _ =>
      match stores.resolveOrgIdForSlug candidate with
      | .ok _ => allocateSlug orgId base attempts
      | .error _ =>
        match stores.registerOrgSlug orgId candidate with
        | .ok _ => .ok candidate
        | .error _ => allocateSlug orgId base attempts

def attempts : Nat := 32

/-- Ensure each org has a slug; auto-register from name when missing (best-effort unique). -/
def ensureOrgSlug (orgId name : Text) : Except AuthStackError Text := do
  match ← stores.slugForOrganization orgId with
  | some existing => .ok existing
  | none => stores.allocateSlug orgId (suggestOrgSlug name) (List.range attempts)

end SlugStores

def validateDisplayName (label : String) (value : Text) (maxLength : Nat) :
    Except AuthStackError Unit :=
  if Cuts.trim isWhitespace value = [] ∨ Cuts.trim isWhitespace value ≠ value ∨
      maxLength < Utf8.size value ∨ value.any isControl then
    .error (.validation (label ++ " is invalid"))
  else .ok ()

structure OrganizationCreateRequest where
  name : Text
  slug : Text

def OrganizationCreateRequest.requestedSlug (request : OrganizationCreateRequest) : Text :=
  let slug := (Cuts.trim isWhitespace request.slug).map Char.toLower
  if slug = [] then suggestOrgSlug (Cuts.trim isWhitespace request.name) else slug

/-- What else a creation calls: the context of the session, and `auth_product`. -/
structure OrganizationCalls (Session Summary : Type) where
  context : Except AuthStackError Session
  create : Text → Text → Session → Except AuthStackError Summary
  select : Session → Summary → Except AuthStackError Unit

def createOrganization {Session Summary : Type} (stores : SlugStores)
    (calls : OrganizationCalls Session Summary) (request : OrganizationCreateRequest) :
    Except AuthStackError Summary := do
  validateDisplayName "organization name" request.name 120
  let session ← calls.context
  let slug := request.requestedSlug
  validateOrgSlug slug
  match stores.resolveOrgIdForSlug slug with
  | .ok _ => .error (SlugStores.takenSlug slug)
  | .error _ => do
      let summary ← calls.create (Cuts.trim isWhitespace request.name) slug session
      calls.select session summary
      return summary

/-- The ASCII letters and digits of a name. -/
def alphanumerics (name : Text) : Text := name.filter Char.isAlphanum

theorem isAlphanum_toLower (c : Char) : c.toLower.isAlphanum = c.isAlphanum := by
  rw [Bool.eq_iff_iff]
  simp only [isAlphanum_eq, isUpper_code, isLower_code, isDigit_code, toLower_code,
    Bool.or_eq_true, decide_eq_true_eq]
  split <;> omega

theorem isLower_toLower (c : Char) : c.toLower.isLower = c.isAlpha := by
  rw [Bool.eq_iff_iff]
  simp only [isAlpha_eq, isUpper_code, isLower_code, toLower_code, Bool.or_eq_true,
    decide_eq_true_eq]
  split <;> omega

variable {c : Char} {written : Text × Bool} {name : Text}

theorem toLower_slugChar (letter : c.isAlphanum = true) :
    isSlugChar c.toLower = true ∧ c.toLower ≠ '-' := by
  have other : c.toLower.toNat ≠ '-'.toNat := by
    rw [toLower_code]
    simp only [isAlphanum_eq, isUpper_code, isLower_code, isDigit_code,
      Bool.or_eq_true, decide_eq_true_eq] at letter
    show _ ≠ 45
    split <;> omega
  refine ⟨?_, fun same => other (by rw [same])⟩
  simp only [isSlugChar, isAlphanum_eq, isUpper_code, isLower_code, isDigit_code,
    toLower_code, Bool.or_eq_true, decide_eq_true_eq] at letter ⊢
  split <;> omega

theorem isWhitespace_code (blank : isWhitespace c = true) : c.toNat ≤ 32 ∨ 128 ≤ c.toNat := by
  simp only [isWhitespace, Bool.or_eq_true, Bool.and_eq_true, decide_eq_true_eq] at blank
  omega

theorem not_blank_slugChar (letter : isSlugChar c = true) : isWhitespace c = false := by
  rw [Bool.eq_false_iff]
  intro blank
  have code := isWhitespace_code blank
  simp only [isSlugChar, isLower_code, isDigit_code, Bool.or_eq_true, decide_eq_true_eq,
    beq_iff_eq] at letter
  rcases letter with (lower | digit) | rfl
  · omega
  · omega
  · revert blank
    decide

theorem ascii_slugChar (letter : isSlugChar c = true) : c.val ≤ 127 := by
  rw [UInt32.le_iff_toNat_le]
  show c.toNat ≤ 127
  simp only [isSlugChar, isLower_code, isDigit_code, Bool.or_eq_true, decide_eq_true_eq,
    beq_iff_eq] at letter
  rcases letter with (lower | digit) | rfl
  · omega
  · omega
  · decide

theorem toLower_slug (letter : isSlugChar c = true) : c.toLower = c := by
  have code := toLower_code c
  simp only [isSlugChar, isLower_code, isDigit_code, Bool.or_eq_true, decide_eq_true_eq,
    beq_iff_eq] at letter
  rcases letter with (lower | digit) | rfl
  · rw [if_neg (by omega)] at code
    exact Char.ext (UInt32.toNat_inj.mp code)
  · rw [if_neg (by omega)] at code
    exact Char.ext (UInt32.toNat_inj.mp code)
  · rfl

theorem alphanumerics_trim (name : Text) :
    alphanumerics (Cuts.trim isWhitespace name) = alphanumerics name := by
  have none {text : Text} (blank : ∀ c ∈ text, isWhitespace c = true) :
      alphanumerics text = [] := by
    rw [alphanumerics, List.filter_eq_nil_iff]
    intro c member letter
    have code := isWhitespace_code (blank c member)
    simp only [isAlphanum_eq, isUpper_code, isLower_code, isDigit_code,
      Bool.or_eq_true, decide_eq_true_eq] at letter
    omega
  obtain ⟨front, back, whole, leading, trailing⟩ := Cuts.trim_parts isWhitespace name
  have parts := congrArg alphanumerics whole
  have apart : ∀ one other : Text, alphanumerics (one ++ other) =
      alphanumerics one ++ alphanumerics other := fun one other => List.filter_append one other
  rw [apart, apart, none leading, none trailing, List.nil_append, List.append_nil] at parts
  exact parts.symm

/-- The loop's text and flag when the kept letters were these. -/
structure Written (written : Text × Bool) (kept : Text) : Prop where
  started : Hyphenated.Started '-' written.1
  letters : ∀ c ∈ written.1, isSlugChar c = true
  items : Hyphenated.items '-' written.1 = kept
  flag : written.2 = false → written.1.getLast? ≠ some '-'

theorem Written.step {kept : Text} (before : Written written kept) (ch : Char) :
    Written (suggestStep written ch) (kept ++ if ch.isAlphanum then [ch.toLower] else []) := by
  rw [suggestStep]
  simp only [isAlphanum_toLower]
  split
  · rename_i letter
    obtain ⟨slugChar, other⟩ := toLower_slugChar letter
    refine ⟨before.started.concat_item other, ?_, ?_, ?_⟩
    · intro c member
      rw [List.mem_append, List.mem_singleton] at member
      rcases member with earlier | rfl
      · exact before.letters c earlier
      · exact slugChar
    · rw [← before.items, Hyphenated.items, List.filter_append]
      simp [Hyphenated.items, other]
    · simpa using other
  · rw [List.append_nil]
    split
    · rename_i hyphen
      have ends := before.flag (by simpa using hyphen.1)
      refine ⟨before.started.concat_separator hyphen.2 ends, ?_, ?_, ?_⟩
      · intro c member
        rw [List.mem_append, List.mem_singleton] at member
        rcases member with earlier | rfl
        · exact before.letters c earlier
        · decide
      · rw [← before.items, Hyphenated.items, List.filter_append]
        simp [Hyphenated.items]
      · intro impossible
        cases impossible
    · exact before

theorem written_suggest (text : Text) :
    Written (text.foldl suggestStep ([], false)) ((alphanumerics text).map Char.toLower) := by
  induction text using List.reverseRecOn with
  | nil => exact ⟨Hyphenated.Started.nil, by simp, rfl, by simp⟩
  | append_singleton text ch ih =>
    have kept : (alphanumerics (text ++ [ch])).map Char.toLower =
        (alphanumerics text).map Char.toLower ++
          if ch.isAlphanum then [ch.toLower] else [] := by
      rw [alphanumerics, List.filter_append, List.map_append, List.filter_singleton,
        ← alphanumerics]
      cases ch.isAlphanum <;> rfl
    rw [List.foldl_append, kept]
    exact ih.step ch

/-- A text that a slug is cut from: hyphens stand between other letters only, one at a time. -/
structure Shaped (text : Text) : Prop where
  started : Hyphenated.Started '-' text
  ends : text.getLast? ≠ some '-'
  letters : ∀ c ∈ text, isSlugChar c = true

theorem Written.shaped {kept : Text} (whole : Written written kept) :
    Shaped (Hyphenated.ended '-' written.1) where
  started := whole.started.of_prefix (Hyphenated.ended_prefix '-' written.1)
  ends := Hyphenated.getLast_ended
  letters := fun c member =>
    whole.letters c ((Hyphenated.ended_prefix '-' written.1).mem member)

namespace Shaped

variable {text : Text}

theorem cut (shaped : Shaped text) (count : Nat) :
    Shaped (Hyphenated.ended '-' (text.take count)) := by
  have opens : Hyphenated.ended '-' (text.take count) <+: text :=
    (Hyphenated.ended_prefix '-' _).trans (List.take_prefix count text)
  exact ⟨shaped.started.of_prefix opens, Hyphenated.getLast_ended,
    fun c member => shaped.letters c (opens.mem member)⟩

theorem trim (shaped : Shaped text) : Cuts.trim isWhitespace text = text :=
  Cuts.trim_of_kept fun c member => not_blank_slugChar (shaped.letters c member)

theorem size (shaped : Shaped text) : Utf8.size text = text.length :=
  Utf8.size_ascii fun c member => ascii_slugChar (shaped.letters c member)

end Shaped

/-- What the loop leaves, cut to length. -/
def cutSlug (trimmed : Text) : Text :=
  if trimmed = [] then "workspace".toList
  else if maxSlugLen < trimmed.length then Hyphenated.ended '-' (trimmed.take maxSlugLen)
  else trimmed

theorem suggestOrgSlug_shaped (name : Text) :
    ∃ trimmed, Shaped trimmed ∧
      Hyphenated.items '-' trimmed = (alphanumerics name).map Char.toLower ∧
      suggestOrgSlug name = cutSlug trimmed := by
  have written := written_suggest (Cuts.trim isWhitespace name)
  rw [alphanumerics_trim] at written
  have shaped := written.shaped
  refine ⟨_, shaped, ?_, ?_⟩
  · rw [Hyphenated.items_ended written.started.apart, written.items]
  · rw [suggestOrgSlug, Hyphenated.trim_started written.started.starts, shaped.size]
    rfl

theorem suggestOrgSlug_none (none : alphanumerics name = []) :
    suggestOrgSlug name = "workspace".toList := by
  obtain ⟨trimmed, shaped, items, suggested⟩ := suggestOrgSlug_shaped name
  have empty : trimmed = [] := by
    have first := Hyphenated.head_items shaped.started.starts
    rw [items, none] at first
    exact List.head?_eq_none_iff.mp first.symm
  rw [suggested, empty]
  rfl

/-- Where the name has letters, the slug starts with the first one, and is one letter long only
if there are no others. -/
theorem suggestOrgSlug_some (some : alphanumerics name ≠ []) :
    Shaped (suggestOrgSlug name) ∧ (suggestOrgSlug name).length ≤ maxSlugLen ∧
      (suggestOrgSlug name).head? = (alphanumerics name).head?.map Char.toLower ∧
      ((suggestOrgSlug name).length = 1 ↔ (alphanumerics name).length = 1) := by
  obtain ⟨trimmed, shaped, items, suggested⟩ := suggestOrgSlug_shaped name
  have first := Hyphenated.head_items shaped.started.starts
  have single := Hyphenated.length_eq_one shaped.started.starts shaped.ends
  rw [items, List.head?_map] at first
  rw [items, List.length_map] at single
  have nonempty : trimmed ≠ [] := by
    intro empty
    rw [empty, List.head?_nil, Option.map_eq_none_iff, List.head?_eq_none_iff] at first
    exact some first
  rw [suggested, cutSlug, if_neg nonempty]
  split
  · rename_i long
    -- The cut text ends in at most one hyphen, so 47 letters are left.
    have taken : (trimmed.take maxSlugLen).length = maxSlugLen :=
      List.length_take_of_le (Nat.le_of_lt long)
    have cut := shaped.cut maxSlugLen
    have kept := Hyphenated.length_ended
      (shaped.started.of_prefix (List.take_prefix maxSlugLen trimmed)).apart
    have opens := Hyphenated.ended_prefix '-' (trimmed.take maxSlugLen)
    have short := opens.length_le
    rw [taken] at kept short
    refine ⟨cut, short, ?_, ?_⟩
    · obtain ⟨back, whole⟩ := opens.trans (List.take_prefix maxSlugLen trimmed)
      have heads := congrArg List.head? whole
      rw [List.head?_append_of_ne_nil] at heads
      · rw [heads, first]
      · intro empty
        rw [empty] at kept
        exact absurd kept (by decide)
    · rw [maxSlugLen] at *
      omega
  · rename_i short
    exact ⟨shaped, Nat.le_of_not_lt short, first.symm, single⟩

def slugLength : AuthStackError := .validation "workspace URL must be 2–48 characters"

def slugStart : AuthStackError := .validation "workspace URL must start with a lowercase letter"

namespace Shaped

variable {slug : Text}

theorem validate_short (shaped : Shaped slug) (short : slug.length < 2) :
    validateOrgSlug slug = .error slugLength := by
  rw [validateOrgSlug, shaped.trim, shaped.size]
  exact if_pos (Or.inl short)

theorem validate_digit (shaped : Shaped slug) (long : 2 ≤ slug.length)
    (short : slug.length ≤ maxSlugLen) (digit : ∀ first ∈ slug.head?, first.isLower = false) :
    validateOrgSlug slug = .error slugStart := by
  rw [validateOrgSlug, shaped.trim, shaped.size, if_neg (by omega)]
  cases slug with
  | nil => exact absurd long (by decide)
  | cons first rest => simp [digit first rfl, slugStart]

theorem validate_letter (shaped : Shaped slug) (long : 2 ≤ slug.length)
    (short : slug.length ≤ maxSlugLen) (letter : ∀ first ∈ slug.head?, first.isLower = true) :
    validateOrgSlug slug =
      if slug ∈ reservedOrgSlugs then .error (reservedSlug slug) else .ok () := by
  have hyphens : ¬ (['-'] <+: slug ∨ ['-'] <:+ slug ∨ ['-', '-'] <:+: slug) := by
    rintro (⟨rest, whole⟩ | ⟨rest, whole⟩ | double)
    · exact shaped.started.starts (by rw [← whole]; rfl)
    · exact shaped.ends (by rw [← whole]; simp)
    · exact Hyphenated.apart_iff.mp shaped.started.apart double
  rw [validateOrgSlug, shaped.trim, shaped.size, if_neg (by omega)]
  cases slug with
  | nil => exact absurd long (by decide)
  | cons first rest =>
    have letters : rest.all isSlugChar = true :=
      List.all_eq_true.mpr fun c member => shaped.letters c (List.mem_cons_of_mem first member)
    simp only [letter first rfl, letters, not_true_eq_false, if_false]
    rw [if_neg hyphens]

end Shaped

/-- The text of the error names the slug as reserved and says nothing of its form. -/
theorem reservedSlug_ne (slug : Text) :
    reservedSlug slug ≠ slugLength ∧ reservedSlug slug ≠ slugStart := by
  have opening {message : String} (same : reservedSlug slug = .validation message) :
      message.toList.take 15 = "workspace URL “".toList := by
    injection same with same
    rw [← same, String.toList_append, String.toList_append, List.append_assoc]
    exact List.take_left' (by decide +kernel)
  constructor
  · intro same
    exact absurd (opening same) (by decide +kernel)
  · intro same
    exact absurd (opening same) (by decide +kernel)

/-- The name has no ASCII letters or digits, or at least two of which the first is a letter. -/
def Sluggable (name : Text) : Prop :=
  alphanumerics name = [] ∨ 2 ≤ (alphanumerics name).length ∧
    ∀ first ∈ (alphanumerics name).head?, first.isAlpha = true

theorem validate_suggested (sluggable : Sluggable name) :
    validateOrgSlug (suggestOrgSlug name) =
      if suggestOrgSlug name ∈ reservedOrgSlugs then .error (reservedSlug (suggestOrgSlug name))
      else .ok () := by
  by_cases none : alphanumerics name = []
  · rw [suggestOrgSlug_none none]
    decide +kernel
  · rcases sluggable with empty | ⟨long, letter⟩
    · exact absurd empty none
    · obtain ⟨shaped, short, head, single⟩ := suggestOrgSlug_some none
      have nonempty : (suggestOrgSlug name).length ≠ 0 := by
        intro empty
        rw [List.length_eq_zero_iff.mp empty, List.head?_nil, eq_comm, Option.map_eq_none_iff,
          List.head?_eq_none_iff] at head
        exact none head
      refine shaped.validate_letter (by omega) short fun first opening => ?_
      rw [head, Option.mem_def, Option.map_eq_some_iff] at opening
      obtain ⟨upper, among, rfl⟩ := opening
      rw [isLower_toLower]
      exact letter upper among

theorem validate_unsuggested (other : ¬ Sluggable name) :
    validateOrgSlug (suggestOrgSlug name) = .error slugLength ∨
      validateOrgSlug (suggestOrgSlug name) = .error slugStart := by
  rw [Sluggable, not_or] at other
  obtain ⟨some, badly⟩ := other
  obtain ⟨shaped, short, head, single⟩ := suggestOrgSlug_some some
  by_cases long : 2 ≤ (suggestOrgSlug name).length
  · refine Or.inr (shaped.validate_digit long short fun first opening => ?_)
    have positive := List.length_pos_iff.mpr some
    rw [head, Option.mem_def, Option.map_eq_some_iff] at opening
    obtain ⟨upper, among, rfl⟩ := opening
    rw [isLower_toLower, Bool.eq_false_iff]
    intro letter
    apply badly
    refine ⟨by omega, fun first opening => ?_⟩
    rw [Option.mem_def, among, Option.some_inj] at opening
    exact opening ▸ letter
  · exact Or.inl (shaped.validate_short (by omega))

theorem validate_checked_iff (name : Text) :
    (∀ error, validateOrgSlug (suggestOrgSlug name) = .error error →
      error = reservedSlug (suggestOrgSlug name)) ↔ Sluggable name := by
  constructor
  · intro checked
    by_contra other
    obtain ⟨notLength, notStart⟩ := reservedSlug_ne (suggestOrgSlug name)
    rcases validate_unsuggested other with short | digit
    · exact notLength (checked _ short).symm
    · exact notStart (checked _ digit).symm
  · intro sluggable error failed
    rw [validate_suggested sluggable] at failed
    split at failed
    · cases failed
      rfl
    · cases failed

theorem requestedSlug_blank {slug : Text} (blank : isBlank slug = true) :
    (⟨name, slug⟩ : OrganizationCreateRequest).requestedSlug = suggestOrgSlug name := by
  have empty : Cuts.trim isWhitespace slug = [] := by
    rw [Cuts.trim, List.dropWhile_eq_nil_iff.mpr (List.all_eq_true.mp blank)]
    rfl
  rw [OrganizationCreateRequest.requestedSlug]
  simp only [empty, List.map_nil, if_true]
  rw [suggestOrgSlug, Cuts.trim_trim, ← suggestOrgSlug]

theorem trim_ne_nil {text : Text} (named : isBlank text = false) :
    Cuts.trim isWhitespace text ≠ [] := by
  intro empty
  obtain ⟨front, back, whole, leading, trailing⟩ := Cuts.trim_parts isWhitespace text
  rw [empty, List.nil_append] at whole
  have blank : isBlank text = true := by
    rw [isBlank, whole, List.all_append, List.all_eq_true.mpr leading,
      List.all_eq_true.mpr trailing]
    rfl
  rw [blank] at named
  cases named

theorem lower_slug {slug : Text} (letters : ∀ c ∈ slug, isSlugChar c = true) :
    (Cuts.trim isWhitespace slug).map Char.toLower = slug := by
  rw [Cuts.trim_of_kept fun c member => not_blank_slugChar (letters c member)]
  refine (List.map_congr_left fun c member => ?_).trans (List.map_id slug)
  exact toLower_slug (letters c member)

theorem letters_suggested (name : Text) : ∀ c ∈ suggestOrgSlug name, isSlugChar c = true := by
  by_cases none : alphanumerics name = []
  · rw [suggestOrgSlug_none none]
    decide +kernel
  · exact (suggestOrgSlug_some none).1.letters

/-- What a creation can fail on besides the form of its slug. -/
inductive FailsBeside {Session Summary : Type} (calls : OrganizationCalls Session Summary)
    (request : OrganizationCreateRequest) (error : AuthStackError) : Prop where
  | name (failed : validateDisplayName "organization name" request.name 120 = .error error)
  | context (failed : calls.context = .error error)
  | reserved (failed : error = reservedSlug request.requestedSlug)
  | taken (failed : error = SlugStores.takenSlug request.requestedSlug)
  | create (name slug : Text) (session : Session)
      (failed : calls.create name slug session = .error error)
  | select (session : Session) (summary : Summary)
      (failed : calls.select session summary = .error error)

theorem createOrganization_fails {Session Summary : Type} {stores : SlugStores}
    {calls : OrganizationCalls Session Summary} {request : OrganizationCreateRequest}
    {error : AuthStackError} (failed : createOrganization stores calls request = .error error) :
    FailsBeside calls request error ∨ validateOrgSlug request.requestedSlug = .error error := by
  rcases error_of_bind failed with name | ⟨_, _, failed⟩
  · exact Or.inl (.name name)
  rcases error_of_bind failed with context | ⟨session, _, failed⟩
  · exact Or.inl (.context context)
  rcases error_of_bind failed with form | ⟨_, _, failed⟩
  · exact Or.inr form
  cases resolved : stores.resolveOrgIdForSlug request.requestedSlug with
  | ok organization =>
    rw [resolved] at failed
    cases failed
    exact Or.inl (.taken rfl)
  | error absent =>
    rw [resolved] at failed
    rcases error_of_bind failed with create | ⟨summary, _, failed⟩
    · exact Or.inl (.create _ _ session create)
    rcases error_of_bind failed with select | ⟨_, _, failed⟩
    · exact Or.inl (.select session summary select)
    cases failed

namespace SlugStores

/-- The organization has an id and no slug, no slug is taken, and the cache can be written. -/
structure Free (stores : SlugStores) (orgId : Text) : Prop where
  named : isBlank orgId = false
  unslugged : stores.slugForOrganization orgId = .ok none
  untaken : ∀ slug, stores.active slug = .ok none
  writable : ∀ id slug, stores.write id slug = .ok ()

variable {stores : SlugStores} {orgId : Text}

theorem Free.resolve (free : stores.Free orgId) (slug : Text) :
    stores.resolveOrgIdForSlugPostgres slug = .error (.notFound "workspace not found") := by
  rw [resolveOrgIdForSlugPostgres, free.untaken slug]
  rfl

theorem Free.cache (free : stores.Free orgId) {slug : Text}
    (valid : validateOrgSlug slug = .ok ()) :
    stores.cacheOrgSlug (Cuts.trim isWhitespace orgId) slug = .ok () := by
  rw [cacheOrgSlug, bind_of_ok valid]
  simp only [Cuts.trim_trim]
  rw [if_neg (trim_ne_nil free.named), free.writable]

theorem Free.register (free : stores.Free orgId) {slug : Text}
    (letters : ∀ c ∈ slug, isSlugChar c = true) (valid : validateOrgSlug slug = .ok ()) :
    stores.registerOrgSlug orgId slug = .ok () := by
  rw [registerOrgSlug, bind_of_ok valid]
  simp only
  rw [if_neg (trim_ne_nil free.named), lower_slug letters, free.resolve slug]
  exact free.cache valid

theorem Free.ensure (free : stores.Free orgId) {name : Text}
    (valid : validateOrgSlug (suggestOrgSlug name) = .ok ()) :
    stores.ensureOrgSlug orgId name = .ok (suggestOrgSlug name) := by
  have absent : stores.resolveOrgIdForSlug (suggestOrgSlug name) =
      .error (.notFound "workspace not found") := by
    rw [resolveOrgIdForSlug, bind_of_ok valid]
    exact free.resolve _
  have registered := free.register (letters_suggested name) valid
  rw [ensureOrgSlug, bind_of_ok free.unslugged]
  show stores.allocateSlug orgId (suggestOrgSlug name) (0 :: (List.range 31).map (· + 1)) = _
  rw [allocateSlug, candidateSlug, if_pos rfl]
  simp only [valid, absent, registered]

end SlugStores

/-- What is asked of the slug suggested for a name: it is reserved or valid, a creation without a
slug fails on its form neither in the check nor as a whole, and where it is not reserved an
organization has a valid candidate and, in stores that are free, gets one. -/
structure AcceptableSlug (name : Text) : Prop where
  suggested : suggestOrgSlug name ∈ reservedOrgSlugs ∨
    validateOrgSlug (suggestOrgSlug name) = .ok ()
  checked : ∀ slug error, isBlank slug = true →
    validateOrgSlug (⟨name, slug⟩ : OrganizationCreateRequest).requestedSlug = .error error →
      error = reservedSlug (⟨name, slug⟩ : OrganizationCreateRequest).requestedSlug
  created : ∀ (Session Summary : Type) (stores : SlugStores)
    (calls : OrganizationCalls Session Summary) (slug : Text) (error : AuthStackError),
      isBlank slug = true → createOrganization stores calls ⟨name, slug⟩ = .error error →
        FailsBeside calls ⟨name, slug⟩ error
  candidate : suggestOrgSlug name ∉ reservedOrgSlugs → ∀ orgId,
    ∃ attempt < SlugStores.attempts,
      validateOrgSlug (SlugStores.candidateSlug orgId (suggestOrgSlug name) attempt) = .ok ()
  ensured : suggestOrgSlug name ∉ reservedOrgSlugs → ∀ (stores : SlugStores) (orgId : Text),
    stores.Free orgId → ∃ slug, stores.ensureOrgSlug orgId name = .ok slug ∧
      validateOrgSlug slug = .ok ()

/-- The suggested slug is acceptable exactly for the names that have no letters, or two and a
first that no digit is. -/
theorem acceptableSlug_iff (name : Text) : AcceptableSlug name ↔ Sluggable name := by
  constructor
  · intro acceptable
    rw [← validate_checked_iff]
    intro error failed
    have checked := acceptable.checked [] error rfl
    rw [requestedSlug_blank rfl] at checked
    exact checked failed
  · intro sluggable
    have checked := (validate_checked_iff name).mpr sluggable
    have valid (unreserved : suggestOrgSlug name ∉ reservedOrgSlugs) :
        validateOrgSlug (suggestOrgSlug name) = .ok () := by
      rw [validate_suggested sluggable, if_neg unreserved]
    constructor
    · by_cases reserved : suggestOrgSlug name ∈ reservedOrgSlugs
      · exact Or.inl reserved
      · exact Or.inr (valid reserved)
    · intro slug error blank failed
      rw [requestedSlug_blank blank] at failed ⊢
      exact checked error failed
    · intro Session Summary stores calls slug error blank failed
      rcases createOrganization_fails failed with beside | form
      · exact beside
      · refine .reserved ?_
        rw [requestedSlug_blank blank] at form ⊢
        exact checked error form
    · intro unreserved orgId
      exact ⟨0, by decide, valid unreserved⟩
    · intro unreserved stores orgId free
      exact ⟨_, free.ensure (valid unreserved), valid unreserved⟩

/-- Stores of an application that has no organizations yet. -/
def emptyStores : SlugStores := ⟨fun _ => .ok none, fun _ => .ok none, fun _ _ => .ok ()⟩

/-- The slug of `3D Labs` starts with its digit, and so does every candidate. -/
theorem suggested_digit :
    ¬ (suggestOrgSlug "3D Labs".toList ∈ reservedOrgSlugs ∨
      validateOrgSlug (suggestOrgSlug "3D Labs".toList) = .ok ()) ∧
    (emptyStores.ensureOrgSlug "org-1".toList "3D Labs".toList) =
      .error (.validation "could not allocate a unique workspace URL") := by
  decide +kernel

end DddCqrsEs.FullstackApp
