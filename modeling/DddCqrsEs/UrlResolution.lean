import DddCqrsEs.Cuts
import DddCqrsEs.Decimal
import Mathlib.Data.Char

/- References as browsers resolve them against the URL of a page, as far as the site that is
reached. Nothing here names an application. -/
namespace UrlResolution

/-- Scheme, host and port of a URL with a special scheme; `none` is the scheme's own port. -/
structure Site where
  scheme : List Char
  host : List Char
  port : Option Nat
  deriving DecidableEq

/-- How the browser reads the text of a host: names to ASCII, numbers as addresses. -/
structure Browser where
  parseHost : List Char → Option (List Char)

def isC0OrSpace (c : Char) : Bool := decide (c.toNat ≤ 32)

def isTabOrNewline (c : Char) : Bool := c == '\t' || c == '\n' || c == '\r'

/-- C0 controls and spaces are stripped off the ends, tabs and newlines removed anywhere. -/
def normalized (text : List Char) : List Char :=
  (Cuts.trim isC0OrSpace text).filter (! isTabOrNewline ·)

/-- For special schemes a backslash is a slash. -/
def isSlash (c : Char) : Bool := c == '/' || c == '\\'

def endsAuthority (c : Char) : Bool := isSlash c || c == '?' || c == '#'

def defaultPorts : List (List Char × Nat) :=
  [("http".toList, 80), ("https".toList, 443), ("ws".toList, 80), ("wss".toList, 443),
    ("ftp".toList, 21)]

/-- The text of the host, and the one behind the first colon that is not in brackets. -/
def cutPort : Bool → List Char → List Char × Option (List Char)
  | _, [] => ([], none)
  | bracketed, c :: text =>
    if c = ':' ∧ ¬ bracketed then ([], some text)
    else
      let rest := cutPort (if c = '[' then true else if c = ']' then false else bracketed) text
      (c :: rest.1, rest.2)

/-- `none` where the port is invalid. -/
def readPort (scheme : List Char) : Option (List Char) → Option (Option Nat)
  | none => some none
  | some [] => some none
  | some digits =>
    match Decimal.unsigned digits with
    | some number =>
      if 65535 < number then none
      else if (scheme, number) ∈ defaultPorts then some none
      else some (some number)
    | none => none

/-- Slashes are ignored, what stands before the last `@` are credentials. -/
def readAuthority (browser : Browser) (scheme text : List Char) : Option Site :=
  let authority := Cuts.upTo endsAuthority (text.dropWhile isSlash)
  let address := Cuts.afterLast '@' authority
  let parts := cutPort false address
  if parts.1 = [] then none
  else
    match browser.parseHost parts.1, readPort scheme parts.2 with
    | some host, some port => some ⟨scheme, host, port⟩
    | _, _ => none

def isSchemeChar (c : Char) : Bool := c.isAlphanum || c == '+' || c == '-' || c == '.'

def schemeOf (text : List Char) : Option (List Char × List Char) :=
  match Cuts.cutFirst ':' text with
  | some (first :: scheme, rest) =>
    if first.isAlpha ∧ scheme.all isSchemeChar then
      some ((first :: scheme).map Char.toLower, rest)
    else none
  | _ => none

/-- A reference without a scheme: two slashes start an authority, anything else stays. -/
def resolveRelative (browser : Browser) (base : Site) : List Char → Option Site
  | first :: second :: rest =>
    if isSlash first ∧ isSlash second then readAuthority browser base.scheme rest else some base
  | _ => some base

/-- The site that a reference on a page leads to; `none` where it cannot be resolved or its
scheme is not one of the special ones with a host. -/
def resolve (browser : Browser) (base : Site) (text : List Char) : Option Site :=
  match schemeOf (normalized text) with
  | some (scheme, rest) =>
    if scheme ∈ defaultPorts.map Prod.fst then
      if scheme = base.scheme ∧ ¬ ['/', '/'] <+: rest then resolveRelative browser base rest
      else readAuthority browser scheme rest
    else none
  | none => resolveRelative browser base (normalized text)

/-- The first character that is left of a text. -/
def opening (text : List Char) : Option Char := text.find? (! isTabOrNewline ·)

theorem normalized_slash (rest : List Char) :
    ∃ kept, normalized ('/' :: rest) = '/' :: kept ∧
      ∀ c, isSlash c = true → (kept.head? = some c ↔ opening rest = some c) := by
  have stripped : Cuts.trim isC0OrSpace ('/' :: rest) = '/' :: rest.rdropWhile isC0OrSpace := by
    have kept := @Cuts.rdropWhile_append_cons Char isC0OrSpace '/' (by decide) [] rest
    rw [List.nil_append, List.nil_append] at kept
    rw [Cuts.trim, List.dropWhile_cons_of_neg (by decide), kept]
  obtain ⟨back, whole, trailing⟩ := Cuts.rdropWhile_parts isC0OrSpace rest
  refine ⟨(rest.rdropWhile isC0OrSpace).filter (! isTabOrNewline ·), ?_, fun c slash => ?_⟩
  · rw [normalized, stripped, List.filter_cons_of_pos (by decide)]
  · have behind : opening back ≠ some c := by
      intro found
      have blank := trailing c (List.mem_of_find?_eq_some found)
      rcases Bool.or_eq_true _ _ |>.mp slash with same | same
      · rw [beq_iff_eq.mp same] at blank
        revert blank
        decide
      · rw [beq_iff_eq.mp same] at blank
        revert blank
        decide
    have split : opening rest = (opening (rest.rdropWhile isC0OrSpace)).or (opening back) := by
      rw [opening, opening, opening, ← List.find?_append, ← whole]
    rw [List.head?_filter, ← opening, split]
    cases opening (rest.rdropWhile isC0OrSpace) with
    | some first => rfl
    | none => exact iff_of_false (by simp) behind

theorem schemeOf_slash (text : List Char) : schemeOf ('/' :: text) = none := by
  rw [schemeOf]
  cases cut : Cuts.cutFirst ':' ('/' :: text) with
  | none => rfl
  | some parts =>
    obtain ⟨front, back⟩ := parts
    obtain ⟨whole, free⟩ := Cuts.cutFirst_eq_some.mp cut
    cases front with
    | nil => rfl
    | cons first scheme =>
      rw [← (List.cons.inj whole).1]
      rfl

section

variable (browser : Browser) (rest : List Char)

theorem resolve_plain (base : Site) (plain : ∀ c ∈ opening rest, isSlash c = false) :
    resolve browser base ('/' :: rest) = some base := by
  obtain ⟨kept, normal, heads⟩ := normalized_slash rest
  rw [resolve, normal, schemeOf_slash]
  cases kept with
  | nil => rfl
  | cons second kept =>
    have other : isSlash second = false := by
      by_contra slash
      rw [Bool.not_eq_false] at slash
      have first := plain second ((heads second slash).mp rfl)
      rw [slash] at first
      cases first
    exact if_neg (by simp [other])

/-- Two slashes lead to the same site from every page of a scheme. -/
theorem resolve_authority {c : Char} (second : opening rest = some c) (slash : isSlash c = true) :
    ∃ text, ∀ base, resolve browser base ('/' :: rest) =
      readAuthority browser base.scheme text := by
  obtain ⟨kept, normal, heads⟩ := normalized_slash rest
  have first := (heads c slash).mpr second
  cases kept with
  | nil => cases first
  | cons d kept =>
    have same : d = c := Option.some_inj.mp first
    refine ⟨kept, fun base => ?_⟩
    rw [resolve, normal, schemeOf_slash]
    exact if_pos ⟨rfl, same ▸ slash⟩

/-- A reference that starts with a slash stays on every site that it stands on exactly when what
is left of it has no second slash. -/
theorem stays_iff (scheme : List Char) :
    (∀ base : Site, base.scheme = scheme → base.host ≠ [] →
      resolve browser base ('/' :: rest) = some base) ↔
        ∀ c ∈ opening rest, isSlash c = false := by
  constructor
  · intro stays c second
    rw [Bool.eq_false_iff]
    intro slash
    obtain ⟨text, leads⟩ := resolve_authority browser rest second slash
    have one := stays ⟨scheme, ['a'], some 1⟩ rfl (List.cons_ne_nil _ _)
    have two := stays ⟨scheme, ['a'], some 2⟩ rfl (List.cons_ne_nil _ _)
    rw [leads] at one two
    cases one.symm.trans two
  · intro plain base _ _
    exact resolve_plain browser rest base plain

end

end UrlResolution
