import DddCqrsEs.Cuts
import DddCqrsEs.JsonString
import DddCqrsEs.Utf8

/- URIs split by the rules of RFC 3986, and percent-decoding, where a plus sign stands for itself.
Nothing here names an application. -/
namespace Uri

open Cuts

structure Parts where
  scheme : List Char
  authority : List Char
  path : List Char
  query : Option (List Char)
  fragment : Option (List Char)

/-- The authority ends at the first slash, question mark or number sign. -/
def endsAuthority (c : Char) : Bool := c == '/' || c == '?' || c == '#'

/-- What stands before the first separator, and behind it, if there is one. -/
def cutOptional (separator : Char) (text : List Char) : List Char × Option (List Char) :=
  match cutFirst separator text with
  | some (front, back) => (front, some back)
  | none => (text, none)

/-- The parts behind a scheme and two slashes. -/
def hierarchy (scheme rest : List Char) : Parts :=
  let authority := upTo endsAuthority rest
  let behind := cutOptional '#' (rest.drop authority.length)
  let path := cutOptional '?' behind.1
  ⟨scheme, authority, path.1, path.2, behind.2⟩

/-- The parts of a URI with an authority. -/
def parts (text : List Char) : Option Parts :=
  match cutFirst ':' text with
  | none => none
  | some (scheme, behind) => (strip ['/', '/'] behind).map (hierarchy scheme)

structure Authority where
  userinfo : Option (List Char)
  host : List Char
  port : Option (List Char)

/-- A host, where what follows it is a port or nothing. -/
def beforePort (userinfo : Option (List Char)) (host : List Char) :
    List Char → Option Authority
  | [] => some ⟨userinfo, host, none⟩
  | ':' :: port => if port.all Char.isDigit then some ⟨userinfo, host, some port⟩ else none
  | _ => none

/-- A host in brackets ends with them, and any other at the first colon. -/
def hostAndPort (userinfo : Option (List Char)) (text : List Char) : Option Authority :=
  if text.head? = some '[' then
    match cutFirst ']' text with
    | some (inside, behind) => beforePort userinfo (inside ++ [']']) behind
    | none => none
  else
    let host := upTo (· == ':') text
    beforePort userinfo host (text.drop host.length)

/-- The user information ends at the last `@`. -/
def authority (text : List Char) : Option Authority :=
  match cutLast '@' text with
  | some (userinfo, text) => hostAndPort (some userinfo) text
  | none => hostAndPort none text

/-- A host that is not cut: something in brackets, or something without a colon. -/
def HostText (host : List Char) : Prop :=
  ':' ∉ host ∧ host.head? ≠ some '[' ∨ ∃ inside, host = '[' :: (inside ++ [']']) ∧ ']' ∉ inside

variable {text scheme host : List Char} {userinfo : Option (List Char)} {read : Authority}

theorem cutOptional_none {separator : Char} (free : separator ∉ text) :
    cutOptional separator text = (text, none) := by
  rw [cutOptional, cutFirst_eq_none.mpr free]

theorem cutOptional_append {separator : Char} {front : List Char} (free : separator ∉ front)
    (back : List Char) :
    cutOptional separator (front ++ separator :: back) = (front, some back) := by
  rw [cutOptional, cutFirst_append free]

theorem parts_append (free : ':' ∉ scheme) (rest : List Char) :
    parts (scheme ++ ':' :: '/' :: '/' :: rest) = some (hierarchy scheme rest) := by
  have slashes : strip ['/', '/'] ('/' :: '/' :: rest) = some rest := strip_eq_some.mpr rfl
  rw [parts, cutFirst_append free]
  show (strip ['/', '/'] ('/' :: '/' :: rest)).map (hierarchy scheme) = _
  rw [slashes]
  rfl

theorem hierarchy_authority (scheme rest : List Char) :
    (hierarchy scheme rest).authority = upTo endsAuthority rest := rfl

/-- A URI of an authority, a path and a query is split into them. -/
theorem hierarchy_append {authority path query : List Char}
    (first : ∀ c ∈ authority, endsAuthority c = false) (second : '?' ∉ path) (third : '#' ∉ path)
    (fourth : '#' ∉ query) :
    hierarchy scheme (authority ++ ('/' :: path ++ '?' :: query)) =
      ⟨scheme, authority, '/' :: path, some query, none⟩ := by
  have stop : upTo endsAuthority (authority ++ ('/' :: path ++ '?' :: query)) = authority := by
    rw [upTo_eq_iff]
    refine ⟨_, rfl, first, ?_⟩
    simp [Opens, endsAuthority]
  have whole : '#' ∉ '/' :: path ++ '?' :: query := by
    simp [third, fourth]
  have before : '?' ∉ '/' :: path := by
    simp [second]
  rw [hierarchy, stop, List.drop_left, cutOptional_none whole, cutOptional_append before]

theorem beforePort_host (same : beforePort userinfo host text = some read) : read.host = host := by
  rw [beforePort.eq_def] at same
  split at same
  · cases same
    rfl
  · split at same
    · cases same
      rfl
    · cases same
  · cases same

theorem hostAndPort_host (same : hostAndPort userinfo text = some read) :
    read.host <+: text ∧ HostText read.host := by
  rw [hostAndPort] at same
  split at same
  · rename_i opening
    split at same
    · rename_i inside behind cut
      obtain ⟨whole, free⟩ := cutFirst_eq_some.mp cut
      have host := beforePort_host same
      constructor
      · rw [host, whole]
        exact ⟨behind, by simp⟩
      · cases inside with
        | nil =>
          rw [whole] at opening
          cases opening
        | cons first inside =>
          rw [whole] at opening
          injection opening with bracket
          rw [List.mem_cons, not_or] at free
          exact Or.inr ⟨inside, by rw [host, bracket, List.cons_append], free.2⟩
    · cases same
  · rename_i other
    rw [beforePort_host same]
    obtain ⟨back, cut⟩ : upTo (· == ':') text <+: text := List.takeWhile_prefix _
    refine ⟨⟨back, cut⟩, Or.inl ⟨fun member => ?_, fun bracket => other ?_⟩⟩
    · have free := upTo_free _ _ _ member
      simp at free
    · rw [← cut, List.head?_append, bracket]
      rfl

/-- The host is what the text behind the last `@` starts with. -/
theorem authority_host (same : authority text = some read) :
    read.host <+: afterLast '@' text ∧ HostText read.host := by
  rw [authority] at same
  rw [afterLast]
  split at same
  · rename_i userinfo rest cut
    rw [cut]
    exact hostAndPort_host same
  · rename_i cut
    rw [cut]
    exact hostAndPort_host same

/-- A host that is not cut is read as it stands. -/
theorem authority_append {userinfo port : List Char} (whole : HostText host) (plain : '@' ∉ host)
    (digits : port.all Char.isDigit = true) :
    authority (userinfo ++ '@' :: (host ++ ':' :: port)) = some ⟨some userinfo, host, some port⟩ := by
  have free : '@' ∉ host ++ ':' :: port := by
    rw [List.mem_append, List.mem_cons, not_or, not_or]
    refine ⟨plain, by decide, fun member => ?_⟩
    have digit := List.all_eq_true.mp digits '@' member
    cases digit
  have behind (read : List Char) :
      beforePort (some userinfo) read (':' :: port) = some ⟨some userinfo, read, some port⟩ := by
    rw [beforePort, if_pos digits]
  rw [authority, cutLast_append free]
  show hostAndPort (some userinfo) (host ++ ':' :: port) = _
  rw [hostAndPort]
  rcases whole with ⟨noColon, other⟩ | ⟨inside, rfl, closed⟩
  · have opening : (host ++ ':' :: port).head? ≠ some '[' := by
      cases host with
      | nil => simp
      | cons first host => exact other
    have stop : upTo (· == ':') (host ++ ':' :: port) = host :=
      upTo_of_cutFirst (cutFirst_append noColon port)
    rw [if_neg opening, stop]
    simp only [List.drop_left]
    exact behind host
  · have cut : cutFirst ']' ('[' :: (inside ++ [']']) ++ ':' :: port) =
        some ('[' :: inside, ':' :: port) := by
      rw [cutFirst_eq_some]
      simp [closed]
    rw [if_pos (by rfl), cut]
    exact behind _

/-- The bytes that a part stands for. -/
def percentDecode : List Char → Option (List UInt8)
  | [] => some []
  | '%' :: high :: low :: rest =>
    match JsonString.hexValue high, JsonString.hexValue low with
    | some h, some l => (percentDecode rest).map (UInt8.ofNat (h * 16 + l) :: ·)
    | _, _ => none
  | c :: text =>
    if c = '%' then none else (percentDecode text).map (String.utf8EncodeChar c ++ ·)

theorem percentDecode_cons {c : Char} (plain : c ≠ '%') (text : List Char) :
    percentDecode (c :: text) = (percentDecode text).map (String.utf8EncodeChar c ++ ·) := by
  rw [percentDecode, if_neg plain]
  intro high low rest same
  exact absurd same plain

theorem percentDecode_escape {high low : Char} {h l : Nat}
    (first : JsonString.hexValue high = some h) (second : JsonString.hexValue low = some l)
    (rest : List Char) :
    percentDecode ('%' :: high :: low :: rest) =
      (percentDecode rest).map (UInt8.ofNat (h * 16 + l) :: ·) := by
  rw [percentDecode, first, second]

/-- Each escape is two bytes longer than what it stands for. -/
theorem percentDecode_length {bytes : List UInt8} (decoded : percentDecode text = some bytes) :
    bytes.length ≤ Utf8.size text ∧ (bytes.length = Utf8.size text → '%' ∉ text) := by
  fun_induction percentDecode text generalizing bytes with
  | case1 =>
    cases decoded
    simp [Utf8.size]
  | case2 high low rest h l first second ih =>
    rw [Option.map_eq_some_iff] at decoded
    obtain ⟨tail, read, same⟩ := decoded
    have shorter := (ih read).1
    have opening : ('%' : Char).utf8Size = 1 := rfl
    have upper := high.utf8Size_pos
    rw [← same, List.length_cons, Utf8.size_cons, Utf8.size_cons, Utf8.size_cons, opening]
    exact ⟨by omega, fun even => by omega⟩
  | case3 => cases decoded
  | case4 => cases decoded
  | case5 c text other plain ih =>
    rw [Option.map_eq_some_iff] at decoded
    obtain ⟨tail, read, same⟩ := decoded
    obtain ⟨shorter, even⟩ := ih read
    rw [← same, List.length_append, String.length_utf8EncodeChar, Utf8.size_cons]
    refine ⟨by omega, fun lengths => ?_⟩
    rw [List.mem_cons, not_or]
    exact ⟨fun escape => plain escape.symm, even (by omega)⟩

theorem percentDecode_plain (plain : '%' ∉ text) :
    percentDecode text = some (Utf8.encode text) := by
  induction text with
  | nil => rfl
  | cons c text ih =>
    rw [List.mem_cons, not_or] at plain
    rw [percentDecode_cons (fun same => plain.1 same.symm), ih plain.2, Option.map_some]
    rfl

end Uri
