import DddCqrsEs.FullstackApp.Base

/- Profiles of users, and what is checked of an update before it touches the store. -/
namespace DddCqrsEs.FullstackApp

def maxAvatarDataUrlBytes : Nat := 350000

def maxNameLen : Nat := 60

def maxDisplayNameLen : Nat := 80

def usernameMin : Nat := 3

def usernameMax : Nat := 30

structure StoredProfile where
  userId : String
  firstName : String
  lastName : String
  displayName : String
  username : String
  isPublic : Bool
  avatarDataUrl : Option String
  deriving DecidableEq

structure ProfileView where
  email : Option String
  firstName : String
  lastName : String
  displayName : String
  username : String
  isPublic : Bool
  avatarDataUrl : Option String
  publicPath : Option String
  deriving DecidableEq

structure PublicProfileView where
  username : String
  displayName : String
  firstName : String
  lastName : String
  avatarDataUrl : Option String
  deriving DecidableEq

structure ProfileUpdateRequest where
  firstName : String
  lastName : String
  displayName : String
  username : String
  isPublic : Bool
  /-- An empty text clears the avatar, `none` leaves it. -/
  avatarDataUrl : Option String
  deriving DecidableEq

namespace StoredProfile

def empty (userId : String) : StoredProfile := ⟨userId, "", "", "", "", false, none⟩

def toView (profile : StoredProfile) (email : Option String) : ProfileView where
  email := email
  firstName := profile.firstName
  lastName := profile.lastName
  displayName := profile.displayName
  username := profile.username
  isPublic := profile.isPublic
  avatarDataUrl := profile.avatarDataUrl
  publicPath := if profile.username = "" then none else some ("/u/" ++ profile.username)

def toPublicView (profile : StoredProfile) : PublicProfileView where
  username := profile.username
  displayName := profile.displayName
  firstName := profile.firstName
  lastName := profile.lastName
  avatarDataUrl := profile.avatarDataUrl

end StoredProfile

/-- `str::to_ascii_lowercase` -/
def toAsciiLowercase (text : String) : String :=
  String.ofList (text.toList.map Char.toLower)

/-- `char::is_control` -/
def isControl (ch : Char) : Bool := ch.toNat < 32 || (127 ≤ ch.toNat && ch.toNat < 160)

def profileUserKey (userId : String) : String := "app_profile:user:" ++ userId

def profileHandleKey (username : String) : String :=
  "app_profile:handle:" ++ toAsciiLowercase username

def normalizeName (label value : String) (max : Nat) : Except AuthStackError String :=
  let trimmed := trim value
  if max < trimmed.toList.length then
    .error (.validation (label ++ " must be at most " ++ toString max ++ " characters"))
  else if trimmed.toList.any isControl then
    .error (.validation (label ++ " contains invalid characters"))
  else .ok trimmed

def reservedUsernames : List String :=
  ["admin", "api", "account", "auth", "dashboard", "login", "logout", "register", "settings",
    "support", "system", "me", "null", "undefined", "u", "www", "root", "help", "about"]

/-- `is_ascii_lowercase`, `is_ascii_digit` or an underscore -/
def isUsernameChar (ch : Char) : Bool :=
  ('a' ≤ ch && ch ≤ 'z') || ('0' ≤ ch && ch ≤ '9') || ch == '_'

def normalizeUsername (value : String) : Except AuthStackError String :=
  let trimmed := trim value
  if trimmed = "" then .ok ""
  else
    let lower := toAsciiLowercase trimmed
    let len := lower.toList.length
    if len < usernameMin ∨ usernameMax < len then
      .error (.validation ("username must be " ++ toString usernameMin ++ "–" ++
        toString usernameMax ++ " characters"))
    else if ¬ lower.toList.all isUsernameChar then
      .error (.validation "username may only use letters, numbers, and underscores")
    else if lower.toList.head? = some '_' ∨ lower.toList.getLast? = some '_' then
      .error (.validation "username cannot start or end with an underscore")
    else if lower ∈ reservedUsernames then .error (.validation "that username is reserved")
    else .ok lower

def avatarPrefixes : List String :=
  ["data:image/png;base64,", "data:image/jpeg;base64,", "data:image/jpg;base64,",
    "data:image/webp;base64,", "data:image/gif;base64,"]

def validateAvatarDataUrl (value : String) : Except AuthStackError (Option String) :=
  let trimmed := trim value
  if trimmed = "" then .ok none
  else if maxAvatarDataUrlBytes < trimmed.utf8ByteSize then
    .error (.validation "avatar is too large (use an image under ~250 KB)")
  else if avatarPrefixes.any fun start => start.toList.isPrefixOf trimmed.toList then
    .ok (some trimmed)
  else .error (.validation "avatar must be a PNG, JPEG, WebP, or GIF data URL")

/-- A username as the check leaves it. -/
def NormalUsername (username : String) : Prop := normalizeUsername username = .ok username

theorem usernameChar_code {ch : Char} (allowed : isUsernameChar ch) :
    97 ≤ ch.toNat ∧ ch.toNat ≤ 122 ∨ 48 ≤ ch.toNat ∧ ch.toNat ≤ 57 ∨ ch.toNat = 95 := by
  simp only [isUsernameChar, Bool.or_eq_true, Bool.and_eq_true, decide_eq_true_eq, beq_iff_eq,
    Char.le_def, UInt32.le_iff_toNat_le] at allowed
  rcases allowed with (letter | digit) | underscore
  · exact .inl letter
  · exact .inr (.inl digit)
  · rw [underscore]
    exact .inr (.inr rfl)

theorem toLower_usernameChar {ch : Char} (allowed : isUsernameChar ch) : ch.toLower = ch := by
  have code := usernameChar_code allowed
  refine dif_neg ?_
  intro upper
  simp only [ge_iff_le, UInt32.le_iff_toNat_le] at upper
  have low : 65 ≤ ch.toNat := upper.1
  have high : ch.toNat ≤ 90 := upper.2
  omega

theorem isWhitespace_usernameChar {ch : Char} (allowed : isUsernameChar ch) :
    isWhitespace ch = false := by
  have code := usernameChar_code allowed
  simp only [isWhitespace, Bool.or_eq_false_iff, Bool.and_eq_false_iff, decide_eq_false_iff_not]
  omega

theorem dropWhile_usernameChars {chars : List Char} (allowed : chars.all isUsernameChar) :
    chars.dropWhile isWhitespace = chars := by
  cases chars with
  | nil => rfl
  | cons first rest =>
    rw [List.all_cons, Bool.and_eq_true] at allowed
    rw [List.dropWhile_cons, isWhitespace_usernameChar allowed.1, if_neg (by simp)]

theorem trim_usernameChars {text : String} (allowed : text.toList.all isUsernameChar) :
    trim text = text := by
  have reversed : text.toList.reverse.all isUsernameChar := by
    rw [List.all_reverse]
    exact allowed
  rw [trim, dropWhile_usernameChars allowed, dropWhile_usernameChars reversed,
    List.reverse_reverse, String.ofList_toList]

theorem toAsciiLowercase_usernameChars {text : String}
    (allowed : text.toList.all isUsernameChar) : toAsciiLowercase text = text := by
  have same : text.toList.map Char.toLower = text.toList := by
    calc text.toList.map Char.toLower = text.toList.map id := by
          apply List.map_congr_left
          intro ch member
          exact toLower_usernameChar (List.all_eq_true.mp allowed ch member)
      _ = text.toList := List.map_id _
  rw [toAsciiLowercase, same, String.ofList_toList]

theorem normalizeUsername_ok {value username : String}
    (normalized : normalizeUsername value = .ok username) :
    username.toList.all isUsernameChar ∧ (username = "" ∨
      ¬ (username.toList.length < usernameMin ∨ usernameMax < username.toList.length) ∧
        ¬ (username.toList.head? = some '_' ∨ username.toList.getLast? = some '_') ∧
        username ∉ reservedUsernames) := by
  unfold normalizeUsername at normalized
  dsimp only at normalized
  split at normalized
  · cases normalized
    exact ⟨rfl, Or.inl rfl⟩
  split at normalized
  · cases normalized
  rename_i fits
  split at normalized
  · cases normalized
  rename_i allowed
  split at normalized
  · cases normalized
  rename_i plain
  split at normalized
  · cases normalized
  rename_i free
  rw [Except.ok.injEq] at normalized
  rw [← normalized]
  have chars := not_not.mp allowed
  refine ⟨chars, Or.inr ⟨?_, ?_, ?_⟩⟩
  · exact fits
  · exact plain
  · exact free

/-- The check leaves its own results as they are. -/
theorem normalizeUsername_normal {value username : String}
    (normalized : normalizeUsername value = .ok username) : NormalUsername username := by
  obtain ⟨allowed, rest⟩ := normalizeUsername_ok normalized
  unfold NormalUsername normalizeUsername
  dsimp only
  rw [trim_usernameChars allowed, toAsciiLowercase_usernameChars allowed]
  by_cases empty : username = ""
  · rw [if_pos empty, empty]
  · obtain ⟨fits, plain, free⟩ := rest.resolve_left empty
    rw [if_neg empty, if_neg fits, if_neg (not_not.mpr allowed), if_neg plain, if_neg free]

theorem profileUserKey_inj {first second : String}
    (same : profileUserKey first = profileUserKey second) : first = second := by
  exact (String.append_right_inj _).mp same

/-- Usernames that passed the check share a handle only if they are the same. -/
theorem profileHandleKey_inj {first second : String} (normal : NormalUsername first)
    (other : NormalUsername second) (same : profileHandleKey first = profileHandleKey second) :
    first = second := by
  have left := toAsciiLowercase_usernameChars (normalizeUsername_ok normal).1
  have right := toAsciiLowercase_usernameChars (normalizeUsername_ok other).1
  unfold profileHandleKey at same
  rw [left, right] at same
  exact (String.append_right_inj _).mp same

end DddCqrsEs.FullstackApp
