import Mathlib.Data.List.Basic

/- JSON strings as texts: the writer that escapes what it must, and the reader. Nothing here
names an application. -/
namespace JsonString

def hexDigit (d : Nat) : Char := if d < 10 then Char.ofNat (48 + d) else Char.ofNat (87 + d)

def hexValue (c : Char) : Option Nat :=
  if '0' ≤ c ∧ c ≤ '9' then some (c.toNat - 48)
  else if 'a' ≤ c ∧ c ≤ 'f' then some (c.toNat - 87)
  else if 'A' ≤ c ∧ c ≤ 'F' then some (c.toNat - 55)
  else none

/-- A character inside the quotes. -/
def escape (c : Char) : List Char :=
  if c = '"' then ['\\', '"']
  else if c = '\\' then ['\\', '\\']
  else if c = Char.ofNat 8 then ['\\', 'b']
  else if c = '\t' then ['\\', 't']
  else if c = '\n' then ['\\', 'n']
  else if c = Char.ofNat 12 then ['\\', 'f']
  else if c = '\r' then ['\\', 'r']
  else if c.toNat < 32 then ['\\', 'u', '0', '0', hexDigit (c.toNat / 16), hexDigit (c.toNat % 16)]
  else [c]

def write (s : List Char) : List Char := '"' :: (s.flatMap escape ++ ['"'])

/-- The character a short escape stands for. -/
def unescape (c : Char) : Option Char :=
  if c = '"' ∨ c = '\\' ∨ c = '/' then some c
  else if c = 'b' then some (Char.ofNat 8)
  else if c = 't' then some '\t'
  else if c = 'n' then some '\n'
  else if c = 'f' then some (Char.ofNat 12)
  else if c = 'r' then some '\r'
  else none

/-- Where the reader stands inside the quotes. -/
inductive Mode where
  | plain
  /-- After a backslash. -/
  | escape
  /-- Hexadecimal digits still to come, the value of those read, and the leading surrogate
  that waits for this unit. -/
  | hex (left value : Nat) (leading : Option Nat)
  | backslash (leading : Nat)
  | unit (leading : Nat)
  deriving DecidableEq, Repr

/-- A complete UTF-16 unit: surrogates come in pairs. -/
def readUnit (value : Nat) : Option Nat → Option (Option Char × Mode)
  | none =>
    if 0xDC00 ≤ value ∧ value ≤ 0xDFFF then none
    else if 0xD800 ≤ value ∧ value ≤ 0xDBFF then some (none, .backslash value)
    else some (some (Char.ofNat value), .plain)
  | some leading =>
    if 0xDC00 ≤ value ∧ value ≤ 0xDFFF then
      some (some (Char.ofNat ((leading - 0xD800) * 1024 + (value - 0xDC00) + 0x10000)), .plain)
    else none

/-- What one character before the closing quote does: the character it completes, if any,
and where the reader stands then. -/
def next : Mode → Char → Option (Option Char × Mode)
  | .plain, c =>
    if c = '\\' then some (none, .escape)
    else if c.toNat < 32 then none
    else some (some c, .plain)
  | .escape, c =>
    if c = 'u' then some (none, .hex 4 0 none)
    else (unescape c).map (fun decoded => (some decoded, .plain))
  | .hex left value leading, c =>
    (hexValue c).bind (fun digit =>
      if left = 1 then readUnit (value * 16 + digit) leading
      else some (none, .hex (left - 1) (value * 16 + digit) leading))
  | .backslash leading, c => if c = '\\' then some (none, .unit leading) else none
  | .unit leading, c => if c = 'u' then some (none, .hex 4 0 (some leading)) else none

/-- Up to the closing quote: the decoded characters and what follows the quote. -/
def readBody : Mode → List Char → Option (List Char × List Char)
  | _, [] => none
  | mode, c :: rest =>
    if mode = .plain ∧ c = '"' then some ([], rest)
    else
      match next mode c with
      | none => none
      | some (decoded, mode) =>
        (readBody mode rest).map (fun read => (decoded.toList ++ read.1, read.2))

def isWhitespace (c : Char) : Bool := c = ' ' || c = '\n' || c = '\t' || c = '\r'

/-- A text that is one JSON string, with white space around it. -/
def read (text : List Char) : Option (List Char) :=
  match text.dropWhile isWhitespace with
  | '"' :: rest =>
    match readBody .plain rest with
    | some (s, after) => if after.dropWhile isWhitespace = [] then some s else none
    | none => none
  | _ => none

theorem hexValue_hexDigit : ∀ d < 16, hexValue (hexDigit d) = some d := by decide

theorem readBody_step {mode after : Mode} {c : Char} {decoded : Option Char} (rest : List Char)
    (inside : ¬ (mode = .plain ∧ c = '"')) (stepped : next mode c = some (decoded, after)) :
    readBody mode (c :: rest) =
      (readBody after rest).map (fun read => (decoded.toList ++ read.1, read.2)) := by
  rw [readBody, if_neg inside, stepped]

theorem readBody_short {c decoded : Char} (rest : List Char) (notUnit : c ≠ 'u')
    (short : unescape c = some decoded) :
    readBody .plain ('\\' :: c :: rest) =
      (readBody .plain rest).map (fun read => (decoded :: read.1, read.2)) := by
  have second : next .escape c = some (some decoded, .plain) := by
    rw [next, if_neg notUnit, short]
    rfl
  rw [readBody_step (c :: rest) (by decide) (show next .plain '\\' = some (none, .escape) from rfl),
    readBody_step rest (by simp) second, Option.map_map]
  rfl

theorem readBody_hex {high low : Nat} (rest : List Char) (highDigit : high < 16)
    (lowDigit : low < 16) :
    readBody .plain ('\\' :: 'u' :: '0' :: '0' :: hexDigit high :: hexDigit low :: rest) =
      (readBody .plain rest).map (fun read => (Char.ofNat (high * 16 + low) :: read.1, read.2)) := by
  have third : next (.hex 2 0 none) (hexDigit high) = some (none, .hex 1 high none) := by
    simp [next, hexValue_hexDigit high highDigit]
  have fourth : next (.hex 1 high none) (hexDigit low) =
      some (some (Char.ofNat (high * 16 + low)), .plain) := by
    have small : ¬ (0xDC00 ≤ high * 16 + low ∧ high * 16 + low ≤ 0xDFFF) := by omega
    have plain : ¬ (0xD800 ≤ high * 16 + low ∧ high * 16 + low ≤ 0xDBFF) := by omega
    simp only [next, hexValue_hexDigit low lowDigit, Option.bind_some, if_true, readUnit, small,
      plain, if_false]
  rw [readBody_step _ (by decide) (show next .plain '\\' = some (none, .escape) from rfl),
    readBody_step _ (by decide) (show next .escape 'u' = some (none, .hex 4 0 none) from rfl),
    readBody_step _ (by decide) (show next (.hex 4 0 none) '0' = some (none, .hex 3 0 none) from rfl),
    readBody_step _ (by decide) (show next (.hex 3 0 none) '0' = some (none, .hex 2 0 none) from rfl),
    readBody_step _ (by simp) third, readBody_step _ (by simp) fourth]
  simp only [Option.map_map]
  rfl

theorem readBody_escape (c : Char) (rest : List Char) :
    readBody .plain (escape c ++ rest) =
      (readBody .plain rest).map (fun read => (c :: read.1, read.2)) := by
  unfold escape
  split
  · rename_i same
    subst same
    exact readBody_short rest (by decide) rfl
  split
  · rename_i same
    subst same
    exact readBody_short rest (by decide) rfl
  split
  · rename_i same
    subst same
    exact readBody_short rest (by decide) rfl
  split
  · rename_i same
    subst same
    exact readBody_short rest (by decide) rfl
  split
  · rename_i same
    subst same
    exact readBody_short rest (by decide) rfl
  split
  · rename_i same
    subst same
    exact readBody_short rest (by decide) rfl
  split
  · rename_i same
    subst same
    exact readBody_short rest (by decide) rfl
  split
  · rename_i control
    have whole : c.toNat / 16 * 16 + c.toNat % 16 = c.toNat := Nat.div_add_mod' c.toNat 16
    have high : c.toNat / 16 < 16 := by omega
    have read := readBody_hex rest high (Nat.mod_lt c.toNat (show 0 < 16 by decide))
    rw [whole, Char.ofNat_toNat] at read
    exact read
  · rename_i quote backslash _ _ _ _ _ printable
    have stepped : next .plain c = some (some c, .plain) := by
      rw [next, if_neg backslash, if_neg printable]
    exact readBody_step rest (fun closing => quote closing.2) stepped

theorem readBody_write (s rest : List Char) :
    readBody .plain (s.flatMap escape ++ '"' :: rest) = some (s, rest) := by
  induction s with
  | nil => rfl
  | cons c s ih =>
    rw [List.flatMap_cons, List.append_assoc, readBody_escape, ih]
    rfl

/-- Reading back what was written. -/
theorem read_write (s : List Char) : read (write s) = some s := by
  have start : (write s).dropWhile isWhitespace = '"' :: (s.flatMap escape ++ ['"']) := rfl
  rw [read, start]
  show (match readBody .plain (s.flatMap escape ++ ['"']) with
    | some (s, after) => if after.dropWhile isWhitespace = [] then some s else none
    | none => none) = some s
  rw [readBody_write]
  rfl

/-- Every decoded character takes at least one of the text, and the closing quote one more. -/
theorem readBody_length {mode : Mode} {text s after : List Char}
    (found : readBody mode text = some (s, after)) : s.length + after.length < text.length := by
  induction text generalizing mode s after with
  | nil => cases found
  | cons c rest ih =>
    rw [readBody] at found
    split at found
    · cases found
      simp
    · split at found
      · cases found
      · rename_i decoded mode _
        obtain ⟨⟨later, remaining⟩, inner, same⟩ := Option.map_eq_some_iff.mp found
        cases same
        have shorter := ih inner
        have one : decoded.toList.length ≤ 1 := by cases decoded <;> simp
        show (decoded.toList ++ later).length + remaining.length < (c :: rest).length
        rw [List.length_append, List.length_cons]
        omega

/-- A JSON string is shorter than its text. -/
theorem read_length {text s : List Char} (found : read text = some s) :
    s.length < text.length := by
  have dropped : (text.dropWhile isWhitespace).length ≤ text.length :=
    (List.dropWhile_sublist _).length_le
  unfold read at found
  split at found
  · rename_i rest start
    rw [start, List.length_cons] at dropped
    split at found
    · rename_i inner after body
      have shorter := readBody_length body
      split at found
      · cases found
        omega
      · cases found
    · cases found
  · cases found

end JsonString
