import DddCqrsEs.JsonString

/- JSON objects whose members are natural numbers, in the compact form: the writer and the
reader. Nothing here names an application. -/
namespace JsonObject

abbrev Member := List Char × Nat

def writeMember (member : Member) : List Char :=
  JsonString.write member.1 ++ ':' :: Nat.toDigits 10 member.2

/-- The members with commas between them, up to the closing brace. -/
@[grind =]
def writeMembers : List Member → List Char
  | [] => ['\x7d']
  | [member] => writeMember member ++ ['\x7d']
  | member :: rest => writeMember member ++ ',' :: writeMembers rest

def write (members : List Member) : List Char := '\x7b' :: writeMembers members

/-- A number, and what follows its digits. -/
def readNumber (text : List Char) : Option (Nat × List Char) :=
  match text.takeWhile Char.isDigit with
  | [] => none
  | digits => some (Nat.ofDigitChars 10 digits 0, text.dropWhile Char.isDigit)

def readMember : List Char → Option (Member × List Char)
  | '"' :: text =>
    match JsonString.readBody .plain text with
    | some (name, ':' :: rest) =>
      (readNumber rest).map (fun read => ((name, read.1), read.2))
    | _ => none
  | _ => none

/-- The members up to the closing brace, which ends the text. The fuel bounds their number. -/
def readMembers : Nat → List Char → Option (List Member)
  | 0, _ => none
  | fuel + 1, text =>
    match readMember text with
    | some (member, ['\x7d']) => some [member]
    | some (member, ',' :: rest) => (readMembers fuel rest).map (member :: ·)
    | _ => none

def read : List Char → Option (List Member)
  | ['\x7b', '\x7d'] => some []
  | '\x7b' :: text => readMembers text.length text
  | _ => none

theorem readNumber_toDigits (number : Nat) {c : Char} (ends : c.isDigit = false)
    (rest : List Char) : readNumber (Nat.toDigits 10 number ++ c :: rest) = some (number, c :: rest) := by
  have digits : ∀ d ∈ Nat.toDigits 10 number, d.isDigit = true :=
    fun d member => Nat.isDigit_of_mem_toDigits (by decide) (by decide) member
  have taken : (Nat.toDigits 10 number ++ c :: rest).takeWhile Char.isDigit =
      Nat.toDigits 10 number := by
    rw [List.takeWhile_append_of_pos digits]
    simp [ends]
  have dropped : (Nat.toDigits 10 number ++ c :: rest).dropWhile Char.isDigit = c :: rest := by
    rw [List.dropWhile_append_of_pos digits]
    simp [ends]
  rw [readNumber, taken, dropped]
  cases split : Nat.toDigits 10 number with
  | nil => exact absurd split Nat.toDigits_ne_nil
  | cons first others =>
    show some (Nat.ofDigitChars 10 (first :: others) 0, c :: rest) = _
    rw [← split, Nat.ofDigitChars_ten_toDigits]

theorem readMember_writeMember (member : Member) {c : Char} (ends : c.isDigit = false)
    (rest : List Char) :
    readMember (writeMember member ++ c :: rest) = some (member, c :: rest) := by
  have text : writeMember member ++ c :: rest = '"' :: (member.1.flatMap JsonString.escape ++
      '"' :: (':' :: (Nat.toDigits 10 member.2 ++ c :: rest))) := by
    simp [writeMember, JsonString.write]
  have number := readNumber_toDigits member.2 ends rest
  simp only [text, readMember, JsonString.readBody_write, number, Option.map_some]

theorem readMembers_writeMembers {members : List Member} {fuel : Nat}
    (enough : members.length ≤ fuel) (nonempty : members ≠ []) :
    readMembers fuel (writeMembers members) = some members := by
  induction members generalizing fuel with
  | nil => exact absurd rfl nonempty
  | cons member rest ih =>
    cases fuel with
    | zero => simp at enough
    | succ fuel =>
      cases rest with
      | nil =>
        have first := readMember_writeMember member (c := '\x7d') (by decide) []
        simp only [writeMembers, readMembers, first]
      | cons next others =>
        have later : readMembers fuel (writeMembers (next :: others)) =
            some (next :: others) := ih (by simpa using enough) (by simp)
        have first := readMember_writeMember member (c := ',') (by decide)
          (writeMembers (next :: others))
        simp only [writeMembers, readMembers, first, later, Option.map_some]

theorem length_le_writeMembers (members : List Member) :
    members.length ≤ (writeMembers members).length := by
  induction members with
  | nil => simp
  | cons member rest ih =>
    cases rest with
    | nil => simp [writeMembers]
    | cons next others =>
      simp only [writeMembers, List.length_append, List.length_cons] at ih ⊢
      omega

/-- Reading back what was written. -/
theorem read_write (members : List Member) : read (write members) = some members := by
  cases members with
  | nil => rfl
  | cons member rest =>
    have enough := length_le_writeMembers (member :: rest)
    have back := readMembers_writeMembers enough (by simp)
    have opening : ∃ text, writeMembers (member :: rest) = '"' :: text := by
      cases rest with
      | nil => exact ⟨_, rfl⟩
      | cons next others => exact ⟨_, rfl⟩
    obtain ⟨text, starts⟩ := opening
    rw [write, starts, read, ← starts]
    · exact back
    · simp

end JsonObject
