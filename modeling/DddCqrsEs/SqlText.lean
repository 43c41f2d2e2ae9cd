import DddCqrsEs.Decimal
import DddCqrsEs.JsonEscapes

/- The literals that JSON values are interpolated as, and what PostgreSQL reads in them while
`standard_conforming_strings` is on. -/
namespace DddCqrsEs

open JsonTree (Value Token NumberFormat doubled)

/-- `str::replace` of each single quote by two. -/
def doubleQuotes (text : List Char) : List Char :=
  text.flatMap (fun c => if c = '\'' then ['\'', '\''] else [c])

/-- Backslashes are doubled before the single quotes. -/
def quoteLiteral (text : List Char) : List Char :=
  '\'' :: (doubleQuotes (doubled text) ++ ['\''])

section Format

variable {N : Type} (format : NumberFormat N)

/-- Writing a JSON value that is at hand does not fail. -/
def formatPgValue : Value N → List Char
  | .null => "NULL".toList
  | .bool b => if b then "true".toList else "false".toList
  | .number n => format.write n
  | .string s => quoteLiteral s
  | value => quoteLiteral (value.write format)

end Format

/-- A string constant after its opening quote: two quotes stand for one, and a backslash for
itself. The text it denotes, and what follows the closing quote. There is no zero character. -/
def readConstant : List Char → Option (List Char × List Char)
  | [] => none
  | '\'' :: '\'' :: rest => (readConstant rest).map (fun read => ('\'' :: read.1, read.2))
  | '\'' :: rest => some ([], rest)
  | c :: rest =>
    if c.toNat = 0 then none
    else (readConstant rest).map (fun read => (c :: read.1, read.2))

/-- A text that is one string constant. -/
def evaluateLiteral : List Char → Option (List Char)
  | '\'' :: rest =>
    match readConstant rest with
    | some (text, []) => some text
    | _ => none
  | _ => none

variable {text : List Char}

theorem readConstant_doubleQuotes (present : ∀ c ∈ text, c.toNat ≠ 0) {rest : List Char}
    (ends : ∀ later, rest ≠ '\'' :: later) :
    readConstant (doubleQuotes text ++ '\'' :: rest) = some (text, rest) := by
  induction text with
  | nil =>
    cases rest with
    | nil => rfl
    | cons c rest =>
      have other : c ≠ '\'' := fun same => ends rest (by rw [same])
      show readConstant ('\'' :: c :: rest) = _
      rw [readConstant]
      intro later same
      exact other (List.cons.inj same).1
  | cons c text ih =>
    rw [List.forall_mem_cons] at present
    rw [doubleQuotes, List.flatMap_cons]
    split
    · rename_i quote
      show readConstant ('\'' :: '\'' :: (doubleQuotes text ++ '\'' :: rest)) = _
      rw [readConstant, ih present.2, quote]
      rfl
    · rename_i other
      show readConstant (c :: (doubleQuotes text ++ '\'' :: rest)) = _
      rw [readConstant, if_neg present.1, ih present.2]
      · rfl
      · intro later same _
        exact other same
      · exact other

theorem readConstant_zero (zero : ∃ c ∈ text, c.toNat = 0) (rest : List Char) :
    readConstant (doubleQuotes text ++ rest) = none := by
  induction text with
  | nil =>
    obtain ⟨c, member, -⟩ := zero
    exact absurd member List.not_mem_nil
  | cons c text ih =>
    rw [doubleQuotes, List.flatMap_cons]
    split
    · rename_i quote
      have later : ∃ c ∈ text, c.toNat = 0 := by
        obtain ⟨d, member, null⟩ := zero
        rcases List.mem_cons.mp member with same | more
        · rw [same, quote] at null
          exact absurd null (by decide)
        · exact ⟨d, more, null⟩
      show readConstant ('\'' :: '\'' :: (doubleQuotes text ++ rest)) = _
      rw [readConstant, ih later]
      rfl
    · rename_i other
      show readConstant (c :: (doubleQuotes text ++ rest)) = _
      rw [readConstant]
      · split
        · rfl
        · rename_i present
          have later : ∃ c ∈ text, c.toNat = 0 := by
            obtain ⟨d, member, null⟩ := zero
            rcases List.mem_cons.mp member with same | more
            · exact absurd (same ▸ null) present
            · exact ⟨d, more, null⟩
          rw [ih later]
          rfl
      · intro later same _
        exact other same
      · exact other

theorem mem_doubled {c : Char} : c ∈ doubled text ↔ c ∈ text := by
  rw [doubled, List.mem_flatMap]
  constructor
  · rintro ⟨d, member, part⟩
    split at part
    · rename_i backslash
      simp only [List.mem_cons, List.not_mem_nil, or_false, or_self] at part
      rw [part, ← backslash]
      exact member
    · rw [List.mem_singleton] at part
      rw [part]
      exact member
  · intro member
    refine ⟨c, member, ?_⟩
    split
    · rename_i backslash
      simp [backslash]
    · exact List.mem_singleton_self c

/-- A literal denotes its text with every backslash twice. -/
theorem evaluateLiteral_quoteLiteral (present : ∀ c ∈ text, c.toNat ≠ 0) :
    evaluateLiteral (quoteLiteral text) = some (doubled text) := by
  have all : ∀ c ∈ doubled text, c.toNat ≠ 0 := fun c member => present c (mem_doubled.mp member)
  have ends : ∀ later, ([] : List Char) ≠ '\'' :: later := fun later same => by cases same
  have read := readConstant_doubleQuotes all ends
  rw [quoteLiteral, evaluateLiteral, read]

theorem evaluateLiteral_zero (zero : ∃ c ∈ text, c.toNat = 0) :
    evaluateLiteral (quoteLiteral text) = none := by
  obtain ⟨c, member, null⟩ := zero
  have lost := readConstant_zero ⟨c, mem_doubled.mpr member, null⟩ ['\'']
  rw [quoteLiteral, evaluateLiteral, lost]

variable {N : Type}

theorem escape_eq_self_iff (c : Char) :
    JsonString.escape c = [c] ↔ c ≠ '"' ∧ c ≠ '\\' ∧ 32 ≤ c.toNat := by
  constructor
  · intro same
    rcases JsonTree.escape_cases c with ⟨-, quote, backslash⟩ | ⟨is, short⟩ | ⟨is, short⟩ |
      ⟨rest, opens, nonempty, -⟩
    · refine ⟨quote, backslash, ?_⟩
      by_contra control
      have opens : ∃ rest, JsonString.escape c = '\\' :: rest := by
        unfold JsonString.escape
        split_ifs <;> simp
        omega
      obtain ⟨rest, opens⟩ := opens
      rw [same] at opens
      exact backslash (List.cons.inj opens).1
    · simp [short] at same
    · simp [short] at same
    · rw [same] at opens
      exact absurd (List.cons.inj opens).2.symm nonempty
  · rintro ⟨quote, backslash, printable⟩
    have other : ∀ d : Char, d.toNat < 32 → c ≠ d := by
      intro d control same
      rw [same] at printable
      omega
    rw [JsonString.escape, if_neg quote, if_neg backslash, if_neg (other _ (by decide)),
      if_neg (other _ (by decide)), if_neg (other _ (by decide)), if_neg (other _ (by decide)),
      if_neg (other _ (by decide)), if_neg (Nat.not_lt.mpr printable)]

/-- No text that JSON is written as has a zero character. -/
theorem write_present (format : NumberFormat N) (value : Value N) :
    ∀ c ∈ value.write format, c.toNat ≠ 0 := by
  intro c member
  obtain ⟨token, -, part⟩ := List.mem_flatMap.mp member
  clear member
  cases token with
  | string s =>
    have printable : ∀ d : Char, JsonString.escape d = [d] → d.toNat ≠ 0 := by
      intro d plain
      have large := ((escape_eq_self_iff d).mp plain).2.2
      omega
    rw [Token.text, JsonString.write, List.mem_cons, List.mem_append, List.mem_flatMap,
      List.mem_singleton] at part
    have marks : ∀ c ∈ ['"', '\\'], c.toNat ≠ 0 := by decide
    rcases part with quote | ⟨d, -, inside⟩ | quote
    · exact marks c (by simp [quote])
    · rcases JsonTree.escape_cases d with ⟨plain, -, -⟩ | ⟨-, short⟩ | ⟨-, short⟩ |
        ⟨rest, opens, -, others⟩
      · rw [plain, List.mem_singleton] at inside
        rw [inside]
        exact printable d plain
      · rw [short] at inside
        have subset : ['\\', '"'] ⊆ ['"', '\\'] := by decide
        exact marks c (subset inside)
      · rw [short] at inside
        have subset : ['\\', '\\'] ⊆ ['"', '\\'] := by decide
        exact marks c (subset inside)
      · rw [opens, List.mem_cons] at inside
        rcases inside with first | later
        · exact marks c (by simp [first])
        · exact printable c (others c later).2
    · exact marks c (by simp [quote])
  | number n =>
    have signs : ∀ c ∈ ['+', '-', '.', 'e', 'E'], c.toNat ≠ 0 := by decide
    rcases (format.shape n).2 c part with digit | sign
    · intro null
      have zero : c = Char.ofNat 0 := by rw [← Char.ofNat_toNat c, null]
      rw [zero] at digit
      exact absurd digit (by decide)
    · exact signs c sign
  | bool b =>
    cases b <;>
      · rw [Token.text] at part
        revert c
        decide
  | _ =>
    rw [Token.text] at part
    revert c
    decide

/-- A JSON value as it is held: its objects are ordered maps. -/
structure JsonParameter (N : Type) where
  value : Value N
  ordered : value.canonical = value

/-- The literal of a string denotes the string, and that of an array or object a text that is
read back as it. -/
def Denotes (format : NumberFormat N) (document : JsonParameter N) : Prop :=
  match document.value with
  | .string s => evaluateLiteral (formatPgValue format document.value) = some s
  | .array _ | .object _ =>
    ∃ text, evaluateLiteral (formatPgValue format document.value) = some text ∧
      JsonTree.read format text = some document.value
  | _ => True

/-- A string without backslashes and zero characters, or an array or object in whose strings
JSON has nothing to escape. -/
def NothingToEscape (document : JsonParameter N) : Prop :=
  match document.value with
  | .string s => '\\' ∉ s ∧ ∀ c ∈ s, c.toNat ≠ 0
  | .array _ | .object _ =>
    ∀ s ∈ document.value.strings, ∀ c ∈ s, c ≠ '"' ∧ c ≠ '\\' ∧ 32 ≤ c.toNat
  | _ => True

theorem container_denotes_iff (format : NumberFormat N) {value : Value N}
    (ordered : value.canonical = value) :
    (∃ text, evaluateLiteral (quoteLiteral (value.write format)) = some text ∧
        JsonTree.read format text = some value) ↔
      ∀ s ∈ value.strings, ∀ c ∈ s, c ≠ '"' ∧ c ≠ '\\' ∧ 32 ≤ c.toNat := by
  simp only [evaluateLiteral_quoteLiteral (write_present format value), Option.some.injEq,
    exists_eq_left', JsonTree.read_doubled_iff ordered, escape_eq_self_iff]

/-- A literal denotes its value exactly where no backslash is doubled in it. -/
theorem formatPgValue_exact (format : NumberFormat N) (document : JsonParameter N) :
    Denotes format document ↔ NothingToEscape document := by
  obtain ⟨value, ordered⟩ := document
  cases value with
  | null | bool _ | number _ => exact Iff.rfl
  | string s =>
    show evaluateLiteral (quoteLiteral s) = some s ↔ _
    by_cases zero : ∃ c ∈ s, c.toNat = 0
    · rw [evaluateLiteral_zero zero]
      obtain ⟨c, member, null⟩ := zero
      exact iff_of_false (fun same => by cases same) (fun plain => plain.2 c member null)
    · have present : ∀ c ∈ s, c.toNat ≠ 0 := fun c member null => zero ⟨c, member, null⟩
      rw [evaluateLiteral_quoteLiteral present, Option.some.injEq,
        JsonTree.doubled_eq_self_iff]
      exact ⟨fun plain => ⟨plain, present⟩, fun plain => plain.1⟩
  | array items => exact container_denotes_iff format ordered
  | object members => exact container_denotes_iff format ordered

/-- Integers as JSON writes them. -/
def integerFormat : NumberFormat Int where
  write := Decimal.write
  read := Decimal.signed
  read_write := Decimal.signed_write
  shape n := by
    have digits : ∀ number, ∀ c ∈ Nat.toDigits 10 number, c.isDigit = true :=
      fun number => List.all_eq_true.mp (Decimal.toDigits_all number)
    cases n with
    | ofNat number => exact ⟨Nat.toDigits_ne_nil, fun c member => Or.inl (digits _ c member)⟩
    | negSucc number =>
      refine ⟨List.cons_ne_nil _ _, ?_⟩
      intro c member
      rcases List.mem_cons.mp member with sign | digit
      · exact Or.inr (by simp [sign])
      · exact Or.inl (digits _ c digit)

/-- A path with one backslash is read back with two. -/
theorem backslash_doubled :
    ¬ Denotes integerFormat ⟨.string "C:\\events".toList, rfl⟩ ∧
      evaluateLiteral (formatPgValue integerFormat (.string "C:\\events".toList)) =
        some "C:\\\\events".toList ∧
      evaluateLiteral (formatPgValue integerFormat
          (.object (.cons "k".toList (.string "a\"b".toList) .nil))) =
        some "\x7b\"k\":\"a\\\\\"b\"\x7d".toList ∧
      JsonTree.read integerFormat "\x7b\"k\":\"a\\\\\"b\"\x7d".toList = none := by
  have path : evaluateLiteral (formatPgValue integerFormat (.string "C:\\events".toList)) =
      some "C:\\\\events".toList := by decide
  refine ⟨?_, path, by decide, by decide⟩
  intro denotes
  have same : some "C:\\\\events".toList = some "C:\\events".toList := path.symm.trans denotes
  exact absurd same (by decide)

end DddCqrsEs
