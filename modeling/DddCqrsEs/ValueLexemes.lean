import DddCqrsEs.Interpolation

/- The literal of each value is read as the lexemes that stand for it. -/
namespace DddCqrsEs

open SqlLexer Cuts
open JsonTree (Value NumberFormat doubled)

def DigitText (text : List Char) : Prop := text ≠ [] ∧ ∀ c ∈ text, c.isDigit = true

def IsFraction (text : List Char) : Prop :=
  text = [] ∨ ∃ digits, text = '.' :: digits ∧ DigitText digits

def IsJsonExponent (text : List Char) : Prop :=
  text = [] ∨ ∃ mark sign digits, text = mark :: (sign ++ digits) ∧ isMark mark = true ∧
    (sign = [] ∨ ∃ c, sign = [c] ∧ isSign c = true) ∧ DigitText digits

def IsUnsigned (text : List Char) : Prop :=
  ∃ whole fraction exponent, text = whole ++ (fraction ++ exponent) ∧ DigitText whole ∧
    IsFraction fraction ∧ IsJsonExponent exponent

def IsJsonNumber (text : List Char) : Prop :=
  IsUnsigned text ∨ ∃ number, text = '-' :: number ∧ IsUnsigned number

/-- A format that writes numbers as JSON does. -/
structure JsonNumbers (N : Type) extends NumberFormat N where
  grammar : ∀ n, IsJsonNumber (write n)

theorem isUnsigned_toDigits (number : Nat) : IsUnsigned (Nat.toDigits 10 number) := by
  refine ⟨Nat.toDigits 10 number, [], [], by simp, ?_, Or.inl rfl, Or.inl rfl⟩
  exact ⟨Nat.toDigits_ne_nil, List.all_eq_true.mp (Decimal.toDigits_all number)⟩

def integerNumbers : JsonNumbers Int where
  toNumberFormat := integerFormat
  grammar n := by
    cases n with
    | ofNat number => exact Or.inl (isUnsigned_toDigits number)
    | negSucc number => exact Or.inr ⟨_, rfl, isUnsigned_toDigits (number + 1)⟩

theorem isMark_isLetter {c : Char} (mark : isMark c = true) :
    isLetter c = true ∧ c.isDigit = false := by
  rw [isMark, Bool.or_eq_true, beq_iff_eq, beq_iff_eq] at mark
  rcases mark with same | same
  · rw [same]
    decide
  · rw [same]
    decide

variable {text : List Char}

theorem DigitText.valid (digits : DigitText text) : isDigits Char.isDigit text = true := by
  obtain ⟨nonempty, all⟩ := digits
  induction text using isDigits.induct with
  | case1 => exact absurd rfl nonempty
  | case2 c => exact all c List.mem_cons_self
  | case3 c rest ih => exact absurd (all '_' (by simp)) (by decide)
  | case4 c rest single under ih =>
    rw [isDigits]
    · rw [all c List.mem_cons_self, Bool.true_and]
      apply ih
      · exact single
      · exact fun d member => all d (List.mem_cons_of_mem _ member)
    · exact single
    · exact under

theorem DigitText.letters (digits : DigitText text) : ∀ c ∈ text, isLetter c = true :=
  fun c member => isLetter_of_isDigit (digits.2 c member)

theorem DigitText.plain (digits : DigitText text) : text.all isPlain = true := by
  rw [List.all_eq_true]
  intro c member
  rw [isPlain, digits.2 c member, Bool.true_or]

theorem DigitText.dot_free (digits : DigitText text) : '.' ∉ text := by
  intro member
  exact absurd (digits.2 '.' member) (by decide)

section Numbers

variable {whole fraction : List Char}

theorem shape_mantissa (digits : DigitText whole) (part : IsFraction fraction) {letters : List Char}
    (all : ∀ c ∈ letters, isLetter c = true) : Shape (whole ++ (fraction ++ letters)) := by
  rcases part with none | ⟨more, same, inner⟩
  · left
    rw [none, List.nil_append]
    intro c member
    rcases List.mem_append.mp member with first | last
    · exact digits.letters c first
    · exact all c last
  · right
    refine ⟨whole, more ++ letters, by rw [same, List.cons_append], digits.plain, ?_⟩
    intro c member
    rcases List.mem_append.mp member with first | last
    · exact inner.letters c first
    · exact all c last

theorem isMantissa_of_parts (digits : DigitText whole) (part : IsFraction fraction) :
    isMantissa (whole ++ fraction) = true := by
  rcases part with none | ⟨more, same, inner⟩
  · rw [none, List.append_nil, isMantissa, cutFirst_eq_none.mpr digits.dot_free]
    exact digits.valid
  · rw [same, isMantissa, cutFirst_append digits.dot_free]
    simp [digits.valid, inner.valid]

theorem mantissa_not_mark (digits : DigitText whole) (part : IsFraction fraction) :
    ∀ c ∈ whole ++ fraction, (!isMark c) = true := by
  have digitNoMark : ∀ c : Char, c.isDigit = true → (!isMark c) = true := by
    intro c digit
    rw [Bool.not_eq_true', Bool.eq_false_iff]
    intro mark
    rw [(isMark_isLetter mark).2] at digit
    cases digit
  intro c member
  rcases List.mem_append.mp member with first | later
  · exact digitNoMark c (digits.2 c first)
  · rcases part with none | ⟨more, same, inner⟩
    · rw [none] at later
      cases later
    · rw [same] at later
      rcases List.mem_cons.mp later with dot | digit
      · rw [dot]
        decide
      · exact digitNoMark c (inner.2 c digit)

variable {exponent : List Char}

/-- The exponent begins at the first mark. -/
theorem exponent_cut (digits : DigitText whole) (part : IsFraction fraction)
    (marks : ∀ c ∈ exponent.head?, (!isMark c) = false) :
    (whole ++ (fraction ++ exponent)).takeWhile (!isMark ·) = whole ++ fraction ∧
      (whole ++ (fraction ++ exponent)).dropWhile (!isMark ·) = exponent := by
  have free := mantissa_not_mark digits part
  rw [← List.append_assoc]
  exact ⟨takeWhile_append_eq free marks, dropWhile_append_eq_iff.mpr ⟨free, marks⟩⟩

theorem isNumber_of_parts (digits : DigitText whole) (part : IsFraction fraction)
    (power : IsJsonExponent exponent) : isNumber (whole ++ (fraction ++ exponent)) = true := by
  have marks : ∀ c ∈ exponent.head?, (!isMark c) = false := by
    intro c first
    rcases power with none | ⟨mark, sign, later, same, marked, -, -⟩
    · rw [none] at first
      cases first
    · rw [same, List.head?_cons, Option.mem_def, Option.some_inj] at first
      rw [← first, marked]
      rfl
  obtain ⟨taken, dropped⟩ := exponent_cut digits part marks
  have valid : isExponent exponent = true := by
    rcases power with none | ⟨mark, sign, later, same, marked, signed, inner⟩
    · rw [none]
      rfl
    · rw [same, isExponent, marked, Bool.true_and]
      rcases signed with none | ⟨c, single, isSigned⟩
      · rw [none, List.nil_append, if_neg]
        · exact inner.valid
        · rw [Option.any_eq_true]
          rintro ⟨c, first, isSigned⟩
          have digit := inner.2 c (List.mem_of_mem_head? first)
          have letter := isLetter_of_isDigit digit
          rw [(not_letter_of_isSign isSigned).1] at letter
          cases letter
      · rw [single, List.singleton_append, if_pos]
        · exact inner.valid
        · exact isSigned
  rw [isNumber, taken, dropped, isMantissa_of_parts digits part, valid]
  simp

theorem isRadix_of_ne {c d : Char} (other : d ∉ ['x', 'X', 'o', 'O', 'b', 'B'])
    (rest : List Char) : isRadix (c :: d :: rest) = false := by
  simp only [List.mem_cons, List.not_mem_nil, or_false, not_or] at other
  rw [isRadix.eq_def]
  split
  · rename_i mark digits same
    have second : d = mark := by
      injection same with _ tails
      exact (List.cons.inj tails).1
    rw [← second]
    simp [other]
  · rfl

/-- The second letter of a decimal number is no letter of a radix. -/
theorem not_radix (digits : DigitText whole) (part : IsFraction fraction) {mark : Char}
    (marked : isMark mark = true) : isRadix (whole ++ (fraction ++ [mark])) = false := by
  have radixLetter : ∀ d : Char, d.isDigit = true ∨ d = '.' ∨ isMark d = true →
      d ∉ ['x', 'X', 'o', 'O', 'b', 'B'] := by
    intro d kinds among
    simp only [List.mem_cons, List.not_mem_nil, or_false] at among
    rcases among with same | same | same | same | same | same
    all_goals
      rw [same] at kinds
      exact absurd kinds (by decide)
  cases whole with
  | nil => exact absurd rfl digits.1
  | cons c more =>
    cases more with
    | cons d more => exact isRadix_of_ne (radixLetter d (Or.inl (digits.2 d (by simp)))) _
    | nil =>
      rcases part with none | ⟨later, same, inner⟩
      · rw [none]
        exact isRadix_of_ne (radixLetter mark (Or.inr (Or.inr marked))) _
      · rw [same]
        exact isRadix_of_ne (radixLetter '.' (Or.inr (Or.inl rfl))) _

/-- A mark without its exponent is no number. -/
theorem isNumber_mark (digits : DigitText whole) (part : IsFraction fraction) {mark : Char}
    (marked : isMark mark = true) : isNumber (whole ++ (fraction ++ [mark])) = false := by
  have marks : ∀ c ∈ [mark].head?, (!isMark c) = false := by
    intro c first
    rw [List.head?_cons, Option.mem_def, Option.some_inj] at first
    rw [← first, marked]
    rfl
  obtain ⟨taken, dropped⟩ := exponent_cut digits part marks
  have lonely : isExponent [mark] = false := by
    rw [isExponent]
    show (isMark mark && isDigits Char.isDigit []) = false
    rw [marked]
    rfl
  rw [isNumber, not_radix digits part marked, taken, dropped, lonely, Bool.and_false]
  rfl

end Numbers

/-- A number of JSON is a number of SQL, and ends with a digit. -/
theorem IsUnsigned.numeral (number : IsUnsigned text) : Numeral text := by
  obtain ⟨whole, fraction, exponent, split, digits, part, power⟩ := number
  have valid := isNumber_of_parts digits part power
  rw [← split] at valid
  refine ⟨valid, ?_⟩
  rcases power with none | ⟨mark, sign, later, same, marked, signed, inner⟩
  · left
    rw [split, none]
    exact shape_mantissa digits part (by simp)
  · have markLetter := (isMark_isLetter marked).1
    rcases signed with none | ⟨c, single, isSigned⟩
    · left
      rw [split, same, none, List.nil_append]
      apply shape_mantissa digits part
      intro c member
      rcases List.mem_cons.mp member with first | last
      · rw [first]
        exact markLetter
      · exact inner.letters c last
    · right
      refine ⟨whole ++ (fraction ++ [mark]), c, later, ?_, ?_, isNumber_mark digits part marked,
        isSigned, inner.letters⟩
      · rw [split, same, single]
        simp only [List.append_assoc, List.cons_append, List.nil_append]
      · apply shape_mantissa digits part
        intro c member
        rw [List.mem_singleton.mp member]
        exact markLetter

theorem IsUnsigned.head (number : IsUnsigned text) :
    ∃ c rest, text = c :: rest ∧ c.isDigit = true := by
  obtain ⟨whole, fraction, exponent, split, digits, -, -⟩ := number
  cases whole with
  | nil => exact absurd rfl digits.1
  | cons c whole => exact ⟨c, _, split, digits.2 c List.mem_cons_self⟩

theorem DigitText.last (digits : DigitText text) : ∃ c ∈ text.getLast?, c.isDigit = true := by
  rcases List.eq_nil_or_concat text with empty | ⟨front, c, split⟩
  · exact absurd empty digits.1
  · rw [List.concat_eq_append] at split
    refine ⟨c, by rw [split, List.getLast?_concat]; rfl, digits.2 c ?_⟩
    rw [split]
    exact List.mem_append_right _ List.mem_cons_self

theorem IsUnsigned.last (number : IsUnsigned text) : text.getLast? ≠ some '.' := by
  obtain ⟨whole, fraction, exponent, split, digits, part, power⟩ := number
  have ends : ∃ front later, text = front ++ later ∧ DigitText later := by
    rcases power with none | ⟨mark, sign, later, same, -, -, inner⟩
    · rcases part with empty | ⟨more, same, inner⟩
      · exact ⟨[], whole, by rw [split, none, empty]; simp, digits⟩
      · exact ⟨whole ++ ['.'], more, by rw [split, none, same]; simp, inner⟩
    · exact ⟨whole ++ (fraction ++ (mark :: sign)), later, by rw [split, same]; simp, inner⟩
  obtain ⟨front, later, whole, inner⟩ := ends
  obtain ⟨c, last, digit⟩ := inner.last
  rw [whole, List.getLast?_append_of_ne_nil _ inner.1, Option.mem_def.mp last, ne_eq,
    Option.some_inj]
  intro same
  rw [same] at digit
  exact absurd digit (by decide)

theorem reads_unsigned (number : IsUnsigned text) : Reads ⟨.number, text⟩ [] := by
  obtain ⟨c, rest, split, digit⟩ := number.head
  refine ⟨?_, ?_⟩
  · rw [split]
    exact kindOf_iff.mpr (Or.inl (classOf_digit.mpr digit))
  · exact numberRest_iff.mpr ⟨number.numeral, by simp, fun _ => by decide, fun _ => by decide⟩

/-- A quoted text is one constant. -/
theorem stringFrom_doubleQuotes (text : List Char) :
    stringFrom .plain 0 (doubleQuotes text ++ ['\'']) = some [] := by
  induction text with
  | nil => decide
  | cons c text ih =>
    rw [doubleQuotes, List.flatMap_cons]
    by_cases quote : c = '\''
    · rw [if_pos quote]
      show stringFrom .plain 0 ('\'' :: '\'' :: (doubleQuotes text ++ ['\''])) = _
      rw [stringFrom_cons, if_neg (by decide), if_pos rfl]
      exact ih
    · rw [if_neg quote]
      show stringFrom .plain 0 (c :: (doubleQuotes text ++ ['\''])) = _
      rw [stringFrom_cons, if_neg (by simp), if_neg quote]
      exact ih

theorem reads_quoteLiteral (text : List Char) : Reads ⟨.string .plain, quoteLiteral text⟩ [] := by
  refine ⟨kindOf_iff.mpr (Or.inl ⟨by decide, rfl⟩), ?_⟩
  show stringFrom .plain 0
    (((quoteLiteral text ++ []).dropWhile (· ≠ '\'')).drop 1) = some []
  rw [List.append_nil]
  exact stringFrom_doubleQuotes (doubled text)

section Values

variable {N : Type} (format : JsonNumbers N)

/-- A value is a word, a number, a negative number or a constant. -/
inductive Literal : List Lexeme → Prop
  | word (text : List Char) (reads : Reads ⟨.word, text⟩ []) (long : 2 ≤ text.length) :
      Literal [⟨.word, text⟩]
  | number (text : List Char) (unsigned : IsUnsigned text) : Literal [⟨.number, text⟩]
  | negative (text : List Char) (unsigned : IsUnsigned text) :
      Literal [⟨.operator, ['-']⟩, ⟨.number, text⟩]
  | constant (text : List Char) : Literal [⟨.string .plain, quoteLiteral text⟩]

theorem literal_numberLexemes {text : List Char} (number : IsJsonNumber text) :
    Literal (numberLexemes text) := by
  rcases number with unsigned | ⟨digits, same, unsigned⟩
  · obtain ⟨c, rest, split, digit⟩ := unsigned.head
    have plain : numberLexemes text = [⟨.number, text⟩] := by
      rw [numberLexemes.eq_def, split]
      split
      · rename_i same
        rw [(List.cons.inj same).1] at digit
        exact absurd digit (by decide)
      · rfl
    rw [plain]
    exact Literal.number text unsigned
  · rw [same]
    exact Literal.negative digits unsigned

theorem literal_valueLexemes (value : Value N) :
    Literal (valueLexemes format.toNumberFormat value) := by
  cases value with
  | null => exact Literal.word _ (by decide) (by decide)
  | bool b =>
    cases b with
    | true => exact Literal.word _ (by decide) (by decide)
    | false => exact Literal.word _ (by decide) (by decide)
  | number n => exact literal_numberLexemes (format.grammar n)
  | string s => exact Literal.constant s
  | array items => exact Literal.constant _
  | object members => exact Literal.constant _

variable {lexemes : List Lexeme}

/-- What the text of a value starts with. -/
theorem Literal.head (literal : Literal lexemes) :
    ∃ first rest c, lexemes = first :: rest ∧ first.text.head? = some c ∧
      (isLetter c = true ∧ (first.kind = .word ∨ first.kind = .number) ∨
        c = '\'' ∧ first.kind = .string .plain ∨
        first = ⟨.operator, ['-']⟩ ∧ c = '-') := by
  cases literal with
  | word text reads long =>
    cases text with
    | nil => exact absurd long (by decide)
    | cons c text =>
      have letter := (kindOf_iff.mp reads.1).1
      exact ⟨_, _, c, rfl, rfl, Or.inl ⟨isLetter_iff.mpr (Or.inl letter), Or.inl rfl⟩⟩
  | number text unsigned =>
    obtain ⟨c, rest, split, digit⟩ := unsigned.head
    exact ⟨_, _, c, rfl, by rw [split]; rfl, Or.inl ⟨isLetter_of_isDigit digit, Or.inr rfl⟩⟩
  | negative text unsigned => exact ⟨_, _, '-', rfl, rfl, Or.inr (Or.inr ⟨rfl, rfl⟩)⟩
  | constant text => exact ⟨_, _, '\'', rfl, rfl, Or.inr (Or.inl ⟨rfl, rfl⟩)⟩

/-- A letter, a digit, a quote or a minus sign. -/
def LiteralStart (c : Char) : Prop := isLetter c = true ∨ c = '\'' ∨ c = '-'

instance (c : Char) : Decidable (LiteralStart c) := inferInstanceAs (Decidable (_ ∨ _))

theorem LiteralStart.ne {c mark : Char} (opens : LiteralStart c) (other : ¬ LiteralStart mark) : c ≠ mark := by
  intro same
  rw [same] at opens
  exact other opens

theorem LiteralStart.not_space {c : Char} (opens : LiteralStart c) : isSpace c = false := by
  rcases opens with letter | quote | minus
  · rcases isLetter_iff.mp letter with same | same
    · simp [isSpace, same]
    · simp [isSpace, same]
  · rw [quote]
    decide
  · rw [minus]
    decide

/-- The text of a value opens with one of these. -/
theorem Literal.opens (literal : Literal lexemes) (behind : List Char) :
    ∃ c, (texts lexemes ++ behind).head? = some c ∧ LiteralStart c := by
  obtain ⟨first, rest, c, split, starts, kinds⟩ := literal.head
  obtain ⟨letters, whole⟩ := List.head?_eq_some_iff.mp starts
  refine ⟨c, by rw [split, texts_cons, whole]; rfl, ?_⟩
  rcases kinds with ⟨letter, _⟩ | ⟨quote, _⟩ | ⟨_, minus⟩
  · exact Or.inl letter
  · exact Or.inr (Or.inl quote)
  · exact Or.inr (Or.inr minus)

/-- The operators at the front of a value are its minus sign, or none. -/
theorem Literal.run (literal : Literal lexemes) (behind : List Char) :
    (texts lexemes ++ behind).takeWhile isOperator =
      if lexemes.head? = some ⟨.operator, ['-']⟩ then ['-'] else [] := by
  have stops : ∀ {c : Char} {rest : List Char}, isOperator c = false →
      (c :: rest).takeWhile isOperator = [] := by
    intro c rest other
    rw [List.takeWhile_cons_of_neg]
    rw [other]
    decide
  have digitStops : ∀ {c : Char}, c.isDigit = true → isOperator c = false := by
    intro c digit
    rw [isOperator, classOf_digit.mpr digit]
    rfl
  cases literal with
  | word text reads long =>
    cases text with
    | nil => exact absurd long (by decide)
    | cons c text =>
      have letter := (kindOf_iff.mp reads.1).1
      have plain : isOperator c = false := by
        rw [isOperator, letter]
        rfl
      exact stops plain
  | number text unsigned =>
    obtain ⟨c, rest, split, digit⟩ := unsigned.head
    rw [split]
    exact stops (digitStops digit)
  | negative text unsigned =>
    obtain ⟨c, rest, split, digit⟩ := unsigned.head
    rw [split]
    show ('-' :: c :: ((rest ++ []) ++ behind)).takeWhile isOperator = ['-']
    rw [List.takeWhile_cons_of_pos (by decide), stops (digitStops digit)]
  | constant text => exact stops (by decide)

end Values

end DddCqrsEs
