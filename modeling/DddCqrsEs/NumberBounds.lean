import DddCqrsEs.QuotedBounds

/- What numbers need of the text behind them, and with them every lexeme. Nothing here names an
application. -/
namespace SqlLexer

section Numbers

variable {text behind : List Char}

/-- The letters of a number, with its fraction. -/
def Shape (number : List Char) : Prop :=
  (∀ c ∈ number, isLetter c = true) ∨
    ∃ whole fraction, number = whole ++ '.' :: fraction ∧ whole.all isPlain = true ∧
      ∀ c ∈ fraction, isLetter c = true

theorem isLetter_of_isPlain {c : Char} (plain : isPlain c = true) : isLetter c = true := by
  rw [isPlain, Bool.or_eq_true, beq_iff_eq] at plain
  rcases plain with digit | underscore
  · exact isLetter_iff.mpr (Or.inr (classOf_digit.mpr digit))
  · rw [underscore]
    decide

theorem startsFraction_iff (behind : List Char) : startsFraction behind = true ↔
    ∃ rest, behind = '.' :: rest ∧ rest.head? ≠ some '.' := by
  rw [startsFraction, Bool.and_eq_true, beq_iff_eq, bne_iff_ne]
  constructor
  · rintro ⟨first, second⟩
    obtain ⟨rest, whole⟩ := List.head?_eq_some_iff.mp first
    rw [whole] at second
    exact ⟨rest, whole, second⟩
  · rintro ⟨rest, rfl, second⟩
    exact ⟨rfl, second⟩

theorem head?_dropWhile_letter (later : List Char) :
    ∀ c ∈ (later.dropWhile isLetter).head?, isLetter c = false := by
  intro c first
  have rejected := List.head?_dropWhile_not isLetter later
  rw [Option.mem_def] at first
  rw [first] at rejected
  simpa using rejected

variable {number : List Char}

theorem dot_not_plain (dot : '.' ∈ number) : number.all isPlain = false := by
  rw [Bool.eq_false_iff, ne_eq, List.all_eq_true]
  intro plain
  exact absurd (plain '.' dot) (by decide)

/-- A fraction that ends in its dot has no letters. -/
theorem fraction_empty {whole fraction : List Char} (letters : ∀ c ∈ fraction, isLetter c = true)
    (last : (whole ++ '.' :: fraction).getLast? = some '.') : fraction = [] := by
  rcases List.eq_nil_or_concat fraction with empty | ⟨front, c, ends⟩
  · exact empty
  · rw [List.concat_eq_append] at ends
    rw [ends, ← List.cons_append, ← List.append_assoc, List.getLast?_concat,
      Option.some_inj] at last
    have letter := letters c (by simp [ends])
    rw [last] at letter
    exact absurd letter (by decide)

theorem shape_of_mantissa (cut : mantissa (number ++ behind) = (number, behind)) :
    Shape number ∧ Ends number behind := by
  have split : (number ++ behind).takeWhile isLetter ++ (number ++ behind).dropWhile isLetter =
      number ++ behind := List.takeWhile_append_dropWhile
  rw [mantissa] at cut
  split at cut
  · rename_i both
    rw [Prod.mk.injEq] at cut
    obtain ⟨numbers, behinds⟩ := cut
    obtain ⟨rest, whole, second⟩ := (startsFraction_iff _).mp both.2
    rw [whole, List.tail_cons] at numbers behinds
    have dot : '.' ∈ number := by
      rw [← numbers]
      exact List.mem_append_right _ List.mem_cons_self
    refine ⟨Or.inr ⟨_, _, numbers.symm, both.1, fun c member => List.mem_takeWhile_imp member⟩,
      ?_, ?_, ?_⟩
    · rw [← behinds]
      exact head?_dropWhile_letter rest
    · rw [dot_not_plain dot]
      intro impossible
      cases impossible
    · intro last
      have empty : rest.takeWhile isLetter = [] := by
        rw [← numbers] at last
        exact fraction_empty (fun c member => List.mem_takeWhile_imp member) last
      have same : rest = behind := by
        rw [← behinds, ← @List.takeWhile_append_dropWhile _ isLetter rest, empty,
          List.nil_append, List.dropWhile_idempotent]
      rw [← same]
      exact second
  · rename_i other
    rw [Prod.mk.injEq] at cut
    obtain ⟨numbers, behinds⟩ := cut
    have letters : ∀ c ∈ number, isLetter c = true := by
      rw [← numbers]
      exact fun c member => List.mem_takeWhile_imp member
    rw [numbers, behinds] at other
    refine ⟨Or.inl letters, ?_, ?_, ?_⟩
    · rw [← behinds]
      exact head?_dropWhile_letter _
    · intro plain
      rw [Bool.eq_false_iff]
      exact fun fraction => other ⟨plain, fraction⟩
    · intro last
      have letter := letters '.' (List.mem_of_getLast? last)
      exact absurd letter (by decide)

theorem mantissa_of_shape (shape : Shape number) (ends : Ends number behind) :
    mantissa (number ++ behind) = (number, behind) := by
  obtain ⟨ends, noFraction, noDot⟩ := ends
  rcases shape with letters | ⟨whole, fraction, rfl, plain, letters⟩
  · have taken := takeWhile_append_eq letters ends
    have dropped := dropWhile_append_eq_iff.mpr ⟨letters, ends⟩
    rw [mantissa, taken, dropped, if_neg]
    rintro ⟨digits, fraction⟩
    rw [noFraction digits] at fraction
    cases fraction
  · have wholeLetters : ∀ c ∈ whole, isLetter c = true :=
      fun c member => isLetter_of_isPlain (List.all_eq_true.mp plain c member)
    have mark : ∀ c ∈ ('.' :: (fraction ++ behind)).head?, isLetter c = false := by
      intro c first
      rw [List.head?_cons, Option.mem_def, Option.some_inj] at first
      rw [← first]
      decide
    have opens : startsFraction ('.' :: (fraction ++ behind)) = true := by
      rw [startsFraction_iff]
      refine ⟨_, rfl, ?_⟩
      cases fraction with
      | nil => exact noDot (by simp)
      | cons d fraction =>
        rw [List.cons_append, List.head?_cons, ne_eq, Option.some_inj]
        intro same
        have letter := letters d List.mem_cons_self
        rw [same] at letter
        exact absurd letter (by decide)
    have split : whole ++ '.' :: fraction ++ behind = whole ++ '.' :: (fraction ++ behind) := by
      rw [List.append_assoc, List.cons_append]
    rw [split, mantissa, takeWhile_append_eq wholeLetters mark,
      dropWhile_append_eq_iff.mpr ⟨wholeLetters, mark⟩, if_pos ⟨plain, opens⟩, List.tail_cons,
      takeWhile_append_eq letters ends, dropWhile_append_eq_iff.mpr ⟨letters, ends⟩]

theorem mantissa_eq_iff :
    mantissa (number ++ behind) = (number, behind) ↔ Shape number ∧ Ends number behind :=
  ⟨shape_of_mantissa, fun parts => mantissa_of_shape parts.1 parts.2⟩

/-- A number by itself, or with an exponent behind a sign. -/
def Numeral (number : List Char) : Prop :=
  isNumber number = true ∧ (Shape number ∨
    ∃ front sign exponent, number = front ++ sign :: exponent ∧ Shape front ∧
      isNumber front = false ∧ isSign sign = true ∧ ∀ c ∈ exponent, isLetter c = true)

theorem not_letter_of_isSign {c : Char} (sign : isSign c = true) :
    isLetter c = false ∧ c ≠ '.' := by
  rw [isSign, Bool.or_eq_true, beq_iff_eq, beq_iff_eq] at sign
  rcases sign with same | same
  · rw [same]
    decide
  · rw [same]
    decide

theorem numeral_of_numberRest (read : numberRest (number ++ behind) = some behind) :
    Numeral number ∧ Ends number behind := by
  have split := mantissa_append (number ++ behind)
  have shape : mantissa ((mantissa (number ++ behind)).1 ++ (mantissa (number ++ behind)).2) =
      ((mantissa (number ++ behind)).1, (mantissa (number ++ behind)).2) := by rw [split]
  rw [mantissa_eq_iff] at shape
  rw [numberRest] at read
  split at read
  · rename_i valid
    injection read with same
    rw [same] at shape split
    rw [List.append_cancel_right_eq] at split
    rw [split] at shape valid
    exact ⟨⟨valid, Or.inl shape.1⟩, shape.2⟩
  · rename_i invalid
    split at read
    · cases read
    · rename_i sign rest cut
      split at read
      · rename_i both
        injection read with same
        rw [cut] at split
        have parts : number = (mantissa (number ++ behind)).1 ++
            sign :: rest.takeWhile isLetter := by
          rw [← @List.takeWhile_append_dropWhile _ isLetter rest, same, ← List.cons_append,
            ← List.append_assoc, List.append_cancel_right_eq] at split
          exact split.symm
        have letters : ∀ c ∈ rest.takeWhile isLetter, isLetter c = true :=
          fun c member => List.mem_takeWhile_imp member
        have head : ∀ c ∈ behind.head?, isLetter c = false := by
          rw [← same]
          exact head?_dropWhile_letter rest
        obtain ⟨noLetter, noDot⟩ := not_letter_of_isSign both.1
        have valid := both.2
        rw [← parts] at valid
        refine ⟨⟨valid, Or.inr ⟨_, sign, _, parts, shape.1, Bool.eq_false_iff.mpr invalid,
          both.1, letters⟩⟩, head, ?_, ?_⟩
        · intro plain
          have letter : isLetter sign = true := by
            apply isLetter_of_isPlain
            apply List.all_eq_true.mp plain
            rw [parts]
            exact List.mem_append_right _ List.mem_cons_self
          rw [noLetter] at letter
          cases letter
        · intro last
          rw [parts, List.getLast?_append_of_ne_nil _ (List.cons_ne_nil _ _)] at last
          rcases List.mem_cons.mp (List.mem_of_getLast? last) with same | member
          · exact absurd same.symm noDot
          · exact absurd (letters '.' member) (by decide)
      · cases read

theorem numberRest_of_numeral (numeral : Numeral number) (ends : Ends number behind) :
    numberRest (number ++ behind) = some behind := by
  obtain ⟨valid, shape | ⟨front, sign, exponent, parts, shape, invalid, signed, letters⟩⟩ := numeral
  · rw [numberRest, mantissa_eq_iff.mpr ⟨shape, ends⟩]
    exact if_pos valid
  · obtain ⟨noLetter, noDot⟩ := not_letter_of_isSign signed
    have split : number ++ behind = front ++ sign :: (exponent ++ behind) := by
      rw [parts, List.append_assoc, List.cons_append]
    have first : ∀ c ∈ (sign :: (exponent ++ behind)).head?, isLetter c = false := by
      intro c first
      rw [List.head?_cons, Option.mem_def, Option.some_inj] at first
      rw [← first, noLetter]
    have frontEnds : Ends front (sign :: (exponent ++ behind)) := by
      refine ⟨first, ?_, ?_⟩
      · intro _
        simp [startsFraction, noDot]
      · intro _
        simpa using noDot
    rw [split, numberRest, mantissa_eq_iff.mpr ⟨shape, frontEnds⟩]
    have whole : isSign sign = true ∧
        isNumber (front ++ sign :: (exponent ++ behind).takeWhile isLetter) = true := by
      rw [takeWhile_append_eq letters ends.1, ← parts]
      exact ⟨signed, valid⟩
    show (if isNumber front = true then _ else if _ then
      some ((exponent ++ behind).dropWhile isLetter) else none) = _
    rw [if_neg (by rw [invalid]; decide), if_pos whole,
      dropWhile_append_eq_iff.mpr ⟨letters, ends.1⟩]

theorem numberRest_iff :
    numberRest (number ++ behind) = some behind ↔ Numeral number ∧ Ends number behind :=
  ⟨numeral_of_numberRest, fun parts => numberRest_of_numeral parts.1 parts.2⟩

theorem reads_number (reads : Reads ⟨.number, text⟩ behind) (other : List Char) :
    Reads ⟨.number, text⟩ other ↔ Bounded ⟨.number, text⟩ other := by
  have nonempty := reads.ne_nil
  obtain ⟨starts, read⟩ := reads
  obtain ⟨numeral, _⟩ := numberRest_iff.mp read
  cases text with
  | nil => exact absurd rfl nonempty
  | cons c text =>
    have opens : kindOf (c :: (text ++ other)) = some .number := by
      rw [kindOf_iff, Starts]
      rcases kindOf_iff.mp starts with digit | ⟨dot, digit⟩
      · exact Or.inl digit
      · have more : text ≠ [] := by
          intro empty
          rw [empty, classOf_dot.mp dot] at numeral
          exact absurd numeral.1 (by decide)
        have head : ∀ later : List Char, (text ++ later).head? = text.head? :=
          fun later => List.head?_append_of_ne_nil _ more
        refine Or.inr ⟨dot, ?_⟩
        rw [head other, ← head behind]
        exact digit
    show (kindOf (c :: (text ++ other)) = some .number ∧
      numberRest (c :: text ++ other) = some other) ↔ Ends (c :: text) other
    rw [numberRest_iff, opens]
    simp [numeral]
end Numbers

variable {behind : List Char}

/-- A lexeme that is read somewhere is read where the text behind it bounds it. -/
theorem reads_iff {lexeme : Lexeme} (reads : Reads lexeme behind) (other : List Char) :
    Reads lexeme other ↔ Bounded lexeme other := by
  obtain ⟨kind, text⟩ := lexeme
  cases kind with
  | blank => exact reads_blank reads other
  | lineComment => exact reads_lineComment reads other
  | blockComment => exact reads_blockComment reads other
  | word => exact reads_word reads other
  | quotedName => exact reads_quotedName reads other
  | string style => exact reads_string reads other
  | dollarString => exact reads_dollarString reads other
  | number => exact reads_number reads other
  | parameter => exact reads_parameter reads other
  | special => exact reads_special reads other
  | operator => exact reads_operator reads other

theorem Reads.bounded {lexeme : Lexeme} (reads : Reads lexeme behind) :
    Bounded lexeme behind := (reads_iff reads behind).mp reads

end SqlLexer
