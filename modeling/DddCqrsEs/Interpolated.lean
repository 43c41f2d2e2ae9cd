import DddCqrsEs.OperatorRuns
import DddCqrsEs.ValueLexemes

/- When interpolation preserves the lexemes of a template: the literals and their neighbours
must not run together. -/
namespace DddCqrsEs

open SqlLexer
open JsonTree (Value NumberFormat)

/-- Two lexemes that do not stay apart next to each other. -/
def Joins (first second : Lexeme) : Prop :=
  match first.kind with
  | .word => ∃ c ∈ second.text.head?, inWord c = true
  | .number =>
    (∃ c ∈ second.text.head?, isLetter c = true) ∨
      first.text.all isPlain = true ∧ second.text.head? = some '.' ∧ second.text ≠ ['.', '.']
  | .special => first.text = ['.'] ∧ ∃ c ∈ second.text.head?, c.isDigit = true
  | .operator =>
    second.text = ['-'] ∧
      (first.text.any allowsSign = true ∨ first.text.getLast? = some '-')
  | _ => False

section Neighbours

variable {first second : Lexeme} {behind later : List Char}

theorem dot_alone (next : Reads second behind) (dot : second.text = ['.']) :
    behind.head? ≠ some '.' := by
  obtain ⟨kind, text⟩ := second
  subst dot
  by_cases digit : behind.head?.any Char.isDigit = true
  · have starts : kindOf ('.' :: behind) = some .number :=
      kindOf_iff.mpr (Or.inr ⟨by decide, digit⟩)
    have same : Kind.number = kind := Option.some.inj (starts.symm.trans next.1)
    subst same
    exact absurd (numberRest_iff.mp next.2).1.1 (by decide)
  · have starts : kindOf ('.' :: behind) = some .special :=
      kindOf_iff.mpr (Or.inl ⟨by decide, Bool.eq_false_iff.mpr digit⟩)
    have same : Kind.special = kind := Option.some.inj (starts.symm.trans next.1)
    subst same
    intro first
    exact (next.bounded.1 rfl '.' first).1 rfl

theorem startsFraction_eq (text : List Char) :
    startsFraction text = (text.head? == some '.' && text.tail.head? != some '.') := rfl

theorem takeWhile_append_other {kind : Char → Bool} {front : List Char}
    (other : ¬ ∀ c ∈ front, kind c = true) (back : List Char) :
    (front ++ back).takeWhile kind = front.takeWhile kind := by
  rw [List.takeWhile_append, if_neg]
  intro same
  apply other
  have whole := (List.takeWhile_prefix kind).eq_of_length same
  rw [← whole]
  exact fun c member => List.mem_takeWhile_imp member

/-- A letter that stood as a word before `second` stands as one where no quote follows an
ampersand anew. -/
theorem wordKind_same_start {c : Char} (nonempty : second.text ≠ [])
    (unicode : c ∈ ['u', 'U'] → second.text = ['&'] → later.head? = behind.head? ∨
      later.head? ≠ some '\'' ∧ later.head? ≠ some '"')
    (old : wordKind c (second.text ++ behind) = .word) :
    wordKind c (second.text ++ later) = .word := by
  rw [wordKind_eq_word, List.head?_append_of_ne_nil _ nonempty] at old ⊢
  refine ⟨old.1, ?_⟩
  rintro ⟨mark, quote, marks⟩
  cases letters : second.text with
  | nil => exact nonempty letters
  | cons d rest =>
    rw [letters] at old quote mark
    cases rest with
    | cons e rest => exact old.2 ⟨mark, quote, marks⟩
    | nil =>
      have ampersand : second.text = ['&'] := by rw [letters, Option.some.inj mark]
      rcases unicode marks ampersand with same | ⟨noSingle, noDouble⟩
      · apply old.2
        refine ⟨mark, ?_, marks⟩
        show behind.head? = some '\'' ∨ behind.head? = some '"'
        rw [← same]
        exact quote
      · rcases quote with opens | opens
        · exact noSingle opens
        · exact noDouble opens

/-- A fraction does not start where none did before. -/
theorem startsFraction_same_start (next : Reads second behind)
    (old : startsFraction (second.text ++ behind) = false) :
    startsFraction (second.text ++ later) = false := by
  cases letters : second.text with
  | nil => exact absurd letters next.ne_nil
  | cons d rest =>
    rw [letters] at old
    cases rest with
    | cons e rest => exact old
    | nil =>
      rw [startsFraction_eq] at old ⊢
      by_cases dot : d = '.'
      · have alone := dot_alone next (by rw [letters, dot])
        rw [dot] at old
        have twice : behind.head? = some '.' := by simpa using old
        exact absurd twice alone
      · simp [dot]

/-- An operator ends where it did, with at most a minus sign more behind the next lexeme. -/
theorem operatorOf_same_start {text : List Char} (nonempty : second.text ≠ [])
    (run : later.takeWhile isOperator = behind.takeWhile isOperator ∨
      later.takeWhile isOperator = behind.takeWhile isOperator ++ ['-'])
    (old : operatorOf (text ++ (second.text ++ behind).takeWhile isOperator) = text) :
    operatorOf (text ++ (second.text ++ later).takeWhile isOperator) = text := by
  by_cases all : ∀ c ∈ second.text, isOperator c = true
  · rw [List.takeWhile_append_of_pos all] at old ⊢
    rcases run with same | longer
    · rw [same]
      exact old
    · have shorter : operatorOf (text ++ (second.text ++ behind.takeWhile isOperator)) ≠
          text ++ (second.text ++ behind.takeWhile isOperator) := by
        rw [old]
        intro same
        rw [List.self_eq_append_right] at same
        exact nonempty (List.append_eq_nil_iff.mp same).1
      have grown := operatorOf_longer shorter
      rw [old] at grown
      rw [longer]
      simpa only [List.append_assoc] using grown
  · rw [takeWhile_append_other all] at old ⊢
    exact old

/-- Behind a lexeme stands a text that starts as the text did before, at least with as many
characters as the next lexeme has. -/
theorem bounded_same_start (reads : Reads first (second.text ++ behind))
    (next : Reads second behind) (parameter : first.kind ≠ .parameter)
    (constant : ∀ style, first.kind = .string style →
      continued style (second.text ++ later) = none)
    (unicode : first.kind = .word → first.text = ['u'] ∨ first.text = ['U'] →
      second.text = ['&'] → later.head? = behind.head? ∨
        later.head? ≠ some '\'' ∧ later.head? ≠ some '"')
    (run : later.takeWhile isOperator = behind.takeWhile isOperator ∨
      later.takeWhile isOperator = behind.takeWhile isOperator ++ ['-']) :
    SqlLexer.Bounded first (second.text ++ later) := by
  have nonempty := next.ne_nil
  have bounded := reads.bounded
  have head : (second.text ++ later).head? = (second.text ++ behind).head? := by
    rw [List.head?_append_of_ne_nil _ nonempty, List.head?_append_of_ne_nil _ nonempty]
  obtain ⟨kind, text⟩ := first
  cases kind with
  | blank =>
    show ∀ c ∈ (second.text ++ later).head?, isSpace c = false
    rw [head]
    exact bounded
  | lineComment =>
    show ∀ c ∈ (second.text ++ later).head?, isNewline c = true
    rw [head]
    exact bounded
  | blockComment => trivial
  | word =>
    refine ⟨?_, ?_⟩
    · rw [head]
      exact bounded.1
    · intro c single
      apply wordKind_same_start nonempty _ (bounded.2 c single)
      intro marks
      apply unicode rfl
      have one : text = [c] := single
      rw [one]
      simpa using marks
  | quotedName =>
    show (second.text ++ later).head? ≠ some '"'
    rw [head]
    exact bounded
  | string style => exact constant style rfl
  | dollarString => trivial
  | number =>
    refine ⟨?_, ?_, ?_⟩
    · rw [head]
      exact bounded.1
    · exact fun plain => startsFraction_same_start next (bounded.2.1 plain)
    · rw [head]
      exact bounded.2.2
  | parameter => exact absurd rfl parameter
  | special =>
    show (_ → ∀ c ∈ (second.text ++ later).head?, _) ∧
      (_ → ∀ c ∈ (second.text ++ later).head?, _)
    rw [head]
    exact bounded
  | operator => exact operatorOf_same_start nonempty run bounded

/-- In the place of a placeholder stands a literal that the lexeme before does not join. -/
theorem bounded_before_literal (reads : Reads first ('$' :: behind))
    (parameter : first.kind ≠ .parameter) {lexemes : List Lexeme} (literal : Literal lexemes)
    (apart : ∀ second ∈ lexemes.head?, ¬ Joins first second)
    (constant : ∀ style, first.kind = .string style →
      continued style (texts lexemes ++ later) = none) :
    SqlLexer.Bounded first (texts lexemes ++ later) := by
  have bounded := reads.bounded
  have run := literal.run later
  obtain ⟨second, rest, c, split, starts, _⟩ := literal.head
  have separate : ¬ Joins first second := apart second (by rw [split]; rfl)
  have head : (texts lexemes ++ later).head? = some c := by
    obtain ⟨letters, whole⟩ := List.head?_eq_some_iff.mp starts
    rw [split, texts_cons, whole]
    rfl
  have opens : LiteralStart c := by
    obtain ⟨d, first, opens⟩ := literal.opens later
    rw [Option.some.inj (head.symm.trans first)]
    exact opens
  obtain ⟨kind, text⟩ := first
  cases kind with
  | blank =>
    show ∀ d ∈ (texts lexemes ++ later).head?, isSpace d = false
    rw [head]
    intro d same
    rw [← Option.some.inj same]
    exact opens.not_space
  | lineComment => exact absurd (bounded '$' rfl) (by decide)
  | blockComment => trivial
  | word => exact absurd (bounded.1 '$' rfl) (by decide)
  | quotedName =>
    show (texts lexemes ++ later).head? ≠ some '"'
    rw [head, ne_eq, Option.some_inj]
    exact opens.ne (by decide)
  | string style => exact constant style rfl
  | dollarString => trivial
  | number =>
    refine ⟨?_, ?_, ?_⟩
    · rw [head]
      intro d same
      rw [← Option.some.inj same, Bool.eq_false_iff]
      exact fun letter => separate (Or.inl ⟨c, starts, letter⟩)
    · intro _
      have dot : c ≠ '.' := opens.ne (by decide)
      rw [startsFraction_eq, head]
      simp [dot]
    · intro _
      rw [head, ne_eq, Option.some_inj]
      exact opens.ne (by decide)
  | parameter => exact absurd rfl parameter
  | special =>
    refine ⟨?_, ?_⟩
    · intro single d same
      rw [head] at same
      rw [← Option.some.inj same]
      refine ⟨opens.ne (by decide), ?_⟩
      rw [Bool.eq_false_iff]
      exact fun digit => separate ⟨single, c, starts, digit⟩
    · intro _ d same
      rw [head] at same
      rw [← Option.some.inj same]
      exact ⟨opens.ne (by decide), opens.ne (by decide)⟩
  | operator =>
    have old : operatorOf (text ++ ('$' :: behind).takeWhile isOperator) = text := bounded
    rw [List.takeWhile_cons_of_neg (by decide), List.append_nil] at old
    show operatorOf (text ++ (texts lexemes ++ later).takeWhile isOperator) = text
    rw [run]
    split
    · rename_i minus
      rw [split, List.head?_cons, Option.some_inj] at minus
      apply operatorOf_minus old reads.ne_nil
      exact fun marks => separate ⟨by rw [minus], marks⟩
    · rw [List.append_nil]
      exact old

/-- Lexemes that are both read next to each other do not join. -/
theorem not_joins_of_reads (reads : Reads first (second.text ++ later))
    (next : Reads second later)
    (minus : first.kind = .operator → second.text = ['-'] →
      ∀ c ∈ later.head?, isOperator c = false) :
    ¬ Joins first second := by
  have bounded := reads.bounded
  have head : (second.text ++ later).head? = second.text.head? :=
    List.head?_append_of_ne_nil _ next.ne_nil
  have nonempty := reads.ne_nil
  obtain ⟨kind, text⟩ := first
  cases kind with
  | word =>
    rintro ⟨c, starts, inside⟩
    rw [← head] at starts
    rw [bounded.1 c starts] at inside
    cases inside
  | number =>
    rintro (⟨c, starts, letter⟩ | ⟨plain, dot, single⟩)
    · rw [← head] at starts
      rw [bounded.1 c starts] at letter
      cases letter
    · have noFraction := bounded.2.1 plain
      rw [startsFraction_eq, head, dot] at noFraction
      have twice : (second.text ++ later).tail.head? = some '.' := by simpa using noFraction
      obtain ⟨rest, whole⟩ := List.head?_eq_some_iff.mp dot
      cases rest with
      | nil =>
        rw [whole] at twice
        exact dot_alone next whole twice
      | cons d rest =>
        rw [whole] at twice
        have double : d = '.' := Option.some.inj twice
        obtain ⟨secondKind, secondText⟩ := second
        subst whole double
        have starts : kindOf ('.' :: ('.' :: rest ++ later)) = some .special :=
          kindOf_iff.mpr (Or.inl ⟨by decide, by rfl⟩)
        have same : Kind.special = secondKind := Option.some.inj (starts.symm.trans next.1)
        subst same
        have length := ((reads_special_iff _ _).mp next).2
        rw [specialLength_dot, List.cons_append, List.head?_cons, if_pos rfl,
          List.length_cons] at length
        have empty : rest = [] := List.eq_nil_of_length_eq_zero (by omega)
        exact single (by rw [empty])
  | special =>
    rintro ⟨single, c, starts, digit⟩
    rw [← head] at starts
    rw [(bounded.1 single c starts).2] at digit
    cases digit
  | operator =>
    rintro ⟨sign, marks⟩
    have whole : operatorOf (text ++ (second.text ++ later).takeWhile isOperator) = text := bounded
    have run : (second.text ++ later).takeWhile isOperator = ['-'] := by
      rw [sign]
      exact takeWhile_append_eq (by decide) (minus rfl sign)
    rw [run] at whole
    exact operatorOf_minus_ne marks whole
  | blank => exact id
  | lineComment => exact id
  | blockComment => exact id
  | quotedName => exact id
  | string style => exact id
  | dollarString => exact id
  | parameter => exact id

/-- A `u` that is a word stands before no ampersand with a quote. -/
theorem no_quote_behind_unicode {ampersand : Lexeme}
    (reads : Reads first (ampersand.text ++ (second.text ++ later))) (kind : first.kind = .word)
    (letter : first.text = ['u'] ∨ first.text = ['U']) (mark : ampersand.text = ['&']) :
    second.text.head? ≠ some '\'' := by
  intro quote
  obtain ⟨letters, quoted⟩ := List.head?_eq_some_iff.mp quote
  have bounded := reads.bounded
  obtain ⟨_, text⟩ := first
  subst kind
  obtain ⟨c, single, marks⟩ : ∃ c, text = [c] ∧ c ∈ ['u', 'U'] := by
    rcases letter with lower | upper
    · exact ⟨'u', lower, by decide⟩
    · exact ⟨'U', upper, by decide⟩
  have stands := bounded.2 c single
  rw [mark, quoted] at stands
  exact (wordKind_eq_word.mp stands).2 ⟨rfl, Or.inl rfl, marks⟩

end Neighbours

section Literals

variable {lexemes : List Lexeme} {first : Lexeme} {rest : List Lexeme}

theorem texts_head? (nonempty : first.text ≠ []) :
    (texts (first :: rest)).head? = first.text.head? :=
  List.head?_append_of_ne_nil _ nonempty

/-- A literal is read where it does not join the lexeme behind it. -/
theorem allRead_literal (literal : Literal lexemes) {behind : List Lexeme}
    (read : AllRead behind)
    (apart : ∀ first ∈ lexemes.getLast?, ∀ second ∈ behind.head?, ¬ Joins first second)
    (constant : ∀ front text, lexemes = front ++ [⟨.string .plain, text⟩] →
      continued .plain (texts behind) = none) : AllRead (lexemes ++ behind) := by
  have head : ∀ c ∈ (texts behind).head?, ∃ second ∈ behind.head?,
      second.text.head? = some c ∧ ∃ rest, texts behind = second.text ++ rest := by
    intro c first
    cases behind with
    | nil => cases first
    | cons second rest =>
      rw [texts_head? read.1.ne_nil] at first
      exact ⟨second, rfl, first, texts rest, rfl⟩
  have number : ∀ text, IsUnsigned text → (⟨.number, text⟩ : Lexeme) ∈ lexemes.getLast? →
      Reads ⟨.number, text⟩ (texts behind) := by
    intro text unsigned last
    rw [reads_iff (reads_unsigned unsigned)]
    refine ⟨?_, ?_, fun dot => absurd dot unsigned.last⟩
    · intro c first
      obtain ⟨second, member, starts, _⟩ := head c first
      rw [Bool.eq_false_iff]
      exact fun letter => apart _ last second member (Or.inl ⟨c, starts, letter⟩)
    · intro plain
      rw [Bool.eq_false_iff]
      intro fraction
      obtain ⟨rest, whole, single⟩ := (startsFraction_iff _).mp fraction
      obtain ⟨second, member, starts, more, split⟩ := head '.' (by rw [whole]; rfl)
      refine apart _ last second member (Or.inr ⟨plain, starts, ?_⟩)
      intro double
      rw [split, double] at whole
      rw [← (List.cons.inj whole).2] at single
      exact single rfl
  cases literal with
  | word text reads long =>
    refine ⟨(reads_iff reads _).mpr ⟨?_, ?_⟩, read⟩
    · intro c first
      obtain ⟨second, member, starts, _⟩ := head c first
      rw [Bool.eq_false_iff]
      exact fun inside => apart _ rfl second member ⟨c, starts, inside⟩
    · intro c single
      have one : text = [c] := single
      rw [one, List.length_singleton] at long
      omega
  | number text unsigned => exact ⟨number text unsigned rfl, read⟩
  | negative text unsigned =>
    refine ⟨?_, number text unsigned rfl, read⟩
    have minus : Reads ⟨.operator, ['-']⟩ [] := by decide
    rw [reads_iff minus]
    obtain ⟨c, rest, split, digit⟩ := unsigned.head
    have plain : ¬ isOperator c = true := by
      rw [isOperator, classOf_digit.mpr digit]
      decide
    have run : (text ++ texts behind).takeWhile isOperator = [] := by
      rw [split]
      exact List.takeWhile_cons_of_neg plain
    show operatorOf (['-'] ++ (text ++ texts behind).takeWhile isOperator) = ['-']
    rw [run]
    decide
  | constant text =>
    exact ⟨(reads_iff (reads_quoteLiteral text) _).mpr (constant [] _ rfl), read⟩

/-- Behind the minus sign of a value stands no other operator. -/
theorem Literal.minus (literal : Literal (first :: rest)) (sign : first.text = ['-'])
    (behind : List Char) : ∀ c ∈ (texts rest ++ behind).head?, isOperator c = false := by
  have run := literal.run behind
  rw [texts_cons, sign, List.append_assoc, List.singleton_append,
    List.takeWhile_cons_of_pos (by decide)] at run
  have empty : (texts rest ++ behind).takeWhile isOperator = [] := by
    split at run
    · exact (List.cons.inj run).2
    · cases run
  intro c starts
  obtain ⟨more, whole⟩ := List.head?_eq_some_iff.mp starts
  rw [whole] at empty
  cases operator : isOperator c with
  | false => rfl
  | true =>
    rw [List.takeWhile_cons_of_pos operator] at empty
    cases empty

theorem Literal.quote (literal : Literal (first :: rest)) (constant : first.kind = .string .plain) :
    first.text.head? = some '\'' := by
  obtain ⟨second, more, c, split, starts, kinds⟩ := literal.head
  rw [(List.cons.inj split).1] at constant ⊢
  rcases kinds with ⟨_, word | number⟩ | ⟨quote, _⟩ | ⟨operator, _⟩
  · rw [word] at constant
    cases constant
  · rw [number] at constant
    cases constant
  · rw [starts, quote]
  · rw [operator] at constant
    cases constant

theorem Literal.last (literal : Literal lexemes) :
    ∀ last ∈ lexemes.getLast?, last.kind ≠ .operator := by
  intro last same
  cases literal with
  | word text reads long =>
    cases same
    exact Kind.noConfusion
  | number text unsigned =>
    cases same
    exact Kind.noConfusion
  | negative text unsigned =>
    cases same
    exact Kind.noConfusion
  | constant text =>
    cases same
    exact Kind.noConfusion

end Literals

section Preservation

variable {N : Type} (format : JsonNumbers N) (params : List (Value N))

/-- No literal runs together with its neighbours. -/
structure Apart (lexemes : List Lexeme) : Prop where
  /-- The lexeme before a placeholder does not join its literal. -/
  before : ∀ front placeholder back, lexemes = front ++ placeholder :: back →
    placeholder.kind = .parameter →
    ∀ first ∈ (filled format.toNumberFormat params front).getLast?,
    ∀ second ∈ (lexemeFilled format.toNumberFormat params placeholder).head?,
      ¬ Joins first second
  /-- The literal does not join the lexeme behind. -/
  behind : ∀ front placeholder back, lexemes = front ++ placeholder :: back →
    placeholder.kind = .parameter →
    ∀ first ∈ (lexemeFilled format.toNumberFormat params placeholder).getLast?,
    ∀ second ∈ (filled format.toNumberFormat params back).head?, ¬ Joins first second
  /-- No constant, of the template or of a value, is continued by the text behind it. -/
  constants : ∀ front constant back style,
    filled format.toNumberFormat params lexemes = front ++ constant :: back →
    constant.kind = .string style → continued style (texts back) = none
  /-- No constant stands behind a `u&`. -/
  unicode : ∀ front word ampersand placeholder back,
    lexemes = front ++ word :: ampersand :: placeholder :: back →
    placeholder.kind = .parameter → word.kind = .word →
    word.text = ['u'] ∨ word.text = ['U'] → ampersand.text = ['&'] →
    ∀ first ∈ (lexemeFilled format.toNumberFormat params placeholder).head?,
      first.kind ≠ .string .plain

variable {params}

theorem filled_append (front back : List Lexeme) :
    filled format.toNumberFormat params (front ++ back) =
      filled format.toNumberFormat params front ++ filled format.toNumberFormat params back :=
  List.flatMap_append

theorem filled_cons (lexeme : Lexeme) (back : List Lexeme) :
    filled format.toNumberFormat params (lexeme :: back) =
      lexemeFilled format.toNumberFormat params lexeme ++
        filled format.toNumberFormat params back := rfl

variable {lexeme : Lexeme} {lexemes behind front : List Lexeme}

theorem lexemeFilled_of_ne (other : lexeme.kind ≠ .parameter) :
    lexemeFilled format.toNumberFormat params lexeme = [lexeme] := if_neg other

theorem literal_filled (given : Given params lexemes) (member : lexeme ∈ lexemes)
    (parameter : lexeme.kind = .parameter) :
    Literal (lexemeFilled format.toNumberFormat params lexeme) := by
  obtain ⟨value, names⟩ := given lexeme member parameter
  rw [lexemeFilled, if_pos parameter, names]
  exact literal_valueLexemes format value

/-- Interpolation adds at most a minus sign to the operators at the front of a text. -/
theorem run_filled (read : AllRead lexemes) (given : Given params lexemes) :
    (texts (filled format.toNumberFormat params lexemes)).takeWhile isOperator =
        (texts lexemes).takeWhile isOperator ∨
      (texts (filled format.toNumberFormat params lexemes)).takeWhile isOperator =
        (texts lexemes).takeWhile isOperator ++ ['-'] := by
  induction lexemes with
  | nil => exact Or.inl rfl
  | cons lexeme behind ih =>
    rw [filled_cons, texts_append, texts_cons]
    by_cases parameter : lexeme.kind = .parameter
    · have literal := literal_filled format given List.mem_cons_self parameter
      obtain ⟨kind, text⟩ := lexeme
      subst parameter
      obtain ⟨digits, rfl, -, -⟩ := parameter_parts read.1
      have stops : ('$' :: digits ++ texts behind).takeWhile isOperator = [] :=
        List.takeWhile_cons_of_neg (by decide)
      rw [literal.run, stops]
      split
      · exact Or.inr rfl
      · exact Or.inl rfl
    · rw [lexemeFilled_of_ne format parameter]
      show (lexeme.text ++ [] ++ _).takeWhile isOperator = _ ∨
        (lexeme.text ++ [] ++ _).takeWhile isOperator = _
      rw [List.append_nil]
      by_cases all : ∀ c ∈ lexeme.text, isOperator c = true
      · rw [List.takeWhile_append_of_pos all, List.takeWhile_append_of_pos all]
        rcases ih read.2 (fun other member => given other (List.mem_cons_of_mem _ member)) with
          same | longer
        · exact Or.inl (by rw [same])
        · exact Or.inr (by rw [longer, List.append_assoc])
      · left
        rw [takeWhile_append_other all, takeWhile_append_other all]

/-- Interpolation opens with a quote only where a string stands for a placeholder. -/
theorem head?_filled (read : Reads lexeme (texts behind)) (given : Given params (lexeme :: behind))
    (noConstant : lexeme.kind = .parameter →
      ∀ first ∈ (lexemeFilled format.toNumberFormat params lexeme).head?,
        first.kind ≠ .string .plain) :
    (texts (filled format.toNumberFormat params (lexeme :: behind))).head? =
        (texts (lexeme :: behind)).head? ∨
      (texts (filled format.toNumberFormat params (lexeme :: behind))).head? ≠ some '\'' ∧
        (texts (filled format.toNumberFormat params (lexeme :: behind))).head? ≠ some '"' := by
  rw [filled_cons]
  by_cases parameter : lexeme.kind = .parameter
  · right
    have literal := literal_filled format given List.mem_cons_self parameter
    obtain ⟨c, first, opens⟩ :=
      literal.opens (texts (filled format.toNumberFormat params behind))
    obtain ⟨second, more, d, whole, starts, kinds⟩ := literal.head
    rw [texts_append, first, ne_eq, ne_eq, Option.some_inj, Option.some_inj]
    refine ⟨?_, opens.ne (by decide)⟩
    intro quote
    have same : c = d := by
      obtain ⟨letters, seconds⟩ := List.head?_eq_some_iff.mp starts
      rw [whole, texts_cons, seconds] at first
      exact (Option.some.inj first).symm
    rcases kinds with ⟨letter, _⟩ | ⟨_, constant⟩ | ⟨_, minus⟩
    · rw [← same, quote] at letter
      exact absurd letter (by decide)
    · exact noConstant parameter second (by rw [whole]; rfl) constant
    · rw [← same, quote] at minus
      exact absurd minus (by decide)
  · left
    rw [lexemeFilled_of_ne format parameter, List.singleton_append]
    exact (texts_head? read.ne_nil).trans (texts_head? read.ne_nil).symm

/-- A lexeme of the template is read before the interpolated text where the conditions hold. -/
theorem bounded_filled (apart : Apart format params lexemes) (given : Given params lexemes)
    (split : lexemes = front ++ lexeme :: behind) (read : AllRead (lexeme :: behind))
    (other : lexeme.kind ≠ .parameter) :
    SqlLexer.Bounded lexeme (texts (filled format.toNumberFormat params behind)) := by
  have filledSplit : filled format.toNumberFormat params lexemes =
      filled format.toNumberFormat params front ++
        lexeme :: filled format.toNumberFormat params behind := by
    rw [split, filled_append, filled_cons, lexemeFilled_of_ne format other]
    rfl
  have constant : ∀ style, lexeme.kind = .string style →
      continued style (texts (filled format.toNumberFormat params behind)) = none :=
    fun style same => apart.constants _ lexeme _ style filledSplit same
  have member : ∀ later ∈ behind, later ∈ lexemes := by
    intro later inside
    rw [split]
    exact List.mem_append_right _ (List.mem_cons_of_mem _ inside)
  cases behind with
  | nil => exact read.1.bounded
  | cons next rest =>
    have givenRest : Given params rest :=
      fun later inside => given later (member later (List.mem_cons_of_mem _ inside))
    by_cases parameter : next.kind = .parameter
    · have literal := literal_filled format given (member next List.mem_cons_self) parameter
      have opens : ∃ digits, next.text = '$' :: digits := by
        obtain ⟨kind, text⟩ := next
        subst parameter
        obtain ⟨digits, same, -, -⟩ := parameter_parts read.2.1
        exact ⟨digits, same⟩
      obtain ⟨digits, dollar⟩ := opens
      have reads : Reads lexeme ('$' :: (digits ++ texts rest)) := by
        have whole := read.1
        rw [texts_cons, dollar] at whole
        exact whole
      rw [filled_cons, texts_append] at constant ⊢
      apply bounded_before_literal reads other literal _ constant
      apply apart.before (front ++ [lexeme]) next rest _ parameter
      · rw [filled_append, filled_cons, lexemeFilled_of_ne format other, filled]
        show lexeme ∈ (_ ++ [lexeme]).getLast?
        rw [List.getLast?_concat]
        rfl
      · rw [split, List.append_assoc]
        rfl
    · rw [filled_cons, lexemeFilled_of_ne format parameter, List.singleton_append,
        texts_cons] at constant ⊢
      apply bounded_same_start read.1 read.2.1 other constant _
        (run_filled format read.2.2 givenRest)
      intro word letter ampersand
      cases rest with
      | nil => exact Or.inl rfl
      | cons later rest =>
        apply head?_filled format read.2.2.1 givenRest
        exact fun placeholder => apart.unicode front lexeme next later rest split placeholder
          word letter ampersand

/-- Under the conditions every lexeme of the interpolated text is read. -/
theorem allRead_filled (apart : Apart format params lexemes) (given : Given params lexemes)
    (split : lexemes = front ++ behind) (read : AllRead behind) :
    AllRead (filled format.toNumberFormat params behind) := by
  induction behind generalizing front with
  | nil => trivial
  | cons lexeme rest ih =>
    have restSplit : lexemes = (front ++ [lexeme]) ++ rest := by
      rw [split, List.append_assoc]
      rfl
    have later := ih restSplit read.2
    by_cases parameter : lexeme.kind = .parameter
    · have member : lexeme ∈ lexemes := by
        rw [split]
        exact List.mem_append_right _ List.mem_cons_self
      have literal := literal_filled format given member parameter
      rw [filled_cons]
      apply allRead_literal literal later
      · exact apart.behind front lexeme rest split parameter
      · intro before text whole
        have filledSplit : filled format.toNumberFormat params lexemes =
            (filled format.toNumberFormat params front ++ before) ++
              ⟨.string .plain, text⟩ :: filled format.toNumberFormat params rest := by
          rw [split, filled_append, filled_cons, whole]
          simp only [List.append_assoc, List.singleton_append]
        exact apart.constants _ _ _ .plain filledSplit rfl
    · rw [filled_cons, lexemeFilled_of_ne format parameter]
      exact ⟨(reads_iff read.1 _).mpr (bounded_filled format apart given split read parameter),
        later⟩

/-- Where every lexeme of the interpolated text is read, the conditions hold. -/
theorem apart_of_allRead {lexemes : List Lexeme} (read : AllRead lexemes)
    (given : Given params lexemes)
    (all : AllRead (filled format.toNumberFormat params lexemes)) :
    Apart format params lexemes where
  before := by
    intro front placeholder back split parameter first last second opens
    obtain ⟨earlier, fronts⟩ := List.getLast?_eq_some_iff.mp last
    obtain ⟨rest, literals⟩ := List.head?_eq_some_iff.mp opens
    have member : placeholder ∈ lexemes := by
      rw [split]
      exact List.mem_append_right _ List.mem_cons_self
    have literal := literal_filled format given member parameter
    rw [literals] at literal
    rw [split, filled_append, fronts, filled_cons, literals, List.append_assoc] at all
    obtain ⟨reads, next, -⟩ := all.of_append
    have before : Reads first (second.text ++
        texts (rest ++ filled format.toNumberFormat params back)) := reads
    have inside : Reads second (texts (rest ++ filled format.toNumberFormat params back)) := next
    apply not_joins_of_reads before inside
    intro _ sign
    rw [texts_append]
    exact literal.minus sign _
  behind := by
    intro front placeholder back split parameter first last second opens
    obtain ⟨earlier, literals⟩ := List.getLast?_eq_some_iff.mp last
    obtain ⟨rest, backs⟩ := List.head?_eq_some_iff.mp opens
    have member : placeholder ∈ lexemes := by
      rw [split]
      exact List.mem_append_right _ List.mem_cons_self
    have literal := literal_filled format given member parameter
    rw [split, filled_append, filled_cons, literals, backs, List.append_assoc] at all
    obtain ⟨reads, next, -⟩ := all.of_append.of_append
    exact not_joins_of_reads reads next (fun operator => absurd operator (literal.last _ last))
  constants := by
    intro front constant back style split kind
    rw [split] at all
    obtain ⟨reads, -⟩ := all.of_append
    have bounded := reads.bounded
    obtain ⟨_, text⟩ := constant
    subst kind
    exact bounded
  unicode := by
    intro front word ampersand placeholder back split parameter kind letter mark first opens string
    have member : placeholder ∈ lexemes := by
      rw [split]
      exact List.mem_append_right _ (by simp)
    have literal := literal_filled format given member parameter
    obtain ⟨more, whole⟩ := List.head?_eq_some_iff.mp opens
    rw [whole] at literal
    rw [split] at read
    have wordOther : word.kind ≠ .parameter := by
      rw [kind]
      decide
    have ampersandOther : ampersand.kind ≠ .parameter := by
      have starts := read.of_append.2.1.1
      rw [mark] at starts
      intro wrong
      rw [wrong] at starts
      exact absurd (kindOf_iff.mp starts).1 (by decide)
    rw [split, filled_append, filled_cons, filled_cons, filled_cons,
      lexemeFilled_of_ne format wordOther, lexemeFilled_of_ne format ampersandOther, whole] at all
    obtain ⟨reads, -⟩ := all.of_append
    have inside : Reads word (ampersand.text ++ (first.text ++
        texts (more ++ filled format.toNumberFormat params back))) := reads
    exact no_quote_behind_unicode inside kind letter mark (literal.quote string)

/-- Interpolation preserves the lexemes of a template exactly where its placeholders name
parameters whose literals stay apart from their neighbours. -/
theorem interpolation_exact (template : SqlTemplate) (params : List (Value N)) :
    Preserved format.toNumberFormat template params ↔
      (Given params template.lexemes → Apart format params template.lexemes) := by
  obtain ⟨source, read⟩ := lex_eq_some.mp template.read
  constructor
  · intro preserved given
    have written := interpolateFrom_texts format.toNumberFormat read template.placed given
    rw [← source] at written
    exact apart_of_allRead format read given (lex_eq_some.mp (preserved _ written)).2
  · intro apart text interpolated
    have reached : interpolateFrom format.toNumberFormat params 0 (texts template.lexemes) =
        .ok text := by
      rw [← source]
      exact interpolated
    have given := given_of_interpolateFrom format.toNumberFormat read template.placed reached
    have written := interpolateFrom_texts format.toNumberFormat read template.placed given
    have same := Except.ok.inj (written.symm.trans reached)
    apply lex_eq_some.mpr
    refine ⟨same.symm, ?_⟩
    have whole : template.lexemes = [] ++ template.lexemes := rfl
    exact allRead_filled format (apart given) given whole read

end Preservation

/-- A placeholder directly behind a minus sign. -/
def minusTemplate : SqlTemplate where
  text := "SELECT 5 -$1".toList
  lexemes :=
    [⟨.word, "SELECT".toList⟩, ⟨.blank, [' ']⟩, ⟨.number, ['5']⟩, ⟨.blank, [' ']⟩,
      ⟨.operator, ['-']⟩, ⟨.parameter, ['$', '1']⟩]
  read := by decide
  placed := by
    have copied : ∀ text : List Char, '$' ∉ text → ∀ behind, NoPlaceholder text behind :=
      fun _ => noPlaceholder_of_no_dollar
    exact ⟨fun _ => copied _ (by decide) _, fun _ => copied _ (by decide) _,
      fun _ => copied _ (by decide) _, fun _ => copied _ (by decide) _,
      fun _ => copied _ (by decide) _, fun other => absurd rfl other, trivial⟩

/-- The minus sign of a value and the one before it open a comment. -/
theorem minus_opens_comment :
    interpolateQuery integerNumbers.toNumberFormat minusTemplate.text [.number (-1)] =
        .ok "SELECT 5 --1".toList ∧
      lex "SELECT 5 --1".toList =
        some [⟨.word, "SELECT".toList⟩, ⟨.blank, [' ']⟩, ⟨.number, ['5']⟩, ⟨.blank, [' ']⟩,
          ⟨.lineComment, "--1".toList⟩] ∧
      filled integerNumbers.toNumberFormat [.number (-1)] minusTemplate.lexemes =
        [⟨.word, "SELECT".toList⟩, ⟨.blank, [' ']⟩, ⟨.number, ['5']⟩, ⟨.blank, [' ']⟩,
          ⟨.operator, ['-']⟩, ⟨.operator, ['-']⟩, ⟨.number, ['1']⟩] ∧
      ¬ Preserved integerNumbers.toNumberFormat minusTemplate [.number (-1)] := by
  have written : interpolateQuery integerNumbers.toNumberFormat minusTemplate.text [.number (-1)] =
      .ok "SELECT 5 --1".toList := by decide
  refine ⟨written, by decide, by decide, ?_⟩
  intro preserved
  exact absurd (preserved _ written) (by decide)

end DddCqrsEs
