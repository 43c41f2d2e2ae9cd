import DddCqrsEs.NumberBounds
import DddCqrsEs.SqlText
import Mathlib.Algebra.Group.Nat.Defs

/- The interpolation of parameters into a SQL template, and the lexemes that stand for them. -/
namespace DddCqrsEs

open SqlLexer
open JsonTree (Value NumberFormat doubled)

section Interpolation

variable {N : Type} (format : NumberFormat N)

/-- The parameter that a placeholder with these digits names. -/
def parameterAt (params : List (Value N)) (digits : List Char) : Except String (Value N) :=
  match Decimal.unsigned digits with
  | none => .error "cannot parse integer from empty string"
  | some index =>
    if 2 ^ 64 ≤ index then .error "number too large to fit in target type"
    else
      let outOfBounds := "Parameter index $" ++ toString index ++
        " out of bounds (params len: " ++ toString params.length ++ ")"
      if index = 0 then .error outOfBounds
      else
        match params[index - 1]? with
        | none => .error outOfBounds
        | some value => .ok value

/-- The loop over the characters, while `skip` of them are the digits of a placeholder. -/
@[grind =]
def interpolateFrom (params : List (Value N)) : Nat → List Char → Except String (List Char)
  | _, [] => .ok []
  | skip + 1, _ :: rest => interpolateFrom params skip rest
  | 0, c :: rest =>
    let digits := rest.takeWhile Char.isDigit
    if c = '$' ∧ digits ≠ [] then
      match parameterAt params digits with
      | .error error => .error error
      | .ok value =>
        (interpolateFrom params digits.length rest).map (formatPgValue format value ++ ·)
    else (interpolateFrom params 0 rest).map (c :: ·)

def interpolateQuery (sql : List Char) (params : List (Value N)) : Except String (List Char) :=
  interpolateFrom format params 0 sql

/-- A number is a constant, behind its sign. -/
def numberLexemes : List Char → List Lexeme
  | '-' :: digits => [⟨.operator, ['-']⟩, ⟨.number, digits⟩]
  | digits => [⟨.number, digits⟩]

/-- The literal that stands for a value. -/
def valueLexemes : Value N → List Lexeme
  | .null => [⟨.word, "NULL".toList⟩]
  | .bool b => [⟨.word, if b then "true".toList else "false".toList⟩]
  | .number n => numberLexemes (format.write n)
  | .string s => [⟨.string .plain, quoteLiteral s⟩]
  | value => [⟨.string .plain, quoteLiteral (value.write format)⟩]

/-- What stands for a lexeme of the template. -/
def lexemeFilled (params : List (Value N)) (lexeme : Lexeme) : List Lexeme :=
  if lexeme.kind = .parameter then
    match parameterAt params lexeme.text.tail with
    | .error _ => []
    | .ok value => valueLexemes format value
  else [lexeme]

/-- The lexemes of a template, with a literal for each placeholder. -/
def filled (params : List (Value N)) (lexemes : List Lexeme) : List Lexeme :=
  lexemes.flatMap (lexemeFilled format params)

theorem texts_numberLexemes (text : List Char) : texts (numberLexemes text) = text := by
  rw [numberLexemes.eq_def]
  split
  · simp [texts]
  · simp [texts]

theorem texts_valueLexemes (value : Value N) :
    texts (valueLexemes format value) = formatPgValue format value := by
  cases value with
  | null => rfl
  | bool b =>
    cases b with
    | true => rfl
    | false => rfl
  | number n => exact texts_numberLexemes (format.write n)
  | string s => simp [texts, valueLexemes, formatPgValue]
  | array items => simp [texts, valueLexemes, formatPgValue]
  | object members => simp [texts, valueLexemes, formatPgValue]

end Interpolation

/-- No `$n` begins in the text before what stands behind it. -/
def NoPlaceholder (text behind : List Char) : Prop :=
  ∀ before after, text ++ behind = before ++ '$' :: after → before.length < text.length →
    ∀ c ∈ after.head?, c.isDigit = false

theorem noPlaceholder_of_no_dollar {text : List Char} (free : '$' ∉ text) (behind : List Char) :
    NoPlaceholder text behind := by
  intro before after split shorter
  have whole := congrArg (·[before.length]?) split
  have dollar : text[before.length]? = some '$' := by
    simpa [List.getElem?_append_left shorter] using whole
  exact absurd (List.mem_of_getElem? dollar) free

/-- Each `$n` is a parameter, so none stands in a constant, a comment or an identifier. -/
def Placed : List Lexeme → Prop
  | [] => True
  | lexeme :: behind =>
    (lexeme.kind ≠ .parameter → NoPlaceholder lexeme.text (texts behind)) ∧ Placed behind

/-- A SQL text with placeholders. -/
structure SqlTemplate where
  text : List Char
  lexemes : List Lexeme
  read : lex text = some lexemes
  placed : Placed lexemes

section Filled

variable {N : Type} (format : NumberFormat N)

/-- The template's placeholders name parameters that are there. -/
def Given (params : List (Value N)) (lexemes : List Lexeme) : Prop :=
  ∀ lexeme ∈ lexemes, lexeme.kind = .parameter →
    ∃ value, parameterAt params lexeme.text.tail = .ok value

/-- The interpolated text is read as the template's lexemes, with exactly one literal for each
placeholder. -/
def Preserved (template : SqlTemplate) (params : List (Value N)) : Prop :=
  ∀ text, interpolateQuery format template.text params = .ok text →
    lex text = some (filled format params template.lexemes)

theorem interpolateFrom_eq_drop (params : List (Value N)) (skip : Nat) (text : List Char) :
    interpolateFrom format params skip text =
      interpolateFrom format params 0 (text.drop skip) := by
  induction skip generalizing text with
  | zero => rfl
  | succ skip ih =>
    cases text with
    | nil => rfl
    | cons c text => rw [interpolateFrom, ih, List.drop_succ_cons]

variable {text behind : List Char} {params : List (Value N)} {lexemes : List Lexeme}

/-- A text without placeholders is copied. -/
theorem interpolateFrom_append (params : List (Value N)) (copied : NoPlaceholder text behind) :
    interpolateFrom format params 0 (text ++ behind) =
      (interpolateFrom format params 0 behind).map (text ++ ·) := by
  induction text with
  | nil =>
    rw [List.nil_append]
    cases interpolateFrom format params 0 behind with
    | error error => rfl
    | ok later => rfl
  | cons c text ih =>
    have later : NoPlaceholder text behind := by
      intro before after split shorter
      apply copied (c :: before) after
      · rw [List.cons_append, split, List.cons_append]
      · exact Nat.succ_lt_succ shorter
    have passes : ¬ (c = '$' ∧ (text ++ behind).takeWhile Char.isDigit ≠ []) := by
      rintro ⟨dollar, digits⟩
      apply digits
      have noDigit := copied [] (text ++ behind) (by rw [dollar]; rfl) (Nat.succ_pos _)
      cases whole : text ++ behind with
      | nil => rfl
      | cons d rest =>
        rw [whole] at noDigit
        rw [List.takeWhile_cons_of_neg]
        rw [noDigit d rfl]
        decide
    rw [List.cons_append, interpolateFrom, if_neg passes, ih later]
    cases interpolateFrom format params 0 behind with
    | error error => rfl
    | ok rest => rfl

/-- At a parameter the code writes the literal of the value that its digits name. -/
theorem interpolateFrom_parameter (params : List (Value N)) {lexeme : Lexeme}
    (reads : Reads lexeme behind) (parameter : lexeme.kind = .parameter) :
    interpolateFrom format params 0 (lexeme.text ++ behind) =
      match parameterAt params lexeme.text.tail with
      | .error error => .error error
      | .ok value =>
        (interpolateFrom format params 0 behind).map (formatPgValue format value ++ ·) := by
  obtain ⟨kind, text⟩ := lexeme
  subst parameter
  have ends : ∀ c ∈ behind.head?, isLetter c = false := reads.bounded
  obtain ⟨digits, rfl, nonempty, all⟩ := parameter_parts reads
  have taken : (digits ++ behind).takeWhile Char.isDigit = digits := by
    apply takeWhile_append_eq all
    intro c first
    rw [Bool.eq_false_iff]
    intro digit
    have letter := isLetter_of_isDigit digit
    rw [ends c first] at letter
    cases letter
  show interpolateFrom format params 0 ('$' :: (digits ++ behind)) = _
  rw [interpolateFrom, taken, if_pos ⟨rfl, nonempty⟩, interpolateFrom_eq_drop, List.drop_left]
  rfl

theorem texts_filled_cons (params : List (Value N)) (lexeme : Lexeme) (behind : List Lexeme) :
    texts (filled format params (lexeme :: behind)) =
      texts (lexemeFilled format params lexeme) ++ texts (filled format params behind) := by
  rw [filled, List.flatMap_cons, texts_append]
  rfl

/-- The code writes the literals in the places of the placeholders. -/
theorem interpolateFrom_texts (read : AllRead lexemes) (placed : Placed lexemes)
    (given : Given params lexemes) :
    interpolateFrom format params 0 (texts lexemes) =
      .ok (texts (filled format params lexemes)) := by
  induction lexemes with
  | nil => rfl
  | cons lexeme behind ih =>
    have rest := ih read.2 placed.2
      (fun other member => given other (List.mem_cons_of_mem _ member))
    rw [texts_filled_cons, texts_cons]
    by_cases parameter : lexeme.kind = .parameter
    · obtain ⟨value, names⟩ := given lexeme List.mem_cons_self parameter
      rw [interpolateFrom_parameter format params read.1 parameter, names, rest, lexemeFilled,
        if_pos parameter, names]
      simp only [texts_valueLexemes]
      rfl
    · rw [interpolateFrom_append format params (placed.1 parameter), rest, lexemeFilled,
        if_neg parameter]
      simp [texts]
      rfl

/-- The code fails where a placeholder names no parameter. -/
theorem given_of_interpolateFrom (read : AllRead lexemes) (placed : Placed lexemes)
    (interpolated : interpolateFrom format params 0 (texts lexemes) = .ok text) :
    Given params lexemes := by
  induction lexemes generalizing text with
  | nil =>
    intro lexeme member
    cases member
  | cons lexeme behind ih =>
    rw [texts_cons] at interpolated
    have later : ∀ write : List Char → List Char,
        (interpolateFrom format params 0 (texts behind)).map write = .ok text →
        Given params behind := by
      intro write mapped
      cases rest : interpolateFrom format params 0 (texts behind) with
      | error error =>
        rw [rest] at mapped
        cases mapped
      | ok written => exact ih read.2 placed.2 rest
    by_cases parameter : lexeme.kind = .parameter
    · rw [interpolateFrom_parameter format params read.1 parameter] at interpolated
      cases names : parameterAt params lexeme.text.tail with
      | error error =>
        rw [names] at interpolated
        cases interpolated
      | ok value =>
        rw [names] at interpolated
        intro other member named
        rcases List.mem_cons.mp member with same | inside
        · rw [same]
          exact ⟨value, names⟩
        · exact later _ interpolated other inside named
    · rw [interpolateFrom_append format params (placed.1 parameter)] at interpolated
      intro other member named
      rcases List.mem_cons.mp member with same | inside
      · rw [same] at named
        exact absurd named parameter
      · exact later _ interpolated other inside named

end Filled

end DddCqrsEs
