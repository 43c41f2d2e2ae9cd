import DddCqrsEs.FullstackApp.ReadonlyScan

/- The texts that the check accepts, as PostgreSQL reads them. -/
namespace DddCqrsEs.FullstackApp

open Cuts SqlLexer

section Accepted

variable {sql : Text} (accepted : validateReadonlySql sql = .ok ())

include accepted

/-- What an accepted text has passed. -/
theorem accepted_parts :
    (∀ ban ∈ banned, ¬ ban.toList <:+: ' ' :: ((cleaned sql).map asciiUpper ++ [' '])) ∧
      ';' ∉ Cuts.trim isWhitespace ((Cuts.trim isWhitespace sql).rdropWhile (· == ';')) := by
  rw [validateReadonlySql] at accepted
  simp only [cleaned_trim] at accepted
  split at accepted
  · cases accepted
  split at accepted
  · cases accepted
  split at accepted
  · cases accepted
  split at accepted
  · cases accepted
  · rename_i none_
    split at accepted
    · cases accepted
    · rename_i single
      refine ⟨?_, single⟩
      intro ban among
      have absent := List.find?_eq_none.mp none_ ban among
      simpa using absent

/-- Behind a semicolon of an accepted text stand semicolons and blanks. -/
theorem behind_semicolon {front behind : Text} (whole : sql = front ++ ';' :: behind) :
    ∀ c ∈ behind, c = ';' ∨ isWhitespace c = true := by
  have single := (accepted_parts accepted).2
  obtain ⟨lead, trail, parts, blank, blanks⟩ := trim_parts isWhitespace sql
  obtain ⟨ends, trimmed, semicolons⟩ :=
    rdropWhile_parts (· == ';') (Cuts.trim isWhitespace sql)
  obtain ⟨before, after, bodies, opens, closes⟩ :=
    trim_parts isWhitespace ((Cuts.trim isWhitespace sql).rdropWhile (· == ';'))
  have noBlank : isWhitespace ';' = false := by decide
  have free : ';' ∉ lead ++ (Cuts.trim isWhitespace sql).rdropWhile (· == ';') := by
    intro member
    rcases List.mem_append.mp member with leading | body
    · rw [blank _ leading] at noBlank
      cases noBlank
    · rw [bodies] at body
      simp only [List.mem_append] at body
      rcases body with first | inside | last
      · rw [opens _ first] at noBlank
        cases noBlank
      · exact single inside
      · rw [closes _ last] at noBlank
        cases noBlank
  have tail : ∀ c ∈ ends ++ trail, c = ';' ∨ isWhitespace c = true := by
    intro c member
    rcases List.mem_append.mp member with semicolon | blank
    · exact Or.inl (by simpa using semicolons c semicolon)
    · exact Or.inr (blanks c blank)
  have split : (lead ++ (Cuts.trim isWhitespace sql).rdropWhile (· == ';')) ++ (ends ++ trail) =
      front ++ ';' :: behind := by
    rw [← whole]
    conv => rhs; rw [parts, trimmed]
    simp only [List.append_assoc]
  rcases List.append_eq_append_iff.mp split with ⟨more, _, rest⟩ | ⟨more, fronts, rest⟩
  · intro c member
    apply tail c
    rw [rest]
    simp [member]
  · cases more with
    | nil =>
      intro c member
      apply tail c
      rw [← List.nil_append (ends ++ trail), ← rest]
      exact List.mem_cons_of_mem _ member
    | cons d more =>
      refine absurd ?_ free
      rw [fronts, (List.cons.inj rest).1]
      simp

end Accepted

section Keywords

variable {word : Text}

/-- Each keyword is searched for between blanks. -/
theorem banned_of_keyword {keyword : String} (among : keyword ∈ keywords) :
    (" " ++ keyword ++ " ") ∈ banned ∧ keyword.toList ≠ [] ∧
      ∀ c ∈ keyword.toList, isWhitespace c = false ∧ c ≠ '-' := by
  have all : ∀ keyword ∈ keywords, (" " ++ keyword ++ " ") ∈ banned ∧ keyword.toList ≠ [] ∧
      ∀ c ∈ keyword.toList, isWhitespace c = false ∧ c ≠ '-' := by decide
  exact all keyword among

theorem IsKeyword.letters (spelled : IsKeyword word) :
    word ≠ [] ∧ ∀ c ∈ word, isWhitespace c = false ∧ c ∉ "--".toList := by
  obtain ⟨_, nonempty, solid⟩ := banned_of_keyword spelled
  rw [String.toList_ofList] at nonempty solid
  refine ⟨fun empty => nonempty (by rw [empty]; rfl), ?_⟩
  intro c member
  obtain ⟨noBlank, noDash⟩ := solid (asciiUpper c) (List.mem_map_of_mem member)
  constructor
  · cases blank : isWhitespace c with
    | false => rfl
    | true =>
      rw [asciiUpper_of_isWhitespace blank, blank] at noBlank
      cases noBlank
  · intro dash
    have same : c = '-' := by simpa using dash
    rw [same] at noDash
    exact noDash (by decide)

/-- A visible keyword is found by the scan. -/
theorem keyword_found {front behind : Text} (spelled : IsKeyword word)
    (visible : Visible front behind) :
    ∃ ban ∈ banned, ban.toList <:+:
      ' ' :: ((cleaned (front ++ (word ++ behind))).map asciiUpper ++ [' ']) := by
  obtain ⟨nonempty, solid⟩ := spelled.letters
  refine ⟨_, (banned_of_keyword spelled).1, ?_⟩
  have found := (visible_found nonempty solid visible).map asciiUpper
  have blank : asciiUpper ' ' = ' ' := by decide
  have ban : (" " ++ String.ofList (word.map asciiUpper) ++ " ").toList =
      ' ' :: (word.map asciiUpper ++ [' ']) := by
    simp only [String.toList_append, String.toList_ofList]
    rfl
  rw [ban]
  simpa [blank] using found

end Keywords

section Lexemes

variable {sql : Text} {lexemes : List Lexeme}

/-- A keyword of an accepted text is not visible. -/
theorem noKeyword_iff (accepted : validateReadonlySql sql = .ok ())
    (read : lex sql = some lexemes) : NoKeyword lexemes ↔
      ∀ front word behind, lexemes = front ++ ⟨.word, word⟩ :: behind → IsKeyword word →
        Visible (texts front) (texts behind) := by
  constructor
  · intro free front word behind split spelled
    refine absurd spelled (free ⟨.word, word⟩ ?_ rfl)
    rw [split]
    exact List.mem_append_right _ List.mem_cons_self
  · intro seen lexeme member kind spelled
    obtain ⟨own, word⟩ := lexeme
    subst kind
    obtain ⟨front, behind, split⟩ := List.append_of_mem member
    obtain ⟨ban, among, found⟩ := keyword_found spelled (seen front word behind split spelled)
    apply (accepted_parts accepted).1 ban among
    rw [(lex_eq_some.mp read).1, split, texts_append, texts_cons]
    exact found

/-- The blanks below U+0080 are blanks for PostgreSQL, and no others are. -/
theorem isSpace_iff {c : Char} : isSpace c = true ↔ isWhitespace c = true ∧ c.toNat < 128 := by
  have spaces : isSpace c = true ↔ c ∈ [' ', '\t', '\n', '\r', '\x0b', '\x0c'] := by
    rw [isSpace, beq_iff_eq, classOf]
    split_ifs <;> simp_all
  rw [spaces]
  constructor
  · intro member
    simp only [List.mem_cons, List.not_mem_nil, or_false] at member
    rcases member with rfl | rfl | rfl | rfl | rfl | rfl
    all_goals decide
  · rintro ⟨blank, ascii⟩
    simp only [isWhitespace, Bool.or_eq_true, Bool.and_eq_true, decide_eq_true_eq] at blank
    have code : c.toNat ∈ [32, 9, 10, 13, 11, 12] := by
      simp only [List.mem_cons, List.not_mem_nil, or_false]
      omega
    have letters : ∀ number ∈ [32, 9, 10, 13, 11, 12],
        Char.ofNat number ∈ [' ', '\t', '\n', '\r', '\x0b', '\x0c'] := by decide
    have member := letters c.toNat code
    rwa [Char.ofNat_toNat] at member

theorem not_operator_of_blank {c : Char} (blank : isWhitespace c = true) :
    classOf c ≠ .operator := by
  intro operator
  have marks : ∀ d ∈ Char.ofNat 96 :: "~!@#^&|?+-*/%<>=".toList, isWhitespace d = false := by
    decide
  rw [classOf] at operator
  split_ifs at operator
  rename_i member
  rw [marks c (by simpa [or_comm] using member)] at blank
  cases blank

theorem ending_iff {lexeme : Lexeme} {behind : Text} (reads : Reads lexeme behind)
    (letters : ∀ c ∈ lexeme.text, c = ';' ∨ isWhitespace c = true) :
    Ending lexeme ↔ ∀ c ∈ lexeme.text, c.toNat < 128 := by
  have nonempty := reads.ne_nil
  obtain ⟨kind, text⟩ := lexeme
  cases text with
  | nil => exact absurd rfl nonempty
  | cons first rest =>
    have starts : Starts first (rest ++ behind) kind := kindOf_iff.mp reads.1
    have noOperator : classOf first ≠ .operator := by
      rcases letters first List.mem_cons_self with rfl | blank
      · decide
      · exact not_operator_of_blank blank
    constructor
    · rintro (blank | comment | comment | semicolon)
      · subst blank
        intro c member
        exact (isSpace_iff.mp ((dropWhile_append_eq_iff.mp (Option.some.inj reads.2)).1 c
          member)).2
      · subst comment
        exact absurd starts.1 noOperator
      · subst comment
        exact absurd starts.1 noOperator
      · cases semicolon
        decide
    · intro ascii
      rcases letters first List.mem_cons_self with rfl | blank
      · have special : kind = .special := (Option.some.inj reads.1).symm
        subst special
        obtain ⟨_, length⟩ := (reads_special_iff rest behind).mp reads
        rw [specialLength_single (by decide) (by decide)] at length
        have empty : rest = [] := List.eq_nil_of_length_eq_zero (by omega)
        rw [empty]
        exact Or.inr (Or.inr (Or.inr rfl))
      · have space := isSpace_iff.mpr ⟨blank, ascii first List.mem_cons_self⟩
        have opens : Starts first (rest ++ behind) .blank := by
          simpa [isSpace, Starts] using space
        have same := (kindOf_iff.mpr opens).symm.trans reads.1
        exact Or.inl (Option.some.inj same).symm

theorem singleStatement_iff (accepted : validateReadonlySql sql = .ok ())
    (read : lex sql = some lexemes) : SingleStatement lexemes ↔
      ∀ front behind, lexemes = front ++ ⟨.special, [';']⟩ :: behind →
        ∀ c ∈ texts behind, c.toNat < 128 := by
  obtain ⟨whole, all⟩ := lex_eq_some.mp read
  apply forall_congr'
  intro front
  apply forall_congr'
  intro behind
  apply forall_congr'
  intro split
  rw [split, texts_append, texts_cons] at whole
  have tail := behind_semicolon accepted whole
  rw [split] at all
  have later : AllRead behind := all.of_append.2
  have each : ∀ lexeme ∈ behind, (Ending lexeme ↔ ∀ c ∈ lexeme.text, c.toNat < 128) := by
    intro lexeme member
    obtain ⟨before, after, rfl⟩ := List.append_of_mem member
    apply ending_iff later.of_append.1
    intro c inside
    exact tail c (List.mem_flatMap.mpr ⟨lexeme, member, inside⟩)
  constructor
  · intro endings c member
    obtain ⟨lexeme, among, inside⟩ := List.mem_flatMap.mp member
    exact (each lexeme among).mp (endings lexeme among) c inside
  · intro ascii lexeme member
    refine (each lexeme member).mpr (fun c inside => ?_)
    exact ascii c (List.mem_flatMap.mpr ⟨lexeme, member, inside⟩)

end Lexemes

section Wrapped

/-- The lexemes that are put before the text. -/
def subqueryStart : List Lexeme :=
  [⟨.word, "SELECT".toList⟩, ⟨.blank, [' ']⟩, ⟨.operator, ['*']⟩, ⟨.blank, [' ']⟩,
    ⟨.word, "FROM".toList⟩, ⟨.blank, [' ']⟩, ⟨.special, ['(']⟩]

theorem lex_opening (text : Text) :
    lex ("SELECT * FROM (".toList ++ text) = (lex text).map (subqueryStart ++ ·) := by
  have read : ReadBefore text subqueryStart :=
    ⟨⟨rfl, rfl⟩, ⟨rfl, rfl⟩, ⟨rfl, rfl⟩, ⟨rfl, rfl⟩, ⟨rfl, rfl⟩, ⟨rfl, rfl⟩, ⟨rfl, rfl⟩, trivial⟩
  have letters : texts subqueryStart = "SELECT * FROM (".toList := by decide
  rw [← letters, lex_texts_append read]

def subqueryEnd : Text := " AS _dash_q LIMIT 500".toList

theorem lex_closing : lex (')' :: subqueryEnd) =
    some [⟨.special, [')']⟩, ⟨.blank, [' ']⟩, ⟨.word, "AS".toList⟩, ⟨.blank, [' ']⟩,
      ⟨.word, "_dash_q".toList⟩, ⟨.blank, [' ']⟩, ⟨.word, "LIMIT".toList⟩, ⟨.blank, [' ']⟩,
      ⟨.number, "500".toList⟩] := by
  decide

theorem sqlExec_cases (sql : Text) : sqlExec sql = sql ∨
    sqlExec sql = "SELECT * FROM (".toList ++ (sql ++ ')' :: subqueryEnd) := by
  by_cases limit : " LIMIT ".toList <:+: sql.map asciiUpper
  · exact Or.inl (if_pos limit)
  · have wrapped : sqlExec sql =
        "SELECT * FROM (".toList ++ sql ++ ") AS _dash_q LIMIT 500".toList := if_neg limit
    have tail : ") AS _dash_q LIMIT 500".toList = ')' :: subqueryEnd := by decide
    rw [tail, List.append_assoc] at wrapped
    exact Or.inr wrapped

/-- Neither the opening nor the closing of the subquery has a keyword. -/
theorem noKeyword_sqlExec {sql : Text} {lexemes : List Lexeme}
    (free : ∀ inner, lex sql = some inner → NoKeyword inner)
    (read : lex (sqlExec sql) = some lexemes) : NoKeyword lexemes := by
  rcases sqlExec_cases sql with same | wrapped
  · rw [same] at read
    exact free lexemes read
  · rw [wrapped, lex_opening, Option.map_eq_some_iff] at read
    obtain ⟨enclosed, read, rfl⟩ := read
    have unmarked : SqlLexer.Unmarked subqueryEnd := by decide
    obtain ⟨inner, readInner, words⟩ := lex_enclosed unmarked read
    have openings : NoKeyword subqueryStart := by decide
    have closings : ∀ outer, lex (')' :: subqueryEnd) = some outer → NoKeyword outer := by
      intro outer readOuter
      rw [lex_closing] at readOuter
      cases readOuter
      decide
    intro lexeme member word
    rcases List.mem_append.mp member with first | later
    · exact openings lexeme first word
    · rcases words lexeme later word with inside | ⟨outer, readOuter, outside⟩
      · exact free inner readInner lexeme inside word
      · exact closings outer readOuter lexeme outside word

end Wrapped

/-- An accepted text is one statement without a keyword, in itself and as it is executed, exactly
where the keywords in it stand between blanks or ends of lines and before any two dashes on the
line, and nothing but ASCII stands behind a semicolon. -/
theorem readsOnly_iff {sql : Text} (accepted : validateReadonlySql sql = .ok ()) :
    ReadsOnly sql ↔ ∀ lexemes, lex sql = some lexemes → Plain lexemes := by
  constructor
  · intro only lexemes read
    obtain ⟨single, free⟩ := only.1 lexemes read
    exact ⟨(noKeyword_iff accepted read).mp free, (singleStatement_iff accepted read).mp single⟩
  · intro plain
    have free : ∀ lexemes, lex sql = some lexemes → NoKeyword lexemes :=
      fun lexemes read => (noKeyword_iff accepted read).mpr (plain lexemes read).1
    refine ⟨fun lexemes read => ⟨?_, free lexemes read⟩, ?_⟩
    · exact (singleStatement_iff accepted read).mpr (plain lexemes read).2
    · exact fun lexemes read => noKeyword_sqlExec free read

/-- `WITH a AS (DELETE FROM t RETURNING *) SELECT * FROM a`: the parenthesis hides the keyword
from the scan. -/
def deleting : Text := "WITH a AS (DELETE FROM t RETURNING *) SELECT * FROM a".toList

theorem deleting_accepted :
    ¬ ∀ sql : Text, validateReadonlySql sql = .ok () → ReadsOnly sql := by
  have accepted : validateReadonlySql deleting = .ok () := by decide
  have keyword : ∃ lexemes, lex deleting = some lexemes ∧ ¬ NoKeyword lexemes := by decide
  intro sound
  obtain ⟨lexemes, read, found⟩ := keyword
  exact found ((sound deleting accepted).1 lexemes read).2

/-- `SELECT a FROM t;` is a single statement that only reads. -/
theorem readsOnly_select : ReadsOnly "SELECT a FROM t;".toList := by
  have accepted : validateReadonlySql "SELECT a FROM t;".toList = .ok () := by decide
  have read : ∀ lexemes, lex "SELECT a FROM t;".toList = some lexemes →
      NoKeyword lexemes ∧ ∀ c ∈ texts lexemes, c.toNat < 128 := by
    intro lexemes read
    have free : ∃ inner, lex "SELECT a FROM t;".toList = some inner ∧ NoKeyword inner ∧
        ∀ c ∈ texts inner, c.toNat < 128 := by decide
    obtain ⟨inner, same, all⟩ := free
    rw [read] at same
    cases same
    exact all
  apply (readsOnly_iff accepted).mpr
  intro lexemes same
  obtain ⟨free, ascii⟩ := read lexemes same
  refine ⟨(noKeyword_iff accepted same).mp free, ?_⟩
  intro front behind split c member
  apply ascii c
  rw [split, texts_append, texts_cons]
  simp [member]

end DddCqrsEs.FullstackApp
