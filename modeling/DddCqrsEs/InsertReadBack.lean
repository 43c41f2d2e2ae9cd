import DddCqrsEs.InsertTemplates
import DddCqrsEs.Substrings

/- The adapter reads back exactly the inserted rows under the conditions on the template, and
only under them. -/
namespace DddCqrsEs

open Cuts Words Brackets

namespace InsertTemplate

variable (t : InsertTemplate)

theorem insert_opens : ∃ first rest, t.insert.text = first :: rest ∧
    isWhitespace first = false := by
  have solid := t.insert.isWhitespace (by decide)
  have length := t.insert.length_text
  cases letters : t.insert.text with
  | nil =>
    rw [letters] at length
    exact absurd length (by decide)
  | cons first rest => exact ⟨first, rest, rfl, solid first (letters ▸ List.mem_cons_self)⟩

theorem sequence_ends : ∃ front last, t.sequence.text = front ++ [last] ∧
    isWhitespace last = false := by
  have solid := t.sequence.isWhitespace (by decide)
  have length := t.sequence.length_text
  rcases List.eq_nil_or_concat t.sequence.text with letters | ⟨front, last, letters⟩
  · rw [letters] at length
    exact absurd length (by decide)
  · rw [List.concat_eq_append] at letters
    refine ⟨front, last, letters, solid last ?_⟩
    rw [letters]
    exact List.mem_append_right _ List.mem_cons_self

/-- The blanks outside the statement are all that `trim` takes off. -/
theorem trim_text : trim isWhitespace t.text = t.body ++ t.clause := by
  rw [text]
  apply trim_append t.outside.isWhitespace t.behind.isWhitespace
  · obtain ⟨first, rest, letters, solid⟩ := t.insert_opens
    intro c opens
    simp only [body, letters, List.cons_append, List.head?_cons, Option.mem_def,
      Option.some_inj] at opens
    exact opens ▸ solid
  · obtain ⟨front, last, letters, solid⟩ := t.sequence_ends
    intro c ends
    rw [clause, letters] at ends
    simp only [← List.append_assoc, List.getLast?_concat, Option.mem_def,
      Option.some_inj] at ends
    exact ends ▸ solid

/-- The clause holds as many letters as either of the words. -/
theorem countP_clause : t.clause.countP (!isWhitespace ·) = 17 := by
  have blank : ∀ space : Space, space.text.countP (!isWhitespace ·) = 0 := by
    intro space
    rw [List.countP_eq_zero]
    intro c member
    rw [space.isWhitespace c member]
    decide
  have letters : ∀ {word : String} (keyword : Keyword word),
      word.toList.all (!isWhitespace ·) = true →
      keyword.text.countP (!isWhitespace ·) = word.toList.length := by
    intro word keyword solid
    rw [← keyword.length_text, List.countP_eq_length]
    intro c member
    rw [keyword.isWhitespace solid c member]
    rfl
  rw [clause, List.countP_append, List.countP_append, List.countP_append, blank, blank,
    letters t.returning (by decide), letters t.sequence (by decide)]
  decide

/-- The clause contains the word only where it is spelled so. -/
theorem infix_clause_iff {word : Text} (solid : word.all (!isWhitespace ·) = true)
    (length : word.length = 8) :
    ' ' :: ("RETURNING".toList ++ ' ' :: word) <:+: t.clause ↔
      t.beforeReturning.text.getLast? = some ' ' ∧ t.returning.text = "RETURNING".toList ∧
        t.afterReturning.text = [' '] ∧ t.sequence.text = word := by
  constructor
  · rintro ⟨before, behind, whole⟩
    have letters := t.countP_clause
    have inWord : word.countP (!isWhitespace ·) = 8 := by
      rw [← length, List.countP_eq_length]
      exact fun c member => List.all_eq_true.mp solid c member
    have inReturning : "RETURNING".toList.countP (!isWhitespace ·) = 9 := by decide
    have blankSpace : isWhitespace ' ' = true := by decide
    rw [← whole] at letters
    simp only [List.countP_append, List.countP_cons, inWord, inReturning, blankSpace] at letters
    have blankBefore : ∀ c ∈ before, isWhitespace c = true := by
      have none : before.countP (!isWhitespace ·) = 0 := by omega
      intro c member
      simpa using List.countP_eq_zero.mp none c member
    have empty : behind = [] := by
      rcases List.eq_nil_or_concat behind with empty | ⟨front, last, split⟩
      · exact empty
      · have none : behind.countP (!isWhitespace ·) = 0 := by omega
        have blank := List.countP_eq_zero.mp none last (by simp [split])
        obtain ⟨letters, final, ends, written⟩ := t.sequence_ends
        have lasts := congrArg List.getLast? whole
        rw [split, List.concat_eq_append, clause, ends] at lasts
        simp only [← List.append_assoc, List.getLast?_concat, Option.some_inj] at lasts
        rw [lasts, written] at blank
        exact absurd rfl blank
    have gaps : (before ++ [' ']) ++ ("RETURNING".toList ++ ' ' :: word) =
        t.beforeReturning.text ++
          (t.returning.text ++ (t.afterReturning.text ++ t.sequence.text)) := by
      rw [← clause, ← whole, empty]
      simp
    have wordSolid : ∀ c ∈ word, isWhitespace c = false :=
      fun c member => by simpa using List.all_eq_true.mp solid c member
    have blankFirst : ∀ c ∈ before ++ [' '], isWhitespace c = true := by
      intro c member
      rcases List.mem_append.mp member with earlier | last
      · exact blankBefore c earlier
      · rw [List.mem_singleton.mp last, blankSpace]
    obtain ⟨outer, inner⟩ := gap_append_inj blankFirst
      (opens_of_solid (by decide) (by decide) _) t.beforeReturning.isWhitespace
      (opens_of_solid (t.returning.isWhitespace (by decide))
        (t.returning.length_pos (by decide)) _) gaps
    obtain ⟨returnings, inside⟩ := List.append_inj inner t.returning.length_text.symm
    have single : [' '] ++ (word ++ []) =
        t.afterReturning.text ++ (t.sequence.text ++ []) := by
      simpa using inside
    obtain ⟨middle, words⟩ := gap_append_inj (by decide)
      (opens_of_solid wordSolid (by omega) _) t.afterReturning.isWhitespace
      (opens_of_solid (t.sequence.isWhitespace (by decide)) (t.sequence.length_pos (by decide)) _)
      single
    rw [List.append_nil, List.append_nil] at words
    refine ⟨?_, returnings.symm, middle.symm, words.symm⟩
    rw [← outer, List.getLast?_concat]
  · rintro ⟨ends, returning, after, same⟩
    obtain ⟨earlier, split⟩ := List.getLast?_eq_some_iff.mp ends
    refine ⟨earlier, [], ?_⟩
    rw [clause, split, returning, after, same]
    simp

theorem body_infix_iff {word front : Text} (foreign : ')' ∉ word) (ends : t.body = front ++ [')'])
    (nonempty : word ≠ []) : word <:+: t.body ↔ word <:+: front := by
  rw [ends, Substrings.infix_separated foreign]
  constructor
  · rintro (inside | empty)
    · exact inside
    · exact absurd (List.eq_nil_of_infix_nil empty) nonempty
  · exact Or.inl

theorem clause_lower_iff : returningLower <:+: t.clause ↔
    t.beforeReturning.text.getLast? = some ' ' ∧ t.returning.text = "RETURNING".toList ∧
      t.afterReturning.text = [' '] ∧ t.sequence.text = "sequence".toList :=
  t.infix_clause_iff (by decide) (by decide)

theorem clause_upper_iff : returningUpper <:+: t.clause ↔
    t.beforeReturning.text.getLast? = some ' ' ∧ t.returning.text = "RETURNING".toList ∧
      t.afterReturning.text = [' '] ∧ t.sequence.text = "SEQUENCE".toList :=
  t.infix_clause_iff (by decide) (by decide)

theorem returningLower_eq : returningLower = ' ' :: 'R' :: "ETURNING sequence".toList := by
  decide

theorem returningUpper_eq : returningUpper = ' ' :: 'R' :: "ETURNING SEQUENCE".toList := by
  decide

/-- Without the clause, the blanks before its last one are left. -/
theorem remove_clause (ends : t.beforeReturning.text.getLast? = some ' ')
    (returning : t.returning.text = "RETURNING".toList) (after : t.afterReturning.text = [' '])
    (sequence : t.sequence.text = "sequence".toList ∨ t.sequence.text = "SEQUENCE".toList) :
    remove returningUpper (remove returningLower t.clause) =
      t.beforeReturning.text.dropLast := by
  obtain ⟨earlier, split⟩ := List.getLast?_eq_some_iff.mp ends
  have blank : ∀ c ∈ earlier, isWhitespace c = true := by
    intro c member
    apply t.beforeReturning.isWhitespace
    rw [split]
    exact List.mem_append_left _ member
  have left : t.beforeReturning.text.dropLast = earlier := by
    rw [split, List.dropLast_concat]
  have opens : isWhitespace ' ' = true := by decide
  have letter : ¬ isWhitespace 'R' = true := by decide
  rw [left]
  rcases sequence with lower | upper
  · have whole : t.clause = earlier ++ returningLower := by
      have words : returningLower =
          [' '] ++ ("RETURNING".toList ++ ([' '] ++ "sequence".toList)) := by decide
      rw [clause, split, returning, after, lower, words]
      simp only [List.append_assoc]
    have lowerOut : remove returningLower t.clause = earlier := by
      rw [whole, returningLower_eq]
      exact @remove_append_self Char _ (fun c => isWhitespace c = true) ' ' 'R' _ _ blank opens
        letter
    rw [lowerOut]
    apply remove_eq_self
    intro inside
    have solid := blank 'R' (inside.subset (by decide))
    exact absurd solid (by decide)
  · have whole : t.clause = earlier ++ returningUpper := by
      have words : returningUpper =
          [' '] ++ ("RETURNING".toList ++ ([' '] ++ "SEQUENCE".toList)) := by decide
      rw [clause, split, returning, after, upper, words]
      simp only [List.append_assoc]
    have lowerOut : remove returningLower t.clause = t.clause := by
      apply remove_eq_self
      rw [clause_lower_iff, upper]
      intro both
      exact absurd both.2.2.2 (by decide)
    rw [lowerOut, whole, returningUpper_eq]
    exact @remove_append_self Char _ (fun c => isWhitespace c = true) ' ' 'R' _ _ blank opens
      letter

/-- A statement whose clause is spelled so loses the clause and nothing else. -/
theorem remove_statement (spelled : t.ClauseSpelled) :
    remove returningUpper (remove returningLower (t.body ++ t.clause)) = t.kept := by
  obtain ⟨ends, returning, after, sequence, noLower, noUpper⟩ := spelled
  obtain ⟨front, closes⟩ := t.body_ends
  rw [t.body_infix_iff (by decide) closes (by decide)] at noLower noUpper
  have split : t.body ++ t.clause = front ++ ')' :: t.clause := by
    rw [closes, List.append_assoc]
    rfl
  rw [split, remove_append_cons (by decide) (by decide), remove_eq_self noLower,
    remove_append_cons (by decide) (by decide), remove_eq_self noUpper,
    t.remove_clause ends returning after sequence, kept, closes, List.append_assoc]
  rfl

theorem remove_twice_length {text : Text}
    (same : remove returningUpper (remove returningLower text) = text) :
    ¬ returningLower <:+: text ∧ ¬ returningUpper <:+: text := by
  have lowerNonempty : returningLower ≠ [] := by decide
  have upperNonempty : returningUpper ≠ [] := by decide
  have first := (remove_sublist lowerNonempty text).length_le
  have second := (remove_sublist upperNonempty (remove returningLower text)).length_le
  rw [same] at second
  have lower : ¬ returningLower <:+: text :=
    (remove_length_eq_iff lowerNonempty).mp (Nat.le_antisymm first second)
  rw [remove_eq_self lower] at same
  exact ⟨lower, (remove_length_eq_iff upperNonempty).mp (congrArg List.length same)⟩

/-- Only such a statement is left as its body. -/
theorem clauseSpelled_of_removed {blanks : Text} (blank : ∀ c ∈ blanks, isWhitespace c = true)
    (removed : remove returningUpper (remove returningLower (t.body ++ t.clause)) =
      t.body ++ blanks) : t.ClauseSpelled := by
  obtain ⟨front, closes⟩ := t.body_ends
  have split : t.body ++ t.clause = front ++ ')' :: t.clause := by
    rw [closes, List.append_assoc]
    rfl
  have splitLeft : t.body ++ blanks = front ++ ')' :: blanks := by
    rw [closes, List.append_assoc]
    rfl
  rw [split, remove_append_cons (by decide) (by decide), remove_append_cons (by decide)
    (by decide), splitLeft] at removed
  have noBlank : ')' ∉ blanks := by
    intro member
    exact absurd (blank _ member) (by decide)
  have lowerNonempty : returningLower ≠ [] := by decide
  have upperNonempty : returningUpper ≠ [] := by decide
  have noClause : ')' ∉ remove returningUpper (remove returningLower t.clause) := by
    intro member
    exact t.closing_not_mem_clause ((remove_sublist lowerNonempty _).mem
      ((remove_sublist upperNonempty _).mem member))
  have parts := cutLast_append noBlank front
  rw [← removed, cutLast_append noClause, Option.some_inj, Prod.mk.injEq] at parts
  obtain ⟨fronts, clauses⟩ := parts
  obtain ⟨noLower, noUpper⟩ := remove_twice_length fronts
  rw [← t.body_infix_iff (by decide) closes (by decide)] at noLower noUpper
  by_cases lower : returningLower <:+: t.clause
  · obtain ⟨ends, returning, after, sequence⟩ := t.clause_lower_iff.mp lower
    exact ⟨ends, returning, after, Or.inl sequence, noLower, noUpper⟩
  · rw [remove_eq_self lower] at clauses
    by_cases upper : returningUpper <:+: t.clause
    · obtain ⟨ends, returning, after, sequence⟩ := t.clause_upper_iff.mp upper
      exact ⟨ends, returning, after, Or.inr sequence, noLower, noUpper⟩
    · rw [remove_eq_self upper] at clauses
      have letters := t.countP_clause
      have none : t.clause.countP (!isWhitespace ·) = 0 := by
        rw [List.countP_eq_zero, clauses]
        intro c member
        rw [blank c member]
        decide
      omega

end InsertTemplate

theorem SqlName.text_ne_nil (name : SqlName) : name.text ≠ [] := by
  cases name with
  | bare letters nonempty names => exact nonempty
  | quoted letters => exact List.cons_ne_nil _ _

theorem Table.text_ne_nil (table : Table) : table.text ≠ [] := by
  rw [Table.text]
  cases table.database with
  | none => exact table.name.text_ne_nil
  | some database => exact List.append_ne_nil_of_right_ne_nil _ (List.cons_ne_nil _ _)

/-- The first `INTO ` of an insert is the keyword, where the blank follows it. -/
theorem find_into {gap : Text} (blank : ∀ c ∈ gap, isWhitespace c = true) (rest : Text) :
    find "INTO ".toList ("INSERT".toList ++ (gap ++ ("INTO ".toList ++ rest))) =
      some (gap.length + 6) := by
  have free : 'I' ∉ "NSERT".toList ++ gap := by
    rw [List.mem_append, not_or]
    refine ⟨by decide, ?_⟩
    intro member
    exact absurd (blank _ member) (by decide)
  have tail : cutWord "INTO ".toList (("NSERT".toList ++ gap) ++ "INTO ".toList ++ rest) =
      some ("NSERT".toList ++ gap, rest) := cutWord_append free rest
  have opening : "INSERT".toList ++ (gap ++ ("INTO ".toList ++ rest)) =
      'I' :: (("NSERT".toList ++ gap) ++ "INTO ".toList ++ rest) := by
    have letters : "INSERT".toList = 'I' :: "NSERT".toList := by decide
    rw [letters]
    simp only [List.cons_append, List.append_assoc]
  have other : ¬ "INTO ".toList.isPrefixOf
      ('I' :: (("NSERT".toList ++ gap) ++ "INTO ".toList ++ rest)) = true := by
    rw [List.isPrefixOf_iff_prefix]
    intro starts
    have third : 'T' = 'S' := starts.getElem (i := 2) (by decide)
    exact absurd third (by decide)
  rw [find, opening, cutWord, if_neg other, tail]
  show some (('I' :: ("NSERT".toList ++ gap)).length) = _
  rw [List.length_cons, List.length_append]
  congr 1
  have five : "NSERT".toList.length = 5 := by decide
  omega

namespace InsertTemplate

variable (t : InsertTemplate)

/-- What the adapter reads the table's name from, where a blank follows `INTO`. -/
theorem target_behind_blank {gap : Text} (split : t.afterInto.text = ' ' :: gap) (rest : Text) :
    mysqlInsertTargetTable (t.body ++ rest) = firstWord (gap ++ (t.fromTable ++ rest)) := by
  have upper : (t.body ++ rest).map asciiUpper = "INSERT".toList ++ (t.afterInsert.text ++
      ("INTO ".toList ++ (gap ++ (t.fromTable ++ rest)).map asciiUpper)) := by
    have blank : asciiUpper ' ' = ' ' := by decide
    have word : "INTO ".toList = "INTO".toList ++ [' '] := by decide
    rw [body, split, word]
    simp only [List.map_append, List.map_cons, t.insert.spelled, t.into.spelled, blank,
      t.afterInsert.map_asciiUpper, List.append_assoc, List.cons_append, List.nil_append]
  have before : t.body ++ rest = (t.insert.text ++ (t.afterInsert.text ++ (t.into.text ++ [' ']))) ++
      (gap ++ (t.fromTable ++ rest)) := by
    rw [body, split]
    simp only [List.append_assoc, List.cons_append, List.nil_append]
  have length : (t.insert.text ++ (t.afterInsert.text ++ (t.into.text ++ [' ']))).length =
      t.afterInsert.text.length + 6 + 5 := by
    have six : "INSERT".toList.length = 6 := by decide
    have four : "INTO".toList.length = 4 := by decide
    simp only [List.length_append, t.insert.length_text, t.into.length_text, six, four,
      List.length_singleton]
    omega
  rw [mysqlInsertTargetTable, upper, find_into t.afterInsert.isWhitespace]
  show firstWord (((t.body ++ rest).drop (t.afterInsert.text.length + 6 + 5)).dropWhile
    isWhitespace) = _
  rw [before, List.drop_left' length, firstWord_dropWhile]

theorem tableFound_iff : mysqlInsertTargetTable t.kept = some t.table.text ↔ t.TableFound := by
  have nonempty := t.table.text_ne_nil
  rw [TableFound]
  by_cases follows : t.afterInto.text.head? = some ' '
  · obtain ⟨gap, split⟩ := List.head?_eq_some_iff.mp follows
    have blankGap : ∀ c ∈ gap, isWhitespace c = true := by
      intro c member
      apply t.afterInto.isWhitespace
      rw [split]
      exact List.mem_cons_of_mem _ member
    have parts : ∃ columns, t.fromTable ++ t.beforeReturning.text.dropLast =
        t.table.text ++ (t.beforeColumns.text ++ '(' :: columns) := by
      rw [fromTable]
      simp only [Expressions.tuple, List.append_assoc, List.cons_append]
      exact ⟨_, rfl⟩
    obtain ⟨columns, parts⟩ := parts
    rw [kept, t.target_behind_blank split, parts, firstWord_eq_some]
    constructor
    · rintro ⟨-, blanks, back, whole, blank, solid, opens⟩
      have positive := List.length_pos_iff.mpr nonempty
      obtain ⟨-, rests⟩ := gap_append_inj blankGap (opens_of_solid solid positive _) blank
        (opens_of_solid solid positive _) whole
      rw [List.append_cancel_left_eq] at rests
      refine Or.inl ⟨follows, ?_, solid⟩
      intro empty
      rw [← rests, empty] at opens
      exact absurd (opens '(' rfl) (by decide)
    · rintro (⟨-, apart, solid⟩ | ⟨other, -⟩)
      · refine ⟨nonempty, gap, t.beforeColumns.text ++ '(' :: columns, rfl, blankGap, solid, ?_⟩
        intro c opens
        apply t.beforeColumns.isWhitespace
        rw [List.head?_append_of_ne_nil _ apart] at opens
        exact List.mem_of_mem_head? opens
      · exact absurd follows other
  · rw [mysqlInsertTargetTable]
    cases place : find "INTO ".toList (t.kept.map asciiUpper) with
    | none => simp [follows]
    | some place =>
      show firstWord _ = _ ↔ _
      rw [firstWord_dropWhile, firstWord_eq_some]
      simp [follows, nonempty]

/-- The rows are counted as the condition counts them. -/
theorem rowsCounted_iff : mysqlInsertValuesRowCount t.kept = t.rows ↔ t.RowsCounted := by
  rw [RowsCounted]
  cases found : rfind " VALUES ".toList (t.kept.map asciiUpper) with
  | none =>
    rw [mysqlInsertValuesRowCount_absent found]
    simp [eq_comm]
  | some place =>
    rw [mysqlInsertValuesRowCount_found found]
    simp [eq_comm]

/-- An insert is recognized at least where its clause is spelled with single blanks. -/
theorem recognized (spelled : t.ClauseSpelled) :
    spinMysqlInsertReturningLimit t.text = some (t.kept, mysqlInsertValuesRowCount t.kept) := by
  obtain ⟨ends, returning, after, sequence, -⟩ := id spelled
  have starts : "INSERT".toList <+: (t.body ++ t.clause).map asciiUpper := by
    rw [body, List.append_assoc, List.map_append, t.insert.spelled]
    exact List.prefix_append _ _
  have contains : returningUpper <:+: (t.body ++ t.clause).map asciiUpper := by
    obtain ⟨earlier, split⟩ := List.getLast?_eq_some_iff.mp ends
    have words : returningUpper = [' '] ++ ("RETURNING".toList ++ ([' '] ++ "SEQUENCE".toList)) := by
      decide
    have blank : [' '].map asciiUpper = [' '] := by decide
    refine ⟨(t.body ++ earlier).map asciiUpper, [], ?_⟩
    rw [clause, split, after, words]
    simp only [List.map_append, t.returning.spelled, t.sequence.spelled, blank, List.append_assoc,
      List.append_nil]
  rw [spinMysqlInsertReturningLimit]
  simp only [t.trim_text]
  rw [if_neg, t.remove_statement spelled]
  rintro (other | other)
  · exact other starts
  · exact other contains

theorem parts_of_readsBack (reads : t.ReadsBack) :
    t.ClauseSpelled ∧ t.RowsCounted ∧ t.TableFound := by
  obtain ⟨insertSql, limit, answer, ⟨blanks, blank, whole⟩, rows, table, -⟩ := reads
  rw [spinMysqlInsertReturningLimit] at answer
  simp only [t.trim_text] at answer
  split at answer
  · cases answer
  · rw [Option.some_inj, Prod.mk.injEq] at answer
    obtain ⟨removed, counted⟩ := answer
    have spelled := t.clauseSpelled_of_removed blank (removed.trans whole)
    rw [t.remove_statement spelled] at removed counted
    rw [← removed] at table
    exact ⟨spelled, t.rowsCounted_iff.mp (counted.trans rows), t.tableFound_iff.mp table⟩

theorem readsBack_of_parts (spelled : t.ClauseSpelled) (rows : t.RowsCounted)
    (table : t.TableFound) : t.ReadsBack := by
  have counted := t.rowsCounted_iff.mpr rows
  have target := t.tableFound_iff.mpr table
  refine ⟨t.kept, mysqlInsertValuesRowCount t.kept, t.recognized spelled,
    ⟨t.beforeReturning.text.dropLast, ?_, rfl⟩, counted, target, ?_⟩
  · exact fun c member => t.beforeReturning.isWhitespace c (List.mem_of_mem_dropLast member)
  · intro database older inserted younger lastInsertId holds length before behind
    rw [readBack, target, counted, ← length]
    show (((database t.table.text).filter _).take inserted.length) = inserted
    rw [holds]
    exact take_inserted before behind

/-- The adapter reads back exactly the inserted rows where, and only where, the clause is
spelled with single blanks, the parentheses outside all others count the rows, and the table's
name is one word. -/
theorem readsBack_exact : t.ReadsBack ↔ t.ClauseSpelled ∧ t.RowsCounted ∧ t.TableFound := by
  constructor
  · exact t.parts_of_readsBack
  · rintro ⟨spelled, rows, table⟩
    exact t.readsBack_of_parts spelled rows table

end InsertTemplate

/-- `INSERT INTO events (a) VALUES (?), (?) ON DUPLICATE KEY UPDATE a=VALUES(a)
RETURNING sequence`. -/
def upsertTemplate : InsertTemplate :=
  let blank : Gap := ⟨⟨[' '], by decide⟩, by decide⟩
  let none : Space := ⟨[], by decide⟩
  let column : Expressions := .letter 'a' (by decide) .done
  let value : Expressions := .letter '?' (by decide) .done
  { outside := none, insert := ⟨"INSERT".toList, by decide⟩, afterInsert := blank,
    into := ⟨"INTO".toList, by decide⟩, afterInto := blank,
    table := ⟨Option.none, .bare "events".toList (by decide) (by decide)⟩,
    beforeColumns := blank.toSpace, columns := column, beforeValues := blank.toSpace,
    values := ⟨"VALUES".toList, by decide⟩, afterValues := blank.toSpace, first := value,
    more := [⟨none, blank.toSpace, value⟩],
    update := some
      { before := blank.toSpace, on := ⟨"ON".toList, by decide⟩, afterOn := blank,
        duplicate := ⟨"DUPLICATE".toList, by decide⟩, afterDuplicate := blank,
        key := ⟨"KEY".toList, by decide⟩, afterKey := blank,
        update := ⟨"UPDATE".toList, by decide⟩, afterUpdate := blank,
        assignments := .letter 'a' (by decide) (.letter '=' (by decide) .done),
        values := ⟨"VALUES".toList, by decide⟩, afterValues := none, column := column },
    beforeReturning := blank.toSpace, returning := ⟨"RETURNING".toList, by decide⟩,
    afterReturning := blank, sequence := ⟨"sequence".toList, by decide⟩, behind := none }

/-- The column of the update is counted as a third row. -/
theorem upsert_overcounted :
    upsertTemplate.rows = 2 ∧ mysqlInsertValuesRowCount upsertTemplate.kept = 3 ∧
      ¬ upsertTemplate.ReadsBack := by
  have counted : mysqlInsertValuesRowCount upsertTemplate.kept = 3 := by decide +kernel
  refine ⟨rfl, counted, ?_⟩
  intro reads
  have rows := upsertTemplate.rowsCounted_iff.mpr (upsertTemplate.parts_of_readsBack reads).2.1
  rw [counted] at rows
  exact absurd rows (by decide)

end DddCqrsEs
