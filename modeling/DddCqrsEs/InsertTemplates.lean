import DddCqrsEs.InsertReturning

/- The inserts that return their sequences, what it means that the adapter reads back exactly
the rows that they insert, and the conditions under which it does. -/
namespace DddCqrsEs

open Cuts Words Brackets

/-- A word of SQL in any letter case. -/
structure Keyword (word : String) where
  text : Text
  spelled : text.map asciiUpper = word.toList

/-- The blanks of the server. -/
def sqlBlank (c : Char) : Bool :=
  c = ' ' || c = '\t' || c = '\n' || c = '\x0b' || c = '\x0c' || c = '\r'

structure Space where
  text : Text
  blank : ∀ c ∈ text, sqlBlank c = true

structure Gap extends Space where
  nonempty : text ≠ []

def quoteMarks : List Char := ['\'', '"', Char.ofNat 96]

inductive QuotedLetter (mark : Char)
  | plain (c : Char) (other : c ≠ mark ∧ c ≠ '\\')
  | doubled
  | escaped (c : Char)

def QuotedLetter.text {mark : Char} : QuotedLetter mark → Text
  | .plain c _ => [c]
  | .doubled => [mark, mark]
  | .escaped c => ['\\', c]

/-- What stands in a tuple: placeholders, numbers, names, operators and commas letter by
letter, quoted texts, and groups in parentheses, such as the arguments of a function. -/
inductive Expressions
  | done
  | letter (c : Char) (plain : c ∉ '(' :: ')' :: quoteMarks) (rest : Expressions)
  | quoted (mark : Char) (among : mark ∈ quoteMarks) (letters : List (QuotedLetter mark))
      (rest : Expressions)
  | group (inner rest : Expressions)

def Expressions.text : Expressions → Text
  | .done => []
  | .letter c _ rest => c :: rest.text
  | .quoted mark _ letters rest =>
    mark :: (letters.flatMap QuotedLetter.text ++ mark :: rest.text)
  | .group inner rest => '(' :: (inner.text ++ ')' :: rest.text)

def Expressions.tuple (items : Expressions) : Text := '(' :: (items.text ++ [')'])

/-- An identifier, which may be quoted. -/
inductive SqlName
  | bare (letters : Text) (nonempty : letters ≠ [])
      (names : ∀ c ∈ letters, c.isAlphanum = true ∨ c = '_' ∨ c = '$' ∨ 128 ≤ c.toNat)
  | quoted (letters : Text)

def SqlName.text : SqlName → Text
  | .bare letters _ _ => letters
  | .quoted letters =>
    let mark := Char.ofNat 96
    mark :: (letters.flatMap (fun c => if c = mark then [c, c] else [c]) ++ [mark])

structure Table where
  database : Option SqlName
  name : SqlName

def Table.text (table : Table) : Text :=
  match table.database with
  | none => table.name.text
  | some database => database.text ++ '.' :: table.name.text

/-- `ON DUPLICATE KEY UPDATE ... VALUES(column)`. -/
structure DuplicateUpdate where
  before : Space
  on : Keyword "ON"
  afterOn : Gap
  duplicate : Keyword "DUPLICATE"
  afterDuplicate : Gap
  key : Keyword "KEY"
  afterKey : Gap
  update : Keyword "UPDATE"
  afterUpdate : Gap
  assignments : Expressions
  values : Keyword "VALUES"
  afterValues : Space
  column : Expressions

def DuplicateUpdate.front (update : DuplicateUpdate) : Text :=
  update.before.text ++ (update.on.text ++ (update.afterOn.text ++ (update.duplicate.text ++
    (update.afterDuplicate.text ++ (update.key.text ++ (update.afterKey.text ++
    (update.update.text ++ (update.afterUpdate.text ++ (update.assignments.text ++
    (update.values.text ++ update.afterValues.text))))))))))

/-- A further tuple, with the blanks around the comma before it. -/
structure FurtherRow where
  before : Space
  behind : Space
  items : Expressions

def FurtherRow.text (row : FurtherRow) : Text :=
  row.before.text ++ ',' :: (row.behind.text ++ row.items.tuple)

/-- An `INSERT ... VALUES ... RETURNING sequence`. -/
structure InsertTemplate where
  outside : Space
  insert : Keyword "INSERT"
  afterInsert : Gap
  into : Keyword "INTO"
  afterInto : Gap
  table : Table
  beforeColumns : Space
  columns : Expressions
  beforeValues : Space
  values : Keyword "VALUES"
  afterValues : Space
  first : Expressions
  more : List FurtherRow
  update : Option DuplicateUpdate
  beforeReturning : Space
  returning : Keyword "RETURNING"
  afterReturning : Gap
  sequence : Keyword "SEQUENCE"
  behind : Space

namespace InsertTemplate

variable (t : InsertTemplate)

/-- How many rows the statement inserts. -/
def rows : Nat := t.more.length + 1

def updateText : Text :=
  match t.update with
  | none => []
  | some update => update.front ++ update.column.tuple

/-- The statement from the table's name on, without the clause. -/
def fromTable : Text :=
  t.table.text ++ (t.beforeColumns.text ++ (t.columns.tuple ++ (t.beforeValues.text ++
    (t.values.text ++ (t.afterValues.text ++ (t.first.tuple ++
    (t.more.flatMap FurtherRow.text ++ t.updateText)))))))

/-- The statement without its `RETURNING` clause. -/
def body : Text :=
  t.insert.text ++ (t.afterInsert.text ++ (t.into.text ++ (t.afterInto.text ++ t.fromTable)))

def clause : Text :=
  t.beforeReturning.text ++ (t.returning.text ++ (t.afterReturning.text ++ t.sequence.text))

def text : Text := t.outside.text ++ ((t.body ++ t.clause) ++ t.behind.text)

/-- The adapter reads back the sequences of exactly the inserted rows: it executes the
statement without the clause, and asks the right table for as many rows as are inserted. -/
def ReadsBack : Prop :=
  ∃ insertSql limit, spinMysqlInsertReturningLimit t.text = some (insertSql, limit) ∧
    (∃ blanks, (∀ c ∈ blanks, isWhitespace c = true) ∧ insertSql = t.body ++ blanks) ∧
    limit = t.rows ∧ mysqlInsertTargetTable insertSql = some t.table.text ∧
    ∀ database older inserted younger lastInsertId,
      database t.table.text = older ++ (inserted ++ younger) → inserted.length = t.rows →
      (∀ sequence ∈ older, sequence < lastInsertId) →
      (∀ sequence ∈ inserted ++ younger, lastInsertId ≤ sequence) →
      readBack database insertSql limit lastInsertId = inserted

/-- The clause is written ` RETURNING sequence` or ` RETURNING SEQUENCE` with these blanks,
and these words stand nowhere else. -/
def ClauseSpelled : Prop :=
  t.beforeReturning.text.getLast? = some ' ' ∧ t.returning.text = "RETURNING".toList ∧
    t.afterReturning.text = [' '] ∧
    (t.sequence.text = "sequence".toList ∨ t.sequence.text = "SEQUENCE".toList) ∧
    ¬ returningLower <:+: t.body ∧ ¬ returningUpper <:+: t.body

/-- What is left of a statement whose clause is spelled so. -/
def kept : Text := t.body ++ t.beforeReturning.text.dropLast

/-- One row is inserted where no ` VALUES ` stands; otherwise as many as there are
parentheses, in quotes or not, that open outside all others behind the last of them. -/
def RowsCounted : Prop :=
  (rfind " VALUES ".toList (t.kept.map asciiUpper) = none → t.rows = 1) ∧
    ∀ place, rfind " VALUES ".toList (t.kept.map asciiUpper) = some place →
      t.rows = max (outermost '(' ')' (valuesClause t.kept place)) 1

/-- The table's name is one word: behind the blank of `INTO `, or else behind the place where
the statement reads so first. -/
def TableFound : Prop :=
  (t.afterInto.text.head? = some ' ' ∧ t.beforeColumns.text ≠ [] ∧
    ∀ c ∈ t.table.text, isWhitespace c = false) ∨
  t.afterInto.text.head? ≠ some ' ' ∧
    ∃ place, find "INTO ".toList (t.kept.map asciiUpper) = some place ∧
      ∃ blanks back, t.kept.drop (place + 5) = blanks ++ (t.table.text ++ back) ∧
        (∀ c ∈ blanks, isWhitespace c = true) ∧ (∀ c ∈ t.table.text, isWhitespace c = false) ∧
        Opens isWhitespace back

end InsertTemplate

variable {c : Char}

theorem asciiUpper_of_isWhitespace (blank : isWhitespace c = true) : asciiUpper c = c := by
  rw [asciiUpper, if_neg]
  rintro ⟨low, high⟩
  have least : 97 ≤ c.toNat := low
  have most : c.toNat ≤ 122 := high
  simp only [isWhitespace, Bool.or_eq_true, Bool.and_eq_true, decide_eq_true_eq] at blank
  omega

theorem isWhitespace_of_sqlBlank (blank : sqlBlank c = true) : isWhitespace c = true := by
  simp only [sqlBlank, Bool.or_eq_true, decide_eq_true_eq] at blank
  rcases blank with ((((same | same) | same) | same) | same) | same
  all_goals
    rw [same]
    decide

theorem Space.isWhitespace (space : Space) : ∀ c ∈ space.text, isWhitespace c = true :=
  fun c member => isWhitespace_of_sqlBlank (space.blank c member)

theorem Space.map_asciiUpper (space : Space) : space.text.map asciiUpper = space.text := by
  have same : ∀ c ∈ space.text, asciiUpper c = id c :=
    fun c member => asciiUpper_of_isWhitespace (space.isWhitespace c member)
  rw [List.map_congr_left same, List.map_id]

namespace Keyword

variable {word : String}

theorem mem_upper (keyword : Keyword word) {c : Char} (member : c ∈ keyword.text) :
    asciiUpper c ∈ word.toList := by
  rw [← keyword.spelled]
  exact List.mem_map_of_mem member

theorem length_text (keyword : Keyword word) : keyword.text.length = word.toList.length := by
  rw [← keyword.spelled, List.length_map]

theorem isWhitespace (keyword : Keyword word) (solid : word.toList.all (!isWhitespace ·) = true) :
    ∀ c ∈ keyword.text, isWhitespace c = false := by
  intro c member
  cases blank : DddCqrsEs.isWhitespace c with
  | false => rfl
  | true =>
    have upper := keyword.mem_upper member
    rw [asciiUpper_of_isWhitespace blank] at upper
    simpa [blank] using List.all_eq_true.mp solid c upper

theorem length_pos (keyword : Keyword word) (nonempty : 0 < word.toList.length) :
    0 < keyword.text.length := by
  rw [keyword.length_text]
  exact nonempty

theorem closing_not_mem (keyword : Keyword word) (plain : ')' ∉ word.toList) :
    ')' ∉ keyword.text := by
  intro member
  have upper : asciiUpper ')' ∈ word.toList := keyword.mem_upper member
  exact plain upper

end Keyword

theorem opens_of_solid {text : Text} (solid : ∀ c ∈ text, isWhitespace c = false)
    (nonempty : 0 < text.length) (rest : Text) : Opens (!isWhitespace ·) (text ++ rest) := by
  cases text with
  | nil => exact absurd nonempty (Nat.lt_irrefl 0)
  | cons first text =>
    intro c opens
    rw [List.cons_append, List.head?_cons, Option.mem_def, Option.some_inj] at opens
    rw [← opens]
    simp [solid first List.mem_cons_self]

/-- Blanks end where the first letter behind them stands. -/
theorem gap_append_inj {gap other letters rest : Text} (blank : ∀ c ∈ gap, isWhitespace c = true)
    (opens : Opens (!isWhitespace ·) letters) (blanks : ∀ c ∈ other, isWhitespace c = true)
    (starts : Opens (!isWhitespace ·) rest) (same : gap ++ letters = other ++ rest) :
    gap = other ∧ letters = rest := by
  apply free_append_inj _ opens _ starts same
  · intro c member
    rw [blank c member]
    rfl
  · intro c member
    rw [blanks c member]
    rfl

theorem Space.not_mem (space : Space) (letter : sqlBlank c = false) : c ∉ space.text := by
  intro member
  rw [space.blank c member] at letter
  cases letter

theorem Expressions.tuple_ends (items : Expressions) : ∃ front, items.tuple = front ++ [')'] :=
  ⟨'(' :: items.text, rfl⟩

theorem FurtherRow.text_ends (row : FurtherRow) : ∃ front, row.text = front ++ [')'] := by
  refine ⟨row.before.text ++ ',' :: (row.behind.text ++ ('(' :: row.items.text)), ?_⟩
  simp [FurtherRow.text, Expressions.tuple]

namespace InsertTemplate

variable (t : InsertTemplate)

theorem rows_end : ∃ front, t.first.tuple ++ t.more.flatMap FurtherRow.text = front ++ [')'] := by
  rcases List.eq_nil_or_concat t.more with none | ⟨earlier, last, split⟩
  · rw [none, List.flatMap_nil, List.append_nil]
    exact t.first.tuple_ends
  · obtain ⟨front, ends⟩ := last.text_ends
    refine ⟨t.first.tuple ++ (earlier.flatMap FurtherRow.text ++ front), ?_⟩
    rw [split, List.concat_eq_append, List.flatMap_append, List.flatMap_singleton, ends]
    simp

theorem body_ends : ∃ front, t.body = front ++ [')'] := by
  have ends : ∃ front, t.first.tuple ++ (t.more.flatMap FurtherRow.text ++ t.updateText) =
      front ++ [')'] := by
    cases given : t.update with
    | none =>
      rw [updateText, given, List.append_nil]
      exact t.rows_end
    | some update =>
      refine ⟨t.first.tuple ++ (t.more.flatMap FurtherRow.text ++ (update.front ++
        '(' :: update.column.text)), ?_⟩
      simp [updateText, given, Expressions.tuple]
  obtain ⟨front, ends⟩ := ends
  refine ⟨t.insert.text ++ (t.afterInsert.text ++ (t.into.text ++ (t.afterInto.text ++
    (t.table.text ++ (t.beforeColumns.text ++ (t.columns.tuple ++ (t.beforeValues.text ++
    (t.values.text ++ (t.afterValues.text ++ front))))))))), ?_⟩
  rw [body, fromTable, ends]
  simp only [List.append_assoc]

theorem closing_not_mem_clause : ')' ∉ t.clause := by
  rw [clause]
  simp only [List.mem_append, not_or]
  exact ⟨t.beforeReturning.not_mem (by decide), t.returning.closing_not_mem (by decide),
    t.afterReturning.not_mem (by decide), t.sequence.closing_not_mem (by decide)⟩

end InsertTemplate

end DddCqrsEs
