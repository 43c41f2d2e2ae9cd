import DddCqrsEs.Brackets
import DddCqrsEs.Cuts
import DddCqrsEs.JsonFile
import DddCqrsEs.Words

/- How the Spin MySQL adapter, whose server has no `RETURNING`, takes the clause off an
insert, and how it reads the generated sequences back. -/
namespace DddCqrsEs

open Cuts Words Brackets

def asciiUpper (c : Char) : Char :=
  if 'a' ≤ c ∧ c ≤ 'z' then Char.ofNat (c.toNat - 32) else c

/-- The place where the word stands first (`str::find`). -/
def find (word text : Text) : Option Nat := (cutWord word text).map (fun cut => cut.1.length)

/-- What stands before the first place of the word (`split(word).next()`). -/
def beforeWord (word text : Text) : Text :=
  match cutWord word text with
  | some (front, _) => front
  | none => text

/-- `split_whitespace().next()`. -/
def firstWord (text : Text) : Option Text :=
  match upTo isWhitespace (text.dropWhile isWhitespace) with
  | [] => none
  | first :: word => some (first :: word)

/-- The text behind ` VALUES `, up to a ` RETURNING `. -/
def valuesClause (insertSql : Text) (valuesStart : Nat) : Text :=
  beforeWord " RETURNING ".toList
    (trim isWhitespace (insertSql.drop (valuesStart + " VALUES ".toList.length)))

/-- One character of the loop over the rows and the depth. A packet of the server holds fewer
than 2^31 characters, so the depth stays within `i32`. -/
def rowStep (counted : Nat × Int) (c : Char) : Nat × Int :=
  if c = '(' ∧ counted.2 = 0 then (counted.1 + 1, 1)
  else if c = '(' then (counted.1, counted.2 + 1)
  else if c = ')' then (counted.1, counted.2 - 1)
  else counted

def mysqlInsertValuesRowCount (insertSql : Text) : Nat :=
  match rfind " VALUES ".toList (insertSql.map asciiUpper) with
  | none => 1
  | some valuesStart =>
    let rows := ((valuesClause insertSql valuesStart).foldl rowStep (0, 0)).1
    max rows 1

def returningLower : Text := " RETURNING sequence".toList

def returningUpper : Text := " RETURNING SEQUENCE".toList

def spinMysqlInsertReturningLimit (sql : Text) : Option (Text × Nat) :=
  let trimmed := trim isWhitespace sql
  let upper := trimmed.map asciiUpper
  if ¬ "INSERT".toList <+: upper ∨ ¬ returningUpper <:+: upper then none
  else
    let insertSql := remove returningUpper (remove returningLower trimmed)
    some (insertSql, mysqlInsertValuesRowCount insertSql)

def mysqlInsertTargetTable (insertSql : Text) : Option Text :=
  match find "INTO ".toList (insertSql.map asciiUpper) with
  | none => none
  | some place => firstWord ((insertSql.drop (place + 5)).dropWhile isWhitespace)

/-- `SELECT sequence FROM {table} WHERE sequence >= LAST_INSERT_ID() ORDER BY sequence ASC
LIMIT {limit}`, where each table of the database is its sequences in ascending order. -/
def readBack (database : Text → List Nat) (insertSql : Text) (limit lastInsertId : Nat) :
    List Nat :=
  let table := (mysqlInsertTargetTable insertSql).getD "events".toList
  ((database table).filter (fun sequence => decide (lastInsertId ≤ sequence))).take limit

/-- The loop counts the parentheses that open outside all others. -/
theorem foldl_rowStep (text : Text) :
    text.foldl rowStep (0, 0) = (outermost '(' ')' text, level '(' ')' text) := by
  induction text using List.reverseRecOn with
  | nil => rfl
  | append_singleton text c ih =>
    rw [List.foldl_concat, ih, outermost_concat, level_append, rowStep]
    by_cases opening : c = '('
    · subst opening
      rw [level_opening (by decide)]
      by_cases closed : level '(' ')' text = 0
      · simp [closed]
      · simp [closed]
    · by_cases closing : c = ')'
      · subst closing
        rw [level_closing (by decide)]
        simp [opening]
        omega
      · have plain : level '(' ')' [c] = 0 := by
          apply level_of_free
          · rw [List.mem_singleton]
            exact fun same => opening same.symm
          · rw [List.mem_singleton]
            exact fun same => closing same.symm
        simp [opening, closing, plain]

theorem mysqlInsertValuesRowCount_absent {insertSql : Text}
    (absent : rfind " VALUES ".toList (insertSql.map asciiUpper) = none) :
    mysqlInsertValuesRowCount insertSql = 1 := by
  rw [mysqlInsertValuesRowCount, absent]

theorem mysqlInsertValuesRowCount_found {insertSql : Text} {valuesStart : Nat}
    (found : rfind " VALUES ".toList (insertSql.map asciiUpper) = some valuesStart) :
    mysqlInsertValuesRowCount insertSql =
      max (outermost '(' ')' (valuesClause insertSql valuesStart)) 1 := by
  rw [mysqlInsertValuesRowCount, found]
  show max ((valuesClause insertSql valuesStart).foldl rowStep (0, 0)).1 1 = _
  rw [foldl_rowStep]

theorem firstWord_eq_some {text word : Text} :
    firstWord text = some word ↔ word ≠ [] ∧
      ∃ blanks back, text = blanks ++ (word ++ back) ∧ (∀ c ∈ blanks, isWhitespace c = true) ∧
        (∀ c ∈ word, isWhitespace c = false) ∧ Opens isWhitespace back := by
  have reads : firstWord text = some word ↔
      word ≠ [] ∧ upTo isWhitespace (text.dropWhile isWhitespace) = word := by
    rw [firstWord]
    split
    · rename_i empty
      rw [empty]
      constructor
      · intro impossible
        cases impossible
      · intro both
        exact absurd both.2.symm both.1
    · rename_i first rest whole
      rw [whole, Option.some_inj]
      constructor
      · intro same
        exact ⟨same ▸ List.cons_ne_nil _ _, same⟩
      · exact And.right
  rw [reads, upTo_eq_iff]
  constructor
  · rintro ⟨nonempty, back, whole, free, opens⟩
    refine ⟨nonempty, text.takeWhile isWhitespace, back, ?_, ?_, free, opens⟩
    · rw [← whole, List.takeWhile_append_dropWhile]
    · exact fun c member => List.mem_takeWhile_imp member
  · rintro ⟨nonempty, blanks, back, rfl, blank, free, opens⟩
    refine ⟨nonempty, back, ?_, free, opens⟩
    cases word with
    | nil => exact absurd rfl nonempty
    | cons first word =>
      rw [List.dropWhile_append_of_pos blank, List.cons_append, List.dropWhile_cons_of_neg]
      rw [free first List.mem_cons_self]
      decide

theorem firstWord_dropWhile (text : Text) :
    firstWord (text.dropWhile isWhitespace) = firstWord text := by
  rw [firstWord, firstWord, List.dropWhile_idempotent]

/-- With the right limit the query answers the inserted sequences, whatever others add. -/
theorem take_inserted {older inserted younger : List Nat} {lastInsertId : Nat}
    (before : ∀ sequence ∈ older, sequence < lastInsertId)
    (behind : ∀ sequence ∈ inserted ++ younger, lastInsertId ≤ sequence) :
    ((older ++ (inserted ++ younger)).filter
      (fun sequence => decide (lastInsertId ≤ sequence))).take inserted.length = inserted := by
  have gone : older.filter (fun sequence => decide (lastInsertId ≤ sequence)) = [] := by
    rw [List.filter_eq_nil_iff]
    intro sequence member
    have smaller := before sequence member
    simpa using smaller
  have stays : (inserted ++ younger).filter (fun sequence => decide (lastInsertId ≤ sequence)) =
      inserted ++ younger := by
    rw [List.filter_eq_self]
    intro sequence member
    simpa using behind sequence member
  rw [List.filter_append, gone, stays, List.nil_append, List.take_left']
  rfl

end DddCqrsEs
