import Mathlib.Data.List.Basic
import Mathlib.Data.Rat.Defs
import Mathlib.Tactic.TypeStar

/- Multi-row inserts guarded by a condition on the largest value of a column over a slice of
the table: the statement with its placeholders, what binding puts for them, and what the
bound statement inserts. Nothing here names an application or a server. -/
namespace GuardedInsert

inductive Value where
  | null
  | integer (n : Int)
  | real (x : Rat)
  | text (s : String)
  | document (text : String)
  deriving DecidableEq, Repr

inductive SqlType where
  | text
  | int
  | bigint
  | jsonb
  deriving DecidableEq, Repr

inductive Fault where
  | unparsed (near : String)
  | unbound
  | noSuchColumn (name : String)
  | notConvertible
  | outOfRange
  | notNull (column : String)
  | unique (columns : List String)
  deriving DecidableEq, Repr

/-- A row by its columns. -/
abbrev Row := List (String × Value)

def cell (row : Row) (column : String) : Value := (row.lookup column).getD .null

inductive Term where
  /-- `?` -/
  | placeholder
  /-- `$n` -/
  | parameter (number : Nat)
  | literal (value : Value)
  | column (name : String)
  | sum (left right : Term)
  deriving DecidableEq, Repr

inductive Condition where
  | equal (left right : Term)
  | both (left right : Condition)
  | either (left right : Condition)
  deriving DecidableEq, Repr

inductive ArrayTerm where
  /-- `$n::type[]` -/
  | parameter (number : Nat) (type : SqlType)
  | literal (items : List Value)
  deriving DecidableEq, Repr

inductive Source where
  /-- `(VALUES …) AS u(…)` -/
  | values (rows : List (List Term))
  /-- `UNNEST(…) AS u(…)` -/
  | unnest (arrays : List ArrayTerm)
  deriving DecidableEq, Repr

/-- The parts of the statement in the order of its text:
`WITH stream AS (SELECT COALESCE(MAX(maximum), 0) AS current FROM table WHERE slice),
guard AS (SELECT current FROM stream WHERE guard)
INSERT INTO table (columns) SELECT projection FROM guard g CROSS JOIN source AS
u(sourceColumns) RETURNING returning`.
The qualifiers `g` and `u` are dropped: no column stands in both. -/
structure Statement where
  table : String
  maximum : String
  current : String
  slice : Condition
  guard : Condition
  columns : List String
  projection : List Term
  source : Source
  sourceColumns : List String
  returning : List String
  deriving DecidableEq, Repr

def Term.bindNext : Term → StateM (List Value) Term
  | .placeholder => fun values => (.literal (values.headD .null), values.tail)
  | .sum left right => do
      let left ← left.bindNext
      let right ← right.bindNext
      return .sum left right
  | term => return term

def Condition.bindNext : Condition → StateM (List Value) Condition
  | .equal left right => do
      let left ← left.bindNext
      let right ← right.bindNext
      return .equal left right
  | .both left right => do
      let left ← left.bindNext
      let right ← right.bindNext
      return .both left right
  | .either left right => do
      let left ← left.bindNext
      let right ← right.bindNext
      return .either left right

def Source.bindNext : Source → StateM (List Value) Source
  | .values rows => do
      let rows ← rows.mapM (fun row => row.mapM Term.bindNext)
      return .values rows
  | .unnest arrays => return .unnest arrays

def Statement.bindNext (statement : Statement) : StateM (List Value) Statement := do
  let slice ← statement.slice.bindNext
  let guard ← statement.guard.bindNext
  let projection ← statement.projection.mapM Term.bindNext
  let source ← statement.source.bindNext
  return { statement with slice, guard, projection, source }

inductive Param (α : Type) where
  | scalar (value : α)
  | array (items : List α)
  deriving DecidableEq, Repr

section Numbered

variable {α : Type} (convert : SqlType → α → Except Fault Value) (types : List SqlType)
  (params : List (Param α))

def scalarParam (number : Nat) : Except Fault Value :=
  match types[number - 1]?, params[number - 1]? with
  | some type, some (.scalar value) => convert type value
  | _, _ => .error .unbound

def Term.bindNumbered : Term → Except Fault Term
  | .parameter number => do
      let value ← scalarParam convert types params number
      return .literal value
  | .sum left right => do
      let left ← left.bindNumbered
      let right ← right.bindNumbered
      return .sum left right
  | term => return term

def Condition.bindNumbered : Condition → Except Fault Condition
  | .equal left right => do
      let left ← left.bindNumbered convert types params
      let right ← right.bindNumbered convert types params
      return .equal left right
  | .both left right => do
      let left ← left.bindNumbered
      let right ← right.bindNumbered
      return .both left right
  | .either left right => do
      let left ← left.bindNumbered
      let right ← right.bindNumbered
      return .either left right

/-- The statement up to the row of `guard`, all that decides whether it lets a write pass. -/
def Statement.bindGuardNumbered (statement : Statement) : Except Fault Statement := do
  let slice ← statement.slice.bindNumbered convert types params
  let guard ← statement.guard.bindNumbered convert types params
  return { statement with slice, guard }

end Numbered

/-- `=`, unknown where a side is `NULL`. -/
def Value.equal : Value → Value → Option Bool
  | .null, _ | _, .null => none
  | .integer m, .integer n => some (m = n)
  | .integer m, .real y => some ((m : Rat) = y)
  | .real x, .integer n => some (x = (n : Rat))
  | .real x, .real y => some (x = y)
  | .text s, .text t => some (s = t)
  | .document s, .document t => some (s = t)
  | _, _ => some false

/-- `AND` and `OR` of three truth values. -/
def both : Option Bool → Option Bool → Option Bool
  | some false, _ | _, some false => some false
  | some true, some true => some true
  | _, _ => none

def either : Option Bool → Option Bool → Option Bool
  | some true, _ | _, some true => some true
  | some false, some false => some false
  | _, _ => none

@[simp] theorem both_some (a b : Bool) : both (some a) (some b) = some (a && b) := by
  cases a <;> cases b <;> rfl

@[simp] theorem either_some (a b : Bool) : either (some a) (some b) = some (a || b) := by
  cases a <;> cases b <;> rfl

def Value.number : Value → Option Rat
  | .integer n => some n
  | .real x => some x
  | _ => none

/-- `MAX` of a numeric column passes over `NULL`. -/
def larger (first second : Value) : Value :=
  match first.number, second.number with
  | some x, some y => if x < y then second else first
  | none, some _ => second
  | _, none => first

def coalesce (value default : Value) : Value := if value = .null then default else value

/-- The rules in which servers differ. -/
structure Server where
  /-- Whether the columns of a parenthesised `VALUES` may be named after its alias. -/
  derivedColumns : Bool
  add : Value → Value → Except Fault Value

structure Schema where
  notNull : List String
  unique : List (List String)
  deriving DecidableEq, Repr

section Execution

variable (server : Server)

def Term.eval (columns : Row) : Term → Except Fault Value
  | .placeholder | .parameter _ => .error .unbound
  | .literal value => .ok value
  | .column name =>
    match columns.lookup name with
    | some value => .ok value
    | none => .error (.noSuchColumn name)
  | .sum left right => do
      let left ← left.eval columns
      let right ← right.eval columns
      server.add left right

def Condition.eval (columns : Row) : Condition → Except Fault (Option Bool)
  | .equal left right => do
      let left ← left.eval server columns
      let right ← right.eval server columns
      return left.equal right
  | .both left right => do
      let left ← left.eval columns
      let right ← right.eval columns
      return GuardedInsert.both left right
  | .either left right => do
      let left ← left.eval columns
      let right ← right.eval columns
      return GuardedInsert.either left right

/-- The rows for which a `WHERE` condition is true. -/
def Condition.select (condition : Condition) : List Row → Except Fault (List Row)
  | [] => .ok []
  | row :: rest => do
      let truth ← condition.eval server row
      let later ← condition.select rest
      return if truth = some true then row :: later else later

def Statement.admittedBy (statement : Statement) : Bool :=
  match statement.source with
  | .values _ => server.derivedColumns
  | .unnest _ => true

/-- The row of `guard`, if it has one. -/
def Statement.guardRow (statement : Statement) (table : List Row) :
    Except Fault (Option Value) :=
  if statement.admittedBy server then do
    let rows ← statement.slice.select server table
    let current := coalesce
      ((rows.map (cell · statement.maximum)).foldl larger .null) (.integer 0)
    let truth ← statement.guard.eval server [(statement.current, current)]
    return if truth = some true then some current else none
  else .error (.unparsed "(")

def Source.tuples : Source → Except Fault (List (List Value))
  | .values rows => rows.mapM (fun row => row.mapM (Term.eval server []))
  | .unnest arrays => do
      let columns ← arrays.mapM (fun array =>
        match array with
        | .literal items => Except.ok items
        | .parameter _ _ => Except.error Fault.unbound)
      let longest := (columns.map List.length).foldl max 0
      return (List.range longest).map (fun i => columns.map (fun items => items.getD i .null))

def Statement.project (statement : Statement) (current : Value) (tuple : List Value) :
    Except Fault Row := do
  let scope := (statement.current, current) :: statement.sourceColumns.zip tuple
  let values ← statement.projection.mapM (Term.eval server scope)
  return statement.columns.zip values

/-- Two rows that agree on a unique key, in which no column is `NULL`. -/
def sameKey (key : List String) (row other : Row) : Bool :=
  key.all (fun column => (cell row column).equal (cell other column) = some true)

def Schema.insert (schema : Schema) (table : List Row) (row : Row) :
    Except Fault (List Row) :=
  match schema.notNull.find? (fun column => cell row column = .null) with
  | some column => .error (.notNull column)
  | none =>
    match schema.unique.find? (fun key => table.any (sameKey key row)) with
    | some key => .error (.unique key)
    | none => .ok (table ++ [row])

/-- The table after the statement; a fault undoes the whole statement. -/
def Statement.run (statement : Statement) (schema : Schema) (table : List Row) :
    Except Fault (List Row) := do
  match ← statement.guardRow server table with
  | none => return table
  | some current =>
    let tuples ← statement.source.tuples server
    let rows ← tuples.mapM (statement.project server current)
    rows.foldlM schema.insert table

end Execution

theorem mapM_cons_run {σ α β : Type} {f : α → StateM σ β} {item : α} {rest : List α}
    {before between after : σ} {first : β} {later : List β}
    (one : f item before = (first, between)) (others : rest.mapM f between = (later, after)) :
    (item :: rest).mapM f before = (first :: later, after) := by
  rw [List.mapM_cons]
  show ((f item before).1 :: (rest.mapM f (f item before).2).1,
    (rest.mapM f (f item before).2).2) = _
  rw [one, others]

theorem bindNext_placeholders (values rest : List Value) :
    (List.replicate values.length Term.placeholder).mapM Term.bindNext (values ++ rest) =
      (values.map .literal, rest) := by
  induction values with
  | nil => rfl
  | cons value later ih => exact mapM_cons_run rfl ih

theorem bindNext_values {width : Nat} (tuples : List (List Value)) (rest : List Value)
    (wide : ∀ tuple ∈ tuples, tuple.length = width) :
    (List.replicate tuples.length (List.replicate width Term.placeholder)).mapM
        (fun row => row.mapM Term.bindNext) (tuples.flatten ++ rest) =
      (tuples.map (·.map .literal), rest) := by
  induction tuples with
  | nil => rfl
  | cons tuple later ih =>
    rw [List.forall_mem_cons] at wide
    rw [List.flatten_cons, List.append_assoc]
    have first := bindNext_placeholders tuple (later.flatten ++ rest)
    rw [wide.1] at first
    exact mapM_cons_run first (ih wide.2)

section Execution

variable (server : Server)

theorem mapM_ok {ε α β : Type} {f : α → Except ε β} (g : α → β) {items : List α}
    (each : ∀ item ∈ items, f item = .ok (g item)) : items.mapM f = .ok (items.map g) := by
  induction items with
  | nil => rfl
  | cons item rest ih =>
    rw [List.forall_mem_cons] at each
    rw [List.mapM_cons, each.1, ih each.2]
    rfl

theorem tuples_literal (tuples : List (List Value)) :
    (Source.values (tuples.map (·.map .literal))).tuples server = .ok tuples := by
  have one : ∀ tuple : List Value,
      (tuple.map Term.literal).mapM (Term.eval server []) = .ok tuple := by
    intro tuple
    rw [List.mapM_map]
    exact (mapM_ok id (fun value _ => rfl)).trans (by rw [List.map_id])
  rw [Source.tuples, List.mapM_map]
  exact (mapM_ok id (fun tuple _ => one tuple)).trans (by rw [List.map_id])

/-- A condition that is decided on every row selects the rows on which it is true. -/
theorem select_ok {condition : Condition} {admits : Row → Bool} {table : List Row}
    (decided : ∀ row ∈ table, condition.eval server row = .ok (some (admits row))) :
    condition.select server table = .ok (table.filter admits) := by
  induction table with
  | nil => rfl
  | cons row rest ih =>
    rw [List.forall_mem_cons] at decided
    rw [Condition.select, decided.1, ih decided.2]
    cases truth : admits row
    · rw [List.filter_cons_of_neg (by simp [truth])]
      rfl
    · rw [List.filter_cons_of_pos truth]
      rfl

theorem guardRow_ok {statement : Statement} {table selected : List Row} {current : Value}
    {truth : Bool} (admitted : statement.admittedBy server = true)
    (sliced : statement.slice.select server table = .ok selected)
    (largest : coalesce ((selected.map (cell · statement.maximum)).foldl larger .null)
      (.integer 0) = current)
    (guarded : statement.guard.eval server [(statement.current, current)] = .ok (some truth)) :
    statement.guardRow server table = .ok (if truth = true then some current else none) := by
  rw [Statement.guardRow, if_pos admitted, sliced]
  subst largest
  show (statement.guard.eval server [(statement.current, _)] >>= _) = _
  rw [guarded]
  cases truth <;> rfl

end Execution

@[simp] theorem larger_integer (m n : Nat) :
    larger (.integer m) (.integer n) = .integer (max m n : Nat) := by
  simp only [larger, Value.number, Rat.intCast_lt_intCast]
  split
  · congr 1
    omega
  · congr 1
    omega

theorem foldl_larger (numbers : List Nat) (first : Nat) :
    (numbers.map (fun n : Nat => Value.integer n)).foldl larger (.integer first) =
      .integer (numbers.foldl max first : Nat) := by
  induction numbers generalizing first with
  | nil => rfl
  | cons n rest ih =>
    rw [List.map_cons, List.foldl_cons, larger_integer, ih]
    rfl

/-- `COALESCE(MAX(column), 0)` of a column of natural numbers. -/
theorem coalesce_largest (numbers : List Nat) :
    coalesce ((numbers.map (fun n : Nat => Value.integer n)).foldl larger .null) (.integer 0) =
      .integer (numbers.foldl max 0 : Nat) := by
  cases numbers with
  | nil => rfl
  | cons n rest =>
    have first : larger .null (.integer n) = .integer n := rfl
    rw [List.map_cons, List.foldl_cons, List.foldl_cons, first, foldl_larger, Nat.zero_max]
    rfl

/-- A row that fits: no required column is `NULL` and no row of the table has its key. -/
def Schema.Fits (schema : Schema) (table : List Row) (row : Row) : Prop :=
  (∀ column ∈ schema.notNull, cell row column ≠ .null) ∧
    ∀ key ∈ schema.unique, ∀ other ∈ table, sameKey key row other = false

theorem insert_ok_iff {schema : Schema} {table after : List Row} {row : Row} :
    schema.insert table row = .ok after ↔ schema.Fits table row ∧ after = table ++ [row] := by
  unfold Schema.insert Schema.Fits
  split
  · rename_i column found
    have absent := List.mem_of_find?_eq_some found
    have null := List.find?_some found
    simp only [decide_eq_true_eq] at null
    constructor
    · intro wrong
      cases wrong
    · rintro ⟨⟨required, _⟩, _⟩
      exact absurd null (required column absent)
  · rename_i complete
    split
    · rename_i key found
      have taken := List.find?_some found
      obtain ⟨other, present, same⟩ := List.any_eq_true.mp taken
      constructor
      · intro wrong
        cases wrong
      · rintro ⟨⟨_, apart⟩, _⟩
        rw [apart key (List.mem_of_find?_eq_some found) other present] at same
        cases same
    · rename_i free
      simp only [List.find?_eq_none, decide_eq_true_eq, List.any_eq_true, not_exists, not_and,
        Bool.not_eq_true] at complete free
      constructor
      · intro stored
        exact ⟨⟨complete, free⟩, (Except.ok.inj stored).symm⟩
      · rintro ⟨_, rfl⟩
        rfl

/-- A batch is stored exactly when its rows fit the table and each other. -/
theorem insertAll_ok_iff {schema : Schema} {table after rows : List Row} :
    rows.foldlM schema.insert table = .ok after ↔
      (∀ row ∈ rows, schema.Fits table row) ∧
        rows.Pairwise (fun earlier later =>
          ∀ key ∈ schema.unique, sameKey key later earlier = false) ∧
        after = table ++ rows := by
  induction rows generalizing table with
  | nil =>
    simp only [List.foldlM_nil, List.not_mem_nil, false_implies, implies_true,
      List.Pairwise.nil, true_and, List.append_nil]
    exact ⟨fun stored => (Except.ok.inj stored).symm, fun same => congrArg Except.ok same.symm⟩
  | cons row rest ih =>
    rw [List.foldlM_cons, List.forall_mem_cons, List.pairwise_cons]
    constructor
    · intro stored
      cases first : schema.insert table row with
      | error fault =>
        rw [first] at stored
        cases stored
      | ok next =>
        rw [first] at stored
        obtain ⟨fits, rfl⟩ := insert_ok_iff.mp first
        obtain ⟨each, apart, rfl⟩ := ih.mp stored
        refine ⟨⟨fits, ?_⟩, ⟨?_, apart⟩, by simp⟩
        · intro later member
          exact ⟨(each later member).1, fun key unique other present =>
            (each later member).2 key unique other (List.mem_append_left _ present)⟩
        · intro later member key unique
          exact (each later member).2 key unique row (by simp)
    · rintro ⟨⟨fits, each⟩, ⟨apart, others⟩, rfl⟩
      rw [insert_ok_iff.mpr ⟨fits, rfl⟩]
      apply ih.mpr
      refine ⟨?_, others, by simp⟩
      intro later member
      refine ⟨(each later member).1, ?_⟩
      intro key unique other present
      rcases List.mem_append.mp present with old | new
      · exact (each later member).2 key unique other old
      · rw [List.mem_singleton.mp new]
        exact apart later member key unique

end GuardedInsert
