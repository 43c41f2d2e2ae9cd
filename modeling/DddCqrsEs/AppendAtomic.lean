import DddCqrsEs.Event
import DddCqrsEs.GuardedInsert
import DddCqrsEs.SqlStore

/- The guarded append statements of the HTTP SQL transports: what the two builders return,
how each transport binds it, and the tables it runs on. -/
namespace DddCqrsEs

open GuardedInsert

/-- A JSON value; an array or an object is the text it is written as. -/
inductive JsonValue where
  | null
  | bool (b : Bool)
  | integer (n : Int)
  | float (x : Rat)
  | string (s : String)
  | compound (text : String)
  deriving DecidableEq, Repr

structure AppendEventRow where
  eventId : String
  eventType : String
  eventVersion : Nat
  payload : JsonValue
  metadata : JsonValue
  recordedAtMs : Int
  deriving DecidableEq, Repr

def guardAny : Int := 0
def guardNostream : Int := 1
def guardExact : Int := 2

def validateEventsTableName (tableName : String) : Except String Unit :=
  match tableName.toList with
  | [] => .error "SQL event table name cannot be empty"
  | first :: rest =>
    if first = '_' ∨ first.isAlpha then
      if rest.all (fun ch => ch = '_' || ch.isAlphanum) then .ok ()
      else .error ("invalid SQL event table name `" ++ tableName ++ "`")
    else .error ("invalid SQL event table name `" ++ tableName ++ "`")

def guardMode : ExpectedRevision → Int × Nat
  | .any => (guardAny, 0)
  | .noStream => (guardNostream, 0)
  | .exact revision => (guardExact, revision)

/-- The columns both statements insert into. -/
def insertColumns : List String :=
  ["event_id", "aggregate_id", "aggregate_type", "revision", "event_type", "event_version",
    "payload", "metadata", "recorded_at_ms"]

def buildPostgresAppendStatement (table aggregateType aggregateId : String)
    (expected : ExpectedRevision) (rows : List AppendEventRow) :
    Except String (Statement × List (Param JsonValue)) := do
  validateEventsTableName table
  if rows.isEmpty then .error "append requires at least one event row" else
  let (mode, expectedRevision) := guardMode expected
  let statement : Statement :=
    { table
      maximum := "revision"
      current := "current_rev"
      slice := .both (.equal (.column "aggregate_type") (.parameter 1))
        (.equal (.column "aggregate_id") (.parameter 2))
      guard := .either (.either (.equal (.parameter 3) (.literal (.integer 0)))
          (.both (.equal (.parameter 3) (.literal (.integer 1)))
            (.equal (.column "current_rev") (.literal (.integer 0)))))
        (.both (.equal (.parameter 3) (.literal (.integer 2)))
          (.equal (.column "current_rev") (.parameter 4)))
      columns := insertColumns
      projection := [.column "event_id", .parameter 2, .parameter 1,
        .sum (.column "current_rev") (.column "row_offset"), .column "event_type",
        .column "event_version", .column "payload", .column "metadata", .column "recorded_at_ms"]
      source := .unnest [.parameter 5 .text, .parameter 6 .bigint, .parameter 7 .text,
        .parameter 8 .int, .parameter 9 .jsonb, .parameter 10 .jsonb, .parameter 11 .bigint]
      sourceColumns := ["event_id", "row_offset", "event_type", "event_version", "payload",
        "metadata", "recorded_at_ms"]
      returning := ["event_id", "revision", "sequence"] }
  return (statement,
    [.scalar (.string aggregateType), .scalar (.string aggregateId), .scalar (.integer mode),
      .scalar (.integer expectedRevision),
      .array (rows.map (fun row => .string row.eventId)),
      .array (rows.zipIdx.map (fun entry => .integer (entry.2 + 1))),
      .array (rows.map (fun row => .string row.eventType)),
      .array (rows.map (fun row => .integer row.eventVersion)),
      .array (rows.map (fun row => row.payload)),
      .array (rows.map (fun row => row.metadata)),
      .array (rows.map (fun row => .integer row.recordedAtMs))])

/-- The seven parameters of one row. -/
def AppendEventRow.sqliteParams (row : AppendEventRow) (index : Nat) : List JsonValue :=
  [.string row.eventId, .string row.eventType, .integer row.eventVersion, row.payload,
    row.metadata, .integer row.recordedAtMs, .integer (index + 1)]

def buildSqliteAppendStatement (table aggregateType aggregateId : String)
    (expected : ExpectedRevision) (rows : List AppendEventRow) :
    Except String (Statement × List JsonValue) := do
  validateEventsTableName table
  if rows.isEmpty then .error "append requires at least one event row" else
  let (mode, expectedRevision) := guardMode expected
  let params : List JsonValue :=
    [.string aggregateType, .string aggregateId, .integer mode, .integer guardNostream,
      .integer guardExact, .integer expectedRevision, .string aggregateId, .string aggregateType]
  let statement : Statement :=
    { table
      maximum := "revision"
      current := "current_rev"
      slice := .both (.equal (.column "aggregate_type") .placeholder)
        (.equal (.column "aggregate_id") .placeholder)
      guard := .either (.either (.equal .placeholder (.literal (.integer 0)))
          (.both (.equal .placeholder (.literal (.integer 1)))
            (.equal (.column "current_rev") (.literal (.integer 0)))))
        (.both (.equal .placeholder (.literal (.integer 2)))
          (.equal (.column "current_rev") .placeholder))
      columns := insertColumns
      projection := [.column "event_id", .placeholder, .placeholder,
        .sum (.column "current_rev") (.column "row_offset"), .column "event_type",
        .column "event_version", .column "payload", .column "metadata", .column "recorded_at_ms"]
      source := .values (List.replicate rows.length (List.replicate 7 .placeholder))
      sourceColumns := ["event_id", "event_type", "event_version", "payload", "metadata",
        "recorded_at_ms", "row_offset"]
      returning := ["event_id", "sequence", "revision"] }
  return (statement,
    params ++ (rows.zipIdx.map (fun entry => entry.1.sqliteParams entry.2)).flatten)

/-- From `-i64Max - 1` to `i64Max`. -/
def inI64 : Int → Bool
  | .ofNat n => decide (n ≤ i64Max)
  | .negSucc n => decide (n ≤ i64Max)

/-- The nearest 53-bit number, ties to even. -/
def nearestDouble (n : Nat) : Nat :=
  let spacing := 2 ^ (n.log2 - 52)
  let quotient := n / spacing
  let rest := n % spacing
  if spacing < 2 * rest ∨ (2 * rest = spacing ∧ quotient % 2 = 1) then (quotient + 1) * spacing
  else quotient * spacing

/-- `as f64` of an integer. -/
def asF64 : Int → Int
  | .ofNat m => nearestDouble m
  | .negSucc m => -nearestDouble (m + 1)

def toHranaArg : JsonValue → Value
  | .null => .null
  | .bool b => .integer (if b then 1 else 0)
  | .integer n => if inI64 n then .integer n else .real (asF64 n : Rat)
  | .float x => .real x
  | .string s => .text s
  | .compound text => .text text

/-- A sum of integers that leaves 64 bits is a sum of doubles. -/
def sqliteAdd : Value → Value → Except Fault Value
  | .integer m, .integer n =>
    .ok (if inI64 (m + n) then .integer (m + n) else .real (asF64 (asF64 m + asF64 n) : Rat))
  -- only a row offset beyond 64 bits comes here: the sum is not rounded
  | .integer m, .real y => .ok (.real (asF64 m + y))
  | .real x, .integer n => .ok (.real (x + asF64 n))
  | .real x, .real y => .ok (.real (x + y))
  | .null, _ | _, .null => .ok .null
  | _, _ => .error .notConvertible

/-- Whether the server's SQL has column names after the alias of a derived table is a
parameter: the statement relies on it, and the grammar of SQLite and libSQL does not have it,
so that it is `false` of them. -/
def sqliteServer (derivedColumns : Bool) : Server := ⟨derivedColumns, sqliteAdd⟩

/-- Conversion of a parameter; a JSON scalar in a `jsonb` column is kept as the scalar. -/
def postgresConvert : SqlType → JsonValue → Except Fault Value
  | _, .null => .ok .null
  | .text, .string s | .jsonb, .string s => .ok (.text s)
  | .int, .integer n =>
    if -(2 ^ 31) ≤ n ∧ n < 2 ^ 31 then .ok (.integer n) else .error .outOfRange
  | .bigint, .integer n => if inI64 n then .ok (.integer n) else .error .outOfRange
  | .jsonb, .bool b => .ok (.document (if b then "true" else "false"))
  | .jsonb, .integer n => .ok (.integer n)
  | .jsonb, .float x => .ok (.real x)
  | .jsonb, .compound text => .ok (.document text)
  | _, _ => .error .notConvertible

/-- What the server infers for `$1` to `$4`, which the statement does not cast: compared with
text columns, an integer literal and a `bigint`. -/
def postgresTypes : List SqlType := [.text, .text, .int, .bigint]

def postgresAdd : Value → Value → Except Fault Value
  | .integer m, .integer n =>
    if inI64 (m + n) then .ok (.integer (m + n)) else .error .outOfRange
  | .null, _ | _, .null => .ok .null
  | _, _ => .error .notConvertible

def postgresServer : Server := ⟨true, postgresAdd⟩

/-- The constraints of the migrations that create the events table. -/
def eventsSchema : Schema where
  notNull := insertColumns
  unique := [["event_id"], ["aggregate_type", "aggregate_id", "revision"]]

/-- A committed row; its payload and metadata are whatever was stored. -/
structure EventRecord where
  eventId : String
  aggregateId : String
  aggregateType : String
  revision : Nat
  eventType : String
  eventVersion : Nat
  payload : Value
  metadata : Value
  recordedAtMs : Int
  inRange : revision ≤ i64Max

def EventRecord.cells (record : EventRecord) : Row :=
  [("event_id", .text record.eventId), ("aggregate_id", .text record.aggregateId),
    ("aggregate_type", .text record.aggregateType), ("revision", .integer record.revision),
    ("event_type", .text record.eventType), ("event_version", .integer record.eventVersion),
    ("payload", record.payload), ("metadata", record.metadata),
    ("recorded_at_ms", .integer record.recordedAtMs)]

def streamRecords (records : List EventRecord) (aggregateType aggregateId : String) :
    List EventRecord :=
  records.filter (fun record =>
    record.aggregateType = aggregateType ∧ record.aggregateId = aggregateId)

/-- The revision the stream is at. -/
def currentRevisionOf (records : List EventRecord) (aggregateType aggregateId : String) : Nat :=
  ((streamRecords records aggregateType aggregateId).map EventRecord.revision).foldl max 0

/-- One Hrana request: the parameters in the order of the placeholders. -/
def executeSqlite (derivedColumns : Bool) (table : List Row) (statement : Statement)
    (params : List JsonValue) : Except Fault (List Row) :=
  (statement.bindNext (params.map toHranaArg)).1.run (sqliteServer derivedColumns) eventsSchema table

end DddCqrsEs
