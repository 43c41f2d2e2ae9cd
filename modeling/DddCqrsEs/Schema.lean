import DddCqrsEs.Interruption
import DddCqrsEs.SqlStore

/- The schema migrator: versioned lists of statements, executed one by one, each list
followed by a bookkeeping row. -/
namespace DddCqrsEs

open Interruption

/-- A column with its type and column constraints. -/
structure Column where
  name : String
  definition : String
  deriving DecidableEq, Repr

/-- A table, with the rows that the migrator reads: those of a bookkeeping table and those
of a table of projection positions. -/
structure SchemaTable where
  columns : List Column
  constraints : List String
  applied : List (Nat × String)
  positions : List (String × Int)
  deriving DecidableEq, Repr

/-- An index made by a statement of its own. -/
structure SchemaIndex where
  name : String
  table : String
  columns : List String
  condition : Option (String × String)
  unique : Bool
  deriving DecidableEq, Repr

structure SchemaDatabase where
  tables : String → Option SchemaTable
  indexes : List SchemaIndex

inductive MigrationError where
  | noSuchTable (name : String)
  | noSuchColumn (name : String)
  | duplicateColumn (name : String)
  | duplicateIndex (name : String)
  | noSuchIndex (name : String)
  | nameTaken (name : String)
  | duplicateRow (version : Nat) (tableName : String)
  | store (error : EventStoreError)
  deriving DecidableEq, Repr

/-- The statements that the migrator executes. A probe of the catalogue and what depends on
its answer are one of them. -/
inductive DdlStatement where
  | createTable (name : String) (columns : List Column) (constraints : List String)
  | createIndex (ifNotExists : Bool) (index : SchemaIndex)
  | createIndexUnlessPresent (index : SchemaIndex)
  | dropIndexIfExists (name : String)
  | dropIndex (table name : String)
  | addColumns (ifNotExists : Bool) (table : String) (columns : List Column)
  | copyCheckpoints (checkpointsTable : String)
  | recordMigration (migrationsTable : String) (version : Nat) (targetTable : String)
  deriving DecidableEq, Repr

def SchemaTable.columnNames (table : SchemaTable) : List String := table.columns.map Column.name

def SchemaTable.missing (table : SchemaTable) (names : List String) : List String :=
  names.filter fun name => name ∉ table.columnNames

/-- MySQL names indexes per table, the others per schema. -/
def SchemaDatabase.hasIndex (dialect : SqlDialect) (db : SchemaDatabase) (table name : String) :
    Bool :=
  db.indexes.any fun index => index.name = name && (dialect != .mysql || index.table = table)

def SchemaDatabase.withTable (db : SchemaDatabase) (name : String) (table : SchemaTable) :
    SchemaDatabase :=
  { db with tables := Function.update db.tables name (some table) }

def SchemaIndex.reads (index : SchemaIndex) : List String :=
  index.columns ++ (index.condition.map Prod.fst).toList

/-- `INSERT OR IGNORE` of rows under a primary key. -/
def insertOrIgnore (rows : List (String × Int)) : List (String × Int) → List (String × Int)
  | [] => rows
  | row :: rest =>
    if row.1 ∈ rows.map Prod.fst then insertOrIgnore rows rest
    else insertOrIgnore (rows ++ [row]) rest

namespace DdlStatement

/-- `CREATE TABLE IF NOT EXISTS`. Tables and indexes share their names except in MySQL;
PostgreSQL skips the statement for either. -/
def createTableOn (dialect : SqlDialect) (name : String) (columns : List Column)
    (constraints : List String) (db : SchemaDatabase) : Except MigrationError SchemaDatabase :=
  match db.tables name with
  | some _ => .ok db
  | none =>
    if dialect = .postgres ∧ db.hasIndex dialect name name then .ok db
    else if dialect = .sqlite ∧ db.hasIndex dialect name name then .error (.nameTaken name)
    else .ok (db.withTable name ⟨columns, constraints, [], []⟩)

/-- `CREATE INDEX [IF NOT EXISTS]`. SQLite looks at the columns only if it has to create. -/
def createIndexOn (dialect : SqlDialect) (ifNotExists : Bool) (index : SchemaIndex)
    (db : SchemaDatabase) : Except MigrationError SchemaDatabase :=
  match db.tables index.table with
  | none => .error (.noSuchTable index.table)
  | some table =>
    let missing := table.missing index.reads
    if dialect ≠ .sqlite ∧ missing ≠ [] then .error (.noSuchColumn (missing.headD ""))
    else if db.hasIndex dialect index.table index.name ∨
        (dialect = .postgres ∧ (db.tables index.name).isSome) then
      if ifNotExists then .ok db else .error (.duplicateIndex index.name)
    else if dialect = .sqlite ∧ (db.tables index.name).isSome then .error (.nameTaken index.name)
    else if missing ≠ [] then .error (.noSuchColumn (missing.headD ""))
    else .ok { db with indexes := db.indexes ++ [index] }

/-- `ALTER TABLE ADD COLUMN [IF NOT EXISTS]`, several columns at once or none. -/
def addColumnsTo (ifNotExists : Bool) (name : String) (columns : List Column)
    (db : SchemaDatabase) : Except MigrationError SchemaDatabase :=
  match db.tables name with
  | none => .error (.noSuchTable name)
  | some table =>
    match columns.find? (fun column => column.name ∈ table.columnNames), ifNotExists with
    | some column, false => .error (.duplicateColumn column.name)
    | _, _ => .ok (db.withTable name { table with
        columns := table.columns ++ columns.filter (fun column => column.name ∉ table.columnNames) })

/-- The compatibility copy: only if a table named `checkpoints` is there. -/
def copyCheckpointsInto (checkpointsTable : String) (db : SchemaDatabase) :
    Except MigrationError SchemaDatabase :=
  match db.tables "checkpoints" with
  | none => .ok db
  | some old =>
    match db.tables checkpointsTable with
    | none => .error (.noSuchTable checkpointsTable)
    | some table =>
      match old.missing ["projection_name", "last_sequence"] ++
          table.missing ["projection_name", "sequence"] with
      | name :: _ => .error (.noSuchColumn name)
      | [] => .ok (db.withTable checkpointsTable { table with
          positions := insertOrIgnore table.positions old.positions })

/-- Whether two table names are one in a key. MySQL's default collation does not tell the case
of letters apart; the names are ASCII. -/
def sameName (dialect : SqlDialect) (first second : String) : Bool :=
  match dialect with
  | .sqlite | .postgres => first = second
  | .mysql => first.toList.map Char.toLower = second.toList.map Char.toLower

/-- The bookkeeping row; version and table name are the primary key. -/
def record (dialect : SqlDialect) (migrationsTable : String) (version : Nat) (targetTable : String)
    (db : SchemaDatabase) : Except MigrationError SchemaDatabase :=
  match db.tables migrationsTable with
  | none => .error (.noSuchTable migrationsTable)
  | some table =>
    match table.missing ["version", "table_name", "description", "applied_at_ms"] with
    | name :: _ => .error (.noSuchColumn name)
    | [] =>
      if table.applied.any (fun row => row.1 = version && sameName dialect row.2 targetTable)
      then .error (.duplicateRow version targetTable)
      else .ok (db.withTable migrationsTable { table with
        applied := table.applied ++ [(version, targetTable)] })

/-- What a statement does, or why the server rejects it. -/
def execute (dialect : SqlDialect) :
    DdlStatement → SchemaDatabase → Except MigrationError SchemaDatabase
  | .createTable name columns constraints => createTableOn dialect name columns constraints
  | .createIndex ifNotExists index => createIndexOn dialect ifNotExists index
  | .createIndexUnlessPresent index => fun db =>
    if db.hasIndex dialect index.table index.name then .ok db
    else createIndexOn dialect false index db
  | .dropIndexIfExists name => fun db =>
    .ok { db with indexes := db.indexes.filter (fun index => index.name ≠ name) }
  | .dropIndex table name => fun db =>
    if db.indexes.any (fun index => index.table = table && index.name = name) then
      .ok { db with
        indexes := db.indexes.filter (fun index => ¬ (index.table = table ∧ index.name = name)) }
    else .error (.noSuchIndex name)
  | .addColumns ifNotExists table columns => addColumnsTo ifNotExists table columns
  | .copyCheckpoints checkpointsTable => copyCheckpointsInto checkpointsTable
  | .recordMigration migrationsTable version targetTable =>
    record dialect migrationsTable version targetTable

/-- Whether the statement tolerates that what it makes is already there. -/
def repeatable : DdlStatement → Bool
  | .createIndex ifNotExists _ | .addColumns ifNotExists _ _ => ifNotExists
  | _ => true

end DdlStatement

/-- What `validate_table_name` lets through. -/
def isTableName (name : String) : Bool :=
  match name.toList with
  | [] => false
  | first :: rest =>
    (first == '_' || first.isAlpha) && rest.all fun ch => ch == '_' || ch.isAlphanum

def validateTableName (name : String) : Except EventStoreError Unit :=
  if name.isEmpty then .error (.backend "SQL event table name cannot be empty" none)
  else if isTableName name then .ok ()
  else .error (.backend ("invalid SQL event table name `" ++ name ++ "`") none)

structure SqlSchemaConfig where
  eventsTable : String
  checkpointsTable : String
  idempotencyTable : String
  snapshotsTable : String
  migrationsTable : String
  deriving DecidableEq, Repr

namespace SqlSchemaConfig

def default : SqlSchemaConfig where
  eventsTable := "events"
  checkpointsTable := "projection_checkpoints"
  idempotencyTable := "idempotency_keys"
  snapshotsTable := "snapshots"
  migrationsTable := "schema_migrations"

def validate (config : SqlSchemaConfig) : Except EventStoreError Unit := do
  validateTableName config.eventsTable
  validateTableName config.checkpointsTable
  validateTableName config.idempotencyTable
  validateTableName config.snapshotsTable
  validateTableName config.migrationsTable

end SqlSchemaConfig

structure SchemaMigration where
  version : Nat
  description : String
  up : List DdlStatement
  deriving DecidableEq, Repr

section Migrations

variable (dialect : SqlDialect) (config : SqlSchemaConfig)

def createEventsTable : DdlStatement :=
  match dialect with
  | .sqlite => .createTable config.eventsTable
      [⟨"sequence", "INTEGER PRIMARY KEY AUTOINCREMENT"⟩, ⟨"event_id", "TEXT NOT NULL UNIQUE"⟩,
        ⟨"aggregate_id", "TEXT NOT NULL"⟩, ⟨"aggregate_type", "TEXT NOT NULL"⟩,
        ⟨"revision", "INTEGER NOT NULL"⟩, ⟨"event_type", "TEXT NOT NULL"⟩,
        ⟨"event_version", "INTEGER NOT NULL"⟩, ⟨"payload", "TEXT NOT NULL"⟩,
        ⟨"metadata", "TEXT NOT NULL"⟩, ⟨"recorded_at_ms", "INTEGER NOT NULL"⟩]
      ["UNIQUE (aggregate_type, aggregate_id, revision)"]
  | .postgres => .createTable config.eventsTable
      [⟨"sequence", "BIGSERIAL PRIMARY KEY"⟩, ⟨"event_id", "TEXT NOT NULL UNIQUE"⟩,
        ⟨"aggregate_id", "TEXT NOT NULL"⟩, ⟨"aggregate_type", "TEXT NOT NULL"⟩,
        ⟨"revision", "BIGINT NOT NULL"⟩, ⟨"event_type", "TEXT NOT NULL"⟩,
        ⟨"event_version", "INT NOT NULL"⟩, ⟨"payload", "JSONB NOT NULL"⟩,
        ⟨"metadata", "JSONB NOT NULL"⟩, ⟨"recorded_at_ms", "BIGINT NOT NULL"⟩]
      ["UNIQUE (aggregate_type, aggregate_id, revision)"]
  | .mysql => .createTable config.eventsTable
      [⟨"sequence", "BIGINT AUTO_INCREMENT PRIMARY KEY"⟩,
        ⟨"event_id", "VARCHAR(255) NOT NULL UNIQUE"⟩, ⟨"aggregate_id", "VARCHAR(255) NOT NULL"⟩,
        ⟨"aggregate_type", "VARCHAR(255) NOT NULL"⟩, ⟨"revision", "BIGINT NOT NULL"⟩,
        ⟨"event_type", "VARCHAR(255) NOT NULL"⟩, ⟨"event_version", "INT NOT NULL"⟩,
        ⟨"payload", "JSON NOT NULL"⟩, ⟨"metadata", "JSON NOT NULL"⟩,
        ⟨"recorded_at_ms", "BIGINT NOT NULL"⟩]
      ["UNIQUE KEY (aggregate_type, aggregate_id, revision)"]

def createCheckpointsTable : DdlStatement :=
  match dialect with
  | .sqlite => .createTable config.checkpointsTable
      [⟨"projection_name", "TEXT PRIMARY KEY"⟩, ⟨"sequence", "INTEGER NOT NULL"⟩] []
  | .postgres | .mysql => .createTable config.checkpointsTable
      [⟨"projection_name", "VARCHAR(255) PRIMARY KEY"⟩, ⟨"sequence", "BIGINT NOT NULL"⟩] []

def createIdempotencyTable : DdlStatement :=
  match dialect with
  | .sqlite => .createTable config.idempotencyTable
      [⟨"idempotency_key", "TEXT PRIMARY KEY"⟩,
        ⟨"state", "TEXT NOT NULL CHECK (state IN ('pending', 'complete'))"⟩, ⟨"value", "TEXT"⟩,
        ⟨"updated_at_ms", "INTEGER NOT NULL"⟩] []
  | .postgres => .createTable config.idempotencyTable
      [⟨"idempotency_key", "VARCHAR(255) PRIMARY KEY"⟩,
        ⟨"state", "VARCHAR(20) NOT NULL CHECK (state IN ('pending', 'complete'))"⟩,
        ⟨"value", "JSONB"⟩, ⟨"updated_at_ms", "BIGINT NOT NULL"⟩] []
  | .mysql => .createTable config.idempotencyTable
      [⟨"idempotency_key", "VARCHAR(255) PRIMARY KEY"⟩,
        ⟨"state", "VARCHAR(20) NOT NULL CHECK (state IN ('pending', 'complete'))"⟩,
        ⟨"value", "JSON"⟩, ⟨"updated_at_ms", "BIGINT NOT NULL"⟩] []

def createSnapshotsTable : DdlStatement :=
  match dialect with
  | .sqlite => .createTable config.snapshotsTable
      [⟨"aggregate_type", "TEXT NOT NULL"⟩, ⟨"aggregate_id", "TEXT NOT NULL"⟩,
        ⟨"revision", "INTEGER NOT NULL"⟩, ⟨"state", "TEXT NOT NULL"⟩,
        ⟨"metadata", "TEXT NOT NULL"⟩, ⟨"recorded_at_ms", "INTEGER NOT NULL"⟩]
      ["PRIMARY KEY (aggregate_type, aggregate_id)"]
  | .postgres => .createTable config.snapshotsTable
      [⟨"aggregate_type", "TEXT NOT NULL"⟩, ⟨"aggregate_id", "TEXT NOT NULL"⟩,
        ⟨"revision", "BIGINT NOT NULL"⟩, ⟨"state", "JSONB NOT NULL"⟩,
        ⟨"metadata", "JSONB NOT NULL"⟩, ⟨"recorded_at_ms", "BIGINT NOT NULL"⟩]
      ["PRIMARY KEY (aggregate_type, aggregate_id)"]
  | .mysql => .createTable config.snapshotsTable
      [⟨"aggregate_type", "VARCHAR(255) NOT NULL"⟩, ⟨"aggregate_id", "VARCHAR(255) NOT NULL"⟩,
        ⟨"revision", "BIGINT NOT NULL"⟩, ⟨"state", "JSON NOT NULL"⟩,
        ⟨"metadata", "JSON NOT NULL"⟩, ⟨"recorded_at_ms", "BIGINT NOT NULL"⟩]
      ["PRIMARY KEY (aggregate_type, aggregate_id)"]

def globalReplayIndex : SchemaIndex :=
  ⟨config.eventsTable ++ "_global_replay_idx", config.eventsTable, ["aggregate_type", "sequence"],
    none, false⟩

def createGlobalReplayIndex : DdlStatement :=
  match dialect with
  | .sqlite | .postgres => .createIndex true (globalReplayIndex config)
  | .mysql => .createIndex false (globalReplayIndex config)

def pendingIndex (condition : Option (String × String)) : SchemaIndex :=
  ⟨config.idempotencyTable ++ "_pending_updated_idx", config.idempotencyTable, ["updated_at_ms"],
    condition, false⟩

/-- SQLite and MySQL have no `ADD COLUMN IF NOT EXISTS`. -/
def leaseColumns : List DdlStatement :=
  match dialect with
  | .sqlite =>
    [.addColumns false config.idempotencyTable [⟨"owner", "TEXT"⟩],
      .addColumns false config.idempotencyTable [⟨"expires_at_ms", "INTEGER"⟩],
      .createIndex true (pendingIndex config (some ("state", "pending")))]
  | .postgres =>
    [.addColumns true config.idempotencyTable [⟨"owner", "TEXT"⟩],
      .addColumns true config.idempotencyTable [⟨"expires_at_ms", "BIGINT"⟩],
      .createIndex true (pendingIndex config (some ("state", "pending")))]
  | .mysql =>
    [.addColumns false config.idempotencyTable
        [⟨"owner", "VARCHAR(255) NULL"⟩, ⟨"expires_at_ms", "BIGINT NULL"⟩],
      .createIndex false (pendingIndex config none)]

def createCompletedPurgeIndex : DdlStatement :=
  match dialect with
  | .sqlite | .postgres => .createIndex true
      ⟨config.idempotencyTable ++ "_completed_updated_idx", config.idempotencyTable,
        ["updated_at_ms"], some ("state", "complete"), false⟩
  | .mysql => .createIndex false
      ⟨config.idempotencyTable ++ "_completed_idx", config.idempotencyTable,
        ["updated_at_ms", "state"], none, false⟩

/-- The migrations in ascending order. The sixth does nothing in MySQL by itself. -/
def getMigrations : List SchemaMigration :=
  [⟨1, "create_events_table", [createEventsTable dialect config]⟩,
    ⟨2, "create_checkpoints_table", [createCheckpointsTable dialect config]⟩,
    ⟨3, "create_idempotency_table", [createIdempotencyTable dialect config]⟩,
    ⟨4, "create_snapshots_table", [createSnapshotsTable dialect config]⟩,
    ⟨5, "create_events_global_replay_index", [createGlobalReplayIndex dialect config]⟩,
    ⟨6, "drop_duplicate_events_stream_index",
      match dialect with
      | .sqlite | .postgres => [.dropIndexIfExists (config.eventsTable ++ "_stream_idx")]
      | .mysql => []⟩,
    ⟨7, "idempotency_lease_columns", leaseColumns dialect config⟩,
    ⟨8, "idempotency_completed_purge_index", [createCompletedPurgeIndex dialect config]⟩]

def getTargetTableName (version : Nat) : String :=
  match version with
  | 1 => config.eventsTable
  | 2 => config.checkpointsTable
  | 3 => config.idempotencyTable
  | 4 => config.snapshotsTable
  | 5 => config.eventsTable
  | 6 => config.eventsTable
  | 7 => config.idempotencyTable
  | 8 => config.idempotencyTable
  | _ => ""

end Migrations

/-- The indexes that MySQL made for the stream key besides the unique one. -/
def SchemaDatabase.duplicateIndexes (db : SchemaDatabase) (eventsTable : String) : List String :=
  (db.indexes.filter fun index =>
    index.table = eventsTable && !index.unique &&
      index.columns = ["aggregate_type", "aggregate_id", "revision"]).map SchemaIndex.name

/-- What the run loop executes for a migration before the bookkeeping row. -/
def SchemaMigration.statements (dialect : SqlDialect) (config : SqlSchemaConfig)
    (m : SchemaMigration) (db : SchemaDatabase) : List DdlStatement :=
  let up :=
    if dialect = .mysql ∧ m.version = 5 then
      [.createIndexUnlessPresent (globalReplayIndex config)]
    else if dialect = .mysql ∧ m.version = 6 then
      (db.duplicateIndexes config.eventsTable).map (.dropIndex config.eventsTable)
    else m.up
  if m.version = 2 then up ++ [.copyCheckpoints config.checkpointsTable] else up

structure SchemaMigrator where
  config : SqlSchemaConfig
  migrationVersions : Option (List Nat)
  deriving DecidableEq, Repr

namespace SchemaMigrator

def new (config : SqlSchemaConfig) : SchemaMigrator := ⟨config, none⟩

def forCheckpoints (config : SqlSchemaConfig) : SchemaMigrator := ⟨config, some [2]⟩

def forIdempotency (config : SqlSchemaConfig) : SchemaMigrator := ⟨config, some [3, 7]⟩

def forSnapshots (config : SqlSchemaConfig) : SchemaMigrator := ⟨config, some [4]⟩

def migrationsFor (migrator : SchemaMigrator) (dialect : SqlDialect) : List SchemaMigration :=
  match migrator.migrationVersions with
  | some versions =>
    (getMigrations dialect migrator.config).filter fun m => m.version ∈ versions
  | none => getMigrations dialect migrator.config

def createMigrationsTable (dialect : SqlDialect) (config : SqlSchemaConfig) : DdlStatement :=
  match dialect with
  | .sqlite => .createTable config.migrationsTable
      [⟨"version", "INTEGER NOT NULL"⟩, ⟨"table_name", "TEXT NOT NULL"⟩,
        ⟨"description", "TEXT NOT NULL"⟩, ⟨"applied_at_ms", "INTEGER NOT NULL"⟩]
      ["PRIMARY KEY (version, table_name)"]
  | .postgres => .createTable config.migrationsTable
      [⟨"version", "INT NOT NULL"⟩, ⟨"table_name", "VARCHAR(255) NOT NULL"⟩,
        ⟨"description", "TEXT NOT NULL"⟩, ⟨"applied_at_ms", "BIGINT NOT NULL"⟩]
      ["PRIMARY KEY (version, table_name)"]
  | .mysql => .createTable config.migrationsTable
      [⟨"version", "INT NOT NULL"⟩, ⟨"table_name", "VARCHAR(255) NOT NULL"⟩,
        ⟨"description", "VARCHAR(255) NOT NULL"⟩, ⟨"applied_at_ms", "BIGINT NOT NULL"⟩]
      ["PRIMARY KEY (version, table_name)"]

def legacyMigrationsTableError (table : String) : EventStoreError :=
  .backend ("`" ++ table ++ "` exists without the `table_name` column that schema migration " ++
    "bookkeeping requires, and this migrator will not drop it. If it is this " ++
    "framework's pre-0.3 bookkeeping table, run `DROP TABLE " ++ table ++ ";` and " ++
    "rerun the migration (framework migrations are idempotent and re-record " ++
    "themselves). If it belongs to your application, point the migrator at " ++
    "another name with `SqlSchemaConfig::with_migrations_table`.") none

/-- The check of the bookkeeping table and what it says is applied. SQLite lets a table
without columns pass the check. -/
def appliedPairs (dialect : SqlDialect) (config : SqlSchemaConfig) (db : SchemaDatabase) :
    Except MigrationError (List (Nat × String)) :=
  let columns := ((db.tables config.migrationsTable).map SchemaTable.columnNames).getD []
  if "table_name" ∉ columns ∧ (dialect = .sqlite → columns ≠ []) then
    .error (.store (legacyMigrationsTableError config.migrationsTable))
  else
    match db.tables config.migrationsTable with
    | none => .error (.noSuchTable config.migrationsTable)
    | some table =>
      match table.missing ["version", "table_name"] with
      | name :: _ => .error (.noSuchColumn name)
      | [] => .ok table.applied

/-- The loop over the migrations that are not applied yet. -/
def migrate (dialect : SqlDialect) (config : SqlSchemaConfig) (applied : List (Nat × String)) :
    List SchemaMigration → Option Nat → SchemaDatabase →
      Except (Stop SchemaDatabase DdlStatement MigrationError) (Option Nat × SchemaDatabase)
  | [], left, db => .ok (left, db)
  | m :: rest, left, db =>
    let targetTable := getTargetTableName config m.version
    if (m.version, targetTable) ∈ applied then migrate dialect config applied rest left db
    else
      match perform (DdlStatement.execute dialect)
          (m.statements dialect config db ++
            [.recordMigration config.migrationsTable m.version targetTable]) left db [] with
      | .error stop => .error stop
      | .ok (left, db) => migrate dialect config applied rest left db

/-- A migration run. With `some n` the process dies before its statement number `n`. -/
def run (migrator : SchemaMigrator) (dialect : SqlDialect) (left : Option Nat)
    (db : SchemaDatabase) :
    Except (Stop SchemaDatabase DdlStatement MigrationError) (Option Nat × SchemaDatabase) :=
  match migrator.config.validate with
  | .error error => .error ⟨db, [], some (.store error)⟩
  | .ok () =>
    match perform (DdlStatement.execute dialect)
        [createMigrationsTable dialect migrator.config] left db [] with
    | .error stop => .error stop
    | .ok (left, db) =>
      match appliedPairs dialect migrator.config db with
      | .error error => .error ⟨db, [], some error⟩
      | .ok applied =>
        migrate dialect migrator.config applied (migrator.migrationsFor dialect) left db

end SchemaMigrator

/-- A database without tables. -/
def emptyDatabase : SchemaDatabase := ⟨fun _ => none, []⟩

end DddCqrsEs
