import DddCqrsEs.Accrual
import DddCqrsEs.SchemaCrash

/- Migrators for all tables and for single ones that share a bookkeeping table. -/
namespace DddCqrsEs

open Interruption Accrual

variable {dialect : SqlDialect} {config : SqlSchemaConfig} {db next final : SchemaDatabase}
  {rows applied log : List (Nat × String)}

/-- The constructors of the migrator. -/
inductive MigratorKind where
  | new
  | forCheckpoints
  | forIdempotency
  | forSnapshots
  deriving DecidableEq, Repr

/-- A migrator that a component makes and runs. -/
structure MigrationRequest where
  kind : MigratorKind
  config : SqlSchemaConfig
  deriving DecidableEq, Repr

def MigrationRequest.migrator (request : MigrationRequest) : SchemaMigrator :=
  match request.kind with
  | .new => SchemaMigrator.new request.config
  | .forCheckpoints => SchemaMigrator.forCheckpoints request.config
  | .forIdempotency => SchemaMigrator.forIdempotency request.config
  | .forSnapshots => SchemaMigrator.forSnapshots request.config

theorem MigrationRequest.migrator_config (request : MigrationRequest) :
    request.migrator.config = request.config := by
  unfold migrator
  cases request.kind <;> rfl

/-- The rows of a bookkeeping table, none if there is no such table yet. -/
def bookedRows (migrationsTable : String) (db : SchemaDatabase) : List (Nat × String) :=
  ((db.tables migrationsTable).map SchemaTable.applied).getD []

theorem Booked.bookedRows (booked : Booked config db rows) :
    bookedRows config.migrationsTable db = rows := by
  obtain ⟨table, found, _, same⟩ := booked
  simp [DddCqrsEs.bookedRows, found, same]

/-- The migration that creates the table which a migration alters. -/
def createdBy : Nat → Option Nat
  | 5 | 6 => some 1
  | 7 | 8 => some 3
  | _ => none

/-- The row that has to stand before another one. -/
def creator (row : Nat × String) : Option (Nat × String) :=
  (createdBy row.1).map fun version => (version, row.2)

namespace SchemaMigrator

/-- The rows that a migrator asks for. -/
def asked (migrator : SchemaMigrator) (dialect : SqlDialect) : List (Nat × String) :=
  (migrator.migrationsFor dialect).map (pair migrator.config)

/-- The migrations that the loop executes, each with the table that it is for. -/
def migrateLog (dialect : SqlDialect) (config : SqlSchemaConfig) (applied : List (Nat × String)) :
    List SchemaMigration → SchemaDatabase → List (Nat × String)
  | [], _ => []
  | m :: rest, db =>
    let targetTable := getTargetTableName config m.version
    if (m.version, targetTable) ∈ applied then migrateLog dialect config applied rest db
    else
      (m.version, targetTable) ::
        match perform (DdlStatement.execute dialect)
            (m.statements dialect config db ++
              [.recordMigration config.migrationsTable m.version targetTable]) none db [] with
        | .error _ => []
        | .ok (_, db) => migrateLog dialect config applied rest db

/-- The migrations that a run executes. -/
def runLog (migrator : SchemaMigrator) (dialect : SqlDialect) (db : SchemaDatabase) :
    List (Nat × String) :=
  match migrator.config.validate with
  | .error _ => []
  | .ok () =>
    match perform (DdlStatement.execute dialect)
        [createMigrationsTable dialect migrator.config] none db [] with
    | .error _ => []
    | .ok (_, db) =>
      match appliedPairs dialect migrator.config db with
      | .error _ => []
      | .ok applied =>
        migrateLog dialect migrator.config applied (migrator.migrationsFor dialect) db

/-- Runs one after the other, as long as they complete, with what they have executed. -/
def runAll (dialect : SqlDialect) : List MigrationRequest → SchemaDatabase →
    Except (Stop SchemaDatabase DdlStatement MigrationError)
      (SchemaDatabase × List (Nat × String))
  | [], db => .ok (db, [])
  | request :: rest, db =>
    match request.migrator.run dialect none db with
    | .error stop => .error stop
    | .ok (_, next) =>
      match runAll dialect rest next with
      | .error stop => .error stop
      | .ok (final, log) => .ok (final, request.migrator.runLog dialect db ++ log)

theorem asked_nodup (migrator : SchemaMigrator) (dialect : SqlDialect) :
    (migrator.asked dialect).Nodup := by
  have versions := (getMigrations_versions dialect migrator.config).sublist
    (migrator.migrationsFor_sublist dialect)
  apply List.Pairwise.map (pair migrator.config) _ versions
  intro m other different same
  exact different (congrArg Prod.fst same)

theorem stands_getMigrations (dialect : SqlDialect) (config : SqlSchemaConfig) :
    Stands creator [] ((getMigrations dialect config).map (pair config)) := by
  simp [getMigrations, pair, getTargetTableName, Stands, creator, createdBy]

/-- Each migrator asks for a table before it asks for a change of that table. -/
theorem founded_asked (request : MigrationRequest) (dialect : SqlDialect) :
    Founded creator (request.migrator.asked dialect) := by
  apply founded_nil.of_stands
  obtain ⟨kind, config⟩ := request
  cases kind with
  | new => exact stands_getMigrations dialect config
  | forCheckpoints =>
    change Stands creator [] [(2, config.checkpointsTable)]
    simp [Stands, creator, createdBy]
  | forIdempotency =>
    change Stands creator [] [(3, config.idempotencyTable), (7, config.idempotencyTable)]
    simp [Stands, creator, createdBy]
  | forSnapshots =>
    change Stands creator [] [(4, config.snapshotsTable)]
    simp [Stands, creator, createdBy]

variable {m : SchemaMigration} {ms rest : List SchemaMigration} {left : Option Nat}
  {requests : List MigrationRequest} {version : Nat} {table : String} {named : List (Nat × String)}
  {stop : Stop SchemaDatabase DdlStatement MigrationError}

theorem entered_known (known : pair config m ∈ applied) :
    entered applied ((m :: ms).map (pair config)) = entered applied (ms.map (pair config)) :=
  List.filter_cons_of_neg (by simpa using known)

theorem entered_new (unknown : pair config m ∉ applied) :
    entered applied ((m :: ms).map (pair config)) =
      pair config m :: entered applied (ms.map (pair config)) :=
  List.filter_cons_of_pos (by simpa using unknown)

theorem migrateLog_applied (known : pair config m ∈ applied) :
    migrateLog dialect config applied (m :: rest) db = migrateLog dialect config applied rest db :=
  if_pos known

theorem migrateLog_new (unknown : pair config m ∉ applied)
    (executed : perform (DdlStatement.execute dialect)
      (m.statements dialect config db ++
        [.recordMigration config.migrationsTable m.version (getTargetTableName config m.version)])
      none db [] = .ok (none, next)) :
    migrateLog dialect config applied (m :: rest) db =
      pair config m :: migrateLog dialect config applied rest next := by
  refine (if_neg unknown).trans ?_
  rw [executed]
  rfl

/-- The loop executes, in order, what the rows it has read do not list, and records it. -/
theorem migrate_accrues (ahead : Ahead dialect config applied ms db rows)
    (ran : migrate dialect config applied ms none db = .ok (none, final)) :
    migrateLog dialect config applied ms db = entered applied (ms.map (pair config)) ∧
      Booked config final (rows ++ entered applied (ms.map (pair config))) := by
  induction ms generalizing db rows with
  | nil =>
    cases ran
    refine ⟨rfl, ?_⟩
    simpa [entered] using ahead.booked
  | cons m rest ih =>
    by_cases known : pair config m ∈ applied
    · rw [migrate_applied known] at ran
      rw [entered_known known, migrateLog_applied known]
      exact ih ahead.tail ran
    · obtain ⟨between, next, statements, row, ran⟩ := (migrate_new_none known).mp ran
      obtain ⟨logged, booked⟩ := ih (ahead.recorded statements row) ran
      have executed := (executeAll_append _ statements).trans (executeAll_one row)
      rw [entered_new known, migrateLog_new known (perform_none.mpr ⟨rfl, executed⟩)]
      refine ⟨congrArg (pair config m :: ·) logged, ?_⟩
      rw [List.append_assoc] at booked
      exact booked

theorem createTableOn_rows {name : String} {columns : List Column} {constraints : List String}
    (created : DdlStatement.createTableOn dialect name columns constraints db = .ok next)
    {table : SchemaTable} (there : next.tables name = some table) :
    table.applied = bookedRows name db := by
  unfold DdlStatement.createTableOn at created
  split at created
  · rename_i old found
    cases created
    simp [bookedRows, there]
  · rename_i absent
    split at created
    · cases created
      simp [absent] at there
    split at created
    · cases created
    · cases created
      simp only [SchemaDatabase.withTable, Function.update_self] at there
      cases there
      simp [bookedRows, absent]

/-- Making sure of the table does not change what it lists. -/
theorem createMigrationsTable_rows
    (created : (createMigrationsTable dialect config).execute dialect db = .ok next)
    (booked : Booked config next rows) : rows = bookedRows config.migrationsTable db := by
  obtain ⟨table, there, _, same⟩ := booked
  rw [← same]
  cases dialect with
  | sqlite => exact createTableOn_rows created there
  | postgres => exact createTableOn_rows created there
  | mysql => exact createTableOn_rows created there

/-- A run that completes executes what its migrator asks for and the table does not list yet,
and the table lists it afterwards. -/
theorem run_accrues {migrator : SchemaMigrator}
    (ran : migrator.run dialect none db = .ok (none, final)) :
    let rows := bookedRows migrator.config.migrationsTable db
    migrator.runLog dialect db = entered rows (migrator.asked dialect) ∧
      bookedRows migrator.config.migrationsTable final =
        rows ++ entered rows (migrator.asked dialect) := by
  obtain ⟨valid, next, rows, created, read, migrated⟩ := run_ok ran
  have booked := appliedPairs_ok read
  obtain ⟨logged, done⟩ := migrate_accrues (ahead_start booked) migrated
  dsimp only
  rw [← createMigrationsTable_rows created booked]
  refine ⟨?_, done.bookedRows⟩
  unfold runLog
  simp [valid, perform, created, read]
  exact logged

theorem migrate_left (ran : migrate dialect config applied ms none db = .ok (left, final)) :
    left = none := by
  induction ms generalizing db with
  | nil =>
    cases ran
    rfl
  | cons m rest ih =>
    by_cases known : pair config m ∈ applied
    · rw [migrate_applied known] at ran
      exact ih ran
    · rw [migrate_new known] at ran
      split at ran
      · cases ran
      · rename_i left next performed
        rw [(perform_none.mp performed).1] at ran
        exact ih ran

/-- A run that nothing interrupts has no limit to report. -/
theorem run_left {migrator : SchemaMigrator}
    (ran : migrator.run dialect none db = .ok (left, final)) : left = none := by
  unfold run at ran
  split at ran
  · cases ran
  split at ran
  · cases ran
  · rename_i other next performed
    rw [(perform_none.mp performed).1] at ran
    split at ran
    · cases ran
    · exact migrate_left ran

/-- The same of several runs. -/
theorem runAll_accrues {bookkeeping : String}
    (shared : ∀ request ∈ requests, request.config.migrationsTable = bookkeeping)
    (ran : runAll dialect requests db = .ok (final, log)) :
    bookedRows bookkeeping db ++ log = bookedRows bookkeeping final ∧
      bookedRows bookkeeping final = accrue (bookedRows bookkeeping db)
        (requests.map fun request => request.migrator.asked dialect) := by
  induction requests generalizing db log with
  | nil =>
    cases ran
    exact ⟨List.append_nil _, rfl⟩
  | cons request rest ih =>
    rw [List.forall_mem_cons] at shared
    unfold runAll at ran
    split at ran
    · cases ran
    · rename_i left next first
      split at ran
      · cases ran
      · rename_i last more others
        cases ran
        have never := run_left first
        rw [never] at first
        obtain ⟨logged, listed⟩ := run_accrues first
        rw [request.migrator_config, shared.1] at logged listed
        obtain ⟨whole, union⟩ := ih shared.2 others
        rw [listed] at whole union
        refine ⟨?_, union⟩
        rw [logged, ← List.append_assoc]
        exact whole

/-- Only the bookkeeping can break its key. -/
theorem execute_duplicateRow {statement : DdlStatement} (plain : statement.records = false) :
    statement.execute dialect db ≠ .error (.duplicateRow version table) := by
  have indexed : ∀ tolerant index, DdlStatement.createIndexOn dialect tolerant index db ≠
      .error (.duplicateRow version table) := by
    intro tolerant index
    unfold DdlStatement.createIndexOn
    split
    · simp
    · dsimp only
      split_ifs <;> simp
  cases statement with
  | createTable name columns constraints =>
    simp only [DdlStatement.execute, DdlStatement.createTableOn]
    split
    · simp
    · split_ifs <;> simp
  | createIndex tolerant index => exact indexed tolerant index
  | createIndexUnlessPresent index =>
    simp only [DdlStatement.execute]
    split
    · simp
    · exact indexed false index
  | dropIndexIfExists name => simp [DdlStatement.execute]
  | dropIndex name index =>
    simp only [DdlStatement.execute]
    split <;> simp
  | addColumns tolerant name columns =>
    simp only [DdlStatement.execute, DdlStatement.addColumnsTo]
    split
    · simp
    · split <;> simp
  | copyCheckpoints target =>
    simp only [DdlStatement.execute, DdlStatement.copyCheckpointsInto]
    split
    · simp
    split
    · simp
    · split <;> simp
  | recordMigration name version target => cases plain

/-- The rows of which the server's key tells the names apart. -/
def ToldApart (dialect : SqlDialect) (rows : List (Nat × String)) : Prop :=
  ∀ first ∈ rows, ∀ second ∈ rows,
    DdlStatement.sameName dialect first.2 second.2 = true → first.2 = second.2

theorem toldApart_of_exact (exact : dialect ≠ .mysql) (rows : List (Nat × String)) :
    ToldApart dialect rows := by
  intro first _ second _ same
  cases dialect with
  | sqlite => exact of_decide_eq_true same
  | postgres => exact of_decide_eq_true same
  | mysql => exact absurd rfl exact

/-- A row that the table does not list does not break the key where names are told apart. -/
theorem record_duplicateRow (told : ToldApart dialect named) (booked : Booked config db rows)
    (inside : rows ⊆ named) {row : Nat × String} (asked : row ∈ named) (absent : row ∉ rows) :
    (DdlStatement.recordMigration config.migrationsTable row.1 row.2).execute dialect db ≠
      .error (.duplicateRow version table) := by
  obtain ⟨bookkeeping, found, _, same⟩ := booked
  have free : bookkeeping.applied.any (fun other =>
      other.1 = row.1 && DdlStatement.sameName dialect other.2 row.2) = false := by
    rw [same, List.any_eq_false]
    intro other listed taken
    simp only [Bool.and_eq_true, decide_eq_true_eq] at taken
    have name := told other (inside listed) row asked taken.2
    exact absent (Prod.ext taken.1 name ▸ listed)
  simp only [DdlStatement.execute, DdlStatement.record, found]
  split
  · simp
  · simp [free]

theorem migrate_distinct (told : ToldApart dialect named)
    (ahead : Ahead dialect config applied ms db rows) (inside : rows ⊆ named)
    (asked : ∀ m ∈ ms, pair config m ∈ named)
    (stopped : migrate dialect config applied ms left db = .error stop) :
    stop.failure ≠ some (.duplicateRow version table) := by
  induction ms generalizing db rows left with
  | nil => cases stopped
  | cons m rest ih =>
    rw [List.forall_mem_cons] at asked
    by_cases known : pair config m ∈ applied
    · rw [migrate_applied known] at stopped
      exact ih ahead.tail inside asked.2 stopped
    · have absent : pair config m ∉ rows :=
        fun listed => known ((ahead.known m List.mem_cons_self).mp listed)
      rw [migrate_new known] at stopped
      split at stopped
      · rename_i interrupted performed
        cases stopped
        intro failed
        rcases perform_failure _ performed failed with
          ⟨step, member, reached, rejected⟩ | ⟨reached, ran, rejected⟩
        · exact execute_duplicateRow (ahead.plain db step member) rejected
        · have booked := ahead.booked.executeAll (ahead.plain db) ran
          exact record_duplicateRow told booked inside asked.1 absent rejected
      · rename_i later next performed
        obtain ⟨between, statements, last⟩ := executeAll_split (perform_ok performed)
        obtain ⟨final, row, done⟩ := executeAll_cons.mp last
        cases done
        refine ih (ahead.recorded statements row) ?_ asked.2 stopped
        exact List.append_subset.mpr ⟨inside, by simpa using asked.1⟩

/-- No run breaks the key of a bookkeeping table in which names are told apart, whatever was run
on it before. -/
theorem run_distinct {migrator : SchemaMigrator} (told : ToldApart dialect named)
    (inside : bookedRows migrator.config.migrationsTable db ⊆ named)
    (asked : migrator.asked dialect ⊆ named) (stopped : migrator.run dialect left db = .error stop)
    (version : Nat) (table : String) : stop.failure ≠ some (.duplicateRow version table) := by
  unfold run at stopped
  split at stopped
  · cases stopped
    simp
  split at stopped
  · rename_i interrupted performed
    cases stopped
    intro failed
    rcases perform_failure [] performed failed with
      ⟨step, member, _⟩ | ⟨reached, ran, rejected⟩
    · cases member
    · apply execute_duplicateRow _ rejected
      unfold createMigrationsTable
      cases dialect <;> rfl
  rename_i later next performed
  split at stopped
  · rename_i error read
    cases stopped
    intro failed
    cases failed
    unfold appliedPairs at read
    dsimp only at read
    split at read
    · cases read
    split at read
    · cases read
    split at read
    · cases read
    · cases read
  · rename_i rows read
    have booked := appliedPairs_ok read
    obtain ⟨created, executed, done⟩ := executeAll_cons.mp (perform_ok performed)
    cases done
    have same := createMigrationsTable_rows executed booked
    refine migrate_distinct told (ahead_start booked) (same ▸ inside) ?_ stopped
    exact fun m member => asked (List.mem_map_of_mem member)

theorem runAll_distinct {bookkeeping : String} (told : ToldApart dialect named)
    (shared : ∀ request ∈ requests, request.config.migrationsTable = bookkeeping)
    (inside : bookedRows bookkeeping db ⊆ named)
    (asked : ∀ request ∈ requests, request.migrator.asked dialect ⊆ named)
    (stopped : runAll dialect requests db = .error stop) (version : Nat) (table : String) :
    stop.failure ≠ some (.duplicateRow version table) := by
  induction requests generalizing db with
  | nil => cases stopped
  | cons request rest ih =>
    rw [List.forall_mem_cons] at shared asked
    have own : request.migrator.config.migrationsTable = bookkeeping := by
      rw [request.migrator_config, shared.1]
    unfold runAll at stopped
    split at stopped
    · rename_i failure first
      cases stopped
      exact run_distinct told (own ▸ inside) asked.1 first version table
    rename_i left next first
    split at stopped
    · rename_i failure others
      cases stopped
      refine ih shared.2 ?_ asked.2 others
      rw [run_left first] at first
      have listed := (run_accrues first).2
      rw [own] at listed
      rw [listed]
      intro row member
      rcases mem_visited.mp member with held | new
      · exact inside held
      · exact asked.1 new
    · cases stopped

/-- What runs that complete have done together: the migrations they executed, and the rows of
the bookkeeping table. -/
structure Composed (dialect : SqlDialect) (bookkeeping : String) (requests : List MigrationRequest)
    (final : SchemaDatabase) (log : List (Nat × String)) : Prop where
  once : ∀ request ∈ requests, ∀ row ∈ request.migrator.asked dialect, log.count row = 1
  asked : ∀ row ∈ log, ∃ request ∈ requests, row ∈ request.migrator.asked dialect
  created : ∀ before version table after, log = before ++ (version, table) :: after →
    ∀ creating, createdBy version = some creating → (creating, table) ∈ before
  union : ∀ row, row ∈ bookedRows bookkeeping final ↔
    ∃ request ∈ requests, row ∈ request.migrator.asked dialect

/-- However partial migrators are ordered and repeated, and whatever tables they name: those
that share a bookkeeping table compose. Only in MySQL, whose collation compares the names in
the key, the names have to differ by more than the case of their letters. -/
theorem partial_migrators_compose (dialect : SqlDialect) (bookkeeping : String)
    (requests : List MigrationRequest)
    (shared : ∀ request ∈ requests, request.config.migrationsTable = bookkeeping)
    (told : dialect = .mysql →
      ToldApart dialect (requests.flatMap fun request => request.migrator.asked dialect))
    (start : SchemaDatabase) (fresh : bookedRows bookkeeping start = []) :
    (∀ stop, runAll dialect requests start = .error stop →
      ∀ version table, stop.failure ≠ some (.duplicateRow version table)) ∧
    ∀ final log, runAll dialect requests start = .ok (final, log) →
      Composed dialect bookkeeping requests final log := by
  constructor
  · intro stop stopped
    have apart : ToldApart dialect
        (requests.flatMap fun request => request.migrator.asked dialect) := by
      by_cases collated : dialect = .mysql
      · exact told collated
      · exact toldApart_of_exact collated _
    refine runAll_distinct apart shared (by simp [fresh]) ?_ stopped
    exact fun request requested row listed => List.mem_flatMap.mpr ⟨request, requested, listed⟩
  · intro final log ran
    obtain ⟨logged, union⟩ := runAll_accrues shared ran
    rw [fresh, List.nil_append] at logged
    rw [fresh, ← logged] at union
    have member : ∀ row, row ∈ log ↔
        ∃ request ∈ requests, row ∈ request.migrator.asked dialect := by
      intro row
      rw [union, mem_accrue]
      simp
    have nodup : log.Nodup := by
      rw [union]
      apply nodup_accrue List.nodup_nil
      simpa using fun (request : MigrationRequest) _ => asked_nodup request.migrator dialect
    have founded : Founded creator log := by
      rw [union]
      apply founded_accrue founded_nil
      simpa using fun (request : MigrationRequest) _ => founded_asked request dialect
    constructor
    · intro request requested row listed
      exact List.count_eq_one_of_mem nodup ((member row).mpr ⟨request, requested, listed⟩)
    · exact fun row => (member row).mp
    · intro before version table after split creating based
      apply founded before (version, table) after split
      simp [creator, based]
    · rw [← logged]
      exact member

/-- Snapshots in the table of the checkpoints, and all migrations before and after. -/
def sharedTableRequests : List MigrationRequest :=
  let shared := { SqlSchemaConfig.default with snapshotsTable := "projection_checkpoints" }
  [⟨.forIdempotency, .default⟩, ⟨.forSnapshots, shared⟩, ⟨.new, .default⟩,
    ⟨.forCheckpoints, { SqlSchemaConfig.default with checkpointsTable := "positions" }⟩,
    ⟨.new, shared⟩]

theorem partial_migrators_compose_shared :
    (∃ final log, runAll .sqlite sharedTableRequests emptyDatabase = .ok (final, log) ∧
      Composed .sqlite "schema_migrations" sharedTableRequests final log) ∧
    ∃ final log, runAll .mysql sharedTableRequests emptyDatabase = .ok (final, log) ∧
      Composed .mysql "schema_migrations" sharedTableRequests final log :=
  ⟨⟨_, _, rfl, (partial_migrators_compose .sqlite "schema_migrations" sharedTableRequests
    (by decide) (fun other => by cases other) emptyDatabase rfl).2 _ _ rfl⟩,
   ⟨_, _, rfl, (partial_migrators_compose .mysql "schema_migrations" sharedTableRequests
    (by decide) (fun _ => by unfold ToldApart; decide +kernel) emptyDatabase rfl).2 _ _ rfl⟩⟩

/-- MySQL takes the two tables of events for one in the key, so that the second run fails. -/
theorem casedNames_break :
    ∃ stop, runAll .mysql
        [⟨.new, .default⟩, ⟨.new, { SqlSchemaConfig.default with eventsTable := "Events" }⟩]
        emptyDatabase = .error stop ∧ stop.failure = some (.duplicateRow 1 "Events") :=
  ⟨_, rfl, by decide +kernel⟩

end SchemaMigrator

end DddCqrsEs
