import DddCqrsEs.CheckedRevision
import DddCqrsEs.SqlStore
import DddCqrsEs.Transition

/- Two transactions append to one stream of a PostgreSQL or MySQL server at the revision that
both read: what the one that loses reports. -/
namespace DddCqrsEs

open Transition

/-- Where one append is in its transaction. -/
inductive AppendPhase (A : Aggregate) where
  | ready
  /-- The revision is read and checked. -/
  | checked (snapshot : EventsTable) (actualRevision : Nat)
  | inserted (rows : List StoredEventRow) (committed : EventStream A)
  | acknowledged (committed : EventStream A)
  /-- The revision was not the expected one. -/
  | refused (error : EventStoreError)
  /-- The insert has failed. -/
  | lost (error : EventStoreError)
  /-- The connection was gone before the commit. -/
  | aborted

/-- The committed rows, with the last sequence that was drawn, and the two appends. -/
structure AppendRace (A : Aggregate) where
  db : EventsTable
  client : Bool → AppendPhase A

inductive RaceStep where
  | read (client : Bool)
  | insert (client : Bool)
  | commit (client : Bool)
  | abort (client : Bool)
  deriving DecidableEq

variable {A : Aggregate}

/-- The two appends: the batches of both clients under one aggregate id at one revision. -/
structure ExactAppends (store : SqlEventStore A) where
  aggregateId : A.Id
  keys : List String
  lookup : store.codec.aggregateIdLookupKeys aggregateId = .ok keys
  revision : Nat
  batch : Bool → List (PreparedEvent store.codec)
  nonempty : ∀ client, batch client ≠ []

namespace AppendPhase

/-- The rows that a transaction has written and not committed. -/
def uncommitted : AppendPhase A → List StoredEventRow
  | inserted rows _ => rows
  | _ => []

end AppendPhase

namespace AppendRace

variable {store : SqlEventStore A} (appends : ExactAppends store)

def setClient (race : AppendRace A) (client : Bool) (phase : AppendPhase A) : AppendRace A :=
  { race with client := fun other => if other = client then phase else race.client other }

/-- The highest revision under any key of the stream. -/
def streamRevision (table : EventsTable) : Nat :=
  maxRevisionForLookupKeys appends.keys (table.currentRevision A.aggregateType)

def read (race : AppendRace A) (client : Bool) : AppendRace A :=
  let actualRevision := streamRevision appends race.db
  match checkExpectedRevision (.exact appends.revision) actualRevision with
  | .error error => race.setClient client (.refused error)
  | .ok () => race.setClient client (.checked race.db actualRevision)

/-- The insert on a table. A MySQL append of more events than fit one statement goes in several,
and the first of them has the row that another append at the same revision conflicts with. -/
def insertOn (client : Bool) (snapshot : EventsTable) (actualRevision : Nat)
    (table : EventsTable) : Except EventStoreError (EventStream A × EventsTable) :=
  insertPreparedEvents store.dialect snapshot table appends.aggregateId
    (appends.keys.headD "") actualRevision (.exact appends.revision) (appends.batch client)

/-- The insert waits while only rows that the other transaction has not committed are in its
way. The sequences it draws are gone even if the transaction is rolled back. -/
def insert (race : AppendRace A) (client : Bool) (snapshot : EventsTable)
    (actualRevision : Nat) : Option (AppendRace A) :=
  match insertOn appends client snapshot actualRevision race.db with
  | .error error => some (race.setClient client (.lost error))
  | .ok (committed, after) =>
    let others := (race.client (!client)).uncommitted
    match insertOn appends client snapshot actualRevision
        ⟨race.db.rows ++ others, race.db.lastSequence⟩ with
    | .error _ => none
    | .ok _ =>
      let rows := after.rows.drop race.db.rows.length
      some { race.setClient client (.inserted rows committed) with
        db := ⟨race.db.rows, after.lastSequence⟩ }

def step (race : AppendRace A) : RaceStep → Option (AppendRace A)
  | .read client =>
    match race.client client with
    | .ready => some (race.read appends client)
    | _ => none
  | .insert client =>
    match race.client client with
    | .checked snapshot actualRevision => race.insert appends client snapshot actualRevision
    | _ => none
  | .commit client =>
    match race.client client with
    | .inserted rows committed =>
      some { race.setClient client (.acknowledged committed) with
        db := ⟨race.db.rows ++ rows, race.db.lastSequence⟩ }
    | _ => none
  | .abort client =>
    match race.client client with
    | .checked _ _ | .inserted _ _ => some (race.setClient client .aborted)
    | _ => none

end AppendRace

/-- The race from a table in which the stream is at the revision that both appends expect. -/
def appendRace {store : SqlEventStore A} (appends : ExactAppends store) (table : EventsTable) :
    Machine (AppendRace A) RaceStep where
  start race := race = ⟨table, fun _ => .ready⟩ ∧
    AppendRace.streamRevision appends table = appends.revision
  step race := race.step appends

namespace AppendRace

variable {store : SqlEventStore A} {appends : ExactAppends store} {table : EventsTable}

theorem head_mem (appends : ExactAppends store) : appends.keys.headD "" ∈ appends.keys := by
  obtain ⟨current, same | ⟨legacy, _, same⟩⟩ := aggregateIdLookupKeys_shape appends.lookup
  · simp [same]
  · simp [same]

/-- What is known of one append. A failed insert that reports a conflict reports the revision
that it has read again. -/
def ClientSafe (appends : ExactAppends store) (table : EventsTable) : AppendPhase A → Prop
  | .checked snapshot actualRevision =>
    snapshot.rows = table.rows ∧ actualRevision = appends.revision
  | .inserted rows _ => ∃ row ∈ rows, row.aggregateType = A.aggregateType ∧
      row.aggregateId = appends.keys.headD "" ∧ appends.revision < row.revision
  | .lost error => error.isConcurrency = true →
      error = .concurrency (.wrongExpectedRevision (.exact appends.revision)
        (store.dialect.rereadRevision table A.aggregateType (appends.keys.headD "")
          appends.revision))
  | _ => True

/-- As long as nothing is committed the table is the one at the start; then the stream is beyond
the expected revision. -/
structure Safe (appends : ExactAppends store) (table : EventsTable) (race : AppendRace A) :
    Prop where
  rows : race.db.rows = table.rows ∨ appends.revision < streamRevision appends race.db
  clients : ∀ client, ClientSafe appends table (race.client client)

variable {first second snapshot : EventsTable} {race next : AppendRace A} {client : Bool}
  {actualRevision : Nat} {committed : EventStream A}

theorem currentRevision_congr (same : first.rows = second.rows) (aggregateType key : String) :
    first.currentRevision aggregateType key = second.currentRevision aggregateType key := by
  rw [EventsTable.currentRevision, EventsTable.currentRevision, EventsTable.streamRows,
    EventsTable.streamRows, same]

theorem rereadRevision_congr (same : first.rows = second.rows) (dialect : SqlDialect)
    (aggregateType key : String) (actualRevision : Nat) :
    dialect.rereadRevision first aggregateType key actualRevision =
      dialect.rereadRevision second aggregateType key actualRevision := by
  cases dialect with
  | postgres => rfl
  | sqlite => exact currentRevision_congr same aggregateType key
  | mysql => exact currentRevision_congr same aggregateType key

theorem Safe.setClient (safe : Safe appends table race) (client : Bool) {phase : AppendPhase A}
    (fits : ClientSafe appends table phase) : Safe appends table (race.setClient client phase) := by
  refine ⟨safe.rows, fun other => ?_⟩
  rw [AppendRace.setClient]
  dsimp only
  split
  · exact fits
  · exact safe.clients other

theorem Safe.read (safe : Safe appends table race) (client : Bool) :
    Safe appends table (race.read appends client) := by
  rw [AppendRace.read]
  split
  · exact safe.setClient client trivial
  · rename_i admitted
    have exact : appends.revision = streamRevision appends race.db := by
      simp only [checkExpectedRevision] at admitted
      split at admitted
      · assumption
      · cases admitted
    have unchanged : race.db.rows = table.rows := safe.rows.resolve_right (by omega)
    exact safe.setClient client ⟨unchanged, exact.symm⟩

/-- A failed insert that reports a conflict has met the stream's unique constraint. -/
theorem insertOn_conflict {read : EventsTable} {error : EventStoreError}
    (failed : insertOn appends client snapshot actualRevision read = .error error)
    (conflict : error.isConcurrency = true) :
    error = .concurrency (.wrongExpectedRevision (.exact appends.revision)
      (store.dialect.rereadRevision snapshot A.aggregateType (appends.keys.headD "")
        actualRevision)) := by
  rw [insertOn, insertPreparedEvents] at failed
  split at failed
  · rename_i unfit
    cases failed
    rw [PreparedEvent.rows_error unfit] at conflict
    cases conflict
  · split at failed
    · rename_i violation _
      cases failed
      cases violation with
      | streamRevision => rfl
      | eventId =>
        rw [insertError_eventId] at conflict
        cases conflict
    · cases failed

/-- A successful insert has a row right above the revision that it was checked at. -/
theorem insertOn_row {before after : EventsTable}
    (written : insertOn appends client snapshot actualRevision before = .ok (committed, after)) :
    ∃ row ∈ after.rows.drop before.rows.length, row.aggregateType = A.aggregateType ∧
      row.aggregateId = appends.keys.headD "" ∧ actualRevision < row.revision := by
  obtain ⟨added, grown, _, numbered, keyed, _⟩ := insertPreparedEvents_ok written
  rw [grown, List.drop_left]
  have some : 0 < (appends.batch client).length :=
    List.length_pos_iff.mpr (appends.nonempty client)
  have count := congrArg List.length numbered
  rw [List.length_map, List.length_range'] at count
  have member : added[0] ∈ added := List.getElem_mem (by omega)
  have listed : added[0].revision ∈ added.map (·.revision) := List.mem_map_of_mem member
  rw [numbered, List.mem_range'_1] at listed
  exact ⟨added[0], member, (keyed _ member).1, (keyed _ member).2, by omega⟩

theorem Safe.insert (safe : Safe appends table race)
    (held : race.client client = .checked snapshot actualRevision)
    (stepped : race.insert appends client snapshot actualRevision = some next) :
    Safe appends table next := by
  have known := safe.clients client
  rw [held] at known
  obtain ⟨unchanged, rfl⟩ := known
  rw [AppendRace.insert] at stepped
  split at stepped
  · rename_i error failed
    cases stepped
    refine safe.setClient client fun conflict => ?_
    rw [insertOn_conflict failed conflict, rereadRevision_congr unchanged]
  · rename_i committed after written
    dsimp only at stepped
    split at stepped
    · cases stepped
    · cases stepped
      have own : ClientSafe appends table
          (.inserted (after.rows.drop race.db.rows.length) committed) := insertOn_row written
      obtain ⟨rows, clients⟩ := safe.setClient client own
      exact ⟨rows, clients⟩

theorem Safe.commit (safe : Safe appends table race) {rows : List StoredEventRow}
    (held : race.client client = .inserted rows committed) :
    Safe appends table { race.setClient client (.acknowledged committed) with
      db := ⟨race.db.rows ++ rows, race.db.lastSequence⟩ } := by
  have known := safe.clients client
  rw [held] at known
  obtain ⟨row, member, ofType, ofKey, above⟩ := known
  have added : row ∈ (⟨race.db.rows ++ rows, race.db.lastSequence⟩ : EventsTable).rows :=
    List.mem_append_right _ member
  have counted := EventsTable.le_currentRevision added
  rw [ofType, ofKey] at counted
  have highest := le_maxRevisionForLookupKeys
    (EventsTable.currentRevision ⟨race.db.rows ++ rows, race.db.lastSequence⟩ A.aggregateType)
    (head_mem appends)
  have closed : ClientSafe appends table (.acknowledged committed) := trivial
  refine ⟨.inr ?_, (safe.setClient client closed).clients⟩
  exact Nat.lt_of_lt_of_le above (Nat.le_trans counted highest)

theorem Safe.step (safe : Safe appends table race) {action : RaceStep}
    (stepped : race.step appends action = some next) : Safe appends table next := by
  cases action with
  | read client =>
    rw [AppendRace.step] at stepped
    split at stepped
    · cases stepped
      exact safe.read client
    · cases stepped
  | insert client =>
    rw [AppendRace.step] at stepped
    split at stepped
    · rename_i snapshot actualRevision held
      exact safe.insert held stepped
    · cases stepped
  | commit client =>
    rw [AppendRace.step] at stepped
    split at stepped
    · rename_i rows committed held
      cases stepped
      exact safe.commit held
    · cases stepped
  | abort client =>
    rw [AppendRace.step] at stepped
    split at stepped
    · cases stepped
      exact safe.setClient client trivial
    · cases stepped
      exact safe.setClient client trivial
    · cases stepped

end AppendRace

theorem appendRace_safe {store : SqlEventStore A} {appends : ExactAppends store}
    {table : EventsTable} {race : AppendRace A}
    (reached : (appendRace appends table).Reachable race) : race.Safe appends table := by
  refine Machine.invariant ?_ ?_ reached
  · rintro _ ⟨rfl, -⟩
    exact ⟨.inl rfl, fun _ => trivial⟩
  · intro race action next _ safe stepped
    exact safe.step stepped

/-- A conflict error names an actual revision that the expectation does not admit. -/
def TruthfulConflict (expected : ExpectedRevision) (error : EventStoreError) : Prop :=
  ∃ actual, error = .concurrency (.wrongExpectedRevision expected actual) ∧
    checkExpectedRevision expected actual ≠ .ok ()

/-- In every interleaving, the append whose insert fails on the stream's unique constraint
reports a revision that was not the expected one exactly if the server is MySQL and the rows of
the stream are not under the key that it inserts under. -/
theorem lostAppend_truthful_iff {store : SqlEventStore A} (appends : ExactAppends store)
    (table : EventsTable) (server : store.dialect ≠ .sqlite) {race : AppendRace A}
    (reached : (appendRace appends table).Reachable race) {client : Bool}
    {error : EventStoreError} (lost : race.client client = .lost error)
    (conflict : error.isConcurrency = true) :
    TruthfulConflict (.exact appends.revision) error ↔
      store.dialect = .mysql ∧
        table.currentRevision A.aggregateType (appends.keys.headD "") ≠ appends.revision := by
  have known := (appendRace_safe reached).clients client
  rw [lost] at known
  have named := known conflict
  have truthful : TruthfulConflict (.exact appends.revision) error ↔
      store.dialect.rereadRevision table A.aggregateType (appends.keys.headD "")
        appends.revision ≠ appends.revision := by
    rw [TruthfulConflict, named]
    simp only [EventStoreError.concurrency.injEq, ConcurrencyError.wrongExpectedRevision.injEq,
      true_and, exists_eq_left', checkExpectedRevision]
    split
    · rename_i same
      exact iff_of_false (fun apart => apart rfl) fun apart => apart same.symm
    · rename_i apart
      exact iff_of_true (fun same => by cases same) (Ne.symm apart)
  rw [truthful]
  cases dialect : store.dialect with
  | sqlite => exact absurd dialect server
  | postgres => simp [SqlDialect.rereadRevision]
  | mysql => simp [SqlDialect.rereadRevision]

theorem systemTimeToMillis_epoch : systemTimeToMillis 0 = .ok 0 := by decide

/-- An event for the account `a` from each client, at a revision. -/
def racingAppends (dialect : SqlDialect) (revision : Nat) :
    ExactAppends (⟨dialect, accountCodec⟩ : SqlEventStore .account) where
  aggregateId := "a"
  keys := ["a", "\"a\""]
  lookup := rfl
  revision := revision
  batch client := [⟨⟨(), "account_opened", 1, .empty⟩, ⟨if client then "e1" else "e2", 0⟩,
    "null", "\x7b\x7d", 0, rfl, rfl, systemTimeToMillis_epoch⟩]
  nonempty client := by simp

/-- Both read, one inserts and commits, the other one inserts. -/
def lastInsertLoses : List RaceStep :=
  [.read true, .read false, .insert true, .commit true, .insert false]

/-- A table from before, with the account's only event under its quoted key. -/
def quotedAccount : EventsTable :=
  ⟨[⟨"e0", "\"a\"", "account", 1, 1, "account_opened", 1, "null", "\x7b\x7d", 0⟩], 1⟩

theorem quotedAccount_lost :
    ∃ race, (appendRace (racingAppends .mysql 1) quotedAccount).Reachable race ∧
      race.client false = .lost (.concurrency (.wrongExpectedRevision (.exact 1) 0)) := by
  have begun : (appendRace (racingAppends .mysql 1) quotedAccount).start
      ⟨quotedAccount, fun _ => .ready⟩ := ⟨rfl, rfl⟩
  have ran : ∃ race, (appendRace (racingAppends .mysql 1) quotedAccount).run
      ⟨quotedAccount, fun _ => .ready⟩ lastInsertLoses = some race ∧
      race.client false = .lost (.concurrency (.wrongExpectedRevision (.exact 1) 0)) :=
    ⟨_, rfl, rfl⟩
  obtain ⟨race, ran, lost⟩ := ran
  exact ⟨race, Machine.Reachable.run (.start begun) ran, lost⟩

theorem lostAppend_truthful_quotedAccount :
    TruthfulConflict (.exact 1) (.concurrency (.wrongExpectedRevision (.exact 1) 0)) := by
  obtain ⟨race, reached, lost⟩ := quotedAccount_lost
  exact (lostAppend_truthful_iff (racingAppends .mysql 1) quotedAccount (by decide) reached lost
    rfl).mpr ⟨rfl, by decide⟩

/-- Of two appends to an empty stream, both expecting it empty, the loser reports the very
revision that it expected. -/
def ReportsExpected (dialect : SqlDialect) : Prop :=
  ∃ race, (appendRace (racingAppends dialect 0) .empty).start ⟨.empty, fun _ => .ready⟩ ∧
    (appendRace (racingAppends dialect 0) .empty).run ⟨.empty, fun _ => .ready⟩
      lastInsertLoses = some race ∧
    race.client false = .lost (.concurrency (.wrongExpectedRevision (.exact 0) 0)) ∧
    checkExpectedRevision (.exact 0) 0 = .ok ()

theorem lostAppend_reportsExpected : ReportsExpected .postgres ∧ ReportsExpected .mysql := by
  constructor
  · exact ⟨_, ⟨rfl, rfl⟩, rfl, rfl, rfl⟩
  · exact ⟨_, ⟨rfl, rfl⟩, rfl, rfl, rfl⟩

end DddCqrsEs
