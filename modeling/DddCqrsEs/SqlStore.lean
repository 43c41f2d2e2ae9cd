import DddCqrsEs.Aggregate
import Mathlib.Data.List.Sort

/- The events table of the SQL adapters, its unique constraints, and the load and append
paths that read it under one or two stored keys per aggregate id. -/
namespace DddCqrsEs

def i64Max : Nat := 2 ^ 63 - 1

structure StoredEventRow where
  eventId : String
  aggregateId : String
  aggregateType : String
  revision : Nat
  sequence : Nat
  eventType : String
  eventVersion : Nat
  payload : String
  metadata : String
  recordedAtMs : Nat
  deriving DecidableEq, Repr

/-- Rows in insertion order, and the last sequence the table has handed out. Keys compare byte
for byte, as text columns do in SQLite and PostgreSQL, and in MySQL under a binary collation:
its default one does not tell the case of letters apart. -/
structure EventsTable where
  rows : List StoredEventRow
  lastSequence : Nat
  deriving DecidableEq, Repr

/-- The unique constraint an insert violates: `event_id`, or
`(aggregate_type, aggregate_id, revision)`. -/
inductive UniqueViolation where
  | eventId
  | streamRevision
  deriving DecidableEq, Repr

namespace EventsTable

def empty : EventsTable := ⟨[], 0⟩

/-- Insert one row, which receives the next sequence. -/
def insert (table : EventsTable) (row : StoredEventRow) : Except UniqueViolation EventsTable :=
  if table.rows.any (fun other => other.eventId = row.eventId) then .error .eventId
  else if table.rows.any (fun other => other.aggregateType = row.aggregateType ∧
      other.aggregateId = row.aggregateId ∧ other.revision = row.revision) then
    .error .streamRevision
  else
    .ok ⟨table.rows ++ [{ row with sequence := table.lastSequence + 1 }], table.lastSequence + 1⟩

/-- A multi-row insert is one statement: the first violation undoes all of it. -/
def insertAll (table : EventsTable) (rows : List StoredEventRow) :
    Except UniqueViolation EventsTable :=
  rows.foldlM insert table

def streamRows (table : EventsTable) (aggregateType key : String) : List StoredEventRow :=
  table.rows.filter (fun row => row.aggregateType = aggregateType ∧ row.aggregateId = key)

/-- `SELECT … WHERE aggregate_type = ? AND aggregate_id = ? ORDER BY revision ASC`. -/
def selectStream (table : EventsTable) (aggregateType key : String) : List StoredEventRow :=
  (table.streamRows aggregateType key).insertionSort (fun a b => a.revision ≤ b.revision)

/-- The same query with `AND revision > ?`. -/
def selectStreamAfter (table : EventsTable) (aggregateType key : String) (revision : Nat) :
    List StoredEventRow :=
  ((table.streamRows aggregateType key).filter (fun row => revision < row.revision)).insertionSort
    (fun a b => a.revision ≤ b.revision)

/-- `SELECT COALESCE(MAX(revision), 0)`. -/
def currentRevision (table : EventsTable) (aggregateType key : String) : Nat :=
  ((table.streamRows aggregateType key).map (·.revision)).foldl max 0

end EventsTable

/-- Rows as the table stores them: with consecutive sequences. -/
def sequenced : Nat → List StoredEventRow → List StoredEventRow
  | _, [] => []
  | next, row :: rest => { row with sequence := next } :: sequenced (next + 1) rest

@[simp] theorem sequenced_length (next : Nat) (rows : List StoredEventRow) :
    (sequenced next rows).length = rows.length := by
  induction rows generalizing next with
  | nil => rfl
  | cons row rest ih => simp [sequenced, ih]

@[simp] theorem sequenced_revisions (next : Nat) (rows : List StoredEventRow) :
    (sequenced next rows).map (·.revision) = rows.map (·.revision) := by
  induction rows generalizing next with
  | nil => rfl
  | cons row rest ih => simp [sequenced, ih]

variable {key : String} {keys : List String}

theorem sequenced_keys {aggregateType : String} {rows : List StoredEventRow}
    (keyed : ∀ row ∈ rows, row.aggregateType = aggregateType ∧ row.aggregateId = key) (next : Nat) :
    ∀ row ∈ sequenced next rows, row.aggregateType = aggregateType ∧ row.aggregateId = key := by
  induction rows generalizing next with
  | nil => simp [sequenced]
  | cons row rest ih =>
    rw [List.forall_mem_cons] at keyed
    rw [sequenced, List.forall_mem_cons]
    exact ⟨keyed.1, ih keyed.2 (next + 1)⟩

namespace EventsTable

variable {table after : EventsTable}

/-- A stream gains those of the added rows that carry its key. -/
theorem streamRows_added {added : List StoredEventRow} (grown : after.rows = table.rows ++ added)
    (aggregateType key : String) :
    after.streamRows aggregateType key =
      table.streamRows aggregateType key ++
        added.filter (fun row => row.aggregateType = aggregateType ∧ row.aggregateId = key) := by
  rw [streamRows, streamRows, grown, List.filter_append]

theorem insert_ok {row : StoredEventRow} (inserted : table.insert row = .ok after) :
    after = ⟨table.rows ++ [{ row with sequence := table.lastSequence + 1 }],
      table.lastSequence + 1⟩ := by
  rw [insert] at inserted
  split at inserted
  · cases inserted
  · split at inserted
    · cases inserted
    · exact (Except.ok.inj inserted).symm

/-- A successful insert adds exactly the given rows, in order. -/
theorem insertAll_ok {rows : List StoredEventRow} (inserted : table.insertAll rows = .ok after) :
    after = ⟨table.rows ++ sequenced (table.lastSequence + 1) rows,
      table.lastSequence + rows.length⟩ := by
  induction rows generalizing table with
  | nil =>
    cases inserted
    simp [sequenced]
  | cons row rest ih =>
    rw [insertAll, List.foldlM_cons] at inserted
    cases first : table.insert row with
    | error violation =>
      rw [first] at inserted
      cases inserted
    | ok next =>
      rw [first] at inserted
      have one := insert_ok first
      subst one
      rw [ih inserted]
      simp [sequenced, Nat.add_assoc, Nat.add_comm 1]

end EventsTable

/-- A JSON value as an id serializes to it: a string, or any other value with its text. -/
inductive IdValue where
  | string (value : String)
  | other (text : String)
  deriving DecidableEq, Repr

/-- How ids, payloads and metadata become column text, and how a row becomes an envelope
again (deserialization and upcasting included). -/
structure RowCodec (A : Aggregate) where
  idValue : A.Id → Except EventStoreError IdValue
  idJson : A.Id → Option String
  payloadJson : A.Event → Except EventStoreError String
  metadataJson : Metadata → Except EventStoreError String
  envelopeFromStoredRow : StoredEventRow → Except EventStoreError (EventEnvelope A.Event A.Id)

variable {A : Aggregate}

def RowCodec.serializeId (codec : RowCodec A) (id : A.Id) : Except EventStoreError String :=
  match codec.idValue id with
  | .error error => .error error
  | .ok (.string value) => .ok value
  | .ok (.other text) => .ok text

/-- The storage keys that may identify one aggregate stream: the current one, then the
quoted key of legacy rows where it differs. -/
def RowCodec.aggregateIdLookupKeys (codec : RowCodec A) (id : A.Id) :
    Except EventStoreError (List String) :=
  match codec.serializeId id with
  | .error error => .error error
  | .ok current =>
    match codec.idJson id with
    | some legacy => .ok (if legacy ≠ current then [current, legacy] else [current])
    | none => .ok [current]

/-- One key, or a current and a different legacy one. -/
def KeyShape (keys : List String) : Prop :=
  ∃ current, keys = [current] ∨ ∃ legacy, legacy ≠ current ∧ keys = [current, legacy]

theorem aggregateIdLookupKeys_shape {codec : RowCodec A} {aggregateId : A.Id}
    (lookup : codec.aggregateIdLookupKeys aggregateId = .ok keys) : KeyShape keys := by
  rw [RowCodec.aggregateIdLookupKeys] at lookup
  split at lookup
  · cases lookup
  · rename_i current _
    split at lookup
    · rename_i legacy _
      split at lookup
      · rename_i differ
        cases lookup
        exact ⟨current, Or.inr ⟨legacy, differ, rfl⟩⟩
      · cases lookup
        exact ⟨current, Or.inl rfl⟩
    · cases lookup
      exact ⟨current, Or.inl rfl⟩

def maxRevisionForLookupKeys (keys : List String) (read : String → Nat) : Nat :=
  keys.foldl (fun highest key => max highest (read key)) 0

/-- A running maximum is at least its start and each value it met. -/
theorem le_foldl_max {α : Type} (value : α → Nat) (items : List α) (start : Nat) :
    start ≤ items.foldl (fun highest item => max highest (value item)) start ∧
      ∀ item ∈ items, value item ≤
        items.foldl (fun highest item => max highest (value item)) start := by
  induction items generalizing start with
  | nil => simp
  | cons first rest ih =>
    obtain ⟨above, each⟩ := ih (max start (value first))
    rw [List.foldl_cons]
    constructor
    · omega
    · intro item member
      rcases List.mem_cons.mp member with same | later
      · rw [same]
        omega
      · exact each item later

theorem le_maxRevisionForLookupKeys (read : String → Nat) (member : key ∈ keys) :
    read key ≤ maxRevisionForLookupKeys keys read :=
  (le_foldl_max read keys 0).2 key member

namespace EventsTable

/-- A stream's revision is at least that of each of its rows. -/
theorem le_currentRevision {table : EventsTable} {row : StoredEventRow} (member : row ∈ table.rows) :
    row.revision ≤ table.currentRevision row.aggregateType row.aggregateId := by
  have listed : row ∈ table.streamRows row.aggregateType row.aggregateId := by
    rw [streamRows, List.mem_filter]
    exact ⟨member, by simp⟩
  rw [currentRevision, List.foldl_map]
  exact (le_foldl_max (fun row : StoredEventRow => row.revision) _ 0).2 row listed

end EventsTable

/-- Query the keys in order and keep the first result that has rows. -/
def queryLookupKeys {α : Type} (query : String → List α) : List String → List α
  | [] => []
  | key :: rest =>
    match query key with
    | [] => queryLookupKeys query rest
    | row :: rows => row :: rows

def systemTimeToMillis (recordedAt : SystemTime) : Except EventStoreError Nat :=
  if recordedAt < 0 then
    .error (.serialization
      "recorded_at is before UNIX_EPOCH: second time provided was later than self" none)
  else
    let millis := recordedAt.toNat / 1000000
    if millis ≤ i64Max then .ok millis
    else .error (.serialization "recorded_at timestamp exceeds i64 millis" none)

inductive SqlDialect where
  | sqlite
  | postgres
  | mysql
  deriving DecidableEq, Repr

namespace SqlDialect

/-- The MySQL insert panics where a number does not fit, and its transaction is dropped. -/
def revisionOverflow : SqlDialect → EventStoreError
  | .sqlite => .serialization "revision exceeds SQLite INTEGER" none
  | .postgres => .serialization "revision exceeds BIGINT" none
  | .mysql => .unknown "stream revision must fit in BIGINT" none

def versionLimit : SqlDialect → Nat
  | .sqlite => i64Max
  | .postgres | .mysql => 2 ^ 31 - 1

def versionOverflow : SqlDialect → EventStoreError
  | .sqlite => .serialization "event_version exceeds SQLite INTEGER" none
  | .postgres => .serialization "event_version exceeds INT" none
  | .mysql => .unknown "event_version must fit in i32" none

def loadOverflow : SqlDialect → EventStoreError
  | .sqlite => .serialization "revision exceeds SQLite INTEGER" none
  | .postgres | .mysql => .serialization "revision exceeds i64" none

/-- The revision that a rejected insert reports after reading it again. A PostgreSQL
transaction that has failed cannot be queried, so there it is the revision read before; a
MySQL transaction sees the table it read at first. -/
def rereadRevision (dialect : SqlDialect) (read : EventsTable) (aggregateType key : String)
    (actualRevision : Nat) : Nat :=
  match dialect with
  | .postgres => actualRevision
  | .sqlite | .mysql => read.currentRevision aggregateType key

def insertError (dialect : SqlDialect) (expected : ExpectedRevision) (current : Nat) :
    UniqueViolation → EventStoreError
  | .streamRevision => mapStreamUniqueViolation expected current
  | .eventId =>
    match dialect with
    | .sqlite => .backend "UNIQUE constraint failed: events.event_id" (some "2067")
    | .postgres => .backend "db error" (some "23505")
    | .mysql => .backend "Duplicate entry for key 'events.event_id'" (some "1062")

end SqlDialect

/-- A new event with the identity and time drawn for it and the column texts it
serializes to. -/
structure PreparedEvent (codec : RowCodec A) where
  event : NewEvent A.Event
  stamp : Stamp
  payloadJson : String
  metadataJson : String
  recordedAtMs : Nat
  payload_text : codec.payloadJson event.payload = .ok payloadJson
  metadata_text : codec.metadataJson event.metadata = .ok metadataJson
  recorded_text : systemTimeToMillis stamp.recordedAt = .ok recordedAtMs

def RowCodec.prepare (codec : RowCodec A) (event : NewEvent A.Event × Stamp) :
    Except EventStoreError (PreparedEvent codec) :=
  match timed : systemTimeToMillis event.2.recordedAt with
  | .error error => .error error
  | .ok recordedAtMs =>
    match paid : codec.payloadJson event.1.payload with
    | .error error => .error error
    | .ok payloadJson =>
      match described : codec.metadataJson event.1.metadata with
      | .error error => .error error
      | .ok metadataJson =>
        .ok ⟨event.1, event.2, payloadJson, metadataJson, recordedAtMs, paid, described,
          timed⟩

variable {codec : RowCodec A}

/-- A prepared event is the new event with what was drawn for it. -/
theorem prepare_source {event : NewEvent A.Event × Stamp} {prepared : PreparedEvent codec}
    (readied : codec.prepare event = .ok prepared) :
    prepared.event = event.1 ∧ prepared.stamp = event.2 := by
  unfold RowCodec.prepare at readied
  split at readied
  · cases readied
  · split at readied
    · cases readied
    · split at readied
      · cases readied
      · cases readied
        exact ⟨rfl, rfl⟩

namespace PreparedEvent

/-- The row of a prepared event; its sequence is the table's to assign. -/
def row (prepared : PreparedEvent codec) (key : String) (revision : Nat) : StoredEventRow where
  eventId := prepared.stamp.eventId
  aggregateId := key
  aggregateType := A.aggregateType
  revision := revision
  sequence := 0
  eventType := prepared.event.eventType
  eventVersion := prepared.event.eventVersion
  payload := prepared.payloadJson
  metadata := prepared.metadataJson
  recordedAtMs := prepared.recordedAtMs

/-- The rows of a batch, numbered from the revision the stream has, as far as the columns
hold the numbers. -/
def rows (dialect : SqlDialect) (key : String) :
    Nat → List (PreparedEvent codec) → Except EventStoreError (List StoredEventRow)
  | _, [] => .ok []
  | actualRevision, prepared :: rest =>
    if i64Max < actualRevision + 1 then .error dialect.revisionOverflow
    else if dialect.versionLimit < prepared.event.eventVersion then
      .error dialect.versionOverflow
    else
      (rows dialect key (actualRevision + 1) rest).map
        (fun later => prepared.row key (actualRevision + 1) :: later)

/-- The envelopes of a batch, numbered likewise from the first sequence it received. -/
def committed (aggregateId : A.Id) (actualRevision : Nat) (firstSequence : Nat) :
    List (PreparedEvent codec) → EventStream A
  | [] => []
  | prepared :: rest =>
    .commit aggregateId (actualRevision + 1) (some firstSequence) prepared.event prepared.stamp ::
      committed aggregateId (actualRevision + 1) (firstSequence + 1) rest

end PreparedEvent

variable (codec) in
/-- The columns of a row hold an envelope's data. -/
structure StoredAs (row : StoredEventRow) (envelope : EventEnvelope A.Event A.Id) : Prop where
  eventId : row.eventId = envelope.eventId
  aggregateType : row.aggregateType = envelope.aggregateType
  revision : row.revision = envelope.revision
  sequence : some row.sequence = envelope.sequence
  eventType : row.eventType = envelope.eventType
  eventVersion : row.eventVersion = envelope.eventVersion
  payload : codec.payloadJson envelope.payload = .ok row.payload
  metadata : codec.metadataJson envelope.metadata = .ok row.metadata
  recordedAt : systemTimeToMillis envelope.recordedAt = .ok row.recordedAtMs

namespace PreparedEvent

variable {dialect : SqlDialect} {actualRevision : Nat} {prepared : List (PreparedEvent codec)}
  {out : List StoredEventRow}

/-- The rows of a batch are numbered without a gap under one key. -/
theorem rows_ok (fits : rows dialect key actualRevision prepared = .ok out) :
    out.map (·.revision) = List.range' (actualRevision + 1) prepared.length ∧
      ∀ row ∈ out, row.aggregateType = A.aggregateType ∧ row.aggregateId = key := by
  induction prepared generalizing actualRevision out with
  | nil =>
    cases fits
    simp
  | cons first rest ih =>
    rw [rows] at fits
    split at fits
    · cases fits
    · split at fits
      · cases fits
      · cases later : rows dialect key (actualRevision + 1) rest with
        | error error =>
          rw [later] at fits
          cases fits
        | ok more =>
          rw [later] at fits
          cases fits
          obtain ⟨numbered, keyed⟩ := ih later
          exact ⟨by simp [numbered, row, List.range'_succ],
            List.forall_mem_cons.mpr ⟨⟨rfl, rfl⟩, keyed⟩⟩

/-- A number that does not fit its column is not a conflict. -/
theorem rows_error {error : EventStoreError}
    (refused : rows dialect key actualRevision prepared = .error error) :
    error.isConcurrency = false := by
  induction prepared generalizing actualRevision with
  | nil => cases refused
  | cons first rest ih =>
    rw [rows] at refused
    split at refused
    · cases refused
      cases dialect <;> rfl
    · split at refused
      · cases refused
        cases dialect <;> rfl
      · cases later : rows dialect key (actualRevision + 1) rest with
        | error reason =>
          rw [later] at refused
          cases refused
          exact ih later
        | ok more =>
          rw [later] at refused
          cases refused

/-- The table's rows and the returned envelopes hold the same data. -/
theorem rows_storedAs (fits : rows dialect key actualRevision prepared = .ok out)
    (aggregateId : A.Id) (next : Nat) :
    List.Forall₂ (StoredAs codec) (sequenced next out)
      (committed aggregateId actualRevision next prepared) := by
  induction prepared generalizing actualRevision out next with
  | nil =>
    cases fits
    exact .nil
  | cons first rest ih =>
    rw [rows] at fits
    split at fits
    · cases fits
    · split at fits
      · cases fits
      · cases later : rows dialect key (actualRevision + 1) rest with
        | error error =>
          rw [later] at fits
          cases fits
        | ok more =>
          rw [later] at fits
          cases fits
          exact .cons ⟨rfl, rfl, rfl, rfl, rfl, rfl, first.payload_text,
            first.metadata_text, first.recorded_text⟩ (ih later (next + 1))

end PreparedEvent

/-- Insert a prepared batch under one key above the given revision, in a transaction that
read the table `read`. -/
def insertPreparedEvents (dialect : SqlDialect) (read table : EventsTable) (aggregateId : A.Id)
    (key : String) (actualRevision : Nat) (expectedRevision : ExpectedRevision)
    (prepared : List (PreparedEvent codec)) :
    Except EventStoreError (EventStream A × EventsTable) :=
  match PreparedEvent.rows dialect key actualRevision prepared with
  | .error error => .error error
  | .ok rows =>
    match table.insertAll rows with
    | .error violation =>
      .error (dialect.insertError expectedRevision
        (dialect.rereadRevision read A.aggregateType key actualRevision) violation)
    | .ok after =>
      .ok (PreparedEvent.committed aggregateId actualRevision (table.lastSequence + 1) prepared,
        after)

theorem insertPreparedEvents_ok {dialect : SqlDialect} {read table after : EventsTable}
    {aggregateId : A.Id} {actualRevision : Nat} {expectedRevision : ExpectedRevision}
    {prepared : List (PreparedEvent codec)} {committed : EventStream A}
    (inserted : insertPreparedEvents dialect read table aggregateId key actualRevision
      expectedRevision prepared = .ok (committed, after)) :
    ∃ added, after.rows = table.rows ++ added ∧
      after.lastSequence = table.lastSequence + prepared.length ∧
      added.map (·.revision) = List.range' (actualRevision + 1) prepared.length ∧
      (∀ row ∈ added, row.aggregateType = A.aggregateType ∧ row.aggregateId = key) ∧
      List.Forall₂ (StoredAs codec) added committed := by
  rw [insertPreparedEvents] at inserted
  split at inserted
  · cases inserted
  · rename_i rows fits
    obtain ⟨numbered, keyed⟩ := PreparedEvent.rows_ok fits
    split at inserted
    · cases inserted
    · rename_i final written
      cases inserted
      have grown := EventsTable.insertAll_ok written
      have length : rows.length = prepared.length := by
        simpa using congrArg List.length numbered
      subst grown
      exact ⟨sequenced (table.lastSequence + 1) rows, rfl, by rw [length], by simpa using numbered,
        sequenced_keys keyed _, PreparedEvent.rows_storedAs fits aggregateId _⟩

/-- The body of an append: one transaction, which an error rolls back. -/
def appendPreparedEventsOnce (dialect : SqlDialect) (table : EventsTable) (keys : List String)
    (aggregateId : A.Id) (expectedRevision : ExpectedRevision)
    (prepared : List (PreparedEvent codec)) :
    Except EventStoreError (EventStream A × EventsTable) :=
  let actualRevision := maxRevisionForLookupKeys keys (table.currentRevision A.aggregateType)
  match checkExpectedRevision expectedRevision actualRevision with
  | .error error => .error error
  | .ok () =>
    if prepared.isEmpty then .ok ([], table)
    else
      insertPreparedEvents dialect table table aggregateId (keys.headD "") actualRevision
        expectedRevision prepared

def maxAppendAttempts : Nat := 32

/-- The SQLite retry loop. `fault attempt` is the database error that attempt runs into,
if any. -/
def appendAttempts (fault : Nat → Option EventStoreError)
    (once : Except EventStoreError (EventStream A × EventsTable)) :
    Nat → Nat → Except EventStoreError (EventStream A × EventsTable)
  | 0, _ => .error (.backend "sqlite append exhausted optimistic concurrency retries" none)
  | remaining + 1, attempt =>
    match (fault attempt).elim once .error with
    | .ok done => .ok done
    | .error error =>
      if error.isRetryable ∧ attempt + 1 < maxAppendAttempts then
        appendAttempts fault once remaining (attempt + 1)
      else .error error

/-- Connection-related backend codes: SQLSTATE class 08, the PostgreSQL shutdown states and
the MySQL connection errnos. -/
def isTransportCode (code : String) : Bool :=
  "08".toList.isPrefixOf code.toList || ["57P01", "57P02", "57P03"].contains code ||
    ["1053", "1152", "1159", "1160", "1161", "2002", "2003", "2006", "2013", "2055"].contains code

/-- Whether an error justifies discarding the pooled connection. -/
def isTransportError : EventStoreError → Bool
  | .backend _ (some code) => isTransportCode code
  | .backend _ none => true
  | _ => false

/-- The pool's write helper while no commit is left in doubt: an attempt either runs into
its fault before anything is committed, or runs the operation. -/
def writeAttempts {α : Type} (fault : Nat → Option EventStoreError)
    (operation : Except EventStoreError α) : Except EventStoreError α :=
  match (fault 0).elim operation .error with
  | .ok value => .ok value
  | .error error =>
    if isTransportError error then (fault 1).elim operation .error else .error error

/-- One of the SQL event stores. -/
structure SqlEventStore (A : Aggregate) where
  dialect : SqlDialect
  codec : RowCodec A

namespace SqlEventStore

variable (store : SqlEventStore A) (table : EventsTable)

/-- The stored rows `load` decodes. -/
def loadRows (aggregateId : A.Id) : Except EventStoreError (List StoredEventRow) :=
  (store.codec.aggregateIdLookupKeys aggregateId).map
    (queryLookupKeys (table.selectStream A.aggregateType))

def load (aggregateId : A.Id) : Except EventStoreError (EventStream A) := do
  let rows ← store.loadRows table aggregateId
  rows.mapM store.codec.envelopeFromStoredRow

def loadRowsAfterRevision (aggregateId : A.Id) (revision : Nat) :
    Except EventStoreError (List StoredEventRow) :=
  if i64Max < revision then .error store.dialect.loadOverflow
  else
    (store.codec.aggregateIdLookupKeys aggregateId).map
      (queryLookupKeys (fun key => table.selectStreamAfter A.aggregateType key revision))

def loadAfterRevision (aggregateId : A.Id) (revision : Nat) :
    Except EventStoreError (EventStream A) := do
  let rows ← store.loadRowsAfterRevision table aggregateId revision
  rows.mapM store.codec.envelopeFromStoredRow

/-- Append a batch. `fault attempt` is the database error that attempt runs into, if any.
An error leaves the table as it was; an empty batch is checked but not retried by SQLite. -/
def append (fault : Nat → Option EventStoreError) (aggregateId : A.Id)
    (expectedRevision : ExpectedRevision) (events : List (NewEvent A.Event × Stamp)) :
    Except EventStoreError (EventStream A × EventsTable) := do
  let keys ← store.codec.aggregateIdLookupKeys aggregateId
  let prepared ← events.mapM store.codec.prepare
  let once :=
    appendPreparedEventsOnce store.dialect table keys aggregateId expectedRevision prepared
  match store.dialect with
  | .sqlite =>
    if prepared.isEmpty then (fault 0).elim once .error
    else appendAttempts fault once maxAppendAttempts 0
  | .postgres | .mysql => writeAttempts fault once

variable {fault : Nat → Option EventStoreError} {done : EventStream A × EventsTable}
  {store : SqlEventStore A} {table after : EventsTable} {aggregateId : A.Id}
  {expectedRevision : ExpectedRevision} {events : List (NewEvent A.Event × Stamp)}

theorem appendAttempts_ok {once : Except EventStoreError (EventStream A × EventsTable)}
    {remaining attempt : Nat} (appended : appendAttempts fault once remaining attempt = .ok done) :
    once = .ok done := by
  induction remaining generalizing attempt with
  | zero => cases appended
  | succ remaining ih =>
    rw [appendAttempts] at appended
    cases faulty : fault attempt with
    | some error =>
      simp only [faulty, Option.elim_some] at appended
      split at appended
      · exact ih appended
      · cases appended
    | none =>
      simp only [faulty, Option.elim_none] at appended
      cases result : once with
      | error error =>
        rw [result] at appended
        dsimp only at appended
        split at appended
        · rw [← result]
          exact ih (result ▸ appended)
        · cases appended
      | ok out =>
        rw [result] at appended
        exact appended

theorem writeAttempts_ok {α : Type} {operation : Except EventStoreError α} {done : α}
    (written : writeAttempts fault operation = .ok done) : operation = .ok done := by
  have attempt : ∀ outcome : Option EventStoreError, outcome.elim operation .error = .ok done →
      operation = .ok done := by
    intro outcome ended
    cases outcome with
    | none => exact ended
    | some error => cases ended
  rw [writeAttempts] at written
  split at written
  · rename_i first
    cases written
    exact attempt _ first
  · split at written
    · exact attempt _ written
    · cases written

/-- A successful append is one run of its body, whatever its earlier attempts ran into. -/
theorem append_once (lookup : store.codec.aggregateIdLookupKeys aggregateId = .ok keys)
    (appended : store.append table fault aggregateId expectedRevision events = .ok done) :
    ∃ prepared, events.mapM store.codec.prepare = .ok prepared ∧
      appendPreparedEventsOnce store.dialect table keys aggregateId expectedRevision prepared =
        .ok done := by
  rw [append, lookup] at appended
  cases readied : events.mapM store.codec.prepare with
  | error error =>
    rw [readied] at appended
    cases appended
  | ok prepared =>
    rw [readied] at appended
    refine ⟨prepared, rfl, ?_⟩
    simp only [bind, Except.bind] at appended
    split at appended
    · split at appended
      · cases faulty : fault 0 <;> rw [faulty] at appended
        · exact appended
        · cases appended
      · exact appendAttempts_ok appended
    · exact writeAttempts_ok appended
    · exact writeAttempts_ok appended

/-- What a successful append did: it found the highest revision under any key, accepted the
expectation, and added the batch under the first key. -/
theorem append_ok {committed : EventStream A}
    (lookup : store.codec.aggregateIdLookupKeys aggregateId = .ok keys)
    (appended : store.append table fault aggregateId expectedRevision events =
      .ok (committed, after)) :
    let actualRevision := maxRevisionForLookupKeys keys (table.currentRevision A.aggregateType)
    expectedRevision.Admits actualRevision ∧
      ∃ added, after.rows = table.rows ++ added ∧
        after.lastSequence = table.lastSequence + events.length ∧
        added.map (·.revision) = List.range' (actualRevision + 1) events.length ∧
        (∀ row ∈ added, row.aggregateType = A.aggregateType ∧ row.aggregateId = keys.headD "") ∧
        List.Forall₂ (StoredAs store.codec) added committed := by
  intro actualRevision
  obtain ⟨prepared, readied, once⟩ := append_once lookup appended
  have length := (forall₂_of_mapM_ok readied).length_eq.symm
  rw [appendPreparedEventsOnce] at once
  split at once
  · cases once
  · rename_i checked
    refine ⟨(checkExpectedRevision_ok_iff _ _).mp checked, ?_⟩
    split at once
    · rename_i empty
      cases once
      rw [List.isEmpty_iff] at empty
      subst empty
      exact ⟨[], by simp, by simp [← length], by simp [← length], by simp, .nil⟩
    · rw [← length]
      exact insertPreparedEvents_ok once

/-- A table only grows at its end, by rows that hold the returned envelopes. -/
theorem append_grows {committed : EventStream A}
    (appended : store.append table fault aggregateId expectedRevision events =
      .ok (committed, after)) :
    ∃ added, after.rows = table.rows ++ added ∧
      List.Forall₂ (StoredAs store.codec) added committed := by
  cases lookup : store.codec.aggregateIdLookupKeys aggregateId with
  | error error =>
    rw [append, lookup] at appended
    cases appended
  | ok keys =>
    obtain ⟨_, added, grown, _, _, _, stored⟩ := append_ok lookup appended
    exact ⟨added, grown, stored⟩

end SqlEventStore

/-- The id a key stands for: what a JSON string without escapes quotes, or the key itself. -/
def unquoted (key : String) : String :=
  match key.toList with
  | '"' :: rest => if rest.getLast? = some '"' then String.ofList rest.dropLast else key
  | _ => key

/-- Accounts store their only event as JSON `null` and quote their ids as strings. -/
def accountCodec : RowCodec .account where
  idValue id := .ok (.string id)
  idJson := fun (id : String) => some ("\"" ++ id ++ "\"")
  payloadJson _ := .ok "null"
  metadataJson _ := .ok "\x7b\x7d"
  envelopeFromStoredRow row :=
    .ok ⟨row.eventId, unquoted row.aggregateId, row.aggregateType, row.revision,
      some row.sequence, row.eventType, row.eventVersion, (), .empty, row.recordedAtMs * 1000000⟩

def accountEvent (eventId : String) : NewEvent Aggregate.account.Event × Stamp :=
  (⟨(), "account_opened", 1, .empty⟩, ⟨eventId, 0⟩)

def accountRowAt (eventId key : String) (revision sequence : Nat) : StoredEventRow :=
  ⟨eventId, key, "account", revision, sequence, "account_opened", 1, "null", "\x7b\x7d", 0⟩

end DddCqrsEs
