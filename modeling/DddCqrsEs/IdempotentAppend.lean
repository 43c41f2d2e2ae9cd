import DddCqrsEs.Idempotency
import DddCqrsEs.SqlStore

/- The SQLite store's idempotency table next to its events table, and the append that
writes both in one transaction. -/
namespace DddCqrsEs

variable {A : Aggregate}

/-- The JSON text of a committed batch. Reading what was written gives the batch back; for events
with `f64` fields that needs the library's `float_roundtrip`. -/
structure CommittedJson (A : Aggregate) where
  toJson : EventStream A → Except String String
  fromJson : String → Except String (EventStream A)
  fromJson_toJson : ∀ committed value, toJson committed = .ok value → fromJson value = .ok committed

structure IdempotencyRow where
  state : String
  value : Option String
  updatedAtMs : Nat
  owner : Option String
  expiresAtMs : Option Int
  deriving DecidableEq, Repr

structure SqliteDatabase where
  events : EventsTable
  idempotency : String → Option IdempotencyRow

structure SqliteEventStore (A : Aggregate) where
  codec : RowCodec A
  committedJson : CommittedJson A

inductive IdempotentAppendError where
  | pending (key : String)
  | store (error : EventStoreError)
  deriving DecidableEq, Repr

namespace SqliteEventStore

variable (store : SqliteEventStore A)

def eventStore : SqlEventStore A := ⟨.sqlite, store.codec⟩

def committedFromJson (value : String) : Except EventStoreError (EventStream A) :=
  match store.committedJson.fromJson value with
  | .ok committed => .ok committed
  | .error error => .error (.deserialization ("idempotent committed events JSON: " ++ error) none)

/-- The row of a completed key, holding this batch. -/
def Completed (row : IdempotencyRow) (committed : EventStream A) : Prop :=
  row.state = "complete" ∧
    ∃ value, row.value = some value ∧ store.committedJson.fromJson value = .ok committed

/-- `fault` is the database error the query runs into, if any. -/
def loadIdempotent (db : SqliteDatabase) (fault : Option EventStoreError) (nowMs : Nat)
    (key : String) : Except EventStoreError (Option (IdempotencyState (EventStream A))) :=
  match fault, db.idempotency key with
  | some error, _ => .error error
  | none, none => .ok none
  | none, some row =>
    if row.state = "pending" then
      match pendingStateFromRow row.owner row.expiresAtMs nowMs with
      | some lease => .ok (some (.pending lease))
      | none =>
        .error (.deserialization
          "pending idempotency row has expired or is missing lease metadata" none)
    else if row.state = "complete" then
      match row.value with
      | some value => (store.committedFromJson value).map (fun committed => some (.complete committed))
      | none => .error (.deserialization "completed idempotency row is missing value" none)
    else .error (.deserialization ("unknown idempotency state: " ++ row.state) none)

/-- The per-event inserts: every row receives the next revision and the sequence the table
hands out. -/
def insertIdempotentEvents (aggregateId : A.Id) (key : String) (expectedRevision : ExpectedRevision)
    (table : EventsTable) (actualRevision : Nat) :
    List (PreparedEvent store.codec) → Except EventStoreError (EventStream A × EventsTable)
  | [] => .ok ([], table)
  | event :: rest =>
    if i64Max < actualRevision + 1 then .error SqlDialect.sqlite.revisionOverflow
    else
      match table.insert (event.row key (actualRevision + 1)) with
      | .error violation =>
        .error (SqlDialect.sqlite.insertError expectedRevision
          (table.currentRevision A.aggregateType key) violation)
      | .ok next =>
        (insertIdempotentEvents aggregateId key expectedRevision next (actualRevision + 1)
          rest).map (fun (committed, after) =>
            (.commit aggregateId (actualRevision + 1) (some next.lastSequence) event.event
              event.stamp :: committed, after))

/-- The part of the transaction that runs when the key has no row: reserve the key, check
the revision under the current storage key, insert, complete the key. -/
def appendReserved (db : SqliteDatabase) (clock : SystemTime) (key : String) (aggregateId : A.Id)
    (aggregateIdKey : String) (expectedRevision : ExpectedRevision)
    (prepared : List (PreparedEvent store.codec)) :
    Except EventStoreError (EventStream A × SqliteDatabase) :=
  match systemTimeToMillis clock with
  | .error error => .error error
  | .ok updatedAtMs =>
    let lease := newLease (nowMs clock) .default
    let expiresAt := (min lease.expiresAtMs i64Max : Nat)
    let actualRevision := db.events.currentRevision A.aggregateType aggregateIdKey
    match checkExpectedRevision expectedRevision actualRevision with
    | .error error => .error error
    | .ok () =>
      match store.insertIdempotentEvents aggregateId aggregateIdKey expectedRevision db.events
          actualRevision prepared with
      | .error error => .error error
      | .ok (committed, events) =>
        match store.committedJson.toJson committed with
        | .error error =>
          .error (.serialization ("idempotent committed events JSON: " ++ error) none)
        | .ok value =>
          let row : IdempotencyRow :=
            ⟨"complete", some value, updatedAtMs, some lease.owner, some expiresAt⟩
          .ok (committed, ⟨events, Function.update db.idempotency key (some row)⟩)

/-- One immediate transaction; whatever fails leaves the database as it was. -/
def appendIdempotent (db : SqliteDatabase) (fault : Option EventStoreError) (clock : SystemTime)
    (key : String) (aggregateId : A.Id) (expectedRevision : ExpectedRevision)
    (events : List (NewEvent A.Event × Stamp)) :
    Except IdempotentAppendError (EventStream A × SqliteDatabase) :=
  match store.codec.serializeId aggregateId, events.mapM store.codec.prepare, fault with
  | .error error, _, _ => .error (.store error)
  | .ok _, .error error, _ => .error (.store error)
  | .ok _, .ok _, some error => .error (.store error)
  | .ok aggregateIdKey, .ok prepared, none =>
    match db.idempotency key with
    | none =>
      match store.appendReserved db clock key aggregateId aggregateIdKey expectedRevision
          prepared with
      | .ok done => .ok done
      | .error error => .error (.store error)
    | some row =>
      if row.state = "complete" then
        match row.value with
        | some value =>
          match store.committedFromJson value with
          | .ok committed => .ok (committed, db)
          | .error error => .error (.store error)
        | none =>
          .error (.store (.deserialization "completed idempotency row is missing value" none))
      else if row.state = "pending" ∧
          (pendingStateFromRow row.owner row.expiresAtMs (nowMs clock)).isSome then
        .error (.pending key)
      else
        .error (.store (.deserialization ("unknown idempotency state: " ++ row.state) none))

variable {store} {committed : EventStream A} {row : IdempotencyRow} {db after : SqliteDatabase}
  {key : String} {aggregateId : A.Id} {expectedRevision : ExpectedRevision}
  {prepared : List (PreparedEvent store.codec)} {clock : SystemTime}
  {events : List (NewEvent A.Event × Stamp)}

theorem committedFromJson_ok_iff {value : String} :
    store.committedFromJson value = .ok committed ↔
      store.committedJson.fromJson value = .ok committed := by
  rw [committedFromJson]
  split
  · rename_i read
    simp [read]
  · rename_i failed
    simp [failed]

/-- A row holds one batch at most. -/
theorem completed_unique {first second : EventStream A} (holdsFirst : store.Completed row first)
    (holdsSecond : store.Completed row second) : first = second := by
  obtain ⟨_, value, stored, decoded⟩ := holdsFirst
  obtain ⟨_, other, same, decodedOther⟩ := holdsSecond
  rw [stored] at same
  cases same
  rw [decoded] at decodedOther
  exact Except.ok.inj decodedOther

/-- A key is reported complete exactly when its row is, and with the batch its row holds. -/
theorem loadIdempotent_complete_iff {nowMs : Nat} :
    store.loadIdempotent db none nowMs key = .ok (some (.complete committed)) ↔
      ∃ row, db.idempotency key = some row ∧ store.Completed row committed := by
  unfold loadIdempotent
  cases held : db.idempotency key with
  | none => simp
  | some row =>
    simp only [Option.some.injEq, exists_eq_left', Completed]
    by_cases pending : row.state = "pending"
    · have other : row.state ≠ "complete" := by simp [pending]
      rw [if_pos pending]
      constructor
      · intro loaded
        split at loaded <;> cases loaded
      · intro completed
        exact absurd completed.1 other
    · rw [if_neg pending]
      by_cases complete : row.state = "complete"
      · rw [if_pos complete]
        cases stored : row.value with
        | none => simp
        | some value =>
          cases read : store.committedFromJson value with
          | error error =>
            have failed : store.committedJson.fromJson value ≠ .ok committed := by
              rw [Ne, ← committedFromJson_ok_iff, read]
              simp
            simp [Except.map, read, failed]
          | ok out =>
            have decoded := committedFromJson_ok_iff.mp read
            simp [Except.map, read, complete, decoded]
      · rw [if_neg complete]
        simp [complete]

/-- The inserts add the batch and nothing else, numbered without a gap, and return its
envelopes. -/
theorem insertIdempotentEvents_ok {table after : EventsTable} {actualRevision : Nat}
    (inserted : store.insertIdempotentEvents aggregateId key expectedRevision table actualRevision
      prepared = .ok (committed, after)) :
    ∃ added, after.rows = table.rows ++ added ∧
      List.Forall₂ (StoredAs store.codec) added committed ∧
      added.map (·.revision) = List.range' (actualRevision + 1) prepared.length := by
  induction prepared generalizing table actualRevision committed after with
  | nil =>
    cases inserted
    exact ⟨[], (List.append_nil _).symm, .nil, rfl⟩
  | cons event rest ih =>
    rw [insertIdempotentEvents] at inserted
    split at inserted
    · cases inserted
    · cases first : table.insert (event.row key (actualRevision + 1)) with
      | error violation =>
        rw [first] at inserted
        cases inserted
      | ok next =>
        rw [first] at inserted
        dsimp only at inserted
        cases later : store.insertIdempotentEvents aggregateId key expectedRevision next
            (actualRevision + 1) rest with
        | error error =>
          rw [later] at inserted
          cases inserted
        | ok done =>
          rw [later] at inserted
          cases inserted
          obtain ⟨added, grown, stored, numbered⟩ := ih later
          have one := EventsTable.insert_ok first
          subst one
          let stored_row : StoredEventRow :=
            { event.row key (actualRevision + 1) with sequence := table.lastSequence + 1 }
          refine ⟨stored_row :: added, ?_, .cons ⟨rfl, rfl, rfl, rfl, rfl, rfl, event.payload_text,
            event.metadata_text, event.recorded_text⟩ stored, ?_⟩
          · rw [grown, List.append_assoc]
            rfl
          · rw [List.map_cons, numbered, List.length_cons, List.range'_succ]
            rfl

theorem appendReserved_ok {aggregateIdKey : String}
    (reserved : store.appendReserved db clock key aggregateId aggregateIdKey expectedRevision
      prepared = .ok (committed, after)) :
    ∃ added row, after.events.rows = db.events.rows ++ added ∧
      List.Forall₂ (StoredAs store.codec) added committed ∧
      (∃ revision count, added.map (·.revision) = List.range' (revision + 1) count) ∧
      after.idempotency = Function.update db.idempotency key (some row) ∧
      store.Completed row committed := by
  rw [appendReserved] at reserved
  split at reserved
  · cases reserved
  · dsimp only at reserved
    split at reserved
    · cases reserved
    · split at reserved
      · cases reserved
      · rename_i inserted
        split at reserved
        · cases reserved
        · rename_i value written
          cases reserved
          obtain ⟨added, grown, stored, numbered⟩ := insertIdempotentEvents_ok inserted
          have decoded := store.committedJson.fromJson_toJson _ _ written
          exact ⟨added, _, grown, stored, ⟨_, _, numbered⟩, rfl, rfl, value, rfl, decoded⟩

/-- What a successful append did: it replayed the batch of a completed key, or it found no
row and wrote the batch and its completed row together. -/
theorem appendIdempotent_ok {fault : Option EventStoreError}
    (appended : store.appendIdempotent db fault clock key aggregateId expectedRevision events =
      .ok (committed, after)) :
    (after = db ∧ ∃ row, db.idempotency key = some row ∧ store.Completed row committed) ∨
      (db.idempotency key = none ∧ ∃ added row,
        after.events.rows = db.events.rows ++ added ∧
        List.Forall₂ (StoredAs store.codec) added committed ∧
        (∃ revision count, added.map (·.revision) = List.range' (revision + 1) count) ∧
        after.idempotency = Function.update db.idempotency key (some row) ∧
        store.Completed row committed) := by
  unfold appendIdempotent at appended
  split at appended
  · cases appended
  · cases appended
  · cases appended
  · cases held : db.idempotency key with
    | none =>
      rw [held] at appended
      dsimp only at appended
      split at appended
      · rename_i reserved
        cases appended
        exact .inr ⟨rfl, appendReserved_ok reserved⟩
      · cases appended
    | some row =>
      rw [held] at appended
      dsimp only at appended
      split at appended
      · rename_i complete
        split at appended
        · rename_i value stored
          split at appended
          · rename_i read
            cases appended
            have decoded := committedFromJson_ok_iff.mp read
            exact .inl ⟨rfl, row, rfl, complete, value, stored, decoded⟩
          · cases appended
        · cases appended
      · split at appended <;> cases appended

/-- A completed key answers every append with its own batch, whatever the append asks for,
once the arguments are encoded and the database responds. -/
theorem appendIdempotent_completed {aggregateIdKey : String}
    (serialized : store.codec.serializeId aggregateId = .ok aggregateIdKey)
    (readied : events.mapM store.codec.prepare = .ok prepared)
    (held : db.idempotency key = some row) (completed : store.Completed row committed) :
    store.appendIdempotent db none clock key aggregateId expectedRevision events =
      .ok (committed, db) := by
  obtain ⟨complete, value, stored, read⟩ := completed
  unfold appendIdempotent
  rw [serialized, readied, held]
  dsimp only
  rw [if_pos complete, stored]
  dsimp only
  rw [committedFromJson_ok_iff.mpr read]

end SqliteEventStore

end DddCqrsEs
