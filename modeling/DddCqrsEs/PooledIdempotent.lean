import DddCqrsEs.IdempotentAppend

/- The PostgreSQL and MySQL stores' idempotency table, which is read without its lease
columns, and the append that writes it together with the events. -/
namespace DddCqrsEs

variable {A : Aggregate}

structure PooledEventStore (A : Aggregate) extends SqlEventStore A where
  committedJson : CommittedJson A
  networked : dialect ≠ .sqlite

namespace PooledEventStore

variable (store : PooledEventStore A)

def committedFromJson (value : String) : Except EventStoreError (EventStream A) :=
  match store.committedJson.fromJson value with
  | .ok committed => .ok committed
  | .error error => .error (.deserialization ("idempotent committed events JSON: " ++ error) none)

/-- `fault` is the database error the query is left with, if any. -/
def loadIdempotent (db : SqliteDatabase) (fault : Option EventStoreError) (nowMs : Nat)
    (key : String) : Except EventStoreError (Option (IdempotencyState (EventStream A))) :=
  match fault, db.idempotency key with
  | some error, _ => .error error
  | none, none => .ok none
  | none, some row =>
    if row.state = "pending" then
      -- Every pending row is read as one without lease columns.
      match pendingStateFromRow none none nowMs with
      | some lease => .ok (some (.pending lease))
      | none =>
        .error (.deserialization
          "pending idempotency row has expired or is missing lease metadata" none)
    else if row.state = "complete" then
      match row.value with
      | some value => (store.committedFromJson value).map (fun committed => some (.complete committed))
      | none => .error (.deserialization "completed idempotency row is missing value" none)
    else .error (.deserialization ("unknown idempotency state: " ++ row.state) none)

/-- The part of the transaction after the key was reserved: check the revision under the
current storage key, insert, complete the key. -/
def appendReserved (db : SqliteDatabase) (updatedAtMs : Nat) (key : String) (aggregateId : A.Id)
    (aggregateIdKey : String) (expectedRevision : ExpectedRevision)
    (prepared : List (PreparedEvent store.codec)) :
    Except EventStoreError (EventStream A × SqliteDatabase) :=
  match checkExpectedRevision expectedRevision
      (db.events.currentRevision A.aggregateType aggregateIdKey) with
  | .error error => .error error
  | .ok () =>
    match insertPreparedEvents store.dialect db.events db.events aggregateId aggregateIdKey
        (db.events.currentRevision A.aggregateType aggregateIdKey) expectedRevision prepared with
    | .error error => .error error
    | .ok (committed, events) =>
      match store.committedJson.toJson committed with
      | .error error =>
        .error (.serialization ("idempotent committed events JSON: " ++ error) none)
      | .ok value =>
        let row : IdempotencyRow := ⟨"complete", some value, updatedAtMs, none, none⟩
        .ok (committed, ⟨events, Function.update db.idempotency key (some row)⟩)

/-- One transaction. `raced`: another connection reserves the key after it was found free. -/
def runIdempotentAppend (db : SqliteDatabase) (raced : Bool) (clock : SystemTime) (key : String)
    (aggregateId : A.Id) (aggregateIdKey : String) (expectedRevision : ExpectedRevision)
    (prepared : List (PreparedEvent store.codec)) :
    Except IdempotentAppendError (EventStream A × SqliteDatabase) :=
  match db.idempotency key with
  | some row =>
    if row.state = "complete" then
      match row.value with
      | some value =>
        match store.committedFromJson value with
        | .ok committed => .ok (committed, db)
        | .error error => .error (.store error)
      | none =>
        .error (.store (.deserialization "completed idempotency row is missing value" none))
    else if row.state = "pending" then .error (.pending key)
    else .error (.store (.deserialization ("unknown idempotency state: " ++ row.state) none))
  | none =>
    match systemTimeToMillis clock with
    | .error error => .error (.store error)
    | .ok updatedAtMs =>
      if raced then .error (.pending key)
      else
        match store.appendReserved db updatedAtMs key aggregateId aggregateIdKey
            expectedRevision prepared with
        | .ok done => .ok done
        | .error error => .error (.store error)

theorem runIdempotentAppend_free {db : SqliteDatabase} {clock : SystemTime} {updatedAtMs : Nat}
    {key : String} (free : db.idempotency key = none)
    (timed : systemTimeToMillis clock = .ok updatedAtMs) (aggregateId : A.Id)
    (aggregateIdKey : String) (expectedRevision : ExpectedRevision)
    (prepared : List (PreparedEvent store.codec)) :
    store.runIdempotentAppend db false clock key aggregateId aggregateIdKey expectedRevision
        prepared =
      (store.appendReserved db updatedAtMs key aggregateId aggregateIdKey expectedRevision
        prepared).mapError .store := by
  rw [runIdempotentAppend, free, timed]
  dsimp only
  cases store.appendReserved db updatedAtMs key aggregateId aggregateIdKey expectedRevision
    prepared <;> rfl

/-- `fault` is the database error the transaction is left with, if any. -/
def appendIdempotent (db : SqliteDatabase) (fault : Option EventStoreError) (raced : Bool)
    (clock : SystemTime) (key : String) (aggregateId : A.Id) (expectedRevision : ExpectedRevision)
    (events : List (NewEvent A.Event × Stamp)) :
    Except IdempotentAppendError (EventStream A × SqliteDatabase) :=
  match store.codec.serializeId aggregateId, events.mapM store.codec.prepare, fault with
  | .error error, _, _ => .error (.store error)
  | .ok _, .error error, _ => .error (.store error)
  | .ok _, .ok _, some error => .error (.store error)
  | .ok aggregateIdKey, .ok prepared, none =>
    store.runIdempotentAppend db raced clock key aggregateId aggregateIdKey expectedRevision
      prepared

end PooledEventStore

end DddCqrsEs
