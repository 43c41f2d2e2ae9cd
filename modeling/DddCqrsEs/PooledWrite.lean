import DddCqrsEs.SqlStore

/- The connection pool's write helper around a PostgreSQL or MySQL append, with the
connection failing at any point of either attempt. -/
namespace DddCqrsEs

variable {A : Aggregate}

/-- A failed connection as its client sees it. -/
inductive ConnectionFailure where
  | connection (message : String)
  | backend (message : String) (code : Option String)
  deriving DecidableEq, Repr

def ConnectionFailure.error : ConnectionFailure → EventStoreError
  | .connection message => .connection message none
  | .backend message code => .backend message code

/-- Where the connection of one attempt fails: before the revision is read, in the insert,
with the commit request lost, or with the commit acknowledgement lost. -/
inductive FaultPoint where
  | beforeRead
  | insert
  | commit
  | acknowledge
  deriving DecidableEq, Repr

/-- What one attempt runs into: rows that other clients commit before it reads the revision
and between that read and its insert, and a failure of its connection. -/
structure AttemptEnv where
  before : List StoredEventRow
  between : List StoredEventRow
  fault : Option (FaultPoint × ConnectionFailure)

/-- The client's result, the table, and the rows of each transaction of this call that the
server committed. -/
structure Written (α : Type) where
  result : Except EventStoreError α
  table : EventsTable
  commits : List (List StoredEventRow)

def EventsTable.joined (table : EventsTable) (others : List StoredEventRow) : EventsTable :=
  ⟨table.rows ++ sequenced (table.lastSequence + 1) others, table.lastSequence + others.length⟩

variable {codec : RowCodec A}

/-- The attempt once the expectation is met: insert and commit. An empty batch only
commits. -/
def insertAttempt (dialect : SqlDialect) (read written : EventsTable) (aggregateId : A.Id)
    (key : String) (actualRevision : Nat) (expectedRevision : ExpectedRevision)
    (prepared : List (PreparedEvent codec)) (fault : Option (FaultPoint × ConnectionFailure)) :
    Written (EventStream A) :=
  if prepared.isEmpty then
    ⟨fault.elim (.ok []) (fun (_, failure) => .error failure.error), written, []⟩
  else
    let inserted := insertPreparedEvents dialect read written aggregateId key actualRevision
      expectedRevision prepared
    match fault, inserted with
    | some (.insert, failure), _ => ⟨.error failure.error, written, []⟩
    | _, .error error => ⟨.error error, written, []⟩
    | none, .ok (committed, after) =>
      ⟨.ok committed, after, [after.rows.drop written.rows.length]⟩
    | some (.acknowledge, failure), .ok (_, after) =>
      ⟨.error failure.error, after, [after.rows.drop written.rows.length]⟩
    | some (_, failure), .ok _ => ⟨.error failure.error, written, []⟩

/-- The closure `append` hands to the pool. -/
def appendAttempt (dialect : SqlDialect) (keys : List String) (aggregateId : A.Id)
    (expectedRevision : ExpectedRevision) (prepared : List (PreparedEvent codec))
    (env : AttemptEnv) (table : EventsTable) : Written (EventStream A) :=
  let read := table.joined env.before
  match env.fault with
  | some (.beforeRead, failure) => ⟨.error failure.error, read, []⟩
  | fault =>
    let actualRevision := maxRevisionForLookupKeys keys (read.currentRevision A.aggregateType)
    let written := read.joined env.between
    match checkExpectedRevision expectedRevision actualRevision with
    | .error error => ⟨.error error, written, []⟩
    | .ok () =>
      insertAttempt dialect read written aggregateId (keys.headD "") actualRevision
        expectedRevision prepared fault

/-- What one call of the write helper runs into. -/
structure WriteEnv where
  acquire : Option ConnectionFailure
  first : AttemptEnv
  /-- Whether the pool can open new connections. -/
  reconnects : Bool
  acquireFresh : Option ConnectionFailure
  second : AttemptEnv

/-- `ConnectionPool::write`: one attempt, and after a transport error a second one on a
fresh connection, whose result stands. -/
def poolWrite {α : Type} (env : WriteEnv) (operation : AttemptEnv → EventsTable → Written α)
    (table : EventsTable) : Written α :=
  match env.acquire with
  | some failure => ⟨.error failure.error, table, []⟩
  | none =>
    let first := operation env.first table
    match first.result with
    | .ok _ => first
    | .error error =>
      if isTransportError error = false ∨ env.reconnects = false then first
      else
        match env.acquireFresh with
        | some failure => { first with result := .error failure.error }
        | none =>
          let second := operation env.second first.table
          { second with commits := first.commits ++ second.commits }

/-- `append` of the PostgreSQL and MySQL stores. -/
def pooledAppend (store : SqlEventStore A) (env : WriteEnv) (table : EventsTable)
    (aggregateId : A.Id) (expectedRevision : ExpectedRevision)
    (events : List (NewEvent A.Event × Stamp)) : Written (EventStream A) :=
  match store.codec.aggregateIdLookupKeys aggregateId, events.mapM store.codec.prepare with
  | .error error, _ => ⟨.error error, table, []⟩
  | .ok _, .error error => ⟨.error error, table, []⟩
  | .ok keys, .ok prepared =>
    poolWrite env (appendAttempt store.dialect keys aggregateId expectedRevision prepared) table

@[simp] theorem EventsTable.joined_nil (table : EventsTable) : table.joined [] = table := by
  simp [EventsTable.joined, sequenced]

end DddCqrsEs
