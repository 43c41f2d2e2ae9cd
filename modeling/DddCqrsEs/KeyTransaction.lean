import DddCqrsEs.PooledIdempotent

/- The transaction of `run_idempotent_append`, one statement after the other. Its client can lose
the connection before, while or after the server runs a statement. -/
namespace DddCqrsEs

variable {A : Aggregate}

/-- An `append_idempotent` as every run of its closure finds it. The event ids are drawn before
the first run. -/
structure KeyedAppend (codec : RowCodec A) where
  aggregateId : A.Id
  aggregateIdKey : String
  expectedRevision : ExpectedRevision
  prepared : List (PreparedEvent codec)

/-- The statement that is on its way to the server, with what the client keeps until then. -/
inductive KeyStatement (A : Aggregate) where
  | loadIdempotency
  /-- The commit after a completed key was found. -/
  | commitFound (committed : EventStream A)
  | reserve (snapshot : EventsTable) (updatedAtMs : Nat)
  | revisionQuery (snapshot : EventsTable) (updatedAtMs : Nat)
  | insert (read : EventsTable) (actualRevision updatedAtMs : Nat)
  | complete (committed : EventStream A) (row : IdempotencyRow)
  | commit (committed : EventStream A)
  /-- Nothing any more: the closure is over. -/
  | done

/-- The open transaction that has inserted the key. Nobody else sees what it wrote. -/
structure KeyHolder where
  /-- The call and whether this is its retry. -/
  connection : Nat × Bool
  rows : List StoredEventRow
  /-- The key's row once it is complete. -/
  row : Option IdempotencyRow

/-- What the server has committed, the transaction that holds the key, and the batches that
transactions under the key have committed, with their rows. -/
structure KeyServer (A : Aggregate) where
  db : SqliteDatabase
  holder : Option KeyHolder
  appended : List (List StoredEventRow × EventStream A)

/-- How the closure goes on from an answer: with another statement, or it returns. -/
inductive KeyReply (A : Aggregate) where
  | next (statement : KeyStatement A)
  | ok (result : Except IdempotentAppendError (EventStream A))
  | err (error : EventStoreError)

def KeyReply.statement : KeyReply A → KeyStatement A
  | .next statement => statement
  | .ok _ | .err _ => .done

/-- The table a statement reads. A MySQL transaction keeps to the snapshot of its first read. -/
def SqlDialect.sees (dialect : SqlDialect) (snapshot current : EventsTable) : EventsTable :=
  match dialect with
  | .mysql => snapshot
  | .sqlite | .postgres => current

namespace KeyServer

def commit (server : KeyServer A) (key : String) (holder : KeyHolder) (row : IdempotencyRow)
    (committed : EventStream A) : KeyServer A where
  db.events := ⟨server.db.events.rows ++ holder.rows, server.db.events.lastSequence⟩
  db.idempotency := Function.update server.db.idempotency key (some row)
  holder := none
  appended := server.appended ++ [(holder.rows, committed)]

/-- The sequences an insert draws are gone even if its transaction is rolled back. -/
def write (server : KeyServer A) (holder : KeyHolder) (lastSequence : Nat) : KeyServer A where
  db.events := ⟨server.db.events.rows, lastSequence⟩
  db.idempotency := server.db.idempotency
  holder := some holder
  appended := server.appended

/-- A transaction that ends without a commit gives the key back. -/
def rollback (server : KeyServer A) (connection : Nat × Bool) : KeyServer A :=
  match server.holder with
  | some holder => if holder.connection = connection then { server with holder := none } else server
  | none => server

end KeyServer

namespace PooledEventStore

variable (store : PooledEventStore A)

/-- What a row of the key means to the closure that finds it. -/
def afterLoad (key : String) (row : IdempotencyRow) : KeyReply A :=
  if row.state = "complete" then
    match row.value with
    | some value =>
      match store.committedFromJson value with
      | .ok committed => .next (.commitFound committed)
      | .error error => .err error
    | none => .ok (.error (.store
        (.deserialization "completed idempotency row is missing value" none)))
  else if row.state = "pending" then .ok (.error (.pending key))
  else .ok (.error (.store (.deserialization ("unknown idempotency state: " ++ row.state) none)))

/-- The server runs a statement, or lets it wait. `clock` is read before the key is reserved. -/
@[grind =] def serve (key : String) (call : KeyedAppend store.codec) (connection : Nat × Bool)
    (clock : SystemTime) (server : KeyServer A) :
    KeyStatement A → Option (KeyServer A × KeyReply A)
  | .loadIdempotency =>
    match server.db.idempotency key with
    | some row => some (server, store.afterLoad key row)
    | none =>
      match systemTimeToMillis clock with
      | .error error => some (server, .err error)
      | .ok updatedAtMs => some (server, .next (.reserve server.db.events updatedAtMs))
  | .commitFound committed => some (server, .ok (.ok committed))
  | .reserve snapshot updatedAtMs =>
    match server.holder, server.db.idempotency key with
    -- an insert of a key waits for the transaction that has inserted it
    | some _, _ => none
    | none, some _ => some (server, .ok (.error (.pending key)))
    | none, none =>
      some ({ server with holder := some ⟨connection, [], none⟩ },
        .next (.revisionQuery snapshot updatedAtMs))
  | .revisionQuery snapshot updatedAtMs =>
    let read := store.dialect.sees snapshot server.db.events
    let actualRevision := read.currentRevision A.aggregateType call.aggregateIdKey
    match checkExpectedRevision call.expectedRevision actualRevision with
    | .error error => some (server, .err error)
    | .ok () => some (server, .next (.insert read actualRevision updatedAtMs))
  | .insert read actualRevision updatedAtMs =>
    match insertPreparedEvents store.dialect read server.db.events call.aggregateId
        call.aggregateIdKey actualRevision call.expectedRevision call.prepared with
    | .error error => some (server, .err error)
    | .ok (committed, events) =>
      let rows := events.rows.drop server.db.events.rows.length
      let written := server.write ⟨connection, rows, none⟩ events.lastSequence
      match store.committedJson.toJson committed with
      | .error error =>
        some (written, .err
          (.serialization ("idempotent committed events JSON: " ++ error) none))
      | .ok value =>
        some (written,
          .next (.complete committed ⟨"complete", some value, updatedAtMs, none, none⟩))
  | .complete committed row =>
    match server.holder with
    | some holder =>
      some ({ server with holder := some { holder with row := some row } },
        .next (.commit committed))
    | none => none
  | .commit committed =>
    match server.holder with
    | some ⟨holding, rows, some row⟩ =>
      some (server.commit key ⟨holding, rows, some row⟩ row committed, .ok (.ok committed))
    | _ => none
  | .done => none

/-- The row of a completed key, holding this batch. -/
def Completed (row : IdempotencyRow) (committed : EventStream A) : Prop :=
  row.state = "complete" ∧
    ∃ value, row.value = some value ∧ store.committedJson.fromJson value = .ok committed

/-- The key is complete with this batch. -/
def Recorded (key : String) (server : KeyServer A) (committed : EventStream A) : Prop :=
  ∃ row, server.db.idempotency key = some row ∧ store.Completed row committed

/-- What is known at the server while a statement is on its way: past the reservation the
transaction holds the key, and from the insert on it holds the batch. -/
def Backed (key : String) (server : KeyServer A) (connection : Nat × Bool) :
    KeyStatement A → Prop
  | .loadIdempotency | .reserve _ _ | .done => True
  | .commitFound committed => store.Recorded key server committed
  | .revisionQuery _ _ | .insert _ _ _ =>
    ∃ holder, server.holder = some holder ∧ holder.connection = connection
  | .complete committed row =>
    ∃ holder, server.holder = some holder ∧ holder.connection = connection ∧
      store.Completed row committed ∧ List.Forall₂ (StoredAs store.codec) holder.rows committed
  | .commit committed =>
    ∃ holder row, server.holder = some holder ∧ holder.connection = connection ∧
      holder.row = some row ∧ store.Completed row committed ∧
      List.Forall₂ (StoredAs store.codec) holder.rows committed

/-- The same after an answer; a batch is only returned if it is the key's. -/
def Warrants (key : String) (server : KeyServer A) (connection : Nat × Bool) : KeyReply A → Prop
  | .next statement => store.Backed key server connection statement
  | .ok (.ok committed) => store.Recorded key server committed
  | .ok (.error _) | .err _ => True

/-- What can happen at the server: others commit their rows or touch other keys, a connection
reserves the key, writes under it, commits or is rolled back. -/
inductive ServerStep (key : String) (actor : Option (Nat × Bool)) (server : KeyServer A) :
    KeyServer A → Prop
  | stay : ServerStep key actor server server
  | events (events : EventsTable) (others : actor = none)
      (grown : ∃ added, events.rows = server.db.events.rows ++ added) :
      ServerStep key actor server { server with db := { server.db with events := events } }
  | otherKey (idempotency : String → Option IdempotencyRow) (others : actor = none)
      (same : idempotency key = server.db.idempotency key) :
      ServerStep key actor server
        { server with db := { server.db with idempotency := idempotency } }
  | reserve (connection : Nat × Bool) (own : actor = some connection)
      (free : server.holder = none) (fresh : server.db.idempotency key = none) :
      ServerStep key actor server { server with holder := some ⟨connection, [], none⟩ }
  | write (holder next : KeyHolder) (lastSequence : Nat) (held : server.holder = some holder)
      (own : actor = some holder.connection) :
      ServerStep key actor server (server.write next lastSequence)
  | commit (holder : KeyHolder) (row : IdempotencyRow) (committed : EventStream A)
      (held : server.holder = some holder) (own : actor = some holder.connection)
      (completed : store.Completed row committed)
      (stored : List.Forall₂ (StoredAs store.codec) holder.rows committed) :
      ServerStep key actor server (server.commit key holder row committed)
  | release (holder : KeyHolder) (held : server.holder = some holder)
      (own : actor = some holder.connection) :
      ServerStep key actor server { server with holder := none }

variable {store} {key : String} {connection : Nat × Bool}

theorem committedFromJson_ok {value : String} {committed : EventStream A}
    (decoded : store.committedFromJson value = .ok committed) :
    store.committedJson.fromJson value = .ok committed := by
  rw [committedFromJson] at decoded
  split at decoded
  · rename_i other read
    cases decoded
    exact read
  · cases decoded

variable {server after : KeyServer A} {reply : KeyReply A} {call : KeyedAppend store.codec}
  {clock : SystemTime} {read events : EventsTable} {actualRevision : Nat}

/-- The key holds one batch. -/
theorem Recorded.unique {first second : EventStream A} (one : store.Recorded key server first)
    (other : store.Recorded key server second) : first = second := by
  obtain ⟨row, held, _, value, valued, decoded⟩ := one
  obtain ⟨row', held', _, value', valued', decoded'⟩ := other
  cases held.symm.trans held'
  cases valued.symm.trans valued'
  cases decoded.symm.trans decoded'
  rfl

/-- A connection adds rows to the table by a commit only, those of the batch it appends. -/
theorem ServerStep.rows (stepped : store.ServerStep key (some connection) server after) :
    ∃ added, after.appended = server.appended ++ added ∧
      after.db.events.rows = server.db.events.rows ++ added.flatMap Prod.fst := by
  cases stepped with
  | events _ others | otherKey _ others => cases others
  | stay | reserve | write | release =>
    exact ⟨[], by simp [KeyServer.write], by simp [KeyServer.write]⟩
  | commit holder row committed =>
    exact ⟨[(holder.rows, committed)], rfl, by simp [KeyServer.commit]⟩

theorem rollback_step (server : KeyServer A) :
    store.ServerStep key (some connection) server (server.rollback connection) := by
  rw [KeyServer.rollback]
  split
  · rename_i holder held
    split
    · rename_i own
      exact .release holder held (congrArg some own.symm)
    · exact .stay
  · exact .stay

theorem Warrants.statement (warrants : store.Warrants key server connection reply) :
    store.Backed key server connection reply.statement := by
  cases reply with
  | next statement => exact warrants
  | ok | err => trivial

theorem afterLoad_warranted {row : IdempotencyRow} (found : server.db.idempotency key = some row) :
    store.Warrants key server connection (store.afterLoad key row) := by
  rw [afterLoad]
  split
  · rename_i complete
    split
    · rename_i value valued
      split
      · rename_i committed decoded
        exact ⟨row, found, complete, value, valued, committedFromJson_ok decoded⟩
      · trivial
    · trivial
  · split <;> trivial

/-- The one place where a batch comes to be: it is stored as it is returned, and its row holds
it. -/
theorem serve_insert {updatedAtMs : Nat} {holder : KeyHolder} (held : server.holder = some holder)
    (own : holder.connection = connection) (served : store.serve key call connection clock server
      (.insert read actualRevision updatedAtMs) = some (after, reply)) :
    store.ServerStep key (some connection) server after ∧
      store.Warrants key after connection reply := by
  rw [serve] at served
  split at served
  · cases served
    exact ⟨.stay, trivial⟩
  · rename_i committed events inserted
    obtain ⟨added, grown, _, _, _, stored⟩ := insertPreparedEvents_ok inserted
    have rows : events.rows.drop server.db.events.rows.length = added := by
      rw [grown, List.drop_left]
    rw [← rows] at stored
    dsimp only at served
    split at served
    · cases served
      exact ⟨.write holder _ _ held (congrArg some own.symm), trivial⟩
    · rename_i value written
      cases served
      have read := store.committedJson.fromJson_toJson committed value written
      exact ⟨.write holder _ _ held (congrArg some own.symm),
        _, rfl, rfl, ⟨rfl, value, rfl, read⟩, stored⟩

/-- What a statement does at the server, and what its answer is worth. -/
theorem serve_step {statement : KeyStatement A}
    (backed : store.Backed key server connection statement)
    (served : store.serve key call connection clock server statement = some (after, reply)) :
    store.ServerStep key (some connection) server after ∧
      store.Warrants key after connection reply := by
  cases statement with
  | loadIdempotency =>
    rw [serve] at served
    split at served
    · rename_i row found
      cases served
      exact ⟨.stay, afterLoad_warranted found⟩
    · split at served <;> cases served <;> exact ⟨.stay, trivial⟩
  | commitFound committed =>
    cases served
    exact ⟨.stay, backed⟩
  | reserve snapshot updatedAtMs =>
    rw [serve] at served
    split at served
    · cases served
    · cases served
      exact ⟨.stay, trivial⟩
    · rename_i free fresh
      cases served
      exact ⟨.reserve connection rfl free fresh, _, rfl, rfl⟩
  | revisionQuery snapshot updatedAtMs =>
    rw [serve] at served
    split at served
    · cases served
      exact ⟨.stay, trivial⟩
    · cases served
      exact ⟨.stay, backed⟩
  | insert read actualRevision updatedAtMs =>
    obtain ⟨holder, held, own⟩ := backed
    exact serve_insert held own served
  | complete committed row =>
    obtain ⟨holder, held, own, completed, stored⟩ := backed
    rw [serve, held] at served
    cases served
    exact ⟨.write holder _ server.db.events.lastSequence held (congrArg some own.symm),
      _, row, rfl, own, rfl, completed, stored⟩
  | commit committed =>
    obtain ⟨⟨holding, rows, held⟩, row, holds, own, complete, completed, stored⟩ := backed
    cases complete
    rw [serve, holds] at served
    cases served
    refine ⟨.commit _ row committed holds (congrArg some own.symm) completed stored,
      row, ?_, completed⟩
    exact Function.update_self ..
  | done => cases served

variable (store key connection)

/-- The statements of one run of the closure, up to the one it returns after. -/
inductive Closure (call : KeyedAppend store.codec) (clock : SystemTime) :
    KeyServer A → KeyStatement A → KeyServer A → Except IdempotentAppendError (EventStream A) → Prop
  | ok {server after : KeyServer A} {statement : KeyStatement A}
      {result : Except IdempotentAppendError (EventStream A)}
      (served : store.serve key call connection clock server statement =
        some (after, .ok result)) : Closure call clock server statement after result
  | err {server after : KeyServer A} {statement : KeyStatement A} {error : EventStoreError}
      (served : store.serve key call connection clock server statement =
        some (after, .err error)) :
      Closure call clock server statement after (.error (.store error))
  | next {server between after : KeyServer A} {statement later : KeyStatement A}
      {result : Except IdempotentAppendError (EventStream A)}
      (served : store.serve key call connection clock server statement =
        some (between, .next later)) (rest : Closure call clock between later after result) :
      Closure call clock server statement after result

/-- A run that comes to the result of a transaction as a whole. -/
def ComesTo (call : KeyedAppend store.codec) (clock : SystemTime) (server : KeyServer A)
    (statement : KeyStatement A)
    (whole : Except IdempotentAppendError (EventStream A × SqliteDatabase)) : Prop :=
  ∃ after, store.Closure key connection call clock server statement after (whole.map Prod.fst) ∧
    ∀ done, whole = .ok done → after.db = done.2

variable {store key connection}

section ComesTo

variable {statement : KeyStatement A}

theorem ComesTo.failed {error : EventStoreError}
    (served : store.serve key call connection clock server statement = some (after, .err error)) :
    store.ComesTo key connection call clock server statement (.error (.store error)) :=
  ⟨after, .err served, by simp⟩

theorem ComesTo.refused {error : IdempotentAppendError}
    (served : store.serve key call connection clock server statement =
      some (after, .ok (.error error))) :
    store.ComesTo key connection call clock server statement (.error error) :=
  ⟨after, .ok served, by simp⟩

theorem ComesTo.committed {committed : EventStream A}
    (served : store.serve key call connection clock server statement =
      some (after, .ok (.ok committed))) :
    store.ComesTo key connection call clock server statement (.ok (committed, after.db)) := by
  refine ⟨after, .ok served, ?_⟩
  rintro _ ⟨⟩
  rfl

theorem ComesTo.next {later : KeyStatement A}
    {whole : Except IdempotentAppendError (EventStream A × SqliteDatabase)}
    (served : store.serve key call connection clock server statement = some (after, .next later))
    (rest : store.ComesTo key connection call clock after later whole) :
    store.ComesTo key connection call clock server statement whole := by
  obtain ⟨final, closes, same⟩ := rest
  exact ⟨final, .next served closes, same⟩

end ComesTo

theorem sees_same (dialect : SqlDialect) (table : EventsTable) :
    dialect.sees table table = table := by
  cases dialect <;> rfl

/-- The server keeps the rows an insert has added, and commits the table it has made. -/
theorem inserted_rows {table : EventsTable} {aggregateId : A.Id} {aggregateIdKey : String}
    {expectedRevision : ExpectedRevision} {prepared : List (PreparedEvent store.codec)}
    {committed : EventStream A}
    (inserted : insertPreparedEvents store.dialect read table aggregateId aggregateIdKey
      actualRevision expectedRevision prepared = .ok (committed, events)) :
    table.rows ++ events.rows.drop table.rows.length = events.rows := by
  obtain ⟨added, grown, _⟩ := insertPreparedEvents_ok inserted
  rw [grown, List.drop_left]

/-- The insert, the row of the completed key and the commit. -/
theorem closure_insert {updatedAtMs : Nat} {committed : EventStream A} {value : String}
    (inserted : insertPreparedEvents store.dialect read server.db.events call.aggregateId
      call.aggregateIdKey actualRevision call.expectedRevision call.prepared =
      .ok (committed, events)) (written : store.committedJson.toJson committed = .ok value) :
    store.ComesTo key connection call clock server (.insert read actualRevision updatedAtMs)
      (.ok (committed, ⟨events, Function.update server.db.idempotency key
        (some ⟨"complete", some value, updatedAtMs, none, none⟩)⟩)) := by
  let row : IdempotencyRow := ⟨"complete", some value, updatedAtMs, none, none⟩
  let holder : KeyHolder := ⟨connection, events.rows.drop server.db.events.rows.length, none⟩
  let opened := server.write holder events.lastSequence
  let completed : KeyServer A := { opened with holder := some { holder with row := some row } }
  have first : store.serve key call connection clock server
      (.insert read actualRevision updatedAtMs) =
      some (opened, .next (.complete committed row)) := by
    simp only [serve, inserted, written]
    rfl
  have second : store.serve key call connection clock opened (.complete committed row) =
      some (completed, .next (.commit committed)) := rfl
  have last : store.ComesTo key connection call clock completed (.commit committed) _ :=
    .committed rfl
  have whole := ComesTo.next first (.next second last)
  dsimp only [KeyServer.commit, completed, opened, holder, KeyServer.write] at whole
  rw [inserted_rows inserted] at whole
  exact whole

/-- From the reserved key on, the statements come to `appendReserved`. -/
theorem closure_appendReserved (call : KeyedAppend store.codec) (clock : SystemTime)
    (updatedAtMs : Nat) (server : KeyServer A) :
    store.ComesTo key connection call clock server (.revisionQuery server.db.events updatedAtMs)
      ((store.appendReserved server.db updatedAtMs key call.aggregateId call.aggregateIdKey
        call.expectedRevision call.prepared).mapError .store) := by
  rw [appendReserved]
  cases checked : checkExpectedRevision call.expectedRevision
      (server.db.events.currentRevision A.aggregateType call.aggregateIdKey) with
  | error error =>
    have queried : store.serve key call connection clock server
        (.revisionQuery server.db.events updatedAtMs) = some (server, .err error) := by
      simp only [serve, sees_same, checked]
    exact .failed queried
  | ok admitted =>
    have queried : store.serve key call connection clock server
        (.revisionQuery server.db.events updatedAtMs) =
        some (server, .next (.insert server.db.events
          (server.db.events.currentRevision A.aggregateType call.aggregateIdKey)
          updatedAtMs)) := by
      simp only [serve, sees_same, checked]
    apply ComesTo.next queried
    dsimp only
    cases inserted : insertPreparedEvents store.dialect server.db.events server.db.events
        call.aggregateId call.aggregateIdKey
        (server.db.events.currentRevision A.aggregateType call.aggregateIdKey)
        call.expectedRevision call.prepared with
    | error error =>
      have failed : store.serve key call connection clock server
          (.insert server.db.events (server.db.events.currentRevision A.aggregateType
            call.aggregateIdKey) updatedAtMs) = some (server, .err error) := by
        simp only [serve, inserted]
      exact .failed failed
    | ok done =>
      obtain ⟨committed, events⟩ := done
      dsimp only
      cases written : store.committedJson.toJson committed with
      | error error =>
        apply ComesTo.failed
        simp only [serve, inserted, written]
        rfl
      | ok value => exact closure_insert inserted written

/-- The closure ends, with what the transaction as a whole comes to. -/
theorem closure_runIdempotentAppend (call : KeyedAppend store.codec) (clock : SystemTime)
    {server : KeyServer A} (free : server.holder = none) :
    store.ComesTo key connection call clock server .loadIdempotency
      (store.runIdempotentAppend server.db false clock key call.aggregateId call.aggregateIdKey
        call.expectedRevision call.prepared) := by
  cases found : server.db.idempotency key with
  | some row =>
    have loaded : store.serve key call connection clock server .loadIdempotency =
        some (server, store.afterLoad key row) := by
      rw [serve, found]
    rw [runIdempotentAppend, found]
    dsimp only
    rw [afterLoad] at loaded
    split
    · rename_i complete
      rw [if_pos complete] at loaded
      cases valued : row.value with
      | none =>
        rw [valued] at loaded
        exact .refused loaded
      | some value =>
        rw [valued] at loaded
        dsimp only at loaded ⊢
        cases decoded : store.committedFromJson value with
        | error error =>
          rw [decoded] at loaded
          exact .failed loaded
        | ok committed =>
          rw [decoded] at loaded
          exact .next loaded (.committed rfl)
    · rename_i incomplete
      rw [if_neg incomplete] at loaded
      split
      · rename_i pending
        rw [if_pos pending] at loaded
        exact .refused loaded
      · rename_i unknown
        rw [if_neg unknown] at loaded
        exact .refused loaded
  | none =>
    cases timed : systemTimeToMillis clock with
    | error error =>
      have loaded : store.serve key call connection clock server .loadIdempotency =
          some (server, .err error) := by
        simp only [serve, found, timed]
      rw [runIdempotentAppend, found, timed]
      exact .failed loaded
    | ok updatedAtMs =>
      have loaded : store.serve key call connection clock server .loadIdempotency =
          some (server, .next (.reserve server.db.events updatedAtMs)) := by
        simp only [serve, found, timed]
      have reserved : store.serve key call connection clock server
          (.reserve server.db.events updatedAtMs) =
          some ({ server with holder := some ⟨connection, [], none⟩ },
            .next (.revisionQuery server.db.events updatedAtMs)) := by
        simp only [serve, free, found]
      let held : KeyServer A := { server with holder := some ⟨connection, [], none⟩ }
      rw [store.runIdempotentAppend_free found timed]
      exact .next loaded (.next reserved (closure_appendReserved call clock updatedAtMs held))

end PooledEventStore

end DddCqrsEs
