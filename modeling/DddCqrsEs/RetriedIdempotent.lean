import DddCqrsEs.ExecuteIdempotentAtomic
import DddCqrsEs.GlobalFeed
import DddCqrsEs.KeyTransaction
import DddCqrsEs.PooledWrite
import DddCqrsEs.Transition

/- Callers of `append_idempotent` that share one key, each under the write helper of the pool: a
transport error of the first attempt leads to a second one on a fresh connection, while the
server may still be busy with the first. -/
namespace DddCqrsEs

open Transition PooledEventStore

variable {A : Aggregate}

/-- The arguments of one `append_idempotent`. -/
structure KeyedCall (A : Aggregate) where
  aggregateId : A.Id
  expectedRevision : ExpectedRevision
  events : List (NewEvent A.Event × Stamp)

/-- The work before the pool is asked for a connection. -/
def PooledEventStore.prepareAppend (store : PooledEventStore A) (call : KeyedCall A) :
    Except EventStoreError (KeyedAppend store.codec) := do
  let aggregateIdKey ← store.codec.serializeId call.aggregateId
  let prepared ← call.events.mapM store.codec.prepare
  return ⟨call.aggregateId, aggregateIdKey, call.expectedRevision, prepared⟩

/-- Where a call stands in `ConnectionPool::write`. -/
inductive RetryPhase (codec : RowCodec A) where
  | ready
  /-- In its first attempt or in its retry. -/
  | running (retry : Bool) (call : KeyedAppend codec)
  /-- The first attempt ended with a transport error. -/
  | broken (call : KeyedAppend codec) (error : EventStoreError)
  | returned (result : Except IdempotentAppendError (EventStream A))

namespace RetryPhase

variable {codec : RowCodec A}

/-- An error of an attempt. Only the first one is retried. -/
def afterError (retry : Bool) (call : KeyedAppend codec) (error : EventStoreError) :
    RetryPhase codec :=
  if retry = false ∧ isTransportError error then .broken call error
  else .returned (.error (.store error))

def afterReply (retry : Bool) (call : KeyedAppend codec) : KeyReply A → RetryPhase codec
  | .next _ => .running retry call
  | .ok result => .returned result
  | .err error => .afterError retry call error

end RetryPhase

/-- The server, the calls, and the sessions of their connections: what each was opened for and
the statement it has yet to run. A session can outlive its client. -/
structure RetryState (store : PooledEventStore A) where
  server : KeyServer A
  phase : Nat → RetryPhase store.codec
  session : Nat × Bool → Option (KeyedAppend store.codec × KeyStatement A)

/-- One step of a call, of a session, or of other clients. -/
inductive RetryAction (A : Aggregate) where
  /-- The call prepares its events and asks for a connection. -/
  | start (caller : Nat) (failure : Option ConnectionFailure)
  /-- The server runs the statement of a call, and the answer arrives. -/
  | answer (caller : Nat) (clock : SystemTime)
  /-- A call gets an error for its statement, whatever the server makes of it. -/
  | disconnect (caller : Nat) (failure : ConnectionFailure)
  /-- The pool opens a fresh connection for the retry, if it can. -/
  | reconnect (caller : Nat) (reconnects : Bool) (failure : Option ConnectionFailure)
  /-- The server runs a statement whose client is gone. -/
  | runLate (connection : Nat × Bool) (clock : SystemTime)
  /-- The server ends a session and rolls its transaction back. -/
  | rollback (connection : Nat × Bool)
  /-- Other clients commit events. -/
  | foreign (rows : List StoredEventRow) (lastSequence : Nat)
  | otherKey (other : String) (row : Option IdempotencyRow)

/-- The events that come from other clients. -/
def RetryAction.foreignRows : RetryAction A → List StoredEventRow
  | .foreign rows _ => rows
  | _ => []

namespace RetryState

variable {store : PooledEventStore A}

def become (s : RetryState store) (caller : Nat) (phase : RetryPhase store.codec) :
    RetryState store :=
  { s with phase := Function.update s.phase caller phase }

theorem become_self (s : RetryState store) (caller : Nat) (phase : RetryPhase store.codec) :
    (s.become caller phase).phase caller = phase := Function.update_self ..

theorem become_other (s : RetryState store) {caller other : Nat} (phase : RetryPhase store.codec)
    (different : other ≠ caller) : (s.become caller phase).phase other = s.phase other :=
  Function.update_of_ne different ..

/-- A connection for an attempt, which begins its transaction. -/
def connect (s : RetryState store) (caller : Nat) (retry : Bool)
    (call : KeyedAppend store.codec) : RetryState store where
  server := s.server
  phase := Function.update s.phase caller (.running retry call)
  session := Function.update s.session (caller, retry) (some (call, .loadIdempotency))

/-- A statement has run on a connection. -/
def ran (s : RetryState store) (connection : Nat × Bool) (call : KeyedAppend store.codec)
    (server : KeyServer A) (statement : KeyStatement A) : RetryState store where
  server := server
  phase := s.phase
  session := Function.update s.session connection (some (call, statement))

/-- The client of a connection still waits for it. -/
def attached (s : RetryState store) (connection : Nat × Bool) : Bool :=
  match s.phase connection.1 with
  | .running retry _ => retry = connection.2
  | _ => false

/-- The rows that the unique constraints see: others wait for an open transaction. -/
def guardedRows (server : KeyServer A) : List StoredEventRow :=
  server.db.events.rows ++ (server.holder.map KeyHolder.rows).getD []

def step (key : String) (calls : Nat → KeyedCall A) (s : RetryState store) :
    RetryAction A → Option (RetryState store)
  | .start caller failure =>
    match s.phase caller with
    | .ready =>
      match store.prepareAppend (calls caller) with
      | .error error => some (s.become caller (.returned (.error (.store error))))
      | .ok call =>
        match failure with
        | some failure => some (s.become caller (.returned (.error (.store failure.error))))
        | none => some (s.connect caller false call)
    | _ => none
  | .answer caller clock =>
    match s.phase caller with
    | .running retry _ =>
      match s.session (caller, retry) with
      | some (call, statement) =>
        (store.serve key call (caller, retry) clock s.server statement).map
          (fun (server, reply) =>
            (s.ran (caller, retry) call server reply.statement).become caller
              (.afterReply retry call reply))
      | none => none
    | _ => none
  | .disconnect caller failure =>
    match s.phase caller with
    | .running retry call => some (s.become caller (.afterError retry call failure.error))
    | _ => none
  | .reconnect caller reconnects failure =>
    match s.phase caller with
    | .broken call error =>
      if reconnects = false then some (s.become caller (.returned (.error (.store error))))
      else
        match failure with
        | some failure => some (s.become caller (.returned (.error (.store failure.error))))
        | none => some (s.connect caller true call)
    | _ => none
  | .runLate connection clock =>
    if s.attached connection then none
    else
      match s.session connection with
      | some (call, statement) =>
        (store.serve key call connection clock s.server statement).map
          (fun (server, _) => s.ran connection call server .done)
      | none => none
  | .rollback connection =>
    match s.session connection with
    | some _ =>
      some { s with
        server := s.server.rollback connection
        session := Function.update s.session connection none }
    | none => none
  | .foreign rows lastSequence =>
    if rows.any (fun row => (guardedRows s.server).any (fun other => row.conflicts other)) ∨
        lastSequence < s.server.db.events.lastSequence then none
    else
      some { s with
        server.db.events := ⟨s.server.db.events.rows ++ rows, lastSequence⟩ }
  | .otherKey other row =>
    if other = key then none
    else
      some { s with
        server.db.idempotency := Function.update s.server.db.idempotency other row }

end RetryState

/-- Any number of calls under one key. They find a free key, or one that an earlier call or
another client has left pending or complete; nobody else touches its row. -/
def retriedIdempotent (store : PooledEventStore A) (key : String) (calls : Nat → KeyedCall A) :
    Machine (RetryState store) (RetryAction A) where
  start s :=
    s.server.holder = none ∧ s.server.appended = [] ∧ (∀ caller, s.phase caller = .ready) ∧
      ∀ connection, s.session connection = none
  step s action := s.step key calls action

namespace KeyServer

/-- While the key is held nothing is recorded under it, and a batch that was appended is the
recorded one. -/
structure Safe (store : PooledEventStore A) (key : String) (server : KeyServer A) : Prop where
  unrecorded : ∀ holder, server.holder = some holder → server.db.idempotency key = none
  atMostOnce : server.appended.length ≤ 1
  stored : ∀ batch ∈ server.appended, batch.1 <:+: server.db.events.rows ∧
    List.Forall₂ (StoredAs store.codec) batch.1 batch.2
  recorded : ∀ batch ∈ server.appended, store.Recorded key server batch.2

variable {store : PooledEventStore A} {key : String} {actor : Option (Nat × Bool)}
  {server after : KeyServer A}

theorem Safe.nothing (safe : server.Safe store key) (fresh : server.db.idempotency key = none) :
    server.appended = [] := by
  cases appended : server.appended with
  | nil => rfl
  | cons batch rest =>
    obtain ⟨row, held, _⟩ := safe.recorded batch (by simp [appended])
    rw [fresh] at held
    cases held

theorem Safe.step (safe : server.Safe store key)
    (stepped : store.ServerStep key actor server after) : after.Safe store key := by
  cases stepped with
  | stay => exact safe
  | events events others grown =>
    obtain ⟨added, grown⟩ := grown
    refine ⟨safe.unrecorded, safe.atMostOnce, ?_, safe.recorded⟩
    intro batch member
    obtain ⟨inside, held⟩ := safe.stored batch member
    refine ⟨?_, held⟩
    rw [grown]
    exact inside.trans (List.prefix_append _ _).isInfix
  | otherKey idempotency others same =>
    refine ⟨?_, safe.atMostOnce, safe.stored, ?_⟩
    · intro holder held
      exact same.trans (safe.unrecorded holder held)
    · intro batch member
      obtain ⟨row, held, completed⟩ := safe.recorded batch member
      exact ⟨row, same.trans held, completed⟩
  | reserve connection own free fresh =>
    exact ⟨fun _ _ => fresh, safe.atMostOnce, safe.stored, safe.recorded⟩
  | write holder next lastSequence held own =>
    exact ⟨fun _ _ => safe.unrecorded holder held, safe.atMostOnce, safe.stored, safe.recorded⟩
  | release holder held own => exact ⟨by simp, safe.atMostOnce, safe.stored, safe.recorded⟩
  | commit holder row committed held own completed stored =>
    have nothing := safe.nothing (safe.unrecorded holder held)
    have only : (server.commit key holder row committed).appended =
        [(holder.rows, committed)] := by
      show server.appended ++ _ = _
      rw [nothing, List.nil_append]
    have found : store.Recorded key (server.commit key holder row committed) committed :=
      ⟨row, Function.update_self .., completed⟩
    refine ⟨by simp [KeyServer.commit], ?_, ?_, ?_⟩
    · rw [only]
      exact Nat.le_refl 1
    · intro batch member
      rw [only, List.mem_singleton] at member
      subst member
      exact ⟨(List.suffix_append _ _).isInfix, stored⟩
    · intro batch member
      rw [only, List.mem_singleton] at member
      subst member
      exact found

/-- A recorded batch stays, and nothing is appended any more. -/
theorem Safe.kept (safe : server.Safe store key) (stepped : store.ServerStep key actor server after)
    {committed : EventStream A} (recorded : store.Recorded key server committed) :
    store.Recorded key after committed ∧ after.appended = server.appended := by
  obtain ⟨row, held, completed⟩ := recorded
  cases stepped with
  | otherKey idempotency others same => exact ⟨⟨row, same.trans held, completed⟩, rfl⟩
  | commit holder _ _ holds =>
    rw [safe.unrecorded holder holds] at held
    cases held
  | stay | events | reserve | write | release => exact ⟨⟨row, held, completed⟩, rfl⟩

/-- No other connection takes the key from the one that holds it. -/
theorem holder_kept (stepped : store.ServerStep key actor server after) {holder : KeyHolder}
    (held : server.holder = some holder) (other : actor ≠ some holder.connection) :
    after.holder = some holder := by
  have foreign : ∀ own : KeyHolder, server.holder = some own → actor ≠ some own.connection := by
    intro own holds
    cases held.symm.trans holds
    exact other
  cases stepped with
  | stay | events | otherKey => exact held
  | reserve connection own free =>
    rw [free] at held
    cases held
  | write own _ _ holds mine => exact absurd mine (foreign own holds)
  | commit own _ _ holds mine => exact absurd mine (foreign own holds)
  | release own holds mine => exact absurd mine (foreign own holds)

/-- What backs the statement of one connection is not touched by another. -/
theorem Safe.frame (safe : server.Safe store key)
    (stepped : store.ServerStep key actor server after) {connection : Nat × Bool}
    (other : actor ≠ some connection) {statement : KeyStatement A}
    (backed : store.Backed key server connection statement) :
    store.Backed key after connection statement := by
  cases statement with
  | loadIdempotency | reserve | done => trivial
  | commitFound committed => exact (safe.kept stepped backed).1
  | revisionQuery | insert =>
    obtain ⟨holder, held, rfl⟩ := backed
    exact ⟨holder, holder_kept stepped held other, rfl⟩
  | complete committed row =>
    obtain ⟨holder, held, rfl, batch⟩ := backed
    exact ⟨holder, holder_kept stepped held other, rfl, batch⟩
  | commit committed =>
    obtain ⟨holder, row, held, rfl, batch⟩ := backed
    exact ⟨holder, row, holder_kept stepped held other, rfl, batch⟩

end KeyServer

namespace RetryState

variable {store : PooledEventStore A} {key : String} {calls : Nat → KeyedCall A}

/-- Every statement on its way is backed, and every batch that was returned is recorded. -/
structure Safe (key : String) (s : RetryState store) : Prop where
  server : s.server.Safe store key
  sessions : ∀ connection call statement, s.session connection = some (call, statement) →
    store.Backed key s.server connection statement
  returned : ∀ caller committed, s.phase caller = .returned (.ok committed) →
    store.Recorded key s.server committed

variable {s next : RetryState store} {server : KeyServer A} {codec : RowCodec A}
  {call : KeyedAppend codec} {committed : EventStream A}

/-- A call that moves on without a batch. -/
theorem Safe.become (safe : s.Safe key) (caller : Nat) {phase : RetryPhase store.codec}
    (recorded : ∀ committed, phase = .returned (.ok committed) →
      store.Recorded key s.server committed) : (s.become caller phase).Safe key := by
  refine ⟨safe.server, safe.sessions, ?_⟩
  intro other committed returned
  by_cases same : other = caller
  · subst same
    rw [become_self] at returned
    exact recorded committed returned
  · rw [become_other s phase same] at returned
    exact safe.returned other committed returned

/-- A step of the server leaves everything backed but the session that took it. -/
theorem Safe.serverStep (safe : s.Safe key) {actor : Nat × Bool}
    (stepped : store.ServerStep key (some actor) s.server server)
    (own : Option (KeyedAppend store.codec × KeyStatement A))
    (backed : ∀ call statement, own = some (call, statement) →
      store.Backed key server actor statement) :
    Safe key ⟨server, s.phase, Function.update s.session actor own⟩ := by
  refine ⟨safe.server.step stepped, ?_, ?_⟩
  · intro connection call statement held
    dsimp only at held
    by_cases same : connection = actor
    · subst same
      rw [Function.update_self] at held
      exact backed call statement held
    · rw [Function.update_of_ne same] at held
      have other : some actor ≠ some connection := fun mine => same (Option.some.inj mine).symm
      exact safe.server.frame stepped other (safe.sessions connection call statement held)
  · intro caller committed returned
    exact (safe.server.kept stepped (safe.returned caller committed returned)).1

/-- What other clients do leaves everything backed. -/
theorem Safe.foreignStep (safe : s.Safe key) (stepped : store.ServerStep key none s.server server) :
    Safe key { s with server := server } := by
  refine ⟨safe.server.step stepped, ?_, ?_⟩
  · intro connection call statement held
    exact safe.server.frame stepped (by simp) (safe.sessions connection call statement held)
  · intro caller committed returned
    exact (safe.server.kept stepped (safe.returned caller committed returned)).1

theorem Safe.connect (safe : s.Safe key) (caller : Nat) (retry : Bool)
    (call : KeyedAppend store.codec) : (s.connect caller retry call).Safe key := by
  have quiet : store.ServerStep key (some (caller, retry)) s.server s.server := .stay
  have opened := safe.serverStep quiet
    (some (call, .loadIdempotency)) (by
      rintro _ _ ⟨⟩
      trivial)
  apply opened.become caller
  rintro committed ⟨⟩

theorem afterError_returned {retry : Bool} {error : EventStoreError} :
    RetryPhase.afterError retry call error ≠ .returned (.ok committed) := by
  rw [RetryPhase.afterError]
  split <;> simp

theorem afterReply_returned {retry : Bool} {reply : KeyReply A}
    (returned : RetryPhase.afterReply retry call reply = .returned (.ok committed)) :
    reply = .ok (.ok committed) := by
  cases reply with
  | next => cases returned
  | ok result =>
    cases returned
    rfl
  | err error => exact absurd returned afterError_returned

/-- What a step does: a call moves on without a batch or gets a connection, a statement runs and
its client goes on or is gone, a session ends, or others act. -/
inductive Effect (key : String) (s : RetryState store) :
    List StoredEventRow → RetryState store → Prop
  | become (caller : Nat) (phase : RetryPhase store.codec)
      (quiet : ∀ committed, phase ≠ .returned (.ok committed)) :
      Effect key s [] (s.become caller phase)
  | connect (caller : Nat) (retry : Bool) (call : KeyedAppend store.codec) :
      Effect key s [] (s.connect caller retry call)
  | answer (caller : Nat) (retry : Bool) (call : KeyedAppend store.codec) (clock : SystemTime)
      (statement : KeyStatement A) (server : KeyServer A) (reply : KeyReply A)
      (waiting : s.session (caller, retry) = some (call, statement))
      (served : store.serve key call (caller, retry) clock s.server statement =
        some (server, reply)) :
      Effect key s [] ((s.ran (caller, retry) call server reply.statement).become caller
        (.afterReply retry call reply))
  | runLate (connection : Nat × Bool) (call : KeyedAppend store.codec) (clock : SystemTime)
      (statement : KeyStatement A) (server : KeyServer A) (reply : KeyReply A)
      (waiting : s.session connection = some (call, statement))
      (served : store.serve key call connection clock s.server statement = some (server, reply)) :
      Effect key s [] (s.ran connection call server .done)
  | rollback (connection : Nat × Bool) :
      Effect key s [] { s with
        server := s.server.rollback connection
        session := Function.update s.session connection none }
  | foreign (rows : List StoredEventRow) (server : KeyServer A)
      (stepped : store.ServerStep key none s.server server)
      (grown : server.db.events.rows = s.server.db.events.rows ++ rows)
      (same : server.appended = s.server.appended) :
      Effect key s rows { s with server := server }

theorem step_effect {action : RetryAction A} (stepped : s.step key calls action = some next) :
    Effect key s action.foreignRows next := by
  cases action with
  | start caller failure =>
    rw [step] at stepped
    split at stepped
    · split at stepped
      · cases stepped
        exact .become caller _ (by simp)
      · split at stepped
        · cases stepped
          exact .become caller _ (by simp)
        · cases stepped
          exact .connect caller false _
    · cases stepped
  | answer caller clock =>
    rw [step] at stepped
    split at stepped
    · rename_i retry _ _
      split at stepped
      · rename_i call statement waiting
        obtain ⟨⟨server, reply⟩, served, rfl⟩ := Option.map_eq_some_iff.mp stepped
        exact .answer caller retry call clock statement server reply waiting served
      · cases stepped
    · cases stepped
  | disconnect caller failure =>
    rw [step] at stepped
    split at stepped
    · cases stepped
      exact .become caller _ (fun _ => afterError_returned)
    · cases stepped
  | reconnect caller reconnects failure =>
    rw [step] at stepped
    split at stepped
    · split at stepped
      · cases stepped
        exact .become caller _ (by simp)
      · split at stepped
        · cases stepped
          exact .become caller _ (by simp)
        · cases stepped
          exact .connect caller true _
    · cases stepped
  | runLate connection clock =>
    rw [step] at stepped
    split at stepped
    · cases stepped
    · split at stepped
      · rename_i call statement waiting
        obtain ⟨⟨server, reply⟩, served, rfl⟩ := Option.map_eq_some_iff.mp stepped
        exact .runLate connection call clock statement server reply waiting served
      · cases stepped
  | rollback connection =>
    rw [step] at stepped
    split at stepped
    · cases stepped
      exact .rollback connection
    · cases stepped
  | foreign rows lastSequence =>
    rw [step] at stepped
    split at stepped
    · cases stepped
    · cases stepped
      exact .foreign rows _ (.events _ rfl ⟨rows, rfl⟩) rfl rfl
  | otherKey other row =>
    rw [step] at stepped
    split at stepped
    · cases stepped
    · rename_i different
      cases stepped
      exact .foreign [] _ (.otherKey _ rfl (Function.update_of_ne (Ne.symm different) ..))
        (List.append_nil _).symm rfl

theorem Safe.effect {rows : List StoredEventRow} (safe : s.Safe key)
    (effect : Effect key s rows next) : next.Safe key := by
  cases effect with
  | become caller phase quiet =>
    exact safe.become caller (fun committed returned => absurd returned (quiet committed))
  | connect caller retry call => exact safe.connect caller retry call
  | answer caller retry call clock statement server reply waiting served =>
    obtain ⟨stepped, warrants⟩ := serve_step (safe.sessions _ _ _ waiting) served
    have ran := safe.serverStep stepped (some (call, reply.statement)) (by
      rintro _ _ ⟨⟩
      exact warrants.statement)
    apply ran.become caller
    intro committed returned
    rw [afterReply_returned returned] at warrants
    exact warrants
  | runLate connection call clock statement server reply waiting served =>
    obtain ⟨stepped, _⟩ := serve_step (safe.sessions _ _ _ waiting) served
    apply safe.serverStep stepped
    rintro _ _ ⟨⟩
    trivial
  | rollback connection => exact safe.serverStep (rollback_step s.server) none (by simp)
  | foreign _ server stepped => exact safe.foreignStep stepped

/-- A step of the machine is one of the server, or leaves it alone. -/
theorem Safe.server_effect {rows : List StoredEventRow} (safe : s.Safe key)
    (effect : Effect key s rows next) :
    ∃ actor, store.ServerStep key actor s.server next.server := by
  cases effect with
  | become | connect => exact ⟨none, .stay⟩
  | answer _ _ _ _ _ _ _ waiting served =>
    exact ⟨_, (serve_step (safe.sessions _ _ _ waiting) served).1⟩
  | runLate _ _ _ _ _ _ waiting served =>
    exact ⟨_, (serve_step (safe.sessions _ _ _ waiting) served).1⟩
  | rollback connection => exact ⟨_, rollback_step s.server⟩
  | foreign _ server stepped => exact ⟨none, stepped⟩

/-- A step adds the rows of other clients and those of the batches it appends. -/
theorem Safe.rows {rows : List StoredEventRow} (safe : s.Safe key)
    (effect : Effect key s rows next) :
    ∃ added, next.server.appended = s.server.appended ++ added ∧
      next.server.db.events.rows =
        s.server.db.events.rows ++ (rows ++ added.flatMap Prod.fst) := by
  cases effect with
  | become | connect => exact ⟨[], (List.append_nil _).symm, (List.append_nil _).symm⟩
  | answer _ _ _ _ _ _ _ waiting served =>
    exact (serve_step (safe.sessions _ _ _ waiting) served).1.rows
  | runLate _ _ _ _ _ _ waiting served =>
    exact (serve_step (safe.sessions _ _ _ waiting) served).1.rows
  | rollback connection =>
    have stepped : store.ServerStep key (some connection) s.server
        (s.server.rollback connection) := rollback_step s.server
    exact stepped.rows
  | foreign _ server stepped grown same => exact ⟨[], by simpa using same, by simpa using grown⟩

end RetryState

section Runs

variable {store : PooledEventStore A} {key : String} {calls : Nat → KeyedCall A}
  {s t : RetryState store} {actions : List (RetryAction A)}

theorem retriedIdempotent_safe (reached : (retriedIdempotent store key calls).Reachable s) :
    s.Safe key := by
  refine Machine.invariant (I := RetryState.Safe key) ?_ ?_ reached
  · rintro s ⟨free, nothing, ready, closed⟩
    refine ⟨⟨?_, ?_, ?_, ?_⟩, ?_, ?_⟩
    · intro holder held
      rw [free] at held
      cases held
    · rw [nothing]
      exact Nat.zero_le 1
    · simp [nothing]
    · simp [nothing]
    · intro connection call statement open_
      rw [closed] at open_
      cases open_
    · intro caller committed returned
      rw [ready] at returned
      cases returned
  · intro s action next _ safe stepped
    exact safe.effect (RetryState.step_effect stepped)

/-- The table after a run: what was there, what other clients and what the calls appended. -/
theorem retriedIdempotent_rows (safe : s.Safe key)
    (ran : (retriedIdempotent store key calls).run s actions = some t) :
    ∃ added, t.server.appended = s.server.appended ++ added ∧
      t.server.db.events.rows.Perm (s.server.db.events.rows ++
        (actions.flatMap RetryAction.foreignRows ++ added.flatMap Prod.fst)) := by
  induction actions generalizing s with
  | nil =>
    cases ran
    exact ⟨[], by simp⟩
  | cons action rest ih =>
    obtain ⟨next, stepped, ran⟩ := Option.bind_eq_some_iff.mp ran
    have effect := RetryState.step_effect stepped
    obtain ⟨first, appended, grown⟩ := safe.rows effect
    obtain ⟨later, followed, counted⟩ := ih (safe.effect effect) ran
    refine ⟨first ++ later, ?_, ?_⟩
    · rw [followed, appended, List.append_assoc]
    · rw [grown] at counted
      apply counted.trans
      rw [List.perm_iff_count]
      intro row
      simp only [List.flatMap_cons, List.flatMap_append, List.count_append]
      omega

/-- Once a batch is recorded under the key, whatever follows keeps it and appends nothing. -/
theorem retriedIdempotent_final (safe : s.Safe key) {committed : EventStream A}
    (recorded : store.Recorded key s.server committed)
    (ran : (retriedIdempotent store key calls).run s actions = some t) :
    store.Recorded key t.server committed ∧ t.server.appended = s.server.appended := by
  induction actions generalizing s with
  | nil =>
    cases ran
    exact ⟨recorded, rfl⟩
  | cons action rest ih =>
    obtain ⟨next, stepped, ran⟩ := Option.bind_eq_some_iff.mp ran
    have effect := RetryState.step_effect stepped
    obtain ⟨actor, moved⟩ := safe.server_effect effect
    obtain ⟨kept, same⟩ := safe.server.kept moved recorded
    obtain ⟨last, unchanged⟩ := ih (safe.effect effect) kept ran
    exact ⟨last, unchanged.trans same⟩

end Runs

def accountPooled : PooledEventStore .account :=
  ⟨⟨.postgres, accountCodec⟩, accountCommittedJson, by decide⟩

def openingCall : Nat → KeyedCall .account :=
  fun _ => ⟨"a", .any, [(.ofDomainEvent () .empty, ⟨"e1", 0⟩)]⟩

def unopenedKey : RetryState accountPooled where
  server := ⟨⟨.empty, fun _ => none⟩, none, []⟩
  phase _ := .ready
  session _ := none

theorem unopenedKey_start : (retriedIdempotent accountPooled "k" openingCall).start unopenedKey :=
  ⟨rfl, rfl, fun _ => rfl, fun _ => rfl⟩

/-- Two more events of account "a", behind three rows of two accounts. -/
def goingOnBatch : EventStream .account :=
  [.commit "a" 2 (some 4) (.ofDomainEvent () .empty) ⟨"e1", 0⟩,
    .commit "a" 3 (some 5) (.ofDomainEvent () .empty) ⟨"e2", 0⟩]

def goingOnJson : String :=
  "[" ++ openedEnvelopeJson "e1" 2 4 ++ "," ++ openedEnvelopeJson "e2" 3 5 ++ "]"

def goingOnStore : PooledEventStore .account :=
  ⟨⟨.postgres, accountCodec⟩, batchJson goingOnBatch goingOnJson, by decide⟩

/-- The rows of two accounts, and another key that is complete. -/
def openedServer : KeyServer .account where
  db.events := ⟨[accountRowAt "e8" "b" 1 1, accountRowAt "e7" "a" 1 2, accountRowAt "e9" "b" 2 3], 3⟩
  db.idempotency key :=
    if key = "other" then some ⟨"complete", some "[]", 0, none, none⟩ else none
  holder := none
  appended := []

def openedEvent (eventId : String) : PreparedEvent accountCodec where
  event := (accountEvent eventId).1
  stamp := (accountEvent eventId).2
  payloadJson := "null"
  metadataJson := "\x7b\x7d"
  recordedAtMs := 0
  payload_text := rfl
  metadata_text := rfl
  recorded_text := (by decide +kernel : systemTimeToMillis 0 = .ok 0)

def goingOn : KeyedAppend goingOnStore.codec :=
  ⟨"a", "a", .exact 1, [openedEvent "e1", openedEvent "e2"]⟩

def goneOn : SqliteDatabase where
  events := ⟨openedServer.db.events.rows ++ [accountRowAt "e1" "a" 2 4, accountRowAt "e2" "a" 3 5], 5⟩
  idempotency := Function.update openedServer.db.idempotency "k"
    (some ⟨"complete", some goingOnJson, 0, none, none⟩)

theorem closure_runIdempotentAppend_opened :
    goingOnStore.ComesTo "k" (0, false) goingOn 0 openedServer .loadIdempotency
      (.ok (goingOnBatch, goneOn)) := by
  have free : openedServer.holder = none := rfl
  have whole : goingOnStore.runIdempotentAppend openedServer.db false 0 "k" "a" "a" (.exact 1)
      goingOn.prepared = .ok (goingOnBatch, goneOn) := rfl
  rw [← whole]
  exact PooledEventStore.closure_runIdempotentAppend goingOn 0 free

/-- The first attempt loses its connection with the commit under way, and the server commits
before the retry looks at the key. -/
def lostCommit : List (RetryAction .account) :=
  [.start 0 none, .answer 0 0, .answer 0 0, .answer 0 0, .answer 0 0,
    .answer 0 0, .disconnect 0 (.backend "connection closed" none),
    .runLate (0, false) 0, .reconnect 0 true none, .answer 0 0, .answer 0 0]

theorem lostCommit_runs :
    ((retriedIdempotent accountPooled "k" openingCall).run unopenedKey lostCommit).isSome =
      true := by
  decide +kernel

section Once

variable {store : PooledEventStore A} {key : String} {calls : Nat → KeyedCall A}

/-- However the connections fail, at most one batch is appended under the key, its rows are in
the table, and every call that returns events, in its first attempt or in its retry, returns the
batch the key holds, which is the appended one. Once the key holds a batch, it stays so and no
later step appends. -/
theorem retriedIdempotent_once {initial s : RetryState store} {actions : List (RetryAction A)}
    (started : (retriedIdempotent store key calls).start initial)
    (ran : (retriedIdempotent store key calls).run initial actions = some s) :
    s.server.appended.length ≤ 1 ∧
      s.server.db.events.rows.Perm (initial.server.db.events.rows ++
        (actions.flatMap RetryAction.foreignRows ++ s.server.appended.flatMap Prod.fst)) ∧
      (∀ batch ∈ s.server.appended, batch.1 <:+: s.server.db.events.rows ∧
        List.Forall₂ (StoredAs store.codec) batch.1 batch.2 ∧
        store.Recorded key s.server batch.2) ∧
      (∀ caller committed, s.phase caller = .returned (.ok committed) →
        store.Recorded key s.server committed ∧
          ∀ batch ∈ s.server.appended, batch.2 = committed) ∧
      ∀ committed, store.Recorded key s.server committed → ∀ later t,
        (retriedIdempotent store key calls).run s later = some t →
          store.Recorded key t.server committed ∧ t.server.appended = s.server.appended := by
  have begun := Machine.Reachable.start started
  have safe := retriedIdempotent_safe (begun.run ran)
  refine ⟨safe.server.atMostOnce, ?_, ?_, ?_, ?_⟩
  · obtain ⟨added, appended, counted⟩ := retriedIdempotent_rows (retriedIdempotent_safe begun) ran
    rw [started.2.1, List.nil_append] at appended
    rw [appended]
    exact counted
  · intro batch member
    obtain ⟨inside, held⟩ := safe.server.stored batch member
    exact ⟨inside, held, safe.server.recorded batch member⟩
  · intro caller committed returned
    have recorded := safe.returned caller committed returned
    refine ⟨recorded, ?_⟩
    intro batch member
    exact (safe.server.recorded batch member).unique recorded
  · intro committed recorded later t further
    exact retriedIdempotent_final safe recorded further

set_option maxRecDepth 8000 in
/-- The commit was lost to the client only, and its retry returns the batch. -/
theorem retriedIdempotent_once_account :
    ∃ s : RetryState accountPooled, s.phase 0 = .returned (.ok openedBatch) ∧
      accountPooled.Recorded "k" s.server openedBatch ∧ s.server.appended.length = 1 := by
  have ran := (Option.some_get lostCommit_runs).symm
  refine ⟨Option.get _ lostCommit_runs, rfl, ?_, rfl⟩
  exact ((retriedIdempotent_once unopenedKey_start ran).2.2.2.1 0 openedBatch rfl).1

end Once

end DddCqrsEs
