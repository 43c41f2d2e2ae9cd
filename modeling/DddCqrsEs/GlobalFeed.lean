import DddCqrsEs.CursorFeed
import DddCqrsEs.ProjectionReplay
import DddCqrsEs.SqlStore
import Mathlib.Data.List.Flatten

/- The global feed of the PostgreSQL and MySQL stores. An append draws its sequences when it
inserts and becomes visible when it commits; a projection runner polls by sequence. The append
takes no lock, so only the unique constraints order one transaction after another. -/
namespace DddCqrsEs

open Replay CursorFeed

/-- An append of any aggregate type, as its transaction sees it. -/
structure AppendCall where
  aggregateType : String
  lookupKeys : List String
  expectedRevision : ExpectedRevision
  /-- The rows of the batch above a revision; their sequences are not drawn yet. -/
  rows : Nat → Except EventStoreError (List StoredEventRow)

def SqlEventStore.appendCall {A : Aggregate} (store : SqlEventStore A) (aggregateId : A.Id)
    (expectedRevision : ExpectedRevision) (events : List (NewEvent A.Event × Stamp)) :
    Except EventStoreError AppendCall := do
  let keys ← store.codec.aggregateIdLookupKeys aggregateId
  let prepared ← events.mapM store.codec.prepare
  return ⟨A.aggregateType, keys, expectedRevision,
    fun actualRevision => PreparedEvent.rows store.dialect (keys.headD "") actualRevision prepared⟩

/-- An open transaction: its expectation is met, or its batch is inserted as well. -/
inductive Transaction where
  | checked (actualRevision : Nat) (call : AppendCall)
  | inserted (rows : List StoredEventRow)

def Transaction.rows : Transaction → List StoredEventRow
  | .checked _ _ => []
  | .inserted rows => rows

/-- The feed of one aggregate type, or the raw one. -/
inductive FeedScope where
  | aggregateType (name : String)
  | raw
  deriving DecidableEq, Repr

def FeedScope.admits : FeedScope → StoredEventRow → Bool
  | .aggregateType name, row => row.aggregateType = name
  | .raw, _ => true

/-- `… AND sequence > ? ORDER BY sequence ASC LIMIT ?`, where no checkpoint reads as zero. -/
def loadGlobalAfterLimited (scope : FeedScope) (committed : List StoredEventRow)
    (checkpoint : Option Nat) (limit : Nat) : List StoredEventRow :=
  ((committed.filter (fun row => scope.admits row ∧ checkpoint.getD 0 < row.sequence)).insertionSort
    (fun first second => first.sequence ≤ second.sequence)).take limit

/-- The database and one persisted runner on it. -/
structure FeedState where
  /-- The visible rows, in commit order. -/
  committed : List StoredEventRow
  /-- The sequences handed out so far; a rollback returns none. -/
  drawn : List Nat
  /-- The open transaction of each connection that has one. -/
  transactions : List (Nat × Transaction)
  checkpoint : Option Nat
  applied : List StoredEventRow
  poll : Option (Poll StoredEventRow)

def FeedState.empty : FeedState := ⟨[], [], [], none, [], none⟩

/-- One statement of an append on its connection, or one call of the runner. A poll that fails
is followed by the next read. -/
inductive FeedAction where
  | begin (connection : Nat) (call : AppendCall)
  | insert (connection : Nat) (sequences : List Nat)
  | commit (connection : Nat)
  | rollback (connection : Nat)
  | read (limit : Nat)
  | apply
  | save

/-- Two rows that a unique constraint keeps apart. -/
def StoredEventRow.conflicts (row other : StoredEventRow) : Bool :=
  row.eventId = other.eventId ∨ (row.aggregateType = other.aggregateType ∧
    row.aggregateId = other.aggregateId ∧ row.revision = other.revision)

namespace FeedState

variable (state : FeedState)

def transaction (connection : Nat) : Option Transaction :=
  (state.transactions.find? (fun entry => entry.1 = connection)).map Prod.snd

def close (connection : Nat) : FeedState :=
  { state with transactions := state.transactions.eraseP (fun entry => entry.1 = connection) }

/-- An insert waits for an open transaction that holds a conflicting row. -/
def waits (connection : Nat) (rows : List StoredEventRow) : Bool :=
  (state.close connection).transactions.any (fun entry =>
    entry.2.rows.any (fun other => rows.any (fun row => row.conflicts other)))

/-- The sequences an insert draws ascend and are new. Other inserts may draw in between. -/
def Draws (sequences : List Nat) (count : Nat) : Prop :=
  sequences.length = count ∧ sequences.Pairwise (· < ·) ∧
    ∀ sequence ∈ sequences, 0 < sequence ∧ sequence ∉ state.drawn

instance (sequences : List Nat) (count : Nat) : Decidable (state.Draws sequences count) :=
  inferInstanceAs (Decidable (_ ∧ _ ∧ _))

end FeedState

def withSequences (rows : List StoredEventRow) (sequences : List Nat) : List StoredEventRow :=
  List.zipWith (fun row sequence => { row with sequence := sequence }) rows sequences

def FeedState.step (scope : FeedScope) (state : FeedState) : FeedAction → Option FeedState
  | .begin connection call =>
    if (state.transaction connection).isSome then none
    else
      let table : EventsTable := ⟨state.committed, 0⟩
      let actualRevision :=
        maxRevisionForLookupKeys call.lookupKeys (table.currentRevision call.aggregateType)
      match checkExpectedRevision call.expectedRevision actualRevision with
      | .error _ => some state
      | .ok () =>
        some { state with
          transactions := (connection, .checked actualRevision call) :: state.transactions }
  | .insert connection sequences =>
    match state.transaction connection with
    | some (.checked actualRevision call) =>
      match call.rows actualRevision with
      | .error _ => some (state.close connection)
      | .ok rows =>
        if state.waits connection rows ∨ ¬ state.Draws sequences rows.length then none
        else
          let closed := { state.close connection with drawn := state.drawn ++ sequences }
          match (EventsTable.mk state.committed 0).insertAll rows with
          | .error _ => some closed
          | .ok _ =>
            some { closed with
              transactions :=
                (connection, .inserted (withSequences rows sequences)) ::
                  closed.transactions }
    | _ => none
  | .commit connection =>
    match state.transaction connection with
    | some (.inserted rows) =>
      some { state.close connection with
        committed := state.committed ++ rows
        poll := state.poll.map (fun poll =>
          { poll with since := poll.since ++ rows.filter scope.admits }) }
    | _ => none
  | .rollback connection =>
    if (state.transaction connection).isSome then some (state.close connection) else none
  | .read limit =>
    let batch := loadGlobalAfterLimited scope state.committed state.checkpoint limit
    some { state with poll := some ⟨batch, none, []⟩ }
  | .apply =>
    match state.poll with
    | some ⟨row :: rest, _, since⟩ =>
      some { state with
        applied := state.applied ++ [row]
        poll := some ⟨rest, some row.sequence, since⟩ }
    | _ => none
  | .save =>
    match state.poll with
    | some ⟨_, some sequence, _⟩ =>
      some { state with
        checkpoint := RunnerPorts.savedCheckpoint state.checkpoint sequence
        poll := none }
    | _ => none

def globalFeed (scope : FeedScope) : Transition.Machine FeedState FeedAction where
  start state := state = .empty
  step state action := state.step scope action

section Runner

variable {E Id ProjectionError : Type}

/-- The part of the state that the calls of a runner see. -/
structure RunnerWorld (E Id : Type) where
  committed : List StoredEventRow
  checkpoint : Option Nat
  applied : List (EventEnvelope E Id)

def FeedState.world (decode : StoredEventRow → EventEnvelope E Id) (state : FeedState) :
    RunnerWorld E Id :=
  ⟨state.committed, state.checkpoint, state.applied.map decode⟩

/-- The stores of a runner on the database, for a projection that rejects some events. -/
def feedPorts (scope : FeedScope) (name aggregateType : String)
    (decode : StoredEventRow → EventEnvelope E Id)
    (accepts : EventEnvelope E Id → Except ProjectionError Unit) :
    RunnerPorts (RunnerWorld E Id) E Id ProjectionError EventStoreError EventStoreError where
  name := name
  aggregateType := aggregateType
  apply event world :=
    match accepts event with
    | .ok () => (.ok (), { world with applied := world.applied ++ [event] })
    | .error error => (.error error, world)
  flush world := (.ok (), world)
  loadCheckpoint _ world := (.ok world.checkpoint, world)
  saveCheckpoint _ sequence world :=
    (.ok (), { world with
      checkpoint := RunnerPorts.savedCheckpoint world.checkpoint sequence })
  loadGlobalAfterLimited checkpoint limit world :=
    (.ok ((loadGlobalAfterLimited scope world.committed checkpoint limit).map decode), world)

variable {scope : FeedScope} {name aggregateType : String}
  {decode : StoredEventRow → EventEnvelope E Id}
  {accepts : EventEnvelope E Id → Except ProjectionError Unit} {event : EventEnvelope E Id}

theorem feedPorts_apply_ok {world : RunnerWorld E Id} (verdict : accepts event = .ok ()) :
    (feedPorts scope name aggregateType decode accepts).apply event world =
      (.ok (), { world with applied := world.applied ++ [event] }) := by
  simp only [feedPorts, verdict]

theorem feedPorts_apply_error {world : RunnerWorld E Id} {error : ProjectionError}
    (verdict : accepts event = .error error) :
    (feedPorts scope name aggregateType decode accepts).apply event world =
      (.error error, world) := by
  simp only [feedPorts, verdict]

variable (scope name aggregateType decode accepts)

/-- The rows of a page before the first whose event is rejected. -/
def acceptedRows (rows : List StoredEventRow) : List StoredEventRow :=
  rows.takeWhile (fun row => (accepts (decode row)).toBool)

/-- The apply loop is one apply step for each row up to the event that is rejected. -/
theorem applyProjectionEvents_run
    (sequenced : ∀ row, (decode row).sequence = some row.sequence)
    {rows since : List StoredEventRow} {last : Option Nat} {state : FeedState}
    (running : state.poll = some ⟨rows, last, since⟩) (applied : Nat) :
    ∃ final rest,
      let accepted := acceptedRows decode accepts rows
      let out := (feedPorts scope name aggregateType decode accepts).applyProjectionEvents
        (rows.map decode) applied last (state.world decode)
      (globalFeed scope).run state (List.replicate accepted.length .apply) = some final ∧
        out.2 = final.world decode ∧ final.poll = some ⟨rest, out.1.2.1, since⟩ ∧
        final.applied = state.applied ++ accepted ∧
        out.1.2.1 = ((accepted.getLast?).map (·.sequence)).or last := by
  induction rows generalizing last state applied with
  | nil => exact ⟨state, [], rfl, rfl, running, (List.append_nil _).symm, rfl⟩
  | cons row later ih =>
    rw [List.map_cons, RunnerPorts.applyProjectionEvents, acceptedRows]
    cases verdict : accepts (decode row) with
    | error error =>
      rw [feedPorts_apply_error verdict,
        List.takeWhile_cons_of_neg (by simp [verdict, Except.toBool])]
      exact ⟨state, row :: later, rfl, rfl, running, (List.append_nil _).symm, rfl⟩
    | ok done =>
      rw [feedPorts_apply_ok verdict, sequenced, Option.some_or,
        List.takeWhile_cons_of_pos (by simp [verdict, Except.toBool])]
      let next : FeedState := { state with
        applied := state.applied ++ [row]
        poll := some ⟨later, some row.sequence, since⟩ }
      have stepped : (globalFeed scope).step state .apply = some next := by
        show state.step scope .apply = some next
        rw [FeedState.step, running]
      have world : next.world decode =
          { state.world decode with
            applied := (state.world decode).applied ++ [decode row] } := by
        simp only [FeedState.world, next, List.map_append, List.map_cons, List.map_nil]
      obtain ⟨final, rest, ran, reached, polled, taken, lastTaken⟩ := ih
        (rfl : next.poll = some ⟨later, some row.sequence, since⟩) (applied + 1)
      rw [world] at reached polled lastTaken
      refine ⟨final, rest, ?_, reached, polled, ?_, ?_⟩
      · rw [List.length_cons, List.replicate_succ, Transition.Machine.run_cons, stepped]
        exact ran
      · rw [taken]
        exact List.append_assoc _ _ _
      · rw [lastTaken, List.getLast?_cons, acceptedRows]
        cases (later.takeWhile (fun row => (accepts (decode row)).toBool)).getLast? with
        | none | some _ => rfl

/-- A batch of the runner as the steps it takes: a read, an apply for each accepted event, and a
save where there is one. -/
def batchActions (limit : Nat) (accepted : List StoredEventRow) : List FeedAction :=
  .read limit :: (List.replicate accepted.length .apply ++
    if accepted.isEmpty then [] else [.save])

/-- A batch that nobody interrupts is the read of a page, an apply step for each event up to the
first that is rejected, and a save where an event was applied. -/
theorem runBatch_run (sequenced : ∀ row, (decode row).sequence = some row.sequence)
    (keying : CheckpointKeying) (config : ProjectionBatchConfig) (state : FeedState) :
    let accepted := acceptedRows decode accepts
      (loadGlobalAfterLimited scope state.committed state.checkpoint config.batchSize)
    ∃ final,
      (globalFeed scope).run state (batchActions config.batchSize accepted) = some final ∧
        ((feedPorts scope name aggregateType decode accepts).runBatch keying config
          (state.world decode)).2 = final.world decode ∧
        final.applied = state.applied ++ accepted := by
  intro accepted
  let read : FeedState := { state with
    poll := some ⟨loadGlobalAfterLimited scope state.committed state.checkpoint config.batchSize,
      none, []⟩ }
  have stepped : (globalFeed scope).step state (.read config.batchSize) = some read := rfl
  obtain ⟨final, rest, ran, reached, polled, taken, last⟩ :=
    applyProjectionEvents_run scope name aggregateType decode accepts sequenced
      (rfl : read.poll = some ⟨loadGlobalAfterLimited scope state.committed state.checkpoint
        config.batchSize, none, []⟩) 0
  have readThenApply : (globalFeed scope).run state
      (.read config.batchSize :: List.replicate accepted.length .apply) = some final := by
    rw [Transition.Machine.run_cons, stepped]
    exact ran
  let ports := feedPorts scope name aggregateType decode accepts
  let out := ports.applyProjectionEvents ((loadGlobalAfterLimited scope state.committed
    state.checkpoint config.batchSize).map decode) 0 none (state.world decode)
  have whole : (ports.runBatch keying config (state.world decode)).2 =
      (ports.persistProjectionCheckpoint (checkpointKey keying name aggregateType) out.1.2.1
        out.2).2 :=
    RunnerPorts.runPersistedProjectionBatch_world _ _ _
  have reached : out.2 = final.world decode := reached
  have polled : final.poll = some ⟨rest, out.1.2.1, []⟩ := polled
  have last : out.1.2.1 = accepted.getLast?.map (·.sequence) := by
    rw [← Option.or_none (o := accepted.getLast?.map (·.sequence))]
    exact last
  rw [whole, reached, last, batchActions]
  cases some_row : accepted.getLast? with
  | none =>
    have nothing := List.getLast?_eq_none_iff.mp some_row
    rw [nothing] at readThenApply ⊢
    exact ⟨final, readThenApply, rfl, by rw [← nothing]; exact taken⟩
  | some row =>
    rw [last, some_row] at polled
    let after : FeedState := { final with
      checkpoint := RunnerPorts.savedCheckpoint final.checkpoint row.sequence
      poll := none }
    have saved : (globalFeed scope).step final .save = some after := by
      show final.step scope .save = _
      rw [FeedState.step, polled]
      rfl
    have applied : accepted.isEmpty = false := by
      cases found : accepted with
      | nil =>
        rw [found] at some_row
        cases some_row
      | cons _ _ => rfl
    refine ⟨after, ?_, rfl, taken⟩
    rw [applied, ← List.cons_append, if_neg Bool.false_ne_true, Transition.Machine.run_snoc,
      readThenApply]
    exact saved

/-- The rows of two accounts; the projection has taken the first one in already. -/
def accountsFeed : FeedState where
  committed := [accountRowAt "e2" "a" 2 4, accountRowAt "e1" "a" 1 1, accountRowAt "f1" "b" 1 2,
    accountRowAt "e3" "a" 3 7, accountRowAt "f2" "b" 2 9]
  drawn := [1, 2, 4, 7, 9]
  transactions := []
  checkpoint := some 1
  applied := [accountRowAt "e1" "a" 1 1]
  poll := none

theorem runBatch_run_rejecting :
    let decode (row : StoredEventRow) : EventEnvelope Unit String := ⟨row.eventId, row.aggregateId,
      row.aggregateType, row.revision, some row.sequence, row.eventType, row.eventVersion, (),
      .empty, 0⟩
    let accepts (event : EventEnvelope Unit String) : Except String Unit :=
      if event.eventId = "e3" then .error "rejected" else .ok ()
    ∃ final, (globalFeed .raw).run accountsFeed [.read 500, .apply, .apply, .save] = some final ∧
      ((feedPorts .raw "totals" "account" decode accepts).runBatch .projectionName .default
        (accountsFeed.world decode)).2 = final.world decode ∧
      final.applied.map (·.eventId) = ["e1", "f1", "e2"] ∧ final.checkpoint = some 4 := by
  intro decode accepts
  obtain ⟨final, ran, left, applied⟩ := runBatch_run .raw "totals" "account" decode accepts
    (fun _ => rfl) .projectionName .default accountsFeed
  have page : acceptedRows decode accepts (loadGlobalAfterLimited .raw accountsFeed.committed
      accountsFeed.checkpoint ProjectionBatchConfig.default.batchSize) =
      [accountRowAt "f1" "b" 1 2, accountRowAt "e2" "a" 2 4] := by decide +kernel
  rw [page] at ran applied
  refine ⟨final, ran, left, by rw [applied]; rfl, ?_⟩
  cases ran
  rfl

end Runner

end DddCqrsEs
