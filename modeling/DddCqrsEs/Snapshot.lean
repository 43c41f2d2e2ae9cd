import DddCqrsEs.Repository

/- Snapshots: the in-memory snapshot store, and repository calls that resume from a
snapshot. They answer as the calls that replay the whole stream. -/
namespace DddCqrsEs

open Transition

variable {A : Aggregate}

structure Snapshot (A : Aggregate) where
  aggregateId : A.Id
  aggregateType : String
  revision : Nat
  state : A.State
  metadata : Metadata
  recordedAt : SystemTime

def Snapshot.new (aggregateId : A.Id) (revision : Nat) (state : A.State) (metadata : Metadata)
    (recordedAt : SystemTime) : Snapshot A :=
  ⟨aggregateId, A.aggregateType, revision, state, metadata, recordedAt⟩

inductive InMemorySnapshotError where
  | poisoned
  | staleRevision (offered current : Nat)
  deriving DecidableEq, Repr

structure InMemorySnapshotStore (A : Aggregate) where
  snapshots : A.Id → Option (Snapshot A)

namespace InMemorySnapshotStore

def new : InMemorySnapshotStore A := ⟨fun _ => none⟩

def loadSnapshot (store : InMemorySnapshotStore A) (aggregateId : A.Id) : Option (Snapshot A) :=
  store.snapshots aggregateId

variable [DecidableEq A.Id]

def put (store : InMemorySnapshotStore A) (snapshot : Snapshot A) : InMemorySnapshotStore A :=
  ⟨Function.update store.snapshots snapshot.aggregateId (some snapshot)⟩

/-- A snapshot older than the stored one is refused. -/
def saveSnapshot (store : InMemorySnapshotStore A) (snapshot : Snapshot A) :
    Except InMemorySnapshotError Unit × InMemorySnapshotStore A :=
  match store.snapshots snapshot.aggregateId with
  | none => (.ok (), store.put snapshot)
  | some current =>
    if snapshot.revision < current.revision then
      (.error (.staleRevision snapshot.revision current.revision), store)
    else (.ok (), store.put snapshot)

end InMemorySnapshotStore

inductive SnapshotRepositoryError (DomainError StoreError SnapshotError : Type*) where
  | domain (error : DomainError)
  | concurrency (error : ConcurrencyError)
  | store (error : StoreError)
  | snapshot (error : SnapshotError)
  deriving DecidableEq, Repr

/-- How a repository error reads among the snapshot-aware ones. -/
def SnapshotRepositoryError.ofRepositoryError {DomainError StoreError SnapshotError : Type*} :
    RepositoryError DomainError StoreError →
      SnapshotRepositoryError DomainError StoreError SnapshotError
  | .domain error => .domain error
  | .concurrency error => .concurrency error
  | .store error => .store error

def SnapshotRepositoryError.fromStoreError {DomainError SnapshotError : Type*}
    (error : EventStoreError) :
    SnapshotRepositoryError DomainError EventStoreError SnapshotError :=
  .ofRepositoryError error.intoRepositoryError

abbrev SnapshotRepositoryResult (A : Aggregate) (T : Type) :=
  Except (SnapshotRepositoryError A.Error EventStoreError InMemorySnapshotError) T

namespace Repository

/-- What is left of a load once its snapshot is read: the events after it, or all of them. -/
def resume (store : MemoryState A) (aggregateId : A.Id) :
    Option (Snapshot A) → Option (LoadedAggregate A)
  | none => (store.load aggregateId).map replay
  | some snapshot =>
    (store.loadAfterRevision aggregateId snapshot.revision).map
      (applyCommittedEvents ⟨snapshot.state, snapshot.revision⟩)

def loadWithSnapshot (store : MemoryState A) (aggregateId : A.Id)
    (snapshots : InMemorySnapshotStore A) : Option (LoadedAggregate A) :=
  resume store aggregateId (snapshots.loadSnapshot aggregateId)

variable [DecidableEq A.Id]

def executeWithSnapshot (store : MemoryState A) (aggregateId : A.Id) (command : A.Command)
    (metadata : Metadata) (snapshots : InMemorySnapshotStore A) (stamp : Nat → Stamp) :
    Option (SnapshotRepositoryResult A (EventStream A) × MemoryState A) := do
  let loaded ← loadWithSnapshot store aggregateId snapshots
  match handleCommandAsNewEvents loaded.state command metadata with
  | .error error => return (.error (.domain error), store)
  | .ok events =>
    let appended := store.append aggregateId (.exact loaded.revision) (stampEvents stamp events)
    return (appended.1.mapError .fromStoreError, appended.2)

/-- Resuming is the only difference: a call that resumes from the state a full load gives
answers as the call that loads in full. -/
theorem executeWithSnapshot_eq {store : MemoryState A} {aggregateId : A.Id}
    {snapshots : InMemorySnapshotStore A}
    (same : loadWithSnapshot store aggregateId snapshots = load store aggregateId)
    (command : A.Command) (metadata : Metadata) (stamp : Nat → Stamp) :
    executeWithSnapshot store aggregateId command metadata snapshots stamp =
      (execute store aggregateId command metadata stamp).map
        (fun outcome => (outcome.1.mapError .ofRepositoryError, outcome.2)) := by
  rw [executeWithSnapshot, execute, same]
  cases load store aggregateId with
  | none => rfl
  | some loaded =>
    cases decision : handleCommandAsNewEvents loaded.state command metadata with
    | error error =>
      simp [decision, Except.mapError, SnapshotRepositoryError.ofRepositoryError]
    | ok events =>
      cases appended : store.append aggregateId (.exact loaded.revision)
          (stampEvents stamp events) with
      | mk result after =>
        cases result <;>
          simp [decision, saveNewEvents, appended, Except.mapError,
            SnapshotRepositoryError.fromStoreError]

end Repository

/-- Both stores, the loads that have read a snapshot and not yet the events, and every
aggregate loaded so far, which its caller may keep as long as it likes. -/
structure SnapshotRun (A : Aggregate) where
  store : MemoryState A
  snapshots : InMemorySnapshotStore A
  resuming : Nat → Option (A.Id × Option (Snapshot A))
  loaded : List (A.Id × LoadedAggregate A)

inductive SnapshotAction (A : Aggregate) where
  | append (aggregateId : A.Id) (expectedRevision : ExpectedRevision)
      (events : List (NewEvent A.Event × Stamp))
  | load (aggregateId : A.Id)
  | readSnapshot (client : Nat) (aggregateId : A.Id)
  | resume (client : Nat)
  /-- Save an aggregate loaded before, at its loaded revision. -/
  | save (place : Nat) (metadata : Metadata) (recordedAt : SystemTime)

namespace SnapshotRun

variable [DecidableEq A.Id]

def step (run : SnapshotRun A) : SnapshotAction A → Option (SnapshotRun A)
  | .append aggregateId expectedRevision events =>
    some { run with store := (run.store.append aggregateId expectedRevision events).2 }
  | .load aggregateId => do
      let loaded ← Repository.load run.store aggregateId
      return { run with loaded := run.loaded ++ [(aggregateId, loaded)] }
  | .readSnapshot client aggregateId =>
    some { run with
      resuming := Function.update run.resuming client
        (some (aggregateId, run.snapshots.loadSnapshot aggregateId)) }
  | .resume client => do
      let reading ← run.resuming client
      let loaded ← Repository.resume run.store reading.1 reading.2
      return { run with
        resuming := Function.update run.resuming client none
        loaded := run.loaded ++ [(reading.1, loaded)] }
  | .save place metadata recordedAt => do
      let entry ← run.loaded[place]?
      let snapshot := Snapshot.new entry.1 entry.2.revision entry.2.state metadata recordedAt
      return { run with snapshots := (run.snapshots.saveSnapshot snapshot).2 }

end SnapshotRun

def snapshotRuns (A : Aggregate) [DecidableEq A.Id] :
    Machine (SnapshotRun A) (SnapshotAction A) where
  start run := run = ⟨.new, .new, fun _ => none, []⟩
  step := SnapshotRun.step

/-- Loaded when the stream was shorter, or just now. -/
def LoadedAggregate.From (loaded : LoadedAggregate A) (stream : EventStream A) : Prop :=
  ∃ earlier, earlier <+: stream ∧ loaded = replay earlier

theorem LoadedAggregate.From.mono {loaded : LoadedAggregate A} {stream extended : EventStream A}
    (from_stream : loaded.From stream) (grown : stream <+: extended) : loaded.From extended := by
  obtain ⟨earlier, isPrefix, same⟩ := from_stream
  exact ⟨earlier, isPrefix.trans grown, same⟩

def Snapshot.loaded (snapshot : Snapshot A) : LoadedAggregate A :=
  ⟨snapshot.state, snapshot.revision⟩

variable [DecidableEq A.Id] {log : EventLog A} {state : MemoryState A}

/-- The events above the length of a prefix are the rest of the stream. -/
theorem EventLog.stream_filter_after {aggregateId : A.Id} {earlier later : EventStream A}
    (split : earlier ++ later = log.stream aggregateId) :
    (log.stream aggregateId).filter (fun event => earlier.length < event.revision) = later := by
  have numbered := log.stream_revisions aggregateId
  rw [← split, List.map_append, List.length_append, ← List.range'_append_1] at numbered
  obtain ⟨before, after⟩ := List.append_inj numbered (by rw [List.length_map, List.length_range'])
  rw [← split, List.filter_append]
  have dropped : earlier.filter (fun event => earlier.length < event.revision) = [] := by
    rw [List.filter_eq_nil_iff]
    intro event member
    have inside := List.mem_map_of_mem (f := (·.revision)) member
    rw [before, List.mem_range'_1] at inside
    simp only [decide_eq_true_eq]
    omega
  have kept : later.filter (fun event => earlier.length < event.revision) = later := by
    rw [List.filter_eq_self]
    intro event member
    have inside := List.mem_map_of_mem (f := (·.revision)) member
    rw [after, List.mem_range'_1] at inside
    simp only [decide_eq_true_eq]
    omega
  rw [dropped, kept, List.nil_append]

theorem MemoryState.Represents.repositoryLoad (represents : state.Represents log)
    (aggregateId : A.Id) :
    Repository.load state aggregateId = some (replay (log.stream aggregateId)) := by
  rw [Repository.load, represents.load_stream]
  rfl

/-- Folding the rest of the stream over a snapshot is folding the whole stream. -/
theorem MemoryState.Represents.resume (represents : state.Represents log) {aggregateId : A.Id}
    {snapshot : Option (Snapshot A)}
    (taken : ∀ present, snapshot = some present → present.loaded.From (log.stream aggregateId)) :
    Repository.resume state aggregateId snapshot = some (replay (log.stream aggregateId)) := by
  cases snapshot with
  | none => exact represents.repositoryLoad aggregateId
  | some present =>
    obtain ⟨earlier, ⟨later, split⟩, loaded⟩ := taken present rfl
    have revision : present.revision = earlier.length := by
      rw [← replay_prefix_revision ⟨later, split⟩, ← loaded]
      rfl
    have tail := represents.loadAfterRevision aggregateId present.revision
    rw [represents.global, revision] at tail
    rw [Repository.resume, revision, tail]
    have rest := EventLog.stream_filter_after split
    rw [EventLog.stream] at rest
    rw [rest, Option.map_some, ← split, replay_append, ← loaded, Snapshot.loaded, revision]

namespace SnapshotRun

structure Invariant (run : SnapshotRun A) (log : EventLog A) : Prop where
  store : run.store.Represents log
  snapshots : ∀ aggregateId snapshot, run.snapshots.loadSnapshot aggregateId = some snapshot →
    snapshot.loaded.From (log.stream aggregateId)
  resuming : ∀ client aggregateId snapshot,
    run.resuming client = some (aggregateId, some snapshot) →
      snapshot.loaded.From (log.stream aggregateId)
  loaded : ∀ entry ∈ run.loaded, entry.2.From (log.stream entry.1)

variable {run : SnapshotRun A}

theorem Invariant.append (held : run.Invariant log) (aggregateId : A.Id)
    (expectedRevision : ExpectedRevision) (events : List (NewEvent A.Event × Stamp)) :
    ∃ extended, Invariant { run with
      store := (run.store.append aggregateId expectedRevision events).2 } extended := by
  cases appended : run.store.append aggregateId expectedRevision events with
  | mk result after =>
    cases result with
    | error error =>
      have unchanged := MemoryState.append_rejected (congrArg Prod.fst appended)
      rw [appended] at unchanged
      refine ⟨log, ?_, held.snapshots, held.resuming, held.loaded⟩
      rw [show after = run.store from unchanged]
      exact held.store
    | ok committed =>
      obtain ⟨_, _, extended, represents, streams⟩ := held.store.append_stream aggregateId appended
      have grown : ∀ other, log.stream other <+: extended.stream other := by
        intro other
        rw [streams]
        exact List.prefix_append _ _
      exact ⟨extended, represents,
        fun other snapshot stored => (held.snapshots other snapshot stored).mono (grown other),
        fun client other snapshot reading =>
          (held.resuming client other snapshot reading).mono (grown other),
        fun entry member => (held.loaded entry member).mono (grown entry.1)⟩

/-- A load of the whole stream joins the aggregates that may be saved. -/
theorem Invariant.loads (held : run.Invariant log) (aggregateId : A.Id) :
    ∀ entry ∈ run.loaded ++ [(aggregateId, replay (log.stream aggregateId))],
      entry.2.From (log.stream entry.1) := by
  intro entry member
  rcases List.mem_append.mp member with earlier | last
  · exact held.loaded entry earlier
  · rw [List.mem_singleton.mp last]
    exact ⟨_, List.prefix_rfl, rfl⟩

theorem Invariant.save (held : run.Invariant log) {entry : A.Id × LoadedAggregate A}
    (member : entry ∈ run.loaded) (metadata : Metadata) (recordedAt : SystemTime)
    (aggregateId : A.Id) (snapshot : Snapshot A)
    (stored : (run.snapshots.saveSnapshot (.new entry.1 entry.2.revision entry.2.state metadata
      recordedAt)).2.loadSnapshot aggregateId = some snapshot) :
    snapshot.loaded.From (log.stream aggregateId) := by
  have put : (run.snapshots.put (.new entry.1 entry.2.revision entry.2.state metadata
      recordedAt)).loadSnapshot aggregateId = some snapshot →
      snapshot.loaded.From (log.stream aggregateId) := by
    intro present
    rcases of_update_eq_some present with ⟨rfl, written⟩ | ⟨_, before⟩
    · cases written
      exact held.loaded entry member
    · exact held.snapshots aggregateId snapshot before
  rw [InMemorySnapshotStore.saveSnapshot] at stored
  split at stored
  · exact put stored
  · split at stored
    · exact held.snapshots aggregateId snapshot stored
    · exact put stored

theorem Invariant.step_invariant {next : SnapshotRun A} {action : SnapshotAction A}
    (held : run.Invariant log) (stepped : run.step action = some next) :
    ∃ extended, next.Invariant extended := by
  cases action with
  | append aggregateId expectedRevision events =>
    cases stepped
    exact held.append aggregateId expectedRevision events
  | load aggregateId =>
    obtain ⟨loaded, read, same⟩ := Option.bind_eq_some_iff.mp stepped
    rw [held.store.repositoryLoad] at read
    cases read
    cases same
    exact ⟨log, held.store, held.snapshots, held.resuming, held.loads aggregateId⟩
  | readSnapshot client aggregateId =>
    cases stepped
    refine ⟨log, held.store, held.snapshots, ?_, held.loaded⟩
    intro other otherId snapshot reading
    rcases of_update_eq_some reading with ⟨_, written⟩ | ⟨_, before⟩
    · obtain ⟨rfl, present⟩ := Prod.mk.inj (Option.some.inj written)
      exact held.snapshots aggregateId snapshot present
    · exact held.resuming other otherId snapshot before
  | resume client =>
    obtain ⟨reading, read, resumed⟩ := Option.bind_eq_some_iff.mp stepped
    obtain ⟨loaded, finished, same⟩ := Option.bind_eq_some_iff.mp resumed
    rw [held.store.resume (fun present taken => held.resuming client reading.1 present
      (read.trans (congrArg some (Prod.ext rfl taken))))] at finished
    cases finished
    cases same
    refine ⟨log, held.store, held.snapshots, ?_, held.loads reading.1⟩
    intro other otherId snapshot waiting
    rcases of_update_eq_some waiting with ⟨_, written⟩ | ⟨_, before⟩
    · cases written
    · exact held.resuming other otherId snapshot before
  | save place metadata recordedAt =>
    obtain ⟨entry, found, same⟩ := Option.bind_eq_some_iff.mp stepped
    cases same
    exact ⟨log, held.store, held.save (List.mem_of_getElem? found) metadata recordedAt,
      held.resuming, held.loaded⟩

theorem reachable_invariant (reached : (snapshotRuns A).Reachable run) :
    ∃ log, run.Invariant log := by
  apply Machine.invariant (I := fun run => ∃ log, run.Invariant log) _ _ reached
  · rintro run rfl
    refine ⟨[], MemoryState.new_represents, ?_, ?_, ?_⟩
    · intro aggregateId snapshot stored
      cases stored
    · intro client aggregateId snapshot reading
      cases reading
    · intro entry member
      cases member
  · rintro run action next _ ⟨log, held⟩ stepped
    exact held.step_invariant stepped

end SnapshotRun

/-- Snapshots never change behaviour: whatever has been appended and saved in whatever order,
a load from a snapshot read now or earlier is the full load, and a command executed on it
decides, commits and fails as on the full load. -/
theorem snapshots_transparent (run : SnapshotRun A) (reached : (snapshotRuns A).Reachable run)
    (aggregateId : A.Id) :
    ∃ loaded, Repository.load run.store aggregateId = some loaded ∧
      Repository.loadWithSnapshot run.store aggregateId run.snapshots = some loaded ∧
      (∀ client snapshot, run.resuming client = some (aggregateId, snapshot) →
        Repository.resume run.store aggregateId snapshot = some loaded) ∧
      ∀ command metadata stamp,
        Repository.executeWithSnapshot run.store aggregateId command metadata run.snapshots stamp =
          (Repository.execute run.store aggregateId command metadata stamp).map
            (fun outcome => (outcome.1.mapError .ofRepositoryError, outcome.2)) := by
  obtain ⟨log, held⟩ := SnapshotRun.reachable_invariant reached
  have full := held.store.repositoryLoad aggregateId
  have resumed : Repository.loadWithSnapshot run.store aggregateId run.snapshots =
      some (replay (log.stream aggregateId)) := held.store.resume (held.snapshots aggregateId)
  refine ⟨_, full, resumed, ?_, ?_⟩
  · intro client snapshot reading
    apply held.store.resume
    rintro present rfl
    exact held.resuming client aggregateId present reading
  · exact Repository.executeWithSnapshot_eq (resumed.trans full.symm)

/-- A ledger with two entries is saved as a snapshot. A client reads the snapshot, and a third
entry is posted before it reads the events. -/
def postBehindSnapshot : List (SnapshotAction .ledger) :=
  let posted (eventId : String) : NewEvent Aggregate.ledger.Event × Stamp :=
    (⟨(), "entry_posted", 1, .empty⟩, ⟨eventId, 0⟩)
  [.append "l" .noStream [posted "e1", posted "e2"], .load "l", .save 0 .empty 0,
    .readSnapshot 1 "l", .append "l" (.exact 2) [posted "e3"]]

/-- Both loads from the snapshot find the third entry, and the next command is decided on it. -/
theorem snapshots_transparent_behind :
    ∃ run, (snapshotRuns .ledger).run ⟨.new, .new, fun _ => none, []⟩ postBehindSnapshot =
        some run ∧
      (run.snapshots.loadSnapshot "l").map Snapshot.revision = some 2 ∧
      Repository.loadWithSnapshot run.store "l" run.snapshots = some ⟨(3 : Nat), 3⟩ ∧
      Repository.resume run.store "l" (run.snapshots.loadSnapshot "l") = some ⟨(3 : Nat), 3⟩ ∧
      Repository.executeWithSnapshot run.store "l" () .empty run.snapshots (fun _ => ⟨"e4", 0⟩) =
        (Repository.execute run.store "l" () .empty (fun _ => ⟨"e4", 0⟩)).map
          (fun outcome => (outcome.1.mapError .ofRepositoryError, outcome.2)) := by
  have ran : (snapshotRuns .ledger).run ⟨.new, .new, fun _ => none, []⟩ postBehindSnapshot =
      some _ := rfl
  obtain ⟨loaded, full, resumed, reading, executed⟩ :=
    snapshots_transparent _ ((Machine.Reachable.start rfl).run ran) "l"
  have three : some loaded = some ⟨(3 : Nat), 3⟩ := full.symm.trans rfl
  exact ⟨_, ran, rfl, resumed.trans three, (reading 1 _ rfl).trans three, executed () .empty _⟩

end DddCqrsEs
