import DddCqrsEs.MemoryRefinement

/- The repository over the in-memory store: load and replay, decide, append at the loaded
revision. -/
namespace DddCqrsEs

inductive RepositoryError (DomainError StoreError : Type*) where
  | domain (error : DomainError)
  | concurrency (error : ConcurrencyError)
  | store (error : StoreError)
  deriving DecidableEq, Repr

def EventStoreError.intoRepositoryError {DomainError : Type*} :
    EventStoreError → RepositoryError DomainError EventStoreError
  | .concurrency error => .concurrency error
  | error => .store error

variable {A : Aggregate}

abbrev RepositoryResult (A : Aggregate) (T : Type) :=
  Except (RepositoryError A.Error EventStoreError) T

namespace Repository

/-- Load and replay one stream; `none` is the store's index panic. -/
def load (store : MemoryState A) (aggregateId : A.Id) : Option (LoadedAggregate A) :=
  (store.load aggregateId).map replay

variable [DecidableEq A.Id]

/-- Append at the revision of a previously loaded aggregate. -/
def saveNewEvents (store : MemoryState A) (aggregateId : A.Id) (loaded : LoadedAggregate A)
    (events : List (NewEvent A.Event × Stamp)) :
    RepositoryResult A (EventStream A) × MemoryState A :=
  let appended := store.append aggregateId (.exact loaded.revision) events
  (appended.1.mapError EventStoreError.intoRepositoryError, appended.2)

/-- `execute`, given the stamps its events receive. -/
def execute (store : MemoryState A) (aggregateId : A.Id) (command : A.Command)
    (metadata : Metadata) (stamp : Nat → Stamp) :
    Option (RepositoryResult A (EventStream A) × MemoryState A) := do
  let loaded ← load store aggregateId
  match handleCommandAsNewEvents loaded.state command metadata with
  | .error error => return (.error (.domain error), store)
  | .ok events => return saveNewEvents store aggregateId loaded (stampEvents stamp events)

def executeReturningState (store : MemoryState A) (aggregateId : A.Id) (command : A.Command)
    (metadata : Metadata) (stamp : Nat → Stamp) :
    Option (RepositoryResult A (LoadedAggregate A × EventStream A) × MemoryState A) := do
  let loaded ← load store aggregateId
  match handleCommandAsNewEvents loaded.state command metadata with
  | .error error => return (.error (.domain error), store)
  | .ok events =>
    let saved := saveNewEvents store aggregateId loaded (stampEvents stamp events)
    return (saved.1.map (fun committed => (applyCommittedEvents loaded committed, committed)),
      saved.2)

end Repository

/-- The event a committed envelope carries. -/
def EventEnvelope.newEvent (envelope : EventEnvelope A.Event A.Id) : NewEvent A.Event :=
  ⟨envelope.payload, envelope.eventType, envelope.eventVersion, envelope.metadata⟩

@[simp] theorem stampEvents_events (stamp : Nat → Stamp) (events : List (NewEvent A.Event)) :
    (stampEvents stamp events).map Prod.fst = events := by
  rw [stampEvents, List.map_map]
  exact List.zipIdx_map_fst 0 events

variable [DecidableEq A.Id]

/-- The events of one stream, oldest first. -/
def EventLog.stream (log : EventLog A) (aggregateId : A.Id) : EventStream A :=
  log.envelopes.filter (fun event => event.aggregateId = aggregateId)

theorem EventLog.stream_revisions (log : EventLog A) (aggregateId : A.Id) :
    (log.stream aggregateId).map (·.revision) =
      List.range' 1 (log.stream aggregateId).length := by
  have revisions := log.envelopes_revisions aggregateId
  have counted := congrArg List.length revisions
  rw [List.length_map, List.length_range'] at counted
  rw [stream, revisions, counted]

theorem EventLog.stream_length (log : EventLog A) (aggregateId : A.Id) :
    (log.stream aggregateId).length = log.revision aggregateId := by
  have counted := congrArg List.length (log.envelopes_revisions aggregateId)
  rwa [List.length_map, List.length_range'] at counted

/-- A replayed prefix of a stream reports its own length as the revision. -/
theorem replay_prefix_revision {log : EventLog A} {aggregateId : A.Id} {earlier : EventStream A}
    (isPrefix : earlier <+: log.stream aggregateId) : (replay earlier).revision = earlier.length := by
  have revisions : earlier.map (·.revision) = List.range' 1 earlier.length := by
    obtain ⟨later, split⟩ := isPrefix
    have numbered := log.stream_revisions aggregateId
    rw [← split, List.map_append, List.length_append, ← List.range'_append_1] at numbered
    exact List.append_inj_left numbered (by rw [List.length_map, List.length_range'])
  rw [replay_revision, ← List.getLast?_map, revisions, List.getLast?_range']
  split
  · simp_all [initialRevision]
  · simp

open KeyedLog

namespace MemoryState

variable {state : MemoryState A} {log : EventLog A}

/-- The store keeps, for each id, its stream. -/
theorem Represents.load_stream (represents : Represents state log) (aggregateId : A.Id) :
    state.load aggregateId = some (log.stream aggregateId) := by
  rw [represents.load, represents.global]
  rfl

/-- An accepted append is the new events as envelopes, after the stream they were decided
on, and touches no other stream. -/
theorem Represents.append_stream (represents : Represents state log) (aggregateId : A.Id)
    {expectedRevision : ExpectedRevision} {events : List (NewEvent A.Event × Stamp)}
    {committed : EventStream A} {after : MemoryState A}
    (appended : state.append aggregateId expectedRevision events = (.ok committed, after)) :
    expectedRevision.Admits (log.revision aggregateId) ∧
      committed.map EventEnvelope.newEvent = events.map Prod.fst ∧
      ∃ extended, Represents after extended ∧ ∀ other, extended.stream other =
        log.stream other ++ if other = aggregateId then committed else [] := by
  cases checked : checkExpectedRevision expectedRevision (state.actualRevision aggregateId) with
  | error error =>
    rw [append_of_error checked] at appended
    cases appended
  | ok admitted =>
    have admits := (checkExpectedRevision_ok_iff _ _).mp checked
    rw [represents.actualRevision] at admits
    obtain ⟨reached, accepted, extended⟩ := append_accepted events represents checked
    rw [accepted] at appended
    cases appended
    refine ⟨admits, ?_, _, extended, ?_⟩
    · have entries := numberAfter_entries (log.map Prod.fst)
        (events.map (fun event => (aggregateId, event)))
      rw [List.map_map] at entries
      have carried := congrArg (List.map Prod.fst) entries
      rw [List.map_map] at carried ⊢
      rw [List.map_map] at carried
      exact carried
    · intro other
      rw [EventLog.stream, EventLog.envelopes_append, List.filter_append]
      congr 1
      split
      · rename_i same
        rw [List.filter_eq_self]
        intro event member
        obtain ⟨slot, numbered, rfl⟩ := List.mem_map.mp member
        exact decide_eq_true ((key_of_mem_numberAfter numbered).trans same.symm)
      · rename_i differ
        rw [List.filter_eq_nil_iff]
        intro event member
        obtain ⟨slot, numbered, rfl⟩ := List.mem_map.mp member
        rw [decide_eq_true_iff]
        intro same
        exact differ (same.symm.trans (key_of_mem_numberAfter numbered))

end MemoryState

end DddCqrsEs
