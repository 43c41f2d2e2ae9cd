import DddCqrsEs.Evolution
import DddCqrsEs.NoLostUpdate

/- What the commands of an aggregate keep, every stream keeps that any number of clients write
through the repository. -/
namespace DddCqrsEs

open Transition Evolution

variable {A : Aggregate}

/-- The state that replayed events lead to. -/
theorem replay_state (events : EventStream A) :
    (replay events).state = (events.map (·.payload)).foldl A.apply A.new := by
  have folded (loaded : LoadedAggregate A) : (applyCommittedEvents loaded events).state =
      (events.map (·.payload)).foldl A.apply loaded.state := by
    induction events generalizing loaded with
    | nil => rfl
    | cons event rest ih => exact ih _
  exact folded _

/-- A batch that was decided holds the payloads of the handled command. -/
theorem ExecutedBatch.DecidedOn.payloads {batch : ExecutedBatch A} {preceding : EventStream A}
    (decided : batch.DecidedOn preceding) :
    A.handle (replay preceding).state batch.call.command =
      .ok (batch.committed.map (·.payload)) := by
  have handled := decided.handled
  rw [handleCommandAsNewEvents] at handled
  cases decision : A.handle (replay preceding).state batch.call.command with
  | error error =>
    rw [decision] at handled
    cases handled
  | ok events =>
    rw [decision] at handled
    have made : (newEventsWithMetadata events batch.call.metadata).map NewEvent.payload =
        (batch.committed.map EventEnvelope.newEvent).map NewEvent.payload :=
      congrArg _ (Except.ok.inj handled)
    rw [newEventsWithMetadata, List.map_map, List.map_map] at made
    have kept : events.map (NewEvent.payload ∘ fun event =>
        NewEvent.ofDomainEvent event batch.call.metadata) = events := List.map_id events
    rw [kept] at made
    rw [made]
    rfl

/-- The rule of an aggregate: what its commands keep. -/
structure Aggregate.Keeps (A : Aggregate) (sound : A.State → Prop)
    (allowed : A.State → A.Event → Prop) : Prop where
  new : sound A.new
  handle : ∀ state command events, sound state → A.handle state command = .ok events →
    Sound A.apply sound allowed state events

variable {sound : A.State → Prop} {allowed : A.State → A.Event → Prop}

theorem Aggregate.Keeps.decidedInTurn (keeps : A.Keeps sound allowed) {preceding : EventStream A}
    {batches : List (ExecutedBatch A)} (decided : DecidedInTurn preceding batches)
    (holds : Sound A.apply sound allowed A.new (preceding.map (·.payload))) :
    Sound A.apply sound allowed A.new
      ((preceding ++ batches.flatMap ExecutedBatch.committed).map (·.payload)) := by
  induction batches generalizing preceding with
  | nil => simpa using holds
  | cons batch rest ih =>
    obtain ⟨first, later⟩ := decided
    have handled := keeps.handle _ _ _ (replay_state preceding ▸ Sound.last holds) first.payloads
    rw [replay_state] at handled
    have extended : Sound A.apply sound allowed A.new
        ((preceding ++ batch.committed).map (·.payload)) := by
      rw [List.map_append]
      exact sound_append.mpr ⟨holds, handled⟩
    simpa [List.append_assoc] using ih later extended

/-- In every run of repository clients each stream is sound from its first event to its last,
and it is the executed batches. -/
theorem Aggregate.Keeps.streams [DecidableEq A.Id] (keeps : A.Keeps sound allowed)
    {run : RepositoryRun A} (reached : (repositoryClients A).Reachable run) (aggregateId : A.Id) :
    ∃ stream, run.store.load aggregateId = some stream ∧
      stream = (run.executedOn aggregateId).flatMap ExecutedBatch.committed ∧
      Sound A.apply sound allowed A.new (stream.map (·.payload)) ∧
      (∀ event ∈ stream, event.aggregateId = aggregateId) ∧
      ∀ earlier, earlier <+: stream → (replay earlier).revision = earlier.length := by
  obtain ⟨log, held⟩ := RepositoryRun.reachable_invariant reached
  refine ⟨log.stream aggregateId, held.store.load_stream aggregateId, held.stream aggregateId,
    ?_, ?_, fun _ isPrefix => replay_prefix_revision isPrefix⟩
  · rw [held.stream]
    exact keeps.decidedInTurn (held.decided aggregateId) keeps.new
  · intro event member
    simpa using List.of_mem_filter member

end DddCqrsEs
