import DddCqrsEs.Repository

/- Any number of clients that execute commands on one in-memory store, their load and append
steps in any order: every batch is decided on exactly the events before it. -/
namespace DddCqrsEs

open Transition

variable {A : Aggregate}

structure ExecuteCall (A : Aggregate) where
  aggregateId : A.Id
  command : A.Command
  metadata : Metadata
  /-- Whether the call is `execute_returning_state`. -/
  returnsState : Bool

/-- A call between its load and its append. -/
structure PendingExecute (A : Aggregate) where
  call : ExecuteCall A
  loaded : LoadedAggregate A
  events : List (NewEvent A.Event)

/-- A call whose append succeeded, with what its client was given. -/
structure ExecutedBatch (A : Aggregate) where
  call : ExecuteCall A
  committed : EventStream A
  updated : Option (LoadedAggregate A)

/-- The store, the calls in flight by client, and the successful calls, oldest first. -/
structure RepositoryRun (A : Aggregate) where
  store : MemoryState A
  pending : Nat → Option (PendingExecute A)
  executed : List (ExecutedBatch A)

inductive RepositoryAction (A : Aggregate) where
  | load (client : Nat) (call : ExecuteCall A)
  | append (client : Nat) (stamp : Nat → Stamp)

def PendingExecute.executed (pending : PendingExecute A) (committed : EventStream A) :
    ExecutedBatch A where
  call := pending.call
  committed := committed
  updated :=
    if pending.call.returnsState then some (applyCommittedEvents pending.loaded committed) else none

namespace RepositoryRun

variable [DecidableEq A.Id]

/-- The load step reads the stream and decides; a rejected command ends the call there. -/
def load (run : RepositoryRun A) (client : Nat) (call : ExecuteCall A) :
    Option (RepositoryRun A) := do
  let loaded ← Repository.load run.store call.aggregateId
  match handleCommandAsNewEvents loaded.state call.command call.metadata with
  | .error _ => return run
  | .ok events =>
    return { run with pending := Function.update run.pending client (some ⟨call, loaded, events⟩) }

def append (run : RepositoryRun A) (client : Nat) (pending : PendingExecute A)
    (stamp : Nat → Stamp) : RepositoryRun A :=
  let idle := Function.update run.pending client none
  match Repository.saveNewEvents run.store pending.call.aggregateId pending.loaded
      (stampEvents stamp pending.events) with
  | (.error _, store) => { run with store, pending := idle }
  | (.ok committed, store) =>
    ⟨store, idle, run.executed ++ [pending.executed committed]⟩

def step (run : RepositoryRun A) : RepositoryAction A → Option (RepositoryRun A)
  | .load client call =>
    match run.pending client with
    | some _ => none
    | none => run.load client call
  | .append client stamp => (run.pending client).map (fun pending => run.append client pending stamp)

/-- The successful calls on one aggregate, oldest first. -/
def executedOn (run : RepositoryRun A) (aggregateId : A.Id) : List (ExecutedBatch A) :=
  run.executed.filter (fun batch => batch.call.aggregateId = aggregateId)

end RepositoryRun

def repositoryClients (A : Aggregate) [DecidableEq A.Id] :
    Machine (RepositoryRun A) (RepositoryAction A) where
  start run := run = ⟨.new, fun _ => none, []⟩
  step := RepositoryRun.step

/-- The batch is the call's command handled on the replay of the preceding events, and a
returned state is the replay up to and including the batch. -/
structure ExecutedBatch.DecidedOn (batch : ExecutedBatch A) (preceding : EventStream A) : Prop where
  handled : handleCommandAsNewEvents (replay preceding).state batch.call.command
    batch.call.metadata = .ok (batch.committed.map EventEnvelope.newEvent)
  state : ∀ updated, batch.updated = some updated →
    updated.state = (replay (preceding ++ batch.committed)).state
  revision : ∀ updated, batch.updated = some updated →
    updated.revision = (((preceding ++ batch.committed).getLast?).map (·.revision)).getD
      initialRevision

/-- Batches decided one after the other. -/
def DecidedInTurn : EventStream A → List (ExecutedBatch A) → Prop
  | _, [] => True
  | preceding, batch :: rest =>
    batch.DecidedOn preceding ∧ DecidedInTurn (preceding ++ batch.committed) rest

variable {preceding : EventStream A} {batch : ExecutedBatch A}
  {before after : List (ExecutedBatch A)}

theorem decidedInTurn_snoc {batches : List (ExecutedBatch A)}
    (earlier : DecidedInTurn preceding batches)
    (last : batch.DecidedOn (preceding ++ batches.flatMap ExecutedBatch.committed)) :
    DecidedInTurn preceding (batches ++ [batch]) := by
  induction batches generalizing preceding with
  | nil => exact ⟨by simpa using last, trivial⟩
  | cons first rest ih =>
    refine ⟨earlier.1, ih earlier.2 ?_⟩
    simpa [List.append_assoc] using last

theorem DecidedInTurn.at (decided : DecidedInTurn preceding (before ++ batch :: after)) :
    batch.DecidedOn (preceding ++ before.flatMap ExecutedBatch.committed) := by
  induction before generalizing preceding with
  | nil => simpa using decided.1
  | cons first rest ih => simpa [List.append_assoc] using ih decided.2

theorem PendingExecute.executed_decidedOn (pending : PendingExecute A) {committed : EventStream A}
    (loaded : pending.loaded = replay preceding)
    (decision : handleCommandAsNewEvents (replay preceding).state pending.call.command
      pending.call.metadata = .ok (committed.map EventEnvelope.newEvent)) :
    (pending.executed committed).DecidedOn preceding := by
  have rebuilt : ∀ updated, (pending.executed committed).updated = some updated →
      updated = replay (preceding ++ committed) := by
    intro updated returned
    rw [PendingExecute.executed] at returned
    dsimp only at returned
    split at returned
    · cases returned
      rw [loaded, replay_append]
    · cases returned
  refine ⟨decision, ?_, ?_⟩
  · intro updated returned
    rw [rebuilt updated returned]
    rfl
  · intro updated returned
    rw [rebuilt updated returned, replay_revision]
    rfl

namespace RepositoryRun

variable [DecidableEq A.Id]

/-- A call in flight was decided on the replay of a prefix of its stream; the stream is the
executed batches, each decided on those before it. -/
structure Invariant (run : RepositoryRun A) (log : EventLog A) : Prop where
  store : run.store.Represents log
  pending : ∀ client pending, run.pending client = some pending →
    ∃ earlier, earlier <+: log.stream pending.call.aggregateId ∧
      pending.loaded = replay earlier ∧
      handleCommandAsNewEvents (replay earlier).state pending.call.command
        pending.call.metadata = .ok pending.events
  stream : ∀ aggregateId,
    log.stream aggregateId = (run.executedOn aggregateId).flatMap ExecutedBatch.committed
  decided : ∀ aggregateId, DecidedInTurn [] (run.executedOn aggregateId)

variable {run : RepositoryRun A} {log : EventLog A} {client : Nat} {pending : PendingExecute A}
  {stamp : Nat → Stamp} {after : MemoryState A}

theorem load_invariant {next : RepositoryRun A} {call : ExecuteCall A} (held : run.Invariant log)
    (stepped : run.load client call = some next) : next.Invariant log := by
  rw [RepositoryRun.load, Repository.load, held.store.load_stream] at stepped
  cases decision : handleCommandAsNewEvents (replay (log.stream call.aggregateId)).state
      call.command call.metadata with
  | error error =>
    have same : some run = some next := by simpa [decision] using stepped
    cases same
    exact held
  | ok events =>
    have same : some (RepositoryRun.mk run.store (Function.update run.pending client
        (some ⟨call, replay (log.stream call.aggregateId), events⟩)) run.executed) = some next := by
      simpa [decision] using stepped
    cases same
    refine ⟨held.store, ?_, held.stream, held.decided⟩
    intro other pending waiting
    rcases of_update_eq_some waiting with ⟨_, written⟩ | ⟨_, before⟩
    · cases written
      exact ⟨_, List.prefix_rfl, rfl, decision⟩
    · exact held.pending other pending before

/-- A finished call leaves the calls of the other clients as they were, on streams that can
only have grown. -/
theorem Invariant.finish {extended : EventLog A} (held : run.Invariant log)
    (grown : ∀ aggregateId, log.stream aggregateId <+: extended.stream aggregateId) (client : Nat) :
    ∀ other pending, Function.update run.pending client none other = some pending →
      ∃ earlier, earlier <+: extended.stream pending.call.aggregateId ∧
        pending.loaded = replay earlier ∧
        handleCommandAsNewEvents (replay earlier).state pending.call.command
          pending.call.metadata = .ok pending.events := by
  intro other pending waiting
  rcases of_update_eq_some waiting with ⟨_, written⟩ | ⟨_, before⟩
  · cases written
  · obtain ⟨earlier, isPrefix, facts⟩ := held.pending other pending before
    exact ⟨earlier, isPrefix.trans (grown _), facts⟩

theorem executedOn_snoc (run : RepositoryRun A) (store : MemoryState A)
    (pending : Nat → Option (PendingExecute A)) (batch : ExecutedBatch A) (aggregateId : A.Id) :
    executedOn ⟨store, pending, run.executed ++ [batch]⟩ aggregateId =
      run.executedOn aggregateId ++ if batch.call.aggregateId = aggregateId then [batch] else [] := by
  rw [executedOn, List.filter_append]
  by_cases same : batch.call.aggregateId = aggregateId <;> simp [executedOn, same]

theorem append_of_committed (client : Nat) {committed : EventStream A}
    (appended : run.store.append pending.call.aggregateId (.exact pending.loaded.revision)
      (stampEvents stamp pending.events) = (.ok committed, after)) :
    run.append client pending stamp =
      ⟨after, Function.update run.pending client none, run.executed ++ [pending.executed committed]⟩ := by
  rw [RepositoryRun.append, Repository.saveNewEvents, appended]
  rfl

theorem append_of_rejected (client : Nat) {error : EventStoreError}
    (appended : run.store.append pending.call.aggregateId (.exact pending.loaded.revision)
      (stampEvents stamp pending.events) = (.error error, after)) :
    run.append client pending stamp =
      ⟨run.store, Function.update run.pending client none, run.executed⟩ := by
  have unchanged := MemoryState.append_rejected (congrArg Prod.fst appended)
  rw [appended] at unchanged
  rw [RepositoryRun.append, Repository.saveNewEvents, appended, ← unchanged]
  rfl

/-- A call whose append succeeds was decided on the whole stream: the revision it expected is the
length of what it loaded. -/
theorem Invariant.whole (held : run.Invariant log) (waiting : run.pending client = some pending)
    (admitted : (ExpectedRevision.exact pending.loaded.revision).Admits
      (log.revision pending.call.aggregateId)) :
    pending.loaded = replay (log.stream pending.call.aggregateId) ∧
      handleCommandAsNewEvents (replay (log.stream pending.call.aggregateId)).state
        pending.call.command pending.call.metadata = .ok pending.events := by
  obtain ⟨earlier, isPrefix, loaded, decision⟩ := held.pending client pending waiting
  have revision : pending.loaded.revision = earlier.length := by
    rw [loaded]
    exact replay_prefix_revision isPrefix
  have whole : earlier = log.stream pending.call.aggregateId := by
    apply isPrefix.eq_of_length
    have exactly : pending.loaded.revision = log.revision pending.call.aggregateId := admitted
    rw [← revision, exactly, EventLog.stream_length]
  rw [whole] at loaded decision
  exact ⟨loaded, decision⟩

theorem append_invariant (held : run.Invariant log) (waiting : run.pending client = some pending)
    (stamp : Nat → Stamp) : ∃ extended, (run.append client pending stamp).Invariant extended := by
  cases appended : run.store.append pending.call.aggregateId (.exact pending.loaded.revision)
      (stampEvents stamp pending.events) with
  | mk result after =>
    cases result with
    | error error =>
      refine ⟨log, ?_⟩
      rw [append_of_rejected client appended]
      exact ⟨held.store, held.finish (fun _ => List.prefix_rfl) client, held.stream,
        held.decided⟩
    | ok committed =>
      obtain ⟨admitted, carried, extended, represents, streams⟩ :=
        held.store.append_stream pending.call.aggregateId appended
      obtain ⟨loaded, decision⟩ := held.whole waiting admitted
      rw [stampEvents_events] at carried
      refine ⟨extended, ?_⟩
      rw [append_of_committed client appended]
      refine ⟨represents, held.finish ?_ client, ?_, ?_⟩
      · intro aggregateId
        rw [streams]
        exact List.prefix_append _ _
      · intro aggregateId
        have named : (pending.executed committed).call.aggregateId = pending.call.aggregateId := rfl
        rw [executedOn_snoc, List.flatMap_append, streams, held.stream, named]
        congr 1
        by_cases same : aggregateId = pending.call.aggregateId
        · rw [if_pos same, if_pos same.symm]
          simp [PendingExecute.executed]
        · rw [if_neg same, if_neg (Ne.symm same)]
          rfl
      · intro aggregateId
        rw [executedOn_snoc]
        by_cases same : (pending.executed committed).call.aggregateId = aggregateId
        · rw [if_pos same]
          apply decidedInTurn_snoc (held.decided aggregateId)
          rw [List.nil_append, ← held.stream, ← same]
          exact pending.executed_decidedOn loaded (carried ▸ decision)
        · rw [if_neg same, List.append_nil]
          exact held.decided aggregateId

theorem reachable_invariant (reached : (repositoryClients A).Reachable run) :
    ∃ log, run.Invariant log := by
  apply Machine.invariant (I := fun run => ∃ log, run.Invariant log) _ _ reached
  · rintro run rfl
    refine ⟨[], MemoryState.new_represents, ?_, fun _ => rfl, fun _ => trivial⟩
    intro client pending waiting
    cases waiting
  · rintro run action next _ ⟨log, held⟩ stepped
    cases action with
    | load client call =>
      change (match run.pending client with
        | some _ => none
        | none => run.load client call) = some next at stepped
      split at stepped
      · cases stepped
      · exact ⟨log, load_invariant held stepped⟩
    | append client stamp =>
      obtain ⟨pending, waiting, rfl⟩ := Option.map_eq_some_iff.mp stepped
      exact append_invariant held waiting stamp

end RepositoryRun

section Serial

variable [DecidableEq A.Id]

/-- A call that nothing interrupts, with what its client is given; none where it fails. -/
def executeCall (store : MemoryState A) (call : ExecuteCall A) (stamp : Nat → Stamp) :
    Option (ExecutedBatch A × MemoryState A) :=
  if call.returnsState then
    match Repository.executeReturningState store call.aggregateId call.command call.metadata
      stamp with
    | some (.ok (updated, committed), after) => some (⟨call, committed, some updated⟩, after)
    | _ => none
  else
    match Repository.execute store call.aggregateId call.command call.metadata stamp with
    | some (.ok committed, after) => some (⟨call, committed, none⟩, after)
    | _ => none

/-- The calls one after the other; none where one of them fails. -/
def executeInTurn : MemoryState A → List (ExecuteCall A × (Nat → Stamp)) →
    Option (List (ExecutedBatch A) × MemoryState A)
  | store, [] => some ([], store)
  | store, (call, stamp) :: rest => do
      let (batch, after) ← executeCall store call stamp
      let (batches, final) ← executeInTurn after rest
      return (batch :: batches, final)

variable {call : ExecuteCall A} {stamp : Nat → Stamp} {run : RepositoryRun A}

theorem executeInTurn_snoc {store between final : MemoryState A}
    {calls : List (ExecuteCall A × (Nat → Stamp))} {batches : List (ExecutedBatch A)}
    {batch : ExecutedBatch A} (earlier : executeInTurn store calls = some (batches, between))
    (last : executeCall between call stamp = some (batch, final)) :
    executeInTurn store (calls ++ [(call, stamp)]) = some (batches ++ [batch], final) := by
  induction calls generalizing store batches with
  | nil =>
    cases earlier
    simp [executeInTurn, last]
  | cons first rest ih =>
    obtain ⟨firstCall, firstStamp⟩ := first
    rw [executeInTurn] at earlier
    obtain ⟨⟨head, after⟩, ran, earlier⟩ := Option.bind_eq_some_iff.mp earlier
    obtain ⟨⟨later, reached⟩, followed, same⟩ := Option.bind_eq_some_iff.mp earlier
    cases same
    rw [List.cons_append, executeInTurn, ran]
    show (executeInTurn after (rest ++ [(call, stamp)])).bind _ = _
    rw [ih followed]
    rfl

/-- The append of a call that is in flight, where it succeeds, is the whole call at that moment. -/
theorem executeCall_of_appended {log : EventLog A} {client : Nat} {pending : PendingExecute A}
    {committed : EventStream A} {after : MemoryState A} (held : run.Invariant log)
    (waiting : run.pending client = some pending)
    (appended : run.store.append pending.call.aggregateId (.exact pending.loaded.revision)
      (stampEvents stamp pending.events) = (.ok committed, after)) :
    executeCall run.store pending.call stamp = some (pending.executed committed, after) := by
  obtain ⟨admitted, _, _⟩ := held.store.append_stream pending.call.aggregateId appended
  obtain ⟨loaded, decision⟩ := held.whole waiting admitted
  have read : Repository.load run.store pending.call.aggregateId = some pending.loaded := by
    rw [Repository.load, held.store.load_stream, loaded]
    rfl
  rw [← loaded] at decision
  have saved : Repository.saveNewEvents run.store pending.call.aggregateId pending.loaded
      (stampEvents stamp pending.events) = (.ok committed, after) := by
    rw [Repository.saveNewEvents, appended]
    rfl
  rw [executeCall, PendingExecute.executed]
  by_cases returns : pending.call.returnsState = true
  · rw [if_pos returns, if_pos returns, Repository.executeReturningState, read]
    simp [decision, saved, Except.map]
  · rw [if_neg returns, if_neg returns, Repository.execute, read]
    simp [decision, saved]

/-- The stamps an append step is given. -/
def RepositoryAction.stamps : RepositoryAction A → Option (Nat → Stamp)
  | .load _ _ => none
  | .append _ stamp => some stamp

/-- The successful calls, executed one after the other in the order of their appends and with stamps
that the appends were given, come to the same store and the same batches and states. -/
def RepositoryRun.SameInTurn (run : RepositoryRun A) (actions : List (RepositoryAction A)) : Prop :=
  ∃ stamps : List (Nat → Stamp), stamps.Sublist (actions.filterMap RepositoryAction.stamps) ∧
    stamps.length = run.executed.length ∧
    executeInTurn .new ((run.executed.map ExecutedBatch.call).zip stamps) =
      some (run.executed, run.store)

/-- A load step changes neither the store nor the successful calls. -/
theorem step_load_kept {next : RepositoryRun A} {client : Nat}
    (stepped : run.step (.load client call) = some next) :
    next.store = run.store ∧ next.executed = run.executed := by
  rw [RepositoryRun.step] at stepped
  split at stepped
  · cases stepped
  · rw [RepositoryRun.load] at stepped
    obtain ⟨loaded, _, decided⟩ := Option.bind_eq_some_iff.mp stepped
    split at decided
    · cases decided
      exact ⟨rfl, rfl⟩
    · cases decided
      exact ⟨rfl, rfl⟩

/-- However the steps of the clients interleave, the calls that succeed are serial: executed one
after the other, uninterrupted, they succeed too and come to the same. -/
theorem repositoryClients_serializable {actions : List (RepositoryAction A)}
    (ran : (repositoryClients A).run ⟨.new, fun _ => none, []⟩ actions = some run) :
    run.SameInTurn actions := by
  induction actions using List.reverseRecOn generalizing run with
  | nil =>
    cases ran
    exact ⟨[], List.Sublist.refl _, rfl, rfl⟩
  | append_singleton actions action ih =>
    rw [Machine.run_snoc] at ran
    obtain ⟨before, reached, stepped⟩ := Option.bind_eq_some_iff.mp ran
    obtain ⟨stamps, listed, counted, serial⟩ := ih reached
    have given : stamps.Sublist ((actions ++ [action]).filterMap RepositoryAction.stamps) := by
      rw [List.filterMap_append]
      exact listed.trans (List.sublist_append_left _ _)
    cases action with
    | load client call =>
      obtain ⟨sameStore, sameCalls⟩ := step_load_kept stepped
      exact ⟨stamps, given, by rw [sameCalls, counted], by rw [sameCalls, sameStore, serial]⟩
    | append client stamp =>
      obtain ⟨pending, waiting, rfl⟩ := Option.map_eq_some_iff.mp stepped
      cases appended : before.store.append pending.call.aggregateId
          (.exact pending.loaded.revision) (stampEvents stamp pending.events) with
      | mk result after =>
        cases result with
        | error error =>
          rw [RepositoryRun.append_of_rejected client appended]
          exact ⟨stamps, given, counted, serial⟩
        | ok committed =>
          obtain ⟨log, held⟩ := RepositoryRun.reachable_invariant
            ((Machine.Reachable.start rfl).run reached)
          rw [RepositoryRun.append_of_committed client appended]
          refine ⟨stamps ++ [stamp], ?_, ?_, ?_⟩
          · rw [List.filterMap_append]
            exact listed.append (List.Sublist.refl _)
          · rw [List.length_append, List.length_append, counted]
            rfl
          · rw [List.map_append, List.zip_append (by rw [List.length_map, counted])]
            exact executeInTurn_snoc serial (executeCall_of_appended held waiting appended)

/-- Two accounts; client 2 loads account "a" before client 1 opens it and is rejected, client 0
opens account "b" in between. -/
def openBoth : List (RepositoryAction .account) :=
  [.load 0 ⟨"b", (), .empty, false⟩, .load 1 ⟨"a", (), .empty, true⟩, .load 2 ⟨"a", (), .empty, true⟩,
    .append 1 (fun _ => ⟨"e1", 0⟩), .append 2 (fun _ => ⟨"e2", 0⟩), .append 0 (fun _ => ⟨"e3", 0⟩)]

theorem repositoryClients_serializable_both :
    ∃ run, (repositoryClients .account).run ⟨.new, fun _ => none, []⟩ openBoth = some run ∧
      run.executed.map (·.call.aggregateId) = ["a", "b"] ∧ run.SameInTurn openBoth := by
  have some_run : ((repositoryClients .account).run ⟨.new, fun _ => none, []⟩ openBoth).isSome :=
    rfl
  obtain ⟨run, ran⟩ := Option.isSome_iff_exists.mp some_run
  have both : ((repositoryClients .account).run ⟨.new, fun _ => none, []⟩ openBoth).map
      (fun run => run.executed.map (·.call.aggregateId)) = some ["a", "b"] := rfl
  rw [ran] at both
  exact ⟨run, ran, Option.some.inj both, repositoryClients_serializable ran⟩

end Serial

/-- Every batch was decided on the replay of the batches before it. -/
theorem RepositoryRun.Invariant.decidedOn [DecidableEq A.Id] {run : RepositoryRun A}
    {log : EventLog A} (held : run.Invariant log) {aggregateId : A.Id}
    (split : run.executedOn aggregateId = before ++ batch :: after) :
    batch.DecidedOn (before.flatMap ExecutedBatch.committed) := by
  have decided := held.decided aggregateId
  rw [split] at decided
  exact decided.at

/-- No lost update: in every run each stream is the executed batches of its aggregate, every
batch is decided on the replay of exactly the events before it, and a returned state is the
replay up to the batch's end. -/
theorem repositoryClients_noLostUpdate [DecidableEq A.Id] (run : RepositoryRun A)
    (reached : (repositoryClients A).Reachable run) (aggregateId : A.Id) :
    ∃ stream, run.store.load aggregateId = some stream ∧
      stream = (run.executedOn aggregateId).flatMap ExecutedBatch.committed ∧
      ∀ before batch after, run.executedOn aggregateId = before ++ batch :: after →
        batch.DecidedOn (before.flatMap ExecutedBatch.committed) := by
  obtain ⟨log, held⟩ := RepositoryRun.reachable_invariant reached
  refine ⟨_, held.store.load_stream aggregateId, held.stream aggregateId, ?_⟩
  intro before batch after split
  exact held.decidedOn split

/-- Two clients load an account that is not open; the second to append is rejected. -/
def openTwice : List (RepositoryAction .account) :=
  [.load 0 ⟨"a", (), .empty, true⟩, .load 1 ⟨"a", (), .empty, true⟩, .append 1 (fun _ => ⟨"e1", 0⟩),
    .append 0 (fun _ => ⟨"e2", 0⟩)]

theorem repositoryClients_noLostUpdate_account :
    ∃ run, (repositoryClients .account).run ⟨.new, fun _ => none, []⟩ openTwice = some run ∧
      run.executed.length = 1 ∧
      ∃ stream, run.store.load "a" = some stream ∧
        stream = (run.executedOn "a").flatMap ExecutedBatch.committed ∧
        ∀ before batch after, run.executedOn "a" = before ++ batch :: after →
          batch.DecidedOn (before.flatMap ExecutedBatch.committed) := by
  have some_run : ((repositoryClients .account).run ⟨.new, fun _ => none, []⟩ openTwice).isSome :=
    rfl
  obtain ⟨run, ran⟩ := Option.isSome_iff_exists.mp some_run
  have one : ((repositoryClients .account).run ⟨.new, fun _ => none, []⟩ openTwice).map
      (fun run => run.executed.length) = some 1 := rfl
  rw [ran] at one
  exact ⟨run, ran, Option.some.inj one,
    repositoryClients_noLostUpdate run ((Machine.Reachable.start rfl).run ran) "a"⟩

end DddCqrsEs
