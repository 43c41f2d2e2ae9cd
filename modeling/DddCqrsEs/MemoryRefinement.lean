import DddCqrsEs.MemoryStore

/- The in-memory store simulates the event log, and what the log says about
sequences, revisions and streams therefore holds of every reachable store. -/
namespace DddCqrsEs

open Transition KeyedLog

variable {A : Aggregate} [DecidableEq A.Id]

namespace EventLog

theorem envelopes_append (log batch : EventLog A) :
    envelopes (log ++ batch) =
      envelopes log ++ (numberAfter (log.map Prod.fst) batch).map envelope := by
  simp [envelopes, number_append]

@[simp] theorem envelopes_length (log : EventLog A) : log.envelopes.length = log.length := by
  simp [envelopes]

theorem envelopes_ids (log : EventLog A) :
    log.envelopes.map (·.aggregateId) = log.map Prod.fst := by
  rw [envelopes, List.map_map, number, ← numberAfter_keys [] log]
  rfl

theorem envelopes_sequences (log : EventLog A) :
    log.envelopes.map (·.sequence) = (List.range' 1 log.length).map some := by
  rw [envelopes, List.map_map, ← number_positions, List.map_map]
  rfl

theorem envelopes_revisions (log : EventLog A) (aggregateId : A.Id) :
    (log.envelopes.filter (fun event => event.aggregateId = aggregateId)).map (·.revision) =
      List.range' 1 (log.revision aggregateId) := by
  rw [revision, ← number_ranks, envelopes, List.filter_map, List.map_map]
  rfl

end EventLog

namespace MemoryState

/-- A store represents a log: its list is the numbered log, its counter is the next
position, and its index lists are the places of each key. -/
structure Represents (state : MemoryState A) (log : EventLog A) : Prop where
  global : state.global = log.envelopes
  counter : state.nextSequence = log.length + 1
  streams : ∀ aggregateId, (state.streams aggregateId).getD [] =
    state.global.findIdxs (fun event => event.aggregateId = aggregateId)

theorem new_represents : Represents (new : MemoryState A) [] :=
  ⟨rfl, rfl, fun _ => rfl⟩

theorem clear_represents (state : MemoryState A) : Represents state.clear [] :=
  ⟨rfl, rfl, fun _ => rfl⟩

variable {state : MemoryState A} {log : EventLog A} {error : EventStoreError}

theorem Represents.actualRevision (represents : Represents state log) (aggregateId : A.Id) :
    state.actualRevision aggregateId = log.revision aggregateId := by
  have places : ∀ indices : Option (List Nat),
      (indices.map List.length).getD 0 = (indices.getD []).length := by
    intro indices
    cases indices <;> rfl
  rw [MemoryState.actualRevision, places, represents.streams, List.length_findIdxs,
    EventLog.revision, ← EventLog.envelopes_ids, ← represents.global, List.count,
    List.countP_map]
  congr 1

/-- What the loop has built after a batch, given that its counters agree with the keys of
the log it extends. -/
theorem push_foldl (aggregateId : A.Id) (actualRevision : Nat) (before : List A.Id)
    (events : List (NewEvent A.Event × Stamp)) (loop : AppendLoop A)
    (counter : loop.state.nextSequence = before.length + 1)
    (stream : actualRevision + loop.streamEvents.length = before.count aggregateId) :
    let batch := (numberAfter before (events.map (fun event => (aggregateId, event)))).map
      EventLog.envelope
    events.foldl (AppendLoop.push aggregateId actualRevision) loop =
      { state :=
          { streams := loop.state.streams
            global := loop.state.global ++ batch
            nextSequence := loop.state.nextSequence + events.length }
        streamEvents := loop.streamEvents ++ batch
        newIndices := loop.newIndices ++ List.range' loop.state.global.length events.length } := by
  induction events generalizing before loop with
  | nil => simp
  | cons event rest ih =>
    rw [List.foldl_cons, ih (before ++ [aggregateId])]
    · simp [AppendLoop.push, EventLog.envelope, counter, stream, List.range'_succ,
        Nat.add_comm, Nat.add_left_comm]
    · simp [AppendLoop.push, counter]
    · simp [AppendLoop.push, ← stream, Nat.add_assoc]

/-- The places of a key after a batch of another key's or its own events. -/
theorem findIdxs_batch (events : EventStream A) (written aggregateId : A.Id)
    (batch : EventStream A) (keyed : ∀ event ∈ batch, event.aggregateId = written) :
    (events ++ batch).findIdxs (fun event => event.aggregateId = aggregateId) =
      events.findIdxs (fun event => event.aggregateId = aggregateId) ++
        if written = aggregateId then List.range' events.length batch.length else [] := by
  rw [List.findIdxs_append, Nat.zero_add]
  congr 1
  generalize events.length = start
  induction batch generalizing start with
  | nil => simp
  | cons event rest ih =>
    have own : event.aggregateId = written := keyed event List.mem_cons_self
    rw [List.findIdxs_cons, ih (fun later member => keyed later (List.mem_cons_of_mem _ member))]
    by_cases same : written = aggregateId
    · simp [own, same, List.range'_succ]
    · simp [own, same]

variable {aggregateId : A.Id} {expectedRevision : ExpectedRevision}
  {events : List (NewEvent A.Event × Stamp)}

theorem append_of_error
    (checked : checkExpectedRevision expectedRevision (state.actualRevision aggregateId) =
      .error error) : state.append aggregateId expectedRevision events = (.error error, state) := by
  simp only [append, checked]

variable (events) in
theorem append_of_ok
    (checked : checkExpectedRevision expectedRevision (state.actualRevision aggregateId) =
      .ok ()) :
    ∃ committed after,
      state.append aggregateId expectedRevision events = (.ok committed, after) := by
  simp only [append, checked]
  split
  · exact ⟨_, _, rfl⟩
  · exact ⟨_, _, rfl⟩

/-- A rejected append leaves the state as it was. -/
theorem append_rejected
    (rejected : (state.append aggregateId expectedRevision events).1 = .error error) :
    (state.append aggregateId expectedRevision events).2 = state := by
  cases checked : checkExpectedRevision expectedRevision (state.actualRevision aggregateId) with
  | error reason => rw [append_of_error checked]
  | ok admitted =>
    obtain ⟨committed, after, appended⟩ := append_of_ok events checked
    rw [appended] at rejected
    cases rejected

variable (events) in
/-- An accepted append returns the new envelopes, and the store represents the longer log.
The empty batch is the source's early return. -/
theorem append_accepted (represents : Represents state log)
    (checked : checkExpectedRevision expectedRevision (state.actualRevision aggregateId) = .ok ()) :
    let added := events.map (fun event => (aggregateId, event))
    let committed := (numberAfter (log.map Prod.fst) added).map EventLog.envelope
    ∃ after, state.append aggregateId expectedRevision events = (.ok committed, after) ∧
      Represents after (log ++ added) := by
  intro added committed
  cases empty : events.isEmpty with
  | true =>
    rw [List.isEmpty_iff] at empty
    subst empty
    refine ⟨state, ?_, ?_⟩
    · simp only [append, checked]
      rfl
    · simpa [added] using represents
  | false =>
    have counter : state.nextSequence = (log.map Prod.fst).length + 1 := by
      simpa using represents.counter
    have stream : state.actualRevision aggregateId + 0 =
        (log.map Prod.fst).count aggregateId := represents.actualRevision aggregateId
    refine ⟨⟨Function.update state.streams aggregateId
        (some ((state.streams aggregateId).getD [] ++
          List.range' state.global.length events.length)),
      state.global ++ committed, state.nextSequence + events.length⟩, ?_, ?_⟩
    · simp only [append, checked, empty, Bool.false_eq_true, ↓reduceIte]
      rw [push_foldl aggregateId _ (log.map Prod.fst) events ⟨state, [], []⟩ counter stream]
      simp only [List.nil_append, committed, added]
    · refine ⟨?_, ?_, ?_⟩
      · rw [EventLog.envelopes_append, represents.global]
      · simp [represents.counter, added, Nat.add_right_comm]
      · intro other
        have keyed : ∀ event ∈ committed, event.aggregateId = aggregateId := by
          intro event member
          obtain ⟨slot, numbered, rfl⟩ := List.mem_map.mp member
          exact key_of_mem_numberAfter numbered
        have length : committed.length = events.length := by simp [committed, added]
        rw [findIdxs_batch _ aggregateId other committed keyed, length, ← represents.streams]
        by_cases same : aggregateId = other
        · subst same
          simp
        · simp [Function.update_of_ne (Ne.symm same), same]

/-- One append on the store is one append on the log it represents. -/
theorem append_represents (represents : Represents state log) :
    Represents (state.append aggregateId expectedRevision events).2
      (log.execute (.append aggregateId expectedRevision events)) := by
  rw [EventLog.execute, ← represents.actualRevision]
  cases checked : checkExpectedRevision expectedRevision (state.actualRevision aggregateId) with
  | error reason =>
    rw [append_of_error checked, if_neg (checkExpectedRevision_error checked).1]
    exact represents
  | ok admitted =>
    obtain ⟨after, appended, extended⟩ := append_accepted events represents checked
    rw [appended, if_pos ((checkExpectedRevision_ok_iff _ _).mp checked)]
    exact extended

theorem simulates (A : Aggregate) [DecidableEq A.Id] :
    Machine.Simulates (memoryStore A) (eventLog A) Represents where
  start := by
    rintro _ rfl
    exact ⟨[], rfl, new_represents⟩
  step := by
    rintro state op _ log represents stepped
    cases stepped
    refine ⟨[op], log.execute op, rfl, ?_⟩
    cases op with
    | append aggregateId expectedRevision events =>
      exact append_represents represents
    | clear => exact clear_represents state

/-- Every reachable store represents a log. -/
theorem reachable_represents (reached : (memoryStore A).Reachable state) :
    ∃ log, Represents state log := by
  obtain ⟨log, _, represents⟩ := (simulates A).reachable reached
  exact ⟨log, represents⟩

/-- The list and counter part of the store's invariant, in its own fields. -/
structure Wf (state : MemoryState A) : Prop where
  sequences : state.global.map (·.sequence) = (List.range' 1 state.global.length).map some
  counter : state.nextSequence = state.global.length + 1
  /-- Every global index is in the list of exactly one stream, and the lists hold no other
  index and none twice. -/
  partition : ∀ index, index < state.global.length →
    ∃! aggregateId, index ∈ (state.streams aggregateId).getD []
  bounded : ∀ aggregateId, ∀ index ∈ (state.streams aggregateId).getD [],
    index < state.global.length
  nodup : ∀ aggregateId, ((state.streams aggregateId).getD []).Nodup
  /-- The `k`-th event of a stream carries revision `k` and the stream's id. -/
  stream : ∀ aggregateId place index, ((state.streams aggregateId).getD [])[place]? = some index →
    ∃ event, state.global[index]? = some event ∧ event.revision = place + 1 ∧
      event.aggregateId = aggregateId

theorem Represents.stream_nth (represents : Represents state log) (aggregateId : A.Id)
    (place index : Nat) (listed : ((state.streams aggregateId).getD [])[place]? = some index) :
    ∃ event, state.global[index]? = some event ∧ event.revision = place + 1 ∧
      event.aggregateId = aggregateId := by
  rw [represents.streams] at listed
  obtain ⟨upper, rfl⟩ := List.getElem?_eq_some_iff.mp listed
  have revisions := EventLog.envelopes_revisions log aggregateId
  rw [← represents.global] at revisions
  have filtered : place <
      (state.global.filter (fun event => event.aggregateId = aggregateId)).length := by
    rwa [List.length_findIdxs, List.countP_eq_length_filter] at upper
  have gathered := List.getElem_filter_eq_getElem_getElem_findIdxs filtered
  refine ⟨_, List.getElem?_eq_getElem (List.getElem_findIdxs_lt upper), ?_, ?_⟩
  · have numbered := congrArg (fun list => list[place]?) revisions
    simp only [List.getElem?_map, List.getElem?_eq_getElem filtered, Option.map_some] at numbered
    rw [gathered] at numbered
    obtain ⟨_, numbered⟩ := List.getElem?_eq_some_iff.mp numbered.symm
    rw [← numbered, List.getElem_range', Nat.one_mul, Nat.add_comm]
  · simpa using List.getElem_getElem_findIdxs upper

theorem Represents.wf {state : MemoryState A} {log : EventLog A}
    (represents : Represents state log) : Wf state where
  sequences := by
    rw [represents.global, EventLog.envelopes_sequences, EventLog.envelopes_length]
  counter := by
    rw [represents.counter, represents.global, EventLog.envelopes_length]
  partition := by
    intro index inside
    refine ⟨state.global[index].aggregateId, ?_, ?_⟩
    · dsimp only
      rw [represents.streams, List.mem_findIdxs_iff_pos_getElem inside]
      simp
    · intro other listed
      rw [represents.streams, List.mem_findIdxs_iff_pos_getElem inside] at listed
      simpa [eq_comm] using listed
  bounded := by
    intro aggregateId index listed
    rw [represents.streams] at listed
    simpa using List.lt_add_of_mem_findIdxs index listed
  nodup := by
    intro aggregateId
    rw [represents.streams]
    exact List.nodup_findIdxs
  stream := represents.stream_nth

theorem Represents.gather (represents : Represents state log) (aggregateId : A.Id) :
    state.gather ((state.streams aggregateId).getD []) =
      some (state.global.filter (fun event => event.aggregateId = aggregateId)) := by
  rw [represents.streams]
  exact gather_findIdxs _ _

/-- Loading never panics and gives the events of one stream in global order. -/
theorem Represents.load (represents : Represents state log) (aggregateId : A.Id) :
    state.load aggregateId =
      some (state.global.filter (fun event => event.aggregateId = aggregateId)) := by
  rw [← represents.gather aggregateId, MemoryState.load]
  cases state.streams aggregateId <;> rfl

theorem Represents.loadAfterRevision (represents : Represents state log) (aggregateId : A.Id)
    (revision : Nat) :
    state.loadAfterRevision aggregateId revision =
      some ((state.global.filter (fun event => event.aggregateId = aggregateId)).filter
        (fun event => revision < event.revision)) := by
  have gathered := represents.gather aggregateId
  rw [MemoryState.loadAfterRevision]
  cases listed : state.streams aggregateId with
  | none =>
    rw [listed] at gathered
    have none_kept := Option.some.inj gathered
    rw [← none_kept]
    rfl
  | some indices =>
    rw [listed] at gathered
    dsimp only
    rw [Option.getD_some] at gathered
    rw [gathered, Option.map_some]

/-- The store's invariant over every run of appends and clears: sequences, counter and
index lists agree, a rejected append changes nothing, and both loads return exactly the
stream's events (those above the revision) in revision order. -/
theorem memoryStore_invariant (state : MemoryState A)
    (reached : (memoryStore A).Reachable state) :
    Wf state ∧
      (∀ aggregateId expectedRevision events error,
        (state.append aggregateId expectedRevision events).1 = .error error →
          (state.append aggregateId expectedRevision events).2 = state) ∧
      (∀ aggregateId, ∃ events,
        state.load aggregateId = some events ∧
        events = state.global.filter (fun event => event.aggregateId = aggregateId) ∧
        events.map (·.revision) = List.range' 1 events.length ∧
        ∀ revision, state.loadAfterRevision aggregateId revision =
          some (events.filter (fun event => revision < event.revision))) := by
  obtain ⟨log, represents⟩ := reachable_represents reached
  refine ⟨represents.wf, fun _ _ _ _ => append_rejected, ?_⟩
  intro aggregateId
  refine ⟨_, represents.load aggregateId, rfl, ?_, represents.loadAfterRevision aggregateId⟩
  have revisions := EventLog.envelopes_revisions log aggregateId
  rw [← represents.global] at revisions
  rw [revisions]
  have counted := congrArg List.length revisions
  rw [List.length_map, List.length_range'] at counted
  rw [counted]

/-- Appends to two accounts; one that expects too low a revision is rejected. -/
theorem memoryStore_invariant_accounts :
    let opened (eventId : String) : NewEvent Aggregate.account.Event × Stamp :=
      (⟨(), "account_opened", 1, .empty⟩, ⟨eventId, 0⟩)
    let ops : List (MemoryOp .account) := [.append "a" .noStream [opened "e1"],
      .append "b" .any [opened "f1", opened "f2"], .append "a" (.exact 1) [opened "e2", opened "e3"]]
    ∃ state, (memoryStore .account).run .new ops = some state ∧ Wf state ∧
      state.append "b" (.exact 1) [opened "f3"] =
        (.error (.concurrency (.wrongExpectedRevision (.exact 1) 2)), state) ∧
      ∃ events, state.load "a" = some events ∧ events.map (·.revision) = [1, 2, 3] ∧
        events.map (·.sequence) = [some 1, some 4, some 5] ∧
        state.loadAfterRevision "a" 1 = some (events.filter (fun event => 1 < event.revision)) := by
  intro opened ops
  have ran : (memoryStore .account).run .new ops = some _ := rfl
  obtain ⟨wf, rejected, loads⟩ := memoryStore_invariant _ ((Machine.Reachable.start rfl).run ran)
  refine ⟨_, ran, wf, Prod.ext rfl (rejected "b" (.exact 1) [opened "f3"] _ rfl), ?_⟩
  obtain ⟨events, loaded, _, _, later⟩ := loads "a"
  refine ⟨events, loaded, ?_, ?_, later 1⟩
  · cases loaded
    rfl
  · cases loaded
    rfl

end MemoryState

end DddCqrsEs
