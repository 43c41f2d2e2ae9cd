import DddCqrsEs.Idempotency
import DddCqrsEs.MemoryRefinement

/- Callers of `execute_idempotent` that share one key and the in-memory idempotency store,
over any event store. Each store call is one step, and between two steps any time may
pass. -/
namespace DddCqrsEs

open Transition

variable {A : Aggregate}

/-- An event store as the repository sees it. `Input` is what the environment decides
about one call: faults, fresh identifiers, the time. -/
structure EventStoreApi (A : Aggregate) where
  State : Type
  Input : Type
  load : State → Input → A.Id → Except EventStoreError (EventStream A)
  append : State → Input → A.Id → ExpectedRevision → List (NewEvent A.Event) →
    Except EventStoreError (EventStream A) × State
  /-- A failed append leaves the store as it was. -/
  append_error : ∀ state input aggregateId expectedRevision events error next,
    append state input aggregateId expectedRevision events = (.error error, next) → next = state

abbrev IdempotentError (A : Aggregate) :=
  IdempotentRepositoryError A.Error EventStoreError InMemoryIdempotencyError

def releaseMaxAttempts : Nat := 3

def saveMaxAttempts : Nat := 3

/-- Where one call of `execute_idempotent` stands. -/
inductive IdempotentPhase (A : Aggregate) where
  /-- In the loop, about to load the key. -/
  | waiting
  /-- In the loop, about to reserve the key it found free or expired. -/
  | reserving
  /-- The key is reserved; the aggregate is not loaded yet. -/
  | executing
  | appending (expectedRevision : ExpectedRevision) (events : List (NewEvent A.Event))
  | saving (committed : EventStream A) (attempt : Nat)
  | releasing (error : IdempotentError A) (attempt : Nat)
  | returned (outcome : Except (IdempotentError A) (EventStream A))

namespace IdempotentPhase

/-- What the calls should have committed while a caller is between its granted reservation
and the end of its save or release. -/
def committedSoFar : IdempotentPhase A → Option (List (EventStream A))
  | .executing | .appending _ _ | .releasing _ _ => some []
  | .saving committed _ => some [committed]
  | .waiting | .reserving | .returned _ => none

/-- Between a granted reservation and the end of its save or release. -/
def holds (phase : IdempotentPhase A) : Bool := phase.committedSoFar.isSome

def wait (key : String) (call : IdempotentCall A) (read : WaitClock) : IdempotentPhase A :=
  match pendingWaitDelay call.waitConfig read.elapsed read.waited key with
  | .ok _ => .waiting
  | .error error => .returned (.error error)

def afterLoad (key : String) (call : IdempotentCall A) (read : WaitClock) :
    Option (IdempotencyState (EventStream A)) → IdempotentPhase A
  | some (.complete committed) => .returned (.ok committed)
  | some (.pending lease) =>
    if lease.isExpired (nowMs read.later) then .reserving else wait key call read
  | none => .reserving

def afterReserve (key : String) (call : IdempotentCall A) (read : WaitClock) :
    Bool → IdempotentPhase A
  | true => .executing
  | false => wait key call read

/-- Replay the stream and evaluate the command on it. -/
def afterEventLoad (call : IdempotentCall A) :
    Except EventStoreError (EventStream A) → IdempotentPhase A
  | .error error => .releasing (.fromStoreError error) 1
  | .ok stream =>
    let loaded := replay stream
    match handleCommandAsNewEvents loaded.state call.command call.metadata with
    | .error error => .releasing (.domain error) 1
    | .ok events => .appending (.exact loaded.revision) events

def afterAppend : Except EventStoreError (EventStream A) → IdempotentPhase A
  | .error error => .releasing (.fromStoreError error) 1
  | .ok committed => .saving committed 1

end IdempotentPhase

/-- Both stores, the callers, and the batches their appends committed, oldest first. -/
structure IdempotentRun (A : Aggregate) (api : EventStoreApi A) where
  events : api.State
  keys : InMemoryIdempotencyStore (EventStream A)
  phase : Nat → IdempotentPhase A
  executed : List (EventStream A)

/-- One store call of one caller, or an append of another client. `fault` is the failure of
an idempotency store call, if it fails. -/
inductive IdempotentAction (A : Aggregate) (api : EventStoreApi A) where
  | load (caller : Nat) (fault : Option InMemoryIdempotencyError) (read : WaitClock)
  | reserve (caller : Nat) (fault : Option InMemoryIdempotencyError) (read : WaitClock)
  | loadEvents (caller : Nat) (input : api.Input)
  | append (caller : Nat) (input : api.Input)
  | save (caller : Nat) (fault : Option InMemoryIdempotencyError) (read : WaitClock)
  | release (caller : Nat) (fault : Option InMemoryIdempotencyError)
  | foreignAppend (input : api.Input) (aggregateId : A.Id) (expectedRevision : ExpectedRevision)
      (events : List (NewEvent A.Event))

namespace IdempotentRun

variable {api : EventStoreApi A}

def become (s : IdempotentRun A api) (caller : Nat) (phase : IdempotentPhase A) :
    IdempotentRun A api :=
  { s with phase := Function.update s.phase caller phase }

@[simp] theorem become_self (s : IdempotentRun A api) (caller : Nat) (phase : IdempotentPhase A) :
    (s.become caller phase).phase caller = phase := Function.update_self ..

theorem become_other (s : IdempotentRun A api) {caller other : Nat} (phase : IdempotentPhase A)
    (different : other ≠ caller) : (s.become caller phase).phase other = s.phase other :=
  Function.update_of_ne different ..

/-- The result of an append of one of the callers, recorded if it succeeded. -/
def record (s : IdempotentRun A api) (caller : Nat) :
    Except EventStoreError (EventStream A) × api.State → IdempotentRun A api
  | (.ok committed, events) =>
    { s with events := events, executed := s.executed ++ [committed] }.become caller
      (.afterAppend (.ok committed))
  | (.error error, events) => { s with events := events }.become caller (.afterAppend (.error error))

variable (key : String) (calls : Nat → IdempotentCall A)

def step (s : IdempotentRun A api) : IdempotentAction A api → Option (IdempotentRun A api)
  | .load caller fault read =>
    match s.phase caller, fault with
    | .waiting, none => some (s.become caller (.afterLoad key (calls caller) read (s.keys.load key)))
    | .waiting, some error => some (s.become caller (.returned (.error (.idempotency error))))
    | _, _ => none
  | .reserve caller fault read =>
    match s.phase caller, fault with
    | .reserving, none =>
      let (reserved, keys) := s.keys.reserve (nowMs read.clock) key
      some ({ s with keys := keys }.become caller (.afterReserve key (calls caller) read reserved))
    | .reserving, some error => some (s.become caller (.returned (.error (.idempotency error))))
    | _, _ => none
  | .loadEvents caller input =>
    match s.phase caller with
    | .executing =>
      let loaded := api.load s.events input (calls caller).aggregateId
      some (s.become caller (.afterEventLoad (calls caller) loaded))
    | _ => none
  | .append caller input =>
    match s.phase caller with
    | .appending expectedRevision events =>
      some (s.record caller
        (api.append s.events input (calls caller).aggregateId expectedRevision events))
    | _ => none
  | .save caller fault read =>
    match s.phase caller, fault with
    | .saving committed _, none =>
      some ({ s with keys := s.keys.save (nowMs read.clock) key committed }.become caller
        (.returned (.ok committed)))
    | .saving committed attempt, some error =>
      if attempt = saveMaxAttempts then
        some (s.become caller (.returned (.error (.idempotency error))))
      else some (s.become caller (.saving committed (attempt + 1)))
    | _, _ => none
  | .release caller fault =>
    match s.phase caller, fault with
    | .releasing error _, none =>
      some ({ s with keys := s.keys.remove key }.become caller (.returned (.error error)))
    | .releasing error attempt, some _ =>
      if attempt = releaseMaxAttempts then
        some (s.become caller
          (.returned (.error (.idempotencyReleaseFailed key releaseMaxAttempts))))
      else some (s.become caller (.releasing error (attempt + 1)))
    | _, _ => none
  | .foreignAppend input aggregateId expectedRevision events =>
    some { s with events := (api.append s.events input aggregateId expectedRevision events).2 }

end IdempotentRun

/-- Any number of calls with one key, which is absent or left pending by an earlier process. -/
def executeIdempotent (api : EventStoreApi A) (key : String) (calls : Nat → IdempotentCall A) :
    Machine (IdempotentRun A api) (IdempotentAction A api) where
  start s :=
    (∀ committed, s.keys.load key ≠ some (.complete committed)) ∧
      (∀ caller, s.phase caller = .waiting) ∧ s.executed = []
  step s action := s.step key calls action

/-- The in-memory event store; its loads cannot fail in a reachable state. -/
def memoryApi (A : Aggregate) [DecidableEq A.Id] : EventStoreApi A where
  State := MemoryState A
  Input := Nat → Stamp
  load state _ aggregateId := (state.load aggregateId).elim (.error .poisoned) .ok
  append state stamp aggregateId expectedRevision events :=
    state.append aggregateId expectedRevision (stampEvents stamp events)
  append_error := by
    intro state stamp aggregateId expectedRevision events error next ran
    have rejected := MemoryState.append_rejected (congrArg Prod.fst ran)
    rw [ran] at rejected
    exact rejected

end DddCqrsEs
