import DddCqrsEs.Aggregate
import DddCqrsEs.KeyedLog
import DddCqrsEs.Transition

/- The in-memory event store: one global list of envelopes, one list of indices into
it per stream, and a sequence counter, each updated on its own by `append`. -/
namespace DddCqrsEs

/-- The state behind the store's lock. -/
structure MemoryState (A : Aggregate) where
  /-- Per-stream indices into `global`, so each envelope is stored once. -/
  streams : A.Id → Option (List Nat)
  global : EventStream A
  nextSequence : Nat

variable {A : Aggregate}

namespace MemoryState

def new : MemoryState A := ⟨fun _ => none, [], 1⟩

def clear (_state : MemoryState A) : MemoryState A where
  streams := fun _ => none
  global := []
  nextSequence := 1

/-- The envelopes at some indices of the global list; `none` is an index panic. -/
def gather (state : MemoryState A) (indices : List Nat) : Option (EventStream A) :=
  indices.mapM (fun index => state.global[index]?)

def load (state : MemoryState A) (aggregateId : A.Id) : Option (EventStream A) :=
  match state.streams aggregateId with
  | none => some []
  | some indices => state.gather indices

def loadAfterRevision (state : MemoryState A) (aggregateId : A.Id) (revision : Nat) :
    Option (EventStream A) :=
  match state.streams aggregateId with
  | none => some []
  | some indices =>
    (state.gather indices).map
      (fun events => events.filter (fun event => revision < event.revision))

/-- The number of leading elements that satisfy the predicate. On a list partitioned by
it, that is what the binary search of `partition_point` returns. -/
def partitionPoint {α : Type} (items : List α) (below : α → Bool) : Nat :=
  (items.takeWhile below).length

/-- Index of the first global event with a sequence greater than `checkpoint`. -/
def firstIndexAfter (state : MemoryState A) (checkpoint : Option Nat) : Nat :=
  match checkpoint with
  | none => 0
  | some checkpoint =>
    partitionPoint state.global (fun event => event.sequence.any (· ≤ checkpoint))

def loadGlobalAfter (state : MemoryState A) (sequence : Option Nat) : EventStream A :=
  state.global.drop (state.firstIndexAfter sequence)

def loadGlobalAfterLimited (state : MemoryState A) (sequence : Option Nat) (limit : Nat) :
    EventStream A :=
  let start := state.firstIndexAfter sequence
  let finish := min state.global.length (start + limit)
  (state.global.take finish).drop start

/-- The locals of the loop over the new events. -/
structure AppendLoop (A : Aggregate) where
  state : MemoryState A
  streamEvents : EventStream A
  newIndices : List Nat

def AppendLoop.push (aggregateId : A.Id) (actualRevision : Nat) (loop : AppendLoop A)
    (event : NewEvent A.Event × Stamp) : AppendLoop A :=
  let sequence := loop.state.nextSequence
  let revision := actualRevision + loop.streamEvents.length + 1
  let envelope := EventEnvelope.commit aggregateId revision (some sequence) event.1 event.2
  { state :=
      { loop.state with
        global := loop.state.global ++ [envelope]
        nextSequence := sequence + 1 }
    streamEvents := loop.streamEvents ++ [envelope]
    newIndices := loop.newIndices ++ [loop.state.global.length] }

def actualRevision (state : MemoryState A) (aggregateId : A.Id) : Nat :=
  ((state.streams aggregateId).map List.length).getD 0

/-- Append a batch. The result is paired with the state the call leaves behind. -/
def append [DecidableEq A.Id] (state : MemoryState A) (aggregateId : A.Id)
    (expectedRevision : ExpectedRevision) (events : List (NewEvent A.Event × Stamp)) :
    Except EventStoreError (EventStream A) × MemoryState A :=
  let actualRevision := state.actualRevision aggregateId
  -- the source repeats this check as a match of its own
  match checkExpectedRevision expectedRevision actualRevision with
  | .error error => (.error error, state)
  | .ok () =>
    if events.isEmpty then
      (.ok [], state)
    else
      let loop := events.foldl (AppendLoop.push aggregateId actualRevision) ⟨state, [], []⟩
      let indices := (loop.state.streams aggregateId).getD [] ++ loop.newIndices
      (.ok loop.streamEvents,
        { loop.state with
          streams := Function.update loop.state.streams aggregateId (some indices) })

end MemoryState

/-- What a caller can do to the store. -/
inductive MemoryOp (A : Aggregate) where
  | append (aggregateId : A.Id) (expectedRevision : ExpectedRevision)
      (events : List (NewEvent A.Event × Stamp))
  | clear

def MemoryOp.execute [DecidableEq A.Id] (op : MemoryOp A) (state : MemoryState A) :
    MemoryState A :=
  match op with
  | .append aggregateId expectedRevision events =>
    (state.append aggregateId expectedRevision events).2
  | .clear => state.clear

/-- A store in use: it starts new and every call takes the lock once. -/
def memoryStore (A : Aggregate) [DecidableEq A.Id] :
    Transition.Machine (MemoryState A) (MemoryOp A) where
  start state := state = .new
  step state op := some (op.execute state)

/-- The committed new events, oldest first. -/
abbrev EventLog (A : Aggregate) := List (A.Id × (NewEvent A.Event × Stamp))

namespace EventLog

/-- The envelope of a numbered entry: its position is the sequence, its rank the revision. -/
def envelope (slot : KeyedLog.Slot A.Id (NewEvent A.Event × Stamp)) :
    EventEnvelope A.Event A.Id :=
  EventEnvelope.commit slot.key slot.rank (some slot.position) slot.entry.1 slot.entry.2

variable [DecidableEq A.Id]

def envelopes (log : EventLog A) : EventStream A := (KeyedLog.number log).map envelope

/-- The revision of a stream: how many of its events the log holds. -/
def revision (log : EventLog A) (aggregateId : A.Id) : Nat :=
  (log.map Prod.fst).count aggregateId

/-- One call on the log. -/
def execute (log : EventLog A) : MemoryOp A → EventLog A
  | .append aggregateId expectedRevision events =>
    if expectedRevision.Admits (log.revision aggregateId) then
      log ++ events.map (fun event => (aggregateId, event))
    else log
  | .clear => []

end EventLog

/-- The log as a machine: the store below has to simulate it. -/
def eventLog (A : Aggregate) [DecidableEq A.Id] :
    Transition.Machine (EventLog A) (MemoryOp A) where
  start log := log = []
  step log op := some (log.execute op)

end DddCqrsEs
