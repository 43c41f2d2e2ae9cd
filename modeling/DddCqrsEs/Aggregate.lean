import DddCqrsEs.Event

namespace DddCqrsEs

/-- An event-sourced aggregate with its domain event metadata. `handle` decides and
`apply` evolves; both are functions of the state alone. -/
structure Aggregate where
  Id : Type
  Command : Type
  Event : Type
  Error : Type
  State : Type
  aggregateType : String
  new : State
  apply : State → Event → State
  handle : State → Command → Except Error (List Event)
  eventType : Event → String
  eventVersion : Event → Nat

/-- The committed events of one aggregate type. -/
abbrev EventStream (A : Aggregate) := List (EventEnvelope A.Event A.Id)

variable {A : Aggregate}

/-- The envelope a store commits for one new event. -/
def EventEnvelope.commit (aggregateId : A.Id) (revision : Nat) (sequence : Option Nat)
    (event : NewEvent A.Event) (stamp : Stamp) : EventEnvelope A.Event A.Id where
  eventId := stamp.eventId
  aggregateId := aggregateId
  aggregateType := A.aggregateType
  revision := revision
  sequence := sequence
  eventType := event.eventType
  eventVersion := event.eventVersion
  payload := event.payload
  metadata := event.metadata
  recordedAt := stamp.recordedAt

/-- Replayed state and the persisted revision that produced it. -/
structure LoadedAggregate (A : Aggregate) where
  state : A.State
  revision : Nat

def applyCommittedEvents (loaded : LoadedAggregate A) (committed : EventStream A) :
    LoadedAggregate A :=
  committed.foldl
    (fun loaded envelope => ⟨A.apply loaded.state envelope.payload, envelope.revision⟩) loaded

def replay (events : EventStream A) : LoadedAggregate A :=
  applyCommittedEvents ⟨A.new, initialRevision⟩ events

def NewEvent.ofDomainEvent (payload : A.Event) (metadata : Metadata) : NewEvent A.Event :=
  ⟨payload, A.eventType payload, A.eventVersion payload, metadata⟩

def newEventsWithMetadata (events : List A.Event) (metadata : Metadata) :
    List (NewEvent A.Event) :=
  events.map (fun event => NewEvent.ofDomainEvent event metadata)

def handleCommandAsNewEvents (state : A.State) (command : A.Command) (metadata : Metadata) :
    Except A.Error (List (NewEvent A.Event)) :=
  (A.handle state command).map (fun events => newEventsWithMetadata events metadata)

/-- Give each new event the identity and time drawn for it. -/
def stampEvents (stamp : Nat → Stamp) (events : List (NewEvent A.Event)) :
    List (NewEvent A.Event × Stamp) :=
  events.zipIdx.map (fun (event, index) => (event, stamp index))

theorem applyCommittedEvents_append (loaded : LoadedAggregate A) (first second : EventStream A) :
    applyCommittedEvents loaded (first ++ second) =
      applyCommittedEvents (applyCommittedEvents loaded first) second :=
  List.foldl_append

theorem replay_append (first second : EventStream A) :
    replay (first ++ second) = applyCommittedEvents (replay first) second :=
  applyCommittedEvents_append _ first second

/-- A non-empty replay reports the revision of its last envelope. -/
theorem replay_revision (events : EventStream A) :
    (replay events).revision = (events.getLast?.map (·.revision)).getD initialRevision := by
  rcases List.eq_nil_or_concat events with rfl | ⟨earlier, last, rfl⟩
  · rfl
  · simp [replay, applyCommittedEvents]

/-- An account that can be opened once: its only command is rejected on its own result. -/
def Aggregate.account : Aggregate where
  Id := String
  Command := Unit
  Event := Unit
  Error := Unit
  State := Bool
  aggregateType := "account"
  new := false
  apply _ _ := true
  handle opened _ := if opened then .error () else .ok [()]
  eventType _ := "account_opened"
  eventVersion _ := 1

/-- A ledger whose only command is always accepted. -/
def Aggregate.ledger : Aggregate where
  Id := String
  Command := Unit
  Event := Unit
  Error := Unit
  State := Nat
  aggregateType := "ledger"
  new := 0
  apply entries _ := entries + 1
  handle _ _ := .ok [()]
  eventType _ := "entry_posted"
  eventVersion _ := 1

instance : DecidableEq Aggregate.account.Id := inferInstanceAs (DecidableEq String)

instance : DecidableEq Aggregate.ledger.Id := inferInstanceAs (DecidableEq String)

instance : DecidableEq Aggregate.account.Event := inferInstanceAs (DecidableEq Unit)

end DddCqrsEs
