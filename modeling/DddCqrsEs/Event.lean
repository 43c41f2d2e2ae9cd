import Mathlib.Algebra.Group.Int.Defs
import Mathlib.Algebra.Group.Nat.Defs
import Mathlib.Data.List.Forall2
import Mathlib.Data.List.Infix
import Mathlib.Logic.Function.Basic
import Mathlib.Tactic.TypeStar

/- The shared vocabulary: expected revisions, store errors, events before and after
they are persisted. -/
namespace DddCqrsEs

variable {ε α β : Type} {first : Except ε α} {next : α → Except ε β}

theorem ok_of_bind {value : β} (ran : first >>= next = .ok value) :
    ∃ between, first = .ok between ∧ next between = .ok value := by
  cases first with
  | error error => cases ran
  | ok between => exact ⟨between, rfl, ran⟩

theorem bind_of_ok {value : α} (ran : first = .ok value) : first >>= next = next value := by
  rw [ran]
  rfl

theorem bind_ok_iff {value : β} :
    first >>= next = .ok value ↔ ∃ between, first = .ok between ∧ next between = .ok value := by
  constructor
  · exact ok_of_bind
  · rintro ⟨between, ran, rest⟩
    rw [bind_of_ok ran, rest]

theorem ok_of_mapError {ε' : Type} {convert : ε → ε'} {value : α}
    (ran : first.mapError convert = .ok value) : first = .ok value := by
  cases first with
  | error error => cases ran
  | ok between =>
    cases ran
    rfl

/-- Successful effectful traversal is pointwise. -/
theorem forall₂_of_mapM_ok {f : α → Except ε β} {items : List α} {out : List β}
    (mapped : items.mapM f = .ok out) :
    List.Forall₂ (fun item value => f item = .ok value) items out := by
  induction items generalizing out with
  | nil =>
    cases mapped
    exact .nil
  | cons item rest ih =>
    rw [List.mapM_cons] at mapped
    obtain ⟨value, first, mapped⟩ := ok_of_bind mapped
    obtain ⟨values, later, mapped⟩ := ok_of_bind mapped
    cases mapped
    exact .cons first (ih later)

theorem exists_of_forall₂ {α β : Type*} {R : α → β → Prop} {items : List α} {out : List β}
    (pointwise : List.Forall₂ R items out) {value : β} (member : value ∈ out) :
    ∃ item ∈ items, R item value := by
  induction pointwise with
  | nil => cases member
  | cons first later ih =>
    rcases List.mem_cons.mp member with rfl | rest
    · exact ⟨_, List.mem_cons_self, first⟩
    · obtain ⟨item, listed, related⟩ := ih rest
      exact ⟨item, List.mem_cons_of_mem _ listed, related⟩

/-- What is found in a table of which one entry was written. -/
theorem of_update_eq_some {κ β : Type*} [DecidableEq κ] {table : κ → Option β} {key other : κ}
    {written : Option β} {found : β} (read : Function.update table key written other = some found) :
    (other = key ∧ written = some found) ∨ (other ≠ key ∧ table other = some found) := by
  by_cases own : other = key
  · rw [own, Function.update_self] at read
    exact Or.inl ⟨own, read⟩
  · rw [Function.update_of_ne own] at read
    exact Or.inr ⟨own, read⟩

/-- The revision of a stream with no persisted events. -/
def initialRevision : Nat := 0

/-- Nanoseconds relative to the UNIX epoch. -/
abbrev SystemTime := Int

inductive ExpectedRevision where
  | any
  | noStream
  | exact (revision : Nat)
  deriving DecidableEq, Repr

inductive ConcurrencyError where
  | streamAlreadyExists
  | wrongExpectedRevision (expected : ExpectedRevision) (actual : Nat)
  | staleSnapshotRevision (offered current : Nat)
  deriving DecidableEq, Repr

/-- Store errors up to the preserved source, which their equality ignores. -/
inductive EventStoreError where
  | concurrency (error : ConcurrencyError)
  | serialization (message : String) (code : Option String)
  | deserialization (message : String) (code : Option String)
  | connection (message : String) (code : Option String)
  | poisoned
  | backend (message : String) (code : Option String)
  | unknown (message : String) (code : Option String)
  deriving DecidableEq, Repr

def asciiLower (c : Char) : Char :=
  if 'A' ≤ c ∧ c ≤ 'Z' then Char.ofNat (c.toNat + 32) else c

/-- `to_ascii_lowercase` of a message, as characters. -/
def lowercase (message : String) : List Char := message.toList.map asciiLower

def mentions (lower : List Char) (word : String) : Bool := decide (word.toList <:+: lower)

/-- Whether a unique-violation message refers to the stream revision constraint, not to
the guard on `event_id`. -/
def isStreamRevisionUniqueViolationMessage (message : String) : Bool :=
  let lower := lowercase message
  if mentions lower "event_id" then false
  else mentions lower "revision" && (mentions lower "aggregate_id" || mentions lower "aggregate_type")

/-- The error type's own, wider test, on a message already in lower case. -/
def EventStoreError.isStreamRevisionUniqueViolationMessage (lower : List Char) : Bool :=
  if mentions lower "event_id" then false
  else
    mentions lower "revision" &&
      (mentions lower "aggregate" || mentions lower "aggregate_id" ||
        mentions lower "aggregate_type" || mentions lower "idx_aggregate_revision")

def isRetryableBackendConflict (message : String) (code : Option String) : Bool :=
  let lower := lowercase message
  if mentions lower "locked" then true
  else if code = some "23505" ∨ code = some "1062" ∨ code = some "40001" then
    EventStoreError.isStreamRevisionUniqueViolationMessage lower
  else
    (mentions lower "unique" || mentions lower "duplicate" || mentions lower "constraint") &&
      EventStoreError.isStreamRevisionUniqueViolationMessage lower

/-- Whether callers may retry the failed operation. -/
def EventStoreError.isRetryable : EventStoreError → Bool
  | .concurrency _ | .connection _ _ => true
  | .backend message code => isRetryableBackendConflict message code
  | .serialization _ _ | .deserialization _ _ | .poisoned | .unknown _ _ => false

/-- Whether an error reports an optimistic concurrency conflict. -/
def EventStoreError.isConcurrency : EventStoreError → Bool
  | .concurrency _ => true
  | _ => false

def checkExpectedRevision (expected : ExpectedRevision) (actual : Nat) :
    Except EventStoreError Unit :=
  match expected with
  | .any => .ok ()
  | .noStream =>
    if actual = 0 then .ok () else .error (.concurrency .streamAlreadyExists)
  | .exact revision =>
    if revision = actual then .ok ()
    else .error (.concurrency (.wrongExpectedRevision (.exact revision) actual))

/-- The revisions an expectation admits. -/
def ExpectedRevision.Admits : ExpectedRevision → Nat → Prop
  | .any, _ => True
  | .noStream, actual => actual = 0
  | .exact revision, actual => revision = actual

instance (expected : ExpectedRevision) (actual : Nat) :
    Decidable (expected.Admits actual) :=
  match expected with
  | .any => inferInstanceAs (Decidable True)
  | .noStream => inferInstanceAs (Decidable (actual = 0))
  | .exact revision => inferInstanceAs (Decidable (revision = actual))

theorem checkExpectedRevision_ok_iff (expected : ExpectedRevision) (actual : Nat) :
    checkExpectedRevision expected actual = .ok () ↔ expected.Admits actual := by
  cases expected <;> simp [checkExpectedRevision, ExpectedRevision.Admits]

/-- The check rejects with a concurrency error and with nothing else. -/
theorem checkExpectedRevision_error {expected : ExpectedRevision} {actual : Nat}
    {error : EventStoreError} (rejected : checkExpectedRevision expected actual = .error error) :
    ¬ expected.Admits actual ∧ error.isConcurrency = true := by
  constructor
  · rw [← checkExpectedRevision_ok_iff, rejected]
    simp
  · cases expected <;> simp only [checkExpectedRevision] at rejected
    · cases rejected
    all_goals
      split at rejected
      · cases rejected
      · cases rejected
        rfl

/-- What a stream-revision unique violation is reported as. -/
def mapStreamUniqueViolation (expected : ExpectedRevision) (currentRevision : Nat) :
    EventStoreError :=
  match expected with
  | .noStream => .concurrency .streamAlreadyExists
  | _ => .concurrency (.wrongExpectedRevision expected currentRevision)

structure Metadata where
  correlationId : Option String
  causationId : Option String
  actorId : Option String
  tenantId : Option String
  requestId : Option String
  headers : List (String × String)
  deriving DecidableEq, Repr

def Metadata.empty : Metadata := ⟨none, none, none, none, none, []⟩

/-- An event before the store assigns its revision and sequence. -/
structure NewEvent (E : Type*) where
  payload : E
  eventType : String
  eventVersion : Nat
  metadata : Metadata
  deriving DecidableEq, Repr

structure EventEnvelope (E Id : Type*) where
  eventId : String
  aggregateId : Id
  aggregateType : String
  revision : Nat
  sequence : Option Nat
  eventType : String
  eventVersion : Nat
  payload : E
  metadata : Metadata
  recordedAt : SystemTime
  deriving DecidableEq, Repr

/-- What the environment supplies for one appended event: the fresh identifier of
`EventId::new` and the clock reading. -/
structure Stamp where
  eventId : String
  recordedAt : SystemTime
  deriving DecidableEq, Repr

end DddCqrsEs
