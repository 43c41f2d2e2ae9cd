import DddCqrsEs.RedisKeys
import DddCqrsEs.Transition

/- Process managers: the commands emitted for an event are dispatched one by one under
keys of their own, with a checkpoint that lets a later delivery of the event resume. -/
namespace DddCqrsEs

open Transition

section Interfaces

variable (E C Id Output ProcessError CommandError : Type)

/-- A policy that answers an event with commands, and may keep a state of its own. -/
structure ProcessManager where
  State : Type
  name : String
  handleEnvelope : State → EventEnvelope E Id → Except ProcessError (List C) × State

structure IdempotentCommandBus where
  State : Type
  dispatchIdempotent : State → String → C → Except CommandError Output × State

structure ProcessManagerDispatchCheckpoint where
  State : Type
  loadDispatchIndex : State → String → String → Except String Nat × State
  saveDispatchIndex : State → String → String → Nat → Except String Unit × State
  clearDispatchIndex : State → String → String → Except String Unit × State

inductive ProcessManagerRunnerError where
  | processManager (error : ProcessError)
  | commandBus (error : CommandError)
  | checkpoint (index : Nat) (message : String)
  deriving DecidableEq, Repr

structure ProcessManagerRunResult (Error : Type) where
  dispatched : List Output
  failedIndex : Option Nat
  error : Option Error
  deriving DecidableEq, Repr

end Interfaces

/-- The key of one emitted command. -/
def processManagerCommandIdempotencyKey (managerName eventId : String) (index : Nat) : String :=
  managerName ++ ":" ++ eventId ++ ":" ++ Nat.repr index

theorem processManagerCommandIdempotencyKey_injective {managerName eventId : String}
    {first second : Nat}
    (same : processManagerCommandIdempotencyKey managerName eventId first =
      processManagerCommandIdempotencyKey managerName eventId second) : first = second := by
  unfold processManagerCommandIdempotencyKey at same
  exact Decimal.repr_injective (String.append_right_inj _ |>.mp same)

variable {E C Id Output ProcessError CommandError : Type}

/-- What a delivery reads and writes. -/
structure ProcessManagerRunner (manager : ProcessManager E C Id ProcessError)
    (bus : IdempotentCommandBus C Output CommandError)
    (checkpoint : ProcessManagerDispatchCheckpoint) where
  manager : manager.State
  bus : bus.State
  checkpoint : checkpoint.State

namespace ProcessManagerRunner

variable {manager : ProcessManager E C Id ProcessError}
  {bus : IdempotentCommandBus C Output CommandError} {checkpoint : ProcessManagerDispatchCheckpoint}

/-- The loop over the commands that are left, and the clearing after the last one. -/
def dispatchCommands (eventId : String) (startIndex : Nat) :
    Nat → List C → List Output → ProcessManagerRunner manager bus checkpoint →
      ProcessManagerRunResult Output (ProcessManagerRunnerError ProcessError CommandError) ×
        ProcessManagerRunner manager bus checkpoint
  | _, [], dispatched, runner =>
    let (cleared, after) :=
      checkpoint.clearDispatchIndex runner.checkpoint manager.name eventId
    match cleared with
    | .error message =>
      (⟨dispatched, none, some (.checkpoint (startIndex - 1) message)⟩,
        { runner with checkpoint := after })
    | .ok () => (⟨dispatched, none, none⟩, { runner with checkpoint := after })
  | index, command :: rest, dispatched, runner =>
    let (answer, busAfter) := bus.dispatchIdempotent runner.bus
      (processManagerCommandIdempotencyKey manager.name eventId index) command
    match answer with
    | .error error =>
      (⟨dispatched, some index, some (.commandBus error)⟩, { runner with bus := busAfter })
    | .ok output =>
      let (saved, after) :=
        checkpoint.saveDispatchIndex runner.checkpoint manager.name eventId (index + 1)
      let runner := { runner with bus := busAfter, checkpoint := after }
      match saved with
      | .error message =>
        (⟨dispatched ++ [output], none, some (.checkpoint index message)⟩, runner)
      | .ok () => dispatchCommands eventId startIndex (index + 1) rest
          (dispatched ++ [output]) runner

/-- One delivery of an envelope. A checkpoint that cannot be loaded counts as 0. -/
def runEnvelopeWithCheckpoint (runner : ProcessManagerRunner manager bus checkpoint)
    (envelope : EventEnvelope E Id) :
    ProcessManagerRunResult Output (ProcessManagerRunnerError ProcessError CommandError) ×
      ProcessManagerRunner manager bus checkpoint :=
  let (loaded, after) :=
    checkpoint.loadDispatchIndex runner.checkpoint manager.name envelope.eventId
  let startIndex := match loaded with
    | .ok index => index
    | .error _ => 0
  let (handled, managerAfter) := manager.handleEnvelope runner.manager envelope
  let runner := { runner with manager := managerAfter, checkpoint := after }
  match handled with
  | .error error => (⟨[], none, some (.processManager error)⟩, runner)
  | .ok commands =>
    runner.dispatchCommands envelope.eventId startIndex startIndex
      (commands.drop startIndex) []

end ProcessManagerRunner

/-- A request a bus was given, and whether the command took effect by it. -/
structure Dispatch (C : Type) where
  key : String
  command : C
  effective : Bool
  deriving DecidableEq, Repr

/-- The commands that took effect, in order, with their keys. -/
def effects (history : List (Dispatch C)) : List (String × C) :=
  (history.filter Dispatch.effective).map fun dispatch => (dispatch.key, dispatch.command)

/-- The keys that took effect among the given ones. -/
def effectsUnder (keys : List String) (history : List (Dispatch C)) : List (String × C) :=
  (effects history).filter fun effect => effect.1 ∈ keys

/-- A bus that deduplicates on the key: no key takes effect twice, and whoever gets an
output knows that the key has taken effect. An error says nothing. -/
structure DeduplicatingBus (C Output CommandError : Type) extends
    IdempotentCommandBus C Output CommandError where
  history : State → List (Dispatch C)
  recorded : ∀ state key command, ∃ effective,
    history (dispatchIdempotent state key command).2 =
        history state ++ [⟨key, command, effective⟩] ∧
      (effective = true → key ∉ (effects (history state)).map Prod.fst) ∧
      ∀ output, (dispatchIdempotent state key command).1 = .ok output →
        key ∈ (effects (history (dispatchIdempotent state key command).2)).map Prod.fst

/-- A checkpoint that keeps one index per delivery. A save or a clear may be lost or take
effect, whatever it answers; a load that answers tells the index kept. -/
structure DispatchIndexCell extends ProcessManagerDispatchCheckpoint where
  recorded : State → String → String → Nat
  loads : ∀ state managerName eventId,
    recorded (loadDispatchIndex state managerName eventId).2 managerName eventId =
        recorded state managerName eventId ∧
      ∀ index, (loadDispatchIndex state managerName eventId).1 = .ok index →
        index = recorded state managerName eventId
  saves : ∀ state managerName eventId index,
    let after := recorded (saveDispatchIndex state managerName eventId index).2 managerName eventId
    after = recorded state managerName eventId ∨ after = index
  clears : ∀ state managerName eventId,
    let after := recorded (clearDispatchIndex state managerName eventId).2 managerName eventId
    after = recorded state managerName eventId ∨ after = 0

/-- The commands of an answer under their keys. -/
def keyedCommands (managerName eventId : String) (commands : List C) : List (String × C) :=
  commands.mapIdx fun index command =>
    (processManagerCommandIdempotencyKey managerName eventId index, command)

end DddCqrsEs
