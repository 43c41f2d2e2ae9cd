import DddCqrsEs.Event
import DddCqrsEs.Replay

/- Projection runners: bounded passes over the global feed with a checkpoint kept in a
store or in the runner. -/
namespace DddCqrsEs

inductive ProjectionRunnerError (ProjectionError StoreError CheckpointError : Type*) where
  | projection (error : ProjectionError)
  | store (error : StoreError)
  | checkpoint (error : CheckpointError)
  | partialBatchFailure (projection : ProjectionError) (checkpoint : CheckpointError)
  deriving DecidableEq, Repr

structure ProjectionBatchConfig where
  batchSize : Nat
  positive : 0 < batchSize

def defaultProjectionBatch : Nat := 500

def ProjectionBatchConfig.default : ProjectionBatchConfig :=
  ⟨defaultProjectionBatch, by decide⟩

structure ProjectionBatchOutcome where
  applied : Nat
  lastSequence : Option Nat
  caughtUp : Bool
  deriving DecidableEq, Repr

def projectionBatchOutcome (applied : Nat) (lastSequence : Option Nat)
    (config : ProjectionBatchConfig) : ProjectionBatchOutcome :=
  ⟨applied, lastSequence, applied < config.batchSize⟩

/-- Whether a catch-up loop should request another batch, and the position it then has. -/
def batchAdvanced (outcome : ProjectionBatchOutcome) (position : Option Nat) :
    Bool × Option Nat :=
  if outcome.caughtUp then (false, position)
  else
    match outcome.lastSequence with
    | some sequence =>
      if position.all (· < sequence) then (true, some sequence) else (false, position)
    | none => (false, position)

/-- How a persisted runner derives the key it reads and writes. -/
inductive CheckpointKeying where
  | projectionName
  | aggregateScoped
  deriving DecidableEq, Repr

def checkpointScopeSeparator : String := "@"

def aggregateScopedCheckpointKey (projectionName aggregateType : String) : String :=
  projectionName ++ checkpointScopeSeparator ++ aggregateType

def checkpointKey (keying : CheckpointKeying) (name scope : String) : String :=
  match keying with
  | .projectionName => name
  | .aggregateScoped => aggregateScopedCheckpointKey name scope

/-- What a runner calls: the projection, its checkpoint store and the event store, all
against one world `σ` that other parties may change while a call runs. -/
structure RunnerPorts (σ E Id ProjectionError StoreError CheckpointError : Type*) where
  name : String
  aggregateType : String
  apply : EventEnvelope E Id → σ → Except ProjectionError Unit × σ
  flush : σ → Except ProjectionError Unit × σ
  loadCheckpoint : String → σ → Except CheckpointError (Option Nat) × σ
  saveCheckpoint : String → Nat → σ → Except CheckpointError Unit × σ
  loadGlobalAfterLimited : Option Nat → Nat → σ → Except StoreError (List (EventEnvelope E Id)) × σ

variable {σ E Id ProjectionError StoreError CheckpointError : Type*}

namespace RunnerPorts

variable (ports : RunnerPorts σ E Id ProjectionError StoreError CheckpointError)

/-- The loop over one batch, from the counts of the events applied so far. -/
def applyProjectionEvents : List (EventEnvelope E Id) → Nat → Option Nat → σ →
    (Nat × Option Nat × Option ProjectionError) × σ
  | [], applied, lastSequence, world => ((applied, lastSequence, none), world)
  | event :: rest, applied, lastSequence, world =>
    match ports.apply event world with
    | (.error error, world) => ((applied, lastSequence, some error), world)
    | (.ok (), world) =>
      applyProjectionEvents rest (applied + 1) (event.sequence.or lastSequence) world

def persistProjectionCheckpoint (key : String) (lastSequence : Option Nat) (world : σ) :
    Except (ProjectionRunnerError ProjectionError StoreError CheckpointError) Unit × σ :=
  match lastSequence with
  | none => (.ok (), world)
  | some sequence =>
    match ports.flush world with
    | (.error error, world) => (.error (.projection error), world)
    | (.ok (), world) =>
      match ports.saveCheckpoint key sequence world with
      | (.error error, world) => (.error (.checkpoint error), world)
      | (.ok (), world) => (.ok (), world)

end RunnerPorts

/-- Combine the apply failure of a batch with the outcome of persisting its progress. -/
def finishProjectionBatch
    (failure : Option (ProjectionRunnerError ProjectionError StoreError CheckpointError))
    (flushed : Except (ProjectionRunnerError ProjectionError StoreError CheckpointError) Unit) :
    Except (ProjectionRunnerError ProjectionError StoreError CheckpointError) Unit :=
  match failure with
  | some (.projection projectionError) =>
    match flushed with
    | .error (.checkpoint checkpointError) =>
      .error (.partialBatchFailure projectionError checkpointError)
    | .error other => .error other
    | .ok () => .error (.projection projectionError)
  | some other => .error other
  | none => flushed

namespace RunnerPorts

variable (ports : RunnerPorts σ E Id ProjectionError StoreError CheckpointError)

def runPersistedProjectionBatch (key : String) (events : List (EventEnvelope E Id))
    (config : ProjectionBatchConfig) (world : σ) :
    Except (ProjectionRunnerError ProjectionError StoreError CheckpointError)
      ProjectionBatchOutcome × σ :=
  let ((applied, lastSequence, failure), world) :=
    ports.applyProjectionEvents events 0 none world
  let (flushed, world) := ports.persistProjectionCheckpoint key lastSequence world
  match finishProjectionBatch (failure.map .projection) flushed with
  | .error error => (.error error, world)
  | .ok () => (.ok (projectionBatchOutcome applied lastSequence config), world)

/-- `PersistedProjectionRunner::run_batch`. -/
def runBatch (keying : CheckpointKeying) (config : ProjectionBatchConfig) (world : σ) :
    Except (ProjectionRunnerError ProjectionError StoreError CheckpointError)
      ProjectionBatchOutcome × σ :=
  let key := checkpointKey keying ports.name ports.aggregateType
  match ports.loadCheckpoint key world with
  | (.error error, world) => (.error (.checkpoint error), world)
  | (.ok checkpoint, world) =>
    match ports.loadGlobalAfterLimited checkpoint config.batchSize world with
    | (.error error, world) => (.error (.store error), world)
    | (.ok events, world) => ports.runPersistedProjectionBatch key events config world

/-- The in-memory runner keeps the checkpoint next to the world it works on. -/
def finishInMemoryProjectionBatch (applied : Nat) (lastSequence : Option Nat)
    (failure : Option ProjectionError) (config : ProjectionBatchConfig)
    (runner : σ × Option Nat) :
    Except (ProjectionRunnerError ProjectionError StoreError CheckpointError)
      ProjectionBatchOutcome × (σ × Option Nat) :=
  match ports.flush runner.1 with
  | (.error error, world) => (.error (.projection error), world, runner.2)
  | (.ok (), world) =>
    let checkpoint := lastSequence.or runner.2
    match failure with
    | some error => (.error (.projection error), world, checkpoint)
    | none => (.ok (projectionBatchOutcome applied lastSequence config), world, checkpoint)

/-- `InMemoryProjectionRunner::run_batch`. -/
def runInMemoryBatch (config : ProjectionBatchConfig) (runner : σ × Option Nat) :
    Except (ProjectionRunnerError ProjectionError StoreError CheckpointError)
      ProjectionBatchOutcome × (σ × Option Nat) :=
  match ports.loadGlobalAfterLimited runner.2 config.batchSize runner.1 with
  | (.error error, world) => (.error (.store error), world, runner.2)
  | (.ok events, world) =>
    let ((applied, lastSequence, failure), world) :=
      ports.applyProjectionEvents events 0 none world
    ports.finishInMemoryProjectionBatch applied lastSequence failure config (world, runner.2)

end RunnerPorts

/-- Repeat bounded passes until one does not advance. `none` means the loop was still
running when `fuel` passes were done. -/
def runProjectionCatchUp {ρ Error : Type*}
    (runBatch : ProjectionBatchConfig → ρ → Except Error ProjectionBatchOutcome × ρ) :
    Nat → Nat → Option Nat → ρ → Option (Except Error Nat) × ρ
  | 0, _, _, runner => (none, runner)
  | fuel + 1, applied, position, runner =>
    match runBatch .default runner with
    | (.error error, runner) => (some (.error error), runner)
    | (.ok outcome, runner) =>
      let applied := applied + outcome.applied
      match batchAdvanced outcome position with
      | (false, _) => (some (.ok applied), runner)
      | (true, position) => runProjectionCatchUp runBatch fuel applied position runner

/-- What every pass preserves, the whole catch-up preserves. -/
theorem runProjectionCatchUp_induction {ρ Error : Type*}
    {runBatch : ProjectionBatchConfig → ρ → Except Error ProjectionBatchOutcome × ρ}
    (related : ρ → ρ → Prop) (refl : ∀ runner, related runner runner)
    (trans : ∀ first second third, related first second → related second third →
      related first third)
    (pass : ∀ config runner, related runner (runBatch config runner).2)
    (fuel applied : Nat) (position : Option Nat) (runner : ρ) :
    related runner (runProjectionCatchUp runBatch fuel applied position runner).2 := by
  induction fuel generalizing applied position runner with
  | zero => exact refl runner
  | succ fuel ih =>
    have one := pass .default runner
    rw [runProjectionCatchUp]
    split
    · rename_i ran
      rwa [ran] at one
    · rename_i outcome next ran
      rw [ran] at one
      dsimp only
      split
      · exact one
      · exact trans _ _ _ one (ih _ _ _)

end DddCqrsEs
