import DddCqrsEs.Projection
import DddCqrsEs.Transition

/- Every pass of a projection runner is an advance of the abstract replay, for a store
that hands out slices of a growing feed and a checkpoint store that keeps maxima. -/
namespace DddCqrsEs

open Transition Replay

variable {σ E Id ProjectionError StoreError CheckpointError : Type*}

def sequenceOf (event : EventEnvelope E Id) : Nat := event.sequence.getD 0

/-- A feed whose events all carry a sequence, in increasing order. -/
structure WellFormedFeed (feed : List (EventEnvelope E Id)) : Prop where
  sequenced : ∀ event ∈ feed, event.sequence = some (sequenceOf event)
  increasing : Increasing sequenceOf feed

namespace RunnerPorts

variable (ports : RunnerPorts σ E Id ProjectionError StoreError CheckpointError)
  (feed : σ → List (EventEnvelope E Id)) (stored : σ → Option Nat) (key : String)

/-- The event store: its feed is well formed and only grows, whoever acts, and a read
returns the events after the checkpoint up to the limit. -/
structure ReadsFeed : Prop where
  wellFormed : ∀ world, WellFormedFeed (feed world)
  apply : ∀ event world, feed world <+: feed (ports.apply event world).2
  flush : ∀ world, feed world <+: feed (ports.flush world).2
  read : ∀ checkpoint limit world,
    feed world <+: feed (ports.loadGlobalAfterLimited checkpoint limit world).2
  slice : ∀ checkpoint limit world events,
    (ports.loadGlobalAfterLimited checkpoint limit world).1 = .ok events →
    events = ((feed (ports.loadGlobalAfterLimited checkpoint limit world).2).filter
      (fun event => above checkpoint (sequenceOf event))).take limit

/-- Saving keeps the maximum. -/
def savedCheckpoint (before : Option Nat) (sequence : Nat) : Option Nat :=
  some (before.elim sequence (fun previous => max previous sequence))

/-- The checkpoint store: a load returns the stored value, an acknowledged save keeps the
maximum, a failed save may or may not have taken effect, and nothing else moves it. -/
structure KeepsCheckpoint : Prop where
  apply : ∀ event world, stored (ports.apply event world).2 = stored world
  flush : ∀ world, stored (ports.flush world).2 = stored world
  read : ∀ checkpoint limit world,
    stored (ports.loadGlobalAfterLimited checkpoint limit world).2 = stored world
  load : ∀ world, stored (ports.loadCheckpoint key world).2 = stored world
  loadFeed : ∀ world, feed world <+: feed (ports.loadCheckpoint key world).2
  loaded : ∀ world checkpoint, (ports.loadCheckpoint key world).1 = .ok checkpoint →
    checkpoint = stored world
  saveFeed : ∀ sequence world, feed world <+: feed (ports.saveCheckpoint key sequence world).2
  saved : ∀ sequence world, (ports.saveCheckpoint key sequence world).1 = .ok () →
    stored (ports.saveCheckpoint key sequence world).2 = savedCheckpoint (stored world) sequence
  unsaved : ∀ sequence world error, (ports.saveCheckpoint key sequence world).1 = .error error →
    stored (ports.saveCheckpoint key sequence world).2 = stored world ∨
    stored (ports.saveCheckpoint key sequence world).2 = savedCheckpoint (stored world) sequence

/-- How a trace records an attempt to make progress durable. -/
def durabilityMark {ε Error : Type*} : Except Error Unit → Mark ε
  | .ok () => .neutral
  | .error _ => .failure

def applyMark {ε Error : Type*} (event : ε) : Except Error Unit → Mark ε
  | .ok () => .applied event
  | .error _ => .neutral

/-- The same ports with a trace of what the runner did to the projection and of what
kept its progress from becoming durable. -/
def recorded :
    RunnerPorts (σ × List (Mark (EventEnvelope E Id))) E Id ProjectionError StoreError
      CheckpointError where
  name := ports.name
  aggregateType := ports.aggregateType
  apply event world :=
    let out := ports.apply event world.1
    (out.1, out.2, world.2 ++ [applyMark event out.1])
  flush world :=
    let out := ports.flush world.1
    (out.1, out.2, world.2 ++ [durabilityMark out.1])
  loadCheckpoint key world :=
    let out := ports.loadCheckpoint key world.1
    (out.1, out.2, world.2)
  saveCheckpoint key sequence world :=
    let out := ports.saveCheckpoint key sequence world.1
    (out.1, out.2, world.2 ++ [durabilityMark out.1])
  loadGlobalAfterLimited checkpoint limit world :=
    let out := ports.loadGlobalAfterLimited checkpoint limit world.1
    (out.1, out.2, world.2)

variable {feed stored key} {ε Error : Type*}

@[simp] theorem durabilityMark_ok (done : Unit) :
    durabilityMark (.ok done : Except Error Unit) = (Mark.neutral : Mark ε) := rfl

@[simp] theorem durabilityMark_error (error : Error) :
    durabilityMark (.error error : Except Error Unit) = (Mark.failure : Mark ε) := rfl

@[simp] theorem applyMark_ok (event : ε) (done : Unit) :
    applyMark event (.ok done : Except Error Unit) = Mark.applied event := rfl

@[simp] theorem applyMark_error (event : ε) (error : Error) :
    applyMark event (.error error : Except Error Unit) = Mark.neutral := rfl

theorem recorded_apply (event : EventEnvelope E Id)
    (world : σ × List (Mark (EventEnvelope E Id))) :
    ports.recorded.apply event world =
      ((ports.apply event world.1).1, (ports.apply event world.1).2,
        world.2 ++ [applyMark event (ports.apply event world.1).1]) := rfl

theorem recorded_flush (world : σ × List (Mark (EventEnvelope E Id))) :
    ports.recorded.flush world =
      ((ports.flush world.1).1, (ports.flush world.1).2,
        world.2 ++ [durabilityMark (ports.flush world.1).1]) := rfl

theorem recorded_saveCheckpoint (key : String) (sequence : Nat)
    (world : σ × List (Mark (EventEnvelope E Id))) :
    ports.recorded.saveCheckpoint key sequence world =
      ((ports.saveCheckpoint key sequence world.1).1,
        (ports.saveCheckpoint key sequence world.1).2,
        world.2 ++ [durabilityMark (ports.saveCheckpoint key sequence world.1).1]) := rfl

theorem recorded_loadCheckpoint (key : String)
    (world : σ × List (Mark (EventEnvelope E Id))) :
    ports.recorded.loadCheckpoint key world =
      ((ports.loadCheckpoint key world.1).1, (ports.loadCheckpoint key world.1).2, world.2) := rfl

theorem recorded_loadGlobalAfterLimited (checkpoint : Option Nat) (limit : Nat)
    (world : σ × List (Mark (EventEnvelope E Id))) :
    ports.recorded.loadGlobalAfterLimited checkpoint limit world =
      ((ports.loadGlobalAfterLimited checkpoint limit world.1).1,
        (ports.loadGlobalAfterLimited checkpoint limit world.1).2, world.2) := rfl

theorem recorded_name : ports.recorded.name = ports.name := rfl

theorem recorded_aggregateType : ports.recorded.aggregateType = ports.aggregateType := rfl

variable {ports}

/-- Recording changes nothing the event store promises. -/
theorem ReadsFeed.recorded (reads : ReadsFeed ports feed) :
    ReadsFeed ports.recorded (fun world => feed world.1) where
  wellFormed world := reads.wellFormed world.1
  apply event world := reads.apply event world.1
  flush world := reads.flush world.1
  read checkpoint limit world := reads.read checkpoint limit world.1
  slice checkpoint limit world := reads.slice checkpoint limit world.1

theorem KeepsCheckpoint.recorded (keeps : KeepsCheckpoint ports feed stored key) :
    KeepsCheckpoint ports.recorded (fun world => feed world.1) (fun world => stored world.1)
      key where
  apply event world := keeps.apply event world.1
  flush world := keeps.flush world.1
  read checkpoint limit world := keeps.read checkpoint limit world.1
  load world := keeps.load world.1
  loadFeed world := keeps.loadFeed world.1
  loaded world := keeps.loaded world.1
  saveFeed sequence world := keeps.saveFeed sequence world.1
  saved sequence world := keeps.saved sequence world.1
  unsaved sequence world := keeps.unsaved sequence world.1

/-- What every application preserves, the apply loop preserves. -/
theorem applyProjectionEvents_induction (related : σ → σ → Prop)
    (refl : ∀ world, related world world)
    (trans : ∀ first second third, related first second → related second third →
      related first third)
    (one : ∀ event world, related world (ports.apply event world).2)
    (events : List (EventEnvelope E Id)) (applied : Nat) (lastSequence : Option Nat)
    (world : σ) :
    related world (ports.applyProjectionEvents events applied lastSequence world).2 := by
  induction events generalizing applied lastSequence world with
  | nil => exact refl world
  | cons event rest ih =>
    have first := one event world
    rw [applyProjectionEvents]
    split
    · rename_i ran
      rwa [ran] at first
    · rename_i ran
      rw [ran] at first
      exact trans _ _ _ first (ih _ _ _)

theorem applyProjectionEvents_feed (reads : ReadsFeed ports feed)
    (events : List (EventEnvelope E Id)) (applied : Nat) (lastSequence : Option Nat)
    (world : σ) :
    feed world <+: feed (ports.applyProjectionEvents events applied lastSequence world).2 :=
  applyProjectionEvents_induction (fun first second => feed first <+: feed second)
    (fun _ => List.prefix_rfl) (fun _ _ _ => List.IsPrefix.trans) reads.apply
    events applied lastSequence world

theorem applyProjectionEvents_stored (keeps : KeepsCheckpoint ports feed stored key)
    (events : List (EventEnvelope E Id)) (applied : Nat) (lastSequence : Option Nat)
    (world : σ) :
    stored (ports.applyProjectionEvents events applied lastSequence world).2 = stored world :=
  applyProjectionEvents_induction (fun first second => stored second = stored first)
    (fun _ => rfl) (fun _ _ _ one two => two.trans one) keeps.apply
    events applied lastSequence world

variable (ports) in
/-- The apply loop applies a prefix of the batch, records exactly these events, and
reports the last of them. -/
theorem applyProjectionEvents_recorded (events : List (EventEnvelope E Id))
    (sequenced : ∀ event ∈ events, event.sequence = some (sequenceOf event))
    (applied : Nat) (lastSequence : Option Nat) (world : σ)
    (marks : List (Mark (EventEnvelope E Id))) :
    ∃ batch tail,
      let out := ports.recorded.applyProjectionEvents events applied lastSequence (world, marks)
      batch <+: events ∧ out.2.2 = marks ++ batch.map Mark.applied ++ tail ∧
        Replay.applied tail = [] ∧
        out.1.2.1 = (batch.getLast?.map sequenceOf).or lastSequence := by
  induction events generalizing applied lastSequence world marks with
  | nil => exact ⟨[], [], List.nil_prefix, by simp [applyProjectionEvents], rfl, rfl⟩
  | cons event rest ih =>
    rw [List.forall_mem_cons] at sequenced
    rw [applyProjectionEvents, recorded_apply]
    cases ran : ports.apply event world with
    | mk result next =>
      cases result with
      | error error => exact ⟨[], [.neutral], List.nil_prefix, by simp, rfl, rfl⟩
      | ok done =>
        obtain ⟨batch, tail, slice, traced, quiet, reported⟩ :=
          ih sequenced.2 (applied + 1) (event.sequence.or lastSequence) next
            (marks ++ [.applied event])
        refine ⟨event :: batch, tail, ?_, ?_, quiet, ?_⟩
        · exact (List.prefix_cons_inj event).mpr slice
        · simpa using traced
        · dsimp only [applyMark_ok] at reported ⊢
          rw [reported, sequenced.1, List.getLast?_cons]
          cases batch.getLast? <;> rfl

/-- Persisting does nothing without progress; with progress the checkpoint becomes the
saved maximum, unless a failure is recorded. -/
theorem persistProjectionCheckpoint_recorded (keeps : KeepsCheckpoint ports feed stored key)
    (lastSequence : Option Nat) (world : σ) (marks : List (Mark (EventEnvelope E Id))) :
    ∃ tail,
      let after := (ports.recorded.persistProjectionCheckpoint key lastSequence (world, marks)).2
      after.2 = marks ++ tail ∧ Replay.applied tail = [] ∧
        (lastSequence = none → stored after.1 = stored world) ∧
        ∀ sequence, lastSequence = some sequence →
          stored after.1 = savedCheckpoint (stored world) sequence ∨
            (stored after.1 = stored world ∧ Mark.failure ∈ tail) := by
  cases lastSequence with
  | none => exact ⟨[], by simp [persistProjectionCheckpoint]⟩
  | some sequence =>
    rw [persistProjectionCheckpoint, recorded_flush]
    have flushed := keeps.flush world
    cases ran : ports.flush world with
    | mk result next =>
      rw [ran] at flushed
      cases result with
      | error error =>
        refine ⟨[.failure], ?_⟩
        simp [Replay.applied, Mark.event?, flushed]
      | ok done =>
        dsimp only
        rw [recorded_saveCheckpoint]
        have saved := keeps.saved sequence next
        have unsaved := keeps.unsaved sequence next
        cases wrote : ports.saveCheckpoint key sequence next with
        | mk result final =>
          rw [wrote, flushed] at saved unsaved
          cases result with
          | error error =>
            refine ⟨[.neutral, .failure], ?_⟩
            simp [Replay.applied, Mark.event?]
            exact (unsaved error rfl).symm
          | ok done =>
            refine ⟨[.neutral, .neutral], ?_⟩
            simp [Replay.applied, Mark.event?, saved rfl]

theorem persistProjectionCheckpoint_feed (reads : ReadsFeed ports feed)
    (keeps : KeepsCheckpoint ports feed stored key) (lastSequence : Option Nat) (world : σ) :
    feed world <+: feed (ports.persistProjectionCheckpoint key lastSequence world).2 := by
  cases lastSequence with
  | none => exact List.prefix_rfl
  | some sequence =>
    rw [persistProjectionCheckpoint]
    have flushed := reads.flush world
    cases ran : ports.flush world with
    | mk result next =>
      rw [ran] at flushed
      cases result with
      | error error => exact flushed
      | ok done =>
        have saved := keeps.saveFeed sequence next
        dsimp only
        split
        · rename_i wrote
          rw [wrote] at saved
          exact flushed.trans saved
        · rename_i wrote
          rw [wrote] at saved
          exact flushed.trans saved

/-- The abstract view of a persisted runner: what it replays from is what is stored. -/
def persistedSnapshot (feed : σ → List (EventEnvelope E Id)) (stored : σ → Option Nat)
    (world : σ × List (Mark (EventEnvelope E Id))) : Snapshot (EventEnvelope E Id) :=
  ⟨feed world.1, stored world.1, world.2⟩

/-- The abstract view of an in-memory runner. -/
def inMemorySnapshot (feed : σ → List (EventEnvelope E Id))
    (runner : (σ × List (Mark (EventEnvelope E Id))) × Option Nat) :
    Snapshot (EventEnvelope E Id) :=
  ⟨feed runner.1.1, runner.2, runner.1.2⟩

theorem savedCheckpoint_of_above {checkpoint : Option Nat} {sequence : Nat}
    (beyond : above checkpoint sequence = true) :
    savedCheckpoint checkpoint sequence = some sequence := by
  cases checkpoint with
  | none => rfl
  | some previous =>
    rw [above_some, decide_eq_true_eq] at beyond
    simp only [savedCheckpoint, Option.elim_some, Option.some.injEq]
    omega

/-- The events a read handed out are an increasing slice above the checkpoint. -/
theorem readSlice (reads : ReadsFeed ports feed) (world : σ) (checkpoint : Option Nat)
    (limit : Nat) :
    let events := ((feed world).filter
      (fun event => above checkpoint (sequenceOf event))).take limit
    (∀ event ∈ events, event.sequence = some (sequenceOf event)) ∧
      ∀ batch, batch <+: events → ∀ next, feed world <+: feed next →
        batch <+: (feed next).filter (fun event => above checkpoint (sequenceOf event)) := by
  intro events
  have taken : events <+: (feed world).filter
      (fun event => above checkpoint (sequenceOf event)) := List.take_prefix _ _
  constructor
  · intro event member
    exact (reads.wellFormed world).sequenced event
      (List.mem_of_mem_filter (taken.subset member))
  · intro batch slice next grown
    exact (slice.trans taken).trans (grown.filter _)

/-- Whatever a persisted batch returns, it has applied and then persisted. -/
theorem runPersistedProjectionBatch_world (events : List (EventEnvelope E Id))
    (config : ProjectionBatchConfig) (world : σ) :
    (ports.runPersistedProjectionBatch key events config world).2 =
      (ports.persistProjectionCheckpoint key
        (ports.applyProjectionEvents events 0 none world).1.2.1
        (ports.applyProjectionEvents events 0 none world).2).2 := by
  rw [runPersistedProjectionBatch]
  dsimp only
  split <;> rfl

theorem runPersistedProjectionBatch_advance (reads : ReadsFeed ports feed)
    (keeps : KeepsCheckpoint ports feed stored key) (config : ProjectionBatchConfig)
    (world : σ) (marks : List (Mark (EventEnvelope E Id))) (limit : Nat) :
    let events := ((feed world).filter
      (fun event => above (stored world) (sequenceOf event))).take limit
    Advance sequenceOf (persistedSnapshot feed stored (world, marks))
      (persistedSnapshot feed stored
        (ports.recorded.runPersistedProjectionBatch key events config (world, marks)).2) := by
  intro events
  obtain ⟨sequenced, sliced⟩ := readSlice reads world (stored world) limit
  obtain ⟨batch, tail, slice, traced, quiet, reported⟩ :=
    applyProjectionEvents_recorded ports events sequenced 0 none world marks
  have grown := applyProjectionEvents_feed reads.recorded events 0 none (world, marks)
  have same := applyProjectionEvents_stored keeps.recorded events 0 none (world, marks)
  rw [runPersistedProjectionBatch_world]
  generalize ports.recorded.applyProjectionEvents events 0 none (world, marks) = out at *
  obtain ⟨more, persisted, still, idle, moved⟩ :=
    persistProjectionCheckpoint_recorded keeps out.1.2.1 out.2.1 out.2.2
  have persistedFeed := persistProjectionCheckpoint_feed reads.recorded keeps.recorded
    out.1.2.1 out.2
  generalize ports.recorded.persistProjectionCheckpoint key out.1.2.1 out.2 = final at *
  refine ⟨batch, tail ++ more, grown.trans persistedFeed,
    sliced batch slice final.2.1 (grown.trans persistedFeed), ?_, ?_, ?_⟩
  · simp only [persistedSnapshot, persisted, traced, List.append_assoc]
  · rw [applied_append, quiet, still, List.append_nil]
  · simp only [persistedSnapshot]
    cases last : batch.getLast? with
    | none =>
      rw [last] at reported
      rw [List.getLast?_eq_none_iff] at last
      exact Or.inr ⟨(idle reported).trans same, Or.inl last⟩
    | some event =>
      rw [last] at reported
      rcases moved (sequenceOf event) reported with reached | ⟨kept, failed⟩
      · have member := slice.subset (List.mem_of_getLast? last)
        have beyond := List.of_mem_filter (List.mem_of_mem_take member)
        rw [same, savedCheckpoint_of_above beyond] at reached
        exact Or.inl ⟨event, rfl, reached⟩
      · exact Or.inr ⟨kept.trans same, Or.inr (List.mem_append_right _ failed)⟩

/-- One pass of the persisted runner is an advance, whatever it returns. -/
theorem runBatch_advance (reads : ReadsFeed ports feed) (keying : CheckpointKeying)
    (keeps : KeepsCheckpoint ports feed stored
      (checkpointKey keying ports.name ports.aggregateType))
    (config : ProjectionBatchConfig) (world : σ × List (Mark (EventEnvelope E Id))) :
    Advance sequenceOf (persistedSnapshot feed stored world)
      (persistedSnapshot feed stored (ports.recorded.runBatch keying config world).2) := by
  obtain ⟨world, marks⟩ := world
  have loadFeed := keeps.loadFeed world
  have load := keeps.load world
  have loaded := keeps.loaded world
  rw [runBatch, recorded_name, recorded_aggregateType, recorded_loadCheckpoint]
  generalize checkpointKey keying ports.name ports.aggregateType = key at *
  cases ran : ports.loadCheckpoint key world with
  | mk result next =>
    rw [ran] at loadFeed load loaded
    cases result with
    | error error => exact advance_idle loadFeed load rfl
    | ok checkpoint =>
      have readFeed := reads.read checkpoint config.batchSize next
      have read := keeps.read checkpoint config.batchSize next
      have sliced := reads.slice checkpoint config.batchSize next
      dsimp only
      rw [recorded_loadGlobalAfterLimited]
      cases handed : ports.loadGlobalAfterLimited checkpoint config.batchSize next with
      | mk result final =>
        rw [handed] at readFeed read sliced
        have grown := loadFeed.trans readFeed
        have same := read.trans load
        cases result with
        | error error => exact advance_idle grown same rfl
        | ok events =>
          have start := loaded checkpoint rfl
          rw [← load, ← read] at start
          rw [sliced events rfl, start]
          exact (runPersistedProjectionBatch_advance reads keeps config final marks
            config.batchSize).after_idle grown same rfl

/-- Whatever an in-memory batch returns, it has applied and then flushed. -/
theorem finishInMemoryProjectionBatch_runner (applied : Nat) (lastSequence : Option Nat)
    (failure : Option ProjectionError) (config : ProjectionBatchConfig)
    (runner : σ × Option Nat) :
    (ports.finishInMemoryProjectionBatch applied lastSequence failure config runner).2 =
      ((ports.flush runner.1).2,
        match (ports.flush runner.1).1 with
        | .ok () => lastSequence.or runner.2
        | .error _ => runner.2) := by
  rw [finishInMemoryProjectionBatch]
  rcases ports.flush runner.1 with ⟨_ | _, _⟩
  · rfl
  · cases failure <;> rfl

/-- One pass of the in-memory runner is an advance, whatever it returns. -/
theorem runInMemoryBatch_advance (reads : ReadsFeed ports feed) (config : ProjectionBatchConfig)
    (runner : (σ × List (Mark (EventEnvelope E Id))) × Option Nat) :
    Advance sequenceOf (inMemorySnapshot feed runner)
      (inMemorySnapshot feed (ports.recorded.runInMemoryBatch config runner).2) := by
  obtain ⟨⟨world, marks⟩, checkpoint⟩ := runner
  have readFeed := reads.read checkpoint config.batchSize world
  have sliced := reads.slice checkpoint config.batchSize world
  rw [runInMemoryBatch, recorded_loadGlobalAfterLimited]
  cases handed : ports.loadGlobalAfterLimited checkpoint config.batchSize world with
  | mk result next =>
    rw [handed] at readFeed sliced
    cases result with
    | error error => exact advance_idle readFeed rfl rfl
    | ok events =>
      obtain ⟨sequenced, kept⟩ := readSlice reads next checkpoint config.batchSize
      rw [← sliced events rfl] at sequenced kept
      obtain ⟨batch, tail, slice, traced, quiet, reported⟩ :=
        applyProjectionEvents_recorded ports events sequenced 0 none next marks
      have grown := applyProjectionEvents_feed reads.recorded events 0 none (next, marks)
      dsimp only
      rw [finishInMemoryProjectionBatch_runner, recorded_flush]
      generalize ports.recorded.applyProjectionEvents events 0 none (next, marks) = out at *
      have flushFeed := reads.flush out.2.1
      have whole := grown.trans flushFeed
      refine ⟨batch, tail ++ [durabilityMark (ports.flush out.2.1).1],
        readFeed.trans whole, kept batch slice _ whole, ?_, ?_, ?_⟩
      · simp only [inMemorySnapshot, traced, List.append_assoc]
      · rw [applied_append, quiet]
        cases (ports.flush out.2.1).1 <;> rfl
      · simp only [inMemorySnapshot]
        cases flushed : (ports.flush out.2.1).1 with
        | error error => exact Or.inr ⟨rfl, Or.inr (by simp)⟩
        | ok done =>
          cases last : batch.getLast? with
          | none =>
            rw [last] at reported
            rw [List.getLast?_eq_none_iff] at last
            exact Or.inr ⟨by simp [reported], Or.inl last⟩
          | some event =>
            rw [last] at reported
            exact Or.inl ⟨event, rfl, by simp [reported]⟩

end RunnerPorts

section Runs

variable {ρ Error : Type*}

/-- A change by others: it may append to the feed and touches nothing else. -/
structure Interference (snapshot : ρ → Snapshot (EventEnvelope E Id)) where
  change : ρ → ρ
  grown : ∀ runner, (snapshot runner).feed <+: (snapshot (change runner)).feed
  checkpoint : ∀ runner, (snapshot (change runner)).checkpoint = (snapshot runner).checkpoint
  traced : ∀ runner, (snapshot (change runner)).trace = (snapshot runner).trace

inductive RunnerAction (snapshot : ρ → Snapshot (EventEnvelope E Id)) where
  | runBatch (config : ProjectionBatchConfig)
  | run (fuel : Nat)
  | others (interference : Interference snapshot)

/-- A runner that starts without a checkpoint. A `run` that is still catching up when its
fuel ends leaves the state it has reached by then. -/
def projectionRunner (snapshot : ρ → Snapshot (EventEnvelope E Id))
    (runBatch : ProjectionBatchConfig → ρ → Except Error ProjectionBatchOutcome × ρ) :
    Machine ρ (RunnerAction snapshot) where
  start runner := (snapshot runner).checkpoint = none ∧ (snapshot runner).trace = []
  step runner
    | .runBatch config => some (runBatch config runner).2
    | .run fuel => some (runProjectionCatchUp runBatch fuel 0 none runner).2
    | .others interference => some (interference.change runner)

/-- What a runner guarantees after any run: the replay is sound, and every call leaves the
checkpoint at the last applied event unless it applied nothing or reported a failure. -/
def ExactlyOnceInOrder (snapshot : ρ → Snapshot (EventEnvelope E Id))
    (runBatch : ProjectionBatchConfig → ρ → Except Error ProjectionBatchOutcome × ρ) : Prop :=
  ∀ runner, (projectionRunner snapshot runBatch).Reachable runner →
    Sound sequenceOf (snapshot runner) ∧
      ∀ call next, (projectionRunner snapshot runBatch).step runner call = some next →
        Settled sequenceOf (snapshot runner) (snapshot next)

variable {snapshot : ρ → Snapshot (EventEnvelope E Id)}
  {runBatch : ProjectionBatchConfig → ρ → Except Error ProjectionBatchOutcome × ρ}

theorem projectionRunner_step (wellFormed : ∀ runner, WellFormedFeed (snapshot runner).feed)
    (advances : ∀ config runner,
      Advance sequenceOf (snapshot runner) (snapshot (runBatch config runner).2))
    {runner next : ρ} {call : RunnerAction snapshot}
    (stepped : (projectionRunner snapshot runBatch).step runner call = some next) :
    (Invariant sequenceOf (snapshot runner) → Invariant sequenceOf (snapshot next)) ∧
      Settled sequenceOf (snapshot runner) (snapshot next) := by
  have kept : ∀ first second, Advance sequenceOf (snapshot first) (snapshot second) →
      (Invariant sequenceOf (snapshot first) → Invariant sequenceOf (snapshot second)) ∧
        Settled sequenceOf (snapshot first) (snapshot second) := by
    intro first second advance
    refine ⟨?_, advance.settled⟩
    obtain ⟨batch, tail, pass⟩ := advance
    exact fun held => pass.invariant held (wellFormed second).increasing
  cases call with
  | runBatch config =>
    cases stepped
    exact kept _ _ (advances config runner)
  | run fuel =>
    cases stepped
    refine runProjectionCatchUp_induction (fun first second =>
      (Invariant sequenceOf (snapshot first) → Invariant sequenceOf (snapshot second)) ∧
        Settled sequenceOf (snapshot first) (snapshot second)) ?_ ?_ ?_ fuel 0 none runner
    · exact fun first => ⟨id, Settled.refl _⟩
    · exact fun _ _ _ one two => ⟨two.1 ∘ one.1, one.2.trans two.2⟩
    · exact fun config first => kept _ _ (advances config first)
  | others interference =>
    cases stepped
    exact kept _ _ (advance_idle (interference.grown runner) (interference.checkpoint runner)
      (interference.traced runner))

theorem exactlyOnceInOrder_of_advance
    (wellFormed : ∀ runner, WellFormedFeed (snapshot runner).feed)
    (advances : ∀ config runner,
      Advance sequenceOf (snapshot runner) (snapshot (runBatch config runner).2)) :
    ExactlyOnceInOrder snapshot runBatch := by
  intro runner reached
  have held : Invariant sequenceOf (snapshot runner) := by
    refine Machine.invariant (I := fun runner => Invariant sequenceOf (snapshot runner))
      ?_ ?_ reached
    · rintro first ⟨fresh, empty⟩
      have initial := initial_invariant sequenceOf (wellFormed first).increasing
      rw [← fresh, ← empty] at initial
      exact initial
    · intro first call second _ held stepped
      exact (projectionRunner_step wellFormed advances stepped).1 held
  exact ⟨held.toSound, fun call next stepped =>
    (projectionRunner_step wellFormed advances stepped).2⟩

end Runs

namespace RunnerPorts

/-- The in-memory and the persisted runner apply the feed in order, without a gap and,
while flushes and saves succeed, once. -/
theorem projectionRunner_exactlyOnceInOrder
    (ports : RunnerPorts σ E Id ProjectionError StoreError CheckpointError)
    (feed : σ → List (EventEnvelope E Id)) (reads : ReadsFeed ports feed) :
    ExactlyOnceInOrder (inMemorySnapshot feed) ports.recorded.runInMemoryBatch ∧
      ∀ keying stored,
        KeepsCheckpoint ports feed stored
          (checkpointKey keying ports.name ports.aggregateType) →
        ExactlyOnceInOrder (persistedSnapshot feed stored) (ports.recorded.runBatch keying) := by
  constructor
  · exact exactlyOnceInOrder_of_advance (fun runner => reads.wellFormed runner.1.1)
      (runInMemoryBatch_advance reads)
  · intro keying stored keeps
    exact exactlyOnceInOrder_of_advance (fun world => reads.wellFormed world.1)
      (runBatch_advance reads keying keeps)

/-- A feed of numbered events next to its checkpoint row. The projection takes every event. -/
def counting : RunnerPorts (Nat × Option Nat) Unit Unit Unit Unit Unit where
  name := "counter"
  aggregateType := "count"
  apply _ world := (.ok (), world)
  flush world := (.ok (), world)
  loadCheckpoint _ world := (.ok world.2, world)
  saveCheckpoint _ sequence world := (.ok (), world.1, savedCheckpoint world.2 sequence)
  loadGlobalAfterLimited checkpoint limit world :=
    (.ok (((countingFeed world.1).filter
      (fun event => above checkpoint (sequenceOf event))).take limit), world)
where
  countingFeed (length : Nat) : List (EventEnvelope Unit Unit) :=
    (List.range' 1 length).map
      (fun n => ⟨"", (), "count", n, some n, "counted", 1, (), .empty, 0⟩)

theorem counting_readsFeed :
    ReadsFeed counting (fun world => counting.countingFeed world.1) where
  wellFormed world := by
    constructor
    · intro event member
      obtain ⟨n, _, rfl⟩ := List.mem_map.mp member
      rfl
    · exact List.pairwise_map.mpr List.pairwise_lt_range'
  apply _ _ := List.prefix_rfl
  flush _ := List.prefix_rfl
  read _ _ _ := List.prefix_rfl
  slice _ _ _ _ handed := (Except.ok.inj handed).symm

theorem counting_keepsCheckpoint (key : String) :
    KeepsCheckpoint counting (fun world => counting.countingFeed world.1) Prod.snd key where
  apply _ _ := rfl
  flush _ := rfl
  read _ _ _ := rfl
  load _ := rfl
  loadFeed _ := List.prefix_rfl
  loaded _ _ handed := (Except.ok.inj handed).symm
  saveFeed _ _ := List.prefix_rfl
  saved _ _ _ := rfl
  unsaved _ _ _ failed := by cases failed

/-- A feed of one event, and a projection that takes and flushes it as often as it is told to. -/
def stumbling : RunnerPorts (List Bool × List Bool) Unit Unit Unit Unit Unit where
  name := "counter"
  aggregateType := "count"
  apply _ world := (if world.1.headD true then .ok () else .error (), world.1.tail, world.2)
  flush world := (if world.2.headD true then .ok () else .error (), world.1, world.2.tail)
  loadCheckpoint _ world := (.ok none, world)
  saveCheckpoint _ _ world := (.ok (), world)
  loadGlobalAfterLimited checkpoint limit world :=
    (.ok (((counting.countingFeed 1).filter
      (fun event => above checkpoint (sequenceOf event))).take limit), world)

theorem stumbling_readsFeed : ReadsFeed stumbling (fun _ => counting.countingFeed 1) where
  wellFormed _ := counting_readsFeed.wellFormed (1, none)
  apply _ _ := List.prefix_rfl
  flush _ := List.prefix_rfl
  read _ _ _ := List.prefix_rfl
  slice _ _ _ _ handed := (Except.ok.inj handed).symm

/-- The first call cannot flush the event, the second one cannot apply it again. -/
def unflushed : (List Bool × List Bool) × List (Mark (EventEnvelope Unit Unit)) :=
  (([true, false], [false]), [])

/-- One pass of the in-memory runner over the event. -/
def stumble (runner : ((List Bool × List Bool) × List (Mark (EventEnvelope Unit Unit))) × Option Nat) :
    ((List Bool × List Bool) × List (Mark (EventEnvelope Unit Unit))) × Option Nat :=
  (stumbling.recorded.runInMemoryBatch ⟨1, by decide⟩ runner).2

theorem stumble_reachable :
    (projectionRunner (inMemorySnapshot fun _ => counting.countingFeed 1)
      stumbling.recorded.runInMemoryBatch).Reachable (stumble (unflushed, none)) :=
  .step (a := .runBatch ⟨1, by decide⟩) (.start ⟨rfl, rfl⟩) rfl

/-- Two events of three applied and the second one saved by the persisted runner. The in-memory
one, which failed to flush an event and then to apply it again, is at the event once a call
applies and flushes it. -/
theorem projectionRunner_exactlyOnceInOrder_counting :
    (let ran := (counting.recorded.runBatch .aggregateScoped ⟨2, by decide⟩ ((3, none), [])).2
    ran.1.2 = some 2 ∧ (applied ran.2).length = 2 ∧
      Sound sequenceOf
        (persistedSnapshot (fun world => counting.countingFeed world.1) Prod.snd ran)) ∧
    let second := stumble (stumble (unflushed, none))
    second.2 = none ∧ (stumble second).2 = some 1 ∧ (applied (stumble second).1.2).length = 2 ∧
      Sound sequenceOf (inMemorySnapshot (fun _ => counting.countingFeed 1) second) ∧
      Settled sequenceOf (inMemorySnapshot (fun _ => counting.countingFeed 1) second)
        (inMemorySnapshot (fun _ => counting.countingFeed 1) (stumble second)) := by
  constructor
  · refine ⟨by decide, by decide, ?_⟩
    have guaranteed := (projectionRunner_exactlyOnceInOrder counting _ counting_readsFeed).2
      .aggregateScoped Prod.snd (counting_keepsCheckpoint _)
    exact (guaranteed _ (.step (a := .runBatch ⟨2, by decide⟩) (.start ⟨rfl, rfl⟩) rfl)).1
  · refine ⟨by decide, by decide, by decide, ?_⟩
    have guaranteed := (projectionRunner_exactlyOnceInOrder stumbling _ stumbling_readsFeed).1
    have twice := stumble_reachable.step (a := .runBatch ⟨1, by decide⟩) rfl
    exact ⟨(guaranteed _ twice).1, (guaranteed _ twice).2 (.runBatch ⟨1, by decide⟩) _ rfl⟩

/-- A call that applies nothing leaves the checkpoint where an earlier failure left it, although
it flushes: behind the last applied event. -/
theorem lateApply_behind :
    (let second := stumble (stumble (unflushed, none))
    second.1.2 = (stumble (unflushed, none)).1.2 ++ [.neutral, .neutral] ∧ second.2 = none ∧
      (applied second.1.2).getLast?.map sequenceOf = some 1) ∧
    ¬ ∀ (runner : ((List Bool × List Bool) × List (Mark (EventEnvelope Unit Unit))) × Option Nat)
        (config : ProjectionBatchConfig) (added : List (Mark (EventEnvelope Unit Unit))),
      (projectionRunner (inMemorySnapshot fun _ => counting.countingFeed 1)
        stumbling.recorded.runInMemoryBatch).Reachable runner →
      (stumbling.recorded.runInMemoryBatch config runner).2.1.2 = runner.1.2 ++ added →
      Mark.failure ∉ added →
      (stumbling.recorded.runInMemoryBatch config runner).2.2 =
        (applied (stumbling.recorded.runInMemoryBatch config runner).2.1.2).getLast?.map
          sequenceOf := by
  have trace : (stumble (stumble (unflushed, none))).1.2 =
      (stumble (unflushed, none)).1.2 ++ [.neutral, .neutral] := by decide
  refine ⟨⟨trace, by decide, by decide⟩, ?_⟩
  intro every
  have behind := every _ ⟨1, by decide⟩ _ stumble_reachable trace (by decide)
  revert behind
  decide

end RunnerPorts

end DddCqrsEs
