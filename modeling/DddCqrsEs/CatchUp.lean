import DddCqrsEs.Paging
import DddCqrsEs.ProjectionReplay
import Mathlib.Data.Set.Card

/- Catching up on a whole feed: the loop over bounded batches applies what one unbounded pass
would, and it ends on every store that cannot advance it for ever. -/
namespace DddCqrsEs

open Replay Paging

variable {σ E Id ProjectionError StoreError CheckpointError : Type*}

namespace RunnerPorts

variable (ports : RunnerPorts σ E Id ProjectionError StoreError CheckpointError)
  (feed : List (EventEnvelope E Id)) (stored : σ → Option Nat) (key : String)

/-- Ports over a fixed feed on which nothing fails: only a save moves the checkpoint. -/
structure ServesFeed : Prop where
  wellFormed : WellFormedFeed feed
  apply : ∀ event world, (ports.apply event world).1 = .ok () ∧
    stored (ports.apply event world).2 = stored world
  flush : ∀ world, (ports.flush world).1 = .ok () ∧ stored (ports.flush world).2 = stored world
  load : ∀ world, (ports.loadCheckpoint key world).1 = .ok (stored world) ∧
    stored (ports.loadCheckpoint key world).2 = stored world
  read : ∀ checkpoint limit world,
    (ports.loadGlobalAfterLimited checkpoint limit world).1 =
      .ok ((beyond sequenceOf feed checkpoint).take limit) ∧
    stored (ports.loadGlobalAfterLimited checkpoint limit world).2 = stored world
  save : ∀ sequence world, above (stored world) sequence = true →
    (ports.saveCheckpoint key sequence world).1 = .ok () ∧
    stored (ports.saveCheckpoint key sequence world).2 = some sequence

/-- What a call leaves behind: the events it applied and the checkpoint at the last one. -/
structure Replayed (events : List (EventEnvelope E Id))
    (before after : σ × List (Mark (EventEnvelope E Id))) : Prop where
  applied : applied after.2 = applied before.2 ++ events
  checkpoint : stored after.1 = (events.getLast?.map sequenceOf).or (stored before.1)

variable {ports feed stored key}

/-- The apply loop takes every event of a batch. -/
theorem ServesFeed.applyProjectionEvents (serves : ports.ServesFeed feed stored key)
    (events : List (EventEnvelope E Id))
    (sequenced : ∀ event ∈ events, event.sequence = some (sequenceOf event))
    (count : Nat) (lastSequence : Option Nat) (world : σ)
    (marks : List (Mark (EventEnvelope E Id))) :
    ∃ after : σ × List (Mark (EventEnvelope E Id)),
      ports.recorded.applyProjectionEvents events count lastSequence (world, marks) =
        ((count + events.length, (events.getLast?.map sequenceOf).or lastSequence, none), after) ∧
      Replay.applied after.2 = Replay.applied marks ++ events ∧
      stored after.1 = stored world := by
  induction events generalizing count lastSequence world marks with
  | nil => exact ⟨(world, marks), by simp [RunnerPorts.applyProjectionEvents], by simp, rfl⟩
  | cons event rest ih =>
    rw [List.forall_mem_cons] at sequenced
    obtain ⟨succeeded, kept⟩ := serves.apply event world
    rw [RunnerPorts.applyProjectionEvents, recorded_apply, succeeded]
    dsimp only
    obtain ⟨after, ran, traced, same⟩ := ih sequenced.2 (count + 1)
      (event.sequence.or lastSequence) (ports.apply event world).2
      (marks ++ [applyMark event (.ok () : Except ProjectionError Unit)])
    refine ⟨after, ?_, ?_, same.trans kept⟩
    · have counted : count + 1 + rest.length = count + (rest.length + 1) := by omega
      rw [ran, sequenced.1, List.length_cons, counted, List.getLast?_cons]
      cases rest.getLast? <;> rfl
    · rw [traced, applied_append]
      simp [Replay.applied, Mark.event?]

/-- Persisting saves the progress, if there is any. -/
theorem ServesFeed.persistProjectionCheckpoint (serves : ports.ServesFeed feed stored key)
    (lastSequence : Option Nat) (world : σ) (marks : List (Mark (EventEnvelope E Id)))
    (forward : ∀ sequence, lastSequence = some sequence →
      above (stored world) sequence = true) :
    ∃ after : σ × List (Mark (EventEnvelope E Id)),
      ports.recorded.persistProjectionCheckpoint key lastSequence (world, marks) =
        (.ok (), after) ∧
      Replay.applied after.2 = Replay.applied marks ∧
      stored after.1 = lastSequence.or (stored world) := by
  cases lastSequence with
  | none => exact ⟨(world, marks), rfl, rfl, rfl⟩
  | some sequence =>
    obtain ⟨flushed, kept⟩ := serves.flush world
    obtain ⟨saved, moved⟩ := serves.save sequence (ports.flush world).2
      (by rw [kept]; exact forward sequence rfl)
    rw [RunnerPorts.persistProjectionCheckpoint, recorded_flush, flushed]
    dsimp only
    rw [recorded_saveCheckpoint, saved]
    exact ⟨_, rfl, by simp [Replay.applied, Mark.event?], moved⟩

/-- One batch applies the first events after the checkpoint and moves the checkpoint to the
last of them. -/
theorem ServesFeed.runBatch (keying : CheckpointKeying)
    (serves : ports.ServesFeed feed stored (checkpointKey keying ports.name ports.aggregateType))
    (config : ProjectionBatchConfig) (before : σ × List (Mark (EventEnvelope E Id))) :
    ∃ after : σ × List (Mark (EventEnvelope E Id)),
      let page := (beyond sequenceOf feed (stored before.1)).take config.batchSize
      ports.recorded.runBatch keying config before =
        (.ok (projectionBatchOutcome page.length (page.getLast?.map sequenceOf) config), after) ∧
      Replayed stored page before after := by
  obtain ⟨world, marks⟩ := before
  obtain ⟨loaded, kept⟩ := serves.load world
  rw [RunnerPorts.runBatch, recorded_name, recorded_aggregateType, recorded_loadCheckpoint]
  generalize checkpointKey keying ports.name ports.aggregateType = key at *
  obtain ⟨handed, same⟩ :=
    serves.read (stored world) config.batchSize (ports.loadCheckpoint key world).2
  rw [loaded]
  dsimp only
  rw [recorded_loadGlobalAfterLimited, handed]
  dsimp only
  generalize paged : (beyond sequenceOf feed (stored world)).take config.batchSize = page at *
  have listed : ∀ event ∈ page, event ∈ beyond sequenceOf feed (stored world) := by
    intro event member
    rw [← paged] at member
    exact List.mem_of_mem_take member
  obtain ⟨after, ran, traced, still⟩ := serves.applyProjectionEvents page
    (fun event member => serves.wellFormed.sequenced event (mem_beyond.mp (listed event member)).1)
    0 none (ports.loadGlobalAfterLimited (stored world) config.batchSize
      (ports.loadCheckpoint key world).2).2 marks
  rw [same, kept] at still
  have forward : ∀ sequence, page.getLast?.map sequenceOf = some sequence →
      above (stored after.1) sequence = true := by
    intro sequence reported
    obtain ⟨last, ended, rfl⟩ := Option.map_eq_some_iff.mp reported
    rw [still]
    exact (mem_beyond.mp (listed last (List.mem_of_getLast? ended))).2
  obtain ⟨final, persisted, quiet, moved⟩ := serves.persistProjectionCheckpoint
    (page.getLast?.map sequenceOf) after.1 after.2 forward
  refine ⟨final, ?_, quiet.trans traced, ?_⟩
  · rw [runPersistedProjectionBatch, ran]
    dsimp only
    rw [Option.or_none, Nat.zero_add, persisted]
    rfl
  · rw [moved, still]

theorem Replayed.trans {first second : List (EventEnvelope E Id)}
    {before between after : σ × List (Mark (EventEnvelope E Id))}
    (one : Replayed stored first before between) (two : Replayed stored second between after) :
    Replayed stored (first ++ second) before after where
  applied := by rw [two.applied, one.applied, List.append_assoc]
  checkpoint := by rw [two.checkpoint, one.checkpoint, getLast?_append_or]

/-- The loop from any checkpoint that its position has not passed. -/
theorem ServesFeed.runProjectionCatchUp (keying : CheckpointKeying)
    (serves : ports.ServesFeed feed stored (checkpointKey keying ports.name ports.aggregateType))
    {fuel : Nat} (count : Nat) (position : Option Nat)
    (before : σ × List (Mark (EventEnvelope E Id)))
    (behind : ∀ sequence, above (stored before.1) sequence = true →
      above position sequence = true)
    (enough : (beyond sequenceOf feed (stored before.1)).length < fuel * defaultProjectionBatch) :
    ∃ after : σ × List (Mark (EventEnvelope E Id)),
      let events := beyond sequenceOf feed (stored before.1)
      runProjectionCatchUp (ports.recorded.runBatch keying) fuel count position before =
        (some (.ok (count + events.length)), after) ∧
      Replayed stored events before after := by
  induction fuel generalizing count position before with
  | zero => omega
  | succ fuel ih =>
    obtain ⟨between, ran, replayed⟩ := serves.runBatch keying .default before
    rw [DddCqrsEs.runProjectionCatchUp, ran]
    dsimp only
    have size : ProjectionBatchConfig.default.batchSize = defaultProjectionBatch := rfl
    rw [size] at ran replayed ⊢
    have positive : 0 < defaultProjectionBatch := by decide
    generalize listed : beyond sequenceOf feed (stored before.1) = events at *
    by_cases short : events.length < defaultProjectionBatch
    · have whole : events.take defaultProjectionBatch = events :=
        List.take_of_length_le (Nat.le_of_lt short)
      rw [whole] at replayed ⊢
      have ended : batchAdvanced (projectionBatchOutcome events.length
          (events.getLast?.map sequenceOf) .default) position = (false, position) := by
        simp [batchAdvanced, projectionBatchOutcome, size, short]
      rw [ended]
      exact ⟨between, rfl, replayed⟩
    · have full : defaultProjectionBatch ≤ events.length := Nat.le_of_not_lt short
      rw [← listed] at full
      obtain ⟨last, final, forward, rest⟩ :=
        full_page serves.wellFormed.increasing positive full
      rw [listed] at full final rest
      have length : (events.take defaultProjectionBatch).length = defaultProjectionBatch := by
        rw [List.length_take]
        omega
      have moved : stored between.1 = some (sequenceOf last) := by
        rw [replayed.checkpoint, final]
        rfl
      have advanced : batchAdvanced (projectionBatchOutcome
          (events.take defaultProjectionBatch).length
          ((events.take defaultProjectionBatch).getLast?.map sequenceOf) .default) position =
            (true, some (sequenceOf last)) := by
        have later : position.all (· < sequenceOf last) = true := behind _ forward
        rw [length, final]
        simp [batchAdvanced, projectionBatchOutcome, size, later]
      rw [advanced]
      dsimp only
      have remaining : beyond sequenceOf feed (stored between.1) =
          events.drop defaultProjectionBatch := by rw [moved, rest]
      have passed : ∀ sequence, above (stored between.1) sequence = true →
          above (some (sequenceOf last)) sequence = true := by
        rw [moved]
        exact fun _ later => later
      have fewer : (beyond sequenceOf feed (stored between.1)).length <
          fuel * defaultProjectionBatch := by
        rw [Nat.succ_mul] at enough
        rw [remaining, List.length_drop]
        omega
      obtain ⟨after, finished, following⟩ :=
        ih (count + (events.take defaultProjectionBatch).length) _ between passed fewer
      rw [remaining] at finished following
      have counted : count + (events.take defaultProjectionBatch).length +
          (events.drop defaultProjectionBatch).length = count + events.length := by
        rw [length, List.length_drop]
        omega
      refine ⟨after, ?_, ?_⟩
      · exact finished.trans (by rw [counted])
      · have joined := replayed.trans following
        rwa [List.take_append_drop] at joined

end RunnerPorts

section Advances

variable {ρ Error : Type*}

/-- The sequences a catch-up loop advances to, from a position and a runner. -/
inductive Advances
    (runBatch : ProjectionBatchConfig → ρ → Except Error ProjectionBatchOutcome × ρ) :
    Option Nat → ρ → Nat → Prop
  | next {position : Option Nat} {runner after : ρ} {outcome : ProjectionBatchOutcome}
      {sequence : Nat} : runBatch .default runner = (.ok outcome, after) →
      batchAdvanced outcome position = (true, some sequence) →
      Advances runBatch position runner sequence
  | later {position : Option Nat} {runner after : ρ} {outcome : ProjectionBatchOutcome}
      {reached sequence : Nat} : runBatch .default runner = (.ok outcome, after) →
      batchAdvanced outcome position = (true, some reached) →
      Advances runBatch (some reached) after sequence →
      Advances runBatch position runner sequence

variable (runBatch : ProjectionBatchConfig → ρ → Except Error ProjectionBatchOutcome × ρ)

def advancingSequences (position : Option Nat) (runner : ρ) : Set Nat :=
  {sequence | Advances runBatch position runner sequence}

variable {runBatch} {position : Option Nat} {runner : ρ} {outcome : ProjectionBatchOutcome}

/-- A batch that advances the loop gives it a greater position. -/
theorem batchAdvanced_true {next : Option Nat}
    (advanced : batchAdvanced outcome position = (true, next)) :
    ∃ sequence, next = some sequence ∧ above position sequence = true := by
  rw [batchAdvanced] at advanced
  by_cases caughtUp : outcome.caughtUp = true
  · rw [if_pos caughtUp] at advanced
    exact absurd (congrArg Prod.fst advanced) Bool.false_ne_true
  · rw [if_neg caughtUp] at advanced
    cases reported : outcome.lastSequence with
    | none =>
      rw [reported] at advanced
      exact absurd (congrArg Prod.fst advanced) Bool.false_ne_true
    | some sequence =>
      rw [reported] at advanced
      dsimp only at advanced
      by_cases later : position.all (· < sequence) = true
      · rw [if_pos later] at advanced
        exact ⟨sequence, (congrArg Prod.snd advanced).symm, later⟩
      · rw [if_neg later] at advanced
        exact absurd (congrArg Prod.fst advanced) Bool.false_ne_true

theorem Advances.above {sequence : Nat} (advances : Advances runBatch position runner sequence) :
    above position sequence = true := by
  induction advances with
  | next ran advanced =>
    obtain ⟨_, same, beyond⟩ := batchAdvanced_true advanced
    cases same
    exact beyond
  | later ran advanced _ ih =>
    obtain ⟨_, same, beyond⟩ := batchAdvanced_true advanced
    cases same
    rw [above_some, decide_eq_true_eq] at ih
    exact above_mono beyond (Nat.le_of_lt ih)

/-- The sequence just reached is not reached again. -/
theorem advancingSequences_fewer {after : ρ} {reached : Nat}
    (ran : runBatch .default runner = (.ok outcome, after))
    (advanced : batchAdvanced outcome position = (true, some reached))
    (finite : (advancingSequences runBatch position runner).Finite) :
    (advancingSequences runBatch (some reached) after).Finite ∧
      (advancingSequences runBatch (some reached) after).ncard <
        (advancingSequences runBatch position runner).ncard := by
  have kept : advancingSequences runBatch (some reached) after ⊆
      advancingSequences runBatch position runner :=
    fun sequence member => Advances.later ran advanced member
  have passed : reached ∉ advancingSequences runBatch (some reached) after := by
    intro again
    have strict := Advances.above again
    rw [above_some, decide_eq_true_eq] at strict
    omega
  refine ⟨finite.subset kept, Set.ncard_lt_ncard ?_ finite⟩
  exact (Set.ssubset_iff_of_subset kept).mpr ⟨reached, .next ran advanced, passed⟩

/-- One batch for each sequence the loop can advance to, and one more. -/
theorem runProjectionCatchUp_ends {fuel count : Nat}
    (finite : (advancingSequences runBatch position runner).Finite)
    (enough : (advancingSequences runBatch position runner).ncard < fuel) :
    (runProjectionCatchUp runBatch fuel count position runner).1.isSome = true := by
  induction fuel generalizing count position runner with
  | zero => omega
  | succ fuel ih =>
    rw [runProjectionCatchUp]
    cases ran : runBatch .default runner with
    | mk result after =>
      cases result with
      | error error => rfl
      | ok outcome =>
        dsimp only
        cases advanced : batchAdvanced outcome position with
        | mk goesOn next =>
          cases goesOn with
          | false => rfl
          | true =>
            obtain ⟨reached, rfl, _⟩ := batchAdvanced_true advanced
            obtain ⟨rest, fewer⟩ := advancingSequences_fewer ran advanced finite
            exact ih rest (by omega)

end Advances

namespace RunnerPorts

/-- Catching up is one unbounded pass over a feed on which nothing fails, and it ends on every
store with finitely many sequences to advance to. -/
theorem projectionCatchUp_exact
    (ports : RunnerPorts σ E Id ProjectionError StoreError CheckpointError)
    (keying : CheckpointKeying) :
    (∀ feed stored,
      ports.ServesFeed feed stored (checkpointKey keying ports.name ports.aggregateType) →
      ∀ before : σ × List (Mark (EventEnvelope E Id)),
        let events := beyond sequenceOf feed (stored before.1)
        (∀ fuel, events.length / defaultProjectionBatch < fuel → ∃ after,
          runProjectionCatchUp (ports.recorded.runBatch keying) fuel 0 none before =
            (some (.ok events.length), after) ∧ Replayed stored events before after) ∧
        ∀ config : ProjectionBatchConfig, events.length < config.batchSize → ∃ after,
          ports.recorded.runBatch keying config before =
            (.ok ⟨events.length, events.getLast?.map sequenceOf, true⟩, after) ∧
          Replayed stored events before after) ∧
    ∀ world, (advancingSequences (ports.runBatch keying) none world).Finite →
      ∃ passes, ∀ fuel, passes ≤ fuel →
        (runProjectionCatchUp (ports.runBatch keying) fuel 0 none world).1.isSome = true := by
  constructor
  · intro feed stored serves before events
    constructor
    · intro fuel enough
      have room : events.length < fuel * defaultProjectionBatch :=
        (Nat.div_lt_iff_lt_mul (by decide)).mp enough
      obtain ⟨after, ran, replayed⟩ := serves.runProjectionCatchUp keying 0 none before
        (fun _ _ => rfl) room
      rw [Nat.zero_add] at ran
      exact ⟨after, ran, replayed⟩
    · intro config room
      obtain ⟨after, ran, replayed⟩ := serves.runBatch keying config before
      have whole : events.take config.batchSize = events :=
        List.take_of_length_le (Nat.le_of_lt room)
      have caughtUp : projectionBatchOutcome events.length (events.getLast?.map sequenceOf) config =
          ⟨events.length, events.getLast?.map sequenceOf, true⟩ := by
        rw [projectionBatchOutcome, decide_eq_true room]
      rw [whole, caughtUp] at ran
      rw [whole] at replayed
      exact ⟨after, ran, replayed⟩
  · intro world finite
    refine ⟨(advancingSequences (ports.runBatch keying) none world).ncard + 1, ?_⟩
    intro fuel enough
    exact runProjectionCatchUp_ends finite (by omega)

/-- A fixed feed over a checkpoint row. -/
def tally (feed : List (EventEnvelope Unit Unit)) :
    RunnerPorts (Option Nat) Unit Unit Unit Unit Unit where
  name := "tally"
  aggregateType := "count"
  apply _ checkpoint := (.ok (), checkpoint)
  flush checkpoint := (.ok (), checkpoint)
  loadCheckpoint _ checkpoint := (.ok checkpoint, checkpoint)
  saveCheckpoint _ sequence _ := (.ok (), some sequence)
  loadGlobalAfterLimited checkpoint limit row :=
    (.ok ((beyond sequenceOf feed checkpoint).take limit), row)

theorem tally_servesFeed {feed : List (EventEnvelope Unit Unit)} (wellFormed : WellFormedFeed feed)
    (key : String) : (tally feed).ServesFeed feed id key where
  wellFormed := wellFormed
  apply _ _ := ⟨rfl, rfl⟩
  flush _ := ⟨rfl, rfl⟩
  load _ := ⟨rfl, rfl⟩
  read _ _ _ := ⟨rfl, rfl⟩
  save _ _ _ := ⟨rfl, rfl⟩

def unnumbered : EventEnvelope Unit Unit :=
  ⟨"", (), "count", 1, none, "counted", 1, (), .empty, 0⟩

/-- Events that carry no sequence are handed out again and again. -/
def unsequenced (size : Nat) : RunnerPorts (Option Nat) Unit Unit Unit Unit Unit :=
  tally (List.replicate size unnumbered)

theorem unsequenced_applyProjectionEvents (size batch count : Nat) (checkpoint : Option Nat) :
    (unsequenced size).applyProjectionEvents (List.replicate batch unnumbered) count none
      checkpoint = ((count + batch, none, none), checkpoint) := by
  induction batch generalizing count with
  | zero => rfl
  | succ batch ih =>
    have counted : count + 1 + batch = count + (batch + 1) := by omega
    exact (ih (count + 1)).trans (by rw [counted])

theorem unsequenced_runBatch (size : Nat) (config : ProjectionBatchConfig) :
    (unsequenced size).runBatch .projectionName config none =
      (.ok (projectionBatchOutcome (min config.batchSize size) none config), none) := by
  have handed : (unsequenced size).loadGlobalAfterLimited none config.batchSize none =
      (.ok (List.replicate (min config.batchSize size) unnumbered), none) := by
    show (Except.ok ((beyond sequenceOf (List.replicate size unnumbered) none).take _), _) = _
    have all : beyond sequenceOf (List.replicate size unnumbered) none =
        List.replicate size unnumbered := List.filter_eq_self.mpr (fun _ _ => rfl)
    rw [all, List.take_replicate]
  have loaded : ∀ key, (unsequenced size).loadCheckpoint key none = (.ok none, none) :=
    fun _ => rfl
  rw [runBatch, loaded]
  dsimp only
  rw [handed]
  dsimp only
  rw [runPersistedProjectionBatch, unsequenced_applyProjectionEvents, Nat.zero_add]
  rfl

/-- A feed of two whole batches, and a store that hands out the same events for ever. -/
theorem projectionCatchUp_exact_tally :
    (∃ after, runProjectionCatchUp ((tally (counting.countingFeed 1000)).recorded.runBatch
        .aggregateScoped) 3 0 none (none, []) = (some (.ok 1000), after) ∧
        after.1 = some 1000) ∧
      ∃ passes, ∀ fuel, passes ≤ fuel →
        (runProjectionCatchUp ((unsequenced 500).runBatch .projectionName) fuel 0 none
          none).1.isSome = true := by
  constructor
  · have all : beyond sequenceOf (counting.countingFeed 1000) none = counting.countingFeed 1000 :=
      List.filter_eq_self.mpr (fun _ _ => rfl)
    have length : (counting.countingFeed 1000).length = 1000 := by simp [counting.countingFeed]
    have last : (counting.countingFeed 1000).getLast?.map sequenceOf = some 1000 := by
      simp [counting.countingFeed, List.getLast?_range', sequenceOf]
    have exact := ((projectionCatchUp_exact (tally (counting.countingFeed 1000))
      .aggregateScoped).1 _ id (tally_servesFeed (counting_readsFeed.wellFormed (1000, none)) _)
        (none, [])).1 3
    dsimp only [id] at exact
    rw [all, length] at exact
    obtain ⟨after, ran, replayed⟩ := exact (by decide)
    exact ⟨after, ran, by simpa [last] using replayed.checkpoint⟩
  · apply (projectionCatchUp_exact (unsequenced 500) .projectionName).2
    apply Set.Finite.subset Set.finite_empty
    intro sequence advances
    have stays : ∀ outcome after, (unsequenced 500).runBatch .projectionName .default none =
        (.ok outcome, after) → batchAdvanced outcome none = (false, none) := by
      intro outcome after ran
      rw [unsequenced_runBatch] at ran
      cases ran
      rfl
    cases advances with
    | next ran advanced =>
      rw [stays _ _ ran] at advanced
      exact absurd (congrArg Prod.fst advanced) Bool.false_ne_true
    | later ran advanced _ =>
      rw [stays _ _ ran] at advanced
      exact absurd (congrArg Prod.fst advanced) Bool.false_ne_true

end RunnerPorts

end DddCqrsEs
