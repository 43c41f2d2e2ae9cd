import DddCqrsEs.CatchUp
import DddCqrsEs.Consumption

/- Runners of projections that own their checkpoint: the synchronous ones hand a batch to the
projection's hook, the asynchronous ones loop over its events in place. -/
namespace DddCqrsEs

open Transition Replay Paging Consumption

variable {σ E Id ProjectionError StoreError : Type*}

/-- What such a runner calls, against a world that other parties may change meanwhile. -/
structure OwnedPorts (σ E Id ProjectionError StoreError : Type*) where
  loadCheckpoint : σ → Except ProjectionError (Option Nat) × σ
  applyAndCheckpoint : EventEnvelope E Id → σ → Except ProjectionError Unit × σ
  loadGlobalAfterLimited : Option Nat → Nat → σ → Except StoreError (List (EventEnvelope E Id)) × σ

/-- Count a loaded batch and find the last sequence in feed order. -/
def projectionBatchStats (events : List (EventEnvelope E Id)) : Nat × Option Nat :=
  (events.length, events.reverse.findSome? (·.sequence))

namespace OwnedPorts

variable (ports : OwnedPorts σ E Id ProjectionError StoreError)

/-- The default batch hook. -/
def applyBatchAndCheckpoint : List (EventEnvelope E Id) → σ → Except ProjectionError Unit × σ
  | [], world => (.ok (), world)
  | event :: rest, world =>
    match ports.applyAndCheckpoint event world with
    | (.error error, world) => (.error error, world)
    | (.ok (), world) => applyBatchAndCheckpoint rest world

def runOwnedCheckpointProjectionBatch
    (applyBatch : List (EventEnvelope E Id) → σ → Except ProjectionError Unit × σ)
    (config : ProjectionBatchConfig) (world : σ) :
    Except (ProjectionRunnerError ProjectionError StoreError ProjectionError)
      ProjectionBatchOutcome × σ :=
  match ports.loadCheckpoint world with
  | (.error error, world) => (.error (.checkpoint error), world)
  | (.ok checkpoint, world) =>
    match ports.loadGlobalAfterLimited checkpoint config.batchSize world with
    | (.error error, world) => (.error (.store error), world)
    | (.ok events, world) =>
      match applyBatch events world with
      | (.error error, world) => (.error (.projection error), world)
      | (.ok (), world) =>
        let (applied, lastSequence) := projectionBatchStats events
        (.ok (projectionBatchOutcome applied lastSequence config), world)

/-- The loop of the asynchronous runners, from the counts so far. -/
def applyEvents (config : ProjectionBatchConfig) : List (EventEnvelope E Id) → Nat → Option Nat →
    σ → Except (ProjectionRunnerError ProjectionError StoreError ProjectionError)
      ProjectionBatchOutcome × σ
  | [], applied, lastSequence, world =>
    (.ok (projectionBatchOutcome applied lastSequence config), world)
  | event :: rest, applied, lastSequence, world =>
    match ports.applyAndCheckpoint event world with
    | (.error error, world) => (.error (.projection error), world)
    | (.ok (), world) =>
      applyEvents config rest (applied + 1) (event.sequence.or lastSequence) world

/-- `run_batch` of the asynchronous runners. -/
def runBatchAsync (config : ProjectionBatchConfig) (world : σ) :
    Except (ProjectionRunnerError ProjectionError StoreError ProjectionError)
      ProjectionBatchOutcome × σ :=
  match ports.loadCheckpoint world with
  | (.error error, world) => (.error (.checkpoint error), world)
  | (.ok checkpoint, world) =>
    match ports.loadGlobalAfterLimited checkpoint config.batchSize world with
    | (.error error, world) => (.error (.store error), world)
    | (.ok events, world) => ports.applyEvents config events 0 none world

/-- A pass whose process ends, or whose future is dropped, once `count` events were applied. -/
def interrupted (applyBatch : List (EventEnvelope E Id) → σ → Except ProjectionError Unit × σ)
    (config : ProjectionBatchConfig) (count : Nat) (world : σ) : σ :=
  (ports.runOwnedCheckpointProjectionBatch (fun events => applyBatch (events.take count))
    config world).2

theorem findSome?_reverse_cons (event : EventEnvelope E Id) (rest : List (EventEnvelope E Id))
    (lastSequence : Option Nat) :
    ((event :: rest).reverse.findSome? (·.sequence)).or lastSequence =
      (rest.reverse.findSome? (·.sequence)).or (event.sequence.or lastSequence) := by
  rw [List.reverse_cons, List.findSome?_append, Option.or_assoc]
  simp

theorem applyEvents_eq (config : ProjectionBatchConfig) (events : List (EventEnvelope E Id))
    (applied : Nat) (lastSequence : Option Nat) (world : σ) :
    ports.applyEvents config events applied lastSequence world =
      Prod.map (fun result => (result.mapError .projection).map fun _ =>
        projectionBatchOutcome (applied + events.length)
          ((events.reverse.findSome? (·.sequence)).or lastSequence) config) id
        (ports.applyBatchAndCheckpoint events world) := by
  induction events generalizing applied lastSequence world with
  | nil => rfl
  | cons event rest ih =>
    rw [applyEvents, applyBatchAndCheckpoint]
    cases ports.applyAndCheckpoint event world with
    | mk result after =>
      cases result with
      | error error => rfl
      | ok done =>
        have counted : applied + 1 + rest.length = applied + (event :: rest).length := by
          rw [List.length_cons]
          omega
        dsimp only
        rw [ih, counted, findSome?_reverse_cons]

/-- The loop in place and the default hook do the same, in the same order. -/
theorem runBatchAsync_eq : ports.runBatchAsync =
    ports.runOwnedCheckpointProjectionBatch ports.applyBatchAndCheckpoint := by
  funext config world
  rw [runBatchAsync, runOwnedCheckpointProjectionBatch]
  cases ports.loadCheckpoint world with
  | mk loaded world =>
    cases loaded with
    | error error => rfl
    | ok checkpoint =>
      dsimp only
      cases ports.loadGlobalAfterLimited checkpoint config.batchSize world with
      | mk handed world =>
        cases handed with
        | error error => rfl
        | ok events =>
          dsimp only
          rw [applyEvents_eq, Nat.zero_add, Option.or_none]
          cases ports.applyBatchAndCheckpoint events world with
          | mk applied world => cases applied <;> rfl

variable {ports} in
theorem runOwnedCheckpointProjectionBatch_ok
    {applyBatch : List (EventEnvelope E Id) → σ → Except ProjectionError Unit × σ}
    {config : ProjectionBatchConfig} {world first second third : σ} {checkpoint : Option Nat}
    {events : List (EventEnvelope E Id)} (loaded : ports.loadCheckpoint world =
      (.ok checkpoint, first))
    (handed : ports.loadGlobalAfterLimited checkpoint config.batchSize first = (.ok events, second))
    (applied : applyBatch events second = (.ok (), third)) :
    ports.runOwnedCheckpointProjectionBatch applyBatch config world =
      (.ok (projectionBatchOutcome (projectionBatchStats events).1 (projectionBatchStats events).2
        config), third) := by
  rw [runOwnedCheckpointProjectionBatch, loaded]
  dsimp only
  rw [handed]
  dsimp only
  rw [applied]

variable {ρ : Type*} (feed : σ → List (EventEnvelope E Id)) (consumer : σ → Consumer ρ)
  (project : ρ → EventEnvelope E Id → ρ)

/-- A batch hook commits a front part of its batch, in one transaction or in several, and all
of it when it succeeds. A failure tells nothing about what was committed. -/
def Commits (applyBatch : List (EventEnvelope E Id) → σ → Except ProjectionError Unit × σ) :
    Prop :=
  ∀ events world, feed world <+: feed (applyBatch events world).2 ∧
    (∃ done, done <+: events ∧
      consumer (applyBatch events world).2 =
        (consumer world).takeAll sequenceOf project done) ∧
    ((applyBatch events world).1 = .ok () →
      consumer (applyBatch events world).2 =
        (consumer world).takeAll sequenceOf project events)

/-- The read model and its checkpoint move in one transaction, and the store hands out what
lies beyond a checkpoint. Others may append meanwhile. -/
structure Transactional : Prop where
  wellFormed : ∀ world, WellFormedFeed (feed world)
  load : ∀ world, feed world <+: feed (ports.loadCheckpoint world).2 ∧
    consumer (ports.loadCheckpoint world).2 = consumer world ∧
    ∀ checkpoint, (ports.loadCheckpoint world).1 = .ok checkpoint →
      checkpoint = (consumer world).checkpoint
  apply : ∀ event world, feed world <+: feed (ports.applyAndCheckpoint event world).2 ∧
    (consumer (ports.applyAndCheckpoint event world).2 =
        (consumer world).take sequenceOf project event ∨
      (consumer (ports.applyAndCheckpoint event world).2 = consumer world ∧
        (ports.applyAndCheckpoint event world).1 ≠ .ok ()))
  read : ∀ checkpoint limit world,
    feed world <+: feed (ports.loadGlobalAfterLimited checkpoint limit world).2 ∧
    consumer (ports.loadGlobalAfterLimited checkpoint limit world).2 = consumer world ∧
    ∀ events, (ports.loadGlobalAfterLimited checkpoint limit world).1 = .ok events →
      events = (beyond sequenceOf
        (feed (ports.loadGlobalAfterLimited checkpoint limit world).2) checkpoint).take limit

variable {ports feed consumer project}

theorem Transactional.commits (transactional : ports.Transactional feed consumer project) :
    Commits feed consumer project ports.applyBatchAndCheckpoint := by
  intro events world
  induction events generalizing world with
  | nil => exact ⟨List.prefix_rfl, ⟨[], List.prefix_rfl, rfl⟩, fun _ => rfl⟩
  | cons event rest ih =>
    have one := transactional.apply event world
    rw [applyBatchAndCheckpoint]
    cases applied : ports.applyAndCheckpoint event world with
    | mk result after =>
      rw [applied] at one
      cases result with
      | error error =>
        refine ⟨one.1, ?_, fun succeeded => nomatch succeeded⟩
        cases one.2 with
        | inl taken => exact ⟨[event], by simp, taken⟩
        | inr kept => exact ⟨[], List.nil_prefix, kept.1⟩
      | ok done =>
        have taken : consumer after = (consumer world).take sequenceOf project event :=
          one.2.resolve_right fun kept => kept.2 rfl
        obtain ⟨grown, ⟨front, isFront, reached⟩, whole⟩ := ih after
        rw [taken] at reached whole
        refine ⟨one.1.trans grown, ⟨event :: front, ?_, reached⟩, whole⟩
        exact List.cons_prefix_cons.mpr ⟨rfl, isFront⟩

variable {applyBatch : List (EventEnvelope E Id) → σ → Except ProjectionError Unit × σ}
  {before after : σ}
  {runBatch : ProjectionBatchConfig → σ →
    Except (ProjectionRunnerError ProjectionError StoreError ProjectionError)
      ProjectionBatchOutcome × σ}

/-- A hook that is stopped early still commits a front part. -/
theorem Commits.stopped (commits : Commits feed consumer project applyBatch) (count : Nat)
    (events : List (EventEnvelope E Id)) (world : σ) :
    feed world <+: feed (applyBatch (events.take count) world).2 ∧
      ∃ done, done <+: events ∧ consumer (applyBatch (events.take count) world).2 =
        (consumer world).takeAll sequenceOf project done := by
  obtain ⟨grown, ⟨done, front, reached⟩, _⟩ := commits (events.take count) world
  exact ⟨grown, done, front.trans (List.take_prefix _ _), reached⟩

variable (feed consumer project) in
/-- The feed may have grown, and the consumer took in the next events of it. -/
def Moved (before after : σ) : Prop :=
  feed before <+: feed after ∧
    ∃ done, done <+: beyond sequenceOf (feed after) (consumer before).checkpoint ∧
      consumer after = (consumer before).takeAll sequenceOf project done

variable (feed consumer project) in
/-- A pass that succeeds took in one page of the feed as it was at some time of the pass. -/
structure TookPage (config : ProjectionBatchConfig) (before after : σ)
    (outcome : ProjectionBatchOutcome) (known page : List (EventEnvelope E Id)) : Prop where
  started : feed before <+: known
  ended : known <+: feed after
  paged : page = (beyond sequenceOf known (consumer before).checkpoint).take config.batchSize
  took : consumer after = (consumer before).takeAll sequenceOf project page
  outcome : outcome = projectionBatchOutcome page.length (page.getLast?.map sequenceOf) config

variable (feed consumer project) in
def Passes (runBatch : ProjectionBatchConfig → σ →
    Except (ProjectionRunnerError ProjectionError StoreError ProjectionError)
      ProjectionBatchOutcome × σ) : Prop :=
  ∀ config world, Moved feed consumer project world (runBatch config world).2 ∧
    ∀ outcome, (runBatch config world).1 = .ok outcome → ∃ known page,
      TookPage feed consumer project config world (runBatch config world).2 outcome known page

theorem isFront_beyond {known later : List (EventEnvelope E Id)} (checkpoint : Option Nat)
    (grown : known <+: later) :
    beyond sequenceOf known checkpoint <+: beyond sequenceOf later checkpoint :=
  grown.filter _

theorem Moved.still (grown : feed before <+: feed after) (kept : consumer after = consumer before) :
    Moved feed consumer project before after :=
  ⟨grown, [], List.nil_prefix, kept⟩

theorem Moved.trans (wellFormed : ∀ world, WellFormedFeed (feed world)) {between : σ}
    (one : Moved feed consumer project before between)
    (two : Moved feed consumer project between after) :
    Moved feed consumer project before after := by
  obtain ⟨grown, done, front, reached⟩ := one
  obtain ⟨again, next, following, ended⟩ := two
  have known : done <+: beyond sequenceOf (feed after) (consumer before).checkpoint :=
    front.trans (isFront_beyond _ again)
  rw [reached, beyond_takeAll (wellFormed after).increasing known] at following
  rw [reached, ← takeAll_append] at ended
  refine ⟨grown.trans again, done ++ next, ?_, ended⟩
  obtain ⟨rest, split⟩ := known
  rw [← split, List.drop_left] at following
  rw [← split]
  exact (List.prefix_append_right_inj done).mpr following

theorem Moved.exact {start : ρ} (wellFormed : ∀ world, WellFormedFeed (feed world))
    (moved : Moved feed consumer project before after)
    (exact : Exact sequenceOf project start (feed before) (consumer before)) :
    Exact sequenceOf project start (feed after) (consumer after) := by
  obtain ⟨grown, done, next, reached⟩ := moved
  rw [reached]
  exact (exact.grown grown).takeAll (wellFormed after).increasing next

theorem projectionBatchStats_eq {events : List (EventEnvelope E Id)}
    (sequenced : ∀ event ∈ events, event.sequence = some (sequenceOf event)) :
    projectionBatchStats events = (events.length, events.getLast?.map sequenceOf) := by
  rw [projectionBatchStats]
  cases List.eq_nil_or_concat events with
  | inl nothing => simp [nothing]
  | inr some_event =>
    obtain ⟨front, last, rfl⟩ := some_event
    simp [sequenced last (by simp)]

theorem Transactional.moved (transactional : ports.Transactional feed consumer project)
    (front : ∀ events world, feed world <+: feed (applyBatch events world).2 ∧
      ∃ done, done <+: events ∧ consumer (applyBatch events world).2 =
        (consumer world).takeAll sequenceOf project done) (config : ProjectionBatchConfig)
    (world : σ) :
    Moved feed consumer project world
      (ports.runOwnedCheckpointProjectionBatch applyBatch config world).2 := by
  have load := transactional.load world
  rw [runOwnedCheckpointProjectionBatch]
  cases loaded : ports.loadCheckpoint world with
  | mk result first =>
    rw [loaded] at load
    obtain ⟨grown, kept, checked⟩ := load
    cases result with
    | error error => exact Moved.still grown kept
    | ok checkpoint =>
      have read := transactional.read checkpoint config.batchSize first
      dsimp only
      cases handed : ports.loadGlobalAfterLimited checkpoint config.batchSize first with
      | mk result second =>
        rw [handed] at read
        obtain ⟨again, same, slice⟩ := read
        have still : Moved feed consumer project world second :=
          Moved.still (grown.trans again) (same.trans kept)
        cases result with
        | error error => exact still
        | ok events =>
          obtain ⟨later, done, isFront, reached⟩ := front events second
          have page := slice events rfl
          rw [checked checkpoint rfl, ← same.trans kept] at page
          have next : done <+: beyond sequenceOf (feed (applyBatch events second).2)
              (consumer second).checkpoint := by
            apply (isFront.trans _).trans (isFront_beyond _ later)
            rw [page]
            exact List.take_prefix _ _
          have moved : Moved feed consumer project world (applyBatch events second).2 :=
            Moved.trans transactional.wellFormed still ⟨later, done, next, reached⟩
          dsimp only
          cases applied : applyBatch events second with
          | mk result third =>
            rw [applied] at moved
            cases result <;> exact moved

theorem Transactional.tookPage (transactional : ports.Transactional feed consumer project)
    (commits : Commits feed consumer project applyBatch) (config : ProjectionBatchConfig)
    (world : σ) (outcome : ProjectionBatchOutcome)
    (succeeded : (ports.runOwnedCheckpointProjectionBatch applyBatch config world).1 =
      .ok outcome) :
    ∃ known page, TookPage feed consumer project config world
      (ports.runOwnedCheckpointProjectionBatch applyBatch config world).2 outcome known page := by
  have load := transactional.load world
  rw [runOwnedCheckpointProjectionBatch] at succeeded ⊢
  cases loaded : ports.loadCheckpoint world with
  | mk result first =>
    rw [loaded] at load succeeded
    obtain ⟨grown, kept, checked⟩ := load
    cases result with
    | error error => cases succeeded
    | ok checkpoint =>
      have read := transactional.read checkpoint config.batchSize first
      dsimp only at succeeded ⊢
      cases handed : ports.loadGlobalAfterLimited checkpoint config.batchSize first with
      | mk result second =>
        rw [handed] at read succeeded
        obtain ⟨again, same, slice⟩ := read
        cases result with
        | error error => cases succeeded
        | ok events =>
          have page := slice events rfl
          have before := same.trans kept
          rw [checked checkpoint rfl] at page
          obtain ⟨later, _, whole⟩ := commits events second
          dsimp only at succeeded ⊢
          cases applied : applyBatch events second with
          | mk result third =>
            rw [applied] at later whole succeeded
            cases result with
            | error error => cases succeeded
            | ok done =>
              have sequenced : ∀ event ∈ events,
                  event.sequence = some (sequenceOf event) := by
                intro event member
                rw [page] at member
                have listed := mem_beyond.mp (List.mem_of_mem_take member)
                exact (transactional.wellFormed second).sequenced event listed.1
              dsimp only at succeeded
              rw [projectionBatchStats_eq sequenced] at succeeded
              have taken := whole rfl
              rw [before] at taken
              exact ⟨feed second, events, grown.trans again, later, page, taken,
                (Except.ok.inj succeeded).symm⟩

theorem Transactional.passes (transactional : ports.Transactional feed consumer project)
    (commits : Commits feed consumer project applyBatch) :
    Passes feed consumer project (ports.runOwnedCheckpointProjectionBatch applyBatch) := by
  intro config world
  exact ⟨transactional.moved (fun events world => ⟨(commits events world).1,
    (commits events world).2.1⟩) config world, transactional.tookPage commits config world⟩

/-- A whole catch-up that returns has taken in all that the feed held at some time of its last
pass, and it reports how many events these were. -/
theorem Passes.catchUp_ok (wellFormed : ∀ world, WellFormedFeed (feed world))
    (passes : Passes feed consumer project runBatch) (fuel count : Nat) (position : Option Nat)
    (world : σ) (total : Nat)
    (behind : ∀ sequence, above (consumer world).checkpoint sequence = true →
      above position sequence = true)
    (returned : (runProjectionCatchUp runBatch fuel count position world).1 = some (.ok total)) :
    ∃ known, feed world <+: known ∧
      known <+: feed (runProjectionCatchUp runBatch fuel count position world).2 ∧
      consumer (runProjectionCatchUp runBatch fuel count position world).2 =
        (consumer world).takeAll sequenceOf project
          (beyond sequenceOf known (consumer world).checkpoint) ∧
      total = count + (beyond sequenceOf known (consumer world).checkpoint).length := by
  induction fuel generalizing count position world with
  | zero => cases returned
  | succ fuel ih =>
    have pass := (passes .default world).2
    rw [runProjectionCatchUp] at returned ⊢
    cases ran : runBatch .default world with
    | mk result between =>
      rw [ran] at pass returned
      cases result with
      | error error => cases returned
      | ok outcome =>
        obtain ⟨known, page, tookPage⟩ := pass outcome rfl
        obtain ⟨started, ended, paged, took, told⟩ := tookPage
        have size : ProjectionBatchConfig.default.batchSize = defaultProjectionBatch := rfl
        have increasing : Increasing sequenceOf known :=
          (wellFormed between).increasing.sublist ended.sublist
        rw [size] at paged
        dsimp only at returned ⊢
        by_cases short : page.length < defaultProjectionBatch
        · have caughtUp : batchAdvanced outcome position = (false, position) := by
            simp [told, batchAdvanced, projectionBatchOutcome, size, short]
          have whole : page = beyond sequenceOf known (consumer world).checkpoint := by
            rw [paged, List.length_take] at short
            rw [paged]
            apply List.take_of_length_le
            omega
          rw [caughtUp] at returned ⊢
          cases returned
          rw [whole] at took told
          refine ⟨known, started, ended, took, ?_⟩
          rw [told]
          rfl
        · have full : defaultProjectionBatch ≤
              (beyond sequenceOf known (consumer world).checkpoint).length := by
            rw [paged, List.length_take] at short
            omega
          have length : page.length = defaultProjectionBatch := by
            rw [paged, List.length_take]
            omega
          obtain ⟨last, final, forward, _⟩ := full_page increasing (by decide) full
          rw [← paged] at final
          have advanced : batchAdvanced outcome position =
              (true, some (sequenceOf last)) := by
            have later : position.all (· < sequenceOf last) = true := behind _ forward
            simp [told, final, length, batchAdvanced, projectionBatchOutcome, size, later]
          have reached : (consumer between).checkpoint = some (sequenceOf last) := by
            rw [took, takeAll_checkpoint, final]
            rfl
          rw [advanced] at returned ⊢
          dsimp only at returned ⊢
          obtain ⟨later, grown, finished, taken, counted⟩ := ih _ _ between
            (by rw [reached]; exact fun _ beyond => beyond) returned
          have onward : page <+: beyond sequenceOf later (consumer world).checkpoint := by
            rw [paged]
            exact (List.take_prefix _ _).trans (isFront_beyond _ (ended.trans grown))
          have ordered : Increasing sequenceOf later :=
            (wellFormed _).increasing.sublist finished.sublist
          obtain ⟨rest, split⟩ := onward
          have remaining : beyond sequenceOf later (consumer between).checkpoint = rest := by
            rw [took, beyond_takeAll ordered ⟨rest, split⟩, ← split, List.drop_left]
          rw [remaining] at taken counted
          refine ⟨later, started.trans (ended.trans grown), finished, ?_, ?_⟩
          · rw [taken, took, ← takeAll_append, split]
          · rw [counted, ← split, List.length_append]
            simp only [told, projectionBatchOutcome]
            omega

/-- As long as its passes find the feed within a bound, a catch-up ends. -/
theorem Passes.catchUp_ends {start : ρ} {bound : Nat}
    (wellFormed : ∀ world, WellFormedFeed (feed world))
    (passes : Passes feed consumer project runBatch) (fuel count : Nat) (position : Option Nat)
    (world : σ) (bounded : ∀ done ≤ fuel,
      (feed ((fun world => (runBatch .default world).2)^[done] world)).length ≤ bound)
    (taken : List (EventEnvelope E Id)) (front : taken <+: feed world)
    (held : consumer world = built sequenceOf project start taken)
    (enough : bound < taken.length + fuel * defaultProjectionBatch) :
    (runProjectionCatchUp runBatch fuel count position world).1.isSome = true := by
  induction fuel generalizing count position world taken with
  | zero =>
    have fits := front.length_le
    have whole : (feed world).length ≤ bound := bounded 0 (Nat.le_refl 0)
    omega
  | succ fuel ih =>
    have pass := (passes .default world).2
    have later : ∀ done ≤ fuel, (feed ((fun world => (runBatch .default world).2)^[done]
        (runBatch .default world).2)).length ≤ bound :=
      fun done within => bounded (done + 1) (Nat.succ_le_succ within)
    rw [runProjectionCatchUp]
    cases ran : runBatch .default world with
    | mk result between =>
      rw [ran] at pass later
      cases result with
      | error error => rfl
      | ok outcome =>
        obtain ⟨known, page, tookPage⟩ := pass outcome rfl
        obtain ⟨started, ended, paged, took, told⟩ := tookPage
        dsimp only
        cases going : batchAdvanced outcome position with
        | mk advanced reached =>
          cases advanced with
          | false => rfl
          | true =>
            have size : page.length = defaultProjectionBatch := by
              have most : page.length ≤ defaultProjectionBatch := by
                rw [paged]
                exact List.length_take_le _ _
              by_cases short : page.length < defaultProjectionBatch
              · have caughtUp : outcome.caughtUp = true := by
                  rw [told]
                  exact decide_eq_true short
                rw [batchAdvanced, if_pos caughtUp] at going
                cases going
              · omega
            obtain ⟨rest, same⟩ := front.trans started
            have increasing : Increasing sequenceOf (taken ++ rest) := by
              rw [same]
              exact (wellFormed between).increasing.sublist ended.sublist
            rw [← same, held, beyond_built increasing] at paged
            apply ih _ _ between later (taken ++ page)
            · apply List.IsPrefix.trans _ ended
              rw [← same, paged]
              exact (List.prefix_append_right_inj taken).mpr (List.take_prefix _ _)
            · rw [took, held, built_append]
            · rw [List.length_append, size]
              rw [Nat.succ_mul] at enough
              omega

end OwnedPorts

/-- A change by others: it may append to the feed and leaves the read model alone. -/
structure Appending {ρ : Type*} (feed : σ → List (EventEnvelope E Id))
    (consumer : σ → Consumer ρ) where
  change : σ → σ
  grown : ∀ world, feed world <+: feed (change world)
  kept : ∀ world, consumer (change world) = consumer world

variable {ρ : Type*}

inductive OwnedAction (feed : σ → List (EventEnvelope E Id)) (consumer : σ → Consumer ρ) where
  | runBatch (config : ProjectionBatchConfig)
  | run (fuel : Nat)
  | interrupted (config : ProjectionBatchConfig) (count : Nat)
  | runBatchAsync (config : ProjectionBatchConfig)
  | runAsync (fuel : Nat)
  | interruptedAsync (config : ProjectionBatchConfig) (count : Nat)
  | others (appending : Appending feed consumer)

/-- The synchronous runner with a batch hook and the asynchronous one, over one projection that
starts empty. -/
def ownedRunners (ports : OwnedPorts σ E Id ProjectionError StoreError)
    (applyBatch : List (EventEnvelope E Id) → σ → Except ProjectionError Unit × σ)
    (feed : σ → List (EventEnvelope E Id)) (consumer : σ → Consumer ρ) (start : ρ) :
    Machine σ (OwnedAction feed consumer) where
  start world := consumer world = ⟨start, none⟩
  step world
    | .runBatch config => some (ports.runOwnedCheckpointProjectionBatch applyBatch config world).2
    | .run fuel => some (runProjectionCatchUp
        (ports.runOwnedCheckpointProjectionBatch applyBatch) fuel 0 none world).2
    | .interrupted config count => some (ports.interrupted applyBatch config count world)
    | .runBatchAsync config => some (ports.runBatchAsync config world).2
    | .runAsync fuel => some (runProjectionCatchUp ports.runBatchAsync fuel 0 none world).2
    | .interruptedAsync config count =>
      some (ports.interrupted ports.applyBatchAndCheckpoint config count world)
    | .others appending => some (appending.change world)

namespace OwnedPorts

variable {ports : OwnedPorts σ E Id ProjectionError StoreError}
  {applyBatch : List (EventEnvelope E Id) → σ → Except ProjectionError Unit × σ}
  {feed : σ → List (EventEnvelope E Id)} {consumer : σ → Consumer ρ}
  {project : ρ → EventEnvelope E Id → ρ} {start : ρ}
  {runBatch : ProjectionBatchConfig → σ →
  Except (ProjectionRunnerError ProjectionError StoreError ProjectionError)
    ProjectionBatchOutcome × σ}

theorem Passes.catchUp_moved (wellFormed : ∀ world, WellFormedFeed (feed world))
    (passes : Passes feed consumer project runBatch) (fuel : Nat) (world : σ) :
    Moved feed consumer project world (runProjectionCatchUp runBatch fuel 0 none world).2 :=
  runProjectionCatchUp_induction (Moved feed consumer project)
    (fun _ => Moved.still List.prefix_rfl rfl) (fun _ _ _ => Moved.trans wellFormed)
    (fun config world => (passes config world).1) fuel 0 none world

theorem Transactional.passesAsync (transactional : ports.Transactional feed consumer project) :
    Passes feed consumer project ports.runBatchAsync := by
  rw [runBatchAsync_eq]
  exact transactional.passes transactional.commits

theorem Transactional.step (transactional : ports.Transactional feed consumer project)
    (commits : Commits feed consumer project applyBatch) {world next : σ}
    {action : OwnedAction feed consumer}
    (stepped : (ownedRunners ports applyBatch feed consumer start).step world action = some next) :
    Moved feed consumer project world next := by
  cases action with
  | runBatch config =>
    cases stepped
    exact (transactional.passes commits config world).1
  | run fuel =>
    cases stepped
    exact Passes.catchUp_moved transactional.wellFormed (transactional.passes commits) fuel world
  | interrupted config count =>
    cases stepped
    exact transactional.moved (commits.stopped count) config world
  | runBatchAsync config =>
    cases stepped
    exact (transactional.passesAsync config world).1
  | runAsync fuel =>
    cases stepped
    exact Passes.catchUp_moved transactional.wellFormed transactional.passesAsync fuel world
  | interruptedAsync config count =>
    cases stepped
    exact transactional.moved (transactional.commits.stopped count) config world
  | others appending =>
    cases stepped
    exact Moved.still (appending.grown world) (appending.kept world)

theorem Transactional.reachable_exact
    (transactional : ports.Transactional feed consumer project)
    (commits : Commits feed consumer project applyBatch) {world : σ}
    (reached : (ownedRunners ports applyBatch feed consumer start).Reachable world) :
    Exact sequenceOf project start (feed world) (consumer world) := by
  refine Machine.invariant
    (I := fun world => Exact sequenceOf project start (feed world) (consumer world)) ?_ ?_ reached
  · intro first begun
    rw [show consumer first = ⟨start, none⟩ from begun]
    exact exact_start
  · intro first action second _ held stepped
    exact (transactional.step commits stepped).exact transactional.wellFormed held

/-- The two runners. -/
def runners (ports : OwnedPorts σ E Id ProjectionError StoreError)
    (applyBatch : List (EventEnvelope E Id) → σ → Except ProjectionError Unit × σ) :
    List (ProjectionBatchConfig → σ →
      Except (ProjectionRunnerError ProjectionError StoreError ProjectionError)
        ProjectionBatchOutcome × σ) :=
  [ports.runOwnedCheckpointProjectionBatch applyBatch, ports.runBatchAsync]

theorem Transactional.runner_passes (transactional : ports.Transactional feed consumer project)
    (commits : Commits feed consumer project applyBatch)
    (runner : runBatch ∈ ports.runners applyBatch) : Passes feed consumer project runBatch := by
  simp only [runners, List.mem_cons, List.not_mem_nil, or_false] at runner
  cases runner with
  | inl sync => exact sync ▸ transactional.passes commits
  | inr async => exact async ▸ transactional.passesAsync

/-- A projection that moves its model and its checkpoint in one transaction holds, at any time
of any run, what a front part of the feed makes of it, each event once and in order. Passes may
fail, answers may be lost and processes may end anywhere. A pass that succeeds took the next
events in, and it reports them. -/
theorem ownedCheckpoints_exact (ports : OwnedPorts σ E Id ProjectionError StoreError)
    (applyBatch : List (EventEnvelope E Id) → σ → Except ProjectionError Unit × σ)
    (feed : σ → List (EventEnvelope E Id)) (consumer : σ → Consumer ρ)
    (project : ρ → EventEnvelope E Id → ρ) (start : ρ)
    (transactional : ports.Transactional feed consumer project)
    (commits : Commits feed consumer project applyBatch) (world : σ)
    (reached : (ownedRunners ports applyBatch feed consumer start).Reachable world) :
    ∃ taken, taken <+: feed world ∧
      consumer world = ⟨taken.foldl project start, taken.getLast?.map sequenceOf⟩ ∧
      ∀ runBatch ∈ ports.runners applyBatch, ∀ config outcome after,
        runBatch config world = (.ok outcome, after) →
        ∃ page, taken ++ page <+: feed after ∧
          consumer after =
            ⟨(taken ++ page).foldl project start, (taken ++ page).getLast?.map sequenceOf⟩ ∧
          outcome = ⟨page.length, page.getLast?.map sequenceOf, page.length < config.batchSize⟩ ∧
          page.length ≤ config.batchSize ∧
          (page.length < config.batchSize → feed world <+: taken ++ page) := by
  obtain ⟨taken, front, held⟩ := transactional.reachable_exact commits reached
  refine ⟨taken, front, held.trans (built_eq taken), ?_⟩
  intro runBatch runner config outcome after ran
  have pass := (transactional.runner_passes commits runner config world).2 outcome
  rw [ran] at pass
  obtain ⟨known, page, tookPage⟩ := pass rfl
  obtain ⟨started, ended, paged, took, told⟩ := tookPage
  obtain ⟨rest, split⟩ := front.trans started
  have increasing : Increasing sequenceOf (taken ++ rest) := by
    rw [split]
    exact (transactional.wellFormed after).increasing.sublist ended.sublist
  rw [← split, held, beyond_built increasing] at paged
  have inside : taken ++ page <+: known := by
    rw [← split, paged]
    exact (List.prefix_append_right_inj taken).mpr (List.take_prefix _ _)
  refine ⟨page, inside.trans ended, ?_, told, ?_, ?_⟩
  · rw [took, held, ← built_append, built_eq]
  · rw [paged]
    exact List.length_take_le _ _
  · intro short
    rw [paged, List.length_take] at short
    have whole : page = rest := by
      rw [paged]
      apply List.take_of_length_le
      omega
    rw [whole, split]
    exact started

/-- A `run` that returns left the projection built from all that the feed held at some time of
the run, and it counts the events that were missing, whatever went wrong before. It returns as
long as its passes find the feed within a bound. -/
theorem ownedCheckpoints_catchUp (ports : OwnedPorts σ E Id ProjectionError StoreError)
    (applyBatch : List (EventEnvelope E Id) → σ → Except ProjectionError Unit × σ)
    (feed : σ → List (EventEnvelope E Id)) (consumer : σ → Consumer ρ)
    (project : ρ → EventEnvelope E Id → ρ) (start : ρ)
    (transactional : ports.Transactional feed consumer project)
    (commits : Commits feed consumer project applyBatch) (world : σ)
    (reached : (ownedRunners ports applyBatch feed consumer start).Reachable world) :
    ∃ taken, taken <+: feed world ∧ consumer world = built sequenceOf project start taken ∧
      ∀ runBatch ∈ ports.runners applyBatch, ∀ fuel,
        (∀ total after, runProjectionCatchUp runBatch fuel 0 none world =
            (some (.ok total), after) →
          ∃ known, feed world <+: known ∧ known <+: feed after ∧
            consumer after = built sequenceOf project start known ∧
            taken.length + total = known.length) ∧
        ∀ bound, (∀ done ≤ fuel,
            (feed ((fun world => (runBatch .default world).2)^[done] world)).length ≤ bound) →
          bound / defaultProjectionBatch < fuel →
          (runProjectionCatchUp runBatch fuel 0 none world).1.isSome = true := by
  obtain ⟨taken, front, held⟩ := transactional.reachable_exact commits reached
  refine ⟨taken, front, held, ?_⟩
  intro runBatch runner fuel
  have passes := transactional.runner_passes commits runner
  constructor
  · intro total after ran
    have caught := passes.catchUp_ok transactional.wellFormed fuel 0 none world total
      (fun _ _ => rfl)
    rw [ran] at caught
    obtain ⟨known, started, ended, took, counted⟩ := caught rfl
    obtain ⟨rest, split⟩ := front.trans started
    have increasing : Increasing sequenceOf (taken ++ rest) := by
      rw [split]
      exact (transactional.wellFormed after).increasing.sublist ended.sublist
    rw [← split, held, beyond_built increasing, ← built_append, split] at took
    rw [← split, held, beyond_built increasing, Nat.zero_add] at counted
    refine ⟨known, started, ended, took, ?_⟩
    rw [← split, List.length_append, counted]
  · intro bound bounded enough
    apply passes.catchUp_ends transactional.wellFormed fuel 0 none world bounded taken
      front held
    have room : bound < fuel * defaultProjectionBatch :=
      (Nat.div_lt_iff_lt_mul (by decide)).mp enough
    omega

/-- A counting projection; the answer for the third event is lost after its transaction. -/
def lossy : OwnedPorts (Nat × Consumer Nat) Unit Unit String String where
  loadCheckpoint world := (.ok world.2.checkpoint, world)
  applyAndCheckpoint event world :=
    (if sequenceOf event = 3 then .error "connection reset" else .ok (),
      world.1, world.2.take sequenceOf (fun count _ => count + 1) event)
  loadGlobalAfterLimited checkpoint limit world :=
    (.ok ((beyond sequenceOf (RunnerPorts.counting.countingFeed world.1) checkpoint).take limit),
      world)

def lossyFeed (world : Nat × Consumer Nat) : List (EventEnvelope Unit Unit) :=
  RunnerPorts.counting.countingFeed world.1

theorem lossy_transactional :
    lossy.Transactional lossyFeed Prod.snd (fun count _ => count + 1) where
  wellFormed world := RunnerPorts.counting_readsFeed.wellFormed (world.1, none)
  load _ := ⟨List.prefix_rfl, rfl, fun _ loaded => (Except.ok.inj loaded).symm⟩
  apply _ _ := ⟨List.prefix_rfl, .inl rfl⟩
  read _ _ _ := ⟨List.prefix_rfl, rfl, fun _ handed => (Except.ok.inj handed).symm⟩

def lossyRunners : Machine (Nat × Consumer Nat) (OwnedAction lossyFeed Prod.snd) :=
  ownedRunners lossy lossy.applyBatchAndCheckpoint _ _ 0

theorem lossyFeed_longer (world : Nat × Consumer Nat) (more : Nat) :
    lossyFeed world <+: lossyFeed (world.1 + more, world.2) := by
  have longer : List.range' 1 world.1 <+: List.range' 1 (world.1 + more) :=
    ⟨_, List.range'_append⟩
  exact longer.map _

/-- Five events are appended, and a pass meets the third. -/
theorem lossy_reached : lossyRunners.Reachable (5, ⟨3, some 3⟩) := by
  have begun : lossyRunners.Reachable (0, ⟨0, none⟩) := .start rfl
  have ran : lossyRunners.run (0, ⟨0, none⟩) [.others ⟨fun world => (world.1 + 5, world.2),
      fun world => lossyFeed_longer world 5, fun _ => rfl⟩, .runBatch .default] =
        some (5, ⟨3, some 3⟩) := rfl
  exact begun.run ran

theorem ownedCheckpoints_exact_lossy :
    ∃ taken page, taken ++ page <+: lossyFeed (5, ⟨5, some 5⟩) ∧
      taken.foldl (fun count _ => count + 1) 0 = 3 ∧ page.length = 2 := by
  obtain ⟨taken, _, held, passes⟩ := ownedCheckpoints_exact lossy lossy.applyBatchAndCheckpoint
    _ _ _ 0 lossy_transactional lossy_transactional.commits _ lossy_reached
  obtain ⟨page, inside, _, told, _⟩ := passes lossy.runBatchAsync (by simp [runners]) .default
    ⟨2, some 5, true⟩ (5, ⟨5, some 5⟩) rfl
  exact ⟨taken, page, inside, (congrArg Consumer.model held).symm,
    (congrArg ProjectionBatchOutcome.applied told).symm⟩

/-- The two missing events are applied, in one pass: the feed stays within five. -/
theorem ownedCheckpoints_catchUp_lossy :
    (∃ known, lossyFeed (5, ⟨3, some 3⟩) <+: known ∧ known.length = 5) ∧
      (runProjectionCatchUp lossy.runBatchAsync 1 0 none (5, ⟨3, some 3⟩)).1.isSome = true := by
  obtain ⟨taken, _, held, runs⟩ := ownedCheckpoints_catchUp lossy lossy.applyBatchAndCheckpoint
    _ _ _ 0 lossy_transactional lossy_transactional.commits _ lossy_reached
  obtain ⟨returned, ends⟩ := runs lossy.runBatchAsync (by simp [runners]) 1
  obtain ⟨known, whole, inside, _, _⟩ := returned 2 (5, ⟨5, some 5⟩) rfl
  refine ⟨⟨known, whole, Nat.le_antisymm inside.length_le whole.length_le⟩,
    ends 5 ?_ (by decide)⟩
  intro done within
  rcases Nat.le_one_iff_eq_zero_or_eq_one.mp within with rfl | rfl
  · exact Nat.le_refl 5
  · exact Nat.le_refl 5

end OwnedPorts

end DddCqrsEs
