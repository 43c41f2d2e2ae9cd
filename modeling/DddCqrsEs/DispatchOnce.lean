import DddCqrsEs.ProcessManager

/- Deliveries of one envelope, repeated however often and failing wherever they may. -/
namespace DddCqrsEs

open Transition

variable {E C Id Output ProcessError CommandError : Type}

theorem effects_snoc (history : List (Dispatch C)) (key : String) (command : C)
    (effective : Bool) :
    effects (history ++ [⟨key, command, effective⟩]) =
      effects history ++ if effective then [(key, command)] else [] := by
  unfold effects
  rw [List.filter_append, List.map_append]
  cases effective with
  | true => rfl
  | false => rfl

variable {keys : List String}

theorem effectsUnder_snoc {key : String} (listed : key ∈ keys) (history : List (Dispatch C))
    (command : C) (effective : Bool) :
    effectsUnder keys (history ++ [⟨key, command, effective⟩]) =
      effectsUnder keys history ++ if effective then [(key, command)] else [] := by
  unfold effectsUnder
  rw [effects_snoc, List.filter_append]
  cases effective with
  | true => simp [listed]
  | false => rfl

theorem mem_effectsUnder {key : String} (listed : key ∈ keys) (history : List (Dispatch C)) :
    key ∈ (effectsUnder keys history).map Prod.fst ↔ key ∈ (effects history).map Prod.fst := by
  simp only [effectsUnder, List.mem_map, List.mem_filter, decide_eq_true_eq]
  constructor
  · rintro ⟨effect, ⟨happened, _⟩, same⟩
    exact ⟨effect, happened, same⟩
  · rintro ⟨effect, happened, same⟩
    exact ⟨effect, ⟨happened, by rwa [same]⟩, same⟩

section KeyedCommands

variable (managerName eventId : String) (commands : List C)

theorem keyedCommands_length :
    (keyedCommands managerName eventId commands).length = commands.length := by
  simp [keyedCommands]

variable {index : Nat}

theorem keyedCommands_getElem {command : C} (emitted : commands[index]? = some command) :
    (keyedCommands managerName eventId commands)[index]? =
      some (processManagerCommandIdempotencyKey managerName eventId index, command) := by
  simp [keyedCommands, emitted]

/-- A key that is among the first ones is the key of a small index. -/
theorem mem_take_keyedCommands {done : Nat}
    (member : processManagerCommandIdempotencyKey managerName eventId index ∈
      ((keyedCommands managerName eventId commands).take done).map Prod.fst) : index < done := by
  obtain ⟨effect, taken, same⟩ := List.mem_map.mp member
  obtain ⟨place, within, found⟩ := List.mem_iff_getElem.mp taken
  rw [List.length_take] at within
  rw [List.getElem_take] at found
  simp only [keyedCommands, List.getElem_mapIdx] at found
  rw [← found] at same
  have equal := processManagerCommandIdempotencyKey_injective same
  omega

theorem take_mem_keyedCommands {done : Nat} {command : C}
    (emitted : commands[index]? = some command) (early : index < done) :
    processManagerCommandIdempotencyKey managerName eventId index ∈
      ((keyedCommands managerName eventId commands).take done).map Prod.fst := by
  have found := keyedCommands_getElem managerName eventId commands emitted
  rw [← List.getElem?_take_of_lt early] at found
  exact List.mem_map.mpr ⟨_, List.mem_of_getElem? found, rfl⟩

theorem keyedCommands_nodup :
    ((keyedCommands managerName eventId commands).map Prod.fst).Nodup := by
  rw [List.nodup_iff_injective_getElem]
  intro first second same
  simp only [keyedCommands, List.getElem_map, List.getElem_mapIdx] at same
  exact Fin.ext (processManagerCommandIdempotencyKey_injective same)

end KeyedCommands

section Delivery

variable {manager : ProcessManager E C Id ProcessError}
  {bus : DeduplicatingBus C Output CommandError} {checkpoint : DispatchIndexCell}

/-- A runner over a bus that deduplicates and a checkpoint that keeps an index. -/
abbrev LawfulRunner (manager : ProcessManager E C Id ProcessError)
    (bus : DeduplicatingBus C Output CommandError) (checkpoint : DispatchIndexCell) :=
  ProcessManagerRunner manager bus.toIdempotentCommandBus
    checkpoint.toProcessManagerDispatchCheckpoint

/-- The commands of this batch that took effect so far. -/
def LawfulRunner.applied (eventId : String) (commands : List C)
    (runner : LawfulRunner manager bus checkpoint) : List (String × C) :=
  effectsUnder ((keyedCommands manager.name eventId commands).map Prod.fst)
    (bus.history runner.bus)

/-- The first `done` commands took effect, in order and once each, and the checkpoint does
not skip past them. -/
structure Progress (eventId : String) (commands : List C) (done : Nat)
    (runner : LawfulRunner manager bus checkpoint) : Prop where
  within : done ≤ commands.length
  applied : runner.applied eventId commands =
    (keyedCommands manager.name eventId commands).take done
  resumes : checkpoint.recorded runner.checkpoint manager.name eventId ≤ done

/-- The requests are for commands of the batch, each under the key of its index. -/
def UnderOwnKeys (managerName eventId : String) (commands : List C)
    (asked : List (Dispatch C)) : Prop :=
  ∀ dispatch ∈ asked, ∃ index, commands[index]? = some dispatch.command ∧
    dispatch.key = processManagerCommandIdempotencyKey managerName eventId index

theorem UnderOwnKeys.append {managerName eventId : String} {commands : List C}
    {first second : List (Dispatch C)} (left : UnderOwnKeys managerName eventId commands first)
    (right : UnderOwnKeys managerName eventId commands second) :
    UnderOwnKeys managerName eventId commands (first ++ second) := by
  intro dispatch member
  rcases List.mem_append.mp member with early | late
  · exact left dispatch early
  · exact right dispatch late

variable {runner : LawfulRunner manager bus checkpoint}

/-- One dispatch, at an index that is not past the commands done. Whatever the bus answers,
the effects are still a prefix; an output says that this index is part of it. -/
theorem dispatch_progress {eventId : String} {commands : List C} {index done : Nat} {command : C}
    (progress : Progress eventId commands done runner) (emitted : commands[index]? = some command)
    (reached : index ≤ done) {after : bus.State} {answer : Except CommandError Output}
    (dispatched : bus.dispatchIdempotent runner.bus
      (processManagerCommandIdempotencyKey manager.name eventId index) command =
        (answer, after)) :
    ∃ later, done ≤ later ∧ Progress eventId commands later { runner with bus := after } ∧
      (∀ output, answer = .ok output → index < later) ∧
      ∃ asked, bus.history after = bus.history runner.bus ++ asked ∧
        UnderOwnKeys manager.name eventId commands asked := by
  obtain ⟨effective, recorded, fresh, answers⟩ := bus.recorded runner.bus
    (processManagerCommandIdempotencyKey manager.name eventId index) command
  rw [dispatched] at recorded answers
  dsimp only at recorded answers
  have small : index < commands.length := (List.getElem?_eq_some_iff.mp emitted).1
  have own := take_mem_keyedCommands manager.name eventId commands emitted small
  rw [List.take_of_length_le (by rw [keyedCommands_length])] at own
  have grown := effectsUnder_snoc own (bus.history runner.bus) command effective
  rw [← recorded] at grown
  have before : effectsUnder ((keyedCommands manager.name eventId commands).map Prod.fst)
      (bus.history runner.bus) = _ := progress.applied
  rw [before] at grown
  have asked : UnderOwnKeys manager.name eventId commands
      [⟨processManagerCommandIdempotencyKey manager.name eventId index, command, effective⟩] := by
    intro dispatch member
    rw [List.mem_singleton.mp member]
    exact ⟨index, emitted, rfl⟩
  have known : ∀ later,
      effectsUnder ((keyedCommands manager.name eventId commands).map Prod.fst)
          (bus.history after) = (keyedCommands manager.name eventId commands).take later →
      ∀ output, answer = .ok output → index < later := by
    intro later applied output answered
    have happened := (mem_effectsUnder own _).mpr (answers output answered)
    rw [applied] at happened
    exact mem_take_keyedCommands manager.name eventId commands happened
  by_cases repeated : effective = false
  · rw [repeated] at grown
    have same := grown.trans (List.append_nil _)
    exact ⟨done, le_rfl, ⟨progress.within, same, progress.resumes⟩, known done same, _, recorded,
      asked⟩
  · have took : effective = true := by simpa using repeated
    -- a key that takes effect was not among the first ones, so it is the next one
    have next : index = done := by
      have unseen := fresh took
      rw [← mem_effectsUnder own, before] at unseen
      by_contra other
      exact unseen (take_mem_keyedCommands manager.name eventId commands emitted (by omega))
    subst next
    have one : effectsUnder ((keyedCommands manager.name eventId commands).map Prod.fst)
        (bus.history after) = (keyedCommands manager.name eventId commands).take (index + 1) := by
      rw [grown, took, List.take_add_one,
        keyedCommands_getElem manager.name eventId commands emitted]
      rfl
    exact ⟨index + 1, by omega, ⟨by omega, one, by have := progress.resumes; dsimp only; omega⟩,
      known (index + 1) one, _, recorded, asked⟩

/-- The loop keeps the effects a prefix, and ends without an error only behind the last
command. -/
theorem dispatchCommands_progress {eventId : String} {commands : List C} (startIndex : Nat)
    {index done : Nat} {rest : List C} {dispatched : List Output}
    {runner : LawfulRunner manager bus checkpoint}
    (progress : Progress eventId commands done runner) (left : rest = commands.drop index)
    (reached : index ≤ done) :
    ∃ later, done ≤ later ∧
      Progress eventId commands later
        (runner.dispatchCommands eventId startIndex index rest dispatched).2 ∧
      ((runner.dispatchCommands eventId startIndex index rest dispatched).1.error = none →
        later = commands.length) ∧
      ∃ asked, bus.history (runner.dispatchCommands eventId startIndex index rest dispatched).2.bus =
          bus.history runner.bus ++ asked ∧
        UnderOwnKeys manager.name eventId commands asked := by
  induction rest generalizing index done dispatched runner with
  | nil =>
    have behind : commands.length ≤ index := List.drop_eq_nil_iff.mp left.symm
    have cleared := checkpoint.clears runner.checkpoint manager.name eventId
    have kept : ∀ after, checkpoint.recorded after manager.name eventId =
        checkpoint.recorded runner.checkpoint manager.name eventId ∨
          checkpoint.recorded after manager.name eventId = 0 →
        Progress eventId commands done { runner with checkpoint := after } := by
      intro after moved
      have resumes := progress.resumes
      exact ⟨progress.within, progress.applied, by dsimp only; omega⟩
    have none_asked : ∃ asked, bus.history runner.bus = bus.history runner.bus ++ asked ∧
        UnderOwnKeys manager.name eventId commands asked :=
      ⟨[], (List.append_nil _).symm, by simp [UnderOwnKeys]⟩
    have all : done = commands.length := by
      have within := progress.within
      omega
    rcases answered : checkpoint.clearDispatchIndex runner.checkpoint manager.name eventId with
      ⟨answer, after⟩
    rw [answered] at cleared
    unfold ProcessManagerRunner.dispatchCommands
    rw [answered]
    cases answer with
    | error message => exact ⟨done, le_rfl, kept after cleared, fun _ => all, none_asked⟩
    | ok done => exact ⟨_, le_rfl, kept after cleared, fun _ => all, none_asked⟩
  | cons command rest ih =>
    have emitted : commands[index]? = some command := by
      rw [← List.head?_drop, ← left]
      rfl
    have remaining : rest = commands.drop (index + 1) := by
      rw [← List.tail_drop, ← left]
      rfl
    rcases answered : bus.dispatchIdempotent runner.bus
      (processManagerCommandIdempotencyKey manager.name eventId index) command with
      ⟨answer, busAfter⟩
    obtain ⟨later, longer, progressed, known, asked, recorded, own⟩ :=
      dispatch_progress progress emitted reached answered
    have saves := checkpoint.saves runner.checkpoint manager.name eventId (index + 1)
    rcases saved : checkpoint.saveDispatchIndex runner.checkpoint manager.name eventId
      (index + 1) with ⟨reply, after⟩
    rw [saved] at saves
    unfold ProcessManagerRunner.dispatchCommands
    rw [answered, saved]
    cases answer with
    | error error => exact ⟨later, longer, progressed, by simp, asked, recorded, own⟩
    | ok output =>
      have passed := known output rfl
      have kept : Progress eventId commands later
          { runner with bus := busAfter, checkpoint := after } := by
        have resumes := progressed.resumes
        exact ⟨progressed.within, progressed.applied, by dsimp only at resumes saves ⊢; omega⟩
      cases reply with
      | error message => exact ⟨later, longer, kept, by simp, asked, recorded, own⟩
      | ok _ =>
        obtain ⟨final, beyond, ended, complete, more, appended, others⟩ :=
          @ih (index + 1) later (dispatched ++ [output]) _ kept remaining (by omega)
        refine ⟨final, by omega, ended, complete, asked ++ more, ?_, own.append others⟩
        rw [appended, ← List.append_assoc, ← recorded]

/-- The commands of an answer; a policy that fails emits none. -/
def emitted : Except ProcessError (List C) → List C
  | .ok commands => commands
  | .error _ => []

/-- The policy answers the envelope the same way in every state of its own. -/
def ProcessManager.Deterministic (manager : ProcessManager E C Id ProcessError)
    (envelope : EventEnvelope E Id) (answer : Except ProcessError (List C)) : Prop :=
  ∀ state, (manager.handleEnvelope state envelope).1 = answer

/-- One delivery, wherever it fails. -/
theorem runEnvelopeWithCheckpoint_progress {envelope : EventEnvelope E Id}
    {answer : Except ProcessError (List C)} (deterministic : manager.Deterministic envelope answer)
    {done : Nat} (progress : Progress envelope.eventId (emitted answer) done runner) :
    ∃ later, done ≤ later ∧
      Progress envelope.eventId (emitted answer) later
        (runner.runEnvelopeWithCheckpoint envelope).2 ∧
      ((runner.runEnvelopeWithCheckpoint envelope).1.error = none →
        later = (emitted answer).length) ∧
      ∃ asked, bus.history (runner.runEnvelopeWithCheckpoint envelope).2.bus =
          bus.history runner.bus ++ asked ∧
        UnderOwnKeys manager.name envelope.eventId (emitted answer) asked := by
  have loads := checkpoint.loads runner.checkpoint manager.name envelope.eventId
  have handled := deterministic runner.manager
  rcases loaded : checkpoint.loadDispatchIndex runner.checkpoint manager.name envelope.eventId with
    ⟨index, after⟩
  rcases emits : manager.handleEnvelope runner.manager envelope with ⟨reply, managerAfter⟩
  rw [loaded] at loads
  rw [emits] at handled
  have kept : Progress envelope.eventId (emitted answer) done
      { runner with manager := managerAfter, checkpoint := after } :=
    ⟨progress.within, progress.applied, loads.1.le.trans progress.resumes⟩
  unfold ProcessManagerRunner.runEnvelopeWithCheckpoint
  rw [loaded, emits]
  subst handled
  cases reply with
  | error error =>
    exact ⟨done, le_rfl, kept, by simp, [], (List.append_nil _).symm, by simp [UnderOwnKeys]⟩
  | ok commands =>
    cases index with
    | error message => exact dispatchCommands_progress 0 kept rfl (Nat.zero_le done)
    | ok index =>
      have resumed : index ≤ done := (loads.2 index rfl).le.trans progress.resumes
      exact dispatchCommands_progress index kept rfl resumed

/-- What happens to a runner over time: the envelope is delivered, or the policy, the bus
and the checkpoint are used for something else. -/
inductive EnvelopeDelivery (Runner : Type) where
  | deliver
  | elsewhere (after : Runner)

/-- Any number of deliveries of one envelope. Nothing of its batch has happened at first. -/
def deliveries (manager : ProcessManager E C Id ProcessError)
    (bus : DeduplicatingBus C Output CommandError) (checkpoint : DispatchIndexCell)
    (envelope : EventEnvelope E Id) (commands : List C) :
    Machine (LawfulRunner manager bus checkpoint)
      (EnvelopeDelivery (LawfulRunner manager bus checkpoint)) where
  start runner := runner.applied envelope.eventId commands = [] ∧
    checkpoint.recorded runner.checkpoint manager.name envelope.eventId = 0
  step runner action :=
    match action with
    | .deliver => some (runner.runEnvelopeWithCheckpoint envelope).2
    | .elsewhere after => some after

/-- Whatever else happens leaves this batch and its checkpoint alone. -/
def Undisturbed (eventId : String) (commands : List C)
    (runner : LawfulRunner manager bus checkpoint) :
    EnvelopeDelivery (LawfulRunner manager bus checkpoint) → Prop
  | .deliver => True
  | .elsewhere after => after.applied eventId commands = runner.applied eventId commands ∧
      checkpoint.recorded after.checkpoint manager.name eventId =
        checkpoint.recorded runner.checkpoint manager.name eventId

/-- The deliveries and what may happen between them. -/
noncomputable def redeliveries (manager : ProcessManager E C Id ProcessError)
    (bus : DeduplicatingBus C Output CommandError) (checkpoint : DispatchIndexCell)
    (envelope : EventEnvelope E Id) (commands : List C) :
    Machine (LawfulRunner manager bus checkpoint)
      (EnvelopeDelivery (LawfulRunner manager bus checkpoint)) :=
  (deliveries manager bus checkpoint envelope commands).restrict
    (Undisturbed envelope.eventId commands)

section Runs

variable {envelope : EventEnvelope E Id} {answer : Except ProcessError (List C)}

theorem deliveries_step (deterministic : manager.Deterministic envelope answer) {done : Nat}
    (progress : Progress envelope.eventId (emitted answer) done runner)
    {action : EnvelopeDelivery (LawfulRunner manager bus checkpoint)}
    {next : LawfulRunner manager bus checkpoint}
    (allowed : Undisturbed envelope.eventId (emitted answer) runner action)
    (stepped : (deliveries manager bus checkpoint envelope (emitted answer)).step runner action =
      some next) :
    ∃ later, done ≤ later ∧ Progress envelope.eventId (emitted answer) later next := by
  cases action with
  | deliver =>
    obtain ⟨later, longer, progressed, _⟩ :=
      runEnvelopeWithCheckpoint_progress deterministic progress
    cases stepped
    exact ⟨later, longer, progressed⟩
  | elsewhere after =>
    cases stepped
    exact ⟨done, le_rfl, progress.within, allowed.1.trans progress.applied,
      allowed.2.le.trans progress.resumes⟩

theorem deliveries_progress (deterministic : manager.Deterministic envelope answer)
    (reached : (redeliveries manager bus checkpoint envelope (emitted answer)).Reachable runner) :
    ∃ done, Progress envelope.eventId (emitted answer) done runner := by
  refine Machine.invariant
    (I := fun runner => ∃ done, Progress envelope.eventId (emitted answer) done runner) ?_ ?_ reached
  · intro first begun
    exact ⟨0, Nat.zero_le _, begun.1, begun.2.le⟩
  · intro before action after _ progress stepped
    obtain ⟨done, progress⟩ := progress
    obtain ⟨allowed, stepped⟩ := (Machine.restrict_step_iff _ before after action).mp stepped
    obtain ⟨later, _, progressed⟩ := deliveries_step deterministic progress allowed stepped
    exact ⟨later, progressed⟩

/-- Nothing is left to do: then no later step has an effect. -/
theorem deliveries_complete (deterministic : manager.Deterministic envelope answer)
    (progress : Progress envelope.eventId (emitted answer) (emitted answer).length runner)
    {actions : List (EnvelopeDelivery (LawfulRunner manager bus checkpoint))}
    {final : LawfulRunner manager bus checkpoint}
    (ran : (redeliveries manager bus checkpoint envelope (emitted answer)).run runner actions =
      some final) :
    Progress envelope.eventId (emitted answer) (emitted answer).length final := by
  induction actions generalizing runner with
  | nil =>
    cases ran
    exact progress
  | cons action rest ih =>
    obtain ⟨next, stepped, ran⟩ := Option.bind_eq_some_iff.mp ran
    obtain ⟨allowed, stepped⟩ := (Machine.restrict_step_iff _ runner next action).mp stepped
    obtain ⟨later, longer, progressed⟩ := deliveries_step deterministic progress allowed stepped
    have all : later = (emitted answer).length := by
      have within := progressed.within
      omega
    exact ih (all ▸ progressed) ran

/-- However often an envelope is delivered and wherever a delivery fails: the commands take
effect in order, each under the key of its index and never twice; a delivery without an
error leaves none out, and no later delivery adds an effect. -/
theorem processManager_dispatchesOnce (deterministic : manager.Deterministic envelope answer)
    (reached : (redeliveries manager bus checkpoint envelope (emitted answer)).Reachable runner) :
    ((keyedCommands manager.name envelope.eventId (emitted answer)).map Prod.fst).Nodup ∧
    (∃ done ≤ (emitted answer).length, runner.applied envelope.eventId (emitted answer) =
      (keyedCommands manager.name envelope.eventId (emitted answer)).take done) ∧
    (∃ asked, bus.history (runner.runEnvelopeWithCheckpoint envelope).2.bus =
        bus.history runner.bus ++ asked ∧
      UnderOwnKeys manager.name envelope.eventId (emitted answer) asked) ∧
    ((runner.runEnvelopeWithCheckpoint envelope).1.error = none →
      ∀ actions final,
        (redeliveries manager bus checkpoint envelope (emitted answer)).run
            (runner.runEnvelopeWithCheckpoint envelope).2 actions = some final →
        final.applied envelope.eventId (emitted answer) =
          keyedCommands manager.name envelope.eventId (emitted answer)) := by
  obtain ⟨done, progress⟩ := deliveries_progress deterministic reached
  obtain ⟨later, _, progressed, complete, asked⟩ :=
    runEnvelopeWithCheckpoint_progress deterministic progress
  refine ⟨keyedCommands_nodup _ _ _, ⟨done, progress.within, progress.applied⟩, asked, ?_⟩
  intro succeeded actions final ran
  have ended := deliveries_complete deterministic (complete succeeded ▸ progressed) ran
  rw [ended.applied]
  exact List.take_of_length_le (keyedCommands_length _ _ _).le

end Runs

end Delivery

inductive BusFault where
  | before
  | after
  deriving DecidableEq, Repr

/-- A bus that records its requests and fails as scheduled. -/
def scheduledBus (C : Type) : DeduplicatingBus C Unit String where
  State := List (Dispatch C) × List (Option BusFault)
  dispatchIdempotent state key command :=
    let fresh := decide (key ∉ (effects state.1).map Prod.fst)
    let recorded := fun effective => (state.1 ++ [⟨key, command, effective⟩], state.2.tail)
    match state.2.head?.join with
    | none => (.ok (), recorded fresh)
    | some .before => (.error "unavailable", recorded false)
    | some .after => (.error "timed out", recorded fresh)
  history := Prod.fst
  recorded state key command := by
    have known (effective : Bool) :
        (effects (state.1 ++ [⟨key, command, effective⟩])).map Prod.fst =
          (effects state.1).map Prod.fst ++ if effective then [key] else [] := by
      rw [effects_snoc, List.map_append]
      cases effective with
      | true => rfl
      | false => rfl
    cases state.2.head?.join with
    | none =>
      refine ⟨_, rfl, of_decide_eq_true, ?_⟩
      intro output answered
      dsimp only
      rw [known]
      by_cases repeated : key ∈ (effects state.1).map Prod.fst
      · exact List.mem_append_left _ repeated
      · simp [repeated]
    | some fault =>
      cases fault with
      | before => exact ⟨_, rfl, by simp, by simp⟩
      | after => exact ⟨_, rfl, of_decide_eq_true, by simp⟩

/-- A checkpoint in memory whose calls fail as scheduled, without effect. -/
def memoryCheckpoint : DispatchIndexCell where
  State := (String → String → Nat) × List Bool
  loadDispatchIndex state managerName eventId :=
    if state.2.headD false then (.error "unavailable", (state.1, state.2.tail))
    else (.ok (state.1 managerName eventId), (state.1, state.2.tail))
  saveDispatchIndex state managerName eventId index :=
    if state.2.headD false then (.error "unavailable", (state.1, state.2.tail))
    else (.ok (), (Function.update state.1 managerName
      (Function.update (state.1 managerName) eventId index), state.2.tail))
  clearDispatchIndex state managerName eventId :=
    if state.2.headD false then (.error "unavailable", (state.1, state.2.tail))
    else (.ok (), (Function.update state.1 managerName
      (Function.update (state.1 managerName) eventId 0), state.2.tail))
  recorded := Prod.fst
  loads state managerName eventId := by
    cases state.2.headD false with
    | true => exact ⟨rfl, by simp⟩
    | false => exact ⟨rfl, fun index answered => by cases answered; rfl⟩
  saves state managerName eventId index := by
    cases state.2.headD false with
    | true => exact Or.inl rfl
    | false => exact Or.inr (by simp)
  clears state managerName eventId := by
    cases state.2.headD false with
    | true => exact Or.inl rfl
    | false => exact Or.inr (by simp)

/-- A policy that answers every event with two commands. -/
def twoStep : ProcessManager String String String Empty where
  State := Nat
  name := "two_step"
  handleEnvelope seen _ := (.ok ["first", "second"], seen + 1)

def startedEnvelope : EventEnvelope String String :=
  ⟨"evt-1", "agg-1", "demo", 1, none, "started", 1, "started", .empty, 0⟩

/-- The second command times out after its effect; then the index cannot be loaded. -/
def troubled : LawfulRunner twoStep (scheduledBus String) memoryCheckpoint :=
  ⟨(0 : Nat), ([], [none, some .after]), (fun _ _ => 0, [false, false, true])⟩

/-- The first delivery fails at its second command, the one after it succeeds. -/
theorem processManager_dispatchesOnce_twoStep :
    (troubled.runEnvelopeWithCheckpoint startedEnvelope).1.failedIndex = some 1 ∧
    ∀ actions final,
      (redeliveries twoStep (scheduledBus String) memoryCheckpoint startedEnvelope
        ["first", "second"]).run ((troubled.runEnvelopeWithCheckpoint startedEnvelope).2
          |>.runEnvelopeWithCheckpoint startedEnvelope).2 actions = some final →
      final.applied "evt-1" ["first", "second"] =
        [("two_step:evt-1:0", "first"), ("two_step:evt-1:1", "second")] := by
  refine ⟨rfl, ?_⟩
  have deterministic : twoStep.Deterministic startedEnvelope (.ok ["first", "second"]) :=
    fun _ => rfl
  have begun : (redeliveries twoStep (scheduledBus String) memoryCheckpoint startedEnvelope
      ["first", "second"]).Reachable troubled := .start ⟨rfl, rfl⟩
  have allowed : Undisturbed startedEnvelope.eventId ["first", "second"] troubled .deliver := trivial
  have reached := begun.step ((Machine.restrict_step_iff _ troubled _ .deliver).mpr ⟨allowed, rfl⟩)
  exact (processManager_dispatchesOnce deterministic reached).2.2.2 rfl

end DddCqrsEs
