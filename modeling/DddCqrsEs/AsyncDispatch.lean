import DddCqrsEs.DispatchOnce

/- The asynchronous runner runs the same loop over a bus that drops the key: one
implementation serves every bus, so no bus can have the key handed to its handler. -/
namespace DddCqrsEs

open Transition

variable {E C Id Output ProcessError CommandError : Type}

structure AsyncCommandBus (C Output CommandError : Type) where
  State : Type
  dispatch : State → C → Except CommandError Output × State

/-- The implementation for all buses. -/
def AsyncCommandBus.dispatchIdempotent (bus : AsyncCommandBus C Output CommandError)
    (state : bus.State) (_idempotencyKey : String) (command : C) :
    Except CommandError Output × bus.State :=
  bus.dispatch state command

/-- A request that reached a handler. -/
structure Handled (C : Type) where
  key : Option String
  command : C
  effective : Bool
  deriving DecidableEq, Repr

/-- A handler that deduplicates by the key where it is given one. A success means that the
command takes effect, or that it did under the same key. -/
structure KeyedHandler (C Output CommandError : Type) where
  State : Type
  handle : State → Option String → C → Except CommandError Output × State
  history : State → List (Handled C)
  recorded : ∀ state key command, ∃ effective,
    history (handle state key command).2 = history state ++ [⟨key, command, effective⟩] ∧
      (effective = true → key ≠ none →
        ∀ earlier ∈ history state, earlier.effective = true → earlier.key ≠ key) ∧
      ∀ output, (handle state key command).1 = .ok output → effective = true ∨
        (key ≠ none ∧ ∃ earlier ∈ history state, earlier.effective = true ∧ earlier.key = key)

namespace KeyedHandler

variable (handler : KeyedHandler C Output CommandError)

/-- The bus has the command only. -/
def bus : AsyncCommandBus C Output CommandError where
  State := handler.State
  dispatch state command := handler.handle state none command

/-- Whether the last request took effect. -/
def tookEffect (state : handler.State) : Bool :=
  ((handler.history state).getLast?.map Handled.effective).getD false

/-- The bus as the runner uses it. The keys the runner offers are written down. -/
def offeredBus : IdempotentCommandBus C Output CommandError where
  State := handler.State × List (Dispatch C)
  dispatchIdempotent state key command :=
    let (answer, after) := handler.bus.dispatchIdempotent state.1 key command
    (answer, after, state.2 ++ [⟨key, command, handler.tookEffect after⟩])

variable {handler}

/-- One dispatch: the handler has no key, and a success is an effect. -/
theorem offeredBus_dispatch (state : handler.offeredBus.State) (key : String) (command : C) :
    ∃ effective, handler.tookEffect (handler.bus.dispatch state.1 command).2 = effective ∧
      (handler.offeredBus.dispatchIdempotent state key command).2.2 =
        state.2 ++ [⟨key, command, effective⟩] ∧
      handler.history (handler.offeredBus.dispatchIdempotent state key command).2.1 =
        handler.history state.1 ++ [⟨none, command, effective⟩] ∧
      ∀ output, (handler.offeredBus.dispatchIdempotent state key command).1 = .ok output →
        effective = true := by
  obtain ⟨effective, recorded, _, answers⟩ := handler.recorded state.1 none command
  have effect : handler.tookEffect (handler.bus.dispatch state.1 command).2 = effective := by
    show handler.tookEffect (handler.handle state.1 none command).2 = effective
    rw [tookEffect, recorded, List.getLast?_concat]
    rfl
  refine ⟨effective, effect, ?_, recorded, ?_⟩
  · show state.2 ++ [⟨key, command,
      handler.tookEffect (handler.bus.dispatch state.1 command).2⟩] = _
    rw [effect]
  · intro output answered
    rcases answers output answered with now | ⟨keyed, _⟩
    · exact now
    · exact absurd rfl keyed

end KeyedHandler

section Delivery

variable {manager : ProcessManager E C Id ProcessError}
  {handler : KeyedHandler C Output CommandError} {checkpoint : DispatchIndexCell}

/-- The runner of the asynchronous interface. -/
abbrev AsyncProcessManagerRunner (manager : ProcessManager E C Id ProcessError)
    (handler : KeyedHandler C Output CommandError) (checkpoint : DispatchIndexCell) :=
  ProcessManagerRunner manager handler.offeredBus checkpoint.toProcessManagerDispatchCheckpoint

namespace AsyncProcessManagerRunner

/-- The loop is that of the synchronous runner. -/
def runEnvelopeWithCheckpoint (runner : AsyncProcessManagerRunner manager handler checkpoint)
    (envelope : EventEnvelope E Id) :
    ProcessManagerRunResult Output (ProcessManagerRunnerError ProcessError CommandError) ×
      AsyncProcessManagerRunner manager handler checkpoint :=
  ProcessManagerRunner.runEnvelopeWithCheckpoint runner envelope

/-- Where a delivery starts. -/
def startIndex (runner : AsyncProcessManagerRunner manager handler checkpoint)
    (envelope : EventEnvelope E Id) : Nat :=
  match (checkpoint.loadDispatchIndex runner.checkpoint manager.name envelope.eventId).1 with
  | .ok index => index
  | .error _ => 0

/-- The commands of this batch that took effect so far. -/
def applied (eventId : String) (commands : List C)
    (runner : AsyncProcessManagerRunner manager handler checkpoint) : List (String × C) :=
  effectsUnder ((keyedCommands manager.name eventId commands).map Prod.fst) runner.bus.2

end AsyncProcessManagerRunner

theorem effectsUnder_append (keys : List String) (first second : List (Dispatch C)) :
    effectsUnder keys (first ++ second) = effectsUnder keys first ++ effectsUnder keys second := by
  simp [effectsUnder, effects]

/-- Behind the last command the bus is left alone. -/
theorem dispatchCommands_nil_bus (eventId : String) (startIndex index : Nat)
    (dispatched : List Output) (runner : AsyncProcessManagerRunner manager handler checkpoint) :
    (runner.dispatchCommands eventId startIndex index [] dispatched).2.bus = runner.bus := by
  rcases cleared : checkpoint.clearDispatchIndex runner.checkpoint manager.name eventId with
    ⟨reply, after⟩
  unfold ProcessManagerRunner.dispatchCommands
  rw [cleared]
  cases reply with
  | error message => rfl
  | ok _ => rfl

/-- What the loop asks of the handler, and what it offers. -/
theorem dispatchCommands_offers (eventId : String) (startIndex index : Nat) (rest : List C)
    (dispatched : List Output) (runner : AsyncProcessManagerRunner manager handler checkpoint) :
    ∃ asked offered,
      handler.history (runner.dispatchCommands eventId startIndex index rest dispatched).2.bus.1 =
          handler.history runner.bus.1 ++ asked ∧
      (runner.dispatchCommands eventId startIndex index rest dispatched).2.bus.2 =
          runner.bus.2 ++ offered ∧
      (∀ request ∈ asked, request.key = none) ∧ asked.length = offered.length ∧
      (offered = [] ↔ rest = []) := by
  induction rest generalizing index dispatched runner with
  | nil =>
    rw [dispatchCommands_nil_bus]
    exact ⟨[], [], by simp, by simp, by simp, rfl, by simp⟩
  | cons command rest ih =>
    have one := KeyedHandler.offeredBus_dispatch runner.bus
      (processManagerCommandIdempotencyKey manager.name eventId index) command
    rcases answered : handler.offeredBus.dispatchIdempotent runner.bus
      (processManagerCommandIdempotencyKey manager.name eventId index) command with
      ⟨answer, busAfter⟩
    rw [answered] at one
    obtain ⟨effective, _, offers, asks, _⟩ := one
    have alone : ∀ request ∈ [(⟨none, command, effective⟩ : Handled C)], request.key = none := by
      intro request member
      rw [List.mem_singleton.mp member]
    rcases saved : checkpoint.saveDispatchIndex runner.checkpoint manager.name eventId
      (index + 1) with ⟨reply, after⟩
    unfold ProcessManagerRunner.dispatchCommands
    rw [answered, saved]
    cases answer with
    | error error => exact ⟨_, _, asks, offers, alone, rfl, by simp⟩
    | ok output =>
      cases reply with
      | error message => exact ⟨_, _, asks, offers, alone, rfl, by simp⟩
      | ok _ =>
        obtain ⟨asked, offered, later, more, keyless, lengths, _⟩ :=
          ih (index + 1) (dispatched ++ [output])
            { runner with bus := busAfter, checkpoint := after }
        refine ⟨⟨none, command, effective⟩ :: asked,
          ⟨processManagerCommandIdempotencyKey manager.name eventId index, command,
            effective⟩ :: offered, ?_, ?_, ?_, ?_, by simp⟩
        · exact later.trans (by rw [asks, List.append_assoc, List.singleton_append])
        · exact more.trans (by rw [offers, List.append_assoc, List.singleton_append])
        · intro request member
          rcases List.mem_cons.mp member with rfl | others
          · rfl
          · exact keyless request others
        · rw [List.length_cons, List.length_cons, lengths]

variable {answer : Except ProcessError (List C)} {commands : List C} {command : C}
  {eventId : String} {done : Nat} {runner : AsyncProcessManagerRunner manager handler checkpoint}
  {envelope : EventEnvelope E Id}

/-- One delivery, with the state it loads and the commands it has left. -/
theorem runEnvelopeWithCheckpoint_cases
    (runner : AsyncProcessManagerRunner manager handler checkpoint) (envelope : EventEnvelope E Id)
    (deterministic : manager.Deterministic envelope answer) :
    ∃ ready : AsyncProcessManagerRunner manager handler checkpoint, ready.bus = runner.bus ∧
      checkpoint.recorded ready.checkpoint manager.name envelope.eventId =
        checkpoint.recorded runner.checkpoint manager.name envelope.eventId ∧
      ((emitted answer = [] ∧ (runner.runEnvelopeWithCheckpoint envelope).2 = ready) ∨
        runner.runEnvelopeWithCheckpoint envelope =
          ready.dispatchCommands envelope.eventId (runner.startIndex envelope)
            (runner.startIndex envelope) ((emitted answer).drop (runner.startIndex envelope)) []) := by
  have loads := checkpoint.loads runner.checkpoint manager.name envelope.eventId
  have handled := deterministic runner.manager
  rcases loaded : checkpoint.loadDispatchIndex runner.checkpoint manager.name envelope.eventId with
    ⟨index, after⟩
  rcases emits : manager.handleEnvelope runner.manager envelope with ⟨reply, managerAfter⟩
  rw [loaded] at loads
  rw [emits] at handled
  subst handled
  refine ⟨{ runner with manager := managerAfter, checkpoint := after }, rfl, loads.1, ?_⟩
  unfold AsyncProcessManagerRunner.runEnvelopeWithCheckpoint
    ProcessManagerRunner.runEnvelopeWithCheckpoint AsyncProcessManagerRunner.startIndex
  rw [loaded, emits]
  cases reply with
  | error error => exact .inl ⟨rfl, rfl⟩
  | ok commands => exact .inr rfl

/-- The handler got every command of the delivery under the key that was built for it. -/
def KeysReach (runner : AsyncProcessManagerRunner manager handler checkpoint)
    (envelope : EventEnvelope E Id) : Prop :=
  ∀ asked offered,
    handler.history (runner.runEnvelopeWithCheckpoint envelope).2.bus.1 =
      handler.history runner.bus.1 ++ asked →
    (runner.runEnvelopeWithCheckpoint envelope).2.bus.2 = runner.bus.2 ++ offered →
    asked.map Handled.key = offered.map (fun dispatch => some dispatch.key)

/-- No key reaches the handler: the delivery has no command to dispatch, or it loses one. -/
theorem keysReach_iff (runner : AsyncProcessManagerRunner manager handler checkpoint)
    (envelope : EventEnvelope E Id) (deterministic : manager.Deterministic envelope answer) :
    KeysReach runner envelope ↔ (emitted answer).drop (runner.startIndex envelope) = [] := by
  obtain ⟨ready, bus, _, cases⟩ := runEnvelopeWithCheckpoint_cases runner envelope deterministic
  rcases cases with ⟨none_emitted, ended⟩ | looped
  · rw [none_emitted]
    refine iff_of_true ?_ List.drop_nil
    intro asked offered grown more
    rw [ended, bus] at grown more
    rw [List.self_eq_append_right.mp grown, List.self_eq_append_right.mp more]
    rfl
  · obtain ⟨asked, offered, grown, more, keyless, lengths, empty⟩ :=
      dispatchCommands_offers envelope.eventId (runner.startIndex envelope)
        (runner.startIndex envelope) ((emitted answer).drop (runner.startIndex envelope)) [] ready
    rw [← looped, bus] at grown more
    rw [← empty]
    constructor
    · intro reach
      have same := reach asked offered grown more
      cases asked with
      | nil => exact List.length_eq_zero_iff.mp lengths.symm
      | cons request requests =>
        cases offered with
        | nil => rfl
        | cons dispatch dispatches =>
          have heads := (List.cons.inj same).1
          rw [keyless request List.mem_cons_self] at heads
          cases heads
    · rintro rfl asked' offered' grown' more'
      have noneAsked := List.append_cancel_left (grown.symm.trans grown')
      have noneOffered := List.append_cancel_left (more.symm.trans more')
      rw [← noneAsked, ← noneOffered, List.length_eq_zero_iff.mp lengths]
      rfl

/-- The first `done` commands took effect, in order and once each, and the checkpoint does
not skip past them. -/
structure AsyncProgress (eventId : String) (commands : List C) (done : Nat)
    (runner : AsyncProcessManagerRunner manager handler checkpoint) : Prop where
  within : done ≤ commands.length
  applied : runner.applied eventId commands =
    (keyedCommands manager.name eventId commands).take done
  resumes : checkpoint.recorded runner.checkpoint manager.name eventId ≤ done

/-- One dispatch at a place of the batch. -/
theorem offeredBus_applied (eventId : String) {index : Nat}
    (runner : AsyncProcessManagerRunner manager handler checkpoint)
    (listed : commands[index]? = some command) :
    ∃ effective, handler.tookEffect (handler.bus.dispatch runner.bus.1 command).2 = effective ∧
      (∀ checkpointAfter, AsyncProcessManagerRunner.applied eventId commands
        ({ runner with
          bus := (handler.offeredBus.dispatchIdempotent runner.bus
            (processManagerCommandIdempotencyKey manager.name eventId index) command).2
          checkpoint := checkpointAfter } : AsyncProcessManagerRunner manager handler checkpoint) =
        runner.applied eventId commands ++ if effective then
          [(processManagerCommandIdempotencyKey manager.name eventId index, command)] else []) ∧
      ∀ output, (handler.offeredBus.dispatchIdempotent runner.bus
          (processManagerCommandIdempotencyKey manager.name eventId index) command).1 = .ok output →
        effective = true := by
  obtain ⟨effective, effect, offers, _, answers⟩ := KeyedHandler.offeredBus_dispatch runner.bus
    (processManagerCommandIdempotencyKey manager.name eventId index) command
  have small : index < commands.length := (List.getElem?_eq_some_iff.mp listed).1
  have own := take_mem_keyedCommands manager.name eventId commands listed small
  rw [List.take_of_length_le (by rw [keyedCommands_length])] at own
  refine ⟨effective, effect, ?_, answers⟩
  intro checkpointAfter
  show effectsUnder _ (handler.offeredBus.dispatchIdempotent runner.bus _ command).2.2 = _
  rw [offers, effectsUnder_snoc own]
  rfl

/-- The dispatch of the first command not done. -/
theorem AsyncProgress.dispatch (progress : AsyncProgress eventId commands done runner)
    (listed : commands[done]? = some command) :
    ∃ effective : Bool,
      (∀ checkpointAfter,
        checkpoint.recorded checkpointAfter manager.name eventId ≤ done + effective.toNat →
        AsyncProgress eventId commands (done + effective.toNat)
          ({ runner with
            bus := (handler.offeredBus.dispatchIdempotent runner.bus
              (processManagerCommandIdempotencyKey manager.name eventId done) command).2
            checkpoint := checkpointAfter } : AsyncProcessManagerRunner manager handler checkpoint)) ∧
      ∀ output, (handler.offeredBus.dispatchIdempotent runner.bus
          (processManagerCommandIdempotencyKey manager.name eventId done) command).1 = .ok output →
        effective = true := by
  obtain ⟨effective, _, applies, answers⟩ := offeredBus_applied eventId runner listed
  have small : done < commands.length := (List.getElem?_eq_some_iff.mp listed).1
  refine ⟨effective, ?_, answers⟩
  intro checkpointAfter resumes
  cases effective with
  | false => exact ⟨progress.within, by rw [applies, progress.applied]; simp, resumes⟩
  | true =>
    refine ⟨small, ?_, resumes⟩
    rw [applies, progress.applied, Bool.toNat_true, List.take_add_one,
      keyedCommands_getElem manager.name eventId commands listed]
    rfl

/-- A loop that starts with the first command not done keeps the effects a prefix. -/
theorem dispatchCommands_asyncProgress (startIndex : Nat) {rest : List C} (dispatched : List Output)
    (progress : AsyncProgress eventId commands done runner) (left : rest = commands.drop done) :
    ∃ later, AsyncProgress eventId commands later
      (runner.dispatchCommands eventId startIndex done rest dispatched).2 := by
  induction rest generalizing done dispatched runner with
  | nil =>
    have cleared := checkpoint.clears runner.checkpoint manager.name eventId
    rcases answered : checkpoint.clearDispatchIndex runner.checkpoint manager.name eventId with
      ⟨reply, after⟩
    rw [answered] at cleared
    have kept : AsyncProgress eventId commands done { runner with checkpoint := after } := by
      have resumes := progress.resumes
      exact ⟨progress.within, progress.applied, by dsimp only at cleared ⊢; omega⟩
    unfold ProcessManagerRunner.dispatchCommands
    rw [answered]
    cases reply with
    | error message => exact ⟨done, kept⟩
    | ok _ => exact ⟨done, kept⟩
  | cons command rest ih =>
    have listed : commands[done]? = some command := by
      rw [← List.head?_drop, ← left]
      rfl
    have remaining : rest = commands.drop (done + 1) := by
      rw [← List.tail_drop, ← left]
      rfl
    have resumes := progress.resumes
    obtain ⟨effective, moved, answers⟩ := progress.dispatch listed
    have saves := checkpoint.saves runner.checkpoint manager.name eventId (done + 1)
    rcases answered : handler.offeredBus.dispatchIdempotent runner.bus
      (processManagerCommandIdempotencyKey manager.name eventId done) command with
      ⟨answer, busAfter⟩
    rcases saved : checkpoint.saveDispatchIndex runner.checkpoint manager.name eventId
      (done + 1) with ⟨reply, after⟩
    rw [answered] at moved answers
    rw [saved] at saves
    unfold ProcessManagerRunner.dispatchCommands
    rw [answered, saved]
    cases answer with
    | error error => exact ⟨_, moved runner.checkpoint (by omega)⟩
    | ok output =>
      have took := answers output rfl
      subst took
      have kept := moved after (by dsimp only [Bool.toNat_true] at saves ⊢; omega)
      cases reply with
      | error message => exact ⟨_, kept⟩
      | ok _ => exact ih (dispatched ++ [output]) kept remaining

/-- The effects of a batch only become more. -/
theorem dispatchCommands_applied (eventId : String) (commands : List C) (startIndex index : Nat)
    (rest : List C) (dispatched : List Output)
    (runner : AsyncProcessManagerRunner manager handler checkpoint) :
    ∃ more, AsyncProcessManagerRunner.applied eventId commands
        (runner.dispatchCommands eventId startIndex index rest dispatched).2 =
      runner.applied eventId commands ++ more := by
  obtain ⟨_, offered, _, grown, _⟩ :=
    dispatchCommands_offers eventId startIndex index rest dispatched runner
  refine ⟨effectsUnder ((keyedCommands manager.name eventId commands).map Prod.fst) offered, ?_⟩
  unfold AsyncProcessManagerRunner.applied
  rw [grown, effectsUnder_append]

/-- No command of the batch took effect twice. -/
def EffectsOnce (eventId : String) (commands : List C)
    (runner : AsyncProcessManagerRunner manager handler checkpoint) : Prop :=
  ((runner.applied eventId commands).map Prod.fst).Nodup

theorem AsyncProgress.effectsOnce (progress : AsyncProgress eventId commands done runner) :
    EffectsOnce eventId commands runner := by
  rw [EffectsOnce, progress.applied]
  exact (keyedCommands_nodup manager.name eventId commands).sublist
    ((List.take_sublist _ _).map Prod.fst)

/-- The command a delivery starts with has not taken effect yet, or the bus does not carry it
out. -/
def StartsAfresh (envelope : EventEnvelope E Id) (commands : List C)
    (runner : AsyncProcessManagerRunner manager handler checkpoint) :
    EnvelopeDelivery (AsyncProcessManagerRunner manager handler checkpoint) → Prop
  | .deliver => ∀ command, commands[runner.startIndex envelope]? = some command →
      processManagerCommandIdempotencyKey manager.name envelope.eventId
        (runner.startIndex envelope) ∈
          (runner.applied envelope.eventId commands).map Prod.fst →
      handler.tookEffect (handler.bus.dispatch runner.bus.1 command).2 = false
  | .elsewhere _ => True

/-- A command that is carried out stays carried out, and one that is not ends the loop. -/
theorem dispatchCommands_first (eventId : String) (startIndex : Nat) {index : Nat} (rest : List C)
    (dispatched : List Output) (runner : AsyncProcessManagerRunner manager handler checkpoint)
    (listed : commands[index]? = some command) :
    (handler.tookEffect (handler.bus.dispatch runner.bus.1 command).2 = true → ∃ more,
      AsyncProcessManagerRunner.applied eventId commands
          (runner.dispatchCommands eventId startIndex index (command :: rest) dispatched).2 =
        runner.applied eventId commands ++
          (processManagerCommandIdempotencyKey manager.name eventId index, command) :: more) ∧
    (handler.tookEffect (handler.bus.dispatch runner.bus.1 command).2 = false →
      AsyncProcessManagerRunner.applied eventId commands
          (runner.dispatchCommands eventId startIndex index (command :: rest) dispatched).2 =
        runner.applied eventId commands ∧
      (runner.dispatchCommands eventId startIndex index (command :: rest) dispatched).2.checkpoint =
        runner.checkpoint) := by
  obtain ⟨effective, effect, applies, answers⟩ := offeredBus_applied eventId runner listed
  rw [effect]
  rcases answered : handler.offeredBus.dispatchIdempotent runner.bus
    (processManagerCommandIdempotencyKey manager.name eventId index) command with ⟨answer, busAfter⟩
  rcases saved : checkpoint.saveDispatchIndex runner.checkpoint manager.name eventId
    (index + 1) with ⟨reply, after⟩
  rw [answered] at applies answers
  unfold ProcessManagerRunner.dispatchCommands
  rw [answered, saved]
  cases answer with
  | error error =>
    refine ⟨?_, ?_⟩
    · rintro rfl
      exact ⟨[], applies runner.checkpoint⟩
    · rintro rfl
      exact ⟨(applies runner.checkpoint).trans (List.append_nil _), rfl⟩
  | ok output =>
    have took := answers output rfl
    subst took
    refine ⟨?_, by simp⟩
    intro _
    cases reply with
    | error message => exact ⟨[], applies after⟩
    | ok _ =>
      obtain ⟨more, grown⟩ := dispatchCommands_applied eventId commands startIndex (index + 1)
        rest (dispatched ++ [output])
        ({ runner with bus := busAfter, checkpoint := after } :
          AsyncProcessManagerRunner manager handler checkpoint)
      refine ⟨more, grown.trans ?_⟩
      rw [applies after, List.append_assoc]
      rfl

theorem startIndex_le (runner : AsyncProcessManagerRunner manager handler checkpoint) :
    runner.startIndex envelope ≤
      checkpoint.recorded runner.checkpoint manager.name envelope.eventId := by
  have loads := checkpoint.loads runner.checkpoint manager.name envelope.eventId
  unfold AsyncProcessManagerRunner.startIndex
  split
  · rename_i index loaded
    exact (loads.2 index loaded).le
  · exact Nat.zero_le _

/-- One delivery repeats an effect exactly if it starts with a command that was carried out
before and is carried out again. -/
theorem deliver_effectsOnce (deterministic : manager.Deterministic envelope answer)
    (progress : AsyncProgress envelope.eventId (emitted answer) done runner) :
    (EffectsOnce envelope.eventId (emitted answer) (runner.runEnvelopeWithCheckpoint envelope).2 ↔
      StartsAfresh envelope (emitted answer) runner .deliver) ∧
    (EffectsOnce envelope.eventId (emitted answer) (runner.runEnvelopeWithCheckpoint envelope).2 →
      ∃ later, AsyncProgress envelope.eventId (emitted answer) later
        (runner.runEnvelopeWithCheckpoint envelope).2) := by
  obtain ⟨ready, bus, recorded, cases⟩ :=
    runEnvelopeWithCheckpoint_cases runner envelope deterministic
  have applied : ready.applied envelope.eventId (emitted answer) =
      runner.applied envelope.eventId (emitted answer) := by
    unfold AsyncProcessManagerRunner.applied
    rw [bus]
  have kept : AsyncProgress envelope.eventId (emitted answer) done ready :=
    ⟨progress.within, applied.trans progress.applied, recorded.le.trans progress.resumes⟩
  rcases cases with ⟨none_emitted, ended⟩ | looped
  · rw [ended]
    refine ⟨iff_of_true kept.effectsOnce ?_, fun _ => ⟨done, kept⟩⟩
    intro command listed
    simp [none_emitted] at listed
  · rw [looped]
    have resumed : runner.startIndex envelope ≤ done :=
      (startIndex_le runner).trans progress.resumes
    generalize begins : runner.startIndex envelope = start at resumed ⊢
    rcases Nat.eq_or_lt_of_le resumed with rfl | early
    · obtain ⟨later, progressed⟩ :=
        dispatchCommands_asyncProgress start [] kept rfl
      refine ⟨iff_of_true progressed.effectsOnce ?_, fun _ => ⟨later, progressed⟩⟩
      intro command _ repeated
      rw [begins, progress.applied] at repeated
      exact absurd (mem_take_keyedCommands _ _ _ repeated) (Nat.lt_irrefl _)
    · have small : start < (emitted answer).length := early.trans_le progress.within
      have listed : (emitted answer)[start]? = some (emitted answer)[start] :=
        List.getElem?_eq_getElem small
      have left : (emitted answer).drop start =
          (emitted answer)[start] :: (emitted answer).drop (start + 1) :=
        List.drop_eq_getElem_cons small
      have known := take_mem_keyedCommands manager.name envelope.eventId _ listed early
      rw [← progress.applied] at known
      have first := dispatchCommands_first envelope.eventId start
        ((emitted answer).drop (start + 1)) [] ready listed
      rw [← left, applied, bus] at first
      cases took : handler.tookEffect
        (handler.bus.dispatch runner.bus.1 (emitted answer)[start]).2 with
      | true =>
        obtain ⟨more, grown⟩ := first.1 took
        have twice : ¬ EffectsOnce envelope.eventId (emitted answer)
            (ready.dispatchCommands envelope.eventId start start
              ((emitted answer).drop start) []).2 := by
          intro once
          rw [EffectsOnce, grown, List.map_append, List.map_cons, List.nodup_append] at once
          exact once.2.2 _ known _ List.mem_cons_self rfl
        refine ⟨iff_of_false twice ?_, fun once => absurd once twice⟩
        intro afresh
        rw [StartsAfresh, begins] at afresh
        have idle := afresh _ listed known
        rw [took] at idle
        cases idle
      | false =>
        obtain ⟨same, unsaved⟩ := first.2 took
        have progressed : AsyncProgress envelope.eventId (emitted answer) done
            (ready.dispatchCommands envelope.eventId start start
              ((emitted answer).drop start) []).2 :=
          ⟨progress.within, same.trans progress.applied, by rw [unsaved]; exact kept.resumes⟩
        refine ⟨iff_of_true progressed.effectsOnce ?_, fun _ => ⟨done, progressed⟩⟩
        intro command here _
        rw [begins, listed] at here
        cases here
        exact took

/-- Any number of deliveries of one envelope. Nothing of its batch has happened at first. -/
def asyncDeliveries (manager : ProcessManager E C Id ProcessError)
    (handler : KeyedHandler C Output CommandError) (checkpoint : DispatchIndexCell)
    (envelope : EventEnvelope E Id) (commands : List C) :
    Machine (AsyncProcessManagerRunner manager handler checkpoint)
      (EnvelopeDelivery (AsyncProcessManagerRunner manager handler checkpoint)) where
  start runner := runner.applied envelope.eventId commands = [] ∧
    checkpoint.recorded runner.checkpoint manager.name envelope.eventId = 0
  step runner action :=
    match action with
    | .deliver => some (runner.runEnvelopeWithCheckpoint envelope).2
    | .elsewhere after => some after

/-- Whatever else happens leaves this batch and its checkpoint alone. -/
def AsyncUndisturbed (eventId : String) (commands : List C)
    (runner : AsyncProcessManagerRunner manager handler checkpoint) :
    EnvelopeDelivery (AsyncProcessManagerRunner manager handler checkpoint) → Prop
  | .deliver => True
  | .elsewhere after => after.applied eventId commands = runner.applied eventId commands ∧
      checkpoint.recorded after.checkpoint manager.name eventId =
        checkpoint.recorded runner.checkpoint manager.name eventId

noncomputable def asyncRedeliveries (manager : ProcessManager E C Id ProcessError)
    (handler : KeyedHandler C Output CommandError) (checkpoint : DispatchIndexCell)
    (envelope : EventEnvelope E Id) (commands : List C) :
    Machine (AsyncProcessManagerRunner manager handler checkpoint)
      (EnvelopeDelivery (AsyncProcessManagerRunner manager handler checkpoint)) :=
  (asyncDeliveries manager handler checkpoint envelope commands).restrict
    (AsyncUndisturbed envelope.eventId commands)

section Runs

theorem deliver_applied (deterministic : manager.Deterministic envelope answer)
    (runner : AsyncProcessManagerRunner manager handler checkpoint) :
    ∃ more, (runner.runEnvelopeWithCheckpoint envelope).2.applied envelope.eventId
        (emitted answer) = runner.applied envelope.eventId (emitted answer) ++ more := by
  obtain ⟨ready, bus, _, cases⟩ := runEnvelopeWithCheckpoint_cases runner envelope deterministic
  have applied : ready.applied envelope.eventId (emitted answer) =
      runner.applied envelope.eventId (emitted answer) := by
    unfold AsyncProcessManagerRunner.applied
    rw [bus]
  rcases cases with ⟨_, ended⟩ | looped
  · rw [ended, applied]
    exact ⟨[], (List.append_nil _).symm⟩
  · rw [looped, ← applied]
    exact dispatchCommands_applied envelope.eventId (emitted answer) _ _ _ [] ready

/-- As long as no effect was repeated, the effects are a prefix of the batch. -/
theorem asyncRedeliveries_progress (deterministic : manager.Deterministic envelope answer)
    (reached :
      (asyncRedeliveries manager handler checkpoint envelope (emitted answer)).Reachable runner) :
    EffectsOnce envelope.eventId (emitted answer) runner →
      ∃ done, AsyncProgress envelope.eventId (emitted answer) done runner := by
  refine Machine.invariant
    (I := fun runner => EffectsOnce envelope.eventId (emitted answer) runner →
      ∃ done, AsyncProgress envelope.eventId (emitted answer) done runner) ?_ ?_ reached
  · intro first begun _
    exact ⟨0, Nat.zero_le _, begun.1, begun.2.le⟩
  · intro before action after _ earlier stepped once
    obtain ⟨allowed, stepped⟩ := (Machine.restrict_step_iff _ before after action).mp stepped
    cases action with
    | deliver =>
      cases stepped
      obtain ⟨more, grown⟩ := deliver_applied deterministic before
      have onceBefore : EffectsOnce envelope.eventId (emitted answer) before := by
        rw [EffectsOnce, grown, List.map_append] at once
        exact once.sublist (List.sublist_append_left _ _)
      obtain ⟨done, progress⟩ := earlier onceBefore
      exact (deliver_effectsOnce deterministic progress).2 once
    | elsewhere other =>
      cases stepped
      rw [EffectsOnce, allowed.1] at once
      obtain ⟨done, progress⟩ := earlier once
      exact ⟨done, progress.within, allowed.1.trans progress.applied,
        allowed.2.le.trans progress.resumes⟩

/-- No key reaches the handler of an asynchronous bus unless there is nothing to dispatch, and
over a run of deliveries no command takes effect twice exactly if none of them starts with a
command that was carried out before and is carried out again. -/
theorem asyncDispatch_iff (deterministic : manager.Deterministic envelope answer)
    {final : AsyncProcessManagerRunner manager handler checkpoint}
    {actions : List (EnvelopeDelivery (AsyncProcessManagerRunner manager handler checkpoint))}
    (begun :
      (asyncRedeliveries manager handler checkpoint envelope (emitted answer)).start runner)
    (ran : (asyncRedeliveries manager handler checkpoint envelope (emitted answer)).run runner
      actions = some final) :
    (KeysReach final envelope ↔ (emitted answer).drop (final.startIndex envelope) = []) ∧
    ((asyncRedeliveries manager handler checkpoint envelope (emitted answer)).Along
        (EffectsOnce envelope.eventId (emitted answer)) runner actions ↔
      (asyncRedeliveries manager handler checkpoint envelope (emitted answer)).Meets
        (StartsAfresh envelope (emitted answer)) runner actions) := by
  refine ⟨keysReach_iff final envelope deterministic, ?_⟩
  have nothing : EffectsOnce envelope.eventId (emitted answer) runner := by
    rw [EffectsOnce, begun.1]
    exact List.nodup_nil
  refine Machine.along_iff_meets ?_ (.start begun) nothing ran
  intro before action after reached once stepped
  obtain ⟨done, progress⟩ := asyncRedeliveries_progress deterministic reached once
  obtain ⟨allowed, stepped⟩ := (Machine.restrict_step_iff _ before after action).mp stepped
  cases action with
  | deliver =>
    cases stepped
    exact (deliver_effectsOnce deterministic progress).1
  | elsewhere other =>
    cases stepped
    refine iff_of_true ?_ trivial
    rw [EffectsOnce, allowed.1]
    exact once

end Runs

theorem redelivered (manager : ProcessManager E C Id ProcessError)
    (handler : KeyedHandler C Output CommandError) (checkpoint : DispatchIndexCell)
    (envelope : EventEnvelope E Id) (commands : List C)
    (runner : AsyncProcessManagerRunner manager handler checkpoint) :
    (asyncRedeliveries manager handler checkpoint envelope commands).step runner .deliver =
      some (runner.runEnvelopeWithCheckpoint envelope).2 :=
  (Machine.restrict_step_iff _ _ _ _).mpr ⟨trivial, rfl⟩

end Delivery

/-- A command is carried out once and rejected from then on, whatever key it comes with. -/
def refusingHandler (C : Type) [DecidableEq C] : KeyedHandler C Unit String where
  State := List (Handled C)
  handle state key command :=
    if state.any (fun earlier => earlier.effective &&
        (earlier.command = command || key.isSome && earlier.key = key)) then
      (.error "carried out before", state ++ [⟨key, command, false⟩])
    else (.ok (), state ++ [⟨key, command, true⟩])
  history := id
  recorded state key command := by
    split
    · exact ⟨false, rfl, nofun, nofun⟩
    · rename_i fresh
      refine ⟨true, rfl, ?_, fun _ _ => .inl rfl⟩
      intro _ keyed earlier listed effective same
      apply fresh
      refine List.any_eq_true.mpr ⟨earlier, listed, ?_⟩
      simp [effective, same, Option.isSome_iff_ne_none.mpr keyed]

/-- The handler has carried out nothing, and the first index that is saved is lost. -/
def unsavedOnce : AsyncProcessManagerRunner twoStep (refusingHandler String) memoryCheckpoint :=
  ⟨(0 : Nat), ([], []), (fun _ _ => 0, [false, true])⟩

/-- The second delivery starts with the first command again, which the handler rejects. -/
theorem asyncDispatch_iff_unsavedOnce :
    let deliveries := asyncRedeliveries twoStep (refusingHandler String) memoryCheckpoint
      startedEnvelope ["first", "second"]
    let once := (unsavedOnce.runEnvelopeWithCheckpoint startedEnvelope).2
    let again := (once.runEnvelopeWithCheckpoint startedEnvelope).2
    deliveries.Along (EffectsOnce "evt-1" ["first", "second"]) unsavedOnce [.deliver, .deliver] ∧
      again.applied "evt-1" ["first", "second"] = [("two_step:evt-1:0", "first")] ∧
      again.bus.1.map Handled.effective = [true, false] ∧ ¬ KeysReach again startedEnvelope := by
  intro deliveries once again
  have deterministic : twoStep.Deterministic startedEnvelope (.ok ["first", "second"]) :=
    fun _ => rfl
  have delivered : ∀ runner, deliveries.step runner .deliver =
      some (runner.runEnvelopeWithCheckpoint startedEnvelope).2 :=
    redelivered twoStep (refusingHandler String) memoryCheckpoint startedEnvelope
      ["first", "second"]
  have ran : deliveries.run unsavedOnce [.deliver, .deliver] = some again :=
    Option.bind_eq_some_iff.mpr ⟨once, delivered unsavedOnce,
      Option.bind_eq_some_iff.mpr ⟨again, delivered once, rfl⟩⟩
  have begun : deliveries.start unsavedOnce := ⟨rfl, rfl⟩
  obtain ⟨keys, effects⟩ := asyncDispatch_iff deterministic begun ran
  refine ⟨effects.mpr ?_, rfl, rfl, ?_⟩
  · refine .cons ?_ (delivered unsavedOnce) (.cons ?_ (delivered once) trivial)
    · intro command _ known
      cases known
    · intro command listed _
      cases listed
      rfl
  · intro reach
    cases keys.mp reach

/-- Each command succeeds, and takes effect unless it did under the key it comes with. -/
def keyedHandler (C : Type) : KeyedHandler C Unit String where
  State := List (Handled C)
  handle state key command :=
    let repeated := key.isSome && state.any (fun earlier => earlier.effective && earlier.key = key)
    (.ok (), state ++ [⟨key, command, !repeated⟩])
  history := id
  recorded state key command := by
    refine ⟨_, rfl, ?_, ?_⟩
    · intro fresh keyed earlier listed effective same
      have found : state.any (fun earlier => earlier.effective && earlier.key = key) = true :=
        List.any_eq_true.mpr ⟨earlier, listed, by simp [effective, same]⟩
      simp [found, Option.isSome_iff_ne_none.mpr keyed] at fresh
    · intro output _
      by_cases repeated : (key.isSome &&
          state.any (fun earlier => earlier.effective && earlier.key = key)) = true
      · obtain ⟨keyed, found⟩ := Bool.and_eq_true_iff.mp repeated
        obtain ⟨earlier, listed, known⟩ := List.any_eq_true.mp found
        obtain ⟨effective, same⟩ := Bool.and_eq_true_iff.mp known
        exact .inr ⟨Option.isSome_iff_ne_none.mp keyed, earlier, listed, effective,
          of_decide_eq_true same⟩
      · exact .inl (by rw [Bool.not_eq_true _ |>.mp repeated]; rfl)

/-- The first index that is saved is lost. -/
def unsaved : AsyncProcessManagerRunner twoStep (keyedHandler String) memoryCheckpoint :=
  ⟨(0 : Nat), ([], []), (fun _ _ => 0, [false, true])⟩

/-- The index of the first command is not saved, and the next delivery has it carried out
again: the handler that would know the key never sees it. -/
theorem asyncDispatch_repeats :
    let once := (unsaved.runEnvelopeWithCheckpoint startedEnvelope).2
    let again := (once.runEnvelopeWithCheckpoint startedEnvelope).2
    again.applied "evt-1" ["first", "second"] =
        [("two_step:evt-1:0", "first"), ("two_step:evt-1:0", "first"),
          ("two_step:evt-1:1", "second")] ∧
      ¬ EffectsOnce "evt-1" ["first", "second"] again ∧
      again.bus.1.map Handled.key = [none, none, none] ∧
      ¬ KeysReach unsaved startedEnvelope := by
  refine ⟨rfl, ?_, rfl, ?_⟩
  · intro once
    exact (by decide : ¬ ["two_step:evt-1:0", "two_step:evt-1:0", "two_step:evt-1:1"].Nodup) once
  · intro reach
    cases reach [⟨none, "first", true⟩] [⟨"two_step:evt-1:0", "first", true⟩] rfl rfl

end DddCqrsEs
