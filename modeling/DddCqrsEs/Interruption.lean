import Mathlib.Data.List.Basic
import Mathlib.Data.List.Pairwise
import Mathlib.Tactic.TypeStar

/- Sequences of steps that are durable one by one, executed by a process that may die
between any two of them, and when they can simply be started again. -/
namespace Interruption

variable {σ α ε : Type*}

/-- Why and where a process stopped before the end of a sequence. -/
structure Stop (σ α ε : Type*) where
  state : σ
  /-- the steps of the sequence that were executed -/
  executed : List α
  /-- the error of a step, if the process did not simply die -/
  failure : Option ε

variable (execute : α → σ → Except ε σ)

@[grind =]
def executeAll : List α → σ → Except ε σ
  | [], state => .ok state
  | step :: rest, state =>
    match execute step state with
    | .error error => .error error
    | .ok next => executeAll rest next

/-- Execute a sequence. With `some n` the process dies before its step number `n`. -/
@[grind =]
def perform : List α → Option Nat → σ → List α → Except (Stop σ α ε) (Option Nat × σ)
  | [], left, state, _ => .ok (left, state)
  | step :: rest, left, state, executed =>
    if left = some 0 then .error ⟨state, executed, none⟩
    else
      match execute step state with
      | .error error => .error ⟨state, executed, some error⟩
      | .ok next => perform rest (left.map Nat.pred) next (executed ++ [step])

/-- What a process does at the next step of its sequence. -/
theorem perform_cons (step : α) (rest : List α) (left : Option Nat) (state : σ)
    (executed : List α) :
    (left = some 0 ∧
        perform execute (step :: rest) left state executed = .error ⟨state, executed, none⟩) ∨
      (left ≠ some 0 ∧ ∃ error, execute step state = .error error ∧
        perform execute (step :: rest) left state executed =
          .error ⟨state, executed, some error⟩) ∨
      (left ≠ some 0 ∧ ∃ next, execute step state = .ok next ∧
        perform execute (step :: rest) left state executed =
          perform execute rest (left.map Nat.pred) next (executed ++ [step])) := by
  have unfolded : perform execute (step :: rest) left state executed =
      if left = some 0 then .error ⟨state, executed, none⟩
      else
        match execute step state with
        | .error error => .error ⟨state, executed, some error⟩
        | .ok next => perform execute rest (left.map Nat.pred) next (executed ++ [step]) := rfl
  rw [unfolded]
  by_cases dies : left = some 0
  · exact Or.inl ⟨dies, if_pos dies⟩
  · right
    rw [if_neg dies]
    cases execute step state with
    | error error => exact Or.inl ⟨dies, error, rfl, rfl⟩
    | ok next => exact Or.inr ⟨dies, next, rfl, rfl⟩

variable {execute}

theorem executeAll_eq_bind (step : α) (rest : List α) (state : σ) :
    executeAll execute (step :: rest) state =
      (execute step state).bind (executeAll execute rest) := by
  have unfolded : executeAll execute (step :: rest) state =
      match execute step state with
      | .error error => .error error
      | .ok next => executeAll execute rest next := rfl
  rw [unfolded]
  cases execute step state with
  | error error => rfl
  | ok next => rfl

variable {state final : σ} {steps executed : List α} {left : Option Nat} {stop : Stop σ α ε}

theorem executeAll_cons {step : α} {rest : List α} :
    executeAll execute (step :: rest) state = .ok final ↔
      ∃ next, execute step state = .ok next ∧ executeAll execute rest next = .ok final := by
  rw [executeAll_eq_bind]
  cases execute step state with
  | error error => simp [Except.bind]
  | ok next => simp [Except.bind]

theorem executeAll_one {step : α} (stepped : execute step state = .ok final) :
    executeAll execute [step] state = .ok final :=
  (executeAll_cons).mpr ⟨final, stepped, rfl⟩

theorem executeAll_append {first : List α} (second : List α) {between : σ}
    (ran : executeAll execute first state = .ok between) :
    executeAll execute (first ++ second) state = executeAll execute second between := by
  induction first generalizing state with
  | nil =>
    cases ran
    rfl
  | cons step rest ih =>
    obtain ⟨next, stepped, ran⟩ := (executeAll_cons).mp ran
    rw [List.cons_append, executeAll_eq_bind, stepped]
    exact ih ran

/-- A successful execution has executed every first part. -/
theorem executeAll_split {first second : List α}
    (ran : executeAll execute (first ++ second) state = .ok final) :
    ∃ between, executeAll execute first state = .ok between ∧
      executeAll execute second between = .ok final := by
  induction first generalizing state with
  | nil => exact ⟨state, rfl, ran⟩
  | cons step rest ih =>
    obtain ⟨next, stepped, ran⟩ := (executeAll_cons).mp ran
    obtain ⟨between, left, right⟩ := ih ran
    exact ⟨between, (executeAll_cons).mpr ⟨next, stepped, left⟩, right⟩

/-- What holds of a state and is kept by every step holds at the end. -/
theorem executeAll_keeps {P : σ → Prop}
    (kept : ∀ step ∈ steps, ∀ s t, P s → execute step s = .ok t → P t) (holds : P state)
    (ran : executeAll execute steps state = .ok final) : P final := by
  induction steps generalizing state with
  | nil =>
    cases ran
    exact holds
  | cons step rest ih =>
    obtain ⟨next, stepped, ran⟩ := (executeAll_cons).mp ran
    have later := kept step List.mem_cons_self state next holds stepped
    exact ih (fun other member => kept other (List.mem_cons_of_mem _ member)) later ran

/-- A process that does not die executes all steps or stops at the one that fails. -/
theorem perform_none :
    perform execute steps none state executed = .ok (left, final) ↔
      left = none ∧ executeAll execute steps state = .ok final := by
  induction steps generalizing state executed with
  | nil =>
    have unfolded : perform execute [] none state executed = .ok (none, state) := rfl
    have none : executeAll execute [] state = .ok state := rfl
    rw [unfolded, none]
    simp [eq_comm]
  | cons step rest ih =>
    rw [executeAll_cons]
    rcases perform_cons execute step rest none state executed with ⟨dies, _⟩ | own
    · cases dies
    · rcases own with ⟨_, error, failed, same⟩ | ⟨_, next, stepped, same⟩
      · simp [same, failed]
      · rw [same, stepped, Option.map_none, ih]
        simp

/-- A process that dies has executed a first part of a sequence that would succeed, or all
of it. -/
theorem perform_some (succeeds : executeAll execute steps state = .ok final) (n : Nat)
    (executed : List α) :
    perform execute steps (some n) state executed = .ok (some (n - steps.length), final) ∨
      ∃ cut between, cut < steps.length ∧
        executeAll execute (steps.take cut) state = .ok between ∧
        perform execute steps (some n) state executed =
          .error ⟨between, executed ++ steps.take cut, none⟩ := by
  induction steps generalizing state n executed with
  | nil =>
    cases succeeds
    exact Or.inl rfl
  | cons step rest ih =>
    obtain ⟨next, stepped, succeeds⟩ := (executeAll_cons).mp succeeds
    cases n with
    | zero =>
      have died : perform execute (step :: rest) (some 0) state executed =
          .error ⟨state, executed, none⟩ := rfl
      exact Or.inr ⟨0, state, by simp, rfl, by rw [died, List.take_zero, List.append_nil]⟩
    | succ n =>
      have unfolded : perform execute (step :: rest) (some (n + 1)) state executed =
          perform execute rest (some n) next (executed ++ [step]) := by
        rcases perform_cons execute step rest (some (n + 1)) state executed with ⟨dies, _⟩ | own
        · cases dies
        · rcases own with ⟨_, error, failed, _⟩ | ⟨_, other, ran, same⟩
          · cases stepped.symm.trans failed
          · cases stepped.symm.trans ran
            exact same
      rw [unfolded]
      rcases ih succeeds n (executed ++ [step]) with all | ⟨cut, between, short, ran, died⟩
      · left
        rw [all]
        congr 3
        simp
      · right
        refine ⟨cut + 1, between, ?_, ?_, ?_⟩
        · simpa using short
        · exact (executeAll_cons).mpr ⟨next, stepped, ran⟩
        · rw [died, List.append_assoc]
          rfl

/-- A process that stops has executed steps of its sequence. -/
theorem perform_stop (stopped : perform execute steps left state executed = .error stop) :
    stop.executed ⊆ executed ++ steps := by
  induction steps generalizing left state executed with
  | nil => cases stopped
  | cons step rest ih =>
    rcases perform_cons execute step rest left state executed with ⟨_, same⟩ | own
    · cases same.symm.trans stopped
      exact List.subset_append_left _ _
    · rcases own with ⟨_, error, _, same⟩ | ⟨_, next, _, same⟩
      · cases same.symm.trans stopped
        exact List.subset_append_left _ _
      · have others := ih (same.symm.trans stopped)
        rw [List.append_assoc] at others
        exact others

/-- A process that does not stop has executed the whole sequence. -/
theorem perform_ok {later : Option Nat}
    (performed : perform execute steps left state executed = .ok (later, final)) :
    executeAll execute steps state = .ok final := by
  induction steps generalizing left state executed with
  | nil =>
    cases performed
    rfl
  | cons step rest ih =>
    rcases perform_cons execute step rest left state executed with ⟨_, same⟩ | own
    · cases same.symm.trans performed
    · rcases own with ⟨_, error, _, same⟩ | ⟨_, next, stepped, same⟩
      · cases same.symm.trans performed
      · exact (executeAll_cons).mpr ⟨next, stepped, ih (same.symm.trans performed)⟩

/-- The error that a process reports is the one of a step: of the last one only if all the
others were executed. -/
theorem perform_failure (steps : List α) {last : α}
    (stopped : perform execute (steps ++ [last]) left state executed = .error stop) {error : ε}
    (failed : stop.failure = some error) :
    (∃ step ∈ steps, ∃ reached, execute step reached = .error error) ∨
      ∃ reached, executeAll execute steps state = .ok reached ∧
        execute last reached = .error error := by
  induction steps generalizing left state executed with
  | nil =>
    rcases perform_cons execute last [] left state executed with ⟨_, same⟩ | own
    · cases same.symm.trans stopped
      cases failed
    · rcases own with ⟨_, own, rejected, same⟩ | ⟨_, next, _, same⟩
      · cases same.symm.trans stopped
        cases failed
        exact Or.inr ⟨state, rfl, rejected⟩
      · cases same.symm.trans stopped
  | cons step rest ih =>
    rcases perform_cons execute step (rest ++ [last]) left state executed with ⟨_, same⟩ | own
    · cases same.symm.trans stopped
      cases failed
    · rcases own with ⟨_, own, rejected, same⟩ | ⟨_, next, stepped, same⟩
      · cases same.symm.trans stopped
        cases failed
        exact Or.inl ⟨step, List.mem_cons_self, state, rejected⟩
      · apply (ih (same.symm.trans stopped)).imp
        · intro ⟨other, member, rejected⟩
          exact ⟨other, List.mem_cons_of_mem _ member, rejected⟩
        · intro ⟨reached, ran, rejected⟩
          exact ⟨reached, (executeAll_cons).mpr ⟨next, stepped, ran⟩, rejected⟩

/-- A step that has been executed changes nothing when it is executed again, and keeps
being so while the steps after it are executed. -/
structure Resumable (execute : α → σ → Except ε σ) (steps : List α) : Prop where
  settles : ∀ step ∈ steps, ∀ s t, execute step s = .ok t → execute step t = .ok t
  lasting : steps.Pairwise fun step later =>
    ∀ s t, execute step s = .ok s → execute later s = .ok t → execute step t = .ok t

theorem Resumable.take (resumable : Resumable execute steps) (n : Nat) :
    Resumable execute (steps.take n) :=
  ⟨fun step member => resumable.settles step (List.mem_of_mem_take member),
    resumable.lasting.sublist (List.take_sublist n steps)⟩

theorem Resumable.settled (resumable : Resumable execute steps)
    (ran : executeAll execute steps state = .ok final) :
    ∀ step ∈ steps, execute step final = .ok final := by
  induction steps generalizing state with
  | nil => simp
  | cons step rest ih =>
    obtain ⟨next, stepped, others⟩ := (executeAll_cons).mp ran
    obtain ⟨ahead, apart⟩ := List.pairwise_cons.mp resumable.lasting
    have settled := resumable.settles step List.mem_cons_self state next stepped
    intro other member
    rcases List.mem_cons.mp member with same | later
    · rw [same]
      exact executeAll_keeps (P := fun s => execute step s = .ok s) ahead settled others
    · have smaller : Resumable execute rest :=
        ⟨fun step listed => resumable.settles step (List.mem_cons_of_mem _ listed), apart⟩
      exact ih smaller others other later

theorem executeAll_settled (settled : ∀ step ∈ steps, execute step state = .ok state) :
    executeAll execute steps state = .ok state := by
  induction steps with
  | nil => rfl
  | cons step rest ih =>
    refine (executeAll_cons).mpr ⟨state, settled step List.mem_cons_self, ?_⟩
    exact ih (fun other member => settled other (List.mem_cons_of_mem _ member))

/-- The rule: what was cut short can be started again from the top. -/
theorem Resumable.restart (resumable : Resumable execute steps) {cut : Nat} {between : σ}
    (ran : executeAll execute (steps.take cut) state = .ok between) :
    executeAll execute steps between = executeAll execute steps state := by
  have repeated := executeAll_settled ((resumable.take cut).settled ran)
  have again := executeAll_append (steps.drop cut) repeated
  have once := executeAll_append (steps.drop cut) ran
  rw [List.take_append_drop] at again once
  exact again.trans once.symm

end Interruption
