import DddCqrsEs.Transition

/- A cell that takes effect once: at most one value is ever committed, possibly before the run
begins, and every answer handed out is that value. Protocols that execute a request at most
once are shown to simulate it. -/
namespace Once

open Transition

/-- The values that took effect and the answers given so far, oldest first. -/
structure Cell (V : Type*) where
  committed : List V
  answers : List V

variable {V : Type*}

namespace Cell

def empty : Cell V := ⟨[], []⟩

def answered (cell : Cell V) (value : V) : Cell V :=
  { cell with answers := cell.answers ++ [value] }

/-- At most one value took effect, and whoever got an answer got that value. -/
structure Agrees (cell : Cell V) : Prop where
  atMostOnce : cell.committed.length ≤ 1
  answers : ∀ value ∈ cell.answers, cell.committed = [value]

end Cell

inductive Move (V : Type*) where
  | commit (value : V)
  | answer

/-- A commit needs an empty cell, an answer a full one. -/
def cell (V : Type*) : Machine (Cell V) (Move V) where
  start c := c.committed.length ≤ 1 ∧ c.answers = []
  step c move :=
    match move, c.committed with
    | .commit value, [] => some { c with committed := [value] }
    | .answer, [value] => some (c.answered value)
    | _, _ => none

theorem step_commit {c : Cell V} (fresh : c.committed = []) (value : V) :
    (cell V).step c (.commit value) = some { c with committed := [value] } := by
  simp [cell, fresh]

theorem step_answer {c : Cell V} {value : V} (full : c.committed = [value]) :
    (cell V).step c .answer = some (c.answered value) := by
  simp [cell, full]

theorem step_agrees {c next : Cell V} {move : Move V} (agrees : c.Agrees)
    (stepped : (cell V).step c move = some next) : next.Agrees := by
  obtain ⟨committed, answers⟩ := c
  cases move with
  | commit value =>
    cases committed with
    | cons earlier rest => cases stepped
    | nil =>
      cases stepped
      refine ⟨by simp, ?_⟩
      intro answer mem
      have impossible := agrees.answers answer mem
      cases impossible
  | answer =>
    match committed, agrees, stepped with
    | [value], agrees, stepped =>
      cases stepped
      refine ⟨Nat.le_refl 1, ?_⟩
      intro answer mem
      rcases List.mem_append.mp mem with earlier | last
      · exact agrees.answers answer earlier
      · have same : answer = value := List.mem_singleton.mp last
        subst same
        rfl

/-- The cell keeps its promise in every run. -/
theorem agrees {c : Cell V} (reached : (cell V).Reachable c) : c.Agrees := by
  refine Machine.invariant (I := Cell.Agrees) ?_ ?_ reached
  · rintro c ⟨atMostOnce, unanswered⟩
    exact ⟨atMostOnce, by simp [unanswered]⟩
  · intro c move next _ agrees stepped
    exact step_agrees agrees stepped

end Once
