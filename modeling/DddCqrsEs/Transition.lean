import Mathlib.Tactic.TypeStar

/- Labelled machines, their runs and the rules that carry a property over a whole
run. Nothing here names an application; every protocol of the development is an
instance. The step function is partial and computable, so a run over explicit
actions can be evaluated. -/
namespace Transition

/-- A machine: its start states and what one labelled action does, if it is enabled. -/
structure Machine (σ : Type*) (α : Type*) where
  start : σ → Prop
  step : σ → α → Option σ

namespace Machine

variable {σ τ α β : Type*}

/-- Execute exactly the given actions, in order. -/
def run (M : Machine σ α) : σ → List α → Option σ
  | s, [] => some s
  | s, a :: rest => (M.step s a).bind (fun next => M.run next rest)

@[simp] theorem run_nil (M : Machine σ α) (s : σ) : M.run s [] = some s := rfl

@[simp] theorem run_cons (M : Machine σ α) (s : σ) (a : α) (rest : List α) :
    M.run s (a :: rest) = (M.step s a).bind (fun next => M.run next rest) := rfl

theorem run_append (M : Machine σ α) (s : σ) (first second : List α) :
    M.run s (first ++ second) = (M.run s first).bind (fun next => M.run next second) := by
  induction first generalizing s with
  | nil => rfl
  | cons a rest ih =>
    simp only [List.cons_append, run_cons]
    cases M.step s a with
    | none => rfl
    | some next => exact ih next

theorem run_snoc (M : Machine σ α) (s : σ) (actions : List α) (a : α) :
    M.run s (actions ++ [a]) = (M.run s actions).bind (fun next => M.step next a) := by
  rw [run_append]
  congr 1
  funext next
  simp

/-- The states some run from a start state ends in. -/
inductive Reachable (M : Machine σ α) : σ → Prop
  | start {s : σ} : M.start s → Reachable M s
  | step {s t : σ} {a : α} : Reachable M s → M.step s a = some t → Reachable M t

variable {M : Machine σ α} {s t : σ} {actions : List α} {P : σ → Prop}

theorem Reachable.run (reached : M.Reachable s) (ran : M.run s actions = some t) :
    M.Reachable t := by
  induction actions generalizing s with
  | nil =>
    cases ran
    exact reached
  | cons a rest ih =>
    obtain ⟨next, stepped, ran⟩ := Option.bind_eq_some_iff.mp ran
    exact ih (reached.step stepped) ran

/-- The invariant rule: true at the start and kept by every step, hence true everywhere.
A step may use that its source state is reachable. -/
theorem invariant {M : Machine σ α} {I : σ → Prop} (initial : ∀ s, M.start s → I s)
    (kept : ∀ s a t, M.Reachable s → I s → M.step s a = some t → I t) {s : σ}
    (reached : M.Reachable s) : I s := by
  induction reached with
  | start begun => exact initial _ begun
  | step earlier stepped ih => exact kept _ _ _ earlier ih stepped

/-- What every step keeps, a run keeps from wherever it starts. -/
theorem run_invariant {M : Machine σ α} {I : σ → Prop}
    (kept : ∀ s a t, M.Reachable s → I s → M.step s a = some t → I t) {s t : σ} {actions : List α}
    (reached : M.Reachable s) (holds : I s) (ran : M.run s actions = some t) : I t := by
  induction actions generalizing s with
  | nil =>
    cases ran
    exact holds
  | cons a rest ih =>
    obtain ⟨next, stepped, ran⟩ := Option.bind_eq_some_iff.mp ran
    exact ih (reached.step stepped) (kept _ _ _ reached holds stepped) ran

open Classical in
/-- The same machine, allowed only the steps whose source state and action meet a guard:
its reachable states are those of the runs whose steps all meet it. -/
noncomputable def restrict (M : Machine σ α) (guard : σ → α → Prop) : Machine σ α where
  start := M.start
  step s a := if guard s a then M.step s a else none

variable {guard : σ → α → Prop}

theorem restrict_step_iff (M : Machine σ α) (s t : σ) (a : α) :
    (M.restrict guard).step s a = some t ↔ guard s a ∧ M.step s a = some t := by
  simp [restrict]

theorem Reachable.unrestricted (reached : (M.restrict guard).Reachable s) : M.Reachable s := by
  induction reached with
  | start begun => exact .start begun
  | step _ stepped ih => exact ih.step ((restrict_step_iff M _ _ _).mp stepped).2

/-- Every state visited by executing the actions satisfies a predicate. -/
def Along (M : Machine σ α) (P : σ → Prop) : σ → List α → Prop
  | s, [] => P s
  | s, a :: rest => P s ∧ ∀ next, M.step s a = some next → M.Along P next rest

/-- Every action is executed in a state where the guard allows it. -/
def Meets (M : Machine σ α) (guard : σ → α → Prop) : σ → List α → Prop
  | _, [] => True
  | s, a :: rest => guard s a ∧ ∀ next, M.step s a = some next → M.Meets guard next rest

theorem Along.head (along : M.Along P s actions) : P s := by
  cases actions with
  | nil => exact along
  | cons a rest => exact along.1

/-- If a step keeps the predicate exactly when the guard allows it, a run keeps the
predicate throughout exactly when it meets the guard throughout. -/
theorem along_iff_meets {allowed : σ → α → Prop}
    (decides : ∀ s a t, M.Reachable s → P s → M.step s a = some t → (P t ↔ allowed s a))
    (reached : M.Reachable s) (holds : P s) (ran : M.run s actions = some t) :
    M.Along P s actions ↔ M.Meets allowed s actions := by
  induction actions generalizing s with
  | nil => exact iff_of_true holds trivial
  | cons a rest ih =>
    obtain ⟨next, stepped, ran⟩ := Option.bind_eq_some_iff.mp ran
    have decided := decides s a next reached holds stepped
    constructor
    · intro along
      have after := along.2 next stepped
      refine ⟨decided.mp after.head, ?_⟩
      intro other same
      cases stepped.symm.trans same
      exact (ih (reached.step stepped) after.head ran).mp after
    · intro meets
      have holdsNext := decided.mpr meets.1
      refine ⟨holds, ?_⟩
      intro other same
      cases stepped.symm.trans same
      exact (ih (reached.step stepped) holdsNext ran).mpr (meets.2 next stepped)

/-- A run that meets the guard throughout is a run of the restricted machine. -/
theorem Meets.reachable (reached : (M.restrict guard).Reachable s) (meets : M.Meets guard s actions)
    (ran : M.run s actions = some t) : (M.restrict guard).Reachable t := by
  induction actions generalizing s with
  | nil =>
    cases ran
    exact reached
  | cons a rest ih =>
    obtain ⟨next, stepped, ran⟩ := Option.bind_eq_some_iff.mp ran
    have allowed := (restrict_step_iff M s next a).mpr ⟨meets.1, stepped⟩
    exact ih (reached.step allowed) (meets.2 next stepped) ran

theorem Meets.cons {a : α} {rest : List α} (allowed : guard s a) (stepped : M.step s a = some t)
    (later : M.Meets guard t rest) : M.Meets guard s (a :: rest) := by
  refine ⟨allowed, ?_⟩
  intro next same
  cases stepped.symm.trans same
  exact later

theorem Meets.append {first second : List α} (meets : M.Meets guard s first)
    (ran : M.run s first = some t) (later : M.Meets guard t second) :
    M.Meets guard s (first ++ second) := by
  induction first generalizing s with
  | nil =>
    cases ran
    exact later
  | cons a rest ih =>
    obtain ⟨middle, stepped, ran⟩ := Option.bind_eq_some_iff.mp ran
    exact .cons meets.1 stepped (ih (meets.2 middle stepped) ran)

/-- What every step keeps makes every run meet a guard that it implies. -/
theorem meets_of_kept {I : σ → Prop} (kept : ∀ s a t, I s → M.step s a = some t → I t)
    (allows : ∀ s a, I s → guard s a) (holds : I s) (actions : List α) :
    M.Meets guard s actions := by
  induction actions generalizing s with
  | nil => trivial
  | cons a rest ih => exact ⟨allows s a holds, fun next stepped => ih (kept s a next holds stepped)⟩

/-- A guard that implies another one in every reachable state implies it in every run. -/
theorem Meets.imp {weaker : σ → α → Prop} (implies : ∀ s a, M.Reachable s → guard s a → weaker s a)
    (reached : M.Reachable s) (meets : M.Meets guard s actions) : M.Meets weaker s actions := by
  induction actions generalizing s with
  | nil => trivial
  | cons a rest ih =>
    refine ⟨implies s a reached meets.1, ?_⟩
    intro next stepped
    exact ih (reached.step stepped) (meets.2 next stepped)

/-- Guards that agree on every step from a reachable state agree on every run. -/
theorem meets_congr {other : σ → α → Prop}
    (agree : ∀ s a t, M.Reachable s → M.step s a = some t → (guard s a ↔ other s a))
    (reached : M.Reachable s) (ran : M.run s actions = some t) :
    M.Meets guard s actions ↔ M.Meets other s actions := by
  induction actions generalizing s with
  | nil => exact Iff.rfl
  | cons a rest ih =>
    obtain ⟨next, stepped, ran⟩ := Option.bind_eq_some_iff.mp ran
    have later := ih (reached.step stepped) ran
    apply and_congr (agree s a next reached stepped)
    constructor
    · intro meets following same
      cases stepped.symm.trans same
      exact later.mp (meets next stepped)
    · intro meets following same
      cases stepped.symm.trans same
      exact later.mpr (meets next stepped)

/-- A forward simulation: every concrete step is matched by finitely many abstract ones. -/
structure Simulates (M : Machine σ α) (N : Machine τ β) (R : σ → τ → Prop) : Prop where
  start : ∀ s, M.start s → ∃ t, N.start t ∧ R s t
  step : ∀ s a s' t, R s t → M.step s a = some s' →
    ∃ actions t', N.run t actions = some t' ∧ R s' t'

theorem Simulates.reachable {N : Machine τ β} {R : σ → τ → Prop} (simulates : Simulates M N R)
    (reached : M.Reachable s) : ∃ t, N.Reachable t ∧ R s t := by
  induction reached with
  | start begun =>
    obtain ⟨t, begun, related⟩ := simulates.start _ begun
    exact ⟨t, .start begun, related⟩
  | step _ stepped ih =>
    obtain ⟨t, earlier, related⟩ := ih
    obtain ⟨actions, t', ran, related⟩ := simulates.step _ _ _ _ related stepped
    exact ⟨t', earlier.run ran, related⟩

end Machine

end Transition
