import Mathlib.Data.List.Basic
import Mathlib.Data.List.Nodup
import Mathlib.Tactic.TypeStar

/- Registers that only grow: a visit enters, in its own order, what it asks for and does not
find there. -/
namespace Accrual

variable {α : Type*} [DecidableEq α]

/-- What one visit enters. -/
def entered (rows asked : List α) : List α := asked.filter fun entry => entry ∉ rows

/-- The register after several visits. -/
def accrue : List α → List (List α) → List α
  | rows, [] => rows
  | rows, asked :: rest => accrue (rows ++ entered rows asked) rest

variable {rows asked : List α} {visits : List (List α)} {entry : α}

@[simp] theorem mem_entered : entry ∈ entered rows asked ↔ entry ∈ asked ∧ entry ∉ rows := by
  simp [entered]

theorem mem_visited : entry ∈ rows ++ entered rows asked ↔ entry ∈ rows ∨ entry ∈ asked := by
  simp only [List.mem_append, mem_entered]
  by_cases known : entry ∈ rows <;> simp [known]

/-- The register is the union of what it held and what was asked for. -/
theorem mem_accrue :
    entry ∈ accrue rows visits ↔ entry ∈ rows ∨ ∃ asked ∈ visits, entry ∈ asked := by
  induction visits generalizing rows with
  | nil => simp [accrue]
  | cons asked rest ih =>
    rw [accrue, ih, mem_visited]
    simp only [List.exists_mem_cons_iff]
    exact or_assoc

theorem nodup_visited (once : rows.Nodup) (each : asked.Nodup) :
    (rows ++ entered rows asked).Nodup := by
  apply List.Nodup.append once (each.filter _)
  intro entry known new
  exact (mem_entered.mp new).2 known

/-- Nothing is entered twice. -/
theorem nodup_accrue (once : rows.Nodup) (each : ∀ asked ∈ visits, asked.Nodup) :
    (accrue rows visits).Nodup := by
  induction visits generalizing rows with
  | nil => exact once
  | cons asked rest ih =>
    rw [List.forall_mem_cons] at each
    exact ih (nodup_visited once each.1) each.2

/-- Every entry stands behind the one that it rests on. -/
def Founded (base : α → Option α) (rows : List α) : Prop :=
  ∀ before entry after, rows = before ++ entry :: after →
    ∀ below, base entry = some below → below ∈ before

variable {base : α → Option α}

omit [DecidableEq α] in
theorem founded_nil : Founded base [] := by
  intro before entry after split
  simp at split

omit [DecidableEq α] in
theorem Founded.append {more : List α} (founded : Founded base rows)
    (rests : ∀ before entry after, more = before ++ entry :: after →
      ∀ below, base entry = some below → below ∈ rows ++ before) :
    Founded base (rows ++ more) := by
  intro before entry after split below based
  rcases List.append_eq_append_iff.mp split with ⟨middle, ends, rest⟩ | ⟨middle, starts, rest⟩
  · rw [ends]
    exact rests middle entry after rest below based
  · cases middle with
    | nil =>
      have held := rests [] entry after rest.symm below based
      rw [List.append_nil] at starts held
      rw [← starts]
      exact held
    | cons first later =>
      rw [List.cons_append, List.cons.injEq] at rest
      apply founded before entry later
      · rw [starts, rest.1]
      · exact based

/-- The same check entry by entry, behind entries that have passed it. -/
def Stands (base : α → Option α) : List α → List α → Prop
  | _, [] => True
  | seen, entry :: rest =>
    (∀ below, base entry = some below → below ∈ seen) ∧ Stands base (seen ++ [entry]) rest

omit [DecidableEq α] in
theorem Founded.of_stands {more : List α} (founded : Founded base rows)
    (stands : Stands base rows more) : Founded base (rows ++ more) := by
  induction more generalizing rows with
  | nil =>
    rw [List.append_nil]
    exact founded
  | cons entry rest ih =>
    have longer : Founded base (rows ++ [entry]) := by
      apply founded.append
      intro before other after split below based
      cases before with
      | nil =>
        rw [List.nil_append, List.cons.injEq] at split
        rw [← split.1] at based
        rw [List.append_nil]
        exact stands.1 below based
      | cons first later => simp at split
    have whole := ih longer stands.2
    rw [List.append_assoc] at whole
    exact whole

theorem Founded.visited (founded : Founded base rows) (order : Founded base asked) :
    Founded base (rows ++ entered rows asked) := by
  apply founded.append
  intro before entry after split below based
  obtain ⟨first, second, both, kept, others⟩ := List.filter_eq_append_iff.mp split
  obtain ⟨skipped, later, parts, passed, _⟩ := List.filter_eq_cons_iff.mp others
  have listed : below ∈ first ++ skipped := by
    apply order (first ++ skipped) entry later
    · rw [both, parts, List.append_assoc]
    · exact based
  by_cases known : below ∈ rows
  · exact List.mem_append_left _ known
  · -- what the visit found is in the register, so it is among what the visit entered
    have new : below ∉ skipped := fun found => passed below found (by simpa using known)
    have entered : below ∈ before := by
      rw [← kept, List.mem_filter]
      exact ⟨(List.mem_append.mp listed).resolve_right new, by simpa using known⟩
    exact List.mem_append_right _ entered

theorem founded_accrue (founded : Founded base rows)
    (orders : ∀ asked ∈ visits, Founded base asked) : Founded base (accrue rows visits) := by
  induction visits generalizing rows with
  | nil => exact founded
  | cons asked rest ih =>
    rw [List.forall_mem_cons] at orders
    exact ih (founded.visited orders.1) orders.2

end Accrual
