import Mathlib.Data.List.Basic
import Mathlib.Tactic.TypeStar

/- Changes of a stored set that read all of it and later write all of it back. -/
namespace ReplaceAll

variable {κ : Type*} [DecidableEq κ]

/-- What a writer changes of the names that it has read. -/
inductive Change (κ : Type*) where
  | keep
  | add (name : κ)
  | remove (name : κ)
  deriving DecidableEq

namespace Change

def apply : Change κ → List κ → List κ
  | .keep, loaded => loaded
  | .add name, loaded => loaded ++ [name]
  | .remove name, loaded => loaded.filter fun other => other ≠ name

def added : Change κ → List κ
  | .add name => [name]
  | _ => []

def removed : Change κ → List κ
  | .remove name => [name]
  | _ => []

/-- The change is not about the name. -/
def Spares (change : Change κ) (name : κ) : Prop := name ∉ change.added ∧ name ∉ change.removed

variable {change : Change κ} {loaded : List κ} {name : κ}

omit [DecidableEq κ] in
theorem length_added (change : Change κ) : change.added.length ≤ 1 := by
  cases change <;> simp [added]

theorem Spares.mem_apply (spares : change.Spares name) :
    name ∈ change.apply loaded ↔ name ∈ loaded := by
  cases change with
  | keep => rfl
  | add other =>
    have apart : name ≠ other := by simpa [added] using spares.1
    simp [apply, apart]
  | remove other =>
    have apart : name ≠ other := by simpa [removed] using spares.2
    simp [apply, apart]

theorem mem_apply_of_added (own : name ∈ change.added) : name ∈ change.apply loaded := by
  cases change with
  | keep => cases own
  | add other => simpa [apply, added] using Or.inr own
  | remove other => cases own

theorem not_mem_apply_of_removed (own : name ∈ change.removed) : name ∉ change.apply loaded := by
  cases change with
  | keep => cases own
  | add other => cases own
  | remove other =>
    have same : name = other := by simpa [removed] using own
    simp [apply, same]

end Change

/-- The stored names, with all that were acknowledged as added and as removed. -/
structure Ledger (κ : Type*) where
  stored : List κ
  added : List κ
  removed : List κ

namespace Ledger

/-- An acknowledged change of the names that were loaded earlier. -/
def write (ledger : Ledger κ) (change : Change κ) (loaded : List κ) : Ledger κ where
  stored := change.apply loaded
  added := ledger.added ++ change.added
  removed := ledger.removed ++ change.removed

/-- No acknowledged change has been undone. -/
structure Kept (ledger : Ledger κ) : Prop where
  stays : ∀ name ∈ ledger.added, name ∉ ledger.removed → name ∈ ledger.stored
  gone : ∀ name ∈ ledger.removed, name ∉ ledger.stored

/-- What the writer does not change itself is as it was when it was loaded. -/
def Current (ledger : Ledger κ) (change : Change κ) (loaded : List κ) : Prop :=
  ∀ name, change.Spares name → (name ∈ loaded ↔ name ∈ ledger.stored)

variable {ledger : Ledger κ} {change : Change κ} {loaded : List κ}

/-- A write keeps what was acknowledged exactly if what it replaces is what was loaded. -/
theorem Kept.write_iff (kept : ledger.Kept) (stored : ledger.stored ⊆ ledger.added)
    (known : loaded ⊆ ledger.added)
    (fresh : ∀ name ∈ change.added, name ∉ ledger.added ∧ name ∉ ledger.removed) :
    (ledger.write change loaded).Kept ↔ ledger.Current change loaded := by
  constructor
  · intro after name spares
    constructor
    · intro read
      by_contra missing
      have dropped : name ∈ ledger.removed := by
        by_contra live
        exact missing (kept.stays name (known read) live)
      apply after.gone name (List.mem_append_left _ dropped)
      exact spares.mem_apply.mpr read
    · intro present
      have live : name ∉ ledger.removed := fun dropped => kept.gone name dropped present
      apply spares.mem_apply.mp
      apply after.stays name (List.mem_append_left _ (stored present))
      exact fun dropped => (List.mem_append.mp dropped).elim live spares.2
  · intro current
    constructor
    · intro name listed live
      by_cases own : name ∈ change.added
      · exact Change.mem_apply_of_added own
      · have earlier : name ∈ ledger.added := (List.mem_append.mp listed).resolve_right own
        have spares : change.Spares name :=
          ⟨own, fun dropped => live (List.mem_append_right _ dropped)⟩
        apply spares.mem_apply.mpr
        apply (current name spares).mpr
        exact kept.stays name earlier fun dropped => live (List.mem_append_left _ dropped)
    · intro name dropped
      by_cases own : name ∈ change.removed
      · exact Change.not_mem_apply_of_removed own
      · have earlier : name ∈ ledger.removed := (List.mem_append.mp dropped).resolve_right own
        have spares : change.Spares name := ⟨fun new => (fresh name new).2 earlier, own⟩
        intro present
        apply kept.gone name earlier
        exact (current name spares).mp (spares.mem_apply.mp present)

end Ledger

end ReplaceAll
