import DddCqrsEs.GlobalFeed
import DddCqrsEs.Projection
import DddCqrsEs.Separated

/- Which projections and feeds share a checkpoint: the name and the scope are joined by a
separator that either may hold, and the raw feed's scope is a text like any other. -/
namespace DddCqrsEs

def rawCheckpointScope : String := "*raw"

namespace FeedScope

def checkpointScope : FeedScope → String
  | .aggregateType name => name
  | .raw => rawCheckpointScope

/-- The key under which a runner keeps its position in a feed: `checkpoint_key`, and on the raw
feed `raw_checkpoint_key`. -/
def key (projectionName : String) (scope : FeedScope) : String :=
  checkpointKey .aggregateScoped projectionName scope.checkpointScope

theorem checkpointScope_eq_iff (first second : FeedScope) :
    first.checkpointScope = second.checkpointScope ↔ first = second ∨
      (first = .raw ∧ second = .aggregateType rawCheckpointScope) ∨
      (first = .aggregateType rawCheckpointScope ∧ second = .raw) := by
  cases first with
  | aggregateType name =>
    cases second with
    | aggregateType other => simp [checkpointScope]
    | raw => simp [checkpointScope]
  | raw =>
    cases second with
    | aggregateType other => simp [checkpointScope, eq_comm]
    | raw => simp [checkpointScope]

end FeedScope

theorem aggregateScopedCheckpointKey_eq_joined (name scope : String) :
    aggregateScopedCheckpointKey name scope = Separated.joined '@' name scope := rfl

theorem aggregateScopedCheckpointKey_eq_iff (name scope other otherScope : String) :
    aggregateScopedCheckpointKey name scope = aggregateScopedCheckpointKey other otherScope ↔
      (name = other ∧ scope = otherScope) ∨
      (∃ middle, other = aggregateScopedCheckpointKey name middle ∧
        scope = aggregateScopedCheckpointKey middle otherScope) ∨
      (∃ middle, name = aggregateScopedCheckpointKey other middle ∧
        otherScope = aggregateScopedCheckpointKey middle scope) := by
  simp only [aggregateScopedCheckpointKey_eq_joined]
  exact Separated.joined_eq_iff '@' name scope other otherScope

namespace FeedScope

/-- One projection runs on the raw feed and on an aggregate type that is named like it, or one
name is the other followed by a separator and a text, which the other's scope begins with. -/
def Overlap (name : String) (scope : FeedScope) (other : String) (otherScope : FeedScope) : Prop :=
  (name = other ∧ (scope = .raw ∧ otherScope = .aggregateType rawCheckpointScope ∨
    scope = .aggregateType rawCheckpointScope ∧ otherScope = .raw)) ∨
  (∃ middle, other = aggregateScopedCheckpointKey name middle ∧
    scope.checkpointScope = aggregateScopedCheckpointKey middle otherScope.checkpointScope) ∨
  (∃ middle, name = aggregateScopedCheckpointKey other middle ∧
    otherScope.checkpointScope = aggregateScopedCheckpointKey middle scope.checkpointScope)

theorem key_eq_iff (name other : String) (scope otherScope : FeedScope) :
    key name scope = key other otherScope ↔
      (name = other ∧ scope = otherScope) ∨ Overlap name scope other otherScope := by
  simp only [key, checkpointKey, aggregateScopedCheckpointKey_eq_iff, checkpointScope_eq_iff,
    Overlap, and_or_left, or_assoc]

/-- Two runners have different positions exactly if their projections and feeds do not
overlap. -/
theorem key_injective_iff (name other : String) (scope otherScope : FeedScope) :
    (key name scope = key other otherScope → name = other ∧ scope = otherScope) ↔
      ¬ Overlap name scope other otherScope := by
  rw [key_eq_iff]
  constructor
  · intro separate overlap
    obtain ⟨sameName, sameScope⟩ := separate (.inr overlap)
    rcases overlap with ⟨_, ⟨rfl, rfl⟩ | ⟨rfl, rfl⟩⟩ | ⟨middle, longer, _⟩ | ⟨middle, longer, _⟩
    · cases sameScope
    · cases sameScope
    · exact Separated.ne_joined '@' name middle (sameName.trans longer)
    · exact Separated.ne_joined '@' other middle (sameName.symm.trans longer)
  · exact fun apart same => same.resolve_right apart

/-- Projections whose names hold no separator never share a position, but for an aggregate type
named like the raw feed's scope. -/
theorem key_injective_of_plain {name other : String} {scope otherScope : FeedScope}
    (plain : '@' ∉ name.toList) (otherPlain : '@' ∉ other.toList)
    (unreserved : scope ≠ .aggregateType rawCheckpointScope)
    (otherUnreserved : otherScope ≠ .aggregateType rawCheckpointScope)
    (same : key name scope = key other otherScope) : name = other ∧ scope = otherScope := by
  refine ((key_eq_iff name other scope otherScope).mp same).resolve_right ?_
  rintro (⟨_, ⟨_, reserved⟩ | ⟨reserved, _⟩⟩ | ⟨middle, rfl, _⟩ | ⟨middle, rfl, _⟩)
  · exact otherUnreserved reserved
  · exact unreserved reserved
  · exact otherPlain (Separated.separator_mem_joined '@' name middle)
  · exact plain (Separated.separator_mem_joined '@' other middle)

/-- A projection whose name holds a separator shares its position with another one, and the
raw feed shares its own with an aggregate type named like its scope. -/
theorem key_collides :
    key "orders@eu" (.aggregateType "invoice") = key "orders" (.aggregateType "eu@invoice") ∧
      "orders@eu" ≠ "orders" ∧
      key "orders" .raw = key "orders" (.aggregateType "*raw") ∧
      FeedScope.raw ≠ .aggregateType "*raw" := by
  decide

end FeedScope

end DddCqrsEs
