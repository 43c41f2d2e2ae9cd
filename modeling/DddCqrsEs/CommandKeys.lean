import DddCqrsEs.ProcessManager
import DddCqrsEs.Separated

/- Which commands of process managers share a key: the manager's name and the event id are
joined by a colon that either may hold. -/
namespace DddCqrsEs

theorem colon_notMem_repr (index : Nat) : ':' ∉ (Nat.repr index).toList := by
  intro member
  have digit := Nat.isDigit_of_mem_toDigits (b := 10) (n := index) (by decide) (by decide)
    (by simpa [Nat.repr] using member)
  cases digit

theorem processManagerCommandIdempotencyKey_eq_joined (managerName eventId : String)
    (index : Nat) :
    processManagerCommandIdempotencyKey managerName eventId index =
      Separated.joined ':' (Separated.joined ':' managerName eventId) (Nat.repr index) := rfl

/-- One manager's name is the other's followed by a colon and a text, which the other's event
id begins with, and the commands have the same index. -/
def CommandKeyOverlap (managerName eventId : String) (index : Nat)
    (otherName otherId : String) (otherIndex : Nat) : Prop :=
  index = otherIndex ∧
    ((∃ middle, otherName = Separated.joined ':' managerName middle ∧
        eventId = Separated.joined ':' middle otherId) ∨
      (∃ middle, managerName = Separated.joined ':' otherName middle ∧
        otherId = Separated.joined ':' middle eventId))

theorem processManagerCommandIdempotencyKey_eq_iff (managerName eventId : String) (index : Nat)
    (otherName otherId : String) (otherIndex : Nat) :
    processManagerCommandIdempotencyKey managerName eventId index =
        processManagerCommandIdempotencyKey otherName otherId otherIndex ↔
      (managerName = otherName ∧ eventId = otherId ∧ index = otherIndex) ∨
        CommandKeyOverlap managerName eventId index otherName otherId otherIndex := by
  have indices : Nat.repr index = Nat.repr otherIndex ↔ index = otherIndex :=
    ⟨Decimal.repr_injective, congrArg Nat.repr⟩
  simp only [processManagerCommandIdempotencyKey_eq_joined]
  rw [Separated.joined_inj_of_tail (colon_notMem_repr index) (colon_notMem_repr otherIndex),
    Separated.joined_eq_iff, indices, CommandKeyOverlap]
  constructor
  · rintro ⟨⟨rfl, rfl⟩ | longer, same⟩
    · exact .inl ⟨rfl, rfl, same⟩
    · exact .inr ⟨same, longer⟩
  · rintro (⟨rfl, rfl, same⟩ | ⟨same, longer⟩)
    · exact ⟨.inl ⟨rfl, rfl⟩, same⟩
    · exact ⟨.inr longer, same⟩

theorem CommandKeyOverlap.names_ne {managerName eventId otherName otherId : String}
    {index otherIndex : Nat}
    (overlap : CommandKeyOverlap managerName eventId index otherName otherId otherIndex) :
    managerName ≠ otherName := by
  obtain ⟨-, ⟨middle, rfl, -⟩ | ⟨middle, rfl, -⟩⟩ := overlap
  · exact Separated.ne_joined ':' managerName middle
  · exact (Separated.ne_joined ':' otherName middle).symm

/-- A key tells its command from every other one exactly if their names and event ids do not
overlap. -/
theorem commandKey_unique_iff (managerName eventId : String) (index : Nat)
    (otherName otherId : String) (otherIndex : Nat) :
    (processManagerCommandIdempotencyKey managerName eventId index =
        processManagerCommandIdempotencyKey otherName otherId otherIndex →
      managerName = otherName ∧ eventId = otherId ∧ index = otherIndex) ↔
      ¬ CommandKeyOverlap managerName eventId index otherName otherId otherIndex := by
  rw [processManagerCommandIdempotencyKey_eq_iff]
  constructor
  · intro unique overlap
    exact overlap.names_ne (unique (.inr overlap)).1
  · intro apart same
    exact same.resolve_right apart

/-- Two managers, two events, one key. -/
theorem commandKey_collides :
    processManagerCommandIdempotencyKey "billing" "eu:7" 0 =
        processManagerCommandIdempotencyKey "billing:eu" "7" 0 ∧
      "billing" ≠ "billing:eu" := by
  decide

/-- Managers whose names hold no colon never share a key. -/
theorem commandKey_unique_of_plain {managerName otherName : String}
    (plain : ':' ∉ managerName.toList) (otherPlain : ':' ∉ otherName.toList)
    {eventId otherId : String} {index otherIndex : Nat}
    (same : processManagerCommandIdempotencyKey managerName eventId index =
      processManagerCommandIdempotencyKey otherName otherId otherIndex) :
    managerName = otherName ∧ eventId = otherId ∧ index = otherIndex := by
  refine ((processManagerCommandIdempotencyKey_eq_iff _ _ _ _ _ _).mp same).resolve_right ?_
  rintro ⟨-, ⟨middle, rfl, -⟩ | ⟨middle, rfl, -⟩⟩
  · exact otherPlain (Separated.separator_mem_joined ':' managerName middle)
  · exact plain (Separated.separator_mem_joined ':' otherName middle)

end DddCqrsEs
