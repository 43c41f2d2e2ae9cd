import Mathlib.Data.List.Basic

/- Two texts joined by a separator that either may hold: which pairs of parts give the same
text. -/
namespace Separated

/-- Two lists with a separator in each agree when they are cut at the same one, or when one of
the cuts lies further on by a part that ends in the separator. -/
theorem append_cons_eq_iff {α : Type} {separator : α} {first second rest after : List α} :
    first ++ separator :: rest = second ++ separator :: after ↔
      (first = second ∧ rest = after) ∨
      (∃ middle, second = first ++ separator :: middle ∧ rest = middle ++ separator :: after) ∨
      (∃ middle, first = second ++ separator :: middle ∧ after = middle ++ separator :: rest) := by
  refine ⟨?_, ?_⟩
  · intro same
    rcases List.append_eq_append_iff.mp same with ⟨part, longer, tail⟩ | ⟨part, longer, tail⟩
    · cases part with
      | nil => exact .inl ⟨by simpa using longer.symm, (List.cons.inj tail).2⟩
      | cons head middle =>
        obtain ⟨heads, tail⟩ := List.cons.inj tail
        exact .inr (.inl ⟨middle, heads ▸ longer, tail⟩)
    · cases part with
      | nil => exact .inl ⟨by simpa using longer, (List.cons.inj tail).2.symm⟩
      | cons head middle =>
        obtain ⟨heads, tail⟩ := List.cons.inj tail
        exact .inr (.inr ⟨middle, heads ▸ longer, tail⟩)
  · rintro (⟨rfl, rfl⟩ | ⟨middle, rfl, rfl⟩ | ⟨middle, rfl, rfl⟩)
    · rfl
    · simp
    · simp

variable (separator : Char)

def joined (first rest : String) : String := first ++ String.singleton separator ++ rest

theorem joined_toList (first rest : String) :
    (joined separator first rest).toList = first.toList ++ separator :: rest.toList := by
  simp [joined, String.toList_append]

theorem eq_joined_iff (whole first rest : String) :
    whole = joined separator first rest ↔
      whole.toList = first.toList ++ separator :: rest.toList := by
  rw [← String.toList_inj, joined_toList]

theorem joined_eq_iff (first rest other otherRest : String) :
    joined separator first rest = joined separator other otherRest ↔
      (first = other ∧ rest = otherRest) ∨
      (∃ middle, other = joined separator first middle ∧
        rest = joined separator middle otherRest) ∨
      (∃ middle, first = joined separator other middle ∧
        otherRest = joined separator middle rest) := by
  have texts : ∀ P : List Char → Prop, (∃ middle, P middle) ↔ ∃ middle : String, P middle.toList :=
    fun P => ⟨fun ⟨middle, holds⟩ => ⟨String.ofList middle, by rwa [String.toList_ofList]⟩,
      fun ⟨middle, holds⟩ => ⟨middle.toList, holds⟩⟩
  simp only [eq_joined_iff, joined_toList, append_cons_eq_iff, String.toList_inj]
  rw [texts, texts]

theorem ne_joined (first rest : String) : first ≠ joined separator first rest := by
  intro same
  have length := congrArg (fun text => text.toList.length) same
  simp [joined_toList] at length

theorem separator_mem_joined (first rest : String) :
    separator ∈ (joined separator first rest).toList := by
  simp [joined_toList]

variable {separator}

/-- The parts can be read off where the second never holds the separator. -/
theorem joined_inj_of_tail {first rest other otherRest : String}
    (plain : separator ∉ rest.toList) (otherPlain : separator ∉ otherRest.toList) :
    joined separator first rest = joined separator other otherRest ↔
      first = other ∧ rest = otherRest := by
  rw [joined_eq_iff]
  refine ⟨?_, .inl⟩
  rintro (same | ⟨middle, -, rfl⟩ | ⟨middle, -, rfl⟩)
  · exact same
  · exact absurd (separator_mem_joined separator _ _) plain
  · exact absurd (separator_mem_joined separator _ _) otherPlain

end Separated
