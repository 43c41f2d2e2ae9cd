import Mathlib.Data.List.Basic

/- Where a word can stand in a text put together from parts: in one of them, or over a seam.
Nothing here names an application. -/
namespace Substrings

variable {α : Type*}

/-- No end of the word opens the text, so that the word does not reach into it from before. -/
def Unjoined (word text : List α) : Prop :=
  ∀ index < word.length, 0 < index → ¬ word.drop index <+: text

instance [DecidableEq α] (word text : List α) : Decidable (Unjoined word text) :=
  inferInstanceAs (Decidable (∀ index < word.length, 0 < index → ¬ word.drop index <+: text))

variable {word : List α} {item : α}

theorem infix_append_of_unjoined {text : List α} (apart : Unjoined word text) (before : List α) :
    word <:+: before ++ text ↔ word <:+: before ∨ word <:+: text := by
  rw [List.infix_append_iff_ne_nil]
  constructor
  · rintro (left | right | ⟨front, back, nonempty, more, split, -, reaches⟩)
    · exact Or.inl left
    · exact Or.inr right
    · have positive := List.length_pos_iff.mpr nonempty
      have within := List.length_pos_iff.mpr more
      have whole : word.drop front.length = back := by rw [split, List.drop_left]
      have shorter : front.length < word.length := by
        rw [split, List.length_append]
        omega
      exact absurd (whole ▸ reaches) (apart front.length shorter positive)
  · rintro (left | right)
    · exact Or.inl left
    · exact Or.inr (Or.inl right)

/-- A text that opens with an item the word does not have is not reached into. -/
theorem unjoined_of_not_mem (foreign : item ∉ word) (text : List α) :
    Unjoined word (item :: text) := by
  intro index within _ reaches
  obtain ⟨rest, opens⟩ := reaches
  rw [List.drop_eq_getElem_cons within] at opens
  simp only [List.cons_append, List.cons.injEq] at opens
  exact foreign (opens.1 ▸ List.getElem_mem within)

/-- Nor does the word begin there. -/
theorem infix_cons_of_not_mem (foreign : item ∉ word) (text : List α) :
    word <:+: item :: text ↔ word <:+: text := by
  rw [List.infix_cons_iff]
  constructor
  · rintro (opens | later)
    · cases word with
      | nil => exact List.nil_infix
      | cons first word =>
        rw [List.cons_prefix_cons] at opens
        exact absurd (opens.1 ▸ List.mem_cons_self) foreign
    · exact later
  · exact Or.inr

/-- An item that the word does not have separates the text. -/
theorem infix_separated (foreign : item ∉ word) (before text : List α) :
    word <:+: before ++ item :: text ↔ word <:+: before ∨ word <:+: text := by
  rw [infix_append_of_unjoined (unjoined_of_not_mem foreign text), infix_cons_of_not_mem foreign]

end Substrings
