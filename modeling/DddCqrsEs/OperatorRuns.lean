import DddCqrsEs.NumberBounds

/- What a minus sign behind an operator does to it. Nothing here names an application. -/
namespace SqlLexer

variable {text : List Char}

theorem cutComments_longer (shorter : cutComments text ≠ text) (c : Char) :
    cutComments (text ++ [c]) = cutComments text := by
  induction text with
  | nil => exact absurd rfl shorter
  | cons first text ih =>
    cases text with
    | nil => exact absurd (by simp [cutComments]) shorter
    | cons second text =>
      rw [List.cons_append, cutComments, cutComments]
      show (if (first = '-' ∧ some second = some '-') ∨ (first = '/' ∧ some second = some '*')
        then [] else _) = if (first = '-' ∧ some second = some '-') ∨
          (first = '/' ∧ some second = some '*') then [] else _
      split
      · rfl
      · rename_i other
        rw [ih]
        intro same
        apply shorter
        rw [cutComments]
        exact (if_neg other).trans (congrArg (first :: ·) same)

/-- A second minus sign starts a comment with the one before. -/
theorem cutComments_minus (whole : cutComments text = text) :
    cutComments (text ++ ['-']) =
      if text.getLast? = some '-' then text.dropLast else text ++ ['-'] := by
  induction text with
  | nil => decide
  | cons first text ih =>
    rw [cutComments] at whole
    split at whole
    · cases whole
    · rename_i other
      have inner := (List.cons.inj whole).2
      cases text with
      | nil =>
        by_cases minus : first = '-'
        · subst minus
          decide
        · simp [cutComments, minus]
      | cons second text =>
        rw [List.cons_append, cutComments]
        rw [if_neg (by exact other), ih inner, List.getLast?_cons_cons]
        split
        · rfl
        · rfl

theorem operatorOf_eq_self (whole : operatorOf text = text) :
    cutComments text = text ∧ trimSigns text = text := by
  have inner : text <+: cutComments text := by
    have opens := trimSigns_opens (cutComments text)
    rw [← operatorOf, whole] at opens
    exact opens
  have same : cutComments text = text :=
    (cutComments_opens text).eq_of_length
      (Nat.le_antisymm (cutComments_opens text).length_le inner.length_le)
  rw [operatorOf, same] at whole
  exact ⟨same, whole⟩

theorem trimSigns_plain (plain : text.any allowsSign = false) {c : Char} (sign : isSign c = true)
    (single : allowsSign c = false) (nonempty : text ≠ []) :
    trimSigns (text ++ [c]) = trimSigns text := by
  cases text with
  | nil => exact absurd rfl nonempty
  | cons first text =>
    have longer : (first :: text ++ [c]).any allowsSign = false := by
      rw [List.any_append, plain, Bool.false_or]
      simp [single]
    rw [trimSigns, trimSigns, longer, plain, if_neg Bool.false_ne_true, if_neg Bool.false_ne_true]
    show [first] ++ (text ++ [c]).rdropWhile isSign = [first] ++ text.rdropWhile isSign
    rw [List.rdropWhile_concat_pos _ _ _ sign]

theorem cutComments_length (text : List Char) :
    cutComments text = text ∨ (cutComments text).length + 2 ≤ text.length := by
  induction text with
  | nil => exact Or.inl rfl
  | cons first text ih =>
    rw [cutComments]
    split
    · rename_i comment
      right
      cases text with
      | nil => simp at comment
      | cons second text =>
        simp only [List.length_nil, List.length_cons]
        omega
    · rcases ih with whole | shorter
      · left
        rw [whole]
      · right
        rw [List.length_cons, List.length_cons]
        omega

theorem cutComments_of_append {front back : List Char}
    (whole : cutComments (front ++ back) = front ++ back) : cutComments front = front := by
  induction front with
  | nil => rfl
  | cons first front ih =>
    rw [List.cons_append, cutComments] at whole
    split at whole
    · cases whole
    · rename_i other
      have inner := ih (List.cons.inj whole).2
      rw [cutComments, if_neg, inner]
      intro comment
      apply other
      cases front with
      | nil => simp at comment
      | cons second front => exact comment

/-- An operator that may end with a sign takes the minus sign behind it, and one that ends with
a minus sign loses it to a comment. -/
theorem operatorOf_minus_ne (marks : text.any allowsSign = true ∨ text.getLast? = some '-') :
    operatorOf (text ++ ['-']) ≠ text := by
  intro same
  rcases cutComments_length (text ++ ['-']) with whole | shorter
  · have cut := cutComments_of_append whole
    rw [cutComments_minus cut] at whole
    split at whole
    · have lengths := congrArg List.length whole
      rw [List.length_dropLast, List.length_append, List.length_singleton] at lengths
      omega
    · rename_i other
      have allowed := marks.resolve_right other
      have more : (text ++ ['-']).any allowsSign = true := by
        rw [List.any_append, allowed, Bool.true_or]
      rw [operatorOf, cutComments_minus cut, if_neg other, trimSigns, if_pos more,
        List.append_right_eq_self] at same
      cases same
  · have opens := (trimSigns_opens (cutComments (text ++ ['-']))).length_le
    rw [← operatorOf, same] at opens
    rw [List.length_append, List.length_singleton] at shorter
    omega

/-- Any other operator is followed by a minus sign of its own. -/
theorem operatorOf_minus (whole : operatorOf text = text) (nonempty : text ≠ [])
    (plain : ¬ (text.any allowsSign = true ∨ text.getLast? = some '-')) :
    operatorOf (text ++ ['-']) = text := by
  obtain ⟨cut, trimmed⟩ := operatorOf_eq_self whole
  rw [not_or, Bool.not_eq_true] at plain
  rw [operatorOf, cutComments_minus cut, if_neg plain.2,
    trimSigns_plain plain.1 (by decide) (by decide) nonempty, trimmed]

/-- What follows the end of an operator in its run does not change with another minus sign. -/
theorem operatorOf_longer (shorter : operatorOf text ≠ text) :
    operatorOf (text ++ ['-']) = operatorOf text := by
  by_cases cut : cutComments text = text
  · rw [operatorOf, cut] at shorter
    have plain : text.any allowsSign = false := by
      rw [Bool.eq_false_iff]
      intro allowed
      exact shorter (by rw [trimSigns, if_pos allowed])
    rw [operatorOf, operatorOf, cut, cutComments_minus cut]
    rcases List.eq_nil_or_concat text with empty | ⟨front, last, split⟩
    · rw [empty] at shorter
      exact absurd rfl shorter
    · rw [List.concat_eq_append] at split
      have nonempty : front ≠ [] := by
        intro none
        rw [split, none, List.nil_append] at shorter
        apply shorter
        rw [trimSigns]
        split
        · rfl
        · rfl
      have frontPlain : front.any allowsSign = false := by
        rw [split, List.any_append, Bool.or_eq_false_iff] at plain
        exact plain.1
      by_cases minus : last = '-'
      · subst minus
        rw [split, List.getLast?_concat, if_pos rfl, List.dropLast_concat,
          trimSigns_plain frontPlain (by decide) (by decide) nonempty]
      · have other : ¬ text.getLast? = some '-' := by
          rw [split, List.getLast?_concat, Option.some_inj]
          exact minus
        have textNonempty : text ≠ [] := by
          rw [split]
          exact List.append_ne_nil_of_right_ne_nil _ (List.cons_ne_nil _ _)
        rw [if_neg other, trimSigns_plain plain (by decide) (by decide) textNonempty]
  · rw [operatorOf, operatorOf, cutComments_longer cut]

end SqlLexer
