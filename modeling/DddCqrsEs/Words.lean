import Mathlib.Data.List.Basic
import Mathlib.Data.List.Infix

/- Words searched from behind and taken out of a text. Nothing here names an
application. -/
namespace Words

variable {α : Type*} [DecidableEq α]

/-- The place where the word stands last (`str::rfind`). -/
@[grind =]
def rfind (word : List α) : List α → Option Nat
  | [] => if word = [] then some 0 else none
  | item :: text =>
    match rfind word text with
    | some place => some (place + 1)
    | none => if word.isPrefixOf (item :: text) then some 0 else none

/-- The text without the words found from left to right, while `skip` items still belong
to the word found last. -/
@[grind =]
def removeAfter (word : List α) : Nat → List α → List α
  | _, [] => []
  | skip + 1, _ :: text => removeAfter word skip text
  | 0, item :: text =>
    if word.isPrefixOf (item :: text) then removeAfter word (word.length - 1) text
    else item :: removeAfter word 0 text

/-- `str::replace` of the word by nothing. -/
def remove (word text : List α) : List α := removeAfter word 0 text

theorem removeAfter_eq (word text : List α) (skip : Nat) :
    removeAfter word skip text = remove word (text.drop skip) := by
  induction text generalizing skip with
  | nil =>
    rw [List.drop_nil]
    cases skip <;> rfl
  | cons item text ih =>
    cases skip with
    | zero => rfl
    | succ skip =>
      rw [removeAfter, ih]
      rfl

variable {word text : List α} {item : α}

theorem remove_append_of_word (nonempty : word ≠ []) (text : List α) :
    remove word (word ++ text) = remove word text := by
  cases word with
  | nil => exact absurd rfl nonempty
  | cons first word =>
    have starts : (first :: word).isPrefixOf (first :: (word ++ text)) = true := by
      rw [List.isPrefixOf_iff_prefix]
      exact List.prefix_append (first :: word) text
    show removeAfter (first :: word) 0 (first :: (word ++ text)) = _
    rw [removeAfter, if_pos starts, removeAfter_eq]
    simp

theorem remove_cons_passed (other : ¬ word <+: item :: text) :
    remove word (item :: text) = item :: remove word text := by
  have fails : ¬ word.isPrefixOf (item :: text) = true := by
    rw [List.isPrefixOf_iff_prefix]
    exact other
  show removeAfter word 0 (item :: text) = _
  rw [removeAfter, if_neg fails]
  rfl

/-- Facts about `remove`, by what it does at the front of the text. -/
theorem remove_induction (nonempty : word ≠ []) {motive : List α → Prop} (nil : motive [])
    (found : ∀ text, motive text → motive (word ++ text))
    (passed : ∀ item text, ¬ word <+: item :: text → motive text → motive (item :: text))
    (text : List α) : motive text := by
  induction size : text.length using Nat.strongRecOn generalizing text with
  | ind length ih =>
    cases text with
    | nil => exact nil
    | cons item text =>
      by_cases starts : word <+: item :: text
      · obtain ⟨rest, whole⟩ := starts
        have positive : 0 < word.length := List.length_pos_iff.mpr nonempty
        have shorter : rest.length < length := by
          rw [← size, ← whole, List.length_append]
          omega
        rw [← whole]
        exact found rest (ih _ shorter rest rfl)
      · apply passed item text starts
        apply ih text.length
        · rw [← size]
          exact Nat.lt_succ_self _
        · rfl

theorem remove_sublist (nonempty : word ≠ []) (text : List α) :
    List.Sublist (remove word text) text := by
  induction text using remove_induction nonempty with
  | nil => exact List.Sublist.refl []
  | found text ih =>
    rw [remove_append_of_word nonempty]
    exact ih.trans (List.sublist_append_right word text)
  | passed item text other ih =>
    rw [remove_cons_passed other]
    exact ih.cons_cons item

theorem remove_eq_self (absent : ¬ word <:+: text) : remove word text = text := by
  induction text with
  | nil => rfl
  | cons item text ih =>
    rw [List.infix_cons_iff, not_or] at absent
    rw [remove_cons_passed absent.1, ih absent.2]

/-- The text stays as long as it is exactly where the word does not stand in it. -/
theorem remove_length_eq_iff (nonempty : word ≠ []) :
    (remove word text).length = text.length ↔ ¬ word <:+: text := by
  constructor
  · induction text using remove_induction nonempty with
    | nil =>
      intro _ inside
      exact nonempty (List.eq_nil_of_infix_nil inside)
    | found text ih =>
      intro same
      have positive : 0 < word.length := List.length_pos_iff.mpr nonempty
      have shorter := (remove_sublist nonempty text).length_le
      rw [remove_append_of_word nonempty, List.length_append] at same
      omega
    | passed item text other ih =>
      intro same
      rw [remove_cons_passed other, List.length_cons, List.length_cons] at same
      rw [List.infix_cons_iff, not_or]
      exact ⟨other, ih (Nat.succ_inj.mp same)⟩
  · intro absent
    rw [remove_eq_self absent]

omit [DecidableEq α] in
theorem prefix_of_prefix_append_cons {front back : List α} (foreign : item ∉ word)
    (starts : word <+: front ++ item :: back) : word <+: front := by
  obtain ⟨rest, whole⟩ := starts
  rcases List.append_eq_append_iff.mp whole with ⟨more, within, _⟩ | ⟨beyond, split, rests⟩
  · exact ⟨more, within.symm⟩
  · cases beyond with
    | nil => exact ⟨[], by rw [List.append_nil, split, List.append_nil]⟩
    | cons first beyond =>
      have same : item = first := (List.cons.inj rests).1
      rw [split, same] at foreign
      exact absurd (List.mem_append_right _ List.mem_cons_self) foreign

/-- An item that is not in the word separates what is taken out. -/
theorem remove_append_cons (nonempty : word ≠ []) (foreign : item ∉ word) (front back : List α) :
    remove word (front ++ item :: back) = remove word front ++ item :: remove word back := by
  induction front using remove_induction nonempty with
  | nil =>
    apply remove_cons_passed
    intro starts
    have empty : word <+: [] := prefix_of_prefix_append_cons foreign starts
    exact nonempty (List.prefix_nil.mp empty)
  | found front ih =>
    rw [List.append_assoc, remove_append_of_word nonempty, remove_append_of_word nonempty, ih]
  | passed first front other ih =>
    have apart : ¬ word <+: first :: (front ++ item :: back) := by
      intro starts
      rw [← List.cons_append] at starts
      exact other (prefix_of_prefix_append_cons foreign starts)
    rw [List.cons_append, remove_cons_passed apart, ih, remove_cons_passed other,
      List.cons_append]

/-- A word whose second item cannot stand before it is found where it is. -/
theorem remove_append_self {kind : α → Prop} {first second : α} {word front : List α}
    (items : ∀ item ∈ front, kind item) (opens : kind first) (other : ¬ kind second) :
    remove (first :: second :: word) (front ++ first :: second :: word) = front := by
  induction front with
  | nil =>
    have whole := remove_append_of_word (List.cons_ne_nil first (second :: word)) []
    rw [List.append_nil] at whole
    exact whole
  | cons item front ih =>
    have apart : ¬ first :: second :: word <+: item :: (front ++ first :: second :: word) := by
      intro starts
      obtain ⟨rest, reaches⟩ := (List.cons_prefix_cons.mp starts).2
      have next : second ∈ (front ++ first :: second :: word).head? := by
        rw [← reaches]
        rfl
      cases front with
      | nil =>
        rw [List.nil_append, List.head?_cons, Option.mem_def, Option.some_inj] at next
        exact other (next ▸ opens)
      | cons another front =>
        rw [List.cons_append, List.head?_cons, Option.mem_def, Option.some_inj] at next
        exact other (next ▸ items another (by simp))
    rw [List.cons_append, remove_cons_passed apart,
      ih (fun item member => items item (List.mem_cons_of_mem _ member))]

end Words
