import DddCqrsEs.Cuts
import Mathlib.Data.List.Chain

/- Texts in which a separator stands between other items only, one at a time. Nothing here
names an application. -/
namespace Hyphenated

variable {α : Type*}

/-- No two separators stand side by side. -/
def Apart (separator : α) (text : List α) : Prop :=
  text.IsChain fun item next => item = separator → next ≠ separator

/-- A text as it is written from the left: a separator may still stand at its end. -/
structure Started (separator : α) (text : List α) : Prop where
  starts : text.head? ≠ some separator
  apart : Apart separator text

variable {separator : α} {text : List α}

theorem apart_iff : Apart separator text ↔ ¬ [separator, separator] <:+: text := by
  constructor
  · intro apart inside
    have both : Apart separator [separator, separator] := List.IsChain.infix apart inside
    rw [Apart, List.isChain_cons_cons] at both
    exact both.1 rfl rfl
  · intro absent
    rw [Apart, List.isChain_iff_forall_rel_of_append_cons_cons]
    rintro first second front back rfl rfl rfl
    exact absent ⟨front, back, by simp⟩

namespace Started

theorem nil : Started separator ([] : List α) where
  starts := by simp
  apart := List.IsChain.nil

theorem concat_item {item : α} (started : Started separator text) (other : item ≠ separator) :
    Started separator (text ++ [item]) where
  starts := by
    cases text with
    | nil => simpa using other
    | cons first text => exact started.starts
  apart := by
    refine List.IsChain.append started.apart (List.IsChain.singleton item) ?_
    intro last _ next joined _
    simp only [List.head?_cons, Option.mem_some_iff] at joined
    exact joined ▸ other

theorem concat_separator (started : Started separator text) (nonempty : text ≠ [])
    (ends : text.getLast? ≠ some separator) : Started separator (text ++ [separator]) where
  starts := by
    rw [List.head?_append_of_ne_nil _ nonempty]
    exact started.starts
  apart := by
    refine List.IsChain.append started.apart (List.IsChain.singleton separator) ?_
    intro last member next _ same
    exact absurd (same ▸ member) ends

theorem of_prefix {front : List α} (started : Started separator text) (opens : front <+: text) :
    Started separator front where
  starts := by
    obtain ⟨back, whole⟩ := opens
    cases front with
    | nil => simp
    | cons first front =>
      have starts := started.starts
      rw [← whole] at starts
      exact starts
  apart := List.IsChain.prefix started.apart opens

end Started

variable [DecidableEq α]

/-- The text without what it ends in. -/
def ended (separator : α) (text : List α) : List α := text.rdropWhile (· == separator)

/-- What stands between the separators. -/
def items (separator : α) (text : List α) : List α := text.filter (· != separator)

theorem ended_prefix (separator : α) (text : List α) : ended separator text <+: text :=
  List.rdropWhile_prefix _ _

theorem getLast_ended : (ended separator text).getLast? ≠ some separator := by
  intro last
  have nonempty : ended separator text ≠ [] := by
    intro empty
    rw [empty] at last
    cases last
  have kept := List.rdropWhile_last_not (· == separator) text nonempty
  rw [List.getLast?_eq_some_getLast nonempty, Option.some_inj] at last
  exact kept (by simpa [ended] using last)

/-- At most the last item goes. -/
theorem ended_eq (apart : Apart separator text) :
    ended separator text = text ∨ text = ended separator text ++ [separator] := by
  cases text using List.reverseRecOn with
  | nil => exact Or.inl rfl
  | append_singleton front last =>
    by_cases same : last = separator
    · subst same
      have kept : ended last (front ++ [last]) = ended last front := by
        simp [ended, List.rdropWhile_concat_pos]
      have whole : ended last front = front := by
        rw [ended, List.rdropWhile_eq_self_iff]
        intro nonempty double
        have side := List.IsChain.rel_getLast_head_of_append apart nonempty (by simp)
        exact side (by simpa using double) rfl
      exact Or.inr (by rw [kept, whole])
    · exact Or.inl (by rw [ended, List.rdropWhile_concat_neg _ _ _ (by simpa using same)])

theorem length_ended (apart : Apart separator text) :
    text.length ≤ (ended separator text).length + 1 := by
  rcases ended_eq apart with whole | cut
  · rw [whole]
    omega
  · have length := congrArg List.length cut
    rw [List.length_append, List.length_singleton] at length
    omega

theorem items_ended (apart : Apart separator text) :
    items separator (ended separator text) = items separator text := by
  rcases ended_eq apart with whole | cut
  · rw [whole]
  · have same := congrArg (items separator) cut
    rw [items, items, List.filter_append] at same
    simpa [items] using same.symm

/-- Where no separator starts the text, its first item is the first of what stands between. -/
theorem head_items (starts : text.head? ≠ some separator) :
    (items separator text).head? = text.head? := by
  cases text with
  | nil => rfl
  | cons first text =>
    have other : first ≠ separator := by simpa using starts
    simp [items, other]

theorem trim_started (starts : text.head? ≠ some separator) :
    Cuts.trim (· == separator) text = ended separator text := by
  cases text with
  | nil => rfl
  | cons first text =>
    have other : first ≠ separator := by simpa using starts
    rw [Cuts.trim, List.dropWhile_cons_of_neg (by simpa using other), ended]

/-- A single item is one between separators only when there are none. -/
theorem length_eq_one (starts : text.head? ≠ some separator)
    (ends : text.getLast? ≠ some separator) :
    text.length = 1 ↔ (items separator text).length = 1 := by
  cases text with
  | nil => rfl
  | cons first text =>
    have other : first ≠ separator := by simpa using starts
    have counted : (items separator (first :: text)).length =
        (items separator text).length + 1 := by
      simp [items, other]
    rw [counted, List.length_cons, Nat.succ_inj, Nat.succ_inj]
    constructor
    · intro short
      rw [List.length_eq_zero_iff.mp short]
      rfl
    · intro none
      by_contra long
      have nonempty : text ≠ [] := fun empty => long (by rw [empty]; rfl)
      rw [List.length_eq_zero_iff, items, List.filter_eq_nil_iff] at none
      have last := none _ (List.getLast_mem nonempty)
      apply ends
      rw [List.getLast?_cons_of_ne_nil nonempty, List.getLast?_eq_some_getLast nonempty]
      simpa using last

end Hyphenated
