import Mathlib.Data.List.Count
import Mathlib.Data.List.Induction

/- How deep brackets stand in a text. Nothing here names an application. -/
namespace Brackets

variable {α : Type*} [DecidableEq α]

/-- How many brackets the text leaves open; below zero where it closes more. -/
def level (opening closing : α) (text : List α) : Int :=
  (text.count opening : Int) - text.count closing

/-- How many brackets open where as many have been closed as opened before. -/
def outermost (opening closing : α) (text : List α) : Nat :=
  (List.range text.length).countP (fun place =>
    decide (text[place]? = some opening ∧ level opening closing (text.take place) = 0))

theorem level_append (opening closing : α) (front back : List α) :
    level opening closing (front ++ back) =
      level opening closing front + level opening closing back := by
  simp only [level, List.count_append, Int.natCast_add]
  omega

variable {opening closing : α} {text : List α}

theorem level_of_free (unopened : opening ∉ text) (unclosed : closing ∉ text) :
    level opening closing text = 0 := by
  rw [level, List.count_eq_zero_of_not_mem unopened, List.count_eq_zero_of_not_mem unclosed]
  rfl

theorem level_opening (apart : opening ≠ closing) : level opening closing [opening] = 1 := by
  rw [level, List.count_singleton_self, List.count_singleton, if_neg (by simpa using apart)]
  rfl

theorem level_closing (apart : opening ≠ closing) : level opening closing [closing] = -1 := by
  rw [level, List.count_singleton_self, List.count_singleton, if_neg (by simpa using apart.symm)]
  rfl

/-- One more item is counted where it opens a bracket that no other holds. -/
theorem outermost_concat (opening closing : α) (text : List α) (item : α) :
    outermost opening closing (text ++ [item]) = outermost opening closing text +
      if item = opening ∧ level opening closing text = 0 then 1 else 0 := by
  have earlier : (List.range text.length).countP (fun place =>
      decide ((text ++ [item])[place]? = some opening ∧
        level opening closing ((text ++ [item]).take place) = 0)) =
      outermost opening closing text := by
    apply List.countP_congr
    intro place inside
    rw [List.mem_range] at inside
    rw [List.getElem?_append_left inside, List.take_append_of_le_length (Nat.le_of_lt inside)]
  rw [outermost, List.length_append, List.length_singleton, List.range_succ, List.countP_append,
    earlier, List.countP_singleton, List.getElem?_concat_length, List.take_left']
  · simp
  · rfl

end Brackets
