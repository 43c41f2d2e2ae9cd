import Mathlib.Data.List.Basic
import Mathlib.Logic.Function.Basic

/- Flat lists of blocks, each after an item that announces its length: a list is cut in one
way only, and neither a part of it nor a longer list is cut into as many blocks. And lists cut
into chunks of one length. Nothing here names an application. -/
namespace Blocks

variable {α : Type*} {mark : Nat → α}

def flat (mark : Nat → α) (blocks : List (List α)) : List α :=
  blocks.flatMap (fun block => mark block.length :: block)

@[simp] theorem flat_nil : flat mark [] = [] := rfl

@[simp] theorem flat_cons (block : List α) (blocks : List (List α)) :
    flat mark (block :: blocks) = mark block.length :: (block ++ flat mark blocks) := rfl

variable {blocks others : List (List α)}

/-- As many blocks are cut from a list in one way only, and leave the same rest. -/
theorem flat_unique (told : Function.Injective mark) {rest after : List α}
    (count : blocks.length = others.length)
    (same : flat mark blocks ++ rest = flat mark others ++ after) :
    blocks = others ∧ rest = after := by
  induction blocks generalizing others with
  | nil =>
    have none : others = [] := List.length_eq_zero_iff.mp count.symm
    subst none
    exact ⟨rfl, same⟩
  | cons block blocks ih =>
    cases others with
    | nil => cases count
    | cons other others =>
      simp only [flat_cons, List.cons_append, List.append_assoc, List.cons.injEq] at same
      obtain ⟨blocksSame, restSame⟩ := List.append_inj same.2 (told same.1)
      obtain ⟨later, ended⟩ := ih (Nat.succ.inj count) restSame
      rw [blocksSame, later]
      exact ⟨rfl, ended⟩

/-- A whole list is cut in one way only. -/
theorem flat_injective (told : Function.Injective mark) : Function.Injective (flat mark) := by
  intro blocks others same
  induction blocks generalizing others with
  | nil =>
    cases others with
    | nil => rfl
    | cons other others => cases same
  | cons block blocks ih =>
    cases others with
    | nil => cases same
    | cons other others =>
      simp only [flat_cons, List.cons.injEq] at same
      obtain ⟨first, later⟩ := List.append_inj same.2 (told same.1)
      rw [first, ih later]

/-- Where no item of a block announces a length, fewer blocks are left without the first
items. -/
theorem fewer_of_drop (told : Function.Injective mark)
    (plain : ∀ block ∈ blocks, ∀ item ∈ block, ∀ length, item ≠ mark length) {count : Nat}
    (positive : 0 < count) (within : count ≤ (flat mark blocks).length)
    (left : (flat mark blocks).drop count = flat mark others) : others.length < blocks.length := by
  induction blocks generalizing count with
  | nil =>
    simp only [flat_nil, List.length_nil] at within
    omega
  | cons block blocks ih =>
    have later : ∀ other ∈ blocks, ∀ item ∈ other, ∀ length, item ≠ mark length :=
      fun other member => plain other (List.mem_cons_of_mem _ member)
    obtain ⟨dropped, rfl⟩ : ∃ dropped, count = dropped + 1 := ⟨count - 1, by omega⟩
    rw [flat_cons, List.drop_succ_cons] at left
    rw [flat_cons, List.length_cons, List.length_append] at within
    by_cases inside : dropped < block.length
    · -- the first item left belongs to the block, and announces nothing
      rw [List.drop_append_of_le_length (Nat.le_of_lt inside),
        List.drop_eq_getElem_cons inside] at left
      cases others with
      | nil => cases left
      | cons other others =>
        simp only [flat_cons, List.cons_append, List.cons.injEq] at left
        exact absurd left.1 (plain block List.mem_cons_self _ (List.getElem_mem inside) _)
    · rw [List.drop_append, List.drop_of_length_le (Nat.le_of_not_lt inside),
        List.nil_append] at left
      by_cases aligned : dropped - block.length = 0
      · rw [aligned, List.drop_zero] at left
        rw [flat_injective told left]
        exact Nat.lt_succ_self _
      · have shorter := ih later (Nat.pos_of_ne_zero aligned) (by omega) left
        exact Nat.lt_succ_of_lt shorter

/-- A list cut into chunks of `size` items, the last of which may be shorter. -/
def chunks (size : Nat) : List α → List (List α)
  | [] => []
  | first :: rest => (first :: rest.take (size - 1)) :: chunks size (rest.drop (size - 1))
termination_by items => items.length
decreasing_by simp only [List.length_drop, List.length_cons]; omega

theorem flatten_chunks (size : Nat) (items : List α) : (chunks size items).flatten = items := by
  induction items using chunks.induct size with
  | case1 => rw [chunks, List.flatten_nil]
  | case2 first rest ih =>
    rw [chunks, List.flatten_cons, ih, List.cons_append, List.take_append_drop]

/-- A chunk that another one follows is full. -/
theorem length_chunk {size : Nat} (positive : 0 < size) {first : α} {rest : List α}
    (more : rest.drop (size - 1) ≠ []) : (first :: rest.take (size - 1)).length = size := by
  have longer : size - 1 < rest.length := by
    rw [ne_eq, List.drop_eq_nil_iff] at more
    omega
  rw [List.length_cons, List.length_take]
  omega

end Blocks
