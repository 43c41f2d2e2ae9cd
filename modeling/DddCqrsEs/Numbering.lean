import Mathlib.Data.List.Sort

/- Lists whose items carry the numbers from 1 on, each once and in any order. -/
namespace Numbering

variable {α β : Type*} {number : α → Nat} {items added : List α}

def Numbered (number : α → Nat) (items : List α) : Prop :=
  (items.map number).Perm (List.range' 1 items.length)

/-- The items carry the numbers that follow `last`, in order. -/
def Continues (number : α → Nat) (last : Nat) (items : List α) : Prop :=
  items.map number = List.range' (last + 1) items.length

theorem Numbered.nil : Numbered number ([] : List α) := List.Perm.nil

theorem Numbered.append (numbered : Numbered number items)
    (continues : Continues number items.length added) : Numbered number (items ++ added) := by
  have joined : List.range' 1 (items ++ added).length =
      List.range' 1 items.length ++ List.range' (items.length + 1) added.length := by
    rw [List.length_append, Nat.add_comm items.length 1, List.range'_append_1]
  unfold Numbered
  rw [joined, List.map_append, continues]
  exact List.Perm.append_right _ numbered

theorem Continues.append {last : Nat} (continues : Continues number last items)
    (further : Continues number (last + items.length) added) :
    Continues number last (items ++ added) := by
  have joined : List.range' (last + 1) (items ++ added).length =
      List.range' (last + 1) items.length ++ List.range' (last + items.length + 1) added.length := by
    rw [List.length_append, Nat.add_right_comm last items.length 1, List.range'_append_1]
  rw [Continues, joined, List.map_append, continues, further]

theorem Continues.pairwise {last : Nat} (continues : Continues number last items) :
    (items.map number).Pairwise (· ≤ ·) := by
  rw [continues]
  exact List.pairwise_le_range'

/-- The highest number, or the start where none is higher. -/
def highest (number : α → Nat) (start : Nat) (items : List α) : Nat :=
  items.foldl (fun highest item => max highest (number item)) start

theorem highest_map (start : Nat) :
    highest number start items = (items.map number).foldl max start := by
  rw [highest, List.foldl_map]

theorem foldl_max_range' (length : Nat) : (List.range' 1 length).foldl max 0 = length := by
  induction length with
  | zero => rfl
  | succ length ih =>
    rw [List.range'_1_concat, List.foldl_append, ih, List.foldl_cons, List.foldl_nil]
    omega

/-- The highest number tells how many items there are. -/
theorem Numbered.highest (numbered : Numbered number items) :
    highest number 0 items = items.length := by
  have same : (items.map number).Perm (List.range' 1 items.length) := numbered
  rw [highest_map, same.foldl_eq' (fun _ _ _ _ _ => by omega) 0, foldl_max_range']

/-- A stable sort by number. -/
def inOrder (number : α → Nat) (items : List α) : List α :=
  items.insertionSort (fun first second => number first ≤ number second)

theorem inOrder_perm (number : α → Nat) (items : List α) : (inOrder number items).Perm items :=
  List.perm_insertionSort _ items

theorem inOrder_pairwise (number : α → Nat) (items : List α) :
    ((inOrder number items).map number).Pairwise (· ≤ ·) := by
  have total : Std.Total (fun first second : α => number first ≤ number second) :=
    ⟨fun first second => Nat.le_total (number first) (number second)⟩
  have trans : IsTrans α (fun first second : α => number first ≤ number second) :=
    ⟨fun _ _ _ => Nat.le_trans⟩
  rw [List.pairwise_map]
  exact List.pairwise_insertionSort (fun first second : α => number first ≤ number second) items

theorem Numbered.inOrder (numbered : Numbered number items) :
    (inOrder number items).map number = List.range' 1 items.length := by
  have same := ((inOrder_perm number items).map number).trans numbered
  refine same.eq_of_pairwise (fun _ _ _ _ => Nat.le_antisymm) (inOrder_pairwise number items) ?_
  exact List.pairwise_le_range'

/-- Items that stand in order stay where they are. -/
theorem inOrder_of_pairwise (ascending : (items.map number).Pairwise (· ≤ ·)) :
    inOrder number items = items := by
  rw [List.pairwise_map] at ascending
  exact ascending.insertionSort_eq

theorem map_inOrder {other : β → Nat} {f : α → β} (kept : ∀ item, other (f item) = number item) :
    (inOrder number items).map f = inOrder other (items.map f) := by
  apply List.map_insertionSort
  intro first _ second _
  rw [kept, kept]

end Numbering
