import Mathlib.Data.List.Basic
import Mathlib.Tactic.TypeStar

/- Append-only logs of keyed entries. An entry's position counts the whole log and
its rank counts the entries of its own key; both are functions of the log alone, so
a store that keeps them as fields can be compared with the bare list of entries. -/
namespace KeyedLog

/-- An entry with the two numbers its place in the log gives it. -/
structure Slot (κ ε : Type*) where
  key : κ
  entry : ε
  position : Nat
  rank : Nat

variable {κ ε : Type*} [DecidableEq κ]

/-- Number the entries of a log whose earlier entries had the keys `before`. -/
def numberAfter : List κ → List (κ × ε) → List (Slot κ ε)
  | _, [] => []
  | before, head :: rest =>
    ⟨head.1, head.2, before.length + 1, before.count head.1 + 1⟩ ::
      numberAfter (before ++ [head.1]) rest

def number (log : List (κ × ε)) : List (Slot κ ε) := numberAfter [] log

@[simp] theorem numberAfter_nil (before : List κ) :
    numberAfter before ([] : List (κ × ε)) = [] := rfl

@[simp] theorem numberAfter_cons (before : List κ) (head : κ × ε) (rest : List (κ × ε)) :
    numberAfter before (head :: rest) =
      ⟨head.1, head.2, before.length + 1, before.count head.1 + 1⟩ ::
        numberAfter (before ++ [head.1]) rest := rfl

theorem numberAfter_append (before : List κ) (first second : List (κ × ε)) :
    numberAfter before (first ++ second) =
      numberAfter before first ++ numberAfter (before ++ first.map Prod.fst) second := by
  induction first generalizing before with
  | nil => simp
  | cons head rest ih =>
    simp only [List.cons_append, numberAfter_cons, ih, List.map_cons, List.append_assoc,
      List.nil_append]

theorem number_append (first second : List (κ × ε)) :
    number (first ++ second) = number first ++ numberAfter (first.map Prod.fst) second := by
  simp [number, numberAfter_append]

@[simp] theorem numberAfter_length (before : List κ) (log : List (κ × ε)) :
    (numberAfter before log).length = log.length := by
  induction log generalizing before with
  | nil => rfl
  | cons head rest ih => simp [ih]

@[simp] theorem number_length (log : List (κ × ε)) : (number log).length = log.length :=
  numberAfter_length [] log

theorem numberAfter_keys (before : List κ) (log : List (κ × ε)) :
    (numberAfter before log).map (·.key) = log.map Prod.fst := by
  induction log generalizing before with
  | nil => rfl
  | cons head rest ih => simp [ih]

theorem numberAfter_entries (before : List κ) (log : List (κ × ε)) :
    (numberAfter before log).map (·.entry) = log.map Prod.snd := by
  induction log generalizing before with
  | nil => rfl
  | cons head rest ih => simp [ih]

/-- A batch of one key is numbered under that key. -/
theorem key_of_mem_numberAfter {before : List κ} {key : κ} {entries : List ε} {slot : Slot κ ε}
    (numbered : slot ∈ numberAfter before (entries.map (fun entry => (key, entry)))) :
    slot.key = key := by
  have listed := List.mem_map_of_mem (f := (·.key)) numbered
  rw [numberAfter_keys, List.map_map] at listed
  obtain ⟨_, _, same⟩ := List.mem_map.mp listed
  exact same.symm

/-- Positions count up through the whole log, whatever the keys are. -/
theorem numberAfter_positions (before : List κ) (log : List (κ × ε)) :
    (numberAfter before log).map (·.position) =
      List.range' (before.length + 1) log.length := by
  induction log generalizing before with
  | nil => rfl
  | cons head rest ih =>
    simp only [numberAfter_cons, List.map_cons, ih, List.length_append, List.length_cons,
      List.length_nil, Nat.zero_add, List.range'_succ]

/-- Ranks count up through the entries of one key, skipping the others. -/
theorem numberAfter_ranks (before : List κ) (log : List (κ × ε)) (key : κ) :
    ((numberAfter before log).filter (fun slot => slot.key = key)).map (·.rank) =
      List.range' (before.count key + 1) ((log.map Prod.fst).count key) := by
  induction log generalizing before with
  | nil => rfl
  | cons head rest ih =>
    by_cases same : head.1 = key
    · subst same
      simp [ih, List.range'_succ]
    · simp [ih, same]

theorem number_positions (log : List (κ × ε)) :
    (number log).map (·.position) = List.range' 1 log.length :=
  numberAfter_positions [] log

theorem number_ranks (log : List (κ × ε)) (key : κ) :
    ((number log).filter (fun slot => slot.key = key)).map (·.rank) =
      List.range' 1 ((log.map Prod.fst).count key) := by
  simpa [number] using numberAfter_ranks [] log key

/-- Looking up the places of the selected items, which start after `front`, gives the
selected items. -/
theorem gather_findIdxs_after {α : Type*} (selected : α → Bool) (front items : List α) :
    (items.findIdxs selected front.length).mapM (fun index => (front ++ items)[index]?) =
      some (items.filter selected) := by
  induction items generalizing front with
  | nil => rfl
  | cons item rest ih =>
    have moved := ih (front ++ [item])
    rw [List.length_append, List.length_singleton, List.append_assoc,
      List.singleton_append] at moved
    rw [List.findIdxs_cons]
    split
    · rename_i kept
      rw [List.mapM_cons, moved, List.filter_cons_of_pos kept]
      simp
    · rename_i dropped
      rw [moved, List.filter_cons_of_neg dropped]

theorem gather_findIdxs {α : Type*} (selected : α → Bool) (items : List α) :
    (items.findIdxs selected).mapM (fun index => items[index]?) =
      some (items.filter selected) :=
  gather_findIdxs_after selected [] items

end KeyedLog
