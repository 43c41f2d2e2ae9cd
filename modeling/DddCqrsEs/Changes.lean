import Mathlib.Data.List.Induction
import Mathlib.Logic.Function.Basic

/- Changes to the entries of a store, in turn, and what taking back some of them leaves. Nothing
here names an application. -/
namespace Changes

variable {κ α : Type*} [DecidableEq κ]

/-- The store after the changes. -/
def applied (store : κ → α) : List (κ × α) → κ → α
  | [] => store
  | change :: changes => applied (Function.update store change.1 change.2) changes

@[simp] theorem applied_nil (store : κ → α) : applied store [] = store := rfl

@[simp] theorem applied_cons (store : κ → α) (change : κ × α) (changes : List (κ × α)) :
    applied store (change :: changes) =
      applied (Function.update store change.1 change.2) changes := rfl

theorem applied_append (store : κ → α) (first second : List (κ × α)) :
    applied store (first ++ second) = applied (applied store first) second := by
  induction first generalizing store with
  | nil => rfl
  | cons change first ih => exact ih (Function.update store change.1 change.2)

/-- A change before others shows exactly where they leave its key alone. -/
theorem applied_update (store : κ → α) (changes : List (κ × α)) (key : κ) (value : α) :
    applied (Function.update store key value) changes =
      if key ∈ changes.map Prod.fst then applied store changes
      else Function.update (applied store changes) key value := by
  induction changes generalizing store with
  | nil => rfl
  | cons change changes ih =>
    rw [applied_cons, applied_cons, List.map_cons]
    by_cases same : key = change.1
    · rw [if_pos (List.mem_cons.mpr (Or.inl same)), same, Function.update_idem]
    · rw [Function.update_comm same, ih]
      by_cases later : key ∈ changes.map Prod.fst
      · rw [if_pos later, if_pos (List.mem_cons_of_mem _ later)]
      · rw [if_neg later, if_neg (by simpa [same] using later)]

/-- Changes before others come down to those that the others leave alone. -/
theorem applied_applied (store : κ → α) (first second : List (κ × α)) :
    applied (applied store first) second =
      applied (applied store second)
        (first.filter (fun change => change.1 ∉ second.map Prod.fst)) := by
  induction first generalizing store with
  | nil => rfl
  | cons change first ih =>
    rw [applied_cons, ih, applied_update, List.filter_cons]
    by_cases later : change.1 ∈ second.map Prod.fst
    · rw [if_pos later, if_neg (by simpa using later)]
    · rw [if_neg later, if_pos (by simpa using later), applied_cons]

/-- What the records held is put back, the last one first. -/
def undo (records : List (κ × α)) : List (κ × α) := records.reverse

omit [DecidableEq κ] in
theorem mem_undo {records : List (κ × α)} {key : κ} :
    key ∈ (undo records).map Prod.fst ↔ key ∈ records.map Prod.fst := by
  rw [undo, List.map_reverse, List.mem_reverse]

/-- A change that is recorded with what its key held is taken back first. -/
theorem applied_undo_snoc (store : κ → α) (records : List (κ × α)) (key : κ) (old : α) :
    applied store (undo (records ++ [(key, old)])) =
      applied (Function.update store key old) (undo records) := by
  rw [undo, List.reverse_append]
  rfl

/-- An entry never shows another value exactly when no change gives it one. -/
theorem unchanged_iff {store : κ → α} {changes : List (κ × α)} {key : κ} :
    (∀ early, early <+: changes → applied store early key = store key) ↔
      ∀ change ∈ changes, change.1 = key → change.2 = store key := by
  induction changes using List.reverseRecOn with
  | nil =>
    refine iff_of_true ?_ (by simp)
    intro early opens
    rw [List.prefix_nil.mp opens]
    rfl
  | append_singleton changes last ih =>
    simp only [List.prefix_concat_iff, List.forall_mem_append, List.forall_mem_singleton]
    rw [← ih]
    have ends : applied store (changes ++ [last]) key =
        if last.1 = key then last.2 else applied store changes key := by
      rw [applied_append, applied_cons, applied_nil, Function.update_apply]
      by_cases same : key = last.1
      · rw [if_pos same, if_pos same.symm]
      · rw [if_neg same, if_neg (Ne.symm same)]
    constructor
    · intro kept
      refine ⟨fun early opens => kept early (Or.inr opens), ?_⟩
      intro same
      have last := kept _ (Or.inl rfl)
      rw [ends, if_pos same] at last
      exact last
    · rintro ⟨kept, only⟩ early (rfl | opens)
      · rw [ends]
        split
        · rename_i same
          exact only same
        · exact kept changes List.prefix_rfl
      · exact kept early opens

end Changes
