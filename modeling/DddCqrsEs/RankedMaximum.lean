import Mathlib.Data.List.Induction

/- A running maximum by rank: an item gives way only to one of higher rank, so of several of
the highest rank the first is kept. Nothing here names an application. -/
namespace RankedMaximum

section Rank

variable {α : Type*} (rank : α → Nat)

def keep : Option α → α → Option α
  | none, item => some item
  | some held, item => if rank held < rank item then some item else some held

def kept (items : List α) : Option α := items.foldl (keep rank) none

variable {rank}

@[simp] theorem kept_nil : kept rank [] = none := rfl

@[simp] theorem kept_snoc (items : List α) (item : α) :
    kept rank (items ++ [item]) = keep rank (kept rank items) item := by
  simp [kept]

theorem keep_isSome (held : Option α) (item : α) : (keep rank held item).isSome := by
  cases held with
  | none => rfl
  | some held =>
    rw [keep]
    split <;> rfl

variable {items : List α} {item : α}

theorem kept_eq_none_iff : kept rank items = none ↔ items = [] := by
  induction items using List.reverseRecOn with
  | nil => simp
  | append_singleton items item ih =>
    have some : (keep rank (kept rank items) item).isSome := keep_isSome _ item
    constructor
    · intro none
      rw [← kept_snoc, none] at some
      cases some
    · intro empty
      simp at empty

theorem foldl_keep_of_le {after : List α} (lower : ∀ other ∈ after, rank other ≤ rank item) :
    after.foldl (keep rank) (some item) = some item := by
  induction after with
  | nil => rfl
  | cons other rest ih =>
    have first := lower other List.mem_cons_self
    rw [List.foldl_cons, keep, if_neg (Nat.not_lt.mpr first)]
    exact ih (fun later member => lower later (List.mem_cons_of_mem _ member))

theorem kept_mem (held : kept rank items = some item) : item ∈ items := by
  induction items using List.reverseRecOn with
  | nil => cases held
  | append_singleton items last ih =>
    rw [kept_snoc] at held
    cases before : kept rank items with
    | none =>
      rw [before] at held
      cases held
      simp
    | some other =>
      rw [before, keep] at held
      split at held
      · cases held
        simp
      · exact List.mem_append_left _ (ih (before.trans held))

theorem rank_le_kept {other : α} (held : kept rank items = some item) (listed : other ∈ items) :
    rank other ≤ rank item := by
  induction items using List.reverseRecOn generalizing item with
  | nil => cases listed
  | append_singleton items last ih =>
    rw [kept_snoc] at held
    cases earlier : kept rank items with
    | none =>
      rw [earlier] at held
      cases held
      rw [kept_eq_none_iff.mp earlier] at listed
      cases List.mem_singleton.mp listed
      exact Nat.le_refl _
    | some before =>
      rw [earlier, keep] at held
      split at held
      · rename_i higher
        cases held
        rcases List.mem_append.mp listed with old | new
        · exact Nat.le_trans (ih earlier old) (Nat.le_of_lt higher)
        · cases List.mem_singleton.mp new
          exact Nat.le_refl _
      · rename_i lower
        cases held
        rcases List.mem_append.mp listed with old | new
        · exact ih earlier old
        · rw [List.mem_singleton.mp new]
          exact Nat.not_lt.mp lower

/-- The item kept is the first of those of the highest rank. -/
theorem kept_eq_some_iff :
    kept rank items = some item ↔ ∃ before after, items = before ++ item :: after ∧
      (∀ other ∈ before, rank other < rank item) ∧ ∀ other ∈ after, rank other ≤ rank item := by
  constructor
  · intro held
    induction items using List.reverseRecOn with
    | nil => cases held
    | append_singleton items last ih =>
      rw [kept_snoc] at held
      cases earlier : kept rank items with
      | none =>
        rw [earlier] at held
        cases held
        rw [kept_eq_none_iff.mp earlier]
        exact ⟨[], [], rfl, by simp, by simp⟩
      | some other =>
        rw [earlier, keep] at held
        split at held
        · rename_i higher
          cases held
          refine ⟨items, [], rfl, ?_, by simp⟩
          intro member listed
          exact Nat.lt_of_le_of_lt (rank_le_kept earlier listed) higher
        · rename_i lower
          obtain ⟨before, after, rfl, under, upto⟩ := ih (earlier.trans held)
          cases held
          refine ⟨before, after ++ [last], by simp, under, ?_⟩
          intro member listed
          rcases List.mem_append.mp listed with old | new
          · exact upto member old
          · rw [List.mem_singleton.mp new]
            exact Nat.not_lt.mp lower
  · rintro ⟨before, after, rfl, under, upto⟩
    have first : keep rank (kept rank before) item = some item := by
      cases earlier : kept rank before with
      | none => rfl
      | some other => rw [keep, if_pos (under other (kept_mem earlier))]
    rw [kept, List.foldl_append, List.foldl_cons]
    show after.foldl (keep rank) (keep rank (kept rank before) item) = _
    rw [first, foldl_keep_of_le upto]

end Rank

/-- Ranked by themselves, the largest number is kept. -/
theorem kept_id (items : List Nat) : kept id items = items.max? := by
  cases held : kept id items with
  | none => rw [kept_eq_none_iff.mp held, List.max?_nil]
  | some item =>
    symm
    rw [List.max?_eq_some_iff]
    exact ⟨kept_mem held, fun other listed => rank_le_kept held listed⟩

/-- Ranked by a function that keeps the order, the largest number is kept exactly if every
number before it has a lower rank. -/
theorem kept_eq_some_max?_iff {rank : Nat → Nat}
    (monotone : ∀ first second, first ≤ second → rank first ≤ rank second) {items : List Nat}
    {largest : Nat} (isMax : items.max? = some largest) :
    kept rank items = some largest ↔ ∃ before after, items = before ++ largest :: after ∧
      ∀ other ∈ before, rank other < rank largest := by
  obtain ⟨_, upper⟩ := List.max?_eq_some_iff.mp isMax
  rw [kept_eq_some_iff]
  constructor
  · rintro ⟨before, after, split, under, _⟩
    exact ⟨before, after, split, under⟩
  · rintro ⟨before, after, split, under⟩
    refine ⟨before, after, split, under, ?_⟩
    intro other listed
    apply monotone
    apply upper
    rw [split]
    exact List.mem_append_right _ (List.mem_cons_of_mem _ listed)

end RankedMaximum
