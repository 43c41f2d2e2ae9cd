import DddCqrsEs.Replay
import Mathlib.Data.List.Sort

/- Reading an increasing feed page by page from a cursor: what a page leaves for the next
one, and how often a cursor can advance. Nothing here names an application. -/
namespace Paging

open Replay

variable {ε : Type*}

/-- What lies beyond a cursor. -/
def beyond (sequence : ε → Nat) (feed : List ε) (cursor : Option Nat) : List ε :=
  feed.filter (fun item => above cursor (sequence item))

variable {sequence : ε → Nat} {feed : List ε} {cursor : Option Nat}

theorem mem_beyond {item : ε} :
    item ∈ beyond sequence feed cursor ↔ item ∈ feed ∧ above cursor (sequence item) = true :=
  List.mem_filter

theorem beyond_increasing (increasing : Increasing sequence feed) :
    Increasing sequence (beyond sequence feed cursor) :=
  increasing.filter _

/-- A cursor moved forward leaves what lies beyond it of what lay beyond the old one. -/
theorem beyond_beyond {position : Nat} (forward : above cursor position = true) :
    beyond sequence (beyond sequence feed cursor) (some position) =
      beyond sequence feed (some position) := by
  rw [beyond, beyond, List.filter_filter]
  apply List.filter_congr
  intro item _
  by_cases later : position < sequence item
  · simp [later, above_mono forward (Nat.le_of_lt later)]
  · simp [later]

/-- In an increasing feed, the items beyond the end of a front part are the others. -/
theorem beyond_front {front rest : List ε} {last : ε}
    (increasing : Increasing sequence (front ++ rest)) (ended : front.getLast? = some last) :
    beyond sequence (front ++ rest) (some (sequence last)) = rest := by
  obtain ⟨inside, _, across⟩ := List.pairwise_append.mp increasing
  have passed : beyond sequence front (some (sequence last)) = [] := by
    rw [beyond, List.filter_eq_nil_iff]
    intro item member
    have bound := Increasing.le_last inside member ended
    rw [above_some, decide_eq_true_eq]
    omega
  have ahead : beyond sequence rest (some (sequence last)) = rest := by
    rw [beyond, List.filter_eq_self]
    intro item member
    exact decide_eq_true (across last (List.mem_of_getLast? ended) item member)
  rw [beyond, List.filter_append]
  exact (congrArg₂ (· ++ ·) passed ahead).trans (List.nil_append rest)

/-- From the end of a page the rest is still to come. -/
theorem after_page (increasing : Increasing sequence feed) {size : Nat} {last : ε}
    (ended : ((beyond sequence feed cursor).take size).getLast? = some last) :
    beyond sequence feed (some (sequence last)) = (beyond sequence feed cursor).drop size := by
  have forward := (mem_beyond.mp (List.mem_of_mem_take (List.mem_of_getLast? ended))).2
  have split := List.take_append_drop size (beyond sequence feed cursor)
  have ordered : Increasing sequence (beyond sequence feed cursor) := beyond_increasing increasing
  rw [← split] at ordered
  have rest := beyond_front ordered ended
  rwa [split, beyond_beyond forward] at rest

/-- A full page ends beyond the cursor, and from its end the rest is still to come. -/
theorem full_page (increasing : Increasing sequence feed) {size : Nat} (positive : 0 < size)
    (full : size ≤ (beyond sequence feed cursor).length) :
    ∃ last, ((beyond sequence feed cursor).take size).getLast? = some last ∧
      above cursor (sequence last) = true ∧
      beyond sequence feed (some (sequence last)) = (beyond sequence feed cursor).drop size := by
  have filled : (beyond sequence feed cursor).take size ≠ [] := by
    apply List.ne_nil_of_length_pos
    rw [List.length_take]
    omega
  obtain ⟨last, ended⟩ := Option.isSome_iff_exists.mp (List.getLast?_isSome.mpr filled)
  have listed := mem_beyond.mp (List.mem_of_mem_take (List.mem_of_getLast? ended))
  exact ⟨last, ended, listed.2, after_page increasing ended⟩

/-- The last sequence of two pages read one after the other. -/
theorem getLast?_append_or (first second : List ε) (before : Option Nat) :
    ((first ++ second).getLast?.map sequence).or before =
      (second.getLast?.map sequence).or ((first.getLast?.map sequence).or before) := by
  rw [List.getLast?_append]
  cases second.getLast? with
  | none => simp
  | some last => simp

/-- The items in the order of their sequences. -/
def ranked (sequence : ε → Nat) (items : List ε) : List ε :=
  items.insertionSort (fun first second => sequence first ≤ sequence second)

/-- Items are only added, and beyond all that were there. -/
def Grows (sequence : ε → Nat) (before after : List ε) : Prop :=
  before ⊆ after ∧
    ∀ item ∈ after, item ∉ before → ∀ earlier ∈ before, sequence earlier < sequence item

theorem ranked_perm (items : List ε) : (ranked sequence items).Perm items :=
  List.perm_insertionSort _ items

variable {items : List ε}

theorem mem_ranked {item : ε} : item ∈ ranked sequence items ↔ item ∈ items :=
  (ranked_perm items).mem_iff

theorem ranked_increasing (distinct : (items.map sequence).Nodup) :
    Increasing sequence (ranked sequence items) := by
  have total : Std.Total (fun first second : ε => sequence first ≤ sequence second) :=
    ⟨fun first second => Nat.le_total (sequence first) (sequence second)⟩
  have transitive : IsTrans ε (fun first second => sequence first ≤ sequence second) :=
    ⟨fun _ _ _ => Nat.le_trans⟩
  have sorted := List.pairwise_insertionSort
    (fun first second : ε => sequence first ≤ sequence second) items
  have apart : ((ranked sequence items).map sequence).Nodup :=
    ((ranked_perm items).map sequence).nodup_iff.mpr distinct
  rw [List.Nodup, List.pairwise_map] at apart
  apply (sorted.and apart).imp
  intro first second ordered
  exact Nat.lt_of_le_of_ne ordered.1 ordered.2

/-- Two increasing lists of the same items are the same list. -/
theorem Increasing.unique {first second : List ε} (ordered : Increasing sequence first)
    (other : Increasing sequence second) (same : ∀ item, item ∈ first ↔ item ∈ second) :
    first = second := by
  have irreflexive : Std.Irrefl (fun earlier later : ε => sequence earlier < sequence later) :=
    ⟨fun item => Nat.lt_irrefl (sequence item)⟩
  have transitive : IsTrans ε (fun earlier later => sequence earlier < sequence later) :=
    ⟨fun _ _ _ => Nat.lt_trans⟩
  have asymmetric : Std.Antisymm (fun earlier later : ε => sequence earlier < sequence later) :=
    ⟨fun _ _ less greater => absurd less (Nat.lt_asymm greater)⟩
  exact List.Pairwise.eq_of_mem_iff ordered other same

theorem ranked_of_increasing (increasing : Increasing sequence items) :
    ranked sequence items = items :=
  List.Pairwise.insertionSort_eq (increasing.imp Nat.le_of_lt)

/-- An increasing list that goes on grows. -/
theorem Grows.of_prefix {before after : List ε} (increasing : Increasing sequence after)
    (grown : before <+: after) : Grows sequence before after := by
  obtain ⟨added, rfl⟩ := grown
  refine ⟨List.subset_append_left _ _, ?_⟩
  intro item listed new earlier held
  have later : item ∈ added := (List.mem_append.mp listed).resolve_left new
  exact (List.pairwise_append.mp increasing).2.2 earlier held item later

/-- What is listed stays in front when the set grows. -/
theorem Grows.ranked_front {before after : List ε} (grows : Grows sequence before after)
    (distinct : (after.map sequence).Nodup) (earlier : (before.map sequence).Nodup) :
    ranked sequence before <+: ranked sequence after := by
  classical
  have added : ((after.filter (· ∉ before)).map sequence).Nodup :=
    distinct.sublist (List.filter_sublist.map sequence)
  refine ⟨ranked sequence (after.filter (· ∉ before)),
    Increasing.unique ?_ (ranked_increasing distinct) ?_⟩
  · apply List.pairwise_append.mpr
    refine ⟨ranked_increasing earlier, ranked_increasing added, ?_⟩
    intro old held item listed
    obtain ⟨present, new⟩ := List.mem_filter.mp (mem_ranked.mp listed)
    exact grows.2 item present (of_decide_eq_true new) old (mem_ranked.mp held)
  · intro item
    rw [List.mem_append, mem_ranked, mem_ranked, mem_ranked, List.mem_filter, decide_eq_true_eq]
    constructor
    · rintro (held | ⟨present, _⟩)
      · exact grows.1 held
      · exact present
    · intro present
      by_cases held : item ∈ before
      · exact .inl held
      · exact .inr ⟨present, held⟩

/-- How often a sequence beyond the previous one turns up, from a cursor on. -/
def rises : Option Nat → List (Option Nat) → Nat
  | _, [] => 0
  | position, last :: rest =>
    (if last.any (fun sequence => above position sequence) then 1 else 0) + rises last rest

/-- What precedes the first sequence makes for one more rise at most. -/
theorem rises_le (position : Option Nat) (last : Option Nat) (rest : List (Option Nat)) :
    rises position (last :: rest) ≤ rises last rest + 1 := by
  rw [rises]
  split <;> omega

end Paging
