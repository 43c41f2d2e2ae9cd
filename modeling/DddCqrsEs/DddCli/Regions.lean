import DddCqrsEs.DddCli.Markers
import DddCqrsEs.DddCli.Names

/- Generated files as lists of lines with regions between markers, where edits add lines. -/
namespace DddCqrsEs.DddCli

open LineLog

/-- A text without blanks at its ends is not trimmed. -/
theorem trim_solid {text : Text} {first last : Char} (head : text.head? = some first)
    (tail : text.getLast? = some last) (solid : isWhitespace first = false)
    (closed : isWhitespace last = false) : trim text = text := by
  cases text with
  | nil => cases head
  | cons c text =>
    cases head
    rw [trim, Cuts.trim, List.dropWhile_cons_of_neg (by rw [solid]; decide)]
    rw [List.rdropWhile_eq_self_iff]
    intro nonempty
    rw [List.getLast?_eq_some_getLast nonempty, Option.some_inj] at tail
    rw [tail, closed]
    decide

theorem trim_spaced (text : Text) : trim (' ' :: text) = trim text :=
  Cuts.trim_cons_of_drops (by decide) text

theorem IsIdentifier.solid {value : Text} (word : IsIdentifier value) : trim value = value := by
  obtain ⟨first, rest, rfl⟩ := List.exists_cons_of_ne_nil word.1
  have tail := List.getLast?_eq_some_getLast word.1
  exact trim_solid rfl tail (isWhitespace_of_identifier (word.2 _ List.mem_cons_self))
    (isWhitespace_of_identifier (word.2 _ (List.getLast_mem word.1)))

/-- The records of a region behind an edit: one more, unless one of them reads the same. -/
def addRecord (inside : List Text) (record : Text) : List Text :=
  if inside.any (fun other => trim other == trim record) then inside else inside ++ [record]

/-- Two marked lines with records between them, the only ones of a file that carry the markers. -/
structure Region (marker : Text) (before : List Text) (opening : Text) (inside : List Text)
    (closing : Text) (behind : List Text) : Prop where
  named : startMarker marker = some (trim opening)
  closes : Carries marker closing
  inside : ∀ line ∈ inside, ¬ Carries marker line ∧ ¬ Carries opening line
  before : ∀ line ∈ before, ¬ Carries marker line
  opening : ¬ Carries marker opening
  behind : ∀ line ∈ behind, ¬ Carries marker line

theorem splitInclusive_unlines {records : List Text} (plain : ∀ record ∈ records, '\n' ∉ record) :
    splitInclusive (unlines records) = records.map (· ++ ['\n']) := by
  induction records with
  | nil => rfl
  | cons record records ih =>
    rw [List.forall_mem_cons] at plain
    rw [unlines_cons, splitInclusive_line plain.1, ih plain.2]
    rfl

theorem carries_ended {marker record : Text} :
    Carries marker (record ++ ['\n']) ↔ Carries marker record := by
  rw [Carries, Carries, trim_ended]

variable {marker opening closing record : Text} {before inside behind : List Text}

section Region

variable (region : Region marker before opening inside closing behind)

include region

theorem Region.found {all : List Text}
    (lines : all = (before ++ opening :: (inside ++ closing :: behind)).map (· ++ ['\n'])) :
    Found marker all ((before ++ opening :: inside).map (· ++ ['\n'])) (closing ++ ['\n'])
      (behind.map (· ++ ['\n'])) := by
  refine ⟨by rw [lines]; simp, carries_ended.mpr region.closes, ?_, ?_⟩
  · simp only [List.forall_mem_map, carries_ended, List.forall_mem_append, List.forall_mem_cons]
    exact ⟨region.before, region.opening, fun line member => (region.inside line member).1⟩
  · simp only [List.forall_mem_map, carries_ended]
    exact region.behind

theorem Region.block : blockOf marker ((before ++ opening :: inside).map (· ++ ['\n'])) =
    some ((opening :: inside).map (· ++ ['\n'])) := by
  have later : lastFrom (Carries (trim opening)) (inside.map (· ++ ['\n'])) = none := by
    simp only [lastFrom_eq_none, List.forall_mem_map, carries_ended, Carries, trim_trim]
    exact fun line member => (region.inside line member).2
  have here : Carries (trim opening) (opening ++ ['\n']) := by
    rw [carries_ended, Carries, trim_trim]
  rw [blockOf, region.named, Option.bind_some, List.map_append, lastFrom_append, List.map_cons,
    lastFrom, later]
  simp only [if_pos here]

theorem Region.held (newline : '\n' ∉ record) (nonblank : trim record ≠ [])
    (fresh : trim opening ≠ trim record) :
    Held marker ((before ++ opening :: inside).map (· ++ ['\n'])) (record ++ ['\n']) ↔
      ∃ other ∈ inside, trim other = trim record := by
  have one : splitInclusive (record ++ ['\n']) = [record ++ ['\n']] :=
    splitInclusive_line newline []
  rw [Held, region.block]
  simp only [Option.some_inj, exists_eq_left', Present, one]
  rw [List.forall_mem_singleton]
  simp only [trim_ended, List.mem_map, exists_exists_and_eq_and, List.mem_cons]
  constructor
  · intro present
    obtain ⟨other, rfl | member, same⟩ := present nonblank
    · exact absurd same fresh
    · exact ⟨other, member, same⟩
  · rintro ⟨other, member, same⟩ -
    exact ⟨other, Or.inr member, same⟩

/-- An edit adds its line as the last one of the region. -/
theorem insertBeforeMarker_region
    (plain : ∀ line ∈ before ++ opening :: (inside ++ closing :: behind), '\n' ∉ line)
    (newline : '\n' ∉ record) (nonblank : trim record ≠ [])
    (fresh : trim opening ≠ trim record) :
    insertBeforeMarker (unlines (before ++ opening :: (inside ++ closing :: behind))) marker
        (record ++ ['\n']) =
      .ok (unlines (before ++ opening :: (addRecord inside record ++ closing :: behind))) := by
  have found := region.found (splitInclusive_unlines plain)
  have held := region.held newline nonblank fresh
  rw [addRecord]
  split
  · rename_i has
    rw [List.any_eq_true] at has
    obtain ⟨other, member, same⟩ := has
    exact insertBeforeMarker_held found (held.mpr ⟨other, member, beq_iff_eq.mp same⟩)
  · rename_i lacks
    have missing : ¬ Held marker ((before ++ opening :: inside).map (· ++ ['\n']))
        (record ++ ['\n']) := by
      rw [held]
      rintro ⟨other, member, same⟩
      exact lacks (List.any_eq_true.mpr ⟨other, member, beq_iff_eq.mpr same⟩)
    rw [insertBeforeMarker_added found missing]
    simp [unlines, List.flatMap_def]

end Region

end DddCqrsEs.DddCli
