import DddCqrsEs.DddCli.AggregateFile

/- Edits of an aggregate's file, and what its enums and matches list. -/
namespace DddCqrsEs.DddCli

open LineLog

section Edits

variable {names : NameParts} {added : Added} {record : Text}

theorem fileMarks_paired : ∀ marks ∈ fileMarks,
    (trim marks.2).head? = some '/' ∧ startMarker marks.2 = some (trim marks.1) ∧
      (trim marks.1).head? = some '/' ∧ trim marks.1 ≠ trim marks.2 := by
  decide +kernel

/-- No marker line carries the marker of another section. -/
theorem fileMarks_apart : fileMarks.Pairwise fun one other =>
    (trim one.1 ≠ trim other.2 ∧ trim one.2 ≠ trim other.2) ∧
      trim other.1 ≠ trim one.2 ∧ trim other.2 ≠ trim one.2 := by
  decide +kernel

/-- An edit adds its line to the section that its marker ends. -/
theorem insertBeforeMarker_file {front back : List FileSection} {part : FileSection}
    {tail : List Text} (marks : (front ++ part :: back).map FileSection.marks = fileMarks)
    (isCode : ∀ other ∈ front ++ part :: back, other.IsCode) (ends : ∀ line ∈ tail, IsCode line)
    (new : IsCode record) (nonblank : trim record ≠ []) :
    insertBeforeMarker (unlines (sectionLines (front ++ part :: back) tail)) part.closing
        (record ++ ['\n']) =
      .ok (unlines (sectionLines
        (front ++ { part with inside := addRecord part.inside record } :: back) tail)) := by
  have own : part.marks ∈ fileMarks := by
    rw [← marks]
    exact List.mem_map_of_mem (by simp)
  obtain ⟨comment, named, opens, apart⟩ := fileMarks_paired part.marks own
  have others := fileMarks_apart
  rw [← marks, List.map_append, List.map_cons, List.pairwise_append, List.pairwise_cons] at others
  obtain ⟨-, ⟨later, -⟩, earlier⟩ := others
  refine insertBeforeMarker_section comment named opens rfl apart isCode ends ?_ new nonblank
  rw [List.forall_mem_append]
  constructor
  · intro other member
    exact (earlier _ (List.mem_map_of_mem member) _ List.mem_cons_self).1
  · intro other member
    exact (later _ (List.mem_map_of_mem member)).2

section

variable (words : names.IsCode) (old : added.IsCode) (new : IsCode record)
  (nonblank : trim record ≠ [])

include words old new nonblank

theorem insertBeforeMarker_commands :
    insertBeforeMarker (unlines (fileLines names added)) (code "    // ddd:commands:end")
        (record ++ ['\n']) =
      .ok (unlines (fileLines names
        { added with commands := addRecord added.commands record })) := by
  rw [fileLines_sections, fileLines_sections]
  have parts := fileSections_isCode words old
  exact @insertBeforeMarker_file _ [] ((fileSections names added).drop 1) _ _
    fileSections_marks parts (head_isCode words _ (by simp)) new nonblank

theorem insertBeforeMarker_events :
    insertBeforeMarker (unlines (fileLines names added)) (code "    // ddd:events:end")
        (record ++ ['\n']) =
      .ok (unlines (fileLines names { added with events := addRecord added.events record })) := by
  rw [fileLines_sections, fileLines_sections]
  have parts := fileSections_isCode words old
  exact @insertBeforeMarker_file _ ((fileSections names added).take 1)
    ((fileSections names added).drop 2) _ _ fileSections_marks parts
    (head_isCode words _ (by simp)) new nonblank

theorem insertBeforeMarker_types :
    insertBeforeMarker (unlines (fileLines names added)) (code "            // ddd:event-types:end")
        (record ++ ['\n']) =
      .ok (unlines (fileLines names { added with types := addRecord added.types record })) := by
  rw [fileLines_sections, fileLines_sections]
  have parts := fileSections_isCode words old
  exact @insertBeforeMarker_file _ ((fileSections names added).take 2)
    ((fileSections names added).drop 3) _ _ fileSections_marks parts
    (head_isCode words _ (by simp)) new nonblank

theorem insertBeforeMarker_applies :
    insertBeforeMarker (unlines (fileLines names added))
        (code "            // ddd:apply-events:end") (record ++ ['\n']) =
      .ok (unlines (fileLines names
        { added with applies := addRecord added.applies record })) := by
  rw [fileLines_sections, fileLines_sections]
  have parts := fileSections_isCode words old
  exact @insertBeforeMarker_file _ ((fileSections names added).take 3)
    ((fileSections names added).drop 4) _ _ fileSections_marks parts
    (head_isCode words _ (by simp)) new nonblank

theorem insertBeforeMarker_handles :
    insertBeforeMarker (unlines (fileLines names added))
        (code "            // ddd:handle-commands:end") (record ++ ['\n']) =
      .ok (unlines (fileLines names
        { added with handles := addRecord added.handles record })) := by
  rw [fileLines_sections, fileLines_sections]
  have parts := fileSections_isCode words old
  exact @insertBeforeMarker_file _ ((fileSections names added).take 4) [] _ _
    fileSections_marks parts (head_isCode words _ (by simp)) new nonblank

end

end Edits

end DddCqrsEs.DddCli
