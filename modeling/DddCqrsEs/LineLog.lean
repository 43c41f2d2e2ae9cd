import Mathlib.Data.List.Infix
import Mathlib.Tactic.TypeStar

/- Logs that keep one record a line: splitting a text into lines, reading the records with
an unreadable last line dropped, and what a prefix of a written log looks like. Nothing
here names an application; the record syntax is a parameter. -/
namespace LineLog

/-- Split after every newline. -/
@[grind =]
def splitInclusive : List Char → List (List Char)
  | [] => []
  | c :: rest =>
    if c = '\n' then ['\n'] :: splitInclusive rest
    else
      match splitInclusive rest with
      | [] => [[c]]
      | piece :: pieces => (c :: piece) :: pieces

/-- A piece without its line ending: a newline, or a carriage return and a newline. -/
def stripEnding (piece : List Char) : List Char :=
  if piece.getLast? = some '\n' then
    let line := piece.dropLast
    if line.getLast? = some '\r' then line.dropLast else line
  else piece

def lines (text : List Char) : List (List Char) := (splitInclusive text).map stripEnding

/-- The text of some lines, each ended by a newline. -/
def unlines (records : List (List Char)) : List Char := records.flatMap (· ++ ['\n'])

@[simp] theorem unlines_nil : unlines [] = [] := rfl

@[simp] theorem unlines_cons (record : List Char) (rest : List (List Char)) :
    unlines (record :: rest) = record ++ '\n' :: unlines rest := by
  simp [unlines]

theorem unlines_append (first second : List (List Char)) :
    unlines (first ++ second) = unlines first ++ unlines second := by
  simp [unlines]

/-- A record that can stand on a line of its own. -/
structure IsRecord (record : List Char) : Prop where
  newline : '\n' ∉ record
  carriage : '\r' ∉ record

variable {record fragment text : List Char} {front records : List (List Char)}

theorem splitInclusive_line (newline : '\n' ∉ record) (rest : List Char) :
    splitInclusive (record ++ '\n' :: rest) = (record ++ ['\n']) :: splitInclusive rest := by
  induction record with
  | nil => simp [splitInclusive]
  | cons c record ih =>
    rw [List.mem_cons, not_or] at newline
    have other : c ≠ '\n' := fun same => newline.1 same.symm
    rw [List.cons_append, splitInclusive, if_neg other, ih newline.2]
    rfl

theorem splitInclusive_fragment (newline : '\n' ∉ fragment) (some_text : fragment ≠ []) :
    splitInclusive fragment = [fragment] := by
  induction fragment with
  | nil => exact absurd rfl some_text
  | cons c fragment ih =>
    rw [List.mem_cons, not_or] at newline
    have other : c ≠ '\n' := fun same => newline.1 same.symm
    rw [splitInclusive, if_neg other]
    cases fragment with
    | nil => rfl
    | cons d fragment => rw [ih newline.2 (List.cons_ne_nil d fragment)]

/-- A piece that a newline ends. -/
def IsLine (piece : List Char) : Prop := ∃ body, '\n' ∉ body ∧ piece = body ++ ['\n']

/-- A text is empty, one unfinished line, or a line and the rest. -/
theorem first_line (text : List Char) :
    '\n' ∉ text ∨ ∃ body rest, text = body ++ '\n' :: rest ∧ '\n' ∉ body := by
  by_cases newline : '\n' ∈ text
  · exact Or.inr (List.eq_append_cons_of_mem newline)
  · exact Or.inl newline

theorem splitInclusive_unfinished (newline : '\n' ∉ text) :
    splitInclusive text = if text = [] then [] else [text] := by
  by_cases empty : text = []
  · rw [if_pos empty, empty]
    rfl
  · rw [if_neg empty, splitInclusive_fragment newline empty]

/-- All pieces before another one are lines. -/
theorem isLine_of_split {line : List Char} {back : List (List Char)}
    (split : splitInclusive text = front ++ line :: back) : ∀ piece ∈ front, IsLine piece := by
  induction front generalizing text with
  | nil => simp
  | cons first front ih =>
    rcases first_line text with newline | ⟨body, rest, rfl, newline⟩
    · have short : (splitInclusive text).length ≤ 1 := by
        rw [splitInclusive_unfinished newline]
        split <;> simp
      rw [split] at short
      simp at short
    · rw [splitInclusive_line newline, List.cons_append] at split
      obtain ⟨head, tail⟩ := List.cons.inj split
      rw [List.forall_mem_cons]
      exact ⟨⟨body, newline, head.symm⟩, ih tail⟩

theorem splitInclusive_flatten (areLines : ∀ piece ∈ front, IsLine piece) (rest : List Char) :
    splitInclusive (front.flatten ++ rest) = front ++ splitInclusive rest := by
  induction front with
  | nil => rfl
  | cons first front ih =>
    rw [List.forall_mem_cons] at areLines
    obtain ⟨body, newline, same⟩ := areLines.1
    rw [List.flatten_cons, same, List.append_assoc, List.append_assoc, List.singleton_append,
      splitInclusive_line newline, ih areLines.2]
    rfl

theorem flatten_splitInclusive (text : List Char) : (splitInclusive text).flatten = text := by
  induction text with
  | nil => rfl
  | cons c text ih =>
    rw [splitInclusive]
    split
    · rename_i newline
      rw [List.flatten_cons, ih, newline]
      rfl
    · split
      · rename_i empty
        rw [empty] at ih
        rw [← ih]
        rfl
      · rename_i piece pieces split
        rw [split] at ih
        rw [← ih]
        rfl

/-- A text of whole lines. -/
theorem isLine_of_ended (ended : text.getLast? = some '\n') :
    ∀ piece ∈ splitInclusive text, IsLine piece := by
  induction length : text.length using Nat.strongRecOn generalizing text with
  | ind size ih =>
    rcases first_line text with newline | ⟨body, rest, rfl, newline⟩
    · exact absurd (List.mem_of_getLast? ended) newline
    · rw [splitInclusive_line newline, List.forall_mem_cons]
      refine ⟨⟨body, newline, rfl⟩, ?_⟩
      cases rest with
      | nil => simp [splitInclusive]
      | cons c rest =>
        have shorter : (c :: rest).length < size := by
          simp only [← length, List.length_append, List.length_cons]
          omega
        refine ih _ shorter ?_ rfl
        simpa using ended

theorem stripEnding_line (isRecord : IsRecord record) :
    stripEnding (record ++ ['\n']) = record := by
  have noReturn : record.getLast? ≠ some '\r' := by
    intro last
    exact isRecord.carriage (List.mem_of_getLast? last)
  simp [stripEnding, noReturn]

theorem stripEnding_fragment (newline : '\n' ∉ fragment) : stripEnding fragment = fragment := by
  rw [stripEnding, if_neg]
  intro last
  exact newline (List.mem_of_getLast? last)

/-- A log and an unfinished line split into the records and the unfinished line. -/
theorem lines_unlines {records : List (List Char)} (areRecords : ∀ record ∈ records, IsRecord record)
    {fragment : List Char} (newline : '\n' ∉ fragment) :
    lines (unlines records ++ fragment) =
      records ++ if fragment = [] then [] else [fragment] := by
  induction records with
  | nil =>
    rw [unlines_nil, List.nil_append, List.nil_append, lines]
    split
    · rename_i empty
      rw [empty]
      rfl
    · rename_i some_text
      rw [splitInclusive_fragment newline some_text, List.map_singleton,
        stripEnding_fragment newline]
  | cons record rest ih =>
    rw [List.forall_mem_cons] at areRecords
    rw [unlines_cons, List.append_assoc, List.cons_append, lines,
      splitInclusive_line areRecords.1.newline, List.map_cons,
      stripEnding_line areRecords.1, List.cons_append]
    congr 1
    exact ih areRecords.2

/-- Read the records in order. An unreadable last one is taken for a torn write. -/
def readRecords {V : Type*} (parse : List Char → Except String V) :
    List (List Char) → Except String (List V)
  | [] => .ok []
  | line :: rest =>
    match parse line with
    | .ok value => (readRecords parse rest).map (value :: ·)
    | .error error => if rest.isEmpty then .ok [] else .error error

variable {V : Type*} {parse : List Char → Except String V}

/-- Readable records are all read, and after them whatever the remaining lines hold. -/
theorem readRecords_append {values : List V}
    (readable : List.Forall₂ (fun record value => parse record = .ok value) records values)
    (rest : List (List Char)) :
    readRecords parse (records ++ rest) = (readRecords parse rest).map (values ++ ·) := by
  induction readable with
  | nil =>
    rw [List.nil_append]
    cases readRecords parse rest <;> rfl
  | @cons record value records values parsed _ ih =>
    rw [List.cons_append, readRecords, parsed]
    dsimp only
    rw [ih]
    cases readRecords parse rest <;> rfl

/-- A prefix of a log is some of its lines and a prefix of the next record. -/
theorem prefix_unlines (cut : text <+: unlines records) :
    ∃ whole rest fragment, records = whole ++ rest ∧ text = unlines whole ++ fragment ∧
      (fragment = [] ∨ ∃ record ∈ rest, fragment <+: record) := by
  induction records generalizing text with
  | nil =>
    have empty : text = [] := List.prefix_nil.mp cut
    exact ⟨[], [], [], rfl, empty, .inl rfl⟩
  | cons record records ih =>
    rw [unlines_cons] at cut
    rcases List.prefix_or_prefix_of_prefix cut (List.prefix_append record _) with
      inside | ⟨more, rfl⟩
    · exact ⟨[], record :: records, text, rfl, rfl, .inr ⟨record, List.mem_cons_self .., inside⟩⟩
    · rw [List.prefix_append_right_inj] at cut
      cases more with
      | nil =>
        exact ⟨[], record :: records, record ++ [], rfl, rfl,
          .inr ⟨record, List.mem_cons_self .., by simp⟩⟩
      | cons c more =>
        obtain ⟨rfl, later⟩ := List.cons_prefix_cons.mp cut
        obtain ⟨whole, rest, fragment, rfl, rfl, ends⟩ := ih later
        exact ⟨record :: whole, rest, fragment, rfl, by simp, ends⟩

end LineLog
