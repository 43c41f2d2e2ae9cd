import DddCqrsEs.FullstackApp.ReadonlySql
import DddCqrsEs.InsertTemplates

/- The scan for keywords: what it keeps of a line, and that it finds the words that stand next to
blanks. -/
namespace DddCqrsEs.FullstackApp

open Cuts Words

section Before

variable {word front : Text} {c : Char}

theorem beforeWord_cons (absent : ¬ word <+: c :: front) :
    beforeWord word (c :: front) = c :: beforeWord word front := by
  rw [beforeWord, beforeWord, cutWord, if_neg (by rwa [List.isPrefixOf_iff_prefix])]
  cases cutWord word front with
  | none => rfl
  | some cut => rfl

theorem beforeWord_foreign (nonempty : word ≠ []) (foreign : c ∉ word) (back : Text) :
    beforeWord word (c :: back) = c :: beforeWord word back := by
  apply beforeWord_cons
  intro starts
  cases word with
  | nil => exact nonempty rfl
  | cons first word =>
    rw [List.cons_prefix_cons] at starts
    exact foreign (starts.1 ▸ List.mem_cons_self)

theorem beforeWord_free (nonempty : word ≠ []) (free : ∀ c ∈ front, c ∉ word) (back : Text) :
    beforeWord word (front ++ back) = front ++ beforeWord word back := by
  induction front with
  | nil => rfl
  | cons c front ih =>
    rw [List.cons_append, beforeWord_foreign nonempty (free c List.mem_cons_self),
      ih (fun d member => free d (List.mem_cons_of_mem c member)), List.cons_append]

/-- The word is not found in a text without it, nor over the letter behind that text. -/
theorem beforeWord_absent (absent : ¬ word <:+: front) (foreign : c ∉ word) (back : Text) :
    beforeWord word (front ++ c :: back) = front ++ c :: beforeWord word back := by
  have nonempty : word ≠ [] := by
    intro empty
    exact absent (empty ▸ List.nil_infix)
  induction front with
  | nil => exact beforeWord_foreign nonempty foreign back
  | cons d front ih =>
    rw [List.infix_cons_iff, not_or] at absent
    rw [List.cons_append, beforeWord_cons, ih absent.2]
    · rfl
    · intro starts
      rw [← List.cons_append] at starts
      exact absent.1 (prefix_of_prefix_append_cons foreign starts)

theorem beforeWord_of_infix (inside : word <:+: front) (back : Text) :
    beforeWord word (front ++ back) = beforeWord word front := by
  induction front with
  | nil =>
    rw [List.eq_nil_of_infix_nil inside]
    cases back with
    | nil => rfl
    | cons c back => rfl
  | cons c front ih =>
    by_cases starts : word <+: c :: front
    · rw [beforeWord, beforeWord, List.cons_append, cutWord, cutWord, if_pos, if_pos]
      · rwa [List.isPrefixOf_iff_prefix]
      · rw [List.isPrefixOf_iff_prefix]
        exact starts.trans (List.prefix_append (c :: front) back)
    · have later := (List.infix_cons_iff.mp inside).resolve_left starts
      rw [List.cons_append, beforeWord_cons, beforeWord_cons starts, ih later]
      intro reaches
      apply starts
      apply List.prefix_of_prefix_length_le reaches (List.prefix_append (c :: front) back)
      exact inside.length_le

theorem beforeWord_eq_self (absent : ¬ word <:+: front) : beforeWord word front = front := by
  rw [beforeWord, cutWord_eq_none.mpr absent]

end Before

theorem not_blank_dash : isWhitespace '-' = false := by decide

variable {c : Char}

theorem blank_foreign (blank : isWhitespace c = true) : c ∉ "--".toList := by
  intro member
  have same : c = '-' := by simpa using member
  rw [same, not_blank_dash] at blank
  cases blank

theorem cleanedLine_cons (blank : isWhitespace c = true) (line : Text) :
    cleanedLine (c :: line) = cleanedLine line := by
  rw [cleanedLine, cleanedLine, beforeWord_foreign (by decide) (blank_foreign blank),
    trim_cons_of_drops blank]

theorem cleanedLine_concat (blank : isWhitespace c = true) (line : Text) :
    cleanedLine (line ++ [c]) = cleanedLine line := by
  by_cases inside : "--".toList <:+: line
  · rw [cleanedLine, cleanedLine, beforeWord_of_infix inside]
  · have kept := beforeWord_absent inside (blank_foreign blank) []
    rw [cleanedLine, cleanedLine, kept, beforeWord_eq_self inside,
      show beforeWord "--".toList [] = [] from rfl, trim_concat_of_drops blank]

theorem cleaned_eq (text : Text) : cleaned text = (text.splitOn '\n').flatMap cleanedLine := by
  have return_ : ∀ line : Text,
      cleanedLine (if line.getLast? = some '\r' then line.dropLast else line) =
        cleanedLine line := by
    intro line
    split
    · rename_i last
      have whole := List.dropLast_append_getLast? '\r' last
      conv => rhs; rw [← whole]
      exact (cleanedLine_concat (by decide) _).symm
    · rfl
  have pieces := List.dropLast_concat_getLast (List.splitOn_ne_nil '\n' text)
  rw [cleaned, lines]
  conv => rhs; rw [← pieces]
  rw [List.flatMap_append, List.flatMap_append, List.flatMap_map]
  congr 1
  · exact List.flatMap_congr (fun line _ => return_ line)
  · rw [List.getLastD_eq_getLast?, List.getLast?_eq_some_getLast (List.splitOn_ne_nil '\n' text)]
    generalize (text.splitOn '\n').getLast _ = last
    cases last with
    | nil => rfl
    | cons c last => rfl

theorem cleaned_cons (blank : isWhitespace c = true) (text : Text) :
    cleaned (c :: text) = cleaned text := by
  rw [cleaned_eq, cleaned_eq, List.splitOn_cons_eq_if_modifyHead]
  split
  · rfl
  · obtain ⟨line, rest, pieces⟩ := List.exists_cons_of_ne_nil (List.splitOn_ne_nil '\n' text)
    rw [pieces, List.modifyHead_cons, List.flatMap_cons, List.flatMap_cons, cleanedLine_cons blank]

theorem splitOn_concat (other : c ≠ '\n') (text : Text) :
    ∃ pieces line, text.splitOn '\n' = pieces ++ [line] ∧
      (text ++ [c]).splitOn '\n' = pieces ++ [line ++ [c]] := by
  cases cut : cutLast '\n' text with
  | none =>
    have free := cutLast_eq_none.mp cut
    refine ⟨[], text, List.splitOn_eq_singleton free, List.splitOn_eq_singleton ?_⟩
    simpa [free] using other.symm
  | some parts =>
    obtain ⟨front, line⟩ := parts
    obtain ⟨rfl, free⟩ := cutLast_eq_some.mp cut
    refine ⟨front.splitOn '\n', line, ?_, ?_⟩
    · rw [List.splitOn_append_cons_self, List.splitOn_eq_singleton free]
    · have single : (line ++ [c]).splitOn '\n' = [line ++ [c]] := by
        apply List.splitOn_eq_singleton
        simpa [free] using other.symm
      rw [List.append_assoc, List.cons_append, List.splitOn_append_cons_self, single]

theorem cleaned_concat (blank : isWhitespace c = true) (text : Text) :
    cleaned (text ++ [c]) = cleaned text := by
  rw [cleaned_eq, cleaned_eq]
  by_cases newline : c = '\n'
  · rw [newline, List.splitOn_append_cons_self, List.flatMap_append]
    exact List.append_nil _
  · obtain ⟨pieces, line, before, after⟩ := splitOn_concat newline text
    rw [before, after, List.flatMap_append, List.flatMap_append, List.flatMap_singleton,
      List.flatMap_singleton, cleanedLine_concat blank]

/-- What is trimmed off the text does not count for the scan. -/
theorem cleaned_trim (sql : Text) : cleaned (Cuts.trim isWhitespace sql) = cleaned sql := by
  have front : cleaned (sql.dropWhile isWhitespace) = cleaned sql := by
    induction sql with
    | nil => rfl
    | cons c sql ih =>
      rw [List.dropWhile_cons]
      split
      · rename_i blank
        rw [ih, cleaned_cons blank]
      · rfl
  rw [Cuts.trim, ← front]
  generalize sql.dropWhile isWhitespace = text
  induction text using List.reverseRecOn with
  | nil => rfl
  | append_singleton text c ih =>
    cases blank : isWhitespace c with
    | true => rw [List.rdropWhile_concat_pos _ _ _ blank, ih, cleaned_concat blank]
    | false => rw [List.rdropWhile_concat_neg _ _ _ (by rw [blank]; decide)]

/-- The line that a word stands on. -/
theorem splitOn_around {front word behind : Text} (free : '\n' ∉ word) :
    ∃ earlier later, (front ++ (word ++ behind)).splitOn '\n' =
      earlier ++ (afterLast '\n' front ++ (word ++ upTo (· == '\n') behind)) :: later := by
  have line : ∀ before : Text, '\n' ∉ before → ∃ later,
      (before ++ (word ++ behind)).splitOn '\n' =
        (before ++ (word ++ upTo (· == '\n') behind)) :: later := by
    intro before absent
    cases cut : cutFirst '\n' behind with
    | none =>
      have whole := cutFirst_eq_none.mp cut
      refine ⟨[], ?_⟩
      rw [upTo_of_not_mem whole, List.splitOn_eq_singleton]
      simp [absent, free, whole]
    | some parts =>
      obtain ⟨after, rest⟩ := parts
      obtain ⟨whole, within⟩ := cutFirst_eq_some.mp cut
      refine ⟨rest.splitOn '\n', ?_⟩
      rw [upTo_of_cutFirst cut, whole, ← List.append_assoc, ← List.append_assoc,
        List.splitOn_append_cons_self_of_not_mem, List.append_assoc]
      simp [absent, free, within]
  cases cut : cutLast '\n' front with
  | none =>
    have absent := cutLast_eq_none.mp cut
    obtain ⟨later, pieces⟩ := line front absent
    exact ⟨[], later, by rw [afterLast_of_free absent, pieces]; rfl⟩
  | some parts =>
    obtain ⟨before, own⟩ := parts
    obtain ⟨whole, absent⟩ := cutLast_eq_some.mp cut
    obtain ⟨later, pieces⟩ := line own absent
    refine ⟨before.splitOn '\n', later, ?_⟩
    rw [whole, afterLast_append_cons, afterLast_of_free absent, List.append_assoc,
      List.cons_append, List.splitOn_append_cons_self, pieces]

/-- What is kept of the line that a visible word stands on. -/
theorem cleanedLine_visible {before word after : Text} (nonempty : word ≠ [])
    (solid : ∀ c ∈ word, isWhitespace c = false ∧ c ∉ "--".toList)
    (dashes : ¬ "--".toList <:+: before)
    (left : (∀ c ∈ before, isWhitespace c = true) ∨ before.getLast? = some ' ')
    (right : (∀ c ∈ beforeWord "--".toList after, isWhitespace c = true) ∨
      (beforeWord "--".toList after).head? = some ' ') :
    ∃ first last, cleanedLine (before ++ (word ++ after)) = first ++ (word ++ (last ++ [' '])) ∧
      (first = [] ∨ first.getLast? = some ' ') ∧ (last = [] ∨ last.head? = some ' ') := by
  have kept : beforeWord "--".toList (before ++ (word ++ after)) =
      before ++ (word ++ beforeWord "--".toList after) := by
    rw [← beforeWord_free (by decide) (fun c member => (solid c member).2) after]
    obtain ⟨c, rest, rfl⟩ := List.exists_cons_of_ne_nil nonempty
    rw [List.cons_append, beforeWord_absent dashes (solid c List.mem_cons_self).2,
      beforeWord_foreign (by decide) (solid c List.mem_cons_self).2]
  generalize beforeWord "--".toList after = part at kept right
  refine ⟨before.dropWhile isWhitespace, part.rdropWhile isWhitespace, ?_, ?_, ?_⟩
  · rw [cleanedLine, kept, trim_around nonempty (fun c member => (solid c member).1), if_neg]
    · simp
    · simp [nonempty]
  · rcases left with blank | ends
    · exact Or.inl (List.dropWhile_eq_nil_iff.mpr blank)
    · obtain ⟨front, whole⟩ := List.dropWhile_suffix (l := before) isWhitespace
      cases rest : before.dropWhile isWhitespace with
      | nil => exact Or.inl rfl
      | cons c rest' =>
        rw [rest] at whole
        rw [← whole, List.getLast?_append_of_ne_nil _ (List.cons_ne_nil _ _)] at ends
        exact Or.inr ends
  · rcases right with blank | starts
    · refine Or.inl (List.rdropWhile_eq_nil_iff.mpr blank)
    · obtain ⟨back, whole⟩ := List.rdropWhile_prefix isWhitespace part
      cases rest : part.rdropWhile isWhitespace with
      | nil => exact Or.inl rfl
      | cons c rest' =>
        rw [rest] at whole
        rw [← whole] at starts
        exact Or.inr starts

/-- The kept lines end with a blank. -/
theorem flatMap_cleanedLine (pieces : List Text) :
    pieces.flatMap cleanedLine = [] ∨ (pieces.flatMap cleanedLine).getLast? = some ' ' := by
  induction pieces using List.reverseRecOn with
  | nil => exact Or.inl rfl
  | append_singleton pieces line ih =>
    rw [List.flatMap_append, List.flatMap_singleton, cleanedLine]
    split
    · rwa [List.append_nil]
    · simp

/-- A visible word stands between blanks in what is searched. -/
theorem visible_found {front word behind : Text} (nonempty : word ≠ [])
    (solid : ∀ c ∈ word, isWhitespace c = false ∧ c ∉ "--".toList)
    (visible : Visible front behind) :
    ' ' :: (word ++ [' ']) <:+: ' ' :: (cleaned (front ++ (word ++ behind)) ++ [' ']) := by
  obtain ⟨dashes, left, right⟩ := visible
  have newline : '\n' ∉ word := by
    intro member
    exact absurd (solid _ member).1 (by decide)
  obtain ⟨earlier, later, pieces⟩ := @splitOn_around front word behind newline
  obtain ⟨first, last, line, starts, ends⟩ := cleanedLine_visible nonempty solid dashes left right
  rw [cleaned_eq, pieces, List.flatMap_append, List.flatMap_cons, line]
  have leading : ∃ before, ' ' :: (earlier.flatMap cleanedLine ++ first) = before ++ [' '] := by
    rcases starts with rfl | tail
    · rw [List.append_nil]
      rcases flatMap_cleanedLine earlier with empty | tail
      · exact ⟨[], by rw [empty]; rfl⟩
      · exact ⟨' ' :: (earlier.flatMap cleanedLine).dropLast,
          congrArg (' ' :: ·) (List.dropLast_append_getLast? ' ' tail).symm⟩
    · refine ⟨' ' :: (earlier.flatMap cleanedLine ++ first.dropLast), ?_⟩
      rw [List.cons_append, List.append_assoc, List.dropLast_append_getLast? ' ' tail]
  have trailing : ∃ after, last ++ [' '] = ' ' :: after := by
    rcases ends with rfl | head
    · exact ⟨[], rfl⟩
    · obtain ⟨rest, rfl⟩ := List.head?_eq_some_iff.mp head
      exact ⟨rest ++ [' '], rfl⟩
  obtain ⟨before, befores⟩ := leading
  obtain ⟨after, afters⟩ := trailing
  refine ⟨before, after ++ later.flatMap cleanedLine ++ [' '], ?_⟩
  calc before ++ ' ' :: (word ++ [' ']) ++ (after ++ later.flatMap cleanedLine ++ [' '])
      = (before ++ [' ']) ++ (word ++ ((' ' :: after) ++ later.flatMap cleanedLine ++ [' '])) := by
        simp
    _ = ' ' :: (earlier.flatMap cleanedLine ++ first) ++
          (word ++ ((last ++ [' ']) ++ later.flatMap cleanedLine ++ [' '])) := by
        rw [befores, afters]
    _ = ' ' :: (earlier.flatMap cleanedLine ++
          (first ++ (word ++ (last ++ [' '])) ++ later.flatMap cleanedLine) ++ [' ']) := by
        simp

end DddCqrsEs.FullstackApp
