import DddCqrsEs.LexemeBounds

/- What quoted names and constants need of the text behind them. Nothing here names an
application. -/
namespace SqlLexer

section Quoted

variable {text behind : List Char}

theorem nameRest_append (read : nameRest (text ++ behind) = some behind) (other : List Char) :
    nameRest (text ++ other) = some other ↔ other.head? ≠ some '"' := by
  induction text using nameRest.induct with
  | case1 text ih => exact ih read
  | case2 text single =>
    cases text with
    | nil =>
      cases other with
      | nil => simp [nameRest]
      | cons c other =>
        by_cases quote : c = '"'
        · subst quote
          constructor
          · intro again
            have inner : nameRest other = some ('"' :: other) := again
            exact absurd (nameRest_leaves inner).2 (by simp)
          · intro bounded
            exact absurd rfl bounded
        · have ends : nameRest ('"' :: c :: other) = some (c :: other) := by
            rw [nameRest]
            intro rest same
            exact quote (List.cons.inj same).1
          exact iff_of_true ends (by simpa using quote)
    | cons c text =>
      have ends : nameRest ('"' :: (c :: text ++ behind)) = some (c :: text ++ behind) := by
        rw [nameRest]
        intro rest same
        exact single text (by rw [(List.cons.inj same).1])
      have same : c :: text ++ behind = behind := Option.some.inj (ends.symm.trans read)
      have lengths := congrArg List.length same
      rw [List.length_append, List.length_cons] at lengths
      omega
  | case3 c text doubled quote ih =>
    have passes : ∀ later : List Char,
        nameRest (c :: (text ++ later)) = nameRest (text ++ later) := by
      intro later
      rw [nameRest]
      · exact fun rest same _ => quote same
      · exact quote
    have inner : nameRest (text ++ behind) = some behind := (passes behind).symm.trans read
    show nameRest (c :: (text ++ other)) = some other ↔ _
    rw [passes other]
    exact ih inner
  | case4 =>
    have leaves := nameRest_leaves read
    exact absurd leaves.2 (Nat.lt_irrefl _)

variable {inside rest front : List Char} {style : StringStyle} {c mark : Char}

theorem behindGap_append {gap : Gap}
    (found : behindGap gap (text ++ behind) = some (inside ++ behind)) (other : List Char) :
    behindGap gap (text ++ other) = some (inside ++ other) := by
  induction text generalizing gap with
  | nil =>
    have leaves := behindGap_leaves found
    exact absurd leaves.2 (by simp)
  | cons c text ih =>
    cases gap with
    | blank newline =>
      rw [List.cons_append, behindGap] at found ⊢
      split_ifs at found with ends space dash quote
      · rw [if_pos ends, ih found]
      · rw [if_neg ends, if_pos space, ih found]
      · rw [if_neg ends, if_neg space, if_pos dash, ih found]
      · rw [if_neg ends, if_neg space, if_neg dash, if_pos quote]
        rw [Option.some_inj, List.append_cancel_right_eq] at found
        rw [found]
    | dash =>
      rw [List.cons_append, behindGap] at found ⊢
      split_ifs at found with dash
      rw [if_pos dash, ih found]
    | comment =>
      rw [List.cons_append, behindGap] at found ⊢
      split_ifs at found with ends
      · rw [if_pos ends, ih found]
      · rw [if_neg ends, ih found]

theorem continued_append {style : StringStyle} {inside : List Char}
    (found : continued style (text ++ behind) = some (inside ++ behind)) (other : List Char) :
    continued style (text ++ other) = some (inside ++ other) := by
  cases text with
  | nil =>
    have leaves := continued_leaves found
    exact absurd leaves.2 (by simp)
  | cons c text =>
    rw [continued, List.cons_append, List.head?_cons, List.tail_cons] at found ⊢
    split_ifs at found with quote bits
    · rw [if_pos quote, if_neg bits]
      rw [Option.some_inj, List.append_cancel_right_eq] at found
      rw [found]
    · rw [if_neg quote]
      rw [← List.cons_append] at found ⊢
      exact behindGap_append found other

/-- What is left of a text before its known end is left before any other. -/
theorem suffix_split {later : List Char} (suffix : later <:+ text ++ behind)
    (longer : behind.length ≤ later.length) :
    ∃ inside, later = inside ++ behind ∧ inside <:+ text := by
  obtain ⟨front, whole⟩ := suffix
  rcases List.append_eq_append_iff.mp whole with ⟨inside, texts, laters⟩ | ⟨more, _, behinds⟩
  · exact ⟨inside, laters, ⟨front, texts.symm⟩⟩
  · rw [behinds, List.length_append] at longer
    have empty : more = [] := List.eq_nil_of_length_eq_zero (by omega)
    rw [empty, List.nil_append] at behinds
    exact ⟨[], behinds.symm, List.nil_suffix⟩

/-- A constant ends as it stands where nothing continues it. -/
theorem stringFrom_append (read : stringFrom style 0 (text ++ behind) = some behind)
    (other : List Char) :
    stringFrom style 0 (text ++ other) = some other ↔ continued style other = none := by
  induction size : text.length using Nat.strongRecOn generalizing text with
  | ind length ih =>
    cases text with
    | nil => exact absurd (stringFrom_leaves read).2 (Nat.lt_irrefl _)
    | cons c text =>
      rw [List.length_cons] at size
      rw [List.cons_append, stringFrom_cons] at read ⊢
      by_cases escaped : c = '\\' ∧ style = .escape
      · rw [if_pos escaped] at read ⊢
        cases text with
        | nil =>
          have leaves := (stringFrom_leaves read).of_suffix (List.drop_suffix 1 _)
          exact absurd leaves.2 (Nat.lt_irrefl _)
        | cons d text =>
          rw [List.length_cons] at size
          exact ih text.length (by omega) read rfl
      · rw [if_neg escaped] at read ⊢
        by_cases quote : c = '\''
        · rw [if_pos quote] at read ⊢
          cases found : continued style (text ++ behind) with
          | some later =>
            rw [found] at read
            have longer := (stringFrom_leaves read).2
            obtain ⟨inside, split, suffix⟩ :=
              suffix_split (continued_leaves found).1 (Nat.le_of_lt longer)
            subst split
            have shorter := suffix.length_le
            rw [continued_append found other]
            exact ih inside.length (by omega) read rfl
          | none =>
            rw [found] at read
            have whole : text ++ behind = behind := Option.some.inj read
            rw [List.append_left_eq_self] at whole
            rw [whole, List.nil_append]
            cases goes : continued style other with
            | none => simp
            | some inside =>
              have leaves := continued_leaves goes
              constructor
              · intro again
                have shorter := (stringFrom_leaves again).2
                exact absurd leaves.2 (Nat.lt_asymm shorter)
              · intro impossible
                cases impossible
        · rw [if_neg quote] at read ⊢
          exact ih text.length (by omega) read rfl

/-- A prefix stands before the quote that opens a constant. -/
theorem wordKind_string (kind : wordKind c rest = .string style) :
    ∃ front inside, rest = front ++ '\'' :: inside ∧ '\'' ∉ front ∧
      ∀ other, wordKind c (front ++ '\'' :: other) = .string style := by
  rw [wordKind.eq_def] at kind
  split at kind
  · rename_i inside
    refine ⟨[], inside, rfl, by simp, ?_⟩
    intro other
    rw [List.nil_append, wordKind]
    exact kind
  · rename_i inside
    refine ⟨['&'], inside, rfl, by decide, ?_⟩
    intro other
    show wordKind c ('&' :: '\'' :: other) = _
    rw [wordKind]
    exact kind
  · split at kind
    · cases kind
    · cases kind
  · cases kind

theorem wordKind_quotedName (kind : wordKind c rest = .quotedName) :
    ∃ front inside, rest = front ++ '"' :: inside ∧ '"' ∉ front ∧
      ∀ other, wordKind c (front ++ '"' :: other) = .quotedName := by
  rw [wordKind.eq_def] at kind
  split at kind
  · split_ifs at kind
  · split at kind
    · cases kind
    · cases kind
  · rename_i inside
    refine ⟨['&'], inside, rfl, by decide, ?_⟩
    intro other
    show wordKind c ('&' :: '"' :: other) = _
    rw [wordKind]
    exact kind
  · cases kind

theorem dropWhile_mark (free : mark ∉ front) (rest : List Char) :
    ((front ++ mark :: rest).dropWhile (· ≠ mark)).drop 1 = rest := by
  rw [List.dropWhile_append_of_pos, List.dropWhile_cons_of_neg]
  · rfl
  · simp
  · intro c member
    have other : c ≠ mark := fun same => free (same ▸ member)
    simpa using other

/-- A constant holds its opening quote and what stands before it. -/
theorem quoted_parts (split : text ++ behind = front ++ mark :: inside)
    (leaves : Leaves inside behind) :
    ∃ body, inside = body ++ behind ∧ text = front ++ mark :: body := by
  have suffix : inside <:+ text ++ behind := by
    rw [split]
    exact (List.suffix_cons mark inside).trans (List.suffix_append _ _)
  obtain ⟨body, whole, _⟩ := suffix_split suffix (Nat.le_of_lt leaves.2)
  refine ⟨body, whole, ?_⟩
  rw [whole, ← List.cons_append, ← List.append_assoc, List.append_cancel_right_eq] at split
  exact split

/-- A letter stands before a prefix as it stands before the quote. -/
theorem opening_cons {kind : Kind} (letter : classOf c = .letter)
    (noLetter : classOf mark ≠ .letter) (free : mark ∉ front)
    (split : text ++ behind = front ++ mark :: inside)
    (kinds : ∀ later, kindOf (c :: (front ++ mark :: later)) = some kind) :
    ∃ front inside, c :: (text ++ behind) = front ++ mark :: inside ∧ mark ∉ front ∧
      ∀ later, kindOf (front ++ mark :: later) = some kind := by
  refine ⟨c :: front, inside, congrArg (c :: ·) split, ?_, kinds⟩
  rw [List.mem_cons, not_or]
  refine ⟨?_, free⟩
  intro same
  rw [same] at noLetter
  exact noLetter letter

/-- A quoted lexeme is read before another text where its inside ends there again. -/
theorem reads_quoted {kind : Kind} {insideRest : List Char → Option (List Char)}
    (leaves : ∀ {inside rest}, insideRest inside = some rest → Leaves inside rest)
    (opening : ∃ front inside, text ++ behind = front ++ mark :: inside ∧ mark ∉ front ∧
      ∀ later, kindOf (front ++ mark :: later) = some kind)
    (read : insideRest (((text ++ behind).dropWhile (· ≠ mark)).drop 1) = some behind)
    (other : List Char) :
    ∃ body, insideRest (body ++ behind) = some behind ∧
      ((kindOf (text ++ other) = some kind ∧
          insideRest (((text ++ other).dropWhile (· ≠ mark)).drop 1) = some other) ↔
        insideRest (body ++ other) = some other) := by
  obtain ⟨front, inside, split, free, kinds⟩ := opening
  have within : insideRest inside = some behind := by
    rw [split, dropWhile_mark free] at read
    exact read
  obtain ⟨body, bodies, whole⟩ := quoted_parts split (leaves within)
  rw [bodies] at within
  have later : text ++ other = front ++ mark :: (body ++ other) := by
    rw [whole, List.append_assoc, List.cons_append]
  refine ⟨body, within, ?_⟩
  rw [later, dropWhile_mark free, kinds]
  exact and_iff_right rfl

theorem reads_string (reads : Reads ⟨.string style, text⟩ behind) (other : List Char) :
    Reads ⟨.string style, text⟩ other ↔ Bounded ⟨.string style, text⟩ other := by
  have nonempty := reads.ne_nil
  obtain ⟨starts, read⟩ := reads
  have opening : ∃ front inside, text ++ behind = front ++ '\'' :: inside ∧ '\'' ∉ front ∧
      ∀ later, kindOf (front ++ '\'' :: later) = some (.string style) := by
    cases text with
    | nil => exact absurd rfl nonempty
    | cons c text =>
      rcases kindOf_iff.mp starts with ⟨quote, plain⟩ | ⟨letter, kind⟩
      · have same : c = '\'' := classOf_quote.mp quote
        refine ⟨[], text ++ behind, by rw [same]; rfl, by simp, ?_⟩
        exact fun later => kindOf_iff.mpr (Or.inl ⟨by decide, plain⟩)
      · obtain ⟨front, inside, split, free, kinds⟩ := wordKind_string kind
        apply opening_cons letter (by decide) free split
        exact fun later => kindOf_iff.mpr (Or.inr ⟨letter, kinds later⟩)
  obtain ⟨body, within, again⟩ := reads_quoted stringFrom_leaves opening read other
  exact again.trans (stringFrom_append within other)

theorem reads_quotedName (reads : Reads ⟨.quotedName, text⟩ behind) (other : List Char) :
    Reads ⟨.quotedName, text⟩ other ↔ Bounded ⟨.quotedName, text⟩ other := by
  have nonempty := reads.ne_nil
  obtain ⟨starts, read⟩ := reads
  have opening : ∃ front inside, text ++ behind = front ++ '"' :: inside ∧ '"' ∉ front ∧
      ∀ later, kindOf (front ++ '"' :: later) = some .quotedName := by
    cases text with
    | nil => exact absurd rfl nonempty
    | cons c text =>
      rcases kindOf_iff.mp starts with quote | ⟨letter, kind⟩
      · have same : c = '"' := classOf_doubleQuote.mp quote
        refine ⟨[], text ++ behind, by rw [same]; rfl, by simp, ?_⟩
        exact fun later => kindOf_iff.mpr (Or.inl (by decide))
      · obtain ⟨front, inside, split, free, kinds⟩ := wordKind_quotedName kind
        apply opening_cons letter (by decide) free split
        exact fun later => kindOf_iff.mpr (Or.inr ⟨letter, kinds later⟩)
  obtain ⟨body, within, again⟩ := reads_quoted nameRest_leaves opening read other
  exact again.trans (nameRest_append within other)

end Quoted

end SqlLexer
