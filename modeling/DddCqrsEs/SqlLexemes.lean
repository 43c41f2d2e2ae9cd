import DddCqrsEs.SqlLexer

/- What follows a lexeme decides whether it is read as it stands: lexemes are read back from
their texts where each is bounded by the text behind it. Nothing here names an application. -/
namespace SqlLexer

open Cuts

/-- Reading leaves a shorter text, which is the end of the one before. -/
def Leaves (text rest : List Char) : Prop := rest <:+ text ∧ rest.length < text.length

variable {text rest later inside : List Char} {style : StringStyle} {lexeme : Lexeme}

theorem Leaves.cons (leaves : Leaves text rest) (c : Char) : Leaves (c :: text) rest :=
  ⟨leaves.1.trans (List.suffix_cons c text), Nat.lt_succ_of_lt leaves.2⟩

theorem leaves_cons (c : Char) (text : List Char) : Leaves (c :: text) text :=
  ⟨List.suffix_cons c text, Nat.lt_succ_self _⟩

theorem Leaves.of_suffix (leaves : Leaves later rest) (suffix : later <:+ text) :
    Leaves text rest :=
  ⟨leaves.1.trans suffix, Nat.lt_of_lt_of_le leaves.2 suffix.length_le⟩

theorem Leaves.suffix_of (leaves : Leaves text later) (suffix : rest <:+ later) :
    Leaves text rest :=
  ⟨suffix.trans leaves.1, Nat.lt_of_le_of_lt suffix.length_le leaves.2⟩

theorem blockRest_leaves {depth : Nat} (read : blockRest depth text = some rest) :
    Leaves text rest := by
  induction depth, text using blockRest.induct with
  | case1 depth text ih =>
    rw [blockRest] at read
    exact ((ih read).cons '*').cons '/'
  | case2 text =>
    rw [blockRest] at read
    injection read with same
    subst same
    exact (leaves_cons '/' text).cons '*'
  | case3 depth text ih =>
    rw [blockRest] at read
    exact ((ih read).cons '/').cons '*'
  | case4 depth c text opens closes more ih =>
    rw [blockRest] at read
    · exact (ih read).cons c
    · exact opens
    · exact closes
    · exact more
  | case5 depth =>
    rw [blockRest] at read
    cases read

theorem nameRest_leaves (read : nameRest text = some rest) : Leaves text rest := by
  induction text using nameRest.induct with
  | case1 text ih =>
    rw [nameRest] at read
    exact ((ih read).cons '"').cons '"'
  | case2 text other =>
    rw [nameRest] at read
    · injection read with same
      subst same
      exact leaves_cons '"' text
    · exact other
  | case3 c text doubled quote ih =>
    rw [nameRest] at read
    · exact (ih read).cons c
    · exact doubled
    · exact quote
  | case4 =>
    rw [nameRest] at read
    cases read

theorem behindGap_leaves {gap : Gap} (found : behindGap gap text = some inside) :
    Leaves text inside := by
  induction text generalizing gap with
  | nil =>
    rw [behindGap] at found
    cases found
  | cons c text ih =>
    cases gap with
    | blank newline =>
      rw [behindGap] at found
      split at found
      · exact (ih found).cons c
      · split at found
        · exact (ih found).cons c
        · split at found
          · exact (ih found).cons c
          · split at found
            · injection found with same
              subst same
              exact leaves_cons c text
            · cases found
    | dash =>
      rw [behindGap] at found
      split at found
      · exact (ih found).cons c
      · cases found
    | comment =>
      rw [behindGap] at found
      split at found
      · exact (ih found).cons c
      · exact (ih found).cons c

theorem continued_leaves (found : continued style text = some inside) : Leaves text inside := by
  rw [continued] at found
  split at found
  · rename_i quote
    split at found
    · cases found
    · injection found with same
      obtain ⟨rest, whole⟩ := List.head?_eq_some_iff.mp quote
      rw [whole] at same
      subst same
      rw [whole]
      exact leaves_cons _ _
  · exact behindGap_leaves found

theorem stringFrom_eq_drop (style : StringStyle) (skip : Nat) (text : List Char) :
    stringFrom style skip text = stringFrom style 0 (text.drop skip) := by
  induction skip generalizing text with
  | zero => rfl
  | succ skip ih =>
    cases text with
    | nil => rw [List.drop_nil, stringFrom, stringFrom]
    | cons c text => rw [stringFrom, ih, List.drop_succ_cons]

theorem suffix_eq_drop (suffix : rest <:+ text) : text.drop (text.length - rest.length) = rest := by
  obtain ⟨front, whole⟩ := suffix
  rw [← whole]
  apply List.drop_left'
  rw [List.length_append]
  omega

/-- One character of a string constant. -/
theorem stringFrom_cons (style : StringStyle) (c : Char) (text : List Char) :
    stringFrom style 0 (c :: text) =
      if c = '\\' ∧ style = .escape then stringFrom style 0 (text.drop 1)
      else if c = '\'' then
        match continued style text with
        | some inside => stringFrom style 0 inside
        | none => some text
      else stringFrom style 0 text := by
  rw [stringFrom]
  split
  · rw [stringFrom_eq_drop]
  · split
    · cases found : continued style text with
      | none => rfl
      | some inside =>
        show stringFrom style (text.length - inside.length) text = stringFrom style 0 inside
        rw [stringFrom_eq_drop, suffix_eq_drop (continued_leaves found).1]
    · rfl

theorem stringFrom_leaves (read : stringFrom style 0 text = some rest) : Leaves text rest := by
  induction size : text.length using Nat.strongRecOn generalizing text with
  | ind length ih =>
    cases text with
    | nil =>
      rw [stringFrom] at read
      cases read
    | cons c text =>
      rw [List.length_cons] at size
      rw [stringFrom_cons] at read
      split at read
      · have shorter : (text.drop 1).length < length := by
          rw [List.length_drop]
          omega
        exact ((ih _ shorter read rfl).of_suffix (List.drop_suffix 1 text)).cons c
      · split at read
        · split at read
          · rename_i inside found
            have leaves := continued_leaves found
            have shorter : inside.length < length := Nat.lt_trans leaves.2 (by omega)
            exact ((ih _ shorter read rfl).of_suffix leaves.1).cons c
          · injection read with same
            subst same
            exact leaves_cons c text
        · exact (ih text.length (by omega) read rfl).cons c

theorem mantissa_append (text : List Char) : (mantissa text).1 ++ (mantissa text).2 = text := by
  rw [mantissa]
  split
  · rename_i fraction
    have starts : (text.dropWhile isLetter).head? = some '.' := by
      have both := fraction.2
      rw [startsFraction, Bool.and_eq_true, beq_iff_eq] at both
      exact both.1
    obtain ⟨rest, whole⟩ := List.head?_eq_some_iff.mp starts
    rw [whole, List.tail_cons, List.append_assoc, List.cons_append,
      List.takeWhile_append_dropWhile, ← whole, List.takeWhile_append_dropWhile]
  · exact List.takeWhile_append_dropWhile

theorem isNumber_nil : isNumber [] = false := by decide

theorem numberRest_leaves (read : numberRest text = some rest) : Leaves text rest := by
  have split := mantissa_append text
  rw [numberRest] at read
  split at read
  · rename_i number
    injection read with same
    rw [same] at split
    refine ⟨⟨_, split⟩, ?_⟩
    have nonempty : (mantissa text).1 ≠ [] := by
      intro empty
      rw [empty, isNumber_nil] at number
      cases number
    have positive := List.length_pos_iff.mpr nonempty
    rw [← split, List.length_append]
    omega
  · split at read
    · cases read
    · rename_i sign behind cut
      split at read
      · injection read with same
        subst same
        rw [cut] at split
        have tail : List.dropWhile isLetter behind <:+ behind := List.dropWhile_suffix _
        exact ((leaves_cons sign behind).suffix_of tail).of_suffix ⟨_, split⟩
      · cases read

theorem dollarRest_leaves (read : dollarRest text = some rest) : Leaves text rest := by
  rw [dollarRest] at read
  have suffix : text.dropWhile isLetter <:+ text := List.dropWhile_suffix _
  split at read
  · rename_i body whole
    rw [Option.map_eq_some_iff] at read
    obtain ⟨cut, found, same⟩ := read
    subst same
    rw [whole] at suffix
    have behind : cut.2 <:+ body := by
      rw [eq_of_cutWord found]
      exact List.suffix_append _ _
    exact ((leaves_cons '$' body).suffix_of behind).of_suffix suffix
  · cases read

theorem wordKind_cases (c : Char) (rest : List Char) :
    wordKind c rest = .word ∨ (∃ style, wordKind c rest = .string style) ∨
      wordKind c rest = .quotedName := by
  rw [wordKind.eq_def]
  split
  · split_ifs
    · exact Or.inr (Or.inl ⟨_, rfl⟩)
    · exact Or.inr (Or.inl ⟨_, rfl⟩)
    · exact Or.inr (Or.inl ⟨_, rfl⟩)
    · exact Or.inl rfl
  · split_ifs
    · exact Or.inr (Or.inl ⟨_, rfl⟩)
    · exact Or.inl rfl
  · split_ifs
    · exact Or.inr (Or.inr rfl)
    · exact Or.inl rfl
  · exact Or.inl rfl

section Kinds

variable {c : Char}

/-- How a lexeme of each kind starts. -/
def Starts (c : Char) (rest : List Char) : Kind → Prop
  | .blank => classOf c = .space
  | .lineComment => classOf c = .operator ∧ c = '-' ∧ rest.head? = some '-'
  | .blockComment => classOf c = .operator ∧ c = '/' ∧ rest.head? = some '*'
  | .word => classOf c = .letter ∧ wordKind c rest = .word
  | .quotedName =>
    classOf c = .doubleQuote ∨ classOf c = .letter ∧ wordKind c rest = .quotedName
  | .string style =>
    (classOf c = .quote ∧ style = .plain) ∨
      classOf c = .letter ∧ wordKind c rest = .string style
  | .dollarString => classOf c = .dollar ∧ rest.head?.any Char.isDigit = false
  | .number =>
    classOf c = .digit ∨ classOf c = .dot ∧ rest.head?.any Char.isDigit = true
  | .parameter => classOf c = .dollar ∧ rest.head?.any Char.isDigit = true
  | .special =>
    (classOf c = .dot ∧ rest.head?.any Char.isDigit = false) ∨ classOf c = .colon ∨
      classOf c = .punctuation
  | .operator =>
    classOf c = .operator ∧
      ¬ (c = '-' ∧ rest.head? = some '-') ∧ ¬ (c = '/' ∧ rest.head? = some '*')

theorem kindOf_iff {kind : Kind} : kindOf (c :: rest) = some kind ↔ Starts c rest kind := by
  have letters := wordKind_cases c rest
  rw [kindOf]
  cases kind
  all_goals
    rw [Starts]
    cases classOf c <;> simp <;> grind

end Kinds

theorem dropWhile_leaves {kind : Char → Bool} {c : Char} (dropped : kind c = true)
    (rest : List Char) : Leaves (c :: rest) ((c :: rest).dropWhile kind) := by
  rw [List.dropWhile_cons_of_pos dropped]
  exact (leaves_cons c rest).suffix_of (List.dropWhile_suffix _)

theorem specialLength_pos (text : List Char) : 0 < specialLength text := by
  rw [specialLength.eq_def]
  split <;> decide

theorem operatorOf_ne_nil {c : Char} {run : List Char}
    (alone : ¬ ((c = '-' ∧ run.head? = some '-') ∨ (c = '/' ∧ run.head? = some '*'))) :
    operatorOf (c :: run) ≠ [] := by
  rw [operatorOf, cutComments, if_neg alone, trimSigns]
  split
  · exact List.cons_ne_nil _ _
  · exact List.cons_ne_nil _ _

theorem restOf_leaves {kind : Kind} (starts : kindOf text = some kind)
    (read : restOf kind text = some rest) : Leaves text rest := by
  cases text with
  | nil => cases starts
  | cons c text =>
    cases kind with
    | blank =>
      have first : classOf c = .space := (kindOf_iff).mp starts
      have space : isSpace c = true := by simp [isSpace, first]
      injection read with same
      subst same
      exact dropWhile_leaves space text
    | lineComment =>
      have dash : (!isNewline c) = true := by
        rw [((kindOf_iff).mp starts).2.1]
        decide
      injection read with same
      subst same
      exact dropWhile_leaves dash text
    | blockComment =>
      exact (blockRest_leaves read).of_suffix (List.drop_suffix 2 _)
    | word =>
      have letter : inWord c = true := by simp [inWord, isLetter, ((kindOf_iff).mp starts).1]
      injection read with same
      subst same
      exact dropWhile_leaves letter text
    | quotedName =>
      exact ((nameRest_leaves read).of_suffix (List.drop_suffix 1 _)).of_suffix
        (List.dropWhile_suffix _)
    | string style =>
      exact ((stringFrom_leaves read).of_suffix (List.drop_suffix 1 _)).of_suffix
        (List.dropWhile_suffix _)
    | dollarString => exact (dollarRest_leaves read).cons c
    | number => exact numberRest_leaves read
    | parameter =>
      rw [restOf] at read
      split at read
      · cases read
      · injection read with same
        subst same
        exact (leaves_cons c text).suffix_of (List.dropWhile_suffix _)
    | special =>
      injection read with same
      subst same
      refine ⟨List.drop_suffix _ _, ?_⟩
      have positive := specialLength_pos (c :: text)
      rw [List.length_drop, List.length_cons]
      omega
    | operator =>
      obtain ⟨operator, dashes, comment⟩ := (kindOf_iff).mp starts
      injection read with same
      subst same
      refine ⟨List.drop_suffix _ _, ?_⟩
      have run : (c :: text).takeWhile isOperator = c :: text.takeWhile isOperator := by
        rw [List.takeWhile_cons_of_pos]
        simp [isOperator, operator]
      have first : ∀ d, isOperator d = true →
          (text.takeWhile isOperator).head? = some d → text.head? = some d := by
        intro d _ head
        cases text with
        | nil => exact head
        | cons next text =>
          rw [List.takeWhile_cons] at head
          split at head
          · exact head
          · cases head
      have nonempty : operatorOf (c :: text.takeWhile isOperator) ≠ [] := by
        apply operatorOf_ne_nil
        rintro (both | both)
        · exact dashes ⟨both.1, first '-' (by decide) both.2⟩
        · exact comment ⟨both.1, first '*' (by decide) both.2⟩
      have positive := List.length_pos_iff.mpr nonempty
      rw [List.length_drop, run, List.length_cons]
      omega

/-- A lexeme is read as it stands before the given text. -/
def Reads (lexeme : Lexeme) (behind : List Char) : Prop :=
  kindOf (lexeme.text ++ behind) = some lexeme.kind ∧
    restOf lexeme.kind (lexeme.text ++ behind) = some behind

instance (lexeme : Lexeme) (behind : List Char) : Decidable (Reads lexeme behind) :=
  inferInstanceAs (Decidable (_ ∧ _))

theorem Reads.ne_nil {behind : List Char} (reads : Reads lexeme behind) : lexeme.text ≠ [] := by
  intro empty
  have leaves := restOf_leaves reads.1 reads.2
  rw [empty, List.nil_append] at leaves
  exact Nat.lt_irrefl _ leaves.2

theorem next_eq_some :
    next text = some (lexeme, rest) ↔ text = lexeme.text ++ rest ∧ Reads lexeme rest := by
  rw [next]
  constructor
  · intro found
    split at found
    · cases found
    · rename_i kind starts
      rw [Option.map_eq_some_iff] at found
      obtain ⟨left, read, same⟩ := found
      rw [Prod.mk.injEq] at same
      obtain ⟨whole, rests⟩ := same
      subst rests whole
      obtain ⟨front, split⟩ := (restOf_leaves starts read).1
      have taken : text.take (text.length - left.length) = front := by
        rw [← split]
        apply List.take_left'
        rw [List.length_append]
        omega
      rw [Reads]
      simp only [taken, split]
      exact ⟨trivial, starts, read⟩
  · rintro ⟨whole, starts, read⟩
    have length : text.length - rest.length = lexeme.text.length := by
      rw [whole, List.length_append]
      omega
    rw [whole, starts]
    show (restOf lexeme.kind (lexeme.text ++ rest)).map _ = _
    rw [read, Option.map_some, ← whole, length, whole, List.take_left']
    rfl

/-- The text of a list of lexemes. -/
def texts (lexemes : List Lexeme) : List Char := lexemes.flatMap Lexeme.text

/-- Each lexeme is read before the text of those behind it. -/
def AllRead : List Lexeme → Prop
  | [] => True
  | lexeme :: behind => Reads lexeme (texts behind) ∧ AllRead behind

theorem texts_cons (lexeme : Lexeme) (behind : List Lexeme) :
    texts (lexeme :: behind) = lexeme.text ++ texts behind := rfl

theorem texts_append (front back : List Lexeme) :
    texts (front ++ back) = texts front ++ texts back := List.flatMap_append

theorem AllRead.of_append {front back : List Lexeme} (read : AllRead (front ++ back)) :
    AllRead back := by
  induction front with
  | nil => exact read
  | cons lexeme front ih => exact ih read.2

theorem lexFrom_eq_drop (skip : Nat) (text : List Char) :
    lexFrom skip text = lex (text.drop skip) := by
  induction skip generalizing text with
  | zero => rfl
  | succ skip ih =>
    cases text with
    | nil => rfl
    | cons c text => rw [lexFrom, ih, List.drop_succ_cons]

theorem lex_nil : lex [] = some [] := rfl

theorem lex_of_next (found : next text = some (lexeme, rest)) :
    lex text = (lex rest).map (lexeme :: ·) := by
  obtain ⟨whole, reads⟩ := (next_eq_some).mp found
  cases letters : lexeme.text with
  | nil => exact absurd letters reads.ne_nil
  | cons c letters' =>
    have split : text = c :: (letters' ++ rest) := by rw [whole, letters, List.cons_append]
    rw [lex, split, lexFrom, ← split, found]
    show (lexFrom (lexeme.text.length - 1) (letters' ++ rest)).map (lexeme :: ·) = _
    rw [letters, List.length_cons, Nat.add_sub_cancel, lexFrom_eq_drop, List.drop_left']
    rfl

/-- A text has the given lexemes where it is their text and each of them is read. -/
theorem lex_eq_some {lexemes : List Lexeme} :
    lex text = some lexemes ↔ text = texts lexemes ∧ AllRead lexemes := by
  induction lexemes generalizing text with
  | nil =>
    cases text with
    | nil => simp [lex_nil, texts, AllRead]
    | cons c text =>
      constructor
      · intro read
        cases found : next (c :: text) with
        | none =>
          rw [lex, lexFrom, found] at read
          cases read
        | some first =>
          rw [lex_of_next found, Option.map_eq_some_iff] at read
          obtain ⟨_, _, impossible⟩ := read
          cases impossible
      · intro both
        cases both.1
  | cons lexeme behind ih =>
    rw [texts_cons, AllRead]
    constructor
    · intro read
      cases text with
      | nil => cases read
      | cons c text =>
        cases found : next (c :: text) with
        | none =>
          rw [lex, lexFrom, found] at read
          cases read
        | some first =>
          rw [lex_of_next found, Option.map_eq_some_iff] at read
          obtain ⟨later, rest, same⟩ := read
          obtain ⟨firsts, laters⟩ := List.cons.inj same
          subst laters
          obtain ⟨whole, reads⟩ := (next_eq_some).mp found
          obtain ⟨texts, all⟩ := ih.mp rest
          rw [firsts, texts] at whole
          rw [firsts, texts] at reads
          exact ⟨whole, reads, all⟩
    · rintro ⟨whole, reads, all⟩
      rw [lex_of_next ((next_eq_some).mpr ⟨whole, reads⟩), ih.mpr ⟨rfl, all⟩]
      rfl

end SqlLexer
