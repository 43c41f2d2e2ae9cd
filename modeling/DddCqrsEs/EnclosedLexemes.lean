import DddCqrsEs.NumberBounds

/- A text in parentheses: its lexemes are those of the text, unless a comment at its end takes
the parenthesis in. Nothing here names an application. -/
namespace SqlLexer

open Cuts

/-- Each lexeme is read before those behind it and the text. -/
def ReadBefore (text : List Char) : List Lexeme → Prop
  | [] => True
  | lexeme :: behind => Reads lexeme (texts behind ++ text) ∧ ReadBefore text behind

variable {text rest behind other : List Char}

theorem lex_texts_append {front : List Lexeme} (read : ReadBefore text front) :
    lex (texts front ++ text) = (lex text).map (front ++ ·) := by
  induction front with
  | nil => simp [texts]
  | cons lexeme front ih =>
    have found : next (texts (lexeme :: front) ++ text) =
        some (lexeme, texts front ++ text) := by
      rw [texts_cons, List.append_assoc]
      exact next_eq_some.mpr ⟨rfl, read.1⟩
    rw [lex_of_next found, ih read.2, Option.map_map]
    rfl

theorem stringFrom_closes {style : StringStyle} (read : stringFrom style 0 text = some rest) :
    '\'' :: rest <:+ text := by
  induction size : text.length using Nat.strongRecOn generalizing text with
  | ind length ih =>
    cases text with
    | nil => cases read
    | cons c text =>
      rw [List.length_cons] at size
      rw [stringFrom_cons] at read
      split at read
      · have shorter : (text.drop 1).length < length := by
          rw [List.length_drop]
          omega
        have inside := ih _ shorter read rfl
        exact (inside.trans (List.drop_suffix 1 text)).trans (List.suffix_cons c text)
      · split at read
        · rename_i quote
          split at read
          · rename_i inside found
            have leaves := continued_leaves found
            have within := ih _ (Nat.lt_trans leaves.2 (by omega)) read rfl
            exact (within.trans leaves.1).trans (List.suffix_cons c text)
          · injection read with same
            subst same quote
            exact List.suffix_refl _
        · have inside := ih text.length (by omega) read rfl
          exact inside.trans (List.suffix_cons c text)

theorem nameRest_closes (read : nameRest text = some rest) : '"' :: rest <:+ text := by
  induction text using nameRest.induct with
  | case1 text ih =>
    rw [nameRest] at read
    exact ((ih read).trans (List.suffix_cons _ _)).trans (List.suffix_cons _ _)
  | case2 text other =>
    rw [nameRest] at read
    · injection read with same
      subst same
      exact List.suffix_refl _
    · exact other
  | case3 c text doubled quote ih =>
    rw [nameRest] at read
    · exact (ih read).trans (List.suffix_cons _ _)
    · exact doubled
    · exact quote
  | case4 => cases read

theorem blockRest_closes {depth : Nat} (read : blockRest depth text = some rest) :
    '/' :: rest <:+ text := by
  induction depth, text using blockRest.induct with
  | case1 depth text ih =>
    rw [blockRest] at read
    exact ((ih read).trans (List.suffix_cons _ _)).trans (List.suffix_cons _ _)
  | case2 text =>
    rw [blockRest] at read
    injection read with same
    rw [same]
    exact List.suffix_cons _ _
  | case3 depth text ih =>
    rw [blockRest] at read
    exact ((ih read).trans (List.suffix_cons _ _)).trans (List.suffix_cons _ _)
  | case4 depth c text opens closes more ih =>
    rw [blockRest] at read
    · exact (ih read).trans (List.suffix_cons _ _)
    · exact opens
    · exact closes
    · exact more
  | case5 depth => cases read

theorem dollarRest_closes (read : dollarRest text = some rest) : '$' :: rest <:+ text := by
  rw [dollarRest] at read
  have suffix : text.dropWhile isLetter <:+ text := List.dropWhile_suffix _
  split at read
  · rename_i body whole
    rw [Option.map_eq_some_iff] at read
    obtain ⟨cut, found, same⟩ := read
    rw [whole] at suffix
    have closes : '$' :: rest <:+ body := by
      rw [eq_of_cutWord found, ← same]
      refine ⟨cut.1 ++ '$' :: text.takeWhile isLetter, ?_⟩
      simp
    exact (closes.trans (List.suffix_cons _ _)).trans suffix
  · cases read

/-- The last character of a lexeme, where its mark is left before the text behind it. -/
theorem getLast?_of_closes {mark : Char} (closes : mark :: behind <:+ text ++ behind) :
    text.getLast? = some mark := by
  obtain ⟨front, whole⟩ := closes
  have same : front ++ [mark] = text := by
    rw [← List.append_cancel_right_eq _ behind, ← whole]
    simp
  rw [← same, List.getLast?_concat]

theorem special_unclosed {c : Char}
    (length : specialLength (c :: (rest ++ behind)) = rest.length + 1) : ')' ∉ rest := by
  intro member
  have few : rest.length ≤ 1 := by
    rw [specialLength.eq_def] at length
    split at length <;> omega
  obtain ⟨d, same⟩ := List.length_eq_one_iff.mp
    (Nat.le_antisymm few (List.length_pos_of_mem member))
  rw [same, List.mem_singleton] at member
  rw [same, ← member] at length
  rw [specialLength.eq_def] at length
  split at length
  · simp_all
  · simp_all
  · simp_all
  · simp at length

section Closing

/-- Every lexeme but a line comment ends with its mark, or holds no closing parenthesis behind
its first character. -/
theorem Reads.closes {lexeme : Lexeme} (reads : Reads lexeme behind)
    (other : lexeme.kind ≠ .lineComment) :
    (∃ mark ∈ ['\'', '"', '$', '/'], lexeme.text.getLast? = some mark) ∨
      ')' ∉ lexeme.text.tail := by
  have nonempty := reads.ne_nil
  obtain ⟨kind, text⟩ := lexeme
  have tail : ∀ inside : Char → Bool, inside ')' = false → (∀ c ∈ text, inside c = true) →
      ')' ∉ text.tail := by
    intro inside outside all member
    rw [all ')' (List.mem_of_mem_tail member)] at outside
    cases outside
  have quoted : ∀ {mark : Char}, mark ∈ ['\'', '"', '$', '/'] →
      mark :: behind <:+ text ++ behind →
      (∃ mark ∈ ['\'', '"', '$', '/'], text.getLast? = some mark) ∨ ')' ∉ text.tail :=
    fun among closes => Or.inl ⟨_, among, getLast?_of_closes closes⟩
  cases kind with
  | blank =>
    exact Or.inr (tail isSpace (by decide)
      (dropWhile_append_eq_iff.mp (Option.some.inj reads.2)).1)
  | lineComment => exact absurd rfl other
  | blockComment =>
    exact quoted (by decide) ((blockRest_closes reads.2).trans (List.drop_suffix 2 _))
  | word =>
    exact Or.inr (tail inWord (by decide)
      (dropWhile_append_eq_iff.mp (Option.some.inj reads.2)).1)
  | quotedName =>
    exact quoted (by decide) (((nameRest_closes reads.2).trans (List.drop_suffix 1 _)).trans
      (List.dropWhile_suffix _))
  | string style =>
    exact quoted (by decide) (((stringFrom_closes reads.2).trans (List.drop_suffix 1 _)).trans
      (List.dropWhile_suffix _))
  | dollarString =>
    exact quoted (by decide) ((dollarRest_closes reads.2).trans (List.drop_suffix 1 _))
  | number =>
    refine Or.inr (fun member => ?_)
    obtain ⟨⟨_, shape⟩, _⟩ := numberRest_iff.mp reads.2
    have letters := List.mem_of_mem_tail member
    have parts : ∀ {number : List Char}, Shape number → ')' ∉ number := by
      intro number shape inside
      rcases shape with all | ⟨whole, fraction, same, plain, all⟩
      · exact absurd (all _ inside) (by decide)
      · rw [same, List.mem_append, List.mem_cons] at inside
        rcases inside with first | dot | last
        · exact absurd (List.all_eq_true.mp plain _ first) (by decide)
        · exact absurd dot (by decide)
        · exact absurd (all _ last) (by decide)
    rcases shape with plain | ⟨front, sign, exponent, same, plain, _, signed, all⟩
    · exact parts plain letters
    · rw [same, List.mem_append, List.mem_cons] at letters
      rcases letters with first | here | last
      · exact parts plain first
      · rw [← here] at signed
        exact absurd signed (by decide)
      · exact absurd (all _ last) (by decide)
  | parameter =>
    obtain ⟨digits, same, _, all⟩ := parameter_parts reads
    refine Or.inr (fun member => ?_)
    rw [same] at member
    exact absurd (all _ member) (by decide)
  | special =>
    refine Or.inr (fun member => ?_)
    cases text with
    | nil => cases member
    | cons c rest =>
      obtain ⟨_, length⟩ := (reads_special_iff rest behind).mp reads
      exact special_unclosed length member
  | operator =>
    refine Or.inr (tail isOperator (by decide) ?_)
    cases text with
    | nil => exact absurd rfl nonempty
    | cons c rest =>
      obtain ⟨_, whole⟩ := (reads_operator_iff rest behind).mp reads
      intro d member
      rw [← whole] at member
      exact List.mem_takeWhile_imp ((operatorOf_opens _).mem member)

end Closing

theorem head?_of_append {fact : Char → Prop} (all : ∀ c ∈ (text ++ other).head?, fact c) :
    ∀ c ∈ text.head?, fact c := by
  cases text with
  | nil => simp
  | cons c text => simpa using all

/-- What bounds a lexeme in parentheses bounds it without them. -/
theorem Bounded.of_enclosed {lexeme : Lexeme} (bounded : Bounded lexeme (text ++ ')' :: other)) :
    Bounded lexeme text := by
  obtain ⟨kind, own⟩ := lexeme
  cases kind with
  | blank => exact head?_of_append bounded
  | lineComment => exact head?_of_append bounded
  | blockComment => trivial
  | word =>
    refine ⟨head?_of_append bounded.1, ?_⟩
    intro c same
    have kind := wordKind_eq_word.mp (bounded.2 c same)
    rw [wordKind_eq_word]
    rcases text with _ | ⟨first, _ | ⟨second, text⟩⟩
    · simp
    · simpa using kind
    · simpa using kind
  | quotedName =>
    have head : ∀ c ∈ (text ++ ')' :: other).head?, c ≠ '"' := by
      intro c first same
      rw [same] at first
      exact bounded first
    exact fun first => head?_of_append head '"' first rfl
  | string style =>
    show continued style text = none
    rcases found : continued style text with _ | inside
    · rfl
    · obtain ⟨front, whole⟩ := (continued_leaves found).1
      have more := @continued_append text [] style inside (by simpa using found)
        (')' :: other)
      have same : continued style (text ++ ')' :: other) = none := bounded
      rw [same] at more
      cases more
  | dollarString => trivial
  | number =>
    obtain ⟨letters, fraction, dots⟩ := bounded
    refine ⟨head?_of_append letters, ?_, ?_⟩
    · intro plain
      have whole := fraction plain
      rcases text with _ | ⟨first, _ | ⟨second, text⟩⟩
      · rfl
      · simpa [startsFraction] using whole
      · simpa [startsFraction] using whole
    · intro last first
      apply dots last
      rw [List.head?_append, first]
      rfl
  | parameter => exact head?_of_append bounded
  | special =>
    exact ⟨fun same => head?_of_append (bounded.1 same),
      fun same => head?_of_append (bounded.2 same)⟩
  | operator =>
    have run : (text ++ ')' :: other).takeWhile isOperator = text.takeWhile isOperator := by
      rw [List.takeWhile_append]
      split
      · rename_i same
        have inside : text.takeWhile isOperator = text :=
          (List.takeWhile_prefix isOperator).eq_of_length same
        rw [List.takeWhile_cons_of_neg (by decide), List.append_nil, inside]
      · rfl
    have whole : operatorOf (own ++ (text ++ ')' :: other).takeWhile isOperator) = own :=
      bounded
    show operatorOf (own ++ text.takeWhile isOperator) = own
    rwa [run] at whole

/-- The marks that close a lexeme, and the ends of lines. -/
def Unmarked (text : List Char) : Prop :=
  ∀ c ∈ text, c ∉ ['\'', '"', '$', '/', '\n', '\r']

section Straddling

variable {c : Char} {tail more : List Char} {lexeme : Lexeme}

/-- The first lexeme of a text in parentheses lies in the text, or takes the parenthesis in. -/
theorem enclosed_parts
    (whole : c :: text ++ ')' :: tail = lexeme.text ++ behind) :
    (∃ later, c :: text = lexeme.text ++ later ∧ behind = later ++ ')' :: tail) ∨
      ∃ more, lexeme.text = c :: (text ++ ')' :: more) ∧ tail = more ++ behind := by
  rcases List.append_eq_append_iff.mp whole with ⟨more, own, tails⟩ | ⟨later, inside, rests⟩
  · cases more with
    | nil =>
      refine Or.inl ⟨[], ?_, tails.symm⟩
      rw [own, List.append_nil, List.append_nil]
    | cons d more =>
      obtain ⟨same, behinds⟩ := List.cons.inj tails
      subst same
      exact Or.inr ⟨more, own, behinds⟩
  · exact Or.inl ⟨later, inside, rests⟩

theorem comment_of_straddle (unmarked : Unmarked tail) (reads : Reads lexeme behind)
    (own : lexeme.text = c :: (text ++ ')' :: more)) (tails : tail = more ++ behind) :
    lexeme.kind = .lineComment := by
  by_contra other
  rcases reads.closes other with ⟨mark, among, last⟩ | free
  · rw [own, ← List.cons_append, List.getLast?_append_of_ne_nil _ (List.cons_ne_nil _ _)] at last
    rcases List.mem_cons.mp (List.mem_of_getLast? last) with same | member
    · rw [same] at among
      exact absurd among (by decide)
    · apply unmarked mark
      · rw [tails]
        exact List.mem_append_left _ member
      · exact List.mem_append_left ['\n', '\r'] among
  · rw [own, List.tail_cons] at free
    exact free (by simp)

/-- The comment that takes the parenthesis in is the whole text, and takes in all behind it. -/
theorem comment_alone (unmarked : Unmarked tail) (reads : Reads lexeme behind)
    (comment : lexeme.kind = .lineComment) (own : lexeme.text = c :: (text ++ ')' :: more))
    (tails : tail = more ++ behind) :
    Reads ⟨.lineComment, c :: text⟩ [] ∧ behind = [] := by
  obtain ⟨kind, letters⟩ := lexeme
  subst comment own
  obtain ⟨inside, newline⟩ := dropWhile_append_eq_iff.mp (Option.some.inj reads.2)
  refine ⟨⟨?_, ?_⟩, ?_⟩
  · obtain ⟨operator, dash, second⟩ := kindOf_iff.mp reads.1
    rw [List.append_nil]
    refine kindOf_iff.mpr ⟨operator, dash, ?_⟩
    cases text with
    | nil => cases second
    | cons d text => exact second
  · rw [List.append_nil]
    refine congrArg some (List.dropWhile_eq_nil_iff.mpr ?_)
    intro d member
    apply inside d
    rw [← List.cons_append]
    exact List.mem_append_left _ member
  · cases behind with
    | nil => rfl
    | cons d behind =>
      have ends : isNewline d = true := by simpa using newline d rfl
      refine absurd ?_ (unmarked d (by simp [tails]))
      rw [isNewline, Bool.or_eq_true, beq_iff_eq, beq_iff_eq] at ends
      rcases ends with same | same
      · rw [same]
        decide
      · rw [same]
        decide

theorem eq_nil_of_texts {lexemes : List Lexeme} (all : AllRead lexemes)
    (empty : texts lexemes = []) : lexemes = [] := by
  cases lexemes with
  | nil => rfl
  | cons first rest => exact absurd (List.append_eq_nil_iff.mp empty).1 all.1.ne_nil

end Straddling

instance (text : List Char) : Decidable (Unmarked text) :=
  inferInstanceAs (Decidable (∀ c ∈ text, _))

/-- A text in parentheses has the lexemes of the text and of what closes it. A comment takes
all of that in. -/
theorem lex_enclosed {tail : List Char} {lexemes : List Lexeme} (unmarked : Unmarked tail)
    (read : lex (text ++ ')' :: tail) = some lexemes) :
    ∃ inner, lex text = some inner ∧ ∀ lexeme ∈ lexemes, lexeme.kind = .word →
      lexeme ∈ inner ∨ ∃ outer, lex (')' :: tail) = some outer ∧ lexeme ∈ outer := by
  induction size : text.length using Nat.strongRecOn generalizing text lexemes with
  | ind length ih =>
    cases text with
    | nil => exact ⟨[], lex_nil, fun lexeme member _ => Or.inr ⟨lexemes, read, member⟩⟩
    | cons c text =>
      obtain ⟨whole, all⟩ := lex_eq_some.mp read
      cases lexemes with
      | nil => cases whole
      | cons first rest =>
        obtain ⟨reads, later⟩ := all
        rw [texts_cons] at whole
        rcases enclosed_parts whole with ⟨behind, inside, rests⟩ | ⟨more, own, tails⟩
        · rw [rests] at reads
          have again := (reads_iff reads behind).mpr reads.bounded.of_enclosed
          have shorter : behind.length < length := by
            rw [← size, inside, List.length_append]
            exact Nat.lt_add_of_pos_left (List.length_pos_iff.mpr reads.ne_nil)
          obtain ⟨inner, readInner, words⟩ :=
            ih _ shorter (lex_eq_some.mpr ⟨rests.symm, later⟩) rfl
          obtain ⟨inners, allInner⟩ := lex_eq_some.mp readInner
          rw [inners] at again
          refine ⟨first :: inner, lex_eq_some.mpr ⟨?_, again, allInner⟩, ?_⟩
          · rw [texts_cons, ← inners, inside]
          · intro lexeme member word
            rcases List.mem_cons.mp member with here | among
            · exact Or.inl (here ▸ List.mem_cons_self)
            · exact (words lexeme among word).imp_left (List.mem_cons_of_mem first)
        · have comment := comment_of_straddle unmarked reads own tails
          obtain ⟨alone, ends⟩ := comment_alone unmarked reads comment own tails
          refine ⟨[⟨.lineComment, c :: text⟩], lex_eq_some.mpr ⟨?_, alone, trivial⟩, ?_⟩
          · simp [texts]
          · intro lexeme member word
            rw [eq_nil_of_texts later ends, List.mem_singleton] at member
            rw [member, comment] at word
            cases word

end SqlLexer
