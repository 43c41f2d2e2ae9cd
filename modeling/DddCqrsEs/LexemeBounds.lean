import DddCqrsEs.SqlLexemes

/- What a lexeme needs of the text behind it to be read as it stands. Nothing here names an
application. -/
namespace SqlLexer

open Cuts

/-- The letters of a number end: no letter follows, a text of digits is not followed by its
fraction, and a dot at the end not by another. -/
def Ends (number behind : List Char) : Prop :=
  (∀ c ∈ behind.head?, isLetter c = false) ∧
    (number.all isPlain = true → startsFraction behind = false) ∧
    (number.getLast? = some '.' → behind.head? ≠ some '.')

/-- What the text behind a lexeme must not start with. -/
def Bounded (lexeme : Lexeme) (behind : List Char) : Prop :=
  match lexeme.kind with
  | .blank => ∀ c ∈ behind.head?, isSpace c = false
  | .lineComment => ∀ c ∈ behind.head?, isNewline c = true
  | .blockComment => True
  | .word => (∀ c ∈ behind.head?, inWord c = false) ∧
      ∀ c, lexeme.text = [c] → wordKind c behind = .word
  | .quotedName => behind.head? ≠ some '"'
  | .string style => continued style behind = none
  | .dollarString => True
  | .number => Ends lexeme.text behind
  | .parameter => ∀ c ∈ behind.head?, isLetter c = false
  | .special =>
    (lexeme.text = ['.'] → ∀ c ∈ behind.head?, c ≠ '.' ∧ c.isDigit = false) ∧
      (lexeme.text = [':'] → ∀ c ∈ behind.head?, c ≠ ':' ∧ c ≠ '=')
  | .operator => operatorOf (lexeme.text ++ behind.takeWhile isOperator) = lexeme.text

variable {kind : Char → Bool} {front back : List Char} {c : Char}

theorem dropWhile_append_eq_iff :
    (front ++ back).dropWhile kind = back ↔
      (∀ c ∈ front, kind c = true) ∧ ∀ c ∈ back.head?, kind c = false := by
  constructor
  · intro dropped
    have taken : (front ++ back).takeWhile kind = front := by
      have whole := @List.takeWhile_append_dropWhile _ kind (front ++ back)
      rw [dropped, List.append_cancel_right_eq] at whole
      exact whole
    refine ⟨?_, ?_⟩
    · rw [← taken]
      exact fun c member => List.mem_takeWhile_imp member
    · intro c first
      have rejected := List.head?_dropWhile_not kind (front ++ back)
      rw [dropped] at rejected
      rw [Option.mem_def] at first
      rw [first] at rejected
      simpa using rejected
  · rintro ⟨inside, behind⟩
    rw [List.dropWhile_append_of_pos inside]
    cases back with
    | nil => rfl
    | cons c back =>
      rw [List.dropWhile_cons_of_neg]
      rw [behind c rfl]
      decide

theorem takeWhile_append_eq (inside : ∀ c ∈ front, kind c = true)
    (behind : ∀ c ∈ back.head?, kind c = false) : (front ++ back).takeWhile kind = front := by
  have whole := @List.takeWhile_append_dropWhile _ kind (front ++ back)
  rw [(dropWhile_append_eq_iff).mpr ⟨inside, behind⟩, List.append_cancel_right_eq] at whole
  exact whole

theorem classOf_digit : classOf c = .digit ↔ c.isDigit = true := by
  rw [classOf]
  constructor
  · intro same
    split_ifs at same
    assumption
  · intro digit
    rw [if_neg, if_pos digit]
    intro space
    simp only [List.mem_cons, List.not_mem_nil, or_false] at space
    rcases space with same | same | same | same | same | same
    all_goals
      rw [same] at digit
      exact absurd digit (by decide)

/-- The marks that are classes of their own. -/
theorem classOf_single {mark : Char} {kind : CharClass}
    (single : (mark, kind) ∈ [('\'', CharClass.quote), ('"', CharClass.doubleQuote),
      ('$', CharClass.dollar), ('.', CharClass.dot), (':', CharClass.colon)]) :
    classOf c = kind ↔ c = mark := by
  simp only [List.mem_cons, Prod.mk.injEq, List.not_mem_nil, or_false] at single
  constructor
  · intro same
    rw [← same, classOf] at single
    split_ifs at single
    all_goals simp_all
  · intro same
    rw [same]
    rcases single with ⟨rfl, rfl⟩ | ⟨rfl, rfl⟩ | ⟨rfl, rfl⟩ | ⟨rfl, rfl⟩ | ⟨rfl, rfl⟩
    all_goals decide

theorem classOf_quote : classOf c = .quote ↔ c = '\'' := classOf_single (by decide)

theorem classOf_doubleQuote : classOf c = .doubleQuote ↔ c = '"' :=
  classOf_single (by decide)

theorem classOf_dollar : classOf c = .dollar ↔ c = '$' := classOf_single (by decide)

theorem classOf_dot : classOf c = .dot ↔ c = '.' := classOf_single (by decide)

theorem classOf_colon : classOf c = .colon ↔ c = ':' := classOf_single (by decide)

section Kinds

variable {text behind : List Char}

theorem reads_blank (reads : Reads ⟨.blank, text⟩ behind) (other : List Char) :
    Reads ⟨.blank, text⟩ other ↔ Bounded ⟨.blank, text⟩ other := by
  obtain ⟨starts, read⟩ := reads
  have inside := ((dropWhile_append_eq_iff).mp (Option.some.inj read)).1
  cases text with
  | nil => exact absurd rfl (Reads.ne_nil ⟨starts, read⟩)
  | cons c text =>
    have space := kindOf_iff.mp starts
    constructor
    · intro again
      exact ((dropWhile_append_eq_iff).mp (Option.some.inj again.2)).2
    · intro bounded
      refine ⟨kindOf_iff.mpr space, ?_⟩
      exact congrArg some ((dropWhile_append_eq_iff).mpr ⟨inside, bounded⟩)

theorem reads_lineComment (reads : Reads ⟨.lineComment, text⟩ behind) (other : List Char) :
    Reads ⟨.lineComment, text⟩ other ↔ Bounded ⟨.lineComment, text⟩ other := by
  obtain ⟨starts, read⟩ := reads
  obtain ⟨inside, newline⟩ := (dropWhile_append_eq_iff).mp (Option.some.inj read)
  cases text with
  | nil => exact absurd rfl (Reads.ne_nil ⟨starts, read⟩)
  | cons c text =>
    obtain ⟨operator, dash, second⟩ := kindOf_iff.mp starts
    have dashes : text.head? = some '-' := by
      cases text with
      | nil => exact absurd (newline '-' second) (by decide)
      | cons next text => exact second
    have bound : (∀ c ∈ other.head?, (!isNewline c) = false) ↔
        Bounded ⟨.lineComment, c :: text⟩ other := by
      simp [Bounded]
    rw [← bound]
    constructor
    · intro again
      exact ((dropWhile_append_eq_iff).mp (Option.some.inj again.2)).2
    · intro bounded
      refine ⟨kindOf_iff.mpr ⟨operator, dash, ?_⟩,
        congrArg some ((dropWhile_append_eq_iff).mpr ⟨inside, bounded⟩)⟩
      show (text ++ other).head? = some '-'
      rw [List.head?_append, dashes]
      rfl

variable {rest : List Char}

/-- A comment takes both characters of its end. -/
theorem blockRest_length {depth : Nat} (read : blockRest depth text = some rest) :
    rest.length + 2 ≤ text.length := by
  induction depth, text using blockRest.induct with
  | case1 depth text ih =>
    rw [blockRest] at read
    have shorter := ih read
    rw [List.length_cons, List.length_cons]
    omega
  | case2 text =>
    rw [blockRest] at read
    injection read with same
    subst same
    exact Nat.le_refl _
  | case3 depth text ih =>
    rw [blockRest] at read
    have shorter := ih read
    rw [List.length_cons, List.length_cons]
    omega
  | case4 depth c text opens closes more ih =>
    rw [blockRest] at read
    · have shorter := ih read
      rw [List.length_cons]
      omega
    · exact opens
    · exact closes
    · exact more
  | case5 depth =>
    rw [blockRest] at read
    cases read

/-- Nothing behind a comment decides where it ends. -/
theorem blockRest_append {depth : Nat} (read : blockRest depth (text ++ behind) = some behind)
    (other : List Char) : blockRest depth (text ++ other) = some other := by
  induction depth, text using blockRest.induct with
  | case1 depth text ih => exact ih read
  | case2 text =>
    have same : text ++ behind = behind := Option.some.inj read
    rw [List.append_left_eq_self] at same
    rw [same]
    rfl
  | case3 depth text ih => exact ih read
  | case4 depth c text opens closes more ih =>
    cases text with
    | nil =>
      have short := blockRest_length read
      rw [List.length_append, List.length_singleton] at short
      omega
    | cons next text =>
      have head : ∀ {later rest : List Char} {d : Char},
          next :: (text ++ later) = d :: rest → next :: text = d :: text :=
        fun same => by rw [(List.cons.inj same).1]
      have passes : ∀ later : List Char, blockRest depth (c :: (next :: text ++ later)) =
          blockRest depth (next :: text ++ later) := by
        intro later
        rw [blockRest]
        · exact fun rest slash star => opens text slash (head star)
        · exact fun rest zero star slash => closes text zero star (head slash)
        · exact fun n rest same star slash => more n text same star (head slash)
      exact (passes other).trans (ih ((passes behind).symm.trans read))
  | case5 depth =>
    have short := blockRest_length read
    rw [List.nil_append] at short
    omega

theorem reads_blockComment (reads : Reads ⟨.blockComment, text⟩ behind) (other : List Char) :
    Reads ⟨.blockComment, text⟩ other ↔ Bounded ⟨.blockComment, text⟩ other := by
  obtain ⟨starts, read⟩ := reads
  have leaves := blockRest_leaves read
  match text with
  | [] => exact absurd rfl (Reads.ne_nil ⟨starts, read⟩)
  | [c] =>
    have shorter : behind.length < (behind.drop 1).length := leaves.2
    rw [List.length_drop] at shorter
    omega
  | c :: d :: body =>
    obtain ⟨operator, slash, star⟩ := kindOf_iff.mp starts
    exact iff_of_true ⟨kindOf_iff.mpr ⟨operator, slash, star⟩,
      blockRest_append read other⟩ trivial

theorem wordKind_of_ne {d : Char} (quote : d ≠ '\'') (ampersand : d ≠ '&') (rest : List Char) :
    wordKind c (d :: rest) = .word := by
  rw [wordKind.eq_def]
  split
  · rename_i same
    exact absurd (List.cons.inj same).1 quote
  · rename_i same
    exact absurd (List.cons.inj same).1 ampersand
  · rename_i same
    exact absurd (List.cons.inj same).1 ampersand
  · rfl

/-- A letter starts a word unless a quote follows it that it can stand before. -/
theorem wordKind_eq_word : wordKind c rest = .word ↔
    ¬ (rest.head? = some '\'' ∧ c ∈ ['e', 'E', 'b', 'B', 'x', 'X', 'n', 'N']) ∧
      ¬ (rest.head? = some '&' ∧
        (rest.tail.head? = some '\'' ∨ rest.tail.head? = some '"') ∧ c ∈ ['u', 'U']) := by
  rw [wordKind.eq_def]
  split
  · simp only [List.head?_cons, true_and, List.mem_cons, List.not_mem_nil, or_false]
    split_ifs
    all_goals grind
  · simp only [List.head?_cons, List.tail_cons, true_and, true_or]
    split_ifs
    all_goals grind
  · simp only [List.head?_cons, List.tail_cons, true_and, or_true]
    split_ifs
    all_goals grind
  · rename_i quote single double
    refine iff_of_true rfl ⟨?_, ?_⟩
    · rintro ⟨first, _⟩
      obtain ⟨later, whole⟩ := List.head?_eq_some_iff.mp first
      exact quote later whole
    · rintro ⟨first, second, _⟩
      obtain ⟨later, whole⟩ := List.head?_eq_some_iff.mp first
      rw [whole, List.tail_cons] at second
      rcases second with mark | mark
      · obtain ⟨more, behind⟩ := List.head?_eq_some_iff.mp mark
        exact single more (by rw [whole, behind])
      · obtain ⟨more, behind⟩ := List.head?_eq_some_iff.mp mark
        exact double more (by rw [whole, behind])

theorem reads_word (reads : Reads ⟨.word, text⟩ behind) (other : List Char) :
    Reads ⟨.word, text⟩ other ↔ Bounded ⟨.word, text⟩ other := by
  have nonempty := reads.ne_nil
  obtain ⟨starts, read⟩ := reads
  have inside := ((dropWhile_append_eq_iff).mp (Option.some.inj read)).1
  cases text with
  | nil => exact absurd rfl nonempty
  | cons c text =>
    obtain ⟨letter, kind⟩ := kindOf_iff.mp starts
    have kinds : wordKind c (text ++ other) = .word ↔
        ∀ d, c :: text = [d] → wordKind d other = .word := by
      cases text with
      | nil => simp
      | cons d text =>
        have within : inWord d = true := inside d (by simp)
        have plain : wordKind c (d :: (text ++ other)) = .word := by
          apply wordKind_of_ne
          · intro same
            rw [same] at within
            exact absurd within (by decide)
          · intro same
            rw [same] at within
            exact absurd within (by decide)
        simp [plain]
    have dropped : restOf .word (c :: text ++ other) = some other ↔
        ∀ d ∈ other.head?, inWord d = false := by
      show some ((c :: text ++ other).dropWhile inWord) = some other ↔ _
      rw [Option.some_inj, dropWhile_append_eq_iff]
      exact and_iff_right inside
    show (kindOf (c :: (text ++ other)) = some .word ∧ restOf .word (c :: text ++ other) =
      some other) ↔ _
    rw [kindOf_iff, Starts, kinds, dropped]
    simp [letter, Bounded, and_comm]

/-- A word found before the known end is found before any other. -/
theorem cutWord_behind {word front : List Char}
    (found : cutWord word (front ++ (word ++ behind)) = some (front, behind)) (other : List Char) :
    cutWord word (front ++ (word ++ other)) = some (front, other) := by
  have starts : ∀ later : List Char, word.isPrefixOf (word ++ later) = true := by
    intro later
    rw [List.isPrefixOf_iff_prefix]
    exact List.prefix_append word later
  induction front with
  | nil =>
    rw [List.nil_append]
    cases whole : word ++ other with
    | nil =>
      obtain ⟨words, others⟩ := List.append_eq_nil_iff.mp whole
      rw [words, others, cutWord, if_pos rfl]
    | cons c rest =>
      rw [cutWord, ← whole, if_pos (starts other), List.drop_left]
  | cons c front ih =>
    have apart : ∀ later : List Char, word.isPrefixOf (c :: (front ++ (word ++ later))) = true ↔
        word <+: c :: (front ++ word) := by
      intro later
      rw [List.isPrefixOf_iff_prefix]
      have split : c :: (front ++ (word ++ later)) = (c :: (front ++ word)) ++ later := by simp
      rw [split]
      constructor
      · intro opens
        apply List.prefix_of_prefix_length_le opens (List.prefix_append _ _)
        rw [List.length_cons, List.length_append]
        omega
      · exact fun opens => opens.trans (List.prefix_append _ _)
    rw [List.cons_append, cutWord] at found ⊢
    split_ifs at found with opens
    · have impossible := congrArg Prod.fst (Option.some.inj found)
      cases impossible
    · rw [if_neg ((apart other).not.mpr ((apart behind).not.mp opens))]
      rw [Option.map_eq_some_iff] at found
      obtain ⟨cut, found, same⟩ := found
      rw [Prod.mk.injEq] at same
      have parts : cut = (front, behind) := Prod.ext (List.cons.inj same.1).2 same.2
      rw [ih (parts ▸ found)]
      rfl

theorem reads_dollarString (reads : Reads ⟨.dollarString, text⟩ behind) (other : List Char) :
    Reads ⟨.dollarString, text⟩ other ↔ Bounded ⟨.dollarString, text⟩ other := by
  have nonempty := reads.ne_nil
  obtain ⟨starts, read⟩ := reads
  cases text with
  | nil => exact absurd rfl nonempty
  | cons c text =>
    obtain ⟨dollar, plain⟩ := kindOf_iff.mp starts
    have within : dollarRest (text ++ behind) = some behind := read
    rw [dollarRest] at within
    let tag := (text ++ behind).takeWhile isLetter
    have tags : tag ++ (text ++ behind).dropWhile isLetter = text ++ behind :=
      List.takeWhile_append_dropWhile
    split at within
    · rename_i body whole
      rw [Option.map_eq_some_iff] at within
      obtain ⟨cut, found, same⟩ := within
      have bodies := eq_of_cutWord found
      rw [same, List.append_assoc] at bodies
      rw [bodies] at found
      have parts : cut = (cut.1, behind) := by rw [← same]
      rw [parts] at found
      have split : text = tag ++ '$' :: (cut.1 ++ ('$' :: (tag ++ ['$']))) := by
        rw [whole, bodies, ← List.cons_append, ← List.append_assoc, ← List.append_assoc,
          List.append_cancel_right_eq] at tags
        rw [← tags]
        simp only [List.append_assoc, List.cons_append, tag]
      have letters : ∀ d ∈ tag, isLetter d = true := fun d member => List.mem_takeWhile_imp member
      have mark : isLetter '$' = false := by decide
      have again : dollarRest (text ++ other) = some other := by
        have later : text ++ other =
            tag ++ '$' :: (cut.1 ++ (('$' :: (tag ++ ['$'])) ++ other)) := by
          rw [split]
          simp only [List.append_assoc, List.cons_append]
        have taken : (text ++ other).takeWhile isLetter = tag := by
          rw [later, List.takeWhile_append_of_pos letters, List.takeWhile_cons_of_neg]
          · rw [List.append_nil]
          · rw [mark]
            decide
        have dropped : (text ++ other).dropWhile isLetter =
            '$' :: (cut.1 ++ (('$' :: (tag ++ ['$'])) ++ other)) := by
          rw [later, List.dropWhile_append_of_pos letters, List.dropWhile_cons_of_neg]
          rw [mark]
          decide
        rw [dollarRest, taken, dropped]
        show (cutWord ('$' :: (tag ++ ['$'])) _).map _ = _
        rw [cutWord_behind found other]
        rfl
      have head : ∀ later : List Char, (text ++ later).head? = text.head? := by
        intro later
        rw [List.head?_append_of_ne_nil]
        rw [split]
        exact List.append_ne_nil_of_right_ne_nil _ (List.cons_ne_nil _ _)
      refine iff_of_true ⟨kindOf_iff.mpr ⟨dollar, ?_⟩, again⟩ trivial
      show (text ++ other).head?.any Char.isDigit = false
      rw [head other, ← head behind]
      exact plain
    · cases within

theorem isLetter_iff : isLetter c = true ↔ classOf c = .letter ∨ classOf c = .digit := by
  simp [isLetter]

theorem isLetter_of_isDigit (digit : c.isDigit = true) : isLetter c = true :=
  (isLetter_iff).mpr (Or.inr ((classOf_digit).mpr digit))

/-- The digits of a parameter are all that stand there, and no letter follows. -/
theorem restOf_parameter (text later : List Char) :
    restOf .parameter (c :: (text ++ later)) = some later ↔
      (∀ d ∈ text, d.isDigit = true) ∧ ∀ d ∈ later.head?, isLetter d = false := by
  rw [restOf]
  show (if ((text ++ later).dropWhile Char.isDigit).head?.any _ = true then none
    else some ((text ++ later).dropWhile Char.isDigit)) = some later ↔ _
  constructor
  · intro found
    split at found
    · cases found
    · rename_i plain
      rw [Option.some_inj] at found
      obtain ⟨digits, ends⟩ := (dropWhile_append_eq_iff).mp found
      refine ⟨digits, ?_⟩
      intro d first
      rw [found, first] at plain
      have noDigit := ends d first
      rw [Bool.eq_false_iff]
      intro letter
      rcases (isLetter_iff).mp letter with letters | number
      · exact plain (by simp [letters])
      · rw [(classOf_digit).mp number] at noDigit
        cases noDigit
  · rintro ⟨digits, ends⟩
    have dropped : (text ++ later).dropWhile Char.isDigit = later := by
      rw [dropWhile_append_eq_iff]
      refine ⟨digits, ?_⟩
      intro d first
      rw [Bool.eq_false_iff]
      intro number
      have letter := isLetter_of_isDigit number
      rw [ends d first] at letter
      cases letter
    rw [dropped, if_neg]
    rw [Option.any_eq_true]
    rintro ⟨d, first, letter⟩
    have letters := (isLetter_iff).mpr (Or.inl (beq_iff_eq.mp letter))
    rw [ends d first] at letters
    cases letters

theorem parameter_parts (reads : Reads ⟨.parameter, text⟩ behind) :
    ∃ digits, text = '$' :: digits ∧ digits ≠ [] ∧ ∀ d ∈ digits, d.isDigit = true := by
  have nonempty := reads.ne_nil
  obtain ⟨starts, read⟩ := reads
  cases text with
  | nil => exact absurd rfl nonempty
  | cons c text =>
    obtain ⟨dollar, digit⟩ := kindOf_iff.mp starts
    obtain ⟨digits, ends⟩ := (restOf_parameter text behind).mp read
    refine ⟨text, by rw [(classOf_dollar).mp dollar], ?_, digits⟩
    intro empty
    rw [empty] at digit
    have head : behind.head?.any Char.isDigit = true := digit
    rw [Option.any_eq_true] at head
    obtain ⟨d, first, number⟩ := head
    have letter := isLetter_of_isDigit number
    rw [ends d first] at letter
    cases letter

theorem reads_parameter (reads : Reads ⟨.parameter, text⟩ behind) (other : List Char) :
    Reads ⟨.parameter, text⟩ other ↔ Bounded ⟨.parameter, text⟩ other := by
  obtain ⟨digits, rfl, nonempty, all⟩ := parameter_parts reads
  have head : ∀ later : List Char, (digits ++ later).head? = digits.head? :=
    fun later => List.head?_append_of_ne_nil _ nonempty
  have opens : kindOf ('$' :: (digits ++ other)) = some .parameter := by
    obtain ⟨dollar, digit⟩ := kindOf_iff.mp reads.1
    have first : (digits ++ behind).head?.any Char.isDigit = true := digit
    rw [kindOf_iff, Starts, head other, ← head behind]
    exact ⟨dollar, first⟩
  show (kindOf ('$' :: (digits ++ other)) = some .parameter ∧
    restOf .parameter ('$' :: (digits ++ other)) = some other) ↔ _
  rw [restOf_parameter digits other]
  simp only [opens, true_and, and_iff_right all, Bounded]

theorem specialLength_single (dot : c ≠ '.') (colon : c ≠ ':') (rest : List Char) :
    specialLength (c :: rest) = 1 := by
  rw [specialLength.eq_def]
  split
  · rename_i same
    exact absurd (List.cons.inj same).1 dot
  · rename_i same
    exact absurd (List.cons.inj same).1 colon
  · rename_i same
    exact absurd (List.cons.inj same).1 colon
  · rfl

theorem specialLength_dot (rest : List Char) :
    specialLength ('.' :: rest) = if rest.head? = some '.' then 2 else 1 := by
  cases rest with
  | nil => rfl
  | cons d rest =>
    by_cases dot : d = '.'
    · rw [dot]
      rfl
    · simp [specialLength, dot]

theorem specialLength_colon (rest : List Char) :
    specialLength (':' :: rest) =
      if rest.head? = some ':' ∨ rest.head? = some '=' then 2 else 1 := by
  cases rest with
  | nil => rfl
  | cons d rest =>
    by_cases colon : d = ':'
    · rw [colon]
      rfl
    · by_cases equals : d = '='
      · rw [equals]
        rfl
      · simp [specialLength, colon, equals]

theorem specialLength_le {text : List Char} (nonempty : text ≠ []) :
    specialLength text ≤ text.length := by
  have positive := List.length_pos_iff.mpr nonempty
  rw [specialLength.eq_def]
  split
  · simp
  · simp
  · simp
  · exact positive

theorem reads_special_iff (rest behind : List Char) :
    Reads ⟨.special, c :: rest⟩ behind ↔
      (c = '.' ∧ (rest ++ behind).head?.any Char.isDigit = false ∨ c = ':' ∨
        classOf c = .punctuation) ∧
      specialLength (c :: (rest ++ behind)) = rest.length + 1 := by
  show (kindOf (c :: (rest ++ behind)) = some .special ∧
    some ((c :: (rest ++ behind)).drop (specialLength (c :: (rest ++ behind)))) =
      some behind) ↔ _
  rw [kindOf_iff, Starts, classOf_dot, classOf_colon, Option.some_inj]
  apply and_congr_right
  intro _
  have shorter : specialLength (c :: (rest ++ behind)) ≤ _ :=
    specialLength_le (List.cons_ne_nil c (rest ++ behind))
  rw [List.length_cons, List.length_append] at shorter
  constructor
  · intro left
    have lengths := congrArg List.length left
    rw [List.length_drop, List.length_cons, List.length_append] at lengths
    omega
  · intro length
    rw [← List.cons_append]
    exact List.drop_left' length.symm

theorem reads_special (reads : Reads ⟨.special, text⟩ behind) (other : List Char) :
    Reads ⟨.special, text⟩ other ↔ Bounded ⟨.special, text⟩ other := by
  have nonempty := reads.ne_nil
  cases text with
  | nil => exact absurd rfl nonempty
  | cons c rest =>
    rw [reads_special_iff] at reads ⊢
    obtain ⟨opens, length⟩ := reads
    rcases opens with ⟨dot, _⟩ | colon | punctuation
    · subst dot
      rw [specialLength_dot] at length ⊢
      cases rest with
      | nil =>
        have mark : classOf '.' ≠ .punctuation := by decide
        simp only [Bounded, List.nil_append]
        cases other with
        | nil => simp
        | cons d other =>
          by_cases double : d = '.'
          · simp [double]
          · simp [double, mark]
      | cons d rest =>
        split_ifs at length with double
        · have one : rest = [] := List.eq_nil_of_length_eq_zero (by
            rw [List.length_cons] at length
            omega)
          rw [List.cons_append, List.head?_cons, Option.some_inj] at double
          subst one double
          simp [Bounded]
        · rw [List.length_cons] at length
          omega
    · subst colon
      rw [specialLength_colon] at length ⊢
      cases rest with
      | nil =>
        simp only [Bounded, List.nil_append]
        cases other with
        | nil => simp
        | cons d other =>
          by_cases double : d = ':' ∨ d = '='
          · rcases double with same | same
            · simp [same]
            · simp [same]
          · rw [not_or] at double
            simp [double]
      | cons d rest =>
        split_ifs at length with double
        · have one : rest = [] := List.eq_nil_of_length_eq_zero (by
            rw [List.length_cons] at length
            omega)
          subst one
          rw [List.cons_append, List.head?_cons, Option.some_inj, Option.some_inj] at double
          rcases double with same | same
          · simp [Bounded, same]
          · simp [Bounded, same]
        · rw [List.length_cons] at length
          omega
    · have dot : c ≠ '.' := by
        intro same
        rw [same] at punctuation
        exact absurd punctuation (by decide)
      have colon : c ≠ ':' := by
        intro same
        rw [same] at punctuation
        exact absurd punctuation (by decide)
      rw [specialLength_single dot colon] at length ⊢
      have one : rest = [] := List.eq_nil_of_length_eq_zero (by omega)
      subst one
      simp [Bounded, punctuation, dot, colon]

theorem cutComments_opens (text : List Char) : cutComments text <+: text := by
  induction text with
  | nil => exact List.nil_prefix
  | cons c text ih =>
    rw [cutComments]
    split
    · exact List.nil_prefix
    · exact List.cons_prefix_cons.mpr ⟨rfl, ih⟩

theorem trimSigns_opens (text : List Char) : trimSigns text <+: text := by
  rw [trimSigns]
  split
  · exact List.prefix_rfl
  · cases text with
    | nil => exact List.nil_prefix
    | cons c text => exact List.cons_prefix_cons.mpr ⟨rfl, List.rdropWhile_prefix isSign text⟩

theorem operatorOf_opens (run : List Char) : operatorOf run <+: run :=
  (trimSigns_opens _).trans (cutComments_opens run)

/-- An operator does not begin as a comment does. -/
theorem not_comment_of_operatorOf {run : List Char} (nonempty : operatorOf (c :: run) ≠ []) :
    ¬ ((c = '-' ∧ run.head? = some '-') ∨ (c = '/' ∧ run.head? = some '*')) := by
  intro comment
  apply nonempty
  rw [operatorOf, cutComments, if_pos comment]
  rfl

theorem head?_takeWhile {kind : Char → Bool} {d : Char} (kept : kind d = true)
    (first : rest.head? = some d) : (rest.takeWhile kind).head? = some d := by
  obtain ⟨later, whole⟩ := List.head?_eq_some_iff.mp first
  rw [whole, List.takeWhile_cons_of_pos kept]
  rfl

theorem reads_operator_iff (rest behind : List Char) :
    Reads ⟨.operator, c :: rest⟩ behind ↔ classOf c = .operator ∧
      operatorOf ((c :: (rest ++ behind)).takeWhile isOperator) = c :: rest := by
  show (kindOf (c :: (rest ++ behind)) = some .operator ∧
    some ((c :: (rest ++ behind)).drop
      (operatorOf ((c :: (rest ++ behind)).takeWhile isOperator)).length) = some behind) ↔ _
  rw [kindOf_iff, Starts, Option.some_inj]
  have opens : operatorOf ((c :: (rest ++ behind)).takeWhile isOperator) <+:
      c :: (rest ++ behind) := (operatorOf_opens _).trans (List.takeWhile_prefix _)
  constructor
  · rintro ⟨⟨operator, _⟩, left⟩
    refine ⟨operator, ?_⟩
    obtain ⟨later, whole⟩ := opens
    have same : later = behind := by
      rw [← left]
      have dropped := congrArg
        (List.drop (operatorOf ((c :: (rest ++ behind)).takeWhile isOperator)).length) whole
      rw [List.drop_left] at dropped
      exact dropped
    rw [same, ← List.cons_append, List.append_cancel_right_eq] at whole
    exact whole
  · rintro ⟨operator, whole⟩
    have run : (c :: (rest ++ behind)).takeWhile isOperator =
        c :: (rest ++ behind).takeWhile isOperator := by
      rw [List.takeWhile_cons_of_pos]
      simp [isOperator, operator]
    have nonempty : operatorOf (c :: (rest ++ behind).takeWhile isOperator) ≠ [] := by
      rw [← run, whole]
      exact List.cons_ne_nil _ _
    have apart := not_comment_of_operatorOf nonempty
    refine ⟨⟨operator, ?_, ?_⟩, ?_⟩
    · rintro ⟨dash, second⟩
      exact apart (Or.inl ⟨dash, head?_takeWhile (by decide) second⟩)
    · rintro ⟨slash, second⟩
      exact apart (Or.inr ⟨slash, head?_takeWhile (by decide) second⟩)
    · rw [whole]
      exact List.drop_left

theorem reads_operator (reads : Reads ⟨.operator, text⟩ behind) (other : List Char) :
    Reads ⟨.operator, text⟩ other ↔ Bounded ⟨.operator, text⟩ other := by
  have nonempty := reads.ne_nil
  cases text with
  | nil => exact absurd rfl nonempty
  | cons c rest =>
    rw [reads_operator_iff] at reads ⊢
    obtain ⟨operator, whole⟩ := reads
    have inside : ∀ d ∈ c :: rest, isOperator d = true := by
      rw [← whole]
      intro d member
      exact List.mem_takeWhile_imp ((operatorOf_opens _).subset member)
    rw [← List.cons_append, List.takeWhile_append_of_pos inside]
    exact and_iff_right operator

end Kinds

end SqlLexer
