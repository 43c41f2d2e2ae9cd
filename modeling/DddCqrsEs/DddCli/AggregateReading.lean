import DddCqrsEs.DddCli.AggregateEdits

/- What the enums and the matches of an aggregate's file list. -/
namespace DddCqrsEs.DddCli

open LineLog

def firstWord (text : Text) : Text := text.takeWhile isIdentifierChar

def afterWord (text : Text) : Text := text.dropWhile isIdentifierChar

def unindent (line : Text) : Text := line.dropWhile isWhitespace

/-- The variant that a line of an enum declares. -/
def readVariant (line : Text) : Option Text :=
  if firstWord (unindent line) = [] then none else some (firstWord (unindent line))

/-- The variant of a type that a line of a match starts an arm for. -/
def readArm (type line : Text) : Option Text :=
  if firstWord (unindent line) = type then
    (Cuts.strip (code "::") (afterWord (unindent line))).map firstWord
  else none

/-- An arm whose value is a text: the variant and the text. -/
def readTypeArm (line : Text) : Option (Text × Text) :=
  (readArm (code "Self") line).bind fun variant =>
    (Cuts.strip (code "Self::" ++ variant ++ code " { .. } => \"") (unindent line)).map
      fun rest => (variant, rest.takeWhile (fun c => c != '"'))

/-- The lines between two lines. -/
def bodyOf (opening closing : Text) (lines : List Text) : List Text :=
  ((lines.dropWhile (fun line => line != opening)).drop 1).takeWhile (fun line => line != closing)

def enumVariants (enum content : Text) : List Text :=
  (bodyOf (code "pub enum " ++ enum ++ code " \x7b") (code "\x7d") (lines content)).filterMap
    readVariant

def eventTypeArms (content : Text) : List (Text × Text) :=
  (bodyOf (code "        match self \x7b") (code "        \x7d") (lines content)).filterMap
    readTypeArm

def applyArms (event content : Text) : List Text :=
  (bodyOf (code "        match event \x7b") (code "        \x7d") (lines content)).filterMap
    (readArm event)

def handleArms (command content : Text) : List Text :=
  (bodyOf (code "        match command \x7b") (code "        \x7d") (lines content)).filterMap
    (readArm command)

/-- What follows a word. -/
def EndsWord (rest : Text) : Prop := ∀ c ∈ rest.head?, isIdentifierChar c = false

variable {rest word text : Text}

theorem endsWord_blank (starts : rest.head? = some ' ') : EndsWord rest := by
  intro c head
  rw [starts] at head
  cases head
  rfl

theorem firstWord_append (isWord : IsIdentifier word) (ends : EndsWord rest) :
    firstWord (word ++ rest) = word := by
  rw [firstWord, List.takeWhile_append_of_pos isWord.2]
  cases rest with
  | nil => simp
  | cons c rest =>
    rw [List.takeWhile_cons_of_neg (by simp [ends c rfl]), List.append_nil]

theorem afterWord_append (isWord : IsIdentifier word) (ends : EndsWord rest) :
    afterWord (word ++ rest) = rest := by
  rw [afterWord, List.dropWhile_append_of_pos isWord.2]
  cases rest with
  | nil => rfl
  | cons c rest => rw [List.dropWhile_cons_of_neg (by simp [ends c rfl])]

theorem unindent_blanks (blanks : Nat) (rest : Text) (isWord : IsIdentifier word) :
    unindent (List.replicate blanks ' ' ++ (word ++ rest)) = word ++ rest := by
  have white : ∀ c ∈ List.replicate blanks ' ', isWhitespace c = true := by
    intro c member
    rw [List.eq_of_mem_replicate member]
    decide
  rw [unindent, List.dropWhile_append_of_pos white]
  obtain ⟨c, word, rfl⟩ := List.exists_cons_of_ne_nil isWord.1
  have solid := isWhitespace_of_identifier (isWord.2 c List.mem_cons_self)
  rw [List.cons_append, List.dropWhile_cons_of_neg (by simp [solid])]

/-- The blanks that a line starts with. -/
def indent (line : Text) : Nat := (line.takeWhile (fun c => c == ' ')).length

theorem indent_blanks (blanks : Nat) (rest : Text) (isWord : IsIdentifier word) :
    indent (List.replicate blanks ' ' ++ (word ++ rest)) = blanks := by
  obtain ⟨c, word, rfl⟩ := List.exists_cons_of_ne_nil isWord.1
  have other : (c == ' ') = false := by
    by_contra same
    rw [Bool.not_eq_false, beq_iff_eq] at same
    have letter := isWord.2 c List.mem_cons_self
    rw [same] at letter
    cases letter
  rw [indent, List.takeWhile_append_of_pos (by simp), List.cons_append,
    List.takeWhile_cons_of_neg (by simp [other]), List.append_nil, List.length_replicate]

/-- A line without blanks at its end. -/
def Flush (line : Text) : Prop := trim line = unindent line

theorem flush_of_last {line : Text} {c : Char} (last : line.getLast? = some c)
    (solid : isWhitespace c = false) : Flush line := by
  obtain ⟨front, rfl⟩ := List.getLast?_eq_some_iff.mp last
  have kept : unindent (front ++ [c]) = front.dropWhile isWhitespace ++ [c] := by
    rw [unindent, List.dropWhile_append]
    split
    · rename_i white
      rw [List.isEmpty_iff.mp white, List.dropWhile_cons_of_neg (by simp [solid])]
      rfl
    · rfl
  rw [Flush, kept, trim, Cuts.trim, ← unindent, kept,
    List.rdropWhile_concat_neg _ _ _ (by simp [solid])]

section Lines

variable {heck : Heck} {variant type eventType : Text} {fields : List (Text × Text)}

/-- An enum line: the variant, and what stands behind it. -/
theorem eventVariantLine_parts (heck : Heck) (variant : Text) (fields : List (Text × Text)) :
    ∃ rest, EndsWord rest ∧ rest.getLast? = some ',' ∧
      eventVariantLine heck variant fields =
        List.replicate 4 ' ' ++ (heck.upperCamel variant ++ rest) := by
  rw [eventVariantLine]
  by_cases empty : fields = []
  · rw [if_pos empty]
    exact ⟨code " {},", endsWord_blank rfl, by decide, List.append_assoc _ _ _⟩
  · rw [if_neg empty]
    refine ⟨code " \x7b " ++ (code ", ").intercalate (fields.map renderField) ++ code " \x7d,",
      endsWord_blank rfl, ?_, ?_⟩
    · rw [List.getLast?_append]
      rfl
    · simp only [List.append_assoc]
      rfl

theorem eventTypeArmLine_parts (heck : Heck) (eventType variant : Text) :
    eventTypeArmLine heck eventType variant = List.replicate 12 ' ' ++ (code "Self" ++ (code "::" ++
      (heck.upperCamel variant ++ (code " { .. } => \"" ++ eventType ++ code "\",")))) := by
  simp only [eventTypeArmLine, List.append_assoc]
  rfl

theorem applyArmLine_parts (type variant : Text) :
    applyArmLine type variant = List.replicate 12 ' ' ++ (type ++ (code "::" ++
      (variant ++ code " { .. } => {}"))) := by
  simp only [applyArmLine, List.append_assoc]
  rfl

theorem commandHandleArmLine_parts (heck : Heck) (type variant : Text) :
    commandHandleArmLine heck type variant = List.replicate 12 ' ' ++ (type ++ (code "::" ++
      (heck.upperCamel variant ++ (code " { .. } => Err(\"" ++ heck.upperCamel variant ++
        code " command handler is not implemented\".to_string()),")))) := by
  simp only [commandHandleArmLine, List.append_assoc]
  rfl

variable {word : Text}

theorem readVariant_blanks (blanks : Nat) {rest : Text} (isWord : IsIdentifier word)
    (ends : EndsWord rest) :
    readVariant (List.replicate blanks ' ' ++ (word ++ rest)) = some word := by
  rw [readVariant, unindent_blanks blanks rest isWord, firstWord_append isWord ends,
    if_neg isWord.1]

theorem readArm_blanks (blanks : Nat) {rest : Text} (isType : IsIdentifier type)
    (isWord : IsIdentifier word) (ends : EndsWord rest) :
    readArm type (List.replicate blanks ' ' ++ (type ++ (code "::" ++ (word ++ rest)))) =
      some word := by
  have colons : EndsWord (code "::" ++ (word ++ rest)) := by
    intro c head
    cases head
    rfl
  rw [readArm, unindent_blanks blanks _ isType, firstWord_append isType colons, if_pos rfl,
    afterWord_append isType colons, Cuts.strip_eq_some.mpr rfl, Option.map_some,
    firstWord_append isWord ends]

theorem isIdentifier_self : IsIdentifier (code "Self") := by
  constructor <;> decide

/-- The text of an event's type: dotted words. -/
def IsEventType (eventType : Text) : Prop :=
  ∀ c ∈ eventType, (c.isLower || c.isDigit || c == '_' || c == '.') = true

theorem isEventType_of_ensured {label : String}
    (ensured : ensureEventTypeName eventType label = .ok ()) : IsEventType eventType := by
  rw [ensureEventTypeName] at ensured
  split_ifs at ensured with empty valid
  exact List.all_eq_true.mp valid

theorem IsEventType.quoteless (isType : IsEventType eventType) : '"' ∉ eventType :=
  fun member => absurd (isType '"' member) (by decide)

theorem readTypeArm_blanks (blanks : Nat) (isWord : IsIdentifier word)
    (quoteless : '"' ∉ eventType) :
    readTypeArm (List.replicate blanks ' ' ++ (code "Self" ++ (code "::" ++
      (word ++ (code " { .. } => \"" ++ eventType ++ code "\","))))) = some (word, eventType) := by
  have ends : EndsWord (code " { .. } => \"" ++ eventType ++ code "\",") := endsWord_blank rfl
  have other : ∀ c ∈ eventType, (c != '"') = true := by
    intro c member
    rw [bne_iff_ne]
    rintro rfl
    exact quoteless member
  have stripped : Cuts.strip (code "Self::" ++ word ++ code " { .. } => \"")
      (code "Self" ++ (code "::" ++ (word ++ (code " { .. } => \"" ++ eventType ++ code "\","))))
        = some (eventType ++ code "\",") := by
    rw [Cuts.strip_eq_some]
    simp only [List.append_assoc]
    rfl
  rw [readTypeArm, readArm_blanks blanks isIdentifier_self isWord ends, Option.bind_some,
    unindent_blanks blanks _ isIdentifier_self, stripped, Option.map_some,
    List.takeWhile_append_of_pos other]
  simp [code]

theorem readVariant_eventVariantLine (isWord : IsIdentifier (heck.upperCamel variant)) :
    readVariant (eventVariantLine heck variant fields) = some (heck.upperCamel variant) := by
  obtain ⟨rest, ends, -, line⟩ := eventVariantLine_parts heck variant fields
  rw [line, readVariant_blanks 4 isWord ends]

theorem readTypeArm_eventTypeArmLine (isWord : IsIdentifier (heck.upperCamel variant))
    (isType : IsEventType eventType) :
    readTypeArm (eventTypeArmLine heck eventType variant) =
      some (heck.upperCamel variant, eventType) := by
  rw [eventTypeArmLine_parts, readTypeArm_blanks 12 isWord isType.quoteless]

theorem readArm_applyArmLine (isType : IsIdentifier type) (isWord : IsIdentifier variant) :
    readArm type (applyArmLine type variant) = some variant := by
  rw [applyArmLine_parts, readArm_blanks 12 isType isWord (endsWord_blank rfl)]

theorem readArm_commandHandleArmLine (isType : IsIdentifier type)
    (isWord : IsIdentifier (heck.upperCamel variant)) :
    readArm type (commandHandleArmLine heck type variant) = some (heck.upperCamel variant) := by
  rw [commandHandleArmLine_parts, readArm_blanks 12 isType isWord (endsWord_blank rfl)]

theorem indent_eventVariantLine (isWord : IsIdentifier (heck.upperCamel variant)) :
    indent (eventVariantLine heck variant fields) = 4 := by
  obtain ⟨rest, -, -, line⟩ := eventVariantLine_parts heck variant fields
  rw [line, indent_blanks 4 rest isWord]

theorem indent_eventTypeArmLine : indent (eventTypeArmLine heck eventType variant) = 12 := by
  rw [eventTypeArmLine_parts, indent_blanks 12 _ isIdentifier_self]

theorem indent_applyArmLine (isType : IsIdentifier type) :
    indent (applyArmLine type variant) = 12 := by
  rw [applyArmLine_parts, indent_blanks 12 _ isType]

theorem indent_commandHandleArmLine (isType : IsIdentifier type) :
    indent (commandHandleArmLine heck type variant) = 12 := by
  rw [commandHandleArmLine_parts, indent_blanks 12 _ isType]

theorem eventVariantLine_flush : Flush (eventVariantLine heck variant fields) := by
  obtain ⟨rest, -, last, line⟩ := eventVariantLine_parts heck variant fields
  apply @flush_of_last _ ',' _ (by decide)
  rw [line, List.getLast?_append, List.getLast?_append, last]
  rfl

theorem eventTypeArmLine_flush : Flush (eventTypeArmLine heck eventType variant) := by
  apply @flush_of_last _ ',' _ (by decide)
  rw [eventTypeArmLine, List.getLast?_append]
  rfl

theorem applyArmLine_flush : Flush (applyArmLine type variant) := by
  apply @flush_of_last _ '}' _ (by decide)
  rw [applyArmLine, List.getLast?_append]
  rfl

theorem commandHandleArmLine_flush : Flush (commandHandleArmLine heck type variant) := by
  apply @flush_of_last _ ',' _ (by decide)
  rw [commandHandleArmLine, List.getLast?_append]
  rfl

theorem IsField.isCode {field : Text × Text} (isField : IsField field) :
    IsCode (renderField field) := by
  have name := isField.name.isCode
  have type := isCode_of_all isField.letters (by decide) (by decide) (by decide)
  rw [IsCode] at name type
  rw [IsCode, renderField, List.all_append, List.all_append, name, type]
  rfl

theorem isCode_intercalate {separator : Text} {texts : List Text} (separates : IsCode separator)
    (all : ∀ text ∈ texts, IsCode text) : IsCode (separator.intercalate texts) := by
  induction texts with
  | nil => rfl
  | cons text texts ih =>
    rw [List.forall_mem_cons] at all
    cases texts with
    | nil =>
      rw [List.intercalate_singleton]
      exact all.1
    | cons next texts =>
      rw [List.intercalate_cons_cons]
      exact (all.1.append separates).append (ih all.2)

theorem eventVariantLine_isCode (isWord : IsIdentifier (heck.upperCamel variant))
    (valid : ∀ field ∈ fields, IsField field) : IsCode (eventVariantLine heck variant fields) := by
  have word := isWord.isCode
  have parts : IsCode ((code ", ").intercalate (fields.map renderField)) := by
    apply isCode_intercalate (rfl : IsCode (code ", "))
    rw [List.forall_mem_map]
    exact fun field member => (valid field member).isCode
  rw [IsCode] at word parts
  rw [IsCode, eventVariantLine]
  split
  · simp only [List.all_append, word, Bool.and_true]
    rfl
  · simp only [List.all_append, word, parts, Bool.and_true]
    rfl

theorem IsEventType.isCode (isType : IsEventType eventType) : IsCode eventType :=
  isCode_of_all isType rfl rfl rfl

theorem eventTypeArmLine_isCode (isWord : IsIdentifier (heck.upperCamel variant))
    (isType : IsEventType eventType) : IsCode (eventTypeArmLine heck eventType variant) := by
  have word := isWord.isCode
  have type := isType.isCode
  rw [IsCode] at word type
  rw [IsCode, eventTypeArmLine]
  simp only [List.all_append, word, type, Bool.and_true]
  rfl

theorem applyArmLine_isCode (isType : IsIdentifier type) (isWord : IsIdentifier variant) :
    IsCode (applyArmLine type variant) := by
  have word := isWord.isCode
  have name := isType.isCode
  rw [IsCode] at word name
  rw [IsCode, applyArmLine]
  simp only [List.all_append, word, name, Bool.and_true]
  rfl

theorem commandHandleArmLine_isCode (isType : IsIdentifier type)
    (isWord : IsIdentifier (heck.upperCamel variant)) :
    IsCode (commandHandleArmLine heck type variant) := by
  have word := isWord.isCode
  have name := isType.isCode
  rw [IsCode] at word name
  rw [IsCode, commandHandleArmLine]
  simp only [List.all_append, word, name, Bool.and_true]
  rfl

end Lines

theorem not_mem_of_all {lines : List Text} (checked : lines.all (fun line => line != text) = true) :
    text ∉ lines := by
  intro member
  exact absurd (List.all_eq_true.mp checked text member) (by simp)

theorem not_mem_of_indent {lines : List Text} {blanks own : Nat}
    (indented : ∀ line ∈ lines, indent line = blanks) (indent : indent text = own)
    (other : own ≠ blanks) : text ∉ lines :=
  fun member => other (indent.symm.trans (indented text member))

/-- A line that starts the body of an enum or of a match. -/
def isOpening (line : Text) : Bool :=
  (code "pub enum ").isPrefixOf line || (code "        match ").isPrefixOf line

theorem not_mem_of_opening {lines : List Text} (silent : ∀ line ∈ lines, isOpening line = false)
    (opens : isOpening text = true) : text ∉ lines := by
  intro member
  rw [silent text member] at opens
  cases opens

theorem fileMarks_silent : ∀ marks ∈ fileMarks,
    isOpening marks.1 = false ∧ isOpening marks.2 = false := by
  simp only [fileMarks, isOpening]
  repeat rw [code_literal]
  decide

/-- No marker line ends the body of an enum or of a match. -/
theorem fileMarks_end_nothing : ∀ marks ∈ fileMarks, ∀ closing ∈ [code "\x7d", code "        \x7d"],
    closing ≠ marks.1 ∧ closing ≠ marks.2 := by
  rw [fileMarks]
  repeat rw [code_literal]
  decide

theorem FileSection.not_mem_lines {part : FileSection} (marks : part.marks ∈ fileMarks)
    (opens : isOpening text = true) (head : text ∉ part.head) (inside : text ∉ part.inside) :
    text ∉ part.lines := by
  obtain ⟨opening, closing⟩ := fileMarks_silent part.marks marks
  simp only [FileSection.lines, List.mem_append, List.mem_cons, List.not_mem_nil, or_false, not_or]
  refine ⟨head, ?_, inside, ?_⟩
  · rintro rfl
    rw [show isOpening part.opening = false from opening] at opens
    cases opens
  · rintro rfl
    rw [show isOpening part.closing = false from closing] at opens
    cases opens

/-- The lines that a section's code starts before its region, and that end behind it. -/
theorem bodyOf_section {opening closing : Text} {front back : List FileSection}
    {part : FileSection} {before later tail : List Text}
    (head : part.head = before ++ opening :: later)
    (follows : (sectionLines back tail).head? = some closing)
    (earlier : ∀ other ∈ front, opening ∉ other.lines) (first : opening ∉ before)
    (marks : part.marks ∈ fileMarks) (ends : closing ∈ [code "\x7d", code "        \x7d"])
    (last : closing ∉ later) (inside : closing ∉ part.inside) :
    bodyOf opening closing (sectionLines (front ++ part :: back) tail) =
      later ++ part.opening :: (part.inside ++ [part.closing]) := by
  have other {line : Text} {lines : List Text} (free : line ∉ lines) :
      ∀ one ∈ lines, (one != line) = true := by
    intro one member
    exact bne_iff_ne.mpr fun same => free (same ▸ member)
  have start : opening ∉ front.flatMap FileSection.lines ++ before := by
    rw [List.mem_append, not_or, List.mem_flatMap]
    exact ⟨fun ⟨part, among, inside⟩ => earlier part among inside, first⟩
  have stop : closing ∉ later ++ part.opening :: (part.inside ++ [part.closing]) := by
    obtain ⟨one, two⟩ := fileMarks_end_nothing part.marks marks closing ends
    simp only [List.mem_append, List.mem_cons, List.not_mem_nil, or_false, not_or]
    exact ⟨last, one, inside, two⟩
  obtain ⟨behind, rest⟩ := List.head?_eq_some_iff.mp follows
  have cut : sectionLines (front ++ part :: back) tail =
      (front.flatMap FileSection.lines ++ before) ++ opening ::
        ((later ++ part.opening :: (part.inside ++ [part.closing])) ++ closing :: behind) := by
    rw [sectionLines_cut, head, rest]
    simp only [List.append_assoc, List.cons_append, List.nil_append]
  rw [bodyOf, cut, List.dropWhile_append_of_pos (other start),
    List.dropWhile_cons_of_neg (by simp), List.drop_one, List.tail_cons,
    List.takeWhile_append_of_pos (other stop), List.takeWhile_cons_of_neg (by simp),
    List.append_nil]

/-- The lines that were added stand under the template's. -/
structure Added.Indented (added : Added) : Prop where
  commands : ∀ line ∈ added.commands, indent line = 4
  events : ∀ line ∈ added.events, indent line = 4
  types : ∀ line ∈ added.types, indent line = 12
  applies : ∀ line ∈ added.applies, indent line = 12
  handles : ∀ line ∈ added.handles, indent line = 12

section Bodies

variable {names : NameParts} {added : Added}

def createLine (names : NameParts) : Text :=
  code "    " ++ names.createCommand ++ code " { name: String },"

def createdLine (names : NameParts) : Text :=
  code "    " ++ names.createdEvent ++ code " { name: String },"

theorem indent_createLine (words : names.IsCode) : indent (createLine names) = 4 := by
  rw [createLine, List.append_assoc]
  exact indent_blanks 4 _ words.createCommand

theorem indent_createdLine (words : names.IsCode) : indent (createdLine names) = 4 := by
  rw [createdLine, List.append_assoc]
  exact indent_blanks 4 _ words.createdEvent

/-- Between the lines that start a body, no line of the template starts one. -/
theorem heads_silent (names : NameParts) :
    (∀ line ∈ (commandsHead names).take 27, isOpening line = false) ∧
      (∀ line ∈ (eventsHead names).take 3, isOpening line = false) ∧
      (∀ line ∈ (typesHead names).take 4, isOpening line = false) ∧
      (∀ line ∈ (typesHead names).drop 5, isOpening line = false) ∧
      (∀ line ∈ (appliesHead names).take 28, isOpening line = false) ∧
      (∀ line ∈ (appliesHead names).drop 29, isOpening line = false) ∧
      ∀ line ∈ (handlesHead names).take 4, isOpening line = false := by
  simp only [commandsHead, eventsHead, typesHead, appliesHead, handlesHead, isOpening,
    List.take_succ_cons, List.take_zero, List.drop_succ_cons, List.drop_zero, List.forall_mem_cons]
  repeat rw [code_literal]
  simp [List.isPrefixOf]

section Opened

variable (words : names.IsCode) (indented : added.Indented) {text : Text}
  (opens : isOpening text = true)

include indented opens

section

include words

/-- An enum or a match that is not the one of the commands is not opened there. -/
theorem not_opened_in_commands {own : Nat} (indent : indent text = own) (outside : own ≠ 4)
    (apart : text ≠ code "pub enum " ++ names.commandType ++ code " \x7b") :
    ∀ part ∈ (fileSections names added).take 1, text ∉ part.lines := by
  have cut : commandsHead names = (commandsHead names).take 27 ++
      [code "pub enum " ++ names.commandType ++ code " \x7b", createLine names] := rfl
  intro part member
  obtain rfl := List.mem_singleton.mp member
  refine FileSection.not_mem_lines List.mem_cons_self opens ?_
    (not_mem_of_indent indented.commands indent outside)
  show text ∉ commandsHead names
  rw [cut]
  simp only [List.mem_cons, List.mem_append, List.not_mem_nil, or_false, not_or]
  refine ⟨not_mem_of_opening (heads_silent names).1 opens, apart, ?_⟩
  rintro rfl
  rw [indent_createLine words] at indent
  exact outside indent.symm

/-- A match is not opened with the enums. -/
theorem not_opened_in_enums (indent : indent text = 8)
    (commands : text ≠ code "pub enum " ++ names.commandType ++ code " \x7b")
    (events : text ≠ code "pub enum " ++ names.eventType ++ code " \x7b") :
    ∀ part ∈ (fileSections names added).take 2, text ∉ part.lines := by
  have cut : eventsHead names = (eventsHead names).take 3 ++
      [code "pub enum " ++ names.eventType ++ code " \x7b", createdLine names] := rfl
  have first := not_opened_in_commands words indented opens indent (by decide) commands
  refine List.forall_mem_append.mpr ⟨first, fun part member => ?_⟩
  obtain rfl := List.mem_singleton.mp member
  refine FileSection.not_mem_lines (.tail _ List.mem_cons_self) opens ?_
    (not_mem_of_indent indented.events indent (by decide))
  show text ∉ eventsHead names
  rw [cut]
  simp only [List.mem_cons, List.mem_append, List.not_mem_nil, or_false, not_or]
  refine ⟨not_mem_of_opening (heads_silent names).2.1 opens, events, ?_⟩
  rintro rfl
  rw [indent_createdLine words] at indent
  cases indent

end

theorem not_opened_in_types (indent : indent text = 8)
    (apart : text ≠ code "        match self \x7b") :
    ∀ part ∈ ((fileSections names added).drop 2).take 1, text ∉ part.lines := by
  have cut : typesHead names = (typesHead names).take 4 ++
      code "        match self \x7b" :: (typesHead names).drop 5 := rfl
  obtain ⟨-, -, before, later, -⟩ := heads_silent names
  intro part member
  obtain rfl := List.mem_singleton.mp member
  refine FileSection.not_mem_lines (.tail _ (.tail _ List.mem_cons_self)) opens ?_
    (not_mem_of_indent indented.types indent (by decide))
  show text ∉ typesHead names
  rw [cut, List.mem_append, List.mem_cons, not_or, not_or]
  exact ⟨not_mem_of_opening before opens, apart, not_mem_of_opening later opens⟩

theorem not_opened_in_applies (indent : indent text = 8)
    (apart : text ≠ code "        match event \x7b") :
    ∀ part ∈ ((fileSections names added).drop 3).take 1, text ∉ part.lines := by
  have cut : appliesHead names = (appliesHead names).take 28 ++
      code "        match event \x7b" :: (appliesHead names).drop 29 := rfl
  obtain ⟨-, -, -, -, before, later, -⟩ := heads_silent names
  intro part member
  obtain rfl := List.mem_singleton.mp member
  refine FileSection.not_mem_lines (.tail _ (.tail _ (.tail _ List.mem_cons_self))) opens ?_
    (not_mem_of_indent indented.applies indent (by decide))
  show text ∉ appliesHead names
  rw [cut, List.mem_append, List.mem_cons, not_or, not_or]
  exact ⟨not_mem_of_opening before opens, apart, not_mem_of_opening later opens⟩

end Opened

section

variable (words : names.IsCode) (indented : added.Indented)

include indented

theorem body_commands :
    bodyOf (code "pub enum " ++ names.commandType ++ code " \x7b") (code "\x7d")
        (fileLines names added) =
      createLine names :: code "    // ddd:commands" ::
        (added.commands ++ [code "    // ddd:commands:end"]) := by
  obtain ⟨before, -⟩ := heads_silent names
  have cut : commandsHead names = (commandsHead names).take 27 ++
      (code "pub enum " ++ names.commandType ++ code " \x7b") :: [createLine names] := rfl
  rw [fileLines_sections]
  exact @bodyOf_section _ _ [] ((fileSections names added).drop 1)
    ⟨commandsHead names, _, added.commands, _⟩ _ [createLine names] fileTail cut rfl (by simp)
    (not_mem_of_opening before rfl) List.mem_cons_self List.mem_cons_self (not_mem_of_all rfl)
    (not_mem_of_indent indented.commands (rfl : _ = 0) (by decide))

include words

theorem body_events (apart : names.commandType ≠ names.eventType) :
    bodyOf (code "pub enum " ++ names.eventType ++ code " \x7b") (code "\x7d")
        (fileLines names added) =
      createdLine names :: code "    // ddd:events" ::
        (added.events ++ [code "    // ddd:events:end"]) := by
  obtain ⟨-, before, -⟩ := heads_silent names
  have own : indent (code "pub enum " ++ names.eventType ++ code " \x7b") = 0 := rfl
  have cut : eventsHead names = (eventsHead names).take 3 ++
      (code "pub enum " ++ names.eventType ++ code " \x7b") :: [createdLine names] := rfl
  have commands : code "pub enum " ++ names.eventType ++ code " \x7b" ≠
      code "pub enum " ++ names.commandType ++ code " \x7b" :=
    fun same => apart (List.append_cancel_left (List.append_cancel_right same)).symm
  rw [fileLines_sections]
  exact @bodyOf_section _ _ ((fileSections names added).take 1) ((fileSections names added).drop 2)
    ⟨eventsHead names, _, added.events, _⟩ _ [createdLine names] fileTail cut rfl
    (not_opened_in_commands words indented rfl own (by decide) commands)
    (not_mem_of_opening before rfl) (.tail _ List.mem_cons_self) List.mem_cons_self
    (not_mem_of_all rfl) (not_mem_of_indent indented.events (rfl : _ = 0) (by decide))

theorem body_types :
    bodyOf (code "        match self \x7b") (code "        \x7d") (fileLines names added) =
      (typesHead names).drop 5 ++ code "            // ddd:event-types" ::
        (added.types ++ [code "            // ddd:event-types:end"]) := by
  obtain ⟨-, -, before, -⟩ := heads_silent names
  have cut : typesHead names = (typesHead names).take 4 ++
      code "        match self \x7b" :: (typesHead names).drop 5 := rfl
  rw [fileLines_sections]
  exact @bodyOf_section _ _ ((fileSections names added).take 2) ((fileSections names added).drop 3)
    ⟨typesHead names, _, added.types, _⟩ _ _ fileTail cut rfl
    (not_opened_in_enums words indented rfl rfl nofun nofun) (not_mem_of_opening before rfl)
    (.tail _ (.tail _ List.mem_cons_self)) (.tail _ List.mem_cons_self) (not_mem_of_all rfl)
    (not_mem_of_indent indented.types (rfl : _ = 8) (by decide))

theorem body_applies :
    bodyOf (code "        match event \x7b") (code "        \x7d") (fileLines names added) =
      (appliesHead names).drop 29 ++ code "            // ddd:apply-events" ::
        (added.applies ++ [code "            // ddd:apply-events:end"]) := by
  obtain ⟨-, -, -, -, before, -⟩ := heads_silent names
  have opens : isOpening (code "        match event \x7b") = true := rfl
  have enums := not_opened_in_enums words indented opens rfl nofun nofun
  have types := @not_opened_in_types names _ indented _ opens rfl (by decide +kernel)
  have cut : appliesHead names = (appliesHead names).take 28 ++
      code "        match event \x7b" :: (appliesHead names).drop 29 := rfl
  rw [fileLines_sections]
  exact @bodyOf_section _ _ ((fileSections names added).take 3) ((fileSections names added).drop 4)
    ⟨appliesHead names, _, added.applies, _⟩ _ _ fileTail cut rfl
    (List.forall_mem_append.mpr ⟨enums, types⟩) (not_mem_of_opening before opens)
    (.tail _ (.tail _ (.tail _ List.mem_cons_self))) (.tail _ List.mem_cons_self)
    (not_mem_of_all rfl) (not_mem_of_indent indented.applies (rfl : _ = 8) (by decide))

theorem body_handles :
    bodyOf (code "        match command \x7b") (code "        \x7d") (fileLines names added) =
      (handlesHead names).drop 5 ++ code "            // ddd:handle-commands" ::
        (added.handles ++ [code "            // ddd:handle-commands:end"]) := by
  obtain ⟨-, -, -, -, -, -, before⟩ := heads_silent names
  have opens : isOpening (code "        match command \x7b") = true := rfl
  have enums := not_opened_in_enums words indented opens rfl nofun nofun
  have types := @not_opened_in_types names _ indented _ opens rfl (by decide +kernel)
  have applies := @not_opened_in_applies names _ indented _ opens rfl (by decide +kernel)
  have cut : handlesHead names = (handlesHead names).take 4 ++
      code "        match command \x7b" :: (handlesHead names).drop 5 := rfl
  rw [fileLines_sections]
  exact @bodyOf_section _ _ ((fileSections names added).take 4) []
    ⟨handlesHead names, _, added.handles, _⟩ _ _ fileTail cut rfl
    (List.forall_mem_append.mpr ⟨enums, List.forall_mem_append.mpr ⟨types, applies⟩⟩)
    (not_mem_of_opening before opens) (.tail _ (.tail _ (.tail _ (.tail _ List.mem_cons_self))))
    (.tail _ List.mem_cons_self) (not_mem_of_all rfl)
    (not_mem_of_indent indented.handles (rfl : _ = 8) (by decide))

end

end Bodies

section Listed

variable {names : NameParts} {added : Added}

theorem lines_fileLines (words : names.IsCode) (old : added.IsCode) :
    lines (unlines (fileLines names added)) = fileLines names added := by
  have records := sectionLines_records (fileSections_isCode words old)
    (head_isCode words fileTail (by simp))
  rw [← fileLines_sections] at records
  have read := @lines_unlines _ records [] (by simp)
  rwa [List.append_nil, if_pos rfl, List.append_nil] at read

theorem readVariant_createLine (words : names.IsCode) :
    readVariant (createLine names) = some names.createCommand := by
  rw [createLine, List.append_assoc]
  exact readVariant_blanks 4 words.createCommand (endsWord_blank rfl)

theorem readVariant_createdLine (words : names.IsCode) :
    readVariant (createdLine names) = some names.createdEvent := by
  rw [createdLine, List.append_assoc]
  exact readVariant_blanks 4 words.createdEvent (endsWord_blank rfl)

variable (words : names.IsCode) (old : added.IsCode) (indented : added.Indented)

include words old indented

theorem enumVariants_commands :
    enumVariants names.commandType (unlines (fileLines names added)) =
      names.createCommand :: added.commands.filterMap readVariant := by
  have opening : readVariant (code "    // ddd:commands") = none := rfl
  have closing : readVariant (code "    // ddd:commands:end") = none := rfl
  rw [enumVariants, lines_fileLines words old, body_commands indented,
    List.filterMap_cons_some (readVariant_createLine words), List.filterMap_cons_none opening,
    List.filterMap_append, List.filterMap_cons_none closing, List.filterMap_nil, List.append_nil]

theorem enumVariants_events (apart : names.commandType ≠ names.eventType) :
    enumVariants names.eventType (unlines (fileLines names added)) =
      names.createdEvent :: added.events.filterMap readVariant := by
  have opening : readVariant (code "    // ddd:events") = none := rfl
  have closing : readVariant (code "    // ddd:events:end") = none := rfl
  rw [enumVariants, lines_fileLines words old, body_events words indented apart,
    List.filterMap_cons_some (readVariant_createdLine words), List.filterMap_cons_none opening,
    List.filterMap_append, List.filterMap_cons_none closing, List.filterMap_nil, List.append_nil]

theorem eventTypeArms_file :
    eventTypeArms (unlines (fileLines names added)) =
      (names.createdEvent, names.createdEventName) :: added.types.filterMap readTypeArm := by
  have first : (typesHead names).drop 5 = [List.replicate 12 ' ' ++ (code "Self" ++ (code "::" ++
      (names.createdEvent ++ (code " { .. } => \"" ++ names.createdEventName ++
        code "\","))))] := by
    simp only [typesHead, List.drop_succ_cons, List.drop_zero, List.append_assoc]
    rfl
  have arm := readTypeArm_blanks 12 words.createdEvent
    (words.createdEventName.free (by decide : isIdentifierChar '"' = false))
  have opening : readTypeArm (code "            // ddd:event-types") = none := rfl
  have closing : readTypeArm (code "            // ddd:event-types:end") = none := rfl
  rw [eventTypeArms, lines_fileLines words old, body_types words indented, first,
    List.singleton_append, List.filterMap_cons_some arm, List.filterMap_cons_none opening,
    List.filterMap_append, List.filterMap_cons_none closing, List.filterMap_nil, List.append_nil]

theorem applyArms_file :
    applyArms names.eventType (unlines (fileLines names added)) =
      names.createdEvent :: added.applies.filterMap (readArm names.eventType) := by
  have first : (appliesHead names).drop 29 = [List.replicate 12 ' ' ++ (names.eventType ++
      (code "::" ++ (names.createdEvent ++
        code " { name } => self.name = Some(name.clone()),")))] := by
    simp only [appliesHead, List.drop_succ_cons, List.drop_zero, List.append_assoc]
    rfl
  have arm := readArm_blanks 12 words.eventType words.createdEvent
    (endsWord_blank (rfl : (code " { name } => self.name = Some(name.clone()),").head? = _))
  have none_of {line : Text} (silent : firstWord (unindent line) = []) :
      readArm names.eventType line = none := by
    rw [readArm, silent, if_neg words.eventType.1.symm]
  rw [applyArms, lines_fileLines words old, body_applies words indented, first,
    List.singleton_append, List.filterMap_cons_some arm, List.filterMap_cons_none (none_of rfl),
    List.filterMap_append, List.filterMap_cons_none (none_of rfl), List.filterMap_nil,
    List.append_nil]

theorem handleArms_file :
    handleArms names.commandType (unlines (fileLines names added)) =
      names.createCommand :: added.handles.filterMap (readArm names.commandType) := by
  have first : (handlesHead names).drop 5 = (List.replicate 12 ' ' ++ (names.commandType ++
      (code "::" ++ (names.createCommand ++ code " \x7b name \x7d => \x7b")))) ::
        (handlesHead names).drop 6 := by
    simp only [handlesHead, List.drop_succ_cons, List.drop_zero, List.append_assoc]
    rfl
  have arm := readArm_blanks 12 words.commandType words.createCommand
    (endsWord_blank (rfl : (code " \x7b name \x7d => \x7b").head? = _))
  have none_of {line : Text} (silent : Cuts.strip (code "::") (afterWord (unindent line)) = none) :
      readArm names.commandType line = none := by
    rw [readArm, silent]
    exact ite_self _
  have body : ((handlesHead names).drop 6).filterMap (readArm names.commandType) = [] := by
    rw [List.filterMap_eq_nil_iff]
    simp only [handlesHead, List.drop_succ_cons, List.drop_zero, List.forall_mem_cons,
      List.not_mem_nil, false_implies, implies_true, and_true]
    exact ⟨none_of rfl, none_of rfl, none_of rfl, none_of rfl, none_of rfl⟩
  rw [handleArms, lines_fileLines words old, body_handles words indented, first,
    List.cons_append, List.filterMap_cons_some arm, List.filterMap_append, body, List.nil_append,
    List.filterMap_cons_none (none_of rfl), List.filterMap_append,
    List.filterMap_cons_none (none_of rfl), List.filterMap_nil, List.append_nil]

end Listed

end DddCqrsEs.DddCli
