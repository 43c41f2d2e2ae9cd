import DddCqrsEs.Schema
import DddCqrsEs.Substrings

/- The unique violations of an events table as the databases report them, and the tests that
tell the constraint on a stream's revisions from the one on event ids. -/
namespace DddCqrsEs

def sqliteMessage (table : String) (violation : UniqueViolation) : String :=
  match violation with
  | .eventId => "UNIQUE constraint failed: " ++ table ++ ".event_id"
  | .streamRevision =>
    "UNIQUE constraint failed: " ++ table ++ ".aggregate_type, " ++ table ++
      ".aggregate_id, " ++ table ++ ".revision"

/-- The name MySQL gives an unnamed key: that of its first column. -/
def UniqueViolation.firstColumn : UniqueViolation → String
  | .eventId => "event_id"
  | .streamRevision => "aggregate_type"

/-- The entry is the value of the key. -/
def mysqlMessage (table entry : String) (violation : UniqueViolation) : String :=
  "Duplicate entry '" ++ entry ++ "' for key '" ++ table ++ "." ++ violation.firstColumn ++ "'"

/-- The lengths to which PostgreSQL cuts the two parts of a name that would be longer than
`available`: the longer part gives way. -/
def shrinkParts (available first second : Nat) : Nat × Nat :=
  if first + second ≤ available then (first, second)
  else if second < first then shrinkParts available (first - 1) second
  else shrinkParts available first (second - 1)
termination_by first + second
decreasing_by all_goals omega

/-- The columns of a constraint in its name. -/
def UniqueViolation.columnsPart : UniqueViolation → String
  | .eventId => "event_id"
  | .streamRevision => "aggregate_type_aggregate_id_revision"

/-- What an identifier of at most 63 bytes leaves to the parts before `_key`. -/
def UniqueViolation.partLengths (violation : UniqueViolation) (table : String) : Nat × Nat :=
  shrinkParts 58 (min table.length 63) violation.columnsPart.length

/-- The part of the table's name that is left in a constraint's name. -/
def UniqueViolation.tablePart (violation : UniqueViolation) (table : String) : List Char :=
  (lowercase table).take (violation.partLengths table).1

/-- The name PostgreSQL gives an unnamed constraint. The table's name is not quoted, and so in
lower case. -/
def postgresConstraint (table : String) (violation : UniqueViolation) : String :=
  String.ofList (violation.tablePart table ++
    '_' :: (violation.columnsPart.toList.take (violation.partLengths table).2 ++ "_key".toList))

def postgresMessage (table : String) (violation : UniqueViolation) : String :=
  "duplicate key value violates unique constraint \"" ++ postgresConstraint table violation ++ "\""

/-- A dialect's message, and the code that is recorded with it. -/
def SqlDialect.violationMessage (dialect : SqlDialect) (table entry : String)
    (violation : UniqueViolation) : String :=
  match dialect with
  | .sqlite => sqliteMessage table violation
  | .postgres => postgresMessage table violation
  | .mysql => mysqlMessage table entry violation

def SqlDialect.violationCode : SqlDialect → String
  | .sqlite => "2067"
  | .postgres => "23505"
  | .mysql => "1062"

/-- Wider, since MySQL messages name a composite key after its first column. -/
def isMysqlStreamRevisionUniqueViolationMessage (message : String) : Bool :=
  let lower := lowercase message
  if mentions lower "event_id" then false
  else
    mentions lower "revision" || mentions lower "aggregate_type" || mentions lower "aggregate_id"

def postgresStreamRevisionUniqueViolation (uniqueViolation : Bool) (constraint : Option String)
    (message : String) : Bool :=
  if !uniqueViolation then false
  else
    match constraint with
    | some constraint => !mentions (lowercase constraint) "event_id"
    | none =>
      if isStreamRevisionUniqueViolationMessage message then true
      else !mentions (lowercase message) "event_id"

def isRevisionUniqueViolation (message : String) : Bool :=
  let lower := lowercase message
  (mentions lower "unique" || mentions lower "23505" || mentions lower "duplicate") &&
    (mentions lower "revision" || mentions lower "aggregate")

/-- The tests a violation is put to, those for any database with the one it comes from. -/
inductive Classifier where
  | postgresConstraint
  | postgresMessage
  | mysqlMessage
  | message (dialect : SqlDialect)
  | http (dialect : SqlDialect)
  | retryable (dialect : SqlDialect)

/-- Whether a test takes a violation for a conflict on a stream's revision. -/
def Classifier.saysConflict (classifier : Classifier) (table entry : String)
    (violation : UniqueViolation) : Bool :=
  match classifier with
  | .postgresConstraint =>
    postgresStreamRevisionUniqueViolation true (some (DddCqrsEs.postgresConstraint table violation))
      (DddCqrsEs.postgresMessage table violation)
  | .postgresMessage =>
    postgresStreamRevisionUniqueViolation true none (DddCqrsEs.postgresMessage table violation)
  | .mysqlMessage =>
    isMysqlStreamRevisionUniqueViolationMessage (DddCqrsEs.mysqlMessage table entry violation)
  | .message dialect =>
    isStreamRevisionUniqueViolationMessage (dialect.violationMessage table entry violation)
  | .http dialect => isRevisionUniqueViolation (dialect.violationMessage table entry violation)
  | .retryable dialect =>
    (EventStoreError.backend (dialect.violationMessage table entry violation)
      (some dialect.violationCode)).isRetryable

/-- A test says conflict for the constraint on revisions, and not for the one on event ids.
The entries are those of the two violations. -/
def Classifier.Tells (classifier : Classifier) (table streamEntry eventEntry : String) : Prop :=
  classifier.saysConflict table streamEntry .streamRevision = true ∧
    classifier.saysConflict table eventEntry .eventId = false

@[simp] theorem lowercase_append (front rest : String) :
    lowercase (front ++ rest) = lowercase front ++ lowercase rest := by
  rw [lowercase, String.toList_append, List.map_append, lowercase, lowercase]

theorem asciiLower_idem (c : Char) : asciiLower (asciiLower c) = asciiLower c := by
  unfold asciiLower
  split
  · rename_i upper
    rw [if_neg]
    have bounds : 65 ≤ c.toNat ∧ c.toNat ≤ 90 := upper
    have valid : (c.toNat + 32).isValidChar := Or.inl (by omega)
    intro again
    have most : (Char.ofNat (c.toNat + 32)).toNat ≤ 90 := again.2
    rw [Char.ofNat, dif_pos valid] at most
    have same : (Char.ofNatAux (c.toNat + 32) valid).toNat = c.toNat + 32 := rfl
    omega
  · rfl

/-- A word of letters, digits and underscores. -/
def plainWord (word : String) : Bool := word.toList.all (fun c => c.isAlphanum || c == '_')

variable {word : String}

theorem foreign_of_plainWord (plain : plainWord word = true) {c : Char}
    (other : (c.isAlphanum || c == '_') = false) : c ∉ word.toList := by
  intro member
  have one := List.all_eq_true.mp plain c member
  rw [other] at one
  cases one

theorem mentions_separated {c : Char} (foreign : c ∉ word.toList) (before text : List Char) :
    mentions (before ++ c :: text) word = (mentions before word || mentions text word) := by
  rw [mentions, mentions, mentions, ← Bool.decide_or, decide_eq_decide]
  exact Substrings.infix_separated foreign before text

section Messages

variable (plain : plainWord word = true) (table entry : String)
include plain

theorem mentions_sqliteEventId :
    mentions (lowercase (sqliteMessage table .eventId)) word =
      (mentions "unique constraint failed:".toList word ||
        (mentions (lowercase table) word || mentions "event_id".toList word)) := by
  have opens : lowercase "UNIQUE constraint failed: " =
      "unique constraint failed:".toList ++ [' '] := by decide
  have ends : lowercase ".event_id" = '.' :: "event_id".toList := by decide
  have normal : lowercase (sqliteMessage table .eventId) =
      "unique constraint failed:".toList ++ ' ' :: (lowercase table ++ '.' :: "event_id".toList) := by
    show lowercase ("UNIQUE constraint failed: " ++ table ++ ".event_id") = _
    rw [lowercase_append, lowercase_append, opens, ends, List.append_assoc,
      List.append_assoc, List.singleton_append]
  rw [normal, mentions_separated (foreign_of_plainWord plain rfl),
    mentions_separated (foreign_of_plainWord plain rfl)]

theorem mentions_sqliteStreamRevision :
    mentions (lowercase (sqliteMessage table .streamRevision)) word =
      (mentions "unique constraint failed:".toList word ||
        (mentions (lowercase table) word || (mentions "aggregate_type,".toList word ||
          (mentions (lowercase table) word || (mentions "aggregate_id,".toList word ||
            (mentions (lowercase table) word || mentions "revision".toList word)))))) := by
  have opens : lowercase "UNIQUE constraint failed: " =
      "unique constraint failed:".toList ++ [' '] := by decide
  have first : lowercase ".aggregate_type, " = '.' :: ("aggregate_type,".toList ++ [' ']) := by
    decide
  have second : lowercase ".aggregate_id, " = '.' :: ("aggregate_id,".toList ++ [' ']) := by
    decide
  have third : lowercase ".revision" = '.' :: "revision".toList := by decide
  have space : ' ' ∉ word.toList := foreign_of_plainWord plain rfl
  have dot : '.' ∉ word.toList := foreign_of_plainWord plain rfl
  show mentions (lowercase ("UNIQUE constraint failed: " ++ table ++ ".aggregate_type, " ++
    table ++ ".aggregate_id, " ++ table ++ ".revision")) word = _
  simp only [lowercase_append, opens, first, second, third, List.append_assoc, List.cons_append,
    List.nil_append, mentions_separated space, mentions_separated dot]

theorem mentions_mysql (violation : UniqueViolation) :
    mentions (lowercase (mysqlMessage table entry violation)) word =
      (mentions "duplicate entry ".toList word || (mentions (lowercase entry) word ||
        (mentions " for key ".toList word || (mentions (lowercase table) word ||
          (mentions (lowercase violation.firstColumn) word || mentions [] word))))) := by
  have opens : lowercase "Duplicate entry '" = "duplicate entry ".toList ++ ['\''] := by decide
  have middle : lowercase "' for key '" = '\'' :: (" for key ".toList ++ ['\'']) := by decide
  have dotted : lowercase "." = ['.'] := by decide
  have ends : lowercase "'" = ['\''] := by decide
  have quote : '\'' ∉ word.toList := foreign_of_plainWord plain rfl
  have dot : '.' ∉ word.toList := foreign_of_plainWord plain rfl
  show mentions (lowercase ("Duplicate entry '" ++ entry ++ "' for key '" ++ table ++ "." ++
    violation.firstColumn ++ "'")) word = _
  simp only [lowercase_append, opens, middle, dotted, ends, List.append_assoc, List.cons_append,
    List.nil_append, mentions_separated quote, mentions_separated dot]

theorem mentions_postgres (violation : UniqueViolation) :
    mentions (lowercase (postgresMessage table violation)) word =
      (mentions "duplicate key value violates unique constraint ".toList word ||
        (mentions (lowercase (postgresConstraint table violation)) word || mentions [] word)) := by
  have opens : lowercase "duplicate key value violates unique constraint \"" =
      "duplicate key value violates unique constraint ".toList ++ ['"'] := by decide
  have ends : lowercase "\"" = ['"'] := by decide
  have quote : '"' ∉ word.toList := foreign_of_plainWord plain rfl
  show mentions (lowercase ("duplicate key value violates unique constraint \"" ++
    postgresConstraint table violation ++ "\"")) word = _
  simp only [lowercase_append, opens, ends, List.append_assoc, List.cons_append,
    List.nil_append, mentions_separated quote]

end Messages

/-- A name that is cut is cut to the length there is, and neither part below half of it. -/
theorem shrinkParts_spec (available first second : Nat) :
    (shrinkParts available first second).1 ≤ first ∧
      (shrinkParts available first second).2 ≤ second ∧
      (shrinkParts available first second).1 + (shrinkParts available first second).2 =
        min (first + second) available ∧
      min first (available / 2) ≤ (shrinkParts available first second).1 ∧
      min second (available / 2) ≤ (shrinkParts available first second).2 := by
  fun_induction shrinkParts available first second with
  | case1 first second fits => omega
  | case2 first second longer more ih => omega
  | case3 first second longer more ih => omega

theorem partLengths_streamRevision (table : String) :
    29 ≤ (UniqueViolation.streamRevision.partLengths table).2 ∧
      (UniqueViolation.streamRevision.partLengths table).2 ≤ 36 ∧
      ((UniqueViolation.streamRevision.partLengths table).2 = 36 ↔ table.length ≤ 22) := by
  have columns : UniqueViolation.streamRevision.columnsPart.length = 36 := by decide
  have spec := shrinkParts_spec 58 (min table.length 63) 36
  rw [UniqueViolation.partLengths, columns]
  omega

theorem partLengths_eventId (table : String) :
    (UniqueViolation.eventId.partLengths table).2 = 8 := by
  have columns : UniqueViolation.eventId.columnsPart.length = 8 := by decide
  have spec := shrinkParts_spec 58 (min table.length 63) 8
  rw [UniqueViolation.partLengths, columns]
  omega

theorem lowercase_postgresConstraint (table : String) (violation : UniqueViolation) :
    lowercase (postgresConstraint table violation) =
      violation.tablePart table ++
        '_' :: (violation.columnsPart.toList.take (violation.partLengths table).2 ++
          "_key".toList) := by
  have folded : (violation.tablePart table).map asciiLower = violation.tablePart table := by
    rw [UniqueViolation.tablePart, List.map_take, lowercase, List.map_map]
    congr 1
    apply List.map_congr_left
    intro c _
    exact asciiLower_idem c
  have columns : violation.columnsPart.toList.map asciiLower = violation.columnsPart.toList := by
    cases violation <;> decide
  have key : "_key".toList.map asciiLower = "_key".toList := by decide
  have seam : asciiLower '_' = '_' := by decide
  rw [lowercase, postgresConstraint, String.toList_ofList, List.map_append, folded, List.map_cons,
    seam, List.map_append, List.map_take, columns, key]

/-- No word is read over the seam of a constraint's two parts. -/
theorem mentions_postgresConstraint (table : String) (violation : UniqueViolation)
    (apart : Substrings.Unjoined word.toList
      ('_' :: (violation.columnsPart.toList.take (violation.partLengths table).2 ++
        "_key".toList))) :
    mentions (lowercase (postgresConstraint table violation)) word =
      (mentions (violation.tablePart table) word ||
        mentions ('_' :: (violation.columnsPart.toList.take (violation.partLengths table).2 ++
          "_key".toList)) word) := by
  rw [lowercase_postgresConstraint, mentions, mentions, mentions, ← Bool.decide_or,
    decide_eq_decide]
  exact Substrings.infix_append_of_unjoined apart _

section Words

variable (table entry : String)

theorem sqliteEventId_words :
    mentions (lowercase (sqliteMessage table .eventId)) "unique" = true ∧
      mentions (lowercase (sqliteMessage table .eventId)) "event_id" = true ∧
      ∀ word ∈ ["revision", "aggregate", "locked"],
        mentions (lowercase (sqliteMessage table .eventId)) word =
          mentions (lowercase table) word := by
  refine ⟨?_, ?_, ?_⟩
  · rw [mentions_sqliteEventId (by decide)]
    generalize mentions (lowercase table) "unique" = named
    revert named
    decide
  · rw [mentions_sqliteEventId (by decide)]
    generalize mentions (lowercase table) "event_id" = named
    revert named
    decide
  · intro word member
    rw [mentions_sqliteEventId (by revert word; decide)]
    generalize mentions (lowercase table) word = named
    revert named word
    decide

theorem sqliteStreamRevision_words :
    (∀ word ∈ ["unique", "revision", "aggregate", "aggregate_id"],
      mentions (lowercase (sqliteMessage table .streamRevision)) word = true) ∧
      ∀ word ∈ ["event_id", "locked"],
        mentions (lowercase (sqliteMessage table .streamRevision)) word =
          mentions (lowercase table) word := by
  constructor
  · intro word member
    rw [mentions_sqliteStreamRevision (by revert word; decide)]
    generalize mentions (lowercase table) word = named
    revert named word
    decide
  · intro word member
    rw [mentions_sqliteStreamRevision (by revert word; decide)]
    generalize mentions (lowercase table) word = named
    revert named word
    decide

theorem mysqlEventId_words :
    mentions (lowercase (mysqlMessage table entry .eventId)) "duplicate" = true ∧
      mentions (lowercase (mysqlMessage table entry .eventId)) "event_id" = true ∧
      ∀ word ∈ ["revision", "aggregate", "locked"],
        mentions (lowercase (mysqlMessage table entry .eventId)) word =
          (mentions (lowercase entry) word || mentions (lowercase table) word) := by
  refine ⟨?_, ?_, ?_⟩
  · rw [mentions_mysql (by decide)]
    generalize mentions (lowercase table) "duplicate" = named
    generalize mentions (lowercase entry) "duplicate" = valued
    revert named valued
    decide
  · rw [mentions_mysql (by decide)]
    generalize mentions (lowercase table) "event_id" = named
    generalize mentions (lowercase entry) "event_id" = valued
    revert named valued
    decide
  · intro word member
    rw [mentions_mysql (by revert word; decide)]
    generalize mentions (lowercase table) word = named
    generalize mentions (lowercase entry) word = valued
    revert named valued word
    decide

theorem mysqlStreamRevision_words :
    (∀ word ∈ ["duplicate", "aggregate", "aggregate_type"],
      mentions (lowercase (mysqlMessage table entry .streamRevision)) word = true) ∧
      ∀ word ∈ ["event_id", "revision", "locked"],
        mentions (lowercase (mysqlMessage table entry .streamRevision)) word =
          (mentions (lowercase entry) word || mentions (lowercase table) word) := by
  constructor
  · intro word member
    rw [mentions_mysql (by revert word; decide)]
    generalize mentions (lowercase table) word = named
    generalize mentions (lowercase entry) word = valued
    revert named valued word
    decide
  · intro word member
    rw [mentions_mysql (by revert word; decide)]
    generalize mentions (lowercase table) word = named
    generalize mentions (lowercase entry) word = valued
    revert named valued word
    decide

/-- The words of a constraint on event ids: its columns are never cut. -/
theorem postgresConstraintEventId_words :
    mentions (lowercase (postgresConstraint table .eventId)) "event_id" = true ∧
      ∀ word ∈ ["revision", "aggregate", "locked"],
        mentions (lowercase (postgresConstraint table .eventId)) word =
          mentions (UniqueViolation.eventId.tablePart table) word := by
  have uncut := partLengths_eventId table
  constructor
  · rw [mentions_postgresConstraint table .eventId (by rw [uncut]; decide), uncut]
    generalize mentions (UniqueViolation.eventId.tablePart table) "event_id" = named
    revert named
    decide
  · intro word member
    rw [mentions_postgresConstraint table .eventId (by rw [uncut]; revert word; decide), uncut]
    generalize mentions (UniqueViolation.eventId.tablePart table) word = named
    revert named word
    decide

/-- The columns of the constraint on revisions however far they are cut: the table's name
runs into none of the words, and only the last column is lost. -/
theorem cutColumns_words : ∀ kept ∈ [29, 30, 31, 32, 33, 34, 35, 36],
    let part :=
      '_' :: (UniqueViolation.streamRevision.columnsPart.toList.take kept ++ "_key".toList)
    (∀ word ∈ ["aggregate", "aggregate_type", "event_id", "locked", "revision"],
      Substrings.Unjoined word.toList part) ∧
      (∀ word ∈ ["aggregate", "aggregate_type"], mentions part word = true) ∧
      (∀ word ∈ ["event_id", "locked"], mentions part word = false) ∧
      mentions part "revision" = decide (kept = 36) := by
  decide

/-- The words of a constraint on revisions: the last column is cut for a longer table name. -/
theorem postgresConstraintStreamRevision_words :
    (∀ word ∈ ["aggregate", "aggregate_type"],
      mentions (lowercase (postgresConstraint table .streamRevision)) word = true) ∧
      (∀ word ∈ ["event_id", "locked"],
        mentions (lowercase (postgresConstraint table .streamRevision)) word =
          mentions (UniqueViolation.streamRevision.tablePart table) word) ∧
      mentions (lowercase (postgresConstraint table .streamRevision)) "revision" =
        (mentions (UniqueViolation.streamRevision.tablePart table) "revision" ||
          decide (table.length ≤ 22)) := by
  obtain ⟨least, most, cut⟩ := partLengths_streamRevision table
  have known : (UniqueViolation.streamRevision.partLengths table).2 ∈
      [29, 30, 31, 32, 33, 34, 35, 36] := by
    simp only [List.mem_cons, List.not_mem_nil, or_false]
    omega
  obtain ⟨apart, kept, lost, last⟩ := cutColumns_words _ known
  refine ⟨?_, ?_, ?_⟩
  · intro word member
    have listed := List.mem_append_left ["event_id", "locked", "revision"] member
    rw [mentions_postgresConstraint table .streamRevision (apart word listed), kept word member,
      Bool.or_true]
  · intro word member
    have listed := List.mem_append_right ["aggregate", "aggregate_type"]
      (List.mem_append_left ["revision"] member)
    rw [mentions_postgresConstraint table .streamRevision (apart word listed), lost word member,
      Bool.or_false]
  · rw [mentions_postgresConstraint table .streamRevision (apart "revision" (by decide)), last,
      decide_eq_decide.mpr cut]

theorem postgresEventId_words :
    mentions (lowercase (postgresMessage table .eventId)) "duplicate" = true ∧
      mentions (lowercase (postgresMessage table .eventId)) "event_id" = true ∧
      ∀ word ∈ ["revision", "aggregate", "locked"],
        mentions (lowercase (postgresMessage table .eventId)) word =
          mentions (UniqueViolation.eventId.tablePart table) word := by
  have constraint := postgresConstraintEventId_words table
  refine ⟨?_, ?_, ?_⟩
  · rw [mentions_postgres (by decide)]
    generalize mentions (lowercase (postgresConstraint table .eventId)) "duplicate" = named
    revert named
    decide
  · rw [mentions_postgres (by decide), constraint.1]
    decide
  · intro word member
    rw [mentions_postgres (by revert word; decide), constraint.2 word member]
    generalize mentions (UniqueViolation.eventId.tablePart table) word = named
    revert named word
    decide

theorem postgresStreamRevision_words :
    (∀ word ∈ ["duplicate", "aggregate", "aggregate_type"],
      mentions (lowercase (postgresMessage table .streamRevision)) word = true) ∧
      (∀ word ∈ ["event_id", "locked"],
        mentions (lowercase (postgresMessage table .streamRevision)) word =
          mentions (UniqueViolation.streamRevision.tablePart table) word) ∧
      mentions (lowercase (postgresMessage table .streamRevision)) "revision" =
        (mentions (UniqueViolation.streamRevision.tablePart table) "revision" ||
          decide (table.length ≤ 22)) := by
  obtain ⟨columns, others, revision⟩ := postgresConstraintStreamRevision_words table
  refine ⟨?_, ?_, ?_⟩
  · intro word member
    rw [mentions_postgres (by revert word; decide)]
    rcases List.mem_cons.mp member with rfl | column
    · generalize mentions (lowercase (postgresConstraint table .streamRevision)) "duplicate" = named
      revert named
      decide
    · rw [columns word column, Bool.true_or, Bool.or_true]
  · intro word member
    rw [mentions_postgres (by revert word; decide), others word member]
    generalize mentions (UniqueViolation.streamRevision.tablePart table) word = named
    revert named word
    decide
  · rw [mentions_postgres (by decide), revision]
    generalize mentions (UniqueViolation.streamRevision.tablePart table) "revision" = named
    generalize decide (table.length ≤ 22) = short
    revert named short
    decide

end Words

/-- The texts in which a test takes no word for a constraint's: the table's name, as far as the
message has it, and the values of a MySQL entry. Two tests also have to find `revision`, which a
PostgreSQL name loses behind a table's name of more than 22 characters, and which a MySQL
message does not have. -/
def Classifier.Unmistaken (classifier : Classifier) (table streamEntry eventEntry : String) :
    Prop :=
  let named word := mentions (lowercase table) word = true
  let keptByRevision word := mentions (UniqueViolation.streamRevision.tablePart table) word = true
  let keptByEventId word := mentions (UniqueViolation.eventId.tablePart table) word = true
  let inStream word := mentions (lowercase streamEntry) word = true
  let inEvent word := mentions (lowercase eventEntry) word = true
  match classifier with
  | .postgresConstraint | .postgresMessage => ¬ keptByRevision "event_id"
  | .mysqlMessage => ¬ named "event_id" ∧ ¬ inStream "event_id"
  | .message .sqlite => ¬ named "event_id"
  | .message .postgres =>
    ¬ keptByRevision "event_id" ∧ (keptByRevision "revision" ∨ table.length ≤ 22)
  | .message .mysql =>
    (¬ named "event_id" ∧ ¬ inStream "event_id") ∧ (named "revision" ∨ inStream "revision")
  | .http .sqlite => ¬ named "revision" ∧ ¬ named "aggregate"
  | .http .postgres => ¬ keptByEventId "revision" ∧ ¬ keptByEventId "aggregate"
  | .http .mysql =>
    (¬ named "revision" ∧ ¬ named "aggregate") ∧ (¬ inEvent "revision" ∧ ¬ inEvent "aggregate")
  | .retryable .sqlite => ¬ named "locked" ∧ ¬ named "event_id"
  | .retryable .postgres =>
    ¬ keptByEventId "locked" ∧ ¬ keptByRevision "event_id" ∧
      (keptByRevision "revision" ∨ table.length ≤ 22)
  | .retryable .mysql =>
    (¬ named "locked" ∧ ¬ inEvent "locked") ∧
      (inStream "locked" ∨
        (¬ named "event_id" ∧ ¬ inStream "event_id") ∧ (named "revision" ∨ inStream "revision"))

/-- What a constraint on revisions keeps of a table's name, one on event ids keeps too. -/
theorem tablePart_opens (table : String) :
    UniqueViolation.streamRevision.tablePart table <+: UniqueViolation.eventId.tablePart table := by
  have revision : UniqueViolation.streamRevision.columnsPart.length = 36 := by decide
  have eventId : UniqueViolation.eventId.columnsPart.length = 8 := by decide
  have longer := shrinkParts_spec 58 (min table.length 63) 36
  have shorter := shrinkParts_spec 58 (min table.length 63) 8
  rw [UniqueViolation.tablePart, UniqueViolation.tablePart]
  apply List.take_prefix_take_left
  rw [UniqueViolation.partLengths, UniqueViolation.partLengths, revision, eventId]
  omega

theorem mentions_of_prefix {front text : List Char} (opens : front <+: text)
    (found : mentions front word = true) : mentions text word = true := by
  rw [mentions, decide_eq_true_eq] at found ⊢
  exact found.trans opens.isInfix

section Tells

variable (table streamEntry eventEntry : String)

theorem tells_sqlite : ∀ classifier ∈ [Classifier.message .sqlite, .http .sqlite,
    .retryable .sqlite], classifier.Tells table streamEntry eventEntry ↔
      classifier.Unmistaken table streamEntry eventEntry := by
  have stream := sqliteStreamRevision_words table
  have event := sqliteEventId_words table
  simp only [List.forall_mem_cons, List.not_mem_nil, IsEmpty.forall_iff, implies_true, and_true]
    at stream event ⊢
  simp only [Classifier.Tells, Classifier.saysConflict, Classifier.Unmistaken,
    SqlDialect.violationMessage, SqlDialect.violationCode, isStreamRevisionUniqueViolationMessage,
    isRevisionUniqueViolation, EventStoreError.isRetryable, isRetryableBackendConflict,
    EventStoreError.isStreamRevisionUniqueViolationMessage, stream, event]
  refine ⟨?_, ?_, ?_⟩
  · simp
  · simp
  · cases mentions (lowercase table) "locked" <;> simp

theorem tells_mysql : ∀ classifier ∈ [Classifier.mysqlMessage, .message .mysql, .http .mysql,
    .retryable .mysql], classifier.Tells table streamEntry eventEntry ↔
      classifier.Unmistaken table streamEntry eventEntry := by
  have stream := mysqlStreamRevision_words table streamEntry
  have event := mysqlEventId_words table eventEntry
  simp only [List.forall_mem_cons, List.not_mem_nil, IsEmpty.forall_iff, implies_true, and_true]
    at stream event ⊢
  simp only [Classifier.Tells, Classifier.saysConflict, Classifier.Unmistaken,
    SqlDialect.violationMessage, SqlDialect.violationCode, isStreamRevisionUniqueViolationMessage,
    isMysqlStreamRevisionUniqueViolationMessage, isRevisionUniqueViolation,
    EventStoreError.isRetryable, isRetryableBackendConflict,
    EventStoreError.isStreamRevisionUniqueViolationMessage, stream, event]
  refine ⟨?_, ?_, ?_, ?_⟩
  · simp [and_comm]
  · simp [and_comm, or_comm]
  · cases mentions (lowercase table) "revision" <;>
      cases mentions (lowercase table) "aggregate" <;> simp
  · cases mentions (lowercase table) "locked" <;>
      cases mentions (lowercase eventEntry) "locked" <;>
        cases mentions (lowercase streamEntry) "locked" <;>
          simp [and_comm, or_comm]

theorem tells_postgres : ∀ classifier ∈ [Classifier.postgresConstraint, .postgresMessage,
    .message .postgres, .http .postgres, .retryable .postgres],
    classifier.Tells table streamEntry eventEntry ↔
      classifier.Unmistaken table streamEntry eventEntry := by
  have stream := postgresStreamRevision_words table
  have event := postgresEventId_words table
  have nameStream := postgresConstraintStreamRevision_words table
  have nameEvent := postgresConstraintEventId_words table
  simp only [List.forall_mem_cons, List.not_mem_nil, IsEmpty.forall_iff, implies_true, and_true]
    at stream event nameStream nameEvent ⊢
  simp only [Classifier.Tells, Classifier.saysConflict, Classifier.Unmistaken,
    SqlDialect.violationMessage, SqlDialect.violationCode, isStreamRevisionUniqueViolationMessage,
    postgresStreamRevisionUniqueViolation, isRevisionUniqueViolation,
    EventStoreError.isRetryable, isRetryableBackendConflict,
    EventStoreError.isStreamRevisionUniqueViolationMessage, stream, event, nameStream, nameEvent]
  refine ⟨?_, ?_, ?_, ?_, ?_⟩
  · simp
  · cases mentions (UniqueViolation.streamRevision.tablePart table) "event_id" <;> simp
  · simp
  · simp
  · have kept : mentions (UniqueViolation.streamRevision.tablePart table) "locked" = true →
        mentions (UniqueViolation.eventId.tablePart table) "locked" = true :=
      mentions_of_prefix (tablePart_opens table)
    revert kept
    cases mentions (UniqueViolation.streamRevision.tablePart table) "locked" <;>
      cases mentions (UniqueViolation.eventId.tablePart table) "locked" <;> simp

end Tells

/-- Each test tells the two constraints apart exactly where no other text of the message holds
the words it goes by. -/
theorem classifiers_exact (classifier : Classifier) (table streamEntry eventEntry : String) :
    classifier.Tells table streamEntry eventEntry ↔
      classifier.Unmistaken table streamEntry eventEntry := by
  cases classifier with
  | postgresConstraint => exact tells_postgres table streamEntry eventEntry _ (by simp)
  | postgresMessage => exact tells_postgres table streamEntry eventEntry _ (by simp)
  | mysqlMessage => exact tells_mysql table streamEntry eventEntry _ (by simp)
  | message dialect =>
    cases dialect with
    | sqlite => exact tells_sqlite table streamEntry eventEntry _ (by simp)
    | postgres => exact tells_postgres table streamEntry eventEntry _ (by simp)
    | mysql => exact tells_mysql table streamEntry eventEntry _ (by simp)
  | http dialect =>
    cases dialect with
    | sqlite => exact tells_sqlite table streamEntry eventEntry _ (by simp)
    | postgres => exact tells_postgres table streamEntry eventEntry _ (by simp)
    | mysql => exact tells_mysql table streamEntry eventEntry _ (by simp)
  | retryable dialect =>
    cases dialect with
    | sqlite => exact tells_sqlite table streamEntry eventEntry _ (by simp)
    | postgres => exact tells_postgres table streamEntry eventEntry _ (by simp)
    | mysql => exact tells_mysql table streamEntry eventEntry _ (by simp)

/-- Valid names under which a conflict is taken for a duplicate event id, or a duplicate event
id for a conflict. A conflict on MySQL is not retryable even under the default name. -/
theorem eventIdLog_misread :
    (¬ ∀ (classifier : Classifier) (table streamEntry eventEntry : String),
      validateTableName table = .ok () → classifier.Tells table streamEntry eventEntry) ∧
      (∀ table ∈ ["event_id_log", "aggregate_events", "locked_events", "events"],
        validateTableName table = .ok ()) ∧
      (Classifier.message .sqlite).saysConflict "event_id_log" "" .streamRevision = false ∧
      (Classifier.http .sqlite).saysConflict "aggregate_events" "" .eventId = true ∧
      (Classifier.retryable .sqlite).saysConflict "locked_events" "" .eventId = true ∧
      (Classifier.retryable .mysql).saysConflict "events" "Account-1-2" .streamRevision = false := by
  have missed :
      (Classifier.message .sqlite).saysConflict "event_id_log" "" .streamRevision = false := by
    decide
  refine ⟨?_, by decide, missed, by decide, by decide, by decide⟩
  intro told
  have said := (told (.message .sqlite) "event_id_log" "" "" (by decide)).1
  rw [missed] at said
  cases said

end DddCqrsEs
