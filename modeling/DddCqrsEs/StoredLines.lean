import DddCqrsEs.JsonFile
import Mathlib.Data.Char
import Mathlib.Data.List.Lex

/- What the file of a JSON-file event store holds: the entries on its lines and in its tail,
what loading makes of them, and which lines a call prints for new ones. -/
namespace DddCqrsEs

variable {J : Json} {A : Aggregate}

/-- A value that the store reads as an envelope of its own. -/
structure Holds (codec : JsonCodec J A) (value : J.Value)
    (envelope : EventEnvelope A.Event A.Id) : Prop where
  aggregateType : (J.get value "aggregate_type").bind J.asStr = some A.aggregateType
  aggregateId : ∃ idValue, J.get value "aggregate_id" = some idValue ∧
    codec.idFromValue idValue = .ok envelope.aggregateId
  envelope : codec.envelopeFromValue value = .ok envelope

/-- A line that is a JSON object with an envelope in it. -/
structure EnvelopeLine (codec : JsonCodec J A) (line : Text)
    (envelope : EventEnvelope A.Event A.Id) : Prop where
  isRecord : LineLog.IsRecord line
  opens : line.head? = some '\x7b'
  closes : line.getLast? = some '\x7d'
  parsed : ∃ value, J.fromStr line = .ok value ∧ Holds codec value envelope

variable {ι : Type} {types : AggregateTypes ι}

/-- What the store relies on: compact JSON of an envelope is one line that reads back as the
envelope, rewriting a value keeps what it holds, and an object without its end is no JSON.
Events with `f64` fields are outside: without `float_roundtrip` a number is not always read
back as it was printed. -/
structure Serializes (codec : ∀ i, JsonCodec J (types.aggregate i)) : Prop where
  line : ∀ i envelope line, envelope.aggregateType = (types.aggregate i).aggregateType →
    (codec i).envelopeToString envelope = .ok line → EnvelopeLine (codec i) line envelope
  rewritten : ∀ i value envelope line, Holds (codec i) value envelope →
    J.toString value = .ok line → EnvelopeLine (codec i) line envelope
  fragment : ∀ i line envelope fragment, EnvelopeLine (codec i) line envelope →
    fragment <+: line → fragment ≠ line → ∃ error, J.fromStr fragment = .error error

theorem isWhitespace_brace : isWhitespace '\x7b' = false := by decide

variable {line tail : Text} {extra entries : List types.Entry} {records newLines : List Text}
  {values : List J.Value}

theorem EnvelopeLine.notBlank {codec : JsonCodec J A} {envelope : EventEnvelope A.Event A.Id}
    (holds : EnvelopeLine codec line envelope) : isBlank line = false := by
  have opens := holds.opens
  cases line with
  | nil => cases opens
  | cons c rest =>
    have first : c = '\x7b' := Option.some.inj opens
    rw [first, isBlank, List.all_cons, isWhitespace_brace, Bool.false_and]

section File

variable (codec : ∀ i, JsonCodec J (types.aggregate i))

def HoldsEntry (value : J.Value) (entry : types.Entry) : Prop :=
  Holds (codec entry.1) value entry.2

def EntryLine (line : Text) (entry : types.Entry) : Prop :=
  EnvelopeLine (codec entry.1) line entry.2

/-- What can stand after the last newline, with the entries that a reader finds there. -/
inductive Tail : Text → List types.Entry → Prop
  | clean : Tail [] []
  | unended {line : Text} {entry : types.Entry} : EntryLine codec line entry → Tail line [entry]
  | torn {fragment line : Text} {entry : types.Entry} : EntryLine codec line entry →
      fragment <+: line → fragment ≠ line → fragment ≠ [] → Tail fragment []

/-- The entries a file holds, in file order. -/
inductive Stored : Option ByteArray → List types.Entry → Prop
  | missing : Stored none []
  | legacy {content : Text} {values : List J.Value} {entries : List types.Entry} :
      startsWithArray content = true → J.arrayFromStr content = .ok values →
      List.Forall₂ (HoldsEntry codec) values entries → Stored (some (utf8 content)) entries
  | lines {records : List Text} {tail : Text} {entries extra : List types.Entry} :
      List.Forall₂ (EntryLine codec) records entries → Tail codec tail extra →
      Stored (some (utf8 (LineLog.unlines records ++ tail))) (entries ++ extra)

end File

variable {codec : ∀ i, JsonCodec J (types.aggregate i)}

theorem Tail.noNewline (kept : Tail codec tail extra) : '\n' ∉ tail := by
  cases kept with
  | clean => exact List.not_mem_nil
  | unended holds => exact holds.isRecord.newline
  | torn holds cut => exact fun member => holds.isRecord.newline (cut.subset member)

theorem Tail.opens (kept : Tail codec tail extra) : tail = [] ∨ tail.head? = some '\x7b' := by
  cases kept with
  | clean => exact .inl rfl
  | unended holds => exact .inr holds.opens
  | torn holds cut other some_text =>
    right
    obtain ⟨rest, rfl⟩ := cut
    have opens := holds.opens
    cases tail with
    | nil => exact absurd rfl some_text
    | cons c tail => exact opens

theorem records_isRecord (hold : List.Forall₂ (EntryLine codec) records entries) :
    ∀ record ∈ records, LineLog.IsRecord record := by
  induction hold with
  | nil => exact fun _ member => absurd member List.not_mem_nil
  | cons holds _ ih => exact List.forall_mem_cons.mpr ⟨holds.isRecord, ih⟩

theorem filter_notBlank (hold : List.Forall₂ (EntryLine codec) records entries) (rest : List Text) :
    (records ++ rest).filter (fun line => !isBlank line) =
      records ++ rest.filter (fun line => !isBlank line) := by
  induction hold with
  | nil => rfl
  | cons holds _ ih =>
    rw [List.cons_append, List.filter_cons_of_pos, ih, List.cons_append]
    rw [holds.notBlank]
    rfl

theorem records_parse (hold : List.Forall₂ (EntryLine codec) records entries) :
    ∃ values, List.Forall₂ (fun record value => J.fromStr record = .ok value) records values ∧
      List.Forall₂ (HoldsEntry codec) values entries := by
  induction hold with
  | nil => exact ⟨[], .nil, .nil⟩
  | cons holds _ ih =>
    obtain ⟨value, parsed, held⟩ := holds.parsed
    obtain ⟨values, allParsed, allHeld⟩ := ih
    exact ⟨value :: values, .cons parsed allParsed, .cons held allHeld⟩

/-- The lines of a tail read as the entries it counts for: a torn line is skipped. -/
theorem Tail.read (serializes : Serializes codec) (kept : Tail codec tail extra) :
    ∃ values, LineLog.readRecords J.fromStr
        ((if tail = [] then [] else [tail]).filter (fun line => !isBlank line)) = .ok values ∧
      List.Forall₂ (HoldsEntry codec) values extra := by
  cases kept with
  | clean => exact ⟨[], rfl, .nil⟩
  | unended holds =>
    obtain ⟨value, parsed, held⟩ := holds.parsed
    refine ⟨[value], ?_, .cons held .nil⟩
    have some_text : tail ≠ [] := by
      intro empty
      have opens := holds.opens
      rw [empty] at opens
      cases opens
    rw [if_neg some_text, List.filter_cons_of_pos (by rw [holds.notBlank]; rfl), List.filter_nil,
      LineLog.readRecords, parsed]
    rfl
  | @torn fragment line entry holds cut other some_text =>
    obtain ⟨error, refused⟩ := serializes.fragment _ _ _ _ holds cut other
    refine ⟨[], ?_, .nil⟩
    rw [if_neg some_text, List.filter_cons, List.filter_nil]
    split
    · rw [LineLog.readRecords, refused]
      rfl
    · rfl

theorem lines_notArray (hold : List.Forall₂ (EntryLine codec) records entries)
    (kept : Tail codec tail extra) : startsWithArray (LineLog.unlines records ++ tail) = false := by
  have opens : LineLog.unlines records ++ tail = [] ∨
      (LineLog.unlines records ++ tail).head? = some '\x7b' := by
    cases hold with
    | nil => exact kept.opens
    | @cons record entry records entries holds _ =>
      right
      have first := holds.opens
      rw [LineLog.unlines_cons]
      cases record with
      | nil => cases first
      | cons c record => exact first
  rcases opens with empty | first
  · rw [empty]
    rfl
  · generalize LineLog.unlines records ++ tail = content at first
    cases content with
    | nil => cases first
    | cons c content =>
      have brace : c = '\x7b' := Option.some.inj first
      rw [brace, startsWithArray, List.dropWhile_cons, isWhitespace_brace]
      rfl

/-- Every stored file is read, torn tail or not. -/
theorem Stored.read (serializes : Serializes codec) {file : Option ByteArray}
    (stored : Stored codec file entries) :
    ∃ values, readEventValues J file = .ok values ∧
      List.Forall₂ (HoldsEntry codec) values entries := by
  cases stored with
  | missing => exact ⟨[], rfl, .nil⟩
  | @legacy content values entries isArray parsed held =>
    refine ⟨values, ?_, held⟩
    rw [readEventValues, readToString_utf8]
    show (if startsWithArray content then _ else _) = _
    rw [if_pos isArray, parsed]
    rfl
  | @lines records tail entries extra hold kept =>
    obtain ⟨values, parsed, held⟩ := records_parse hold
    obtain ⟨more, readTail, heldTail⟩ := kept.read serializes
    refine ⟨values ++ more, ?_, List.rel_append held heldTail⟩
    rw [readEventValues, readToString_utf8]
    show (if startsWithArray (LineLog.unlines records ++ tail) then _ else _) = _
    rw [if_neg (by rw [lines_notArray hold kept]; exact Bool.false_ne_true), parseJsonLines,
      LineLog.lines_unlines (records_isRecord hold) kept.noNewline, filter_notBlank hold,
      LineLog.readRecords_append parsed, readTail]
    rfl

theorem Holds.ownId {codec : JsonCodec J A} {value : J.Value}
    {envelope : EventEnvelope A.Event A.Id} (held : Holds codec value envelope) :
    DddCqrsEs.ownId codec value = .ok (some envelope.aggregateId) := by
  obtain ⟨idValue, present, decoded⟩ := held.aggregateId
  rw [DddCqrsEs.ownId, held.aggregateType]
  dsimp only
  rw [if_pos rfl, present]
  dsimp only
  rw [decoded]

theorem HoldsEntry.foreignId {value : J.Value} {entry : types.Entry} {i : ι}
    (held : HoldsEntry codec value entry) (other : entry.1 ≠ i) :
    ownId (codec i) value = .ok none := by
  have differs : (types.aggregate entry.1).aggregateType ≠ (types.aggregate i).aggregateType :=
    fun same => other (types.distinct _ _ same)
  rw [ownId, held.aggregateType]
  dsimp only
  rw [if_neg differs]

section Load

variable [DecidableEq ι] [∀ i, DecidableEq (types.aggregate i).Id]

theorem stream_cons_own (i : ι) (aggregateId : (types.aggregate i).Id)
    (envelope : EventEnvelope (types.aggregate i).Event (types.aggregate i).Id)
    (entries : List types.Entry) :
    types.stream i aggregateId (⟨i, envelope⟩ :: entries) =
      if envelope.aggregateId = aggregateId then envelope :: types.stream i aggregateId entries
      else types.stream i aggregateId entries := by
  have own : types.ofType i ⟨i, envelope⟩ = some envelope := dif_pos rfl
  rw [AggregateTypes.stream, List.filterMap_cons_some own, List.filter_cons]
  simp only [decide_eq_true_eq]
  rfl

theorem stream_cons_other {i : ι} {entry : types.Entry} (other : entry.1 ≠ i)
    (aggregateId : (types.aggregate i).Id) (entries : List types.Entry) :
    types.stream i aggregateId (entry :: entries) = types.stream i aggregateId entries := by
  have none : types.ofType i entry = none := dif_neg other
  rw [AggregateTypes.stream, List.filterMap_cons_none none]
  rfl

/-- Decoding the values of a file gives the stream among its entries. -/
theorem streamEnvelopes_stream {values : List J.Value}
    (held : List.Forall₂ (HoldsEntry codec) values entries) (i : ι)
    (aggregateId : (types.aggregate i).Id) :
    streamEnvelopes (codec i) aggregateId values = .ok (types.stream i aggregateId entries) := by
  induction held with
  | nil => rfl
  | @cons value entry values entries head _ ih =>
    rw [streamEnvelopes]
    by_cases same : entry.1 = i
    · obtain ⟨j, envelope⟩ := entry
      have same : j = i := same
      subst same
      have head : Holds (codec j) value envelope := head
      rw [head.ownId, stream_cons_own]
      show (if some envelope.aggregateId = some aggregateId then _ else _) = _
      by_cases here : envelope.aggregateId = aggregateId
      · rw [if_pos (congrArg some here), if_pos here, head.envelope, ih]
        rfl
      · rw [if_neg (fun equal => here (Option.some.inj equal)), if_neg here, ih]
    · rw [head.foreignId same, stream_cons_other same]
      exact ih

theorem Stored.load (serializes : Serializes codec) {file : Option ByteArray}
    (stored : Stored codec file entries) (i : ι) (aggregateId : (types.aggregate i).Id) :
    (codec i).load file aggregateId = .ok
      ((types.stream i aggregateId entries).insertionSort (fun a b => a.revision ≤ b.revision)) := by
  obtain ⟨values, read, held⟩ := stored.read serializes
  rw [JsonCodec.load, read]
  show streamEnvelopes (codec i) aggregateId values >>= _ = _
  rw [streamEnvelopes_stream held]
  rfl

end Load

theorem envelopes_hold (serializes : Serializes codec) {i : ι}
    {envelopes : EventStream (types.aggregate i)}
    (typed : ∀ envelope ∈ envelopes, envelope.aggregateType = (types.aggregate i).aggregateType)
    (written : List.Forall₂
      (fun envelope line => (codec i).envelopeToString envelope = .ok line) envelopes newLines) :
    List.Forall₂ (EntryLine codec) newLines (types.tagged i envelopes) := by
  induction written with
  | nil => exact .nil
  | @cons envelope line envelopes newLines text _ ih =>
    rw [List.forall_mem_cons] at typed
    exact .cons (serializes.line i envelope line typed.1 text) (ih typed.2)

theorem added_hold {added : List J.Value} (hold : List.Forall₂ (EntryLine codec) newLines entries)
    (parsed : List.Forall₂ (fun line value => J.fromStr line = .ok value) newLines added) :
    List.Forall₂ (HoldsEntry codec) added entries := by
  induction hold generalizing added with
  | nil =>
    cases parsed
    exact .nil
  | cons holds _ ih =>
    cases parsed with
    | cons first later =>
      obtain ⟨value, same, held⟩ := holds.parsed
      cases first.symm.trans same
      exact .cons held (ih later)

theorem rewritten_hold (serializes : Serializes codec)
    (held : List.Forall₂ (HoldsEntry codec) values entries)
    (written : List.Forall₂ (fun value record => J.toString value = .ok record) values records) :
    List.Forall₂ (EntryLine codec) records entries := by
  induction held generalizing records with
  | nil =>
    cases written
    exact .nil
  | cons head _ ih =>
    cases written with
    | cons first later =>
      exact .cons (serializes.rewritten _ _ _ _ head first) (ih later)

theorem newEnvelopes_aggregateType (i : ι) (aggregateId : (types.aggregate i).Id) (scan : Scan)
    (events : List (NewEvent (types.aggregate i).Event × Stamp)) :
    ∀ envelope ∈ newEnvelopes aggregateId scan events,
      envelope.aggregateType = (types.aggregate i).aggregateType := by
  intro envelope member
  rw [newEnvelopes] at member
  obtain ⟨indexed, _, rfl⟩ := List.mem_map.mp member
  rfl

theorem jsonLinesFromValues_hold (serializes : Serializes codec) {content : Text}
    (held : List.Forall₂ (HoldsEntry codec) values entries)
    (printed : jsonLinesFromValues J values = .ok content) :
    ∃ records, content = LineLog.unlines records ∧
      List.Forall₂ (EntryLine codec) records entries := by
  rw [jsonLinesFromValues] at printed
  obtain ⟨records, written, same⟩ := ok_of_bind printed
  refine ⟨records, (Except.ok.inj same).symm, ?_⟩
  exact rewritten_hold serializes held (forall₂_of_mapM_ok (ok_of_mapError written))

def quoted (text : String) : Text := '"' :: text.toList ++ ['"']

def objectField (field : String × Text) : Text := quoted field.1 ++ ':' :: field.2

def object (fields : List (String × Text)) : Text :=
  '\x7b' :: [','].intercalate (fields.map objectField) ++ ['\x7d']

/-- An object as `toString` prints it, with its fields in the order of their names. -/
def sortedObject (fields : List (String × Text)) : Text :=
  object (fields.insertionSort (fun first second => first.1.toList ≤ second.1.toList))

def array (values : List Text) : Text := '[' :: [','].intercalate values ++ [']']

def number (n : Nat) : Text := Nat.toDigits 10 n

def null : Text := "null".toList

abbrev AccountEnvelope := EventEnvelope Aggregate.account.Event Aggregate.account.Id

/-- The compact JSON of an envelope whose texts need no escapes. -/
def envelopeText (object : List (String × Text) → Text) (envelope : AccountEnvelope) : Text :=
  object [("event_id", quoted envelope.eventId),
    ("aggregate_id", quoted envelope.aggregateId),
    ("aggregate_type", quoted envelope.aggregateType),
    ("revision", number envelope.revision),
    ("sequence", (envelope.sequence.map number).getD null),
    ("event_type", quoted envelope.eventType),
    ("event_version", number envelope.eventVersion),
    ("payload", null),
    ("metadata", object [("correlation_id", null), ("causation_id", null), ("actor_id", null),
      ("tenant_id", null), ("request_id", null), ("headers", object [])]),
    ("recorded_at", object [("secs_since_epoch", number 0), ("nanos_since_epoch", number 0)])]

/-- The line of an envelope, its fields in the order in which they are declared. -/
def accountLine (envelope : AccountEnvelope) : Text := envelopeText object envelope

/-- The line once it was read and printed again. -/
def rewrittenLine (envelope : AccountEnvelope) : Text := envelopeText sortedObject envelope

/-- Two kinds of account, which only the name of their type tells apart. -/
inductive AccountKind where
  | current
  | savings
  deriving DecidableEq

def AccountKind.aggregateType : AccountKind → String
  | current => "account"
  | savings => "savings_account"

/-- Both kinds in one file. -/
def accounts : AggregateTypes AccountKind where
  aggregate kind := { Aggregate.account with aggregateType := kind.aggregateType }
  distinct first second same := by
    cases first <;> cases second <;> first | rfl | exact absurd same (by decide)

instance (kind : AccountKind) : DecidableEq (accounts.aggregate kind).Id :=
  inferInstanceAs (DecidableEq String)

instance (kind : AccountKind) : DecidableEq (accounts.aggregate kind).Event :=
  inferInstanceAs (DecidableEq Unit)

def newAccount : NewEvent Aggregate.account.Event := ⟨(), "account_opened", 1, .empty⟩

def accountOpened (kind : AccountKind) (eventId aggregateId : String) (revision sequence : Nat) :
    AccountEnvelope :=
  @EventEnvelope.commit (accounts.aggregate kind) aggregateId revision (some sequence) newAccount
    ⟨eventId, 0⟩

def accountEvents : List AccountEnvelope :=
  [accountOpened .current "e1" "a" 1 1, accountOpened .current "e2" "b" 1 2,
    accountOpened .current "e3" "c" 1 2, accountOpened .savings "e2" "a" 1 2,
    accountOpened .current "e3" "a" 2 3, accountOpened .savings "e4" "b" 1 4,
    accountOpened .savings "e5" "b" 2 5]

def accountLines : List (Text × AccountEnvelope) :=
  accountEvents.map (fun envelope => (accountLine envelope, envelope)) ++
    accountEvents.map (fun envelope => (rewrittenLine envelope, envelope))

/-- The events of a file from before lines were kept. -/
def legacyEvents : List AccountEnvelope :=
  [accountOpened .current "e1" "a" 1 1, accountOpened .savings "e2" "a" 1 2]

def legacyArray : Text := array (legacyEvents.map accountLine)

inductive AccountValue where
  | envelope (envelope : AccountEnvelope)
  | text (text : String)
  | number (n : Nat)
  deriving DecidableEq

def printAccount (print : AccountEnvelope → Text) (envelope : AccountEnvelope) :
    Except String Text :=
  if envelope ∈ accountEvents then .ok (print envelope) else .error "not in the table"

def readAccount (line : Text) : Except String AccountValue :=
  match accountLines.find? (fun printed => printed.1 = line) with
  | some printed => .ok (.envelope printed.2)
  | none => .error "expected value"

def accountJson : Json where
  Value := AccountValue
  fromStr := readAccount
  arrayFromStr text :=
    if text = legacyArray then .ok (legacyEvents.map .envelope) else .error "expected value"
  toString
    | .envelope envelope => printAccount rewrittenLine envelope
    | _ => .error "not in the table"
  get value field :=
    match value, field with
    | .envelope envelope, "aggregate_type" => some (.text envelope.aggregateType)
    | .envelope envelope, "aggregate_id" => some (.text envelope.aggregateId)
    | .envelope envelope, "revision" => some (.number envelope.revision)
    | .envelope envelope, "sequence" => envelope.sequence.map .number
    | _, _ => none
  asStr
    | .text text => some text
    | _ => none
  asU64
    | .number n => some n
    | _ => none

def accountCodecs (kind : AccountKind) : JsonCodec accountJson (accounts.aggregate kind) where
  idFromValue
    | .text text => .ok text
    | _ => .error "expected a string"
  envelopeFromValue
    | .envelope envelope => .ok envelope
    | _ => .error "expected an object"
  envelopeToString := printAccount accountLine

variable {printed : Text × AccountEnvelope} {kind : AccountKind}

theorem accountLines_printed : ∀ printed ∈ accountLines,
    '\n' ∉ printed.1 ∧ '\r' ∉ printed.1 ∧ printed.1.head? = some '\x7b' ∧
      printed.1.getLast? = some '\x7d' := by
  decide +kernel

theorem accountLines_apart : ∀ first ∈ accountLines, ∀ second ∈ accountLines,
    first.1 <+: second.1 → first = second := by
  decide +kernel

theorem readAccount_ok {value : AccountValue} (parsed : readAccount line = .ok value) :
    ∃ printed ∈ accountLines, printed.1 = line ∧ value = .envelope printed.2 := by
  rw [readAccount] at parsed
  split at parsed
  · rename_i printed found
    refine ⟨printed, List.mem_of_find?_eq_some found, ?_, (Except.ok.inj parsed).symm⟩
    simpa using List.find?_some found
  · cases parsed

theorem readAccount_printed (listed : printed ∈ accountLines) :
    readAccount printed.1 = .ok (.envelope printed.2) := by
  rw [readAccount]
  split
  · rename_i found search
    have same : found.1 = printed.1 := by simpa using List.find?_some search
    have prefixed : found.1 <+: printed.1 := by rw [same]
    rw [accountLines_apart found (List.mem_of_find?_eq_some search) printed listed prefixed]
  · rename_i search
    have missing := List.find?_eq_none.mp search printed listed
    simp at missing

theorem accountLines_hold (listed : printed ∈ accountLines)
    (typed : printed.2.aggregateType = kind.aggregateType) :
    EnvelopeLine (accountCodecs kind) printed.1 printed.2 := by
  obtain ⟨newline, carriage, opens, closes⟩ := accountLines_printed printed listed
  refine ⟨⟨newline, carriage⟩, opens, closes, .envelope printed.2, readAccount_printed listed, ?_⟩
  refine ⟨?_, ⟨.text printed.2.aggregateId, rfl, rfl⟩, rfl⟩
  exact congrArg some typed

theorem printAccount_holds {print : AccountEnvelope → Text}
    (listed : ∀ envelope ∈ accountEvents, (print envelope, envelope) ∈ accountLines)
    {envelope : AccountEnvelope} (printed : printAccount print envelope = .ok line)
    (typed : envelope.aggregateType = kind.aggregateType) :
    EnvelopeLine (accountCodecs kind) line envelope := by
  rw [printAccount] at printed
  split at printed
  · rename_i member
    cases printed
    exact accountLines_hold (listed envelope member) typed
  · cases printed

theorem accountLine_listed : ∀ envelope ∈ accountEvents,
    (accountLine envelope, envelope) ∈ accountLines :=
  fun envelope member => List.mem_append_left _ (List.mem_map.mpr ⟨envelope, member, rfl⟩)

theorem rewrittenLine_listed : ∀ envelope ∈ accountEvents,
    (rewrittenLine envelope, envelope) ∈ accountLines :=
  fun envelope member => List.mem_append_right _ (List.mem_map.mpr ⟨envelope, member, rfl⟩)

theorem accountCodecs_serializes : Serializes accountCodecs where
  line _ _ _ typed printed := printAccount_holds accountLine_listed printed typed
  rewritten kind value envelope line held printed := by
    cases value with
    | envelope stored =>
      have typed : stored.aggregateType = kind.aggregateType :=
        Option.some.inj held.aggregateType
      cases held.envelope
      exact printAccount_holds rewrittenLine_listed printed typed
    | text => cases printed
    | number => cases printed
  fragment kind line envelope fragment holds cut other := by
    show ∃ error, readAccount fragment = .error error
    cases parsed : readAccount fragment with
    | error error => exact ⟨error, rfl⟩
    | ok value =>
      obtain ⟨whole, listed, rfl, _⟩ := readAccount_ok parsed
      obtain ⟨_, parsedLine, _⟩ := holds.parsed
      obtain ⟨printed, listedLine, rfl, _⟩ := readAccount_ok parsedLine
      have same := accountLines_apart whole listed printed listedLine cut
      exact absurd (congrArg Prod.fst same) other

end DddCqrsEs
