import DddCqrsEs.Aggregate
import DddCqrsEs.LineLog
import DddCqrsEs.Transition
import Mathlib.Data.List.Sort

/- The JSON-file event store: every call reads the whole file, and an append either
rewrites it through a rename or adds lines at its end. The file is its bytes, so that a
crash can cut a write anywhere. -/
namespace DddCqrsEs

abbrev Text := List Char

/-- The JSON library: the values, their text and how they are inspected. -/
structure Json where
  Value : Type
  fromStr : Text → Except String Value
  arrayFromStr : Text → Except String (List Value)
  toString : Value → Except String Text
  get : Value → String → Option Value
  asStr : Value → Option String
  asU64 : Value → Option Nat

/-- The serialization derived for the identifiers and envelopes of an aggregate type. -/
structure JsonCodec (J : Json) (A : Aggregate) where
  idFromValue : J.Value → Except String A.Id
  envelopeFromValue : J.Value → Except String (EventEnvelope A.Event A.Id)
  envelopeToString : EventEnvelope A.Event A.Id → Except String Text

/-- The characters `trim` removes. -/
def isWhitespace (c : Char) : Bool :=
  let code := c.toNat
  (9 ≤ code && code ≤ 13) || code = 0x20 || code = 0x85 || code = 0xA0 || code = 0x1680 ||
    (0x2000 ≤ code && code ≤ 0x200A) || code = 0x2028 || code = 0x2029 || code = 0x202F ||
    code = 0x205F || code = 0x3000

def isBlank (line : Text) : Bool := line.all isWhitespace

def startsWithArray (content : Text) : Bool :=
  (content.dropWhile isWhitespace).head? = some '['

def utf8 (text : Text) : ByteArray := (String.ofList text).toByteArray

theorem utf8_eq (text : Text) : utf8 text = text.utf8Encode := by
  rw [utf8, String.toByteArray_ofList]

theorem utf8_append (first second : Text) : utf8 (first ++ second) = utf8 first ++ utf8 second := by
  simp only [utf8_eq, List.utf8Encode_append]

theorem utf8_injective {first second : Text} (same : utf8 first = utf8 second) :
    first = second := by
  rw [utf8_eq, utf8_eq] at same
  have decoded := congrArg ByteArray.utf8Decode? same
  rw [List.utf8Decode?_utf8Encode, List.utf8Decode?_utf8Encode] at decoded
  exact List.toArray_inj (Option.some.inj decoded)

/-- Bytes cut off a text that are UTF-8 again are those of a prefix of the text. -/
theorem utf8_cut {text : Text} {cut : Nat} (whole : ((utf8 text).extract 0 cut).IsValidUTF8) :
    ∃ kept, kept <+: text ∧ (utf8 text).extract 0 cut = utf8 kept := by
  obtain ⟨kept, same⟩ := whole
  refine ⟨kept, ?_, same.trans (utf8_eq kept).symm⟩
  apply List.isPrefix_of_utf8Encode_append_eq_utf8Encode
    ((utf8 text).extract cut (utf8 text).size)
  rw [← same, ByteArray.extract_append_extract, Nat.min_eq_left (Nat.zero_le cut), ← utf8_eq]
  exact ByteArray.extract_zero_max_size

def readToString (bytes : ByteArray) : Except EventStoreError Text :=
  match bytes.utf8Decode? with
  | some content => .ok content.toList
  | none => .error (.backend "stream did not contain valid UTF-8" none)

@[simp] theorem readToString_utf8 (text : Text) : readToString (utf8 text) = .ok text := by
  rw [readToString, utf8_eq, List.utf8Decode?_utf8Encode]

def parseJsonLines (J : Json) (content : Text) : Except EventStoreError (List J.Value) :=
  let lines := (LineLog.lines content).filter (fun line => !isBlank line)
  (LineLog.readRecords J.fromStr lines).mapError
    (fun error => .deserialization ("invalid JSON line: " ++ error) none)

/-- Every stored envelope as raw JSON; a missing file has none. -/
def readEventValues (J : Json) : Option ByteArray → Except EventStoreError (List J.Value)
  | none => .ok []
  | some bytes => do
      let content ← readToString bytes
      if startsWithArray content then
        (J.arrayFromStr content).mapError (fun error => .deserialization error none)
      else parseJsonLines J content

def fileIsLegacyArray : Option ByteArray → Except EventStoreError Bool
  | none => .ok false
  | some bytes => (readToString bytes).map startsWithArray

def jsonLinesFromValues (J : Json) (values : List J.Value) : Except EventStoreError Text :=
  ((values.mapM J.toString).mapError (fun error => .serialization error none)).map
    LineLog.unlines

/-- The write an append makes: a temporary file renamed over the old one, or bytes added
at the end of the file in place. -/
inductive FileWrite where
  | replace (content : Text)
  | extend (buffer : Text)
  deriving DecidableEq

def appendEventLines (J : Json) (file : Option ByteArray) (existing : List J.Value)
    (newLines : List Text) : Except EventStoreError FileWrite := do
  if (← fileIsLegacyArray file) || file.isNone then
    let added ←
      (newLines.mapM J.fromStr).mapError (fun error => EventStoreError.serialization error none)
    let content ← jsonLinesFromValues J (existing ++ added)
    return .replace content
  else return .extend (LineLog.unlines newLines)

/-- The file once the write is done. -/
def FileWrite.complete (file : Option ByteArray) : FileWrite → Option ByteArray
  | .replace content => some (utf8 content)
  | .extend buffer => some (file.getD .empty ++ utf8 buffer)

/-- The file a crash leaves: added bytes are there up to the cut, and a replaced file is the
new one as a whole or not at all. -/
def FileWrite.interrupted (file : Option ByteArray) (cut : Nat) (renamed : Bool) :
    FileWrite → Option ByteArray
  | .replace content => if renamed then some (utf8 content) else file
  | .extend buffer => some (file.getD .empty ++ (utf8 buffer).extract 0 cut)

section Store

variable {J : Json} {A : Aggregate} (codec : JsonCodec J A)

/-- The identifier of a value of this aggregate type; other values have none here. -/
def ownId (value : J.Value) : Except EventStoreError (Option A.Id) :=
  match (J.get value "aggregate_type").bind J.asStr with
  | none => .ok none
  | some name =>
    if name = A.aggregateType then
      match J.get value "aggregate_id" with
      | none => .error (.deserialization "missing aggregate_id" none)
      | some idValue =>
        match codec.idFromValue idValue with
        | .error error =>
          .error (.deserialization ("failed to deserialize aggregate_id: " ++ error) none)
        | .ok id => .ok (some id)
    else .ok none

variable [DecidableEq A.Id]

/-- The envelopes of one stream, in file order. -/
def streamEnvelopes (aggregateId : A.Id) :
    List J.Value → Except EventStoreError (EventStream A)
  | [] => .ok []
  | value :: rest => do
      if (← ownId codec value) = some aggregateId then
        let envelope ← (codec.envelopeFromValue value).mapError
          (fun error => EventStoreError.deserialization
            ("failed to deserialize event envelope: " ++ error) none)
        return envelope :: (← streamEnvelopes aggregateId rest)
      else streamEnvelopes aggregateId rest

def JsonCodec.load (file : Option ByteArray) (aggregateId : A.Id) :
    Except EventStoreError (EventStream A) := do
  let values ← readEventValues J file
  let envelopes ← streamEnvelopes codec aggregateId values
  return envelopes.insertionSort (fun a b => a.revision ≤ b.revision)

/-- The highest revision of the stream and the highest sequence of the file. -/
structure Scan where
  currentRevision : Nat
  maxSequence : Nat

def Scan.push (aggregateId : A.Id) (scan : Scan) (value : J.Value) :
    Except EventStoreError Scan := do
  let sequence := ((J.get value "sequence").bind J.asU64).getD 0
  let maxSequence := max scan.maxSequence sequence
  if (← ownId codec value) = some aggregateId then
    match J.get value "revision" with
    | none => .error (.deserialization "missing revision" none)
    | some revision =>
      match J.asU64 revision with
      | none => .error (.deserialization "revision is not a valid u64" none)
      | some revision => .ok ⟨max scan.currentRevision revision, maxSequence⟩
  else .ok ⟨scan.currentRevision, maxSequence⟩

def newEnvelopes (aggregateId : A.Id) (scan : Scan) (events : List (NewEvent A.Event × Stamp)) :
    EventStream A :=
  events.zipIdx.map (fun (event, index) =>
    EventEnvelope.commit aggregateId (scan.currentRevision + index + 1)
      (some (scan.maxSequence + index + 1)) event.1 event.2)

/-- What an append returns once its write is done, and that write. -/
def JsonCodec.append (file : Option ByteArray) (aggregateId : A.Id)
    (expectedRevision : ExpectedRevision) (events : List (NewEvent A.Event × Stamp)) :
    Except EventStoreError (EventStream A × Option FileWrite) := do
  let allValues ← readEventValues J file
  let scan ← allValues.foldlM (Scan.push codec aggregateId) ⟨0, 0⟩
  -- the source repeats this check as a match of its own
  checkExpectedRevision expectedRevision scan.currentRevision
  if events.isEmpty then return ([], none)
  let envelopes := newEnvelopes aggregateId scan events
  let newLines ← (envelopes.mapM codec.envelopeToString).mapError
    (fun error => EventStoreError.serialization error none)
  let write ← appendEventLines J file allValues newLines
  return (envelopes, some write)

end Store

/-- The aggregate types whose stores share a file. Their names tell them apart. -/
structure AggregateTypes (ι : Type) where
  aggregate : ι → Aggregate
  distinct : ∀ i j, (aggregate i).aggregateType = (aggregate j).aggregateType → i = j

variable {ι : Type}

/-- An envelope of one of the aggregate types. -/
abbrev AggregateTypes.Entry (types : AggregateTypes ι) : Type :=
  Σ i, EventEnvelope (types.aggregate i).Event (types.aggregate i).Id

def AggregateTypes.ofType [DecidableEq ι] (types : AggregateTypes ι) (i : ι)
    (entry : types.Entry) :
    Option (EventEnvelope (types.aggregate i).Event (types.aggregate i).Id) :=
  if same : entry.1 = i then some (same ▸ entry.2) else none

/-- The events of one stream among the entries. -/
def AggregateTypes.stream [DecidableEq ι] (types : AggregateTypes ι) (i : ι)
    [DecidableEq (types.aggregate i).Id] (aggregateId : (types.aggregate i).Id)
    (entries : List types.Entry) : EventStream (types.aggregate i) :=
  (entries.filterMap (types.ofType i)).filter (fun envelope => envelope.aggregateId = aggregateId)

def AggregateTypes.tagged (types : AggregateTypes ι) (i : ι)
    (envelopes : EventStream (types.aggregate i)) : List types.Entry :=
  envelopes.map (fun envelope => ⟨i, envelope⟩)

structure JsonFileState (types : AggregateTypes ι) where
  file : Option ByteArray
  /-- The envelopes of every append that returned. -/
  acknowledged : List types.Entry

/-- One append by the store of an aggregate type, to its end or into a crash. Opening a store
again touches nothing. -/
inductive JsonFileAction (types : AggregateTypes ι) where
  | append (i : ι) (aggregateId : (types.aggregate i).Id) (expectedRevision : ExpectedRevision)
      (events : List (NewEvent (types.aggregate i).Event × Stamp))
  | crash (i : ι) (aggregateId : (types.aggregate i).Id) (expectedRevision : ExpectedRevision)
      (events : List (NewEvent (types.aggregate i).Event × Stamp)) (cut : Nat) (renamed : Bool)

section Machine

variable {J : Json} {types : AggregateTypes ι} [∀ i, DecidableEq (types.aggregate i).Id]
  (codec : ∀ i, JsonCodec J (types.aggregate i))

def JsonFileState.step (state : JsonFileState types) : JsonFileAction types → JsonFileState types
  | .append i aggregateId expectedRevision events =>
    match (codec i).append state.file aggregateId expectedRevision events with
    | .error _ => state
    | .ok (_, none) => state
    | .ok (stream, some write) =>
      ⟨write.complete state.file, state.acknowledged ++ types.tagged i stream⟩
  | .crash i aggregateId expectedRevision events cut renamed =>
    match (codec i).append state.file aggregateId expectedRevision events with
    | .error _ => state
    | .ok (_, none) => state
    | .ok (_, some write) =>
      { state with file := write.interrupted state.file cut renamed }

variable {codec} (state : JsonFileState types) {i : ι} {aggregateId : (types.aggregate i).Id}
  {expectedRevision : ExpectedRevision}
  {events : List (NewEvent (types.aggregate i).Event × Stamp)}
  {envelopes : EventStream (types.aggregate i)} {write : FileWrite}

theorem JsonFileState.step_append
    (appended : (codec i).append state.file aggregateId expectedRevision events =
      .ok (envelopes, some write)) :
    state.step codec (.append i aggregateId expectedRevision events) =
      ⟨write.complete state.file, state.acknowledged ++ types.tagged i envelopes⟩ := by
  rw [JsonFileState.step, appended]

theorem JsonFileState.step_crash (cut : Nat) (renamed : Bool)
    (appended : (codec i).append state.file aggregateId expectedRevision events =
      .ok (envelopes, some write)) :
    state.step codec (.crash i aggregateId expectedRevision events cut renamed) =
      ⟨write.interrupted state.file cut renamed, state.acknowledged⟩ := by
  rw [JsonFileState.step, appended]

end Machine

end DddCqrsEs
