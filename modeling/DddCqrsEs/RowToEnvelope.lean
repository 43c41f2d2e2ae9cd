import DddCqrsEs.DecimalTexts
import DddCqrsEs.StringIds

/- The decoder that turns a row of the HTTP SQL transports, a JSON object, into an event
envelope. -/
namespace DddCqrsEs

namespace JsonValue

def asStr : JsonValue → Option String
  | .string text => some text
  | _ => none

def asU64 : JsonValue → Option Nat
  | .integer (.ofNat number) => if number < 2 ^ 64 then some number else none
  | _ => none

def asI64 : JsonValue → Option Int
  | .integer number => if inI64 number then some number else none
  | _ => none

end JsonValue

/-- What the JSON library does with the types of an event store. `toJson` writes a cell, and
`clockLimit` is the last millisecond that the system clock can hold. -/
structure EnvelopeSerde (E Id : Type) where
  toJson : JsonValue → String
  payloadFromStr : String → Except String E
  payloadFromValue : JsonValue → Except String E
  metadataFromStr : String → Except String Metadata
  metadataFromValue : JsonValue → Except String Metadata
  idFromStr : String → Except String Id
  idFromValue : JsonValue → Except String Id
  clockLimit : Nat

/-- The columns of a row. -/
abbrev JsonRow := List (String × JsonValue)

inductive JsonDocument where
  | object (row : JsonRow)
  | other (value : JsonValue)

def JsonDocument.asObject : JsonDocument → Except String JsonRow
  | .object row => .ok row
  | .other _ => .error "Row is not a JSON object"

def requiredColumn (found : Option JsonValue) (missing : String) : Except String JsonValue :=
  match found with
  | some value => .ok value
  | none => .error missing

/-- A column that has to hold a string. -/
def textColumn (row : JsonRow) (column : String) : Except String String :=
  match (row.lookup column).bind JsonValue.asStr with
  | some text => .ok text
  | none => .error ("Missing or invalid " ++ column)

/-- A number given as text, or else as a number of the width that is asked for. -/
def numberCell {N : Type} (parse : String → Except String N) (number : JsonValue → Option N)
    (invalid : String) (value : JsonValue) : Except String N :=
  match value.asStr with
  | some text => parse text
  | none =>
    match number value with
    | some number => .ok number
    | none => .error invalid

section Columns

variable {E Id : Type} (serde : EnvelopeSerde E Id) (row : JsonRow)

def readAggregateId : Except String String :=
  match row.lookup "aggregate_id" with
  | some value =>
    match value.asStr with
    | some text => .ok text
    | none => .ok (serde.toJson value)
  | none => .error "Missing or invalid aggregate_id"

def readRevision : Except String Nat := do
  let value ← requiredColumn (row.lookup "revision") "Missing revision"
  numberCell parseU64 JsonValue.asU64 "Invalid revision type" value

def readSequence : Option Nat :=
  match row.lookup "sequence" with
  | some .null | none => none
  | some value =>
    match value.asStr with
    | some text => (parseU64 text).toOption
    | none => value.asU64

/-- A text is parsed as `u32`; a number is cast to it. -/
def readEventVersion : Except String Nat := do
  let value ← requiredColumn (row.lookup "event_version") "Missing event_version"
  numberCell parseU32 (fun value => value.asU64.map (· % 2 ^ 32)) "Invalid event_version type" value

/-- A JSON text, or the value itself. -/
def readJson {T : Type} (column : String) (fromStr : String → Except String T)
    (fromValue : JsonValue → Except String T) : Except String T := do
  let value ← requiredColumn (row.lookup column) ("Missing " ++ column)
  match value with
  | .string text => (fromStr text).mapError (column ++ " string deserialize: " ++ ·)
  | other => (fromValue other).mapError (column ++ " value deserialize: " ++ ·)

def readPayload : Except String E :=
  readJson row "payload" serde.payloadFromStr serde.payloadFromValue

def readMetadata : Except String Metadata :=
  readJson row "metadata" serde.metadataFromStr serde.metadataFromValue

def readRecordedAt : Except String SystemTime := do
  let value ← requiredColumn (row.lookup "recorded_at_ms") "Missing recorded_at_ms"
  let millis ← numberCell parseSigned JsonValue.asI64 "Invalid recorded_at_ms type" value
  if millis < 0 then .error "recorded_at_ms cannot be negative"
  else if serde.clockLimit < millis.toNat then .error "recorded_at_ms overflows the system clock"
  else .ok (millis * 1000000)

/-- The text as JSON, and where that fails the text as a JSON string. -/
def decodeAggregateId (text : String) : Except String Id :=
  match serde.idFromStr text with
  | .ok id => .ok id
  | .error _ =>
    (serde.idFromValue (.string text)).mapError ("aggregate_id deserialization failure: " ++ ·)

def rowToEnvelope (document : JsonDocument) : Except String (EventEnvelope E Id) := do
  let row ← document.asObject
  let eventId ← textColumn row "event_id"
  let aggregateIdText ← readAggregateId serde row
  let aggregateType ← textColumn row "aggregate_type"
  let revision ← readRevision row
  let sequence := readSequence row
  let eventType ← textColumn row "event_type"
  let eventVersion ← readEventVersion row
  let payload ← readPayload serde row
  let metadata ← readMetadata serde row
  let recordedAt ← readRecordedAt serde row
  let aggregateId ← decodeAggregateId serde aggregateIdText
  return ⟨eventId, aggregateId, aggregateType, revision, sequence, eventType, eventVersion, payload,
    metadata, recordedAt⟩

end Columns

/-- The number that an unsigned cell gives, as a JSON integer or as text. -/
def unsignedNumber : JsonValue → Option Nat
  | .integer (.ofNat number) => some number
  | .string text => Decimal.unsigned (Decimal.withoutPlus text.toList)
  | _ => none

/-- The number that a cell gives, as a JSON integer or as text. -/
def cellNumber : JsonValue → Option Int
  | .integer number => some number
  | .string text => Decimal.signed text.toList
  | _ => none

/-- A cell that is no number from 2^32 below 2^64, in neither form. -/
def NarrowCell (cell : JsonValue) : Prop :=
  ∀ number : Int, 2 ^ 32 ≤ number → number < 2 ^ 64 →
    cell ≠ .integer number ∧ cell ≠ .string (integerText number)

/-- Two forms of a numeric cell. -/
def SameCell (first second : JsonValue) : Prop :=
  first = second ∨ ∃ number : Int,
    (first = .integer number ∧ second = .string (integerText number)) ∨
    (first = .string (integerText number) ∧ second = .integer number)

section Cells

variable {first second cell : JsonValue} {invalid : String}

theorem SameCell.symm (same : SameCell first second) : SameCell second first := by
  rcases same with rfl | ⟨n, ⟨rfl, rfl⟩ | ⟨rfl, rfl⟩⟩
  · exact .inl rfl
  · exact .inr ⟨n, .inr ⟨rfl, rfl⟩⟩
  · exact .inr ⟨n, .inl ⟨rfl, rfl⟩⟩

theorem cellNumber_forms (number : Int) :
    cellNumber (.string (integerText number)) = cellNumber (.integer number) := by
  have read : Decimal.signed (integerText number).toList = some number := by
    rw [integerText, String.toList_ofList, Decimal.signed_write]
  exact read

theorem unsignedNumber_forms (number : Int) :
    unsignedNumber (.string (integerText number)) = unsignedNumber (.integer number) := by
  apply Option.ext
  intro value
  rw [unsignedNumber, integerText, String.toList_ofList, Decimal.unsigned_withoutPlus_write]
  cases number with
  | ofNat number => rw [unsignedNumber, Option.some.injEq, Int.ofNat_eq_natCast, Int.natCast_inj]
  | negSucc number =>
    have negative : Int.negSucc number ≠ value := by omega
    exact iff_of_false negative (by simp [unsignedNumber])

theorem SameCell.cellNumber (same : SameCell first second) :
    DddCqrsEs.cellNumber second = DddCqrsEs.cellNumber first := by
  rcases same with rfl | ⟨n, ⟨rfl, rfl⟩ | ⟨rfl, rfl⟩⟩
  · rfl
  · exact cellNumber_forms n
  · exact (cellNumber_forms n).symm

theorem SameCell.unsignedNumber (same : SameCell first second) :
    DddCqrsEs.unsignedNumber second = DddCqrsEs.unsignedNumber first := by
  rcases same with rfl | ⟨n, ⟨rfl, rfl⟩ | ⟨rfl, rfl⟩⟩
  · rfl
  · exact unsignedNumber_forms n
  · exact (unsignedNumber_forms n).symm

theorem NarrowCell.twin (narrow : NarrowCell first) (same : SameCell first second) :
    NarrowCell second := by
  rcases same with rfl | ⟨n, ⟨rfl, rfl⟩ | ⟨rfl, rfl⟩⟩
  · exact narrow
  · intro number low high
    constructor
    · simp
    · intro texts
      have denoted : n = number := integerText_inj (JsonValue.string.inj texts)
      exact (narrow number low high).1 (by rw [denoted])
  · intro number low high
    constructor
    · intro numbers
      exact (narrow number low high).2 (by rw [JsonValue.integer.inj numbers])
    · simp

variable {number : Nat}

theorem cellNumber_of_unsigned (read : unsignedNumber cell = some number) :
    cellNumber cell = some (number : Int) := by
  cases cell with
  | integer whole =>
    cases whole with
    | ofNat whole =>
      cases read
      rfl
    | negSucc whole => cases read
  | string text => exact Decimal.signed_of_unsigned read
  | null | bool _ | float _ | compound _ => cases read

theorem unsignedNumber_other (untexted : cell.asStr = none)
    (read : unsignedNumber cell = some number) : cell = .integer number := by
  cases cell with
  | integer whole =>
    cases whole with
    | ofNat whole =>
      cases read
      rfl
    | negSucc whole => cases read
  | string text => cases untexted
  | null | bool _ | float _ | compound _ => cases read

theorem asU64_iff (untexted : cell.asStr = none) :
    cell.asU64 = some number ↔ unsignedNumber cell = some number ∧ number < 2 ^ 64 := by
  cases cell with
  | integer whole =>
    cases whole with
    | ofNat whole =>
      rw [JsonValue.asU64, unsignedNumber]
      by_cases within : whole < 2 ^ 64
      · rw [if_pos within, Option.some.injEq]
        constructor
        · rintro rfl
          exact ⟨rfl, within⟩
        · exact And.left
      · rw [if_neg within, Option.some.injEq]
        apply iff_of_false (by simp)
        rintro ⟨rfl, fits⟩
        exact within fits
    | negSucc whole => simp [JsonValue.asU64, unsignedNumber]
  | string text => cases untexted
  | null | bool _ | float _ | compound _ => simp [JsonValue.asU64, unsignedNumber]

theorem numberCell_other {N : Type} {parse : String → Except String N}
    {number : JsonValue → Option N} {value : N} (untexted : cell.asStr = none) :
    numberCell parse number invalid cell = .ok value ↔ number cell = some value := by
  rw [numberCell, untexted]
  cases number cell with
  | none => exact iff_of_false (by simp) (by simp)
  | some found => simp

theorem numberCell_u64 :
    numberCell parseU64 JsonValue.asU64 invalid cell = .ok number ↔
      unsignedNumber cell = some number ∧ number < 2 ^ 64 := by
  cases cell with
  | string text => exact parseU64_iff
  | null | bool _ | integer _ | float _ | compound _ =>
    rw [numberCell_other (by rfl), asU64_iff (by rfl)]

theorem numberCell_i64 {number : Int} :
    numberCell parseSigned JsonValue.asI64 invalid cell = .ok number ↔
      cellNumber cell = some number ∧ inI64 number = true := by
  cases cell with
  | string text => exact parseSigned_iff
  | integer whole =>
    rw [numberCell_other (by rfl), JsonValue.asI64, cellNumber, Option.some.injEq]
    constructor
    · intro read
      by_cases within : inI64 whole = true
      · rw [if_pos within] at read
        cases read
        exact ⟨rfl, within⟩
      · rw [if_neg within] at read
        cases read
    · rintro ⟨rfl, within⟩
      rw [if_pos within]
  | null | bool _ | float _ | compound _ =>
    rw [numberCell_other (by rfl)]
    simp [JsonValue.asI64, cellNumber]

def versionCell (cell : JsonValue) : Except String Nat :=
  numberCell parseU32 (fun value => value.asU64.map (· % 2 ^ 32)) "Invalid event_version type" cell

/-- A JSON number is cast. -/
theorem versionCell_integer (within : number < 2 ^ 64) :
    versionCell (.integer number) = .ok (number % 2 ^ 32) := by
  rw [versionCell, numberCell_other (by rfl)]
  exact congrArg (Option.map (· % 2 ^ 32)) (if_pos within)

/-- A number of 32 bits is read as it is, in whatever form. -/
theorem versionCell_of_narrow {version : Nat} (read : unsignedNumber cell = some version)
    (fits : version < 2 ^ 32) : versionCell cell = .ok version := by
  cases cell with
  | string text => exact parseUnsigned_iff.mpr ⟨read, by omega⟩
  | integer whole =>
    cases whole with
    | ofNat whole =>
      cases read
      have cast := versionCell_integer (show version < 2 ^ 64 by omega)
      rwa [Nat.mod_eq_of_lt fits] at cast
    | negSucc whole => cases read
  | null | bool _ | float _ | compound _ => cases read

theorem NarrowCell.versionCell (narrow : NarrowCell cell) {version : Nat} :
    DddCqrsEs.versionCell cell = .ok version ↔
      DddCqrsEs.unsignedNumber cell = some version ∧ version < 2 ^ 32 := by
  constructor
  · intro read
    cases cell with
    | string text =>
      obtain ⟨number, within⟩ := parseUnsigned_iff.mp read
      exact ⟨number, by omega⟩
    | null | bool _ | integer _ | float _ | compound _ =>
      obtain ⟨wide, found, rfl⟩ := Option.map_eq_some_iff.mp
        ((numberCell_other (by rfl)).mp read)
      obtain ⟨number, within⟩ := (asU64_iff rfl).mp found
      have small : wide < 2 ^ 32 := by
        by_contra large
        have refused := (narrow wide (by omega) (by omega)).1
        exact refused (unsignedNumber_other rfl number)
      rw [Nat.mod_eq_of_lt small]
      exact ⟨number, small⟩
  · rintro ⟨read, fits⟩
    exact versionCell_of_narrow read fits

end Cells

section Columns

variable {E Id : Type} {serde : EnvelopeSerde E Id} {row : JsonRow}

theorem requiredColumn_bind {N : Type} {found : Option JsonValue} {missing : String}
    {read : JsonValue → Except String N} {value : N} :
    requiredColumn found missing >>= read = .ok value ↔
      ∃ cell, found = some cell ∧ read cell = .ok value := by
  rw [bind_ok_iff]
  cases found with
  | none => simp [requiredColumn]
  | some cell => simp [requiredColumn]

variable {text : String}

theorem textColumn_iff {column : String} :
    textColumn row column = .ok text ↔ row.lookup column = some (.string text) := by
  rw [textColumn]
  cases row.lookup column with
  | none => simp
  | some cell => cases cell <;> simp [JsonValue.asStr]

theorem readRevision_iff {revision : Nat} :
    readRevision row = .ok revision ↔
      (row.lookup "revision").bind unsignedNumber = some revision ∧ revision < 2 ^ 64 := by
  rw [readRevision, requiredColumn_bind]
  simp only [numberCell_u64, Option.bind_eq_some_iff]
  constructor
  · rintro ⟨cell, found, number, within⟩
    exact ⟨⟨cell, found, number⟩, within⟩
  · rintro ⟨⟨cell, found, number⟩, within⟩
    exact ⟨cell, found, number, within⟩

theorem readSequence_iff {sequence : Nat} :
    readSequence row = some sequence ↔
      (row.lookup "sequence").bind unsignedNumber = some sequence ∧ sequence < 2 ^ 64 := by
  have parsed : ∀ text,
      (parseU64 text).toOption = some sequence ↔ parseU64 text = .ok sequence := by
    intro text
    cases parseU64 text <;> simp [Except.toOption]
  rw [readSequence]
  cases row.lookup "sequence" with
  | none => simp
  | some cell =>
    cases cell with
    | null => simp [unsignedNumber]
    | string text => exact (parsed text).trans parseU64_iff
    | bool _ | integer _ | float _ | compound _ => exact asU64_iff (by rfl)

theorem readEventVersion_iff {version : Nat} :
    readEventVersion row = .ok version ↔
      ∃ cell, row.lookup "event_version" = some cell ∧ versionCell cell = .ok version :=
  requiredColumn_bind

/-- What a JSON column is read as. -/
def jsonCell {T : Type} (fromStr : String → Except String T)
    (fromValue : JsonValue → Except String T) : JsonValue → Except String T
  | .string text => fromStr text
  | other => fromValue other

theorem mapError_ok_iff {T : Type} {first : Except String T} {f : String → String} {value : T} :
    first.mapError f = .ok value ↔ first = .ok value := by
  cases first <;> simp [Except.mapError]

theorem readJson_iff {T : Type} {column : String} {fromStr : String → Except String T}
    {fromValue : JsonValue → Except String T} {value : T} :
    readJson row column fromStr fromValue = .ok value ↔
      ∃ cell, row.lookup column = some cell ∧ jsonCell fromStr fromValue cell = .ok value := by
  rw [readJson, requiredColumn_bind]
  apply exists_congr
  intro cell
  apply and_congr_right'
  cases cell <;> exact mapError_ok_iff

theorem readRecordedAt_iff {recordedAt : SystemTime} :
    readRecordedAt serde row = .ok recordedAt ↔
      ∃ millis : Nat, (row.lookup "recorded_at_ms").bind cellNumber = some (millis : Int) ∧
        millis ≤ i64Max ∧ millis ≤ serde.clockLimit ∧ recordedAt = (millis : Int) * 1000000 := by
  rw [readRecordedAt, requiredColumn_bind]
  constructor
  · rintro ⟨cell, found, rest⟩
    obtain ⟨millis, read, rest⟩ := ok_of_bind rest
    obtain ⟨number, within⟩ := (numberCell_i64).mp read
    by_cases negative : millis < 0
    · rw [if_pos negative] at rest
      cases rest
    · rw [if_neg negative] at rest
      by_cases late : serde.clockLimit < millis.toNat
      · rw [if_pos late] at rest
        cases rest
      · rw [if_neg late] at rest
        obtain ⟨whole, rfl⟩ := Int.eq_ofNat_of_zero_le (Int.not_lt.mp negative)
        refine ⟨whole, ?_, of_decide_eq_true within, Nat.not_lt.mp late,
          (Except.ok.inj rest).symm⟩
        rw [found]
        exact number
  · rintro ⟨millis, number, within, timely, rfl⟩
    obtain ⟨cell, found, number⟩ := Option.bind_eq_some_iff.mp number
    refine ⟨cell, found, ?_⟩
    have fits : inI64 millis = true := decide_eq_true within
    rw [bind_of_ok ((numberCell_i64).mpr ⟨number, fits⟩), if_neg (by omega),
      if_neg (by simpa using timely)]

/-- The text that stands for the aggregate id. -/
def idText (toJson : JsonValue → String) : JsonValue → String
  | .string text => text
  | other => toJson other

/-- The id that a text is the JSON of, or else has as a JSON string. -/
def StandsFor (serde : EnvelopeSerde E Id) (text : String) (id : Id) : Prop :=
  serde.idFromStr text = .ok id ∨
    (∃ error, serde.idFromStr text = .error error) ∧ serde.idFromValue (.string text) = .ok id

theorem decodeAggregateId_iff {id : Id} :
    decodeAggregateId serde text = .ok id ↔ StandsFor serde text id := by
  rw [decodeAggregateId, StandsFor]
  cases serde.idFromStr text with
  | ok found => simp
  | error error => simp [mapError_ok_iff]

theorem readAggregateId_iff :
    readAggregateId serde row = .ok text ↔
      ∃ cell, row.lookup "aggregate_id" = some cell ∧ idText serde.toJson cell = text := by
  rw [readAggregateId]
  cases row.lookup "aggregate_id" with
  | none => simp
  | some cell => cases cell <;> simp [JsonValue.asStr, idText]

end Columns

def numericColumns : List String := ["revision", "sequence", "event_version", "recorded_at_ms"]

/-- Two forms of a row: the numeric columns may differ in form, the others not at all. -/
def Twin (row other : JsonRow) : Prop :=
  ∀ column, if column ∈ numericColumns then
      Option.Rel SameCell (row.lookup column) (other.lookup column)
    else row.lookup column = other.lookup column

section Rows

variable {E Id : Type} (serde : EnvelopeSerde E Id) (row : JsonRow)

/-- An absent or null sequence is none, any other is the number of its cell. -/
def SequenceReported (sequence : Option Nat) : Prop :=
  match row.lookup "sequence" with
  | none | some .null => sequence = none
  | some cell => ∃ number : Nat, sequence = some number ∧
      cellNumber cell = some (number : Int) ∧ number < 2 ^ 64

/-- The envelope's numbers are those of the row and fit their fields, and its id is the one
that the row's id stands for. -/
structure Reports (envelope : EventEnvelope E Id) : Prop where
  revision : (row.lookup "revision").bind cellNumber = some (envelope.revision : Int)
  revisionFits : envelope.revision < 2 ^ 64
  sequence : SequenceReported row envelope.sequence
  eventVersion : (row.lookup "event_version").bind cellNumber = some (envelope.eventVersion : Int)
  versionFits : envelope.eventVersion < 2 ^ 32
  recordedAt : ∃ millis : Nat,
    (row.lookup "recorded_at_ms").bind cellNumber = some (millis : Int) ∧
      millis ≤ serde.clockLimit ∧ envelope.recordedAt = (millis : Int) * 1000000
  aggregateId : ∃ cell, row.lookup "aggregate_id" = some cell ∧
    StandsFor serde (idText serde.toJson cell) envelope.aggregateId

/-- Every envelope the row is decoded to reports it, and every other form of the row is
decoded alike. -/
structure NeverMisreads : Prop where
  reports : ∀ envelope, rowToEnvelope serde (.object row) = .ok envelope →
    Reports serde row envelope
  twins : ∀ other, Twin row other → ∀ envelope,
    rowToEnvelope serde (.object other) = .ok envelope ↔
      rowToEnvelope serde (.object row) = .ok envelope

/-- Every column other than the sequence and the version holds what its field can take. -/
structure ReadableElsewhere : Prop where
  eventId : ∃ text, row.lookup "event_id" = some (.string text)
  aggregateId : ∃ cell id, row.lookup "aggregate_id" = some cell ∧
    StandsFor serde (idText serde.toJson cell) id
  aggregateType : ∃ text, row.lookup "aggregate_type" = some (.string text)
  revision : ∃ number, (row.lookup "revision").bind unsignedNumber = some number ∧
    number < 2 ^ 64
  eventType : ∃ text, row.lookup "event_type" = some (.string text)
  payload : ∃ cell payload, row.lookup "payload" = some cell ∧
    jsonCell serde.payloadFromStr serde.payloadFromValue cell = .ok payload
  metadata : ∃ cell metadata, row.lookup "metadata" = some cell ∧
    jsonCell serde.metadataFromStr serde.metadataFromValue cell = .ok metadata
  recordedAt : ∃ millis : Nat,
    (row.lookup "recorded_at_ms").bind cellNumber = some (millis : Int) ∧ millis ≤ i64Max ∧
      millis ≤ serde.clockLimit

/-- The version is no number from 2^32 below 2^64, and beside a version of 32 bits the sequence
is absent, null or a number of 64 bits. -/
structure FitsColumns : Prop where
  version : ∀ cell, row.lookup "event_version" = some cell → NarrowCell cell
  sequence : (∃ version, (row.lookup "event_version").bind unsignedNumber = some version ∧
      version < 2 ^ 32) →
    row.lookup "sequence" = none ∨ row.lookup "sequence" = some .null ∨
      ∃ number, (row.lookup "sequence").bind unsignedNumber = some number ∧ number < 2 ^ 64

end Rows

section Envelopes

variable {E Id : Type} {serde : EnvelopeSerde E Id} {row other : JsonRow}

namespace Twin

theorem symm (twin : Twin row other) : Twin other row := by
  intro column
  have same := twin column
  by_cases numeric : column ∈ numericColumns
  · rw [if_pos numeric] at same ⊢
    generalize row.lookup column = first at *
    generalize other.lookup column = second at *
    cases same with
    | some same => exact .some same.symm
    | none => exact .none
  · rw [if_neg numeric] at same ⊢
    exact same.symm

theorem lookup (twin : Twin row other) {column : String} (plain : column ∉ numericColumns) :
    other.lookup column = row.lookup column := by
  have same := twin column
  rw [if_neg plain] at same
  exact same.symm

/-- Whatever reads two forms of a cell alike reads the columns alike. -/
theorem column (twin : Twin row other) {column : String} (numeric : column ∈ numericColumns)
    {N : Type} {read : JsonValue → Option N}
    (alike : ∀ first second, SameCell first second → read second = read first) :
    (other.lookup column).bind read = (row.lookup column).bind read := by
  have same := twin column
  rw [if_pos numeric] at same
  generalize row.lookup column = first at *
  generalize other.lookup column = second at *
  cases same with
  | some same => exact alike _ _ same
  | none => rfl

theorem unsigned (twin : Twin row other) {column : String} (numeric : column ∈ numericColumns) :
    (other.lookup column).bind unsignedNumber = (row.lookup column).bind unsignedNumber :=
  twin.column numeric (fun _ _ same => same.unsignedNumber)

theorem signed (twin : Twin row other) {column : String} (numeric : column ∈ numericColumns) :
    (other.lookup column).bind cellNumber = (row.lookup column).bind cellNumber :=
  twin.column numeric (fun _ _ same => same.cellNumber)

theorem narrow (twin : Twin row other)
    (narrow : ∀ cell, row.lookup "event_version" = some cell → NarrowCell cell) :
    ∀ cell, other.lookup "event_version" = some cell → NarrowCell cell := by
  intro cell found
  have same := twin "event_version"
  rw [if_pos (by decide), found] at same
  generalize row.lookup "event_version" = first at *
  cases same with
  | some same => exact (narrow _ rfl).twin same

theorem readable (twin : Twin row other) (readable : ReadableElsewhere serde row) :
    ReadableElsewhere serde other where
  eventId := by
    rw [twin.lookup (by decide)]
    exact readable.eventId
  aggregateId := by
    rw [twin.lookup (by decide)]
    exact readable.aggregateId
  aggregateType := by
    rw [twin.lookup (by decide)]
    exact readable.aggregateType
  revision := by
    rw [twin.unsigned (by decide)]
    exact readable.revision
  eventType := by
    rw [twin.lookup (by decide)]
    exact readable.eventType
  payload := by
    rw [twin.lookup (by decide)]
    exact readable.payload
  metadata := by
    rw [twin.lookup (by decide)]
    exact readable.metadata
  recordedAt := by
    rw [twin.signed (by decide)]
    exact readable.recordedAt

end Twin

theorem readEventVersion_narrow {version : Nat}
    (narrow : ∀ cell, row.lookup "event_version" = some cell → NarrowCell cell) :
    readEventVersion row = .ok version ↔
      (row.lookup "event_version").bind unsignedNumber = some version ∧ version < 2 ^ 32 := by
  rw [readEventVersion_iff, Option.bind_eq_some_iff]
  constructor
  · rintro ⟨cell, found, read⟩
    obtain ⟨number, within⟩ := (narrow cell found).versionCell.mp read
    exact ⟨⟨cell, found, number⟩, within⟩
  · rintro ⟨⟨cell, found, number⟩, within⟩
    exact ⟨cell, found, versionCell_of_narrow number within⟩

/-- Every column of a row is read as the envelope has it. -/
structure RowDecodes (serde : EnvelopeSerde E Id) (row : JsonRow) (envelope : EventEnvelope E Id) :
    Prop where
  eventId : textColumn row "event_id" = .ok envelope.eventId
  aggregateId : ∃ text, readAggregateId serde row = .ok text ∧
    decodeAggregateId serde text = .ok envelope.aggregateId
  aggregateType : textColumn row "aggregate_type" = .ok envelope.aggregateType
  revision : readRevision row = .ok envelope.revision
  sequence : readSequence row = envelope.sequence
  eventType : textColumn row "event_type" = .ok envelope.eventType
  eventVersion : readEventVersion row = .ok envelope.eventVersion
  payload : readPayload serde row = .ok envelope.payload
  metadata : readMetadata serde row = .ok envelope.metadata
  recordedAt : readRecordedAt serde row = .ok envelope.recordedAt

variable {envelope : EventEnvelope E Id} {cell : JsonValue}

theorem rowToEnvelope_ok :
    rowToEnvelope serde (.object row) = .ok envelope ↔ RowDecodes serde row envelope := by
  constructor
  · intro ran
    obtain ⟨_, opened, ran⟩ := ok_of_bind ran
    cases opened
    obtain ⟨eventId, readEventId, ran⟩ := ok_of_bind ran
    obtain ⟨text, readText, ran⟩ := ok_of_bind ran
    obtain ⟨aggregateType, readType, ran⟩ := ok_of_bind ran
    obtain ⟨revision, revised, ran⟩ := ok_of_bind ran
    obtain ⟨eventType, typed, ran⟩ := ok_of_bind ran
    obtain ⟨version, versioned, ran⟩ := ok_of_bind ran
    obtain ⟨payload, loaded, ran⟩ := ok_of_bind ran
    obtain ⟨metadata, described, ran⟩ := ok_of_bind ran
    obtain ⟨recordedAt, recorded, ran⟩ := ok_of_bind ran
    obtain ⟨id, decoded, ran⟩ := ok_of_bind ran
    cases ran
    exact ⟨readEventId, ⟨text, readText, decoded⟩, readType, revised, rfl, typed, versioned,
      loaded, described, recorded⟩
  · intro decodes
    obtain ⟨text, readText, decoded⟩ := decodes.aggregateId
    rw [rowToEnvelope, bind_of_ok (show (JsonDocument.object row).asObject = .ok row from rfl),
      bind_of_ok decodes.eventId, bind_of_ok readText, bind_of_ok decodes.aggregateType,
      bind_of_ok decodes.revision, bind_of_ok decodes.eventType,
      bind_of_ok decodes.eventVersion, bind_of_ok decodes.payload, bind_of_ok decodes.metadata,
      bind_of_ok decodes.recordedAt, bind_of_ok decoded, decodes.sequence]
    rfl

theorem RowDecodes.id (decodes : RowDecodes serde row envelope) :
    ∃ cell, row.lookup "aggregate_id" = some cell ∧
      StandsFor serde (idText serde.toJson cell) envelope.aggregateId := by
  obtain ⟨text, read, decoded⟩ := decodes.aggregateId
  obtain ⟨cell, found, rfl⟩ := (readAggregateId_iff).mp read
  exact ⟨cell, found, (decodeAggregateId_iff).mp decoded⟩

theorem RowDecodes.readable {envelope : EventEnvelope E Id}
    (decodes : RowDecodes serde row envelope) :
    ReadableElsewhere serde row where
  eventId := ⟨_, (textColumn_iff).mp decodes.eventId⟩
  aggregateId := by
    obtain ⟨cell, found, stands⟩ := decodes.id
    exact ⟨cell, _, found, stands⟩
  aggregateType := ⟨_, (textColumn_iff).mp decodes.aggregateType⟩
  revision := ⟨_, (readRevision_iff).mp decodes.revision⟩
  eventType := ⟨_, (textColumn_iff).mp decodes.eventType⟩
  payload := by
    obtain ⟨cell, found, read⟩ := (readJson_iff).mp decodes.payload
    exact ⟨cell, _, found, read⟩
  metadata := by
    obtain ⟨cell, found, read⟩ := (readJson_iff).mp decodes.metadata
    exact ⟨cell, _, found, read⟩
  recordedAt := by
    obtain ⟨millis, number, within, timely, _⟩ := (readRecordedAt_iff).mp decodes.recordedAt
    exact ⟨millis, number, within, timely⟩

/-- A row that is readable elsewhere is decoded as soon as its version can be read. -/
theorem ReadableElsewhere.decodes (readable : ReadableElsewhere serde row) {version : Nat}
    (versioned : readEventVersion row = .ok version) :
    ∃ envelope, RowDecodes serde row envelope ∧ envelope.eventVersion = version := by
  obtain ⟨eventId, readEventId⟩ := readable.eventId
  obtain ⟨cell, id, found, stands⟩ := readable.aggregateId
  obtain ⟨aggregateType, readType⟩ := readable.aggregateType
  obtain ⟨revision, revised⟩ := readable.revision
  obtain ⟨eventType, typed⟩ := readable.eventType
  obtain ⟨payloadCell, payload, loaded⟩ := readable.payload
  obtain ⟨metadataCell, metadata, described⟩ := readable.metadata
  obtain ⟨millis, number, within, timely⟩ := readable.recordedAt
  exact ⟨⟨eventId, id, aggregateType, revision, readSequence row, eventType, version, payload,
    metadata, (millis : Int) * 1000000⟩,
    ⟨(textColumn_iff).mpr readEventId,
      ⟨_, (readAggregateId_iff).mpr ⟨cell, found, rfl⟩, (decodeAggregateId_iff).mpr stands⟩,
      (textColumn_iff).mpr readType, (readRevision_iff).mpr revised, rfl, (textColumn_iff).mpr typed,
      versioned, (readJson_iff).mpr ⟨payloadCell, loaded⟩,
      (readJson_iff).mpr ⟨metadataCell, described⟩,
      (readRecordedAt_iff).mpr ⟨millis, number, within, timely, rfl⟩⟩, rfl⟩

/-- Another form of a row with a narrow version is decoded to the same envelope. -/
theorem Twin.decodes (twin : Twin row other)
    (narrow : ∀ cell, row.lookup "event_version" = some cell → NarrowCell cell)
    {envelope : EventEnvelope E Id} (decodes : RowDecodes serde row envelope) :
    RowDecodes serde other envelope where
  eventId := by
    rw [textColumn_iff, twin.lookup (by decide), ← textColumn_iff]
    exact decodes.eventId
  aggregateId := by
    obtain ⟨text, read, decoded⟩ := decodes.aggregateId
    rw [readAggregateId_iff, ← twin.lookup (by decide), ← readAggregateId_iff] at read
    exact ⟨text, read, decoded⟩
  aggregateType := by
    rw [textColumn_iff, twin.lookup (by decide), ← textColumn_iff]
    exact decodes.aggregateType
  revision := by
    rw [readRevision_iff, twin.unsigned (by decide), ← readRevision_iff]
    exact decodes.revision
  sequence := by
    rw [← decodes.sequence]
    apply Option.ext
    intro sequence
    rw [readSequence_iff, twin.unsigned (by decide), ← readSequence_iff]
  eventType := by
    rw [textColumn_iff, twin.lookup (by decide), ← textColumn_iff]
    exact decodes.eventType
  eventVersion := by
    rw [readEventVersion_narrow (twin.narrow narrow), twin.unsigned (by decide),
      ← readEventVersion_narrow narrow]
    exact decodes.eventVersion
  payload := by
    rw [readPayload, readJson_iff, twin.lookup (by decide), ← readJson_iff]
    exact decodes.payload
  metadata := by
    rw [readMetadata, readJson_iff, twin.lookup (by decide), ← readJson_iff]
    exact decodes.metadata
  recordedAt := by
    rw [readRecordedAt_iff, twin.signed (by decide), ← readRecordedAt_iff]
    exact decodes.recordedAt

theorem bind_cellNumber {column : String} {number : Nat}
    (read : (row.lookup column).bind unsignedNumber = some number) :
    (row.lookup column).bind cellNumber = some (number : Int) := by
  obtain ⟨cell, found, number⟩ := Option.bind_eq_some_iff.mp read
  exact Option.bind_eq_some_iff.mpr ⟨cell, found, cellNumber_of_unsigned number⟩

theorem readSequence_reported
    (legible : row.lookup "sequence" = none ∨ row.lookup "sequence" = some .null ∨
      ∃ number, (row.lookup "sequence").bind unsignedNumber = some number ∧ number < 2 ^ 64) :
    SequenceReported row (readSequence row) := by
  rcases legible with absent | null | ⟨number, read, within⟩
  · rw [SequenceReported, absent, readSequence, absent]
  · rw [SequenceReported, null, readSequence, null]
  · rw [(readSequence_iff).mpr ⟨read, within⟩]
    obtain ⟨cell, found, denoted⟩ := Option.bind_eq_some_iff.mp read
    rw [SequenceReported, found]
    cases cell with
    | null => cases denoted
    | bool _ | integer _ | float _ | string _ | compound _ =>
      exact ⟨number, rfl, cellNumber_of_unsigned denoted, within⟩

/-- A sequence that is reported is absent, null or a number. -/
theorem SequenceReported.legible (reported : SequenceReported row (readSequence row)) :
    row.lookup "sequence" = none ∨ row.lookup "sequence" = some .null ∨
      ∃ number, (row.lookup "sequence").bind unsignedNumber = some number ∧ number < 2 ^ 64 := by
  cases read : readSequence row with
  | some number => exact .inr (.inr ⟨number, (readSequence_iff).mp read⟩)
  | none =>
    rw [SequenceReported, read] at reported
    cases found : row.lookup "sequence" with
    | none => exact .inl rfl
    | some cell =>
      rw [found] at reported
      cases cell with
      | null => exact .inr (.inl rfl)
      | bool _ | integer _ | float _ | string _ | compound _ =>
        obtain ⟨number, impossible, _⟩ := reported
        cases impossible

theorem FitsColumns.reports (fits : FitsColumns row) (decodes : RowDecodes serde row envelope) :
    Reports serde row envelope := by
  have revised := (readRevision_iff).mp decodes.revision
  have versioned := (readEventVersion_narrow fits.version).mp decodes.eventVersion
  have recorded := (readRecordedAt_iff).mp decodes.recordedAt
  constructor
  · exact bind_cellNumber revised.1
  · exact revised.2
  · rw [← decodes.sequence]
    exact readSequence_reported (fits.sequence ⟨_, versioned⟩)
  · exact bind_cellNumber versioned.1
  · exact versioned.2
  · obtain ⟨millis, number, _, timely, same⟩ := recorded
    exact ⟨millis, number, timely, same⟩
  · exact decodes.id

theorem lookup_replaced {column name : String} :
    ((column, cell) :: row).lookup name = if name = column then some cell else row.lookup name := by
  rw [List.lookup_cons]
  by_cases same : name = column
  · rw [if_pos same, same, beq_self_eq_true]
  · rw [if_neg same, beq_false_of_ne same]

/-- A numeric column in its other form. -/
theorem replaced_twin {column : String} (numeric : column ∈ numericColumns)
    {first second : JsonValue} (found : row.lookup column = some first)
    (same : SameCell first second) : Twin row ((column, second) :: row) := by
  intro name
  rw [lookup_replaced]
  by_cases here : name = column
  · rw [here, if_pos numeric, if_pos rfl, found]
    exact .some same
  · rw [if_neg here]
    split
    · cases row.lookup name with
      | none => exact .none
      | some cell => exact .some (.inl rfl)
    · rfl

/-- What a number beyond 32 bits is read as is not what the cell holds. -/
theorem wide_misread {number : Nat} (low : 2 ^ 32 ≤ number) (high : number < 2 ^ 64)
    (readable : ReadableElsewhere serde row)
    (found : row.lookup "event_version" = some (.integer number)) :
    ∃ envelope, RowDecodes serde row envelope ∧ envelope.eventVersion = number % 2 ^ 32 ∧
      ¬Reports serde row envelope := by
  have cast := (readEventVersion_iff).mpr ⟨_, found, versionCell_integer high⟩
  obtain ⟨envelope, decodes, version⟩ := readable.decodes cast
  refine ⟨envelope, decodes, version, ?_⟩
  intro reports
  have reported := reports.eventVersion
  rw [found, version] at reported
  have same : (number : Int) = (number % 2 ^ 32 : Nat) := Option.some.inj reported
  omega

theorem NeverMisreads.narrow (never : NeverMisreads serde row)
    (readable : ReadableElsewhere serde row) (found : row.lookup "event_version" = some cell) :
    NarrowCell cell := by
  intro number low high
  obtain ⟨wide, rfl⟩ := Int.eq_ofNat_of_zero_le (show 0 ≤ number by omega)
  have large : 2 ^ 32 ≤ wide := by omega
  have small : wide < 2 ^ 64 := by omega
  constructor
  · rintro rfl
    obtain ⟨envelope, decodes, _, unreported⟩ := wide_misread large small readable found
    exact unreported (never.reports envelope ((rowToEnvelope_ok).mpr decodes))
  · rintro rfl
    have forms : SameCell (.string (integerText wide)) (.integer wide) :=
      .inr ⟨wide, .inr ⟨rfl, rfl⟩⟩
    have twin := replaced_twin (by decide) found forms
    obtain ⟨envelope, decodes, _, _⟩ := wide_misread large small (twin.readable readable)
      (by rw [lookup_replaced, if_pos rfl])
    have ran := (never.twins _ twin envelope).mp ((rowToEnvelope_ok).mpr decodes)
    obtain ⟨text, same, read⟩ := (readEventVersion_iff).mp ((rowToEnvelope_ok).mp ran).eventVersion
    rw [found] at same
    cases same
    obtain ⟨denoted, within⟩ := parseUnsigned_iff.mp read
    have denotes : unsignedNumber (.string (integerText wide)) = some wide :=
      unsignedNumber_forms wide
    rw [unsignedNumber, denoted] at denotes
    cases denotes
    omega

theorem neverMisreads_iff (serde : EnvelopeSerde E Id) (row : JsonRow) :
    NeverMisreads serde row ↔ (ReadableElsewhere serde row → FitsColumns row) := by
  constructor
  · intro never readable
    constructor
    · exact fun cell found => never.narrow readable found
    · rintro ⟨version, read, fits⟩
      obtain ⟨cell, found, number⟩ := Option.bind_eq_some_iff.mp read
      have versioned := (readEventVersion_iff).mpr ⟨cell, found, versionCell_of_narrow number fits⟩
      obtain ⟨envelope, decodes, _⟩ := readable.decodes versioned
      have reports := never.reports envelope ((rowToEnvelope_ok).mpr decodes)
      have reported := reports.sequence
      rw [← decodes.sequence] at reported
      exact reported.legible
  · intro fitting
    constructor
    · intro envelope ran
      have decodes := (rowToEnvelope_ok).mp ran
      exact (fitting decodes.readable).reports decodes
    · intro other twin envelope
      rw [rowToEnvelope_ok, rowToEnvelope_ok]
      constructor
      · intro decodes
        have narrow := (fitting (twin.symm.readable decodes.readable)).version
        exact twin.symm.decodes (twin.narrow narrow) decodes
      · intro decodes
        exact twin.decodes (fitting decodes.readable).version decodes

end Envelopes

section Texts

variable {E : Type} {json : JsonText} {serde : EnvelopeSerde E String} {row : JsonRow}

/-- Ids that are strings: a JSON text is read as the string it is, a JSON string as itself. -/
structure StringSerde (json : JsonText) (serde : EnvelopeSerde E String) : Prop where
  fromStr : serde.idFromStr = json.read
  fromValue : ∀ text, serde.idFromValue (.string text) = .ok text

/-- A text that is no JSON string stands for itself, and no other text does. -/
theorem StringSerde.standsFor_self (strings : StringSerde json serde) {text id : String}
    (stands : StandsFor serde text id) : id = text ↔ ∀ inner, json.read text ≠ .ok inner := by
  rw [StandsFor, strings.fromStr, strings.fromValue] at stands
  rcases stands with quoted | ⟨⟨error, plain⟩, same⟩
  · constructor
    · rintro rfl
      exact absurd (json.shorter id id quoted) (Nat.lt_irrefl _)
    · intro plain
      exact absurd quoted (plain id)
  · rw [plain]
    constructor
    · intro _ inner
      simp
    · intro _
      exact (Except.ok.inj same).symm

end Texts

/-- The rows that are read as they stand, and the string ids that are. -/
theorem rowToEnvelope_exact (row : JsonRow) :
    (∀ {E Id : Type} (serde : EnvelopeSerde E Id),
      NeverMisreads serde row ↔ (ReadableElsewhere serde row → FitsColumns row)) ∧
    (∀ {E : Type} (json : JsonText) (serde : EnvelopeSerde E String), StringSerde json serde →
      ∀ (text : String) (envelope : EventEnvelope E String),
        row.lookup "aggregate_id" = some (.string text) →
        rowToEnvelope serde (.object row) = .ok envelope →
        (envelope.aggregateId = text ↔ ∀ inner, json.read text ≠ .ok inner)) := by
  constructor
  · intro E Id serde
    exact neverMisreads_iff serde row
  · intro E json serde strings text envelope found ran
    obtain ⟨cell, same, stands⟩ := ((rowToEnvelope_ok).mp ran).id
    rw [found] at same
    cases same
    exact strings.standsFor_self stands

/-- Unit events under string ids, with metadata that reads as none. -/
def unitSerde : EnvelopeSerde Unit String where
  toJson _ := "null"
  payloadFromStr text := if text = "null" then .ok () else .error "expected value"
  payloadFromValue value := if value = .null then .ok () else .error "invalid type"
  metadataFromStr _ := .ok .empty
  metadataFromValue _ := .ok .empty
  idFromStr := serdeJson.read
  idFromValue value := (value.asStr.map Except.ok).getD (.error "invalid type")
  clockLimit := i64Max

def unitRow (aggregateId : String) (sequence version : JsonValue) : JsonRow :=
  [("event_id", .string "e"), ("aggregate_id", .string aggregateId),
    ("aggregate_type", .string "account"), ("revision", .integer 1), ("sequence", sequence),
    ("event_type", .string "opened"), ("event_version", version), ("payload", .string "null"),
    ("metadata", .string "\x7b\x7d"), ("recorded_at_ms", .integer 0)]

/-- A row whose numbers fit, one of them as a text. Its id is read as it stands, a quoted one is
not. -/
theorem rowToEnvelope_exact_unitRow :
    NeverMisreads unitSerde (unitRow "123" (.string "7") (.integer 1)) ∧
      (∃ envelope, rowToEnvelope unitSerde (.object (unitRow "123" (.string "7") (.integer 1))) =
        .ok envelope ∧ envelope.aggregateId = "123") ∧
      ∃ envelope, rowToEnvelope unitSerde (.object (unitRow "\"a\"" (.string "7") (.integer 1))) =
        .ok envelope ∧ envelope.aggregateId ≠ "\"a\"" := by
  have strings : StringSerde serdeJson unitSerde := ⟨rfl, fun _ => rfl⟩
  obtain ⟨misreads, plainId⟩ := rowToEnvelope_exact (unitRow "123" (.string "7") (.integer 1))
  obtain ⟨_, quotedId⟩ := rowToEnvelope_exact (unitRow "\"a\"" (.string "7") (.integer 1))
  refine ⟨(misreads unitSerde).mpr fun _ => ⟨?_, fun _ => ?_⟩, ?_, ?_⟩
  · intro cell found number low _
    cases found
    refine ⟨fun same => ?_, nofun⟩
    have one : 1 = number := JsonValue.integer.inj same
    omega
  · exact .inr (.inr ⟨7, rfl, by decide⟩)
  · refine ⟨⟨"e", "123", "account", 1, some 7, "opened", 1, (), .empty, 0⟩, rfl, ?_⟩
    have plain : serdeJson.read "123" = .error "expected value at line 1 column 1" := rfl
    refine (plainId serdeJson unitSerde strings "123" _ rfl rfl).mpr ?_
    intro inner
    rw [plain]
    simp
  · refine ⟨⟨"e", "a", "account", 1, some 7, "opened", 1, (), .empty, 0⟩, rfl, ?_⟩
    intro same
    exact (quotedId serdeJson unitSerde strings "\"a\"" _ rfl rfl).mp same "a" rfl

/-- A version that is cut off, a sequence that is lost and an id that is unquoted. -/
theorem rowToEnvelope_misreads :
    ¬NeverMisreads unitSerde (unitRow "a" (.integer 1) (.integer 4294967297)) ∧
    ¬NeverMisreads unitSerde (unitRow "a" (.string "seven") (.integer 1)) ∧
    ∃ envelope, rowToEnvelope unitSerde
        (.object (unitRow "\"a\"" (.integer 1) (.integer 1))) = .ok envelope ∧
      envelope.aggregateId = "a" := by
  refine ⟨?_, ?_, ⟨"e", "a", "account", 1, some 1, "opened", 1, (), .empty, 0⟩, rfl, rfl⟩
  · intro never
    have reports := never.reports ⟨"e", "a", "account", 1, some 1, "opened", 1, (), .empty, 0⟩ rfl
    exact absurd reports.eventVersion (by decide)
  · intro never
    have reports := never.reports ⟨"e", "a", "account", 1, none, "opened", 1, (), .empty, 0⟩ rfl
    obtain ⟨number, impossible, _⟩ := reports.sequence
    cases impossible

end DddCqrsEs
