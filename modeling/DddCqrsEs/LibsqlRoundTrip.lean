import DddCqrsEs.AppendGuard
import DddCqrsEs.RowToEnvelope

/- What comes back of an event that was appended over Hrana: the arguments, the columns of the
table, the values of the result, the JSON row and the envelope. -/
namespace DddCqrsEs

open GuardedInsert

/-- JSON texts as the JSON library reads them, and reals as SQLite writes them. The text of a
real has a point or an exponent. -/
structure JsonStorage where
  parse : String → Except String JsonValue
  realText : Rat → String
  parse_integer : ∀ number, inI64 number = true →
    parse (integerText number) = .ok (.integer number)
  parse_string : ∀ text value, parse text = .ok (.string value) → value.length < text.length
  parse_real : ∀ x number, parse (realText x) ≠ .ok (.integer number)

section Columns

variable (json : JsonStorage)

/-- What a column of text affinity keeps of a value. -/
def textAffinity : Value → Value
  | .integer number => .text (integerText number)
  | .real x => .text (json.realText x)
  | other => other

/-- What a column of integer affinity keeps of a number; the statement binds no text there. -/
def integerAffinity : Value → Value
  | .real x => if x.den = 1 ∧ inI64 x.num then .integer x.num else .real x
  | other => other

def integerColumns : List String := ["revision", "sequence", "event_version", "recorded_at_ms"]

def columnAffinity (column : String) : Value → Value :=
  if column ∈ integerColumns then integerAffinity else textAffinity json

/-- A row of the events table under the rowid it receives. -/
def storedRow (sequence : Nat) (row : Row) : Row :=
  ("sequence", .integer sequence) ::
    row.map (fun entry => (entry.1, columnAffinity json entry.1 entry.2))

end Columns

/-- A value of a Hrana result, by its members. -/
structure HranaValue where
  type : Option String
  value : Option JsonValue
  base64 : Option JsonValue

/-- How the server writes a value. -/
def hranaValue : Value → HranaValue
  | .null => ⟨some "null", none, none⟩
  | .integer number => ⟨some "integer", some (.string (integerText number)), none⟩
  | .real x => ⟨some "float", some (.float x), none⟩
  | .text text | .document text => ⟨some "text", some (.string text), none⟩

def fromHranaVal (val : HranaValue) : JsonValue :=
  match val.type with
  | some "null" => .null
  | some "text" => val.value.getD .null
  | some "integer" =>
    match val.value.bind JsonValue.asStr with
    | some text =>
      match parseSigned text with
      | .ok number => .integer number
      | .error _ => .null
    | none => .null
  | some "float" => val.value.getD .null
  | some "blob" => val.base64.getD .null
  | some _ | none => .null

/-- The columns of the query that loads a stream. -/
def selectColumns : List String :=
  ["sequence", "event_id", "aggregate_id", "aggregate_type", "revision", "event_type",
    "event_version", "payload", "metadata", "recorded_at_ms"]

def resultRow (stored : Row) : JsonRow :=
  selectColumns.map (fun column => (column, fromHranaVal (hranaValue (cell stored column))))

theorem fromHranaVal_text (text : String) : fromHranaVal (hranaValue (.text text)) = .string text :=
  rfl

theorem fromHranaVal_integer {number : Int} (within : inI64 number = true) :
    fromHranaVal (hranaValue (.integer number)) = .integer number := by
  have read := (parseSigned_integerText number number).mpr ⟨rfl, within⟩
  show (match parseSigned (integerText number) with
    | .ok number => JsonValue.integer number
    | .error _ => .null) = _
  rw [read]

section Texts

variable (json : JsonStorage)

/-- The text that a JSON value is kept as; a null is not kept. -/
def storedText : JsonValue → String
  | .null => ""
  | .bool b => if b then "1" else "0"
  | .integer number => if inI64 number then integerText number else json.realText (asF64 number)
  | .float x => json.realText x
  | .string text => text
  | .compound text => text

/-- The values that are read back: integers of 64 signed bits, and the floats, arrays and
objects whose stored text is read as the value. -/
def Survives : JsonValue → Prop
  | .null | .bool _ | .string _ => False
  | .integer number => inI64 number = true
  | .float x => json.parse (json.realText x) = .ok (.float x)
  | .compound text => json.parse text = .ok (.compound text)

variable {json}

theorem textAffinity_toHranaArg {value : JsonValue} (present : value ≠ .null) :
    textAffinity json (toHranaArg value) = .text (storedText json value) := by
  cases value with
  | null => exact absurd rfl present
  | bool b => cases b <;> rfl
  | integer number =>
    rw [toHranaArg_integer, storedText]
    split <;> rfl
  | float x => rfl
  | string text => rfl
  | compound text => rfl

theorem parse_bool (b : Bool) : json.parse (if b then "1" else "0") ≠ .ok (.bool b) := by
  cases b with
  | false =>
    rw [if_neg (by decide), show "0" = integerText 0 by decide, json.parse_integer 0 (by decide)]
    simp
  | true =>
    rw [if_pos rfl, show "1" = integerText 1 by decide, json.parse_integer 1 (by decide)]
    simp

/-- A value survives when the text it is kept as is read as the value. -/
theorem survives_iff {value : JsonValue} :
    Survives json value ↔ value ≠ .null ∧ json.parse (storedText json value) = .ok value := by
  cases value with
  | null => simp [Survives]
  | bool b => exact iff_of_false id (fun both => parse_bool b both.2)
  | integer number =>
    rw [Survives, storedText]
    by_cases within : inI64 number = true
    · simp [within, json.parse_integer number within]
    · have unread := json.parse_real (asF64 number) number
      simp [within, unread]
  | float x => simp [Survives, storedText]
  | string text =>
    simp only [Survives, storedText, false_iff]
    rintro ⟨_, read⟩
    exact absurd (json.parse_string text text read) (Nat.lt_irrefl _)
  | compound text => simp [Survives, storedText]

/-- Values that survive are kept apart. -/
theorem Survives.storedText_inj {first second : JsonValue} (one : Survives json first)
    (two : Survives json second) (same : storedText json first = storedText json second) :
    first = second := by
  have read := ((survives_iff).mp one).2
  rw [same, ((survives_iff).mp two).2] at read
  exact (Except.ok.inj read).symm

end Texts

section RoundTrip

variable (json : JsonStorage)

/-- The row is loaded as the event that was appended, into every event type whose reader takes
the payload's JSON for the payload. -/
def LoadsBack (aggregateType aggregateId : String) (revision : Nat) (row : AppendEventRow)
    (stored : Row) : Prop :=
  ∀ {E Id : Type} (serde : EnvelopeSerde E Id) (payload : E) (metadata : Metadata) (id : Id)
    (sequence : Nat),
    (∀ text, json.parse text = .ok row.payload → serde.payloadFromStr text = .ok payload) →
    (∀ text, json.parse text = .ok row.metadata → serde.metadataFromStr text = .ok metadata) →
    StandsFor serde aggregateId id → row.recordedAtMs ≤ serde.clockLimit → sequence ≤ i64Max →
    rowToEnvelope serde (.object (resultRow (storedRow json sequence stored))) =
      .ok ⟨row.eventId, id, aggregateType, revision, some sequence, row.eventType,
        row.eventVersion, payload, metadata, row.recordedAtMs * 1000000⟩

/-- Every event of a batch is inserted and loaded back, and different payloads are kept as
different values. -/
def RoundTrips (records : List EventRecord) (aggregateType aggregateId : String)
    (rows : List AppendEventRow) (append : Statement × List JsonValue) : Prop :=
  ∃ added, sqliteAfter true (records.map EventRecord.cells) append =
      records.map EventRecord.cells ++ added ∧
    List.Forall₂ (fun entry stored => LoadsBack json aggregateType aggregateId
      (currentRevisionOf records aggregateType aggregateId + (entry.2 + 1)) entry.1 stored)
      rows.zipIdx added ∧
    ∀ first ∈ rows.zip added, ∀ second ∈ rows.zip added, first.1.payload ≠ second.1.payload →
      ∀ sequence other, cell (storedRow json sequence first.2) "payload" ≠
        cell (storedRow json other second.2) "payload"

variable {json} {aggregateType aggregateId : String} {row : AppendEventRow} {revision : Nat}

/-- The JSON row of an event, for the revision, the sequence and the texts of its values. -/
def loadedRow (aggregateType aggregateId : String) (revision sequence : Nat)
    (row : AppendEventRow) (payload metadata : String) : JsonRow :=
  [("sequence", .integer sequence), ("event_id", .string row.eventId),
    ("aggregate_id", .string aggregateId), ("aggregate_type", .string aggregateType),
    ("revision", .integer revision), ("event_type", .string row.eventType),
    ("event_version", .integer row.eventVersion), ("payload", .string payload),
    ("metadata", .string metadata), ("recorded_at_ms", .integer row.recordedAtMs)]

theorem resultRow_storedRow {sequence : Nat} (payload : row.payload ≠ .null)
    (metadata : row.metadata ≠ .null) (version : row.eventVersion < 2 ^ 32)
    (recorded : inI64 row.recordedAtMs = true) (revised : revision ≤ i64Max)
    (numbered : sequence ≤ i64Max) :
    resultRow (storedRow json sequence
        (rowCells aggregateType aggregateId (.integer revision) row)) =
      loadedRow aggregateType aggregateId revision sequence row (storedText json row.payload)
        (storedText json row.metadata) := by
  have whole : inI64 row.eventVersion = true := by
    rw [inI64_natCast, decide_eq_true_eq, i64Max]
    omega
  have revisionFits : inI64 revision = true := by rw [inI64_natCast, decide_eq_true revised]
  have sequenceFits : inI64 sequence = true := by rw [inI64_natCast, decide_eq_true numbered]
  have versionArg : toHranaArg (.integer row.eventVersion) = .integer row.eventVersion := by
    rw [toHranaArg_integer, if_pos whole]
  have recordedArg : toHranaArg (.integer row.recordedAtMs) = .integer row.recordedAtMs := by
    rw [toHranaArg_integer, if_pos recorded]
  have texts : ∀ text, textAffinity json (.text text) = .text text := fun _ => rfl
  have integers : ∀ number, integerAffinity (.integer number) = .integer number := fun _ => rfl
  simp [resultRow, selectColumns, cell, storedRow, rowCells, columnAffinity, integerColumns,
    List.lookup_cons, versionArg, recordedArg, textAffinity_toHranaArg payload,
    textAffinity_toHranaArg metadata, texts, integers, fromHranaVal_text,
    fromHranaVal_integer whole, fromHranaVal_integer revisionFits,
    fromHranaVal_integer sequenceFits, fromHranaVal_integer recorded, loadedRow]

section Loaded

variable {E Id : Type} {serde : EnvelopeSerde E Id} {payload metadata : String} {sequence : Nat}

theorem loadedRow_recordedAt {recordedAt : SystemTime} :
    readRecordedAt serde (loadedRow aggregateType aggregateId revision sequence row payload
        metadata) = .ok recordedAt ↔
      0 ≤ row.recordedAtMs ∧ row.recordedAtMs ≤ i64Max ∧ row.recordedAtMs ≤ serde.clockLimit ∧
        recordedAt = row.recordedAtMs * 1000000 := by
  have cellMillis : ((loadedRow aggregateType aggregateId revision sequence row payload
      metadata).lookup "recorded_at_ms").bind cellNumber = some row.recordedAtMs := by
    simp [loadedRow, List.lookup_cons, cellNumber]
  rw [readRecordedAt_iff, cellMillis]
  constructor
  · rintro ⟨millis, same, within, timely, rfl⟩
    rw [Option.some.inj same]
    exact ⟨by omega, by omega, by omega, rfl⟩
  · rintro ⟨positive, within, timely, rfl⟩
    obtain ⟨millis, same⟩ := Int.eq_ofNat_of_zero_le positive
    rw [same] at within timely ⊢
    exact ⟨millis, rfl, by omega, by omega, rfl⟩

theorem loadedRow_payload {value : E} :
    readPayload serde (loadedRow aggregateType aggregateId revision sequence row payload
        metadata) = .ok value ↔ serde.payloadFromStr payload = .ok value := by
  rw [readPayload, readJson_iff]
  simp [loadedRow, List.lookup_cons, jsonCell]

theorem loadedRow_metadata {value : Metadata} :
    readMetadata serde (loadedRow aggregateType aggregateId revision sequence row payload
        metadata) = .ok value ↔ serde.metadataFromStr metadata = .ok value := by
  rw [readMetadata, readJson_iff]
  simp [loadedRow, List.lookup_cons, jsonCell]

theorem loadedRow_decodes {id : Id} {event : E} {context : Metadata}
    (revised : revision ≤ i64Max) (numbered : sequence ≤ i64Max)
    (version : row.eventVersion < 2 ^ 32) (stands : StandsFor serde aggregateId id)
    (carried : serde.payloadFromStr payload = .ok event)
    (described : serde.metadataFromStr metadata = .ok context) (positive : 0 ≤ row.recordedAtMs)
    (within : row.recordedAtMs ≤ i64Max) (timely : row.recordedAtMs ≤ serde.clockLimit) :
    rowToEnvelope serde (.object (loadedRow aggregateType aggregateId revision sequence row payload
        metadata)) =
      .ok ⟨row.eventId, id, aggregateType, revision, some sequence, row.eventType,
        row.eventVersion, event, context, row.recordedAtMs * 1000000⟩ := by
  rw [i64Max] at revised numbered
  have revisionFits : revision < 2 ^ 64 := by omega
  have sequenceFits : sequence < 2 ^ 64 := by omega
  rw [rowToEnvelope_ok]
  constructor
  · exact textColumn_iff.mpr rfl
  · exact ⟨aggregateId, readAggregateId_iff.mpr ⟨_, rfl, rfl⟩, decodeAggregateId_iff.mpr stands⟩
  · exact textColumn_iff.mpr rfl
  · exact readRevision_iff.mpr ⟨rfl, revisionFits⟩
  · exact readSequence_iff.mpr ⟨rfl, sequenceFits⟩
  · exact textColumn_iff.mpr rfl
  · exact readEventVersion_iff.mpr ⟨_, rfl, versionCell_of_narrow rfl version⟩
  · exact (loadedRow_payload).mpr carried
  · exact (loadedRow_metadata).mpr described
  · exact (loadedRow_recordedAt).mpr ⟨positive, within, timely, rfl⟩

end Loaded

/-- The values of a row that come back, and a time since the epoch. -/
structure Restorable (json : JsonStorage) (row : AppendEventRow) : Prop where
  payload : Survives json row.payload
  metadata : Survives json row.metadata
  recordedAt : 0 ≤ row.recordedAtMs

/-- JSON values as events, and one value as the metadata. -/
def valueSerde (json : JsonStorage) (metadata : JsonValue) : EnvelopeSerde JsonValue Unit where
  toJson _ := ""
  payloadFromStr := json.parse
  payloadFromValue := .ok
  metadataFromStr text :=
    match json.parse text with
    | .ok value => if value = metadata then .ok .empty else .error "other metadata"
    | .error error => .error error
  metadataFromValue _ := .ok .empty
  idFromStr _ := .ok ()
  idFromValue _ := .ok ()
  clockLimit := i64Max

theorem valueSerde_metadata {metadata : JsonValue} {text : String} :
    (valueSerde json metadata).metadataFromStr text = .ok .empty ↔
      json.parse text = .ok metadata := by
  show (match json.parse text with
    | .ok value => if value = metadata then .ok Metadata.empty else .error "other metadata"
    | .error error => .error error) = Except.ok Metadata.empty ↔ _
  cases json.parse text with
  | error error => simp
  | ok value =>
    by_cases same : value = metadata <;> simp [same]

/-- A row of the batch comes back exactly when it is restorable. -/
theorem loadsBack_iff (payload : row.payload ≠ .null) (metadata : row.metadata ≠ .null)
    (version : row.eventVersion < 2 ^ 32) (recorded : inI64 row.recordedAtMs = true)
    (revised : revision ≤ i64Max) :
    LoadsBack json aggregateType aggregateId revision row
        (rowCells aggregateType aggregateId (.integer revision) row) ↔ Restorable json row := by
  have within : row.recordedAtMs ≤ i64Max := by
    cases millis : row.recordedAtMs with
    | ofNat millis' =>
      rw [millis] at recorded
      exact Int.ofNat_le.mpr (of_decide_eq_true recorded)
    | negSucc _ => omega
  constructor
  · intro loads
    have numbered : (1 : Nat) ≤ i64Max := by decide
    have loaded := loads (valueSerde json row.metadata) row.payload .empty () 1
      (fun _ read => read) (fun _ read => (valueSerde_metadata).mpr read) (.inl rfl) within numbered
    rw [resultRow_storedRow payload metadata version recorded revised numbered,
      rowToEnvelope_ok] at loaded
    constructor
    · exact (survives_iff).mpr ⟨payload, (loadedRow_payload).mp loaded.payload⟩
    · exact (survives_iff).mpr
        ⟨metadata, (valueSerde_metadata).mp ((loadedRow_metadata).mp loaded.metadata)⟩
    · exact ((loadedRow_recordedAt).mp loaded.recordedAt).1
  · intro restorable E Id serde event context id sequence carried described stands timely numbered
    rw [resultRow_storedRow payload metadata version recorded revised numbered]
    exact loadedRow_decodes revised numbered version stands
      (carried _ ((survives_iff).mp restorable.payload).2)
      (described _ ((survives_iff).mp restorable.metadata).2) restorable.recordedAt within timely

/-- What the payload column of a row keeps. -/
theorem payload_cell {sequence : Nat} (present : row.payload ≠ .null) :
    cell (storedRow json sequence (rowCells aggregateType aggregateId (.integer revision) row))
      "payload" = .text (storedText json row.payload) := by
  rw [← textAffinity_toHranaArg present]
  simp [cell, storedRow, rowCells, columnAffinity, integerColumns, List.lookup_cons]

end RoundTrip

section Batches

variable {json : JsonStorage} {records : List EventRecord} {aggregateType aggregateId : String}
  {table : String} {expected : ExpectedRevision} {rows : List AppendEventRow}
  {append : Statement × List JsonValue}

/-- New and distinct event ids, versions and times of their types, and room for the batch. -/
structure PlainBatch (records : List EventRecord) (aggregateType aggregateId : String)
    (rows : List AppendEventRow) : Prop where
  distinct : (rows.map AppendEventRow.eventId).Nodup
  fresh : ∀ row ∈ rows, ∀ record ∈ records, record.eventId ≠ row.eventId
  versions : ∀ row ∈ rows, row.eventVersion < 2 ^ 32
  times : ∀ row ∈ rows, inI64 row.recordedAtMs = true
  room : currentRevisionOf records aggregateType aggregateId + rows.length ≤ i64Max

/-- Values that survive are stored as different values if they differ. -/
theorem Survives.stored_inj {first second : JsonValue} (one : Survives json first)
    (two : Survives json second)
    (same : textAffinity json (toHranaArg first) = textAffinity json (toHranaArg second)) :
    first = second := by
  rw [textAffinity_toHranaArg ((survives_iff).mp one).1,
    textAffinity_toHranaArg ((survives_iff).mp two).1] at same
  exact one.storedText_inj two (Value.text.inj same)

/-- What a batch that can be stored adds. -/
theorem sqliteAfter_added {added : List Row}
    (built : buildSqliteAppendStatement table aggregateType aggregateId expected rows = .ok append)
    (admitted : sqliteAdmits expected (currentRevisionOf records aggregateType aggregateId) = true)
    (room : currentRevisionOf records aggregateType aggregateId + rows.length ≤ i64Max)
    (grown : sqliteAfter true (records.map EventRecord.cells) append =
      records.map EventRecord.cells ++ added) (some_row : added ≠ []) :
    Storable records rows ∧ added = batchRows aggregateType aggregateId
      (currentRevisionOf records aggregateType aggregateId) rows := by
  rw [sqliteAfter_eq built, if_pos admitted,
    (assignedRows_eq_iff (sqlite_bound built).1).mpr room] at grown
  split at grown
  · rename_i after stored
    obtain ⟨storable, whole⟩ := batchRows_stored_iff.mp stored
    rw [whole, List.append_cancel_left_eq] at grown
    exact ⟨storable, grown.symm⟩
  · exact absurd (List.append_right_eq_self.mp grown.symm) some_row

theorem zip_batchRows {current : Nat} {entry : AppendEventRow × Row}
    (member : entry ∈ rows.zip (batchRows aggregateType aggregateId current rows)) :
    ∃ revision : Nat, entry.1 ∈ rows ∧
      entry.2 = rowCells aggregateType aggregateId (.integer revision) entry.1 := by
  obtain ⟨index, within, same⟩ := List.mem_iff_getElem.mp member
  rw [List.getElem_zip] at same
  rw [← same]
  refine ⟨current + (index + 1), List.getElem_mem _, ?_⟩
  simp [batchRows]

theorem batch_loadsBack_iff (batch : PlainBatch records aggregateType aggregateId rows)
    (required : ∀ row ∈ rows, row.payload ≠ .null ∧ row.metadata ≠ .null) :
    List.Forall₂ (fun entry stored => LoadsBack json aggregateType aggregateId
        (currentRevisionOf records aggregateType aggregateId + (entry.2 + 1)) entry.1 stored)
        rows.zipIdx (batchRows aggregateType aggregateId
          (currentRevisionOf records aggregateType aggregateId) rows) ↔
      ∀ row ∈ rows, Restorable json row := by
  have each : ∀ entry ∈ rows.zipIdx, LoadsBack json aggregateType aggregateId
      (currentRevisionOf records aggregateType aggregateId + (entry.2 + 1)) entry.1
      (rowCells aggregateType aggregateId
        (.integer (currentRevisionOf records aggregateType aggregateId + (entry.2 + 1) : Nat))
        entry.1) ↔ Restorable json entry.1 := by
    intro entry listed
    have member : entry.1 ∈ rows := List.fst_mem_of_mem_zipIdx listed
    have inside := List.snd_lt_of_mem_zipIdx listed
    have room := batch.room
    exact loadsBack_iff (required _ member).1 (required _ member).2 (batch.versions _ member)
      (batch.times _ member) (by omega)
  rw [batchRows, List.forall₂_map_right_iff, List.forall₂_same]
  constructor
  · intro loads row member
    rw [← List.zipIdx_map_fst 0 rows] at member
    obtain ⟨entry, listed, rfl⟩ := List.mem_map.mp member
    exact (each entry listed).mp (loads entry listed)
  · intro restorable entry listed
    exact (each entry listed).mpr (restorable entry.1 (List.fst_mem_of_mem_zipIdx listed))

theorem roundTrips_iff
    (built : buildSqliteAppendStatement table aggregateType aggregateId expected rows = .ok append)
    (admitted : sqliteAdmits expected (currentRevisionOf records aggregateType aggregateId) = true)
    (batch : PlainBatch records aggregateType aggregateId rows) :
    RoundTrips json records aggregateType aggregateId rows append ↔
      ∀ row ∈ rows, Restorable json row := by
  have some_row := (sqlite_bound built).1
  constructor
  · rintro ⟨added, grown, loads, _⟩
    have some_added : added ≠ [] := by
      rintro rfl
      have none := List.forall₂_nil_right_iff.mp loads
      exact some_row (List.zipIdx_eq_nil_iff.mp none)
    obtain ⟨storable, rfl⟩ := sqliteAfter_added built admitted batch.room grown some_added
    exact (batch_loadsBack_iff batch storable.required).mp loads
  · intro restorable
    have required : ∀ row ∈ rows, row.payload ≠ .null ∧ row.metadata ≠ .null := by
      intro row member
      exact ⟨((survives_iff).mp (restorable row member).payload).1,
        ((survives_iff).mp (restorable row member).metadata).1⟩
    refine ⟨batchRows aggregateType aggregateId
      (currentRevisionOf records aggregateType aggregateId) rows, ?_, ?_, ?_⟩
    · exact (sqliteAfter_batch_iff built admitted).mpr
        ⟨batch.room, batch.distinct, batch.fresh, required⟩
    · exact (batch_loadsBack_iff batch required).mpr restorable
    · intro first one second two differ sequence other same
      obtain ⟨revision, firstIn, firstCells⟩ := zip_batchRows one
      obtain ⟨next, secondIn, secondCells⟩ := zip_batchRows two
      rw [firstCells, secondCells, payload_cell (required _ firstIn).1,
        payload_cell (required _ secondIn).1] at same
      exact differ ((restorable _ firstIn).payload.storedText_inj
        (restorable _ secondIn).payload (Value.text.inj same))

/-- A batch comes back exactly when its values survive and its times are after the epoch, and
values that survive are never kept as the same value. -/
theorem libsqlRoundTrip_iff (json : JsonStorage) :
    (∀ {records : List EventRecord} {table aggregateType aggregateId : String}
        {expected : ExpectedRevision} {rows : List AppendEventRow}
        {append : Statement × List JsonValue},
      buildSqliteAppendStatement table aggregateType aggregateId expected rows = .ok append →
      sqliteAdmits expected (currentRevisionOf records aggregateType aggregateId) = true →
      PlainBatch records aggregateType aggregateId rows →
      (RoundTrips json records aggregateType aggregateId rows append ↔
        ∀ row ∈ rows, Restorable json row)) ∧
    ∀ first second : JsonValue, Survives json first → Survives json second →
      textAffinity json (toHranaArg first) = textAffinity json (toHranaArg second) →
      first = second :=
  ⟨roundTrips_iff, fun _ _ one two same => one.stored_inj two same⟩

end Batches

/-- Integers, strings and whatever starts as an array or an object. -/
def plainStorage : JsonStorage where
  parse text :=
    match parseSigned text with
    | .ok number => .ok (.integer number)
    | .error _ =>
      match serdeJson.read text with
      | .ok value => .ok (.string value)
      | .error error =>
        if text.toList.head? = some '[' ∨ text.toList.head? = some '\x7b' then
          .ok (.compound text)
        else .error error
  realText _ := "1.0"
  parse_integer number within := by
    rw [(parseSigned_integerText number number).mpr ⟨rfl, within⟩]
  parse_string text value read := by
    split at read
    · cases read
    · split at read
      · rename_i quoted
        cases read
        exact serdeJson.shorter text value quoted
      · split at read <;> cases read
  parse_real _ number := by
    have unread : parseSigned "1.0" = .error "invalid digit found in string" := rfl
    have plain : serdeJson.read "1.0" = .error "expected value at line 1 column 1" := rfl
    rw [unread, plain]
    simp

theorem openedRow_batch (payload : JsonValue) :
    PlainBatch [] "Account" "a" [{ openedRow with payload := payload }] where
  distinct := List.nodup_singleton _
  fresh row _ record none := by cases none
  versions row member := by
    rw [List.mem_singleton.mp member]
    show openedRow.eventVersion < 2 ^ 32
    decide
  times row member := by
    rw [List.mem_singleton.mp member]
    show inI64 openedRow.recordedAtMs = true
    decide
  room := by
    show 0 + 1 ≤ i64Max
    decide

/-- An integer, an array and an object. -/
def plainRows : List AppendEventRow :=
  [{ openedRow with payload := .integer (-5) },
    { openedRow with eventId := "evt-2", payload := .compound "[1]" },
    { openedRow with eventId := "evt-3", payload := .compound "\x7b\"n\":1\x7d" }]

theorem plainRows_restorable : ∀ row ∈ plainRows, Restorable plainStorage row := by
  intro row member
  rw [plainRows, List.mem_cons, List.mem_cons, List.mem_singleton] at member
  rcases member with rfl | rfl | rfl
  · exact ⟨rfl, rfl, by decide⟩
  · exact ⟨rfl, rfl, by decide⟩
  · exact ⟨rfl, rfl, by decide⟩

/-- Three events come back behind the two of their stream, and the integer is not kept as the
array is. -/
theorem libsqlRoundTrip_iff_plainRows :
    (∃ append, buildSqliteAppendStatement "events" "Account" "b" (.exact 2) plainRows =
        .ok append ∧
      RoundTrips plainStorage openedAccounts "Account" "b" plainRows append) ∧
    textAffinity plainStorage (toHranaArg (.integer (-5))) ≠
      textAffinity plainStorage (toHranaArg (.compound "[1]")) := by
  obtain ⟨append, built⟩ : ∃ append, buildSqliteAppendStatement "events" "Account" "b" (.exact 2)
    plainRows = .ok append := ⟨_, rfl⟩
  have batch : PlainBatch openedAccounts "Account" "b" plainRows :=
    ⟨by decide, by decide, by decide, by decide, by decide⟩
  obtain ⟨roundTrips, kept⟩ := libsqlRoundTrip_iff plainStorage
  refine ⟨⟨append, built, (roundTrips built (by decide) batch).mpr plainRows_restorable⟩, ?_⟩
  intro same
  have fits : inI64 (-5) = true := by decide
  have equal := kept (.integer (-5)) (.compound "[1]") fits rfl same
  cases equal

/-- A unit variant, a flag, a null and a number beyond `i64` do not come back, and `true`, `1`
and `"1"` are kept as the same text. -/
theorem libsqlRoundTrip_fails :
    (∀ payload ∈ [JsonValue.string "Created", .bool true, .null, .integer 18446744073709551615],
      ∃ append, buildSqliteAppendStatement "events" "Account" "a" .noStream
          [{ openedRow with payload := payload }] = .ok append ∧
        ¬RoundTrips plainStorage [] "Account" "a" [{ openedRow with payload := payload }]
          append) ∧
      textAffinity plainStorage (toHranaArg (.bool true)) = .text "1" ∧
      textAffinity plainStorage (toHranaArg (.integer 1)) = .text "1" ∧
      textAffinity plainStorage (toHranaArg (.string "1")) = .text "1" := by
  constructor
  · intro payload listed
    obtain ⟨append, built⟩ : ∃ append, buildSqliteAppendStatement "events" "Account" "a" .noStream
      [{ openedRow with payload := payload }] = .ok append := ⟨_, rfl⟩
    refine ⟨append, built, ?_⟩
    rw [roundTrips_iff built (by decide) (openedRow_batch payload)]
    intro restorable
    have survives := (restorable _ (List.mem_singleton_self _)).payload
    simp only [List.mem_cons, List.not_mem_nil, or_false] at listed
    rcases listed with rfl | rfl | rfl | rfl
    · exact survives
    · exact survives
    · exact survives
    · exact absurd survives (show inI64 18446744073709551615 ≠ true by decide)
  · exact ⟨rfl, rfl, rfl⟩

end DddCqrsEs
