import DddCqrsEs.SqlStore

/- How a stored row becomes an envelope again: typed for a store's own loads, untyped for the
raw feed. -/
namespace DddCqrsEs

/-- What the application and the JSON library supply. `preparePayload` is the upcaster
registry. -/
structure RowReader (A : Aggregate) where
  Json : Type
  fromStr : String → Except String Json
  deserializeId : String → Except EventStoreError A.Id
  preparePayload : String → Nat → String → Except String (Nat × String)
  payloadFromValue : Json → Except String A.Event
  metadataFromValue : Json → Except String Metadata

namespace RowReader

variable {A : Aggregate} (reader : RowReader A)

def deserializePayload (eventId eventType : String) (value : reader.Json) :
    Except EventStoreError A.Event :=
  (reader.payloadFromValue value).mapError (fun error =>
    .deserialization ("event_id `" ++ eventId ++ "` event_type `" ++ eventType ++ "` payload: " ++
      error) none)

def deserializeMetadata (eventId : String) (value : reader.Json) :
    Except EventStoreError Metadata :=
  (reader.metadataFromValue value).mapError (fun error =>
    .deserialization ("event_id `" ++ eventId ++ "` metadata: " ++ error) none)

def preparedValue (row : StoredEventRow) : Except EventStoreError (Nat × reader.Json) := do
  let (eventVersion, upcasted) ←
    (reader.preparePayload row.eventType row.eventVersion row.payload).mapError
      (fun error => EventStoreError.deserialization error none)
  let payload ← (reader.fromStr upcasted).mapError
    (fun error => EventStoreError.deserialization ("payload JSON: " ++ error) none)
  return (eventVersion, payload)

def preparedMetadata (row : StoredEventRow) : Except EventStoreError Metadata := do
  let value ← (reader.fromStr row.metadata).mapError
    (fun error => EventStoreError.deserialization ("metadata JSON: " ++ error) none)
  reader.deserializeMetadata row.eventId value

def millisToSystemTime (millis : Nat) : SystemTime := millis * 1000000

def envelopeFromStoredRow (row : StoredEventRow) :
    Except EventStoreError (EventEnvelope A.Event A.Id) := do
  let aggregateId ← reader.deserializeId row.aggregateId
  let (eventVersion, value) ← reader.preparedValue row
  let payload ← reader.deserializePayload row.eventId row.eventType value
  let metadata ← reader.preparedMetadata row
  return ⟨row.eventId, aggregateId, row.aggregateType, row.revision, some row.sequence,
    row.eventType, eventVersion, payload, metadata, millisToSystemTime row.recordedAtMs⟩

/-- The row as the raw feed serves it: the payload stays a JSON value and the id its stored
text. -/
def rawEnvelopeFromStoredRow (row : StoredEventRow) :
    Except EventStoreError (EventEnvelope reader.Json String) := do
  let (eventVersion, payload) ← reader.preparedValue row
  let metadata ← reader.preparedMetadata row
  return ⟨row.eventId, row.aggregateId, row.aggregateType, row.revision, some row.sequence,
    row.eventType, eventVersion, payload, metadata, millisToSystemTime row.recordedAtMs⟩

variable {reader}

theorem rawEnvelopeFromStoredRow_type {row : StoredEventRow}
    {event : EventEnvelope reader.Json String}
    (read : reader.rawEnvelopeFromStoredRow row = .ok event) :
    event.aggregateType = row.aggregateType := by
  obtain ⟨⟨eventVersion, payload⟩, _, read⟩ := ok_of_bind read
  obtain ⟨metadata, _, read⟩ := ok_of_bind read
  cases read
  rfl

/-- An envelope keeps its row's place. -/
theorem envelopeFromStoredRow_ok {row : StoredEventRow} {event : EventEnvelope A.Event A.Id}
    (read : reader.envelopeFromStoredRow row = .ok event) :
    event.eventId = row.eventId ∧ event.aggregateType = row.aggregateType ∧
      event.revision = row.revision ∧ event.sequence = some row.sequence := by
  obtain ⟨aggregateId, _, read⟩ := ok_of_bind read
  obtain ⟨⟨eventVersion, value⟩, _, read⟩ := ok_of_bind read
  obtain ⟨payload, _, read⟩ := ok_of_bind read
  obtain ⟨metadata, _, read⟩ := ok_of_bind read
  cases read
  exact ⟨rfl, rfl, rfl, rfl⟩

end RowReader

end DddCqrsEs
