import DddCqrsEs.GlobalFeed
import DddCqrsEs.MemoryRefinement
import DddCqrsEs.RawFeeds
import DddCqrsEs.RedisFeed

/- The raw feeds of the in-memory, SQLite, Redis and JSON-file stores. Each derives the text of
an aggregate id by a route of its own. -/
namespace DddCqrsEs

open Numbering (Continues inOrder)

section Memory

variable {A : Aggregate} {Json : Type}

/-- The serialization derived for the ids and the events of an aggregate type. -/
structure RawSerializer (A : Aggregate) (Json : Type) where
  idToString : A.Id → Except String String
  payloadToValue : A.Event → Except String Json

def MemoryState.rawEnvelope (serializer : RawSerializer A Json)
    (envelope : EventEnvelope A.Event A.Id) :
    Except EventStoreError (EventEnvelope Json String) := do
  let payload ← (serializer.payloadToValue envelope.payload).mapError
    (fun error => EventStoreError.serialization ("payload JSON: " ++ error) none)
  let aggregateId ← (serializer.idToString envelope.aggregateId).mapError
    (fun error => EventStoreError.serialization ("aggregate_id: " ++ error) none)
  return ⟨envelope.eventId, aggregateId, envelope.aggregateType, envelope.revision,
    envelope.sequence, envelope.eventType, envelope.eventVersion, payload, envelope.metadata,
    envelope.recordedAt⟩

def MemoryState.loadRawGlobalAfterLimited (serializer : RawSerializer A Json)
    (state : MemoryState A) (sequence : Option Nat) (limit : Nat) :
    Except EventStoreError (List (EventEnvelope Json String)) :=
  (state.loadGlobalAfterLimited sequence limit).mapM (rawEnvelope serializer)

/-- One aggregate type by itself. -/
def soleType (A : Aggregate) : AggregateTypes Unit := ⟨fun _ => A, fun _ _ _ => rfl⟩

def committedEntries {ι : Type} (types : AggregateTypes ι) (i : ι)
    (result : Except EventStoreError (EventStream (types.aggregate i))) : List types.Entry :=
  match result with
  | .ok committed => types.tagged i committed
  | .error _ => []

variable {events : EventStream A} {state : MemoryState A} {entries : List (soleType A).Entry}
  {serializer : RawSerializer A Json}

theorem numbered_above {first : Nat}
    (numbered : events.map (·.sequence) = (List.range' first events.length).map some) :
    ∀ event ∈ events, first ≤ sequenceOf event := by
  intro event member
  have listed := List.mem_map_of_mem (f := (·.sequence)) member
  rw [numbered, List.mem_map] at listed
  obtain ⟨sequence, inside, same⟩ := listed
  rw [sequenceOf, ← same]
  exact (List.mem_range'_1.mp inside).1

/-- In an ascending list, what a binary search cuts off is what lies at or below the cursor. -/
theorem drop_partitionPoint {first : Nat} (cursor : Nat)
    (numbered : events.map (·.sequence) = (List.range' first events.length).map some) :
    events.drop (MemoryState.partitionPoint events (fun event => event.sequence.any (· ≤ cursor))) =
      events.filter (fun event => cursor < sequenceOf event) := by
  induction events generalizing first with
  | nil => rfl
  | cons event rest ih =>
    rw [List.length_cons, List.range'_succ] at numbered
    obtain ⟨head, later⟩ := List.cons.inj numbered
    have head : event.sequence = some first := head
    have placed : sequenceOf event = first := by
      rw [sequenceOf, head]
      rfl
    rw [MemoryState.partitionPoint, List.takeWhile_cons, List.filter_cons, head, placed]
    by_cases below : first ≤ cursor
    · rw [if_pos (by simpa using below), if_neg (by simpa using below)]
      exact ih later
    · rw [if_neg (by simpa using below), if_pos (by simpa using below)]
      have above : ∀ event ∈ rest, cursor < sequenceOf event := by
        intro event member
        have := numbered_above later event member
        omega
      rw [List.filter_eq_self.mpr (fun event member => decide_eq_true (above event member))]
      rfl

variable [DecidableEq A.Id]

def memoryRawFeed (serializer : RawSerializer A Json) :
    RawFeedStore (soleType A) (MemoryState A) (TypedAppend (soleType A)) Json where
  empty := .new
  append state call :=
    let out := state.append call.aggregateId call.expectedRevision call.events
    (committedEntries (soleType A) () out.1, out.2)
  loadRawGlobalAfterLimited := MemoryState.loadRawGlobalAfterLimited serializer

/-- The text of an id as the in-memory store gives it. -/
def NamedByJson (serializer : RawSerializer A Json) (entry : (soleType A).Entry)
    (text : String) : Prop :=
  serializer.idToString entry.2.aggregateId = .ok text

/-- Ids and events of the aggregate type serialize. -/
structure RawSerializer.Total (serializer : RawSerializer A Json) : Prop where
  id : ∀ id, ∃ text, serializer.idToString id = .ok text
  payload : ∀ payload, ∃ value, serializer.payloadToValue payload = .ok value

def MemoryHolds (state : MemoryState A) (entries : List (soleType A).Entry) : Prop :=
  ∃ log, MemoryState.Represents state log ∧ entries = (soleType A).tagged () log.envelopes

theorem newMemory_holds : MemoryHolds (.new : MemoryState A) [] :=
  ⟨[], MemoryState.new_represents, rfl⟩

theorem MemoryHolds.append (holds : MemoryHolds state entries) (aggregateId : A.Id)
    (expectedRevision : ExpectedRevision) (events : List (NewEvent A.Event × Stamp)) :
    MemoryHolds (state.append aggregateId expectedRevision events).2
      (entries ++ committedEntries (soleType A) ()
        (state.append aggregateId expectedRevision events).1) := by
  obtain ⟨log, represents, rfl⟩ := holds
  cases checked : checkExpectedRevision expectedRevision (state.actualRevision aggregateId) with
  | error error =>
    rw [MemoryState.append_of_error checked]
    exact ⟨log, represents, List.append_nil _⟩
  | ok admitted =>
    obtain ⟨after, appended, extended⟩ :=
      MemoryState.append_accepted events represents checked
    rw [appended]
    refine ⟨_, extended, ?_⟩
    rw [EventLog.envelopes_append]
    exact List.map_append.symm

theorem MemoryState.Represents.loadGlobalAfterLimited {log : EventLog A}
    (represents : Represents state log) (sequence : Option Nat) (limit : Nat) :
    state.loadGlobalAfterLimited sequence limit =
      (log.envelopes.filter (fun event => sequence.getD 0 < sequenceOf event)).take limit := by
  have numbered := EventLog.envelopes_sequences log
  rw [← EventLog.envelopes_length] at numbered
  have start : log.envelopes.drop (state.firstIndexAfter sequence) =
      log.envelopes.filter (fun event => sequence.getD 0 < sequenceOf event) := by
    cases sequence with
    | some cursor =>
      have found := drop_partitionPoint cursor numbered
      rw [← represents.global] at found ⊢
      exact found
    | none =>
      have all := numbered_above numbered
      exact (List.filter_eq_self.mpr
        (fun event member => decide_eq_true (all event member))).symm
  have length : (log.envelopes.drop (state.firstIndexAfter sequence)).length =
      log.envelopes.length - state.firstIndexAfter sequence := List.length_drop
  rw [← start, MemoryState.loadGlobalAfterLimited, represents.global, List.drop_take,
    List.take_eq_take_iff, length]
  omega

theorem MemoryHolds.load (total : serializer.Total) (holds : MemoryHolds state entries)
    (sequence : Option Nat) (limit : Nat) :
    ∃ raw, state.loadRawGlobalAfterLimited serializer sequence limit = .ok raw ∧
      List.Forall₂ (SameEvent (NamedByJson serializer)) raw (window sequence limit entries) := by
  obtain ⟨log, represents, rfl⟩ := holds
  let tag (envelope : EventEnvelope A.Event A.Id) : (soleType A).Entry := ⟨(), envelope⟩
  have covered : window sequence limit ((soleType A).tagged () log.envelopes) =
      (state.loadGlobalAfterLimited sequence limit).map tag := by
    show ((log.envelopes.map tag).filter _).take limit = _
    rw [represents.loadGlobalAfterLimited, List.filter_map, List.map_take]
    rfl
  have related : List.Forall₂ (fun envelope entry => tag envelope = entry)
      (state.loadGlobalAfterLimited sequence limit)
      ((state.loadGlobalAfterLimited sequence limit).map tag) := by
    rw [List.forall₂_map_right_iff, List.forall₂_same]
    exact fun _ _ => rfl
  rw [covered]
  apply forall₂_mapM related
  rintro envelope entry rfl
  obtain ⟨text, serialized⟩ := total.id envelope.aggregateId
  obtain ⟨value, converted⟩ := total.payload envelope.payload
  refine ⟨⟨envelope.eventId, text, envelope.aggregateType, envelope.revision, envelope.sequence,
    envelope.eventType, envelope.eventVersion, value, envelope.metadata, envelope.recordedAt⟩, ?_,
    rfl, serialized, rfl, rfl, rfl, rfl⟩
  rw [MemoryState.rawEnvelope, converted, serialized]
  rfl

theorem memoryRawFeed_law (total : serializer.Total) :
    (memoryRawFeed serializer).Law (NamedByJson serializer) (fun _ _ _ => True) MemoryHolds where
  empty := newMemory_holds
  append := fun call holds => holds.append call.aggregateId call.expectedRevision call.events
  load := fun sequence limit holds _ => holds.load total sequence limit

end Memory

section Tables

variable {ι : Type} {types : AggregateTypes ι} (codec : ∀ i, RowCodec (types.aggregate i))

/-- The text of an id as it identifies the stream in storage. -/
def NamedByKey (entry : types.Entry) (text : String) : Prop :=
  (codec entry.1).serializeId entry.2.aggregateId = .ok text

structure HoldsRow (row : StoredEventRow) (entry : types.Entry) : Prop where
  stored : StoredAs (codec entry.1) row entry.2
  key : NamedByKey codec entry row.aggregateId

structure TableHolds (table : EventsTable) (entries : List types.Entry) : Prop where
  rows : List.Forall₂ (HoldsRow codec) table.rows entries
  sequences : table.rows.map (·.sequence) = List.range' 1 table.lastSequence

/-- The texts that the stores write are JSON, and the upcasters of the reading store take the
payloads. -/
structure ReadsTexts {A : Aggregate} (reader : RowReader A) : Prop where
  payload : ∀ i payload text, (codec i).payloadJson payload = .ok text → ∀ eventType eventVersion,
    ∃ prepared value, reader.preparePayload eventType eventVersion text = .ok prepared ∧
      reader.fromStr prepared.2 = .ok value
  metadata : ∀ i metadata text, (codec i).metadataJson metadata = .ok text →
    ∃ value described, reader.fromStr text = .ok value ∧
      reader.metadataFromValue value = .ok described

variable {codec}

theorem HoldsRow.raw {A : Aggregate} {reader : RowReader A} (reads : ReadsTexts codec reader)
    {row : StoredEventRow} {entry : types.Entry} (held : HoldsRow codec row entry) :
    ∃ raw, reader.rawEnvelopeFromStoredRow row = .ok raw ∧
      SameEvent (NamedByKey codec) raw entry := by
  obtain ⟨prepared, value, upcasted, parsed⟩ :=
    reads.payload entry.1 _ _ held.stored.payload row.eventType row.eventVersion
  obtain ⟨metadataValue, metadata, parsedMetadata, described⟩ :=
    reads.metadata entry.1 _ _ held.stored.metadata
  have payload : reader.preparedValue row = .ok (prepared.1, value) := by
    rw [RowReader.preparedValue, upcasted]
    show ((reader.fromStr prepared.2).mapError _ >>= _) = _
    rw [parsed]
    rfl
  have readMetadata : reader.preparedMetadata row = .ok metadata := by
    rw [RowReader.preparedMetadata, parsedMetadata]
    show (reader.metadataFromValue metadataValue).mapError _ = _
    rw [described]
    rfl
  refine ⟨⟨row.eventId, row.aggregateId, row.aggregateType, row.revision, some row.sequence,
    row.eventType, prepared.1, value, metadata,
    RowReader.millisToSystemTime row.recordedAtMs⟩, ?_, held.stored.eventId, held.key,
    held.stored.aggregateType, held.stored.revision, held.stored.sequence, held.stored.eventType⟩
  rw [RowReader.rawEnvelopeFromStoredRow, payload, bind_of_ok rfl, readMetadata]
  rfl

namespace TableHolds

theorem nil : TableHolds codec .empty [] := ⟨.nil, rfl⟩

theorem length {table : EventsTable} {entries : List types.Entry}
    (holds : TableHolds codec table entries) : entries.length = table.lastSequence := by
  have counted := congrArg List.length holds.sequences
  rw [List.length_map, List.length_range'] at counted
  rw [← counted, holds.rows.length_eq]

theorem window {table : EventsTable} {entries : List types.Entry}
    (holds : TableHolds codec table entries) (sequence : Option Nat) (limit : Nat) :
    List.Forall₂ (HoldsRow codec)
      ((table.rows.filter (fun row => sequence.getD 0 < row.sequence)).take limit)
      (window sequence limit entries) := by
  apply List.forall₂_take
  apply List.rel_filter _ holds.rows
  intro row entry held
  have same : sequenceOf entry.2 = row.sequence := by
    rw [sequenceOf, ← held.stored.sequence]
    rfl
  dsimp only
  rw [same]

/-- The rows stand in the order of their sequences, so that sorting them moves none. -/
theorem inTableOrder {table : EventsTable} {entries : List types.Entry}
    (holds : TableHolds codec table entries) (sequence : Option Nat) (limit : Nat) :
    loadGlobalAfterLimited .raw table.rows sequence limit =
      (table.rows.filter (fun row => sequence.getD 0 < row.sequence)).take limit := by
  have ascending : (table.rows.map (·.sequence)).Pairwise (· ≤ ·) := by
    rw [holds.sequences]
    exact List.pairwise_le_range'
  have sorted : inOrder (·.sequence)
      (table.rows.filter (fun row => sequence.getD 0 < row.sequence)) =
      table.rows.filter (fun row => sequence.getD 0 < row.sequence) :=
    Numbering.inOrder_of_pairwise (ascending.sublist (List.filter_sublist.map _))
  have all : table.rows.filter (fun row =>
      FeedScope.admits .raw row ∧ sequence.getD 0 < row.sequence) =
      table.rows.filter (fun row => sequence.getD 0 < row.sequence) := by
    simp only [FeedScope.admits, true_and]
  rw [loadGlobalAfterLimited, all]
  exact congrArg (List.take limit) sorted

theorem load {A : Aggregate} {reader : RowReader A} (reads : ReadsTexts codec reader)
    {table : EventsTable} {entries : List types.Entry} (holds : TableHolds codec table entries)
    (sequence : Option Nat) (limit : Nat) :
    ∃ raw, ((table.rows.filter (fun row => sequence.getD 0 < row.sequence)).take limit).mapM
        reader.rawEnvelopeFromStoredRow = .ok raw ∧
      List.Forall₂ (SameEvent (NamedByKey codec)) raw (DddCqrsEs.window sequence limit entries) :=
  forall₂_mapM (holds.window sequence limit) (fun _ _ held => held.raw reads)

theorem extend {table after : EventsTable} {entries : List types.Entry}
    (holds : TableHolds codec table entries) {added : List StoredEventRow} {i : ι}
    {committed : EventStream (types.aggregate i)} (grown : after.rows = table.rows ++ added)
    (held : List.Forall₂ (HoldsRow codec) added (types.tagged i committed))
    (sequences : after.rows.map (·.sequence) = List.range' 1 after.lastSequence) :
    TableHolds codec after (entries ++ types.tagged i committed) := by
  refine ⟨?_, sequences⟩
  rw [grown]
  exact List.rel_append holds.rows held

end TableHolds

theorem PreparedEvent.committed_aggregateId {A : Aggregate} {codec : RowCodec A}
    (aggregateId : A.Id) (revision sequence : Nat) (events : List (PreparedEvent codec)) :
    ∀ envelope ∈ committed aggregateId revision sequence events,
      envelope.aggregateId = aggregateId := by
  induction events generalizing revision sequence with
  | nil => exact fun _ member => absurd member List.not_mem_nil
  | cons event rest ih =>
    rw [committed, List.forall_mem_cons]
    exact ⟨rfl, ih (revision + 1) (sequence + 1)⟩

/-- A batch stored under one key holds its events under it. -/
theorem holdsRows_tagged {i : ι} {aggregateId : (types.aggregate i).Id} {key : String}
    {added : List StoredEventRow} {committed : EventStream (types.aggregate i)}
    (serialized : (codec i).serializeId aggregateId = .ok key)
    (stored : List.Forall₂ (StoredAs (codec i)) added committed)
    (keyed : ∀ row ∈ added, row.aggregateId = key)
    (own : ∀ envelope ∈ committed, envelope.aggregateId = aggregateId) :
    List.Forall₂ (HoldsRow codec) added (types.tagged i committed) := by
  induction stored with
  | nil => exact .nil
  | @cons row envelope added committed head _ ih =>
    rw [List.forall_mem_cons] at keyed own
    refine .cons ⟨head, ?_⟩ (ih keyed.2 own.2)
    show (codec i).serializeId envelope.aggregateId = .ok row.aggregateId
    rw [own.1, keyed.1, serialized]

/-- `SELECT … WHERE sequence > ?1 ORDER BY sequence ASC LIMIT ?2`, for a store that decodes
with `reader`. -/
def EventsTable.loadRawGlobalAfterLimited {A : Aggregate} (reader : RowReader A)
    (table : EventsTable) (sequence : Option Nat) (limit : Nat) :
    Except EventStoreError (List (EventEnvelope reader.Json String)) :=
  if i64Max < sequence.getD 0 then
    .error (.deserialization "global sequence exceeds SQLite INTEGER" none)
  else if i64Max < limit then
    .error (.deserialization "event replay limit exceeds SQLite INTEGER" none)
  else
    (loadGlobalAfterLimited .raw table.rows sequence limit).mapM reader.rawEnvelopeFromStoredRow

variable (codec) in
/-- The stores of the aggregate types on one SQLite table. A call comes with the database errors
its attempts run into. -/
def sqliteRawFeed {A : Aggregate} (reader : RowReader A) :
    RawFeedStore types EventsTable ((Nat → Option EventStoreError) × TypedAppend types)
      reader.Json where
  empty := .empty
  append table call :=
    match (SqlEventStore.mk .sqlite (codec call.2.type)).append table call.1 call.2.aggregateId
        call.2.expectedRevision call.2.events with
    | .ok (committed, after) => (types.tagged call.2.type committed, after)
    | .error _ => ([], table)
  loadRawGlobalAfterLimited := EventsTable.loadRawGlobalAfterLimited reader

theorem sequenced_sequences (next : Nat) (rows : List StoredEventRow) :
    (sequenced next rows).map (·.sequence) = List.range' next rows.length := by
  induction rows generalizing next with
  | nil => rfl
  | cons row rest ih => rw [sequenced, List.map_cons, ih, List.length_cons, List.range'_succ]

/-- What an attempt adds to the table: the rows of its batch, numbered on. -/
theorem appendPreparedEventsOnce_ok {A : Aggregate} {codec : RowCodec A} {dialect : SqlDialect}
    {table after : EventsTable} {keys : List String} {aggregateId : A.Id}
    {expectedRevision : ExpectedRevision} {prepared : List (PreparedEvent codec)}
    {committed : EventStream A}
    (once : appendPreparedEventsOnce dialect table keys aggregateId expectedRevision prepared =
      .ok (committed, after)) :
    ∃ rows revision,
      after = ⟨table.rows ++ sequenced (table.lastSequence + 1) rows,
        table.lastSequence + rows.length⟩ ∧
      committed =
        PreparedEvent.committed aggregateId revision (table.lastSequence + 1) prepared ∧
      (∀ row ∈ rows, row.aggregateType = A.aggregateType ∧ row.aggregateId = keys.headD "") ∧
      List.Forall₂ (StoredAs codec) (sequenced (table.lastSequence + 1) rows) committed := by
  rw [appendPreparedEventsOnce] at once
  split at once
  · cases once
  · split at once
    · rename_i empty
      cases once
      rw [List.isEmpty_iff] at empty
      subst empty
      exact ⟨[], 0, by simp [sequenced], rfl, by simp, .nil⟩
    · rw [insertPreparedEvents] at once
      split at once
      · cases once
      · rename_i rows fits
        split at once
        · cases once
        · rename_i final written
          cases once
          exact ⟨rows, _, EventsTable.insertAll_ok written, rfl, (PreparedEvent.rows_ok fits).2,
            PreparedEvent.rows_storedAs fits aggregateId _⟩

theorem TableHolds.append {table after : EventsTable} {entries : List types.Entry}
    (holds : TableHolds codec table entries) {i : ι} {fault : Nat → Option EventStoreError}
    {aggregateId : (types.aggregate i).Id} {expectedRevision : ExpectedRevision}
    {events : List (NewEvent (types.aggregate i).Event × Stamp)}
    {committed : EventStream (types.aggregate i)}
    (appended : (SqlEventStore.mk .sqlite (codec i)).append table fault aggregateId
      expectedRevision events = .ok (committed, after)) :
    TableHolds codec after (entries ++ types.tagged i committed) := by
  cases lookup : (codec i).aggregateIdLookupKeys aggregateId with
  | error error =>
    rw [SqlEventStore.append, lookup] at appended
    cases appended
  | ok keys =>
    obtain ⟨prepared, readied, once⟩ := SqlEventStore.append_once lookup appended
    obtain ⟨rows, revision, rfl, same, keyed, stored⟩ := appendPreparedEventsOnce_ok once
    have own : ∀ envelope ∈ committed, envelope.aggregateId = aggregateId := by
      rw [same]
      exact PreparedEvent.committed_aggregateId aggregateId _ _ prepared
    have held : List.Forall₂ (HoldsRow codec) (sequenced (table.lastSequence + 1) rows)
        (types.tagged i committed) :=
      holdsRows_tagged (RowCodec.serializeId_of_lookup lookup) stored
        (fun row member => (sequenced_keys keyed _ row member).2) own
    refine holds.extend rfl held ?_
    show (table.rows ++ sequenced _ rows).map _ = _
    rw [List.map_append, holds.sequences, sequenced_sequences, Nat.add_comm,
      List.range'_append_1]

theorem sqliteRawFeed_law {A : Aggregate} {reader : RowReader A} (reads : ReadsTexts codec reader) :
    (sqliteRawFeed codec reader).Law (NamedByKey codec)
      (fun _ sequence limit => sequence.getD 0 ≤ i64Max ∧ limit ≤ i64Max) (TableHolds codec) where
  empty := .nil
  append := by
    intro table entries call holds
    rw [sqliteRawFeed]
    dsimp only
    split
    · rename_i committed after appended
      exact holds.append appended
    · rw [List.append_nil]
      exact holds
  load := by
    intro table entries sequence limit holds fits
    show ∃ raw, table.loadRawGlobalAfterLimited reader sequence limit = .ok raw ∧ _
    rw [EventsTable.loadRawGlobalAfterLimited, if_neg (by omega), if_neg (by omega),
      holds.inTableOrder]
    exact holds.load reads sequence limit

variable (codec) in
/-- The stores of the aggregate types under one key prefix; the one of type `served` serves the
feed. A call that gets no answer has stored what the answered one returns. -/
def redisRawFeed (keyPrefix : RedisPrefix) (reader : ∀ i, RowReader (types.aggregate i))
    (served : ι) :
    RawFeedStore types RedisServer.KeySpace (Delivery × TypedAppend types) (reader served).Json where
  empty := fun _ => none
  append db call :=
    let store : RedisEventStore (types.aggregate call.2.type) :=
      ⟨keyPrefix, codec call.2.type, reader call.2.type⟩
    let outcome := store.append db call.1 call.2.aggregateId call.2.expectedRevision call.2.events
    let answered :=
      store.append db .answered call.2.aggregateId call.2.expectedRevision call.2.events
    match call.1 with
    | .lost _ => ([], outcome.2)
    | .answered | .unanswered _ =>
      (committedEntries types call.2.type answered.1, outcome.2)
  loadRawGlobalAfterLimited db sequence limit :=
    (RedisEventStore.mk keyPrefix (codec served) (reader served)).loadRawGlobalAfterLimited db
      sequence limit

variable (codec) in
def RedisHolds (keyPrefix : RedisPrefix) (db : RedisServer.KeySpace)
    (entries : List types.Entry) : Prop :=
  ∃ table, Represents keyPrefix db table ∧ TableHolds codec table entries

namespace RedisEventStore

variable {A : Aggregate} {store : RedisEventStore A} {db : RedisServer.KeySpace}
  {aggregateId : A.Id} {expectedRevision : ExpectedRevision}
  {events : List (NewEvent A.Event × Stamp)}

theorem append_lost (error : EventStoreError) :
    (store.append db (.lost error) aggregateId expectedRevision events).2 = db := by
  rw [append]
  split
  · rfl
  · split
    · rfl
    · rw [appendPrepared]
      split <;> rfl

/-- The server does not know whether its answer arrives. -/
theorem append_unanswered (error : EventStoreError) :
    (store.append db (.unanswered error) aggregateId expectedRevision events).2 =
      (store.append db .answered aggregateId expectedRevision events).2 := by
  rw [append, append]
  split
  · rfl
  · split
    · rfl
    · rw [appendPrepared, appendPrepared]
      split <;> rfl

end RedisEventStore

theorem RedisHolds.append {keyPrefix : RedisPrefix} {db : RedisServer.KeySpace}
    {entries : List types.Entry} (holds : RedisHolds codec keyPrefix db entries) {i : ι}
    (reader : RowReader (types.aggregate i)) (aggregateId : (types.aggregate i).Id)
    (expectedRevision : ExpectedRevision)
    (events : List (NewEvent (types.aggregate i).Event × Stamp)) :
    let outcome := (RedisEventStore.mk keyPrefix (codec i) reader).append db .answered aggregateId
      expectedRevision events
    RedisHolds codec keyPrefix outcome.2 (entries ++ committedEntries types i outcome.1) := by
  intro outcome
  obtain ⟨table, represents, held⟩ := holds
  rcases (RedisEventStore.mk keyPrefix (codec i) reader).append_cases represents .answered
    aggregateId expectedRevision events with ⟨same, nothing⟩ |
      ⟨keys, prepared, lookup, _, _, represented, _, answered⟩
  · have none : committedEntries types i outcome.1 = [] := by
      cases result : outcome.1 with
      | error error => rfl
      | ok committed =>
        obtain ⟨empty, _⟩ := nothing committed result
        rw [empty]
        rfl
    rw [none, List.append_nil]
    refine ⟨table, ?_, held⟩
    show Represents keyPrefix outcome.2 table
    rw [same]
    exact represents
  · have returned := answered.resolve_right (fun ⟨_, lost, _⟩ => by cases lost)
    refine ⟨_, represented, ?_⟩
    show TableHolds codec _ (entries ++ committedEntries types i outcome.1)
    rw [show outcome.1 = _ from returned]
    refine held.extend rfl ?_ represented.sequences
    exact holdsRows_tagged (RowCodec.serializeId_of_lookup lookup)
      (PreparedEvent.storedRows_storedAs aggregateId _ _ _ prepared)
      (fun row member => (PreparedEvent.storedRows_keys member).2)
      (PreparedEvent.committed_aggregateId aggregateId _ _ prepared)

/-- What a Redis feed reads exactly: sequences below 10^14, where Lua prints integers exactly, and
event versions of the source's 32 bits. -/
def RedisCovers (entries : List types.Entry) : Prop :=
  entries.length < 10 ^ 14 ∧ ∀ entry ∈ entries, entry.2.eventVersion < 2 ^ 32

theorem TableHolds.bounded {table : EventsTable} {entries : List types.Entry}
    (holds : TableHolds codec table entries) (covers : RedisCovers entries) : Bounded table where
  sequence := by
    rw [← holds.length]
    exact covers.1
  version := by
    intro row member
    obtain ⟨entry, listed, held⟩ := exists_of_forall₂ holds.rows.flip member
    rw [held.stored.eventVersion]
    exact covers.2 entry listed
  recordedAt := by
    intro row member
    obtain ⟨entry, _, held⟩ := exists_of_forall₂ holds.rows.flip member
    exact systemTimeToMillis_le held.stored.recordedAt

theorem redisRawFeed_law (keyPrefix : RedisPrefix) {reader : ∀ i, RowReader (types.aggregate i)}
    {served : ι} (reads : ReadsTexts codec (reader served)) :
    (redisRawFeed codec keyPrefix reader served).Law (NamedByKey codec)
      (fun entries _ _ => RedisCovers entries) (RedisHolds codec keyPrefix) where
  empty := ⟨.empty, empty_represents keyPrefix, .nil⟩
  append := by
    rintro db entries ⟨delivery, call⟩ holds
    cases delivery with
    | answered =>
      exact holds.append (reader call.type) call.aggregateId call.expectedRevision call.events
    | lost error =>
      show RedisHolds codec keyPrefix (RedisEventStore.append _ db (.lost error) _ _ _).2 _
      rw [RedisEventStore.append_lost]
      show RedisHolds codec keyPrefix db (entries ++ [])
      rw [List.append_nil]
      exact holds
    | unanswered error =>
      show RedisHolds codec keyPrefix (RedisEventStore.append _ db (.unanswered error) _ _ _).2 _
      rw [RedisEventStore.append_unanswered]
      exact holds.append (reader call.type) call.aggregateId call.expectedRevision call.events
  load := by
    rintro db entries sequence limit ⟨table, represents, held⟩ covers
    let store := RedisEventStore.mk keyPrefix (codec served) (reader served)
    have rows := store.loadGlobal_rows (reader served).rawEnvelopeFromStoredRow represents
      (held.bounded covers) sequence (some limit)
    have loaded : (redisRawFeed codec keyPrefix reader served).loadRawGlobalAfterLimited db sequence
        limit = _ := rows
    rw [loaded]
    exact held.load reads sequence limit

end Tables

section File

variable {J : Json}

/-- `rawEnvelopeFromValue` is the serialization derived for raw envelopes. Past the filter every
envelope has a sequence. -/
def Json.loadRawGlobalAfterLimited (J : Json)
    (rawEnvelopeFromValue : J.Value → Except String (EventEnvelope J.Value String))
    (file : Option ByteArray) (sequence : Option Nat) (limit : Nat) :
    Except EventStoreError (List (EventEnvelope J.Value String)) := do
  let values ← readEventValues J file
  let envelopes ← values.mapM (fun value =>
    (rawEnvelopeFromValue value).mapError (fun error =>
      EventStoreError.deserialization ("failed to deserialize event envelope: " ++ error) none))
  return (inOrder sequenceOf
    (envelopes.filter (fun envelope => sequence.getD 0 < sequenceOf envelope))).take limit

variable {ι : Type} {types : AggregateTypes ι} (codec : ∀ i, JsonCodec J (types.aggregate i))
  (rowCodec : ∀ i, RowCodec (types.aggregate i))
  (rawEnvelopeFromValue : J.Value → Except String (EventEnvelope J.Value String))

def StringId (entry : types.Entry) : Prop :=
  ∃ text, (rowCodec entry.1).idValue entry.2.aggregateId = .ok (.string text)

/-- The id of an envelope is written as the value it serializes to, and a raw envelope is decoded
where that is a string. -/
structure DecodesStrings : Prop where
  idField : ∀ i value envelope text, Holds (codec i) value envelope →
    (rowCodec i).idValue envelope.aggregateId = .ok (.string text) →
    (J.get value "aggregate_id").bind J.asStr = some text
  raw : ∀ i value envelope text, Holds (codec i) value envelope →
    (J.get value "aggregate_id").bind J.asStr = some text →
    ∃ payload metadata, rawEnvelopeFromValue value =
      .ok ⟨envelope.eventId, text, envelope.aggregateType, envelope.revision, envelope.sequence,
        envelope.eventType, envelope.eventVersion, payload, metadata, envelope.recordedAt⟩

variable {codec rowCodec rawEnvelopeFromValue}

theorem HoldsEntry.raw (decodes : DecodesStrings codec rowCodec rawEnvelopeFromValue)
    {value : J.Value} {entry : types.Entry} (held : HoldsEntry codec value entry)
    (string : StringId rowCodec entry) :
    ∃ raw, rawEnvelopeFromValue value = .ok raw ∧ SameEvent (NamedByKey rowCodec) raw entry := by
  obtain ⟨text, serialized⟩ := string
  have written := decodes.idField entry.1 value entry.2 text held serialized
  obtain ⟨payload, metadata, decoded⟩ := decodes.raw entry.1 value entry.2 text held written
  refine ⟨_, decoded, rfl, ?_, rfl, rfl, rfl, rfl⟩
  show (rowCodec entry.1).serializeId entry.2.aggregateId = .ok text
  rw [RowCodec.serializeId, serialized]

variable [DecidableEq ι] [∀ i, DecidableEq (types.aggregate i).Id]

variable (codec rawEnvelopeFromValue) in
def jsonFileRawFeed : RawFeedStore types (Option ByteArray) (TypedAppend types) J.Value where
  empty := none
  append file call :=
    match (codec call.type).append file call.aggregateId call.expectedRevision call.events with
    | .ok (committed, some write) => (types.tagged call.type committed, write.complete file)
    | _ => ([], file)
  loadRawGlobalAfterLimited := J.loadRawGlobalAfterLimited rawEnvelopeFromValue

variable (codec) in
structure FileHolds (file : Option ByteArray) (entries : List types.Entry) : Prop where
  whole : Whole codec file entries
  numbered : WellNumbered types entries
  ordered : InFileOrder entries

theorem noFile_holds : FileHolds codec none [] :=
  ⟨⟨.missing, Or.inl (fun _ read => by cases read)⟩, ⟨fun _ _ => .nil, .nil⟩, rfl⟩

variable {file : Option ByteArray} {entries : List types.Entry}

theorem FileHolds.append (serializes : Serializes codec) (numbers : NumberFields codec)
    (holds : FileHolds codec file entries) {i : ι} {aggregateId : (types.aggregate i).Id}
    {expectedRevision : ExpectedRevision}
    {events : List (NewEvent (types.aggregate i).Event × Stamp)}
    {committed : EventStream (types.aggregate i)} {write : FileWrite}
    (appended : (codec i).append file aggregateId expectedRevision events =
      .ok (committed, some write)) :
    FileHolds codec (write.complete file) (entries ++ types.tagged i committed) := by
  obtain ⟨records, completed, hold⟩ := append_lines serializes holds.whole appended
  rw [completed]
  refine ⟨whole_unlines hold, ?_, ?_⟩
  · rw [append_numbers serializes numbers holds.whole.stored holds.numbered appended]
    exact holds.numbered.append i aggregateId events
  · rw [append_numbers serializes numbers holds.whole.stored holds.numbered appended]
    exact holds.ordered.append i aggregateId events

theorem FileHolds.load (serializes : Serializes codec)
    (decodes : DecodesStrings codec rowCodec rawEnvelopeFromValue)
    (holds : FileHolds codec file entries) (strings : ∀ entry ∈ entries, StringId rowCodec entry)
    (sequence : Option Nat) (limit : Nat) :
    ∃ raw, J.loadRawGlobalAfterLimited rawEnvelopeFromValue file sequence limit = .ok raw ∧
      List.Forall₂ (SameEvent (NamedByKey rowCodec)) raw (window sequence limit entries) := by
  obtain ⟨values, read, held⟩ := holds.whole.stored.read serializes
  have strung : List.Forall₂ (fun entry value => StringId rowCodec entry ∧
      HoldsEntry codec value entry) entries values :=
    (List.forall₂_and_left _ _).mpr ⟨strings, held.flip⟩
  let decode (value : J.Value) := (rawEnvelopeFromValue value).mapError (fun error =>
    EventStoreError.deserialization ("failed to deserialize event envelope: " ++ error) none)
  have decodesEach : ∀ value entry,
      StringId rowCodec entry ∧ HoldsEntry codec value entry →
      ∃ raw, decode value = .ok raw ∧ SameEvent (NamedByKey rowCodec) raw entry := by
    rintro value entry ⟨string, head⟩
    obtain ⟨raw, decoded, same⟩ := head.raw decodes string
    refine ⟨raw, ?_, same⟩
    show (rawEnvelopeFromValue value).mapError _ = _
    rw [decoded]
    rfl
  obtain ⟨envelopes, decoded, same⟩ := forall₂_mapM strung.flip decodesEach
  have sequences : envelopes.map sequenceOf = entries.map (fun entry => sequenceOf entry.2) := by
    rw [← List.forall₂_eq_eq_eq, List.forall₂_map_left_iff, List.forall₂_map_right_iff]
    exact same.imp (fun _ _ one => one.sequenceOf)
  have ascending : (envelopes.map sequenceOf).Pairwise (· ≤ ·) := by
    rw [sequences]
    exact Numbering.Continues.pairwise holds.ordered
  have sorted : inOrder sequenceOf
      (envelopes.filter (fun envelope => sequence.getD 0 < sequenceOf envelope)) =
      envelopes.filter (fun envelope => sequence.getD 0 < sequenceOf envelope) :=
    Numbering.inOrder_of_pairwise (ascending.sublist (List.filter_sublist.map _))
  have loaded : J.loadRawGlobalAfterLimited rawEnvelopeFromValue file sequence limit =
      .ok ((envelopes.filter (fun envelope => sequence.getD 0 < sequenceOf envelope)).take
        limit) := by
    rw [Json.loadRawGlobalAfterLimited, bind_of_ok read, bind_of_ok decoded, sorted]
    rfl
  refine ⟨_, loaded, ?_⟩
  apply List.forall₂_take
  apply List.rel_filter _ same
  intro raw entry one
  dsimp only
  rw [one.sequenceOf]

theorem jsonFileRawFeed_law (serializes : Serializes codec) (numbers : NumberFields codec)
    (decodes : DecodesStrings codec rowCodec rawEnvelopeFromValue) :
    (jsonFileRawFeed codec rawEnvelopeFromValue).Law (NamedByKey rowCodec)
      (fun entries _ _ => ∀ entry ∈ entries, StringId rowCodec entry) (FileHolds codec) where
  empty := noFile_holds
  append := by
    intro file entries call holds
    rw [jsonFileRawFeed]
    dsimp only
    split
    · rename_i committed write appended
      exact holds.append serializes numbers appended
    · rw [List.append_nil]
      exact holds
  load := fun sequence limit holds strings => holds.load serializes decodes strings sequence limit

end File

section Agreement

variable {ι : Type} {types : AggregateTypes ι} [DecidableEq ι]
  [∀ i, DecidableEq (types.aggregate i).Id]

/-- After every history of appends each feed succeeds and shows the events that the appends have
stored. SQLite, Redis and the JSON file give an id as the key of its stream, the in-memory store
as its JSON text. -/
theorem rawFeeds_history {J : Json} {Value : Type}
    {serializer : ∀ i, RawSerializer (types.aggregate i) Value}
    (total : ∀ i, (serializer i).Total)
    {rowCodec : ∀ i, RowCodec (types.aggregate i)} {reader : ∀ i, RowReader (types.aggregate i)}
    (reads : ∀ i, ReadsTexts rowCodec (reader i))
    {codec : ∀ i, JsonCodec J (types.aggregate i)} (serializes : Serializes codec)
    (numbers : NumberFields codec)
    {rawEnvelopeFromValue : J.Value → Except String (EventEnvelope J.Value String)}
    (decodes : DecodesStrings codec rowCodec rawEnvelopeFromValue) (keyPrefix : RedisPrefix)
    (sequence : Option Nat) (limit : Nat) :
    (∀ i history, (memoryRawFeed (serializer i)).Serves (NamedByJson (serializer i)) history
      sequence limit) ∧
    (∀ i history, sequence.getD 0 ≤ i64Max → limit ≤ i64Max →
      (sqliteRawFeed rowCodec (reader i)).Serves (NamedByKey rowCodec) history sequence limit) ∧
    (∀ i history, RedisCovers ((redisRawFeed rowCodec keyPrefix reader i).after history).1 →
      (redisRawFeed rowCodec keyPrefix reader i).Serves (NamedByKey rowCodec) history sequence
        limit) ∧
    (∀ history,
      (∀ entry ∈ ((jsonFileRawFeed codec rawEnvelopeFromValue).after history).1,
        StringId rowCodec entry) →
      (jsonFileRawFeed codec rawEnvelopeFromValue).Serves (NamedByKey rowCodec) history sequence
        limit) ∧
    ∀ {Json Other : Type} (raw : List (EventEnvelope Json String))
      (other : List (EventEnvelope Other String)) entries,
      List.Forall₂ (SameEvent (NamedByKey rowCodec)) raw entries →
      List.Forall₂ (SameEvent (NamedByKey rowCodec)) other entries →
      raw.map (·.aggregateId) = other.map (·.aggregateId) := by
  refine ⟨?_, ?_, ?_, ?_, ?_⟩
  · intro i history
    exact (memoryRawFeed_law (total i)).serves trivial
  · intro i history cursorFits limitFits
    exact (sqliteRawFeed_law (reads i)).serves ⟨cursorFits, limitFits⟩
  · intro i history covers
    exact (redisRawFeed_law keyPrefix (reads i)).serves covers
  · intro history strings
    exact (jsonFileRawFeed_law serializes numbers decodes).serves strings
  · intro _ _ raw other entries first second
    apply sameEvents_aggregateIds _ first second
    intro entry text key named namedToo
    exact Except.ok.inj (named.symm.trans namedToo)

end Agreement

def accountSerializer : RawSerializer .account String where
  idToString := fun (id : String) => .ok ("\"" ++ id ++ "\"")
  payloadToValue _ := .ok "null"

def accountSerializers (kind : AccountKind) : RawSerializer (accounts.aggregate kind) String where
  idToString := accountSerializer.idToString
  payloadToValue := accountSerializer.payloadToValue

def accountRowCodecs (kind : AccountKind) : RowCodec (accounts.aggregate kind) where
  idValue := accountCodec.idValue
  idJson := accountCodec.idJson
  payloadJson := accountCodec.payloadJson
  metadataJson := accountCodec.metadataJson
  envelopeFromStoredRow := accountCodec.envelopeFromStoredRow

def accountReaders (kind : AccountKind) : RowReader (accounts.aggregate kind) where
  Json := String
  fromStr := accountReader.fromStr
  deserializeId := accountReader.deserializeId
  preparePayload := accountReader.preparePayload
  payloadFromValue := accountReader.payloadFromValue
  metadataFromValue := accountReader.metadataFromValue

def rawAccountFromValue : AccountValue → Except String (EventEnvelope AccountValue String)
  | .envelope envelope =>
    .ok ⟨envelope.eventId, envelope.aggregateId, envelope.aggregateType, envelope.revision,
      envelope.sequence, envelope.eventType, envelope.eventVersion, .text "null",
      envelope.metadata, envelope.recordedAt⟩
  | _ => .error "expected an object"

theorem accountSerializers_total (kind : AccountKind) : (accountSerializers kind).Total where
  id _ := ⟨_, rfl⟩
  payload _ := ⟨_, rfl⟩

theorem accountReaders_readsTexts (kind : AccountKind) :
    ReadsTexts accountRowCodecs (accountReaders kind) where
  payload _ _ text _ _ eventVersion := ⟨(eventVersion, text), text, rfl, rfl⟩
  metadata _ _ text _ := ⟨text, .empty, rfl, rfl⟩

theorem rawAccount_decodesStrings :
    DecodesStrings accountCodecs accountRowCodecs rawAccountFromValue where
  idField kind value envelope text held serialized := by
    cases value with
    | envelope stored =>
      cases held.envelope
      have same : Except.ok (IdValue.string envelope.aggregateId) = .ok (.string text) :=
        serialized
      cases same
      rfl
    | text | number => cases held.envelope
  raw kind value envelope text held written := by
    cases value with
    | envelope stored =>
      cases held.envelope
      cases written
      exact ⟨_, _, rfl⟩
    | text | number => cases held.envelope

def openKind (kind : AccountKind) (aggregateId : String) (expectedRevision : ExpectedRevision)
    (eventIds : List String) : TypedAppend accounts :=
  ⟨kind, aggregateId, expectedRevision, newAccounts eventIds⟩

/-- Both kinds of account are appended to, and one append is rejected. -/
def accountHistory : List (TypedAppend accounts) :=
  [openKind .current "a" .noStream ["e1"], openKind .savings "a" .noStream ["e2"],
    openKind .current "a" (.exact 1) ["e3"], openKind .savings "a" .noStream ["e4"],
    openKind .savings "b" .any ["e4", "e5"]]

/-- On Redis the reply of the third call is lost, and one more call never arrives. -/
def redisHistory : List (Delivery × TypedAppend accounts) :=
  let reset := EventStoreError.backend "connection reset by peer" none
  List.zip [.answered, .answered, .unanswered reset, .answered, .answered] accountHistory ++
    [(.lost reset, openKind .savings "c" .any ["e6"])]

/-- The savings accounts alone, as the in-memory store of their type has them. -/
def savingsHistory : List (TypedAppend (soleType (accounts.aggregate .savings))) :=
  [⟨(), "a", .noStream, newAccounts ["e2"]⟩, ⟨(), "a", .noStream, newAccounts ["e4"]⟩,
    ⟨(), "b", .any, newAccounts ["e4", "e5"]⟩]

/-- Each store shows three events from behind the first one. -/
theorem rawFeeds_history_accounts :
    (memoryRawFeed (accountSerializers .savings)).Serves (NamedByJson (accountSerializers .savings))
        savingsHistory (some 1) 3 ∧
      (sqliteRawFeed accountRowCodecs (accountReaders .savings)).Serves
        (NamedByKey accountRowCodecs) (accountHistory.map (fun call => (fun _ => none, call)))
        (some 1) 3 ∧
      (redisRawFeed accountRowCodecs defaultRedisPrefix accountReaders .savings).Serves
        (NamedByKey accountRowCodecs) redisHistory (some 1) 3 ∧
      (jsonFileRawFeed accountCodecs rawAccountFromValue).Serves (NamedByKey accountRowCodecs)
        accountHistory (some 1) 3 := by
  obtain ⟨memory, sqlite, redis, file, _⟩ := rawFeeds_history accountSerializers_total
    accountReaders_readsTexts accountCodecs_serializes accountCodecs_numberFields
    rawAccount_decodesStrings defaultRedisPrefix (some 1) 3
  refine ⟨memory .savings savingsHistory, ?_, ?_, ?_⟩
  · exact sqlite .savings _ (by decide) (by decide)
  · exact redis .savings redisHistory ⟨by decide +kernel, by decide +kernel⟩
  · exact file accountHistory (fun _ _ => ⟨_, rfl⟩)

/-- The feeds of one account name it in two ways. -/
theorem accountFeeds_differ :
    let memory := memoryRawFeed (accountSerializers .savings)
    let sqlite := sqliteRawFeed accountRowCodecs (accountReaders .savings)
    (memory.loadRawGlobalAfterLimited (memory.after savingsHistory).2 none 1).map
        (fun raw => raw.map (·.aggregateId)) = .ok ["\"a\""] ∧
      (sqlite.loadRawGlobalAfterLimited
          (sqlite.after (accountHistory.map (fun call => (fun _ => none, call)))).2 (some 1) 1).map
        (fun raw => raw.map (·.aggregateId)) = .ok ["a"] :=
  ⟨rfl, rfl⟩

end DddCqrsEs
