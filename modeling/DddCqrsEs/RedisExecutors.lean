import DddCqrsEs.CheckpointStores
import DddCqrsEs.Snapshot

/- The Redis stores over an executor of their caller's choice. Executors differ in the shape
of a reply. -/
namespace DddCqrsEs

open RedisServer

/-- What an executor makes of the server's reply. -/
structure RedisClient where
  reply : RedisValue → RedisValue

/-- The raw RESP client hands the reply on. -/
def wasiRedisClient : RedisClient where
  reply value := value

/-- The host of the Spin client answers with a list of scalars, in every case. -/
def spinRedisClient : RedisClient where
  reply
    | .array items => .array items
    | scalar => .array [scalar]

namespace RedisClient

variable (client : RedisClient)

def execute (script : Script RedisValue) (db : KeySpace) : Except EventStoreError RedisValue :=
  (DddCqrsEs.execute script db).map client.reply

/-- A command that may be lost, and the key space after it. -/
def write (delivery : Delivery) (script : Script RedisValue) (db : KeySpace) :
    Except EventStoreError RedisValue × KeySpace :=
  match delivery with
  | .answered => (client.execute script db, afterScript script db)
  | .lost error => (.error error, db)
  | .unanswered error => (.error error, afterScript script db)

end RedisClient

variable {A : Aggregate} {V : Type}

def pageSequencesOver (client : RedisClient) (db : KeySpace) (indexKey : String)
    (limit : Option Nat) : Nat → Nat → List Nat → Except EventStoreError (List Nat)
  | 0, _, _ => .error (.unknown "paging did not end" none)
  | fuel + 1, cursor, sequences => do
      let pageSize := pageLimit limit sequences.length
      if pageSize = 0 then return sequences
      let value ← client.execute (zrangeReply indexKey cursor pageSize) db
      let page ← redisScoredSequencePage value
      let sequences := sequences ++ page.map Prod.fst
      if page.length < pageSize then return sequences
      match page.getLast? with
      | some (_, score) =>
        if cursor < score then pageSequencesOver client db indexKey limit fuel score sequences
        else return sequences
      | none => return sequences

def loadIndexedSequencesOver (client : RedisClient) (db : KeySpace) (indexKey : String)
    (afterScore : Nat) (limit : Option Nat) : Except EventStoreError (List Nat) :=
  pageSequencesOver client db indexKey limit (indexSize db indexKey + 1) afterScore []

namespace RedisEventStore

variable (store : RedisEventStore A) (client : RedisClient)

def currentRevisionOver (db : KeySpace) (aggregateIdKey : String) : Except EventStoreError Nat := do
  let keys := store.keyPrefix.streamKeysForStorageKey A.aggregateType aggregateIdKey
  let value ← client.execute (getReply keys.revisionKey) db
  redisOptionalU64 "stream revision" value

def maxRevisionForAggregateIdOver (db : KeySpace) : List String → Except EventStoreError Nat
  | [] => .ok 0
  | key :: rest => do
      let revision ← store.currentRevisionOver client db key
      let later ← maxRevisionForAggregateIdOver db rest
      return max revision later

def appendNothingOver (db : KeySpace) (keys : List String) (expectedRevision : ExpectedRevision) :
    Except EventStoreError (EventStream A) := do
  let actual ← store.maxRevisionForAggregateIdOver client db keys
  checkExpectedRevision expectedRevision actual
  return []

def appendPreparedOver (db : KeySpace) (delivery : Delivery) (aggregateId : A.Id)
    (keys : List String) (expectedRevision : ExpectedRevision)
    (prepared : List (PreparedEvent store.codec)) :
    Except EventStoreError (EventStream A) × KeySpace :=
  if prepared.isEmpty then
    match delivery with
    | .answered => (store.appendNothingOver client db keys expectedRevision, db)
    | .lost error | .unanswered error => (.error error, db)
  else
    let script := evalAppend
      (store.buildAppendEvalArgs (keys.headD "") expectedRevision prepared)
    let (value, after) := client.write delivery script db
    (value.bind (store.committedFromReply aggregateId expectedRevision prepared), after)

def appendOver (db : KeySpace) (delivery : Delivery) (aggregateId : A.Id)
    (expectedRevision : ExpectedRevision) (events : List (NewEvent A.Event × Stamp)) :
    Except EventStoreError (EventStream A) × KeySpace :=
  match store.codec.aggregateIdLookupKeys aggregateId with
  | .error error => (.error error, db)
  | .ok keys =>
    match events.mapM store.codec.prepare with
    | .error error => (.error error, db)
    | .ok prepared =>
      store.appendPreparedOver client db delivery aggregateId keys expectedRevision prepared

def fetchChunksOver (db : KeySpace) : Nat → List Nat → Except EventStoreError (List RedisHash)
  | 0, _ => .ok []
  | fuel + 1, sequences =>
    if sequences.isEmpty then .ok []
    else do
      let chunk := sequences.take hashFetchChunkSize
      let value ← client.execute
        (fetchHashesLua (chunk.map (fun sequence => store.keyPrefix.key (.event sequence)))) db
      let hashes ← unpackFlatHashBatch value chunk
      let later ← fetchChunksOver db fuel (sequences.drop hashFetchChunkSize)
      return hashes ++ later

def loadSequenceHashesOver (db : KeySpace) (sequences : List Nat) :
    Except EventStoreError (List RedisHash) :=
  store.fetchChunksOver client db sequences.length sequences

def loadStreamOver (db : KeySpace) (aggregateIdKey : String) (revision : Nat) :
    Except EventStoreError (EventStream A) := do
  let keys := store.keyPrefix.streamKeysForStorageKey A.aggregateType aggregateIdKey
  let sequences ← loadIndexedSequencesOver client db keys.streamKey revision none
  let hashes ← store.loadSequenceHashesOver client db sequences
  store.ownEnvelopes hashes

def loadKeysOver (db : KeySpace) (revision : Nat) :
    List String → Except EventStoreError (EventStream A)
  | [] => .ok []
  | key :: rest => do
      let events ← store.loadStreamOver client db key revision
      if events.isEmpty then loadKeysOver db revision rest else return events

/-- `load_after_revision`, and `load` from revision 0. -/
def loadOver (db : KeySpace) (aggregateId : A.Id) (revision : Nat) :
    Except EventStoreError (EventStream A) := do
  let keys ← store.codec.aggregateIdLookupKeys aggregateId
  store.loadKeysOver client db revision keys

def loadGlobalOver {E : Type} (decode : StoredEventRow → Except EventStoreError E) (db : KeySpace)
    (sequence : Option Nat) (limit : Option Nat) : Except EventStoreError (List E) := do
  let sequences ←
    loadIndexedSequencesOver client db (store.keyPrefix.key .global) (sequence.getD 0) limit
  let hashes ← store.loadSequenceHashesOver client db sequences
  hashes.mapM (fun hash => do
    let row ← hashToRow hash
    decode row)

end RedisEventStore

namespace RedisCheckpointStore

variable (keyPrefix : RedisPrefix) (client : RedisClient)

def loadCheckpointOver (projectionName : String) (db : KeySpace) :
    Except EventStoreError (Option Nat) := do
  let value ← client.execute (getReply (keyPrefix.checkpointKey projectionName)) db
  let sequence ← redisOptionalU64 "projection checkpoint" value
  return if sequence ≠ 0 then some sequence else none

def saveCheckpointOver (delivery : Delivery) (projectionName : String) (sequence : UInt64)
    (db : KeySpace) : Except EventStoreError Unit × KeySpace :=
  let (value, after) := client.write delivery (saveScript keyPrefix projectionName sequence) db
  (value.map (fun _ => ()), after)

def resetCheckpointOver (delivery : Delivery) (projectionName : String) (db : KeySpace) :
    Except EventStoreError Unit × KeySpace :=
  let (value, after) :=
    client.write delivery (delReply (keyPrefix.checkpointKey projectionName)) db
  (value.map (fun _ => ()), after)

end RedisCheckpointStore

/-- The script of a heartbeat. -/
def idempotencyHeartbeatLua (keys arguments : List String) : Script RedisValue := do
  if (← hget (← argument keys 1) "owner") = some (← argument arguments 1) then
    hset (← argument keys 1) [("expires_at_ms", ← argument arguments 2)]
    return .int 1
  return .int 0

/-- `IDEMPOTENCY_SAVE_LUA`. -/
def idempotencySaveLua (keys arguments : List String) : Script RedisValue := do
  hset (← argument keys 1)
    [("state", "complete"), ("value", ← argument arguments 1), ("owner", ""), ("expires_at_ms", "0")]
  return .int 1

namespace RedisIdempotencyStore

variable (store : RedisIdempotencyStore V) (client : RedisClient) (db : KeySpace)

def loadOver (nowMs : Nat) (idempotencyKey : String) :
    Except EventStoreError (Option (IdempotencyState V)) :=
  match client.execute (hgetallReply (store.key idempotencyKey)) db with
  | .error error => .error error
  | .ok (.array []) => .ok none
  | .ok (.array items) => store.stateFromReply nowMs (.array items)
  | .ok _ => .ok none

def reserveWithLeaseOver (delivery : Delivery) (nowMs : Nat) (idempotencyKey : String)
    (config : IdempotencyLeaseConfig) : Except EventStoreError Bool × KeySpace :=
  let (value, after) := client.write delivery (store.reserveScript nowMs idempotencyKey config) db
  (value.bind reservedFromReply, after)

def renewedFromReply : RedisValue → Bool
  | .int 1 => true
  | _ => false

def heartbeatScript (nowMs : Nat) (idempotencyKey owner : String) : Script RedisValue :=
  idempotencyHeartbeatLua [store.key idempotencyKey]
    [owner, Nat.repr (expiresAtMs nowMs defaultIdempotencyLease)]

def heartbeatOver (delivery : Delivery) (nowMs : Nat) (idempotencyKey owner : String) :
    Except EventStoreError Bool × KeySpace :=
  let (value, after) := client.write delivery (store.heartbeatScript nowMs idempotencyKey owner) db
  (value.map renewedFromReply, after)

def saveOver (toJson : V → Except String String) (delivery : Delivery) (idempotencyKey : String)
    (value : V) : Except EventStoreError Unit × KeySpace :=
  match toJson value with
  | .error error => (.error (.serialization ("idempotency value JSON: " ++ error) none), db)
  | .ok valueJson =>
    let (value, after) :=
      client.write delivery (idempotencySaveLua [store.key idempotencyKey] [valueJson]) db
    (value.map (fun _ => ()), after)

/-- `IDEMPOTENCY_REMOVE_LUA`. -/
def removeOver (delivery : Delivery) (idempotencyKey : String) :
    Except EventStoreError Unit × KeySpace :=
  let (value, after) := client.write delivery (delReply (store.key idempotencyKey)) db
  (value.map (fun _ => ()), after)

end RedisIdempotencyStore

/-- The digits of a number that is at most `limit`, as `str::parse` reads them. -/
def parseDigits (limit : Nat) (overflow : String) (value : Nat) : List Char → Except String Nat
  | [] => .ok value
  | c :: rest =>
    if c.isDigit then
      if value * 10 + (c.toNat - '0'.toNat) ≤ limit then
        parseDigits limit overflow (value * 10 + (c.toNat - '0'.toNat)) rest
      else .error overflow
    else .error "invalid digit found in string"

/-- `str::parse::<i64>`, with its own messages. -/
def parseSigned (text : String) : Except String Int :=
  match text.toList with
  | [] => .error "cannot parse integer from empty string"
  | ['-'] | ['+'] => .error "invalid digit found in string"
  | '-' :: digits =>
    (parseDigits (2 ^ 63) "number too small to fit in target type" 0 digits).map
      (fun value => -(value : Int))
  | '+' :: digits | digits =>
    (parseDigits i64Max "number too large to fit in target type" 0 digits).map Int.ofNat

/-- `SNAPSHOT_SAVE_LUA`. -/
def snapshotSaveLua (keys arguments : List String) : Script RedisValue := do
  let current ← luaDouble ((← hget (← argument keys 1) "revision").getD "0")
  let offered ← luaDouble (← argument arguments 1)
  if current ≠ 0 ∧ offered < current then
    return .array [.bytes "ERR", .bytes "stale_revision", .int current]
  hset (← argument keys 1)
    [("revision", ← argument arguments 1), ("state", ← argument arguments 2),
      ("metadata", ← argument arguments 3), ("recorded_at_ms", ← argument arguments 4),
      ("aggregate_type", ← argument arguments 5)]
  return .bytes "OK"

/-- The JSON library on the states and the metadata of snapshots. -/
structure SnapshotJson (A : Aggregate) where
  stateToString : A.State → Except String String
  stateFromStr : String → Except String A.State
  metadataToString : Metadata → Except String String
  metadataFromStr : String → Except String Metadata

structure RedisSnapshotStore (A : Aggregate) where
  keyPrefix : RedisPrefix
  codec : RowCodec A
  reader : RowReader A
  json : SnapshotJson A

namespace RedisSnapshotStore

variable (store : RedisSnapshotStore A) (client : RedisClient) (db : KeySpace)

def required (value : RedisValue) (field : String) : Except EventStoreError String :=
  match fieldFromHash value field with
  | some text => .ok text
  | none => .error (.deserialization ("redis snapshot missing " ++ field) none)

def millisToSystemTime (millis : Int) : Except EventStoreError SystemTime :=
  if millis < 0 then .error (.deserialization "recorded_at_ms cannot be negative" none)
  else .ok (RowReader.millisToSystemTime millis.toNat)

/-- A snapshot from the items of its hash. -/
def snapshotFromReply (aggregateId : String) (value : RedisValue) :
    Except EventStoreError (Snapshot A) := do
  let revision ← (parseU64 (← required value "revision")).mapError
    (fun error => EventStoreError.deserialization ("redis snapshot revision: " ++ error) none)
  let stateRaw ← required value "state"
  let metadataRaw ← required value "metadata"
  let recordedAtMs ← (parseSigned (← required value "recorded_at_ms")).mapError
    (fun error => EventStoreError.deserialization ("redis snapshot recorded_at_ms: " ++ error) none)
  let aggregateType := (fieldFromHash value "aggregate_type").getD A.aggregateType
  let state ← (store.json.stateFromStr stateRaw).mapError
    (fun error => EventStoreError.deserialization ("snapshot state JSON: " ++ error) none)
  let metadata ← (store.json.metadataFromStr metadataRaw).mapError
    (fun error => EventStoreError.deserialization ("snapshot metadata JSON: " ++ error) none)
  let recordedAt ← millisToSystemTime recordedAtMs
  let aggregateId ← store.reader.deserializeId aggregateId
  return ⟨aggregateId, aggregateType, revision, state, metadata, recordedAt⟩

def loadSnapshotOver (aggregateId : A.Id) : Except EventStoreError (Option (Snapshot A)) := do
  let aggregateId ← store.codec.serializeId aggregateId
  let value ← client.execute
    (hgetallReply (store.keyPrefix.snapshotKey A.aggregateType aggregateId)) db
  match value with
  | .array [] => return none
  | .array items => return some (← store.snapshotFromReply aggregateId (.array items))
  | _ => return none

/-- The key and the arguments of the save script. -/
def saveArguments (snapshot : Snapshot A) : Except EventStoreError (String × List String) := do
  let aggregateId ← store.codec.serializeId snapshot.aggregateId
  let stateJson ← (store.json.stateToString snapshot.state).mapError
    (fun error => EventStoreError.serialization ("snapshot state JSON: " ++ error) none)
  let metadataJson ← (store.json.metadataToString snapshot.metadata).mapError
    (fun error => EventStoreError.serialization ("snapshot metadata JSON: " ++ error) none)
  let recordedAtMs ← systemTimeToMillis snapshot.recordedAt
  return (store.keyPrefix.snapshotKey A.aggregateType aggregateId,
    [Nat.repr snapshot.revision, stateJson, metadataJson, Nat.repr recordedAtMs,
      snapshot.aggregateType])

def unexpectedReply (value : RedisValue) : EventStoreError :=
  .deserialization ("unexpected redis snapshot save reply: " ++ value.debug) none

def savedFromReply (offered : Nat) : RedisValue → Except EventStoreError Unit
  | .status text =>
    if lowercase text = lowercase "OK" then .ok () else .error (unexpectedReply (.status text))
  | .bytes text =>
    if lowercase text = lowercase "OK" then .ok () else .error (unexpectedReply (.bytes text))
  | .array (first :: second :: third :: rest) =>
    let value : RedisValue := .array (first :: second :: third :: rest)
    match first with
    | .bytes kind =>
      if kind = "ERR" then
        match second with
        | .bytes reason =>
          if reason = "stale_revision" then
            match third with
            | .bytes current =>
              match parseU64 current with
              | .error error => .error (.deserialization
                  ("redis snapshot stale revision: " ++ error) none)
              | .ok current => .error (.concurrency (.staleSnapshotRevision offered current))
            | _ => .error (unexpectedReply value)
          else .error (.deserialization ("redis snapshot save failed: " ++ value.debug) none)
        | _ => .error (unexpectedReply value)
      else .error (.deserialization ("redis snapshot save failed: " ++ value.debug) none)
    | _ => .error (unexpectedReply value)
  | value => .error (unexpectedReply value)

def saveSnapshotOver (delivery : Delivery) (snapshot : Snapshot A) :
    Except EventStoreError Unit × KeySpace :=
  match store.saveArguments snapshot with
  | .error error => (.error error, db)
  | .ok (key, arguments) =>
    let (value, after) := client.write delivery (snapshotSaveLua [key] arguments) db
    (value.bind (savedFromReply snapshot.revision), after)

end RedisSnapshotStore

end DddCqrsEs
