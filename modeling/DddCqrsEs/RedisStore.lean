import DddCqrsEs.RedisKeys
import DddCqrsEs.RowReader

/- The Redis event store: the append script and the arguments and replies around it, and the
loads that page an index and fetch the event hashes in chunks. -/
namespace DddCqrsEs

open RedisServer

inductive RedisValue where
  | nil
  | status (text : String)
  | int (value : Int)
  | bytes (text : String)
  | array (items : List RedisValue)
  deriving Repr

mutual

def RedisValue.debug : RedisValue → String
  | .nil => "Nil"
  | .status text => "Status(" ++ text.quote ++ ")"
  | .int value => "Int(" ++ toString value ++ ")"
  | .bytes text => "Bytes([" ++ ", ".intercalate ((asBytes text).map toString) ++ "])"
  | .array items => "Array([" ++ ", ".intercalate (RedisValue.debugAll items) ++ "])"

def RedisValue.debugAll : List RedisValue → List String
  | [] => []
  | value :: rest => value.debug :: RedisValue.debugAll rest

end

/-- `str::parse::<u64>`, with its own messages. -/
def parseU64Digits (value : Nat) : List Char → Except String Nat
  | [] => .ok value
  | c :: rest =>
    if c.isDigit then
      if value * 10 + (c.toNat - '0'.toNat) < 2 ^ 64 then
        parseU64Digits (value * 10 + (c.toNat - '0'.toNat)) rest
      else .error "number too large to fit in target type"
    else .error "invalid digit found in string"

def parseU64 (text : String) : Except String Nat :=
  match text.toList with
  | [] => .error "cannot parse integer from empty string"
  | ['+'] => .error "invalid digit found in string"
  | '+' :: digits => parseU64Digits 0 digits
  | digits => parseU64Digits 0 digits

def redisArrayItems : RedisValue → Except EventStoreError (List RedisValue)
  | .array items => .ok items
  | .nil => .ok []
  | value => .error (.deserialization ("expected Redis array, got " ++ value.debug) none)

def redisScalar : RedisValue → RedisValue
  | .array [value] => value
  | value => value

def redisValueBytes (label : String) : RedisValue → Except EventStoreError String
  | .bytes text => .ok text
  | .status text => .ok text
  | .int value => .ok (toString value)
  | value => .error (.deserialization
      (label ++ ": expected Redis scalar, got " ++ value.debug) none)

def redisValueString (label : String) (value : RedisValue) : Except EventStoreError String :=
  redisValueBytes label value

def redisValueU64 (label : String) : RedisValue → Except EventStoreError Nat
  | .int value =>
    if value < 0 then .error (.deserialization (label ++ " cannot be negative") none)
    else .ok value.toNat
  | .bytes text | .status text =>
    (parseU64 text).mapError (fun error =>
      .deserialization (label ++ " is not a u64: " ++ error) none)
  | value => .error (.deserialization
      (label ++ ": expected Redis integer scalar, got " ++ value.debug) none)

def redisOptionalU64 (label : String) (value : RedisValue) : Except EventStoreError Nat :=
  match redisScalar value with
  | .nil => .ok 0
  | value => redisValueU64 label value

def argument (arguments : List String) (index : Nat) : Script String :=
  match arguments[index - 1]? with
  | some text => pure text
  | none => throw "Lua redis lib command arguments must be strings or integers"

/-- `tonumber` of a text of decimal digits. -/
def luaTonumber (text : String) : Script Nat :=
  if text.toList ≠ [] ∧ text.toList.all Char.isDigit then
    pure (Nat.ofDigitChars 10 text.toList 0)
  else throw "attempt to perform arithmetic on a nil value"

/-- `tonumber(redis.call('GET', key) or '0')`. -/
def luaCounter (key : String) : Script Nat := do
  luaTonumber ((← get key).getD "0")

/-- `tostring` of an integer, which Lua prints exactly below 10^14. -/
def luaTostring (number : Nat) : String := Nat.repr number

/-- One turn of the script's loop. -/
def appendEvent (keys arguments : List String) (current firstSequence i : Nat) : Script Unit := do
  let base := 4 + i * 8
  let revision := current + i + 1
  let sequence := firstSequence + i
  let eventKey := (← argument keys 5) ++ luaTostring sequence
  hset eventKey
    [("event_id", ← argument arguments base),
      ("aggregate_id", ← argument arguments (base + 1)),
      ("aggregate_type", ← argument arguments (base + 2)),
      ("revision", luaTostring revision),
      ("sequence", luaTostring sequence),
      ("event_type", ← argument arguments (base + 3)),
      ("event_version", ← argument arguments (base + 4)),
      ("payload", ← argument arguments (base + 5)),
      ("metadata", ← argument arguments (base + 6)),
      ("recorded_at_ms", ← argument arguments (base + 7))]
  zadd (← argument keys 3) revision (luaTostring sequence)
  zadd (← argument keys 4) sequence (luaTostring sequence)

def appendEvents (keys arguments : List String) (current firstSequence : Nat) :
    Nat → Nat → Script Unit
  | _, 0 => pure ()
  | i, remaining + 1 => do
      appendEvent keys arguments current firstSequence i
      appendEvents keys arguments current firstSequence (i + 1) remaining

/-- The tail of the script: draw sequences, store the events, move both counters. -/
def storeEvents (keys arguments : List String) (current count : Nat) : Script RedisValue := do
  let seqCurrent ← luaCounter (← argument keys 2)
  let firstSequence := seqCurrent + 1
  let lastSequence := seqCurrent + count
  appendEvents keys arguments current firstSequence 0 count
  set (← argument keys 1) (luaTostring (current + count))
  set (← argument keys 2) (luaTostring lastSequence)
  return .array [.bytes "OK", .int firstSequence, .int lastSequence, .int (current + count : Nat)]

/-- `APPEND_LUA`. -/
def appendLua (keys arguments : List String) : Script RedisValue := do
  let current ← luaCounter (← argument keys 1)
  let streamCard ← zcard (← argument keys 3)
  if streamCard ≠ current then
    return .array [.bytes "ERR", .bytes "inconsistent_state", .int current, .int streamCard]
  let expectedKind ← argument arguments 1
  let expectedRevision ← luaTonumber (← argument arguments 2)
  let count ← luaTonumber (← argument arguments 3)
  if expectedKind = "no_stream" ∧ current ≠ 0 then
    return .array [.bytes "ERR", .bytes "stream_exists", .int current]
  if expectedKind = "exact" ∧ current ≠ expectedRevision then
    return .array [.bytes "ERR", .bytes "wrong_revision", .int current]
  if count = 0 then
    return .array [.bytes "OK", .int 0, .int 0, .int current]
  storeEvents keys arguments current count

/-- A hash's items: how many there are, then fields and values. -/
def hashItems (fields : List (String × String)) : List RedisValue :=
  .int (2 * fields.length : Nat) ::
    fields.flatMap (fun field => [.bytes field.1, .bytes field.2])

def fetchHashes : List String → Script (List RedisValue)
  | [] => pure []
  | key :: rest => do
      let fields ← hgetall key
      let later ← fetchHashes rest
      return hashItems fields ++ later

/-- `FETCH_HASHES_LUA`. -/
def fetchHashesLua (keys : List String) : Script RedisValue := do
  return .array (← fetchHashes keys)

/-- `ZRANGEBYSCORE key (after +inf WITHSCORES LIMIT 0 limit` as the server answers it. -/
def zrangeReply (key : String) (after limit : Nat) : Script RedisValue := do
  let members ← zrangeByScore key after limit
  return .array (members.flatMap (fun member => [.bytes member.2, .bytes (Nat.repr member.1)]))

def getReply (key : String) : Script RedisValue := do
  match ← get key with
  | none => return .nil
  | some text => return .bytes text

/-- A command or script as a client runs it. Its error is the server's message. -/
def execute {α : Type} (script : Script α) (db : KeySpace) : Except EventStoreError α :=
  match script db with
  | .ok value _ => .ok value
  | .error message _ => .error (.backend message none)

/-- The key space a script leaves behind. -/
def afterScript {α : Type} (script : Script α) (db : KeySpace) : KeySpace :=
  match script db with
  | .ok _ after => after
  | .error _ after => after

abbrev RedisHash := List (String × String)

def redisScoredPairs : List RedisValue → Except EventStoreError (List (Nat × Nat))
  | member :: score :: rest => do
      let first ← redisValueU64 "Redis sequence" member
      let second ← redisValueU64 "Redis index score" score
      let later ← redisScoredPairs rest
      return (first, second) :: later
  | _ => .ok []

def redisScoredSequencePage (value : RedisValue) : Except EventStoreError (List (Nat × Nat)) := do
  let items ← redisArrayItems value
  if items.length % 2 ≠ 0 then
    .error (.deserialization "Redis scored index page has an odd element count" none)
  else redisScoredPairs items

def redisHashPairs (hash : RedisHash) : List RedisValue → Except EventStoreError RedisHash
  | field :: value :: rest => do
      let name ← redisValueString "Redis hash field" field
      let text ← redisValueBytes "Redis hash value" value
      redisHashPairs (setField hash (name, text)) rest
  | _ => .ok hash

def redisHashFromItems (items : List RedisValue) : Except EventStoreError RedisHash :=
  if items.length % 2 ≠ 0 then
    .error (.deserialization "Redis hash reply has odd field count" none)
  else redisHashPairs [] items

/-- The reply cut into one hash for each requested sequence. `done` counts those already
read. -/
def unpackFlatHashes (total done : Nat) (items : List RedisValue) :
    List Nat → Except EventStoreError (List RedisHash)
  | [] =>
    if items.length = 0 then .ok []
    else .error (.deserialization ("Redis hash batch has " ++ toString items.length ++
      " trailing items after " ++ toString total ++ " events") none)
  | sequence :: rest =>
    match items with
    | [] => .error (.deserialization ("Redis hash batch ended after " ++ toString done ++
        " of " ++ toString total ++ " events") none)
    | .int count :: entries =>
      if count < 0 then
        .error (.deserialization "Redis hash batch length prefix is negative" none)
      else if entries.length < count.toNat then
        .error (.deserialization ("Redis hash batch is truncated at event sequence " ++
          toString sequence) none)
      else do
        let hash ← redisHashFromItems (entries.take count.toNat)
        if hash.isEmpty then
          .error (.deserialization ("Redis event sequence " ++ toString sequence ++
            " is indexed but missing") none)
        else
          let later ← unpackFlatHashes total (done + 1) (entries.drop count.toNat) rest
          return hash :: later
    | _ :: _ =>
      .error (.deserialization "Redis hash batch length prefix is not an integer" none)

def unpackFlatHashBatch (value : RedisValue) (sequences : List Nat) :
    Except EventStoreError (List RedisHash) := do
  let items ← redisArrayItems value
  unpackFlatHashes sequences.length 0 items sequences

def hashFieldString (hash : RedisHash) (field : String) : Except EventStoreError String :=
  match hash.lookup field with
  | some text => .ok text
  | none => .error (.deserialization ("Redis event hash missing `" ++ field ++ "`") none)

def hashFieldU64 (hash : RedisHash) (field : String) : Except EventStoreError Nat := do
  let text ← hashFieldString hash field
  (parseU64 text).mapError (fun error =>
    .deserialization ("Redis event hash `" ++ field ++ "` u64: " ++ error) none)

/-- `str::parse::<i64>` of a text without a sign. -/
def hashFieldI64 (hash : RedisHash) (field : String) : Except EventStoreError Nat := do
  let text ← hashFieldString hash field
  match parseU64 text with
  | .error error =>
    .error (.deserialization ("Redis event hash `" ++ field ++ "` i64: " ++ error) none)
  | .ok value =>
    if value ≤ i64Max then .ok value
    else .error (.deserialization ("Redis event hash `" ++ field ++
      "` i64: number too large to fit in target type") none)

def hashFieldU32 (hash : RedisHash) (field : String) : Except EventStoreError Nat := do
  let value ← hashFieldU64 hash field
  if value < 2 ^ 32 then .ok value
  else .error (.deserialization ("Redis event hash `" ++ field ++ "` exceeds u32") none)

/-- The fields of an event hash, in the order they are read. -/
def hashToRow (hash : RedisHash) : Except EventStoreError StoredEventRow := do
  let eventId ← hashFieldString hash "event_id"
  let aggregateId ← hashFieldString hash "aggregate_id"
  let aggregateType ← hashFieldString hash "aggregate_type"
  let revision ← hashFieldU64 hash "revision"
  let sequence ← hashFieldU64 hash "sequence"
  let eventType ← hashFieldString hash "event_type"
  let eventVersion ← hashFieldU32 hash "event_version"
  let payload ← hashFieldString hash "payload"
  let metadata ← hashFieldString hash "metadata"
  let recordedAtMs ← hashFieldI64 hash "recorded_at_ms"
  return ⟨eventId, aggregateId, aggregateType, revision, sequence, eventType, eventVersion, payload,
    metadata, recordedAtMs⟩

def expectedRevisionArg : ExpectedRevision → String × Nat
  | .any => ("any", 0)
  | .noStream => ("no_stream", 0)
  | .exact revision => ("exact", revision)

structure RedisStreamKeys where
  aggregateIdJson : String
  revisionKey : String
  streamKey : String

def RedisPrefix.streamKeysForStorageKey (keyPrefix : RedisPrefix)
    (aggregateType aggregateIdJson : String) : RedisStreamKeys where
  aggregateIdJson := aggregateIdJson
  revisionKey := keyPrefix.key (.revision aggregateType aggregateIdJson)
  streamKey := keyPrefix.key (.stream aggregateType aggregateIdJson)

structure AppendEvalResult where
  firstSequence : Nat
  lastSequence : Nat
  nextRevision : Nat
  deriving DecidableEq, Repr

def parseAppendEvalResult (value : RedisValue) (expected : ExpectedRevision) :
    Except EventStoreError AppendEvalResult := do
  let items ← redisArrayItems value
  match items with
  | first :: second :: third :: rest => do
      let status ← redisValueString "append script status" first
      if status = "OK" then
        match rest with
        | [] =>
          .error (.deserialization "Redis append script returned too few success fields" none)
        | next :: _ => do
            let firstSequence ← redisValueU64 "append first sequence" second
            let lastSequence ← redisValueU64 "append last sequence" third
            let nextRevision ← redisValueU64 "append next revision" next
            return ⟨firstSequence, lastSequence, nextRevision⟩
      else if status = "ERR" then do
        let reason ← redisValueString "append error reason" second
        let actual ← redisValueU64 "append actual revision" third
        if reason = "stream_exists" then .error (.concurrency .streamAlreadyExists)
        else if reason = "wrong_revision" then
          .error (.concurrency (.wrongExpectedRevision expected actual))
        else if reason = "inconsistent_state" then do
          let streamCard ← redisValueU64 "append stream cardinality" (rest.headD .nil)
          .error (.backend ("Redis stream revision counter (" ++ toString actual ++
            ") does not match stream index cardinality (" ++ toString streamCard ++
            "); configure maxmemory-policy noeviction and avoid partial key eviction or restore")
            none)
        else .error (.backend ("Redis append script failed: " ++ reason) none)
      else .error (.deserialization ("unknown Redis append status `" ++ status ++ "`") none)
  | _ => .error (.deserialization "Redis append script returned too few fields" none)

/-- What becomes of a command on its way: it arrives and is answered, it never arrives, or it
runs and its answer is lost. -/
inductive Delivery where
  | answered
  | lost (error : EventStoreError)
  | unanswered (error : EventStoreError)

structure RedisEventStore (A : Aggregate) where
  keyPrefix : RedisPrefix
  codec : RowCodec A
  reader : RowReader A

variable {A : Aggregate}

/-- The values an event pushes onto the script's arguments, in this order. -/
def eventArguments {codec : RowCodec A} (aggregateIdJson aggregateType : String)
    (event : PreparedEvent codec) : List String :=
  [event.stamp.eventId, aggregateIdJson, aggregateType, event.event.eventType,
    Nat.repr event.event.eventVersion, event.payloadJson, event.metadataJson,
    Nat.repr event.recordedAtMs]

namespace RedisEventStore

variable (store : RedisEventStore A)

def appendKeys (aggregateIdJson : String) : List String :=
  let keys := store.keyPrefix.streamKeysForStorageKey A.aggregateType aggregateIdJson
  [keys.revisionKey, store.keyPrefix.key .sequence, keys.streamKey, store.keyPrefix.key .global,
    store.keyPrefix.eventKeyPrefix]

def appendArguments (aggregateIdJson : String) (expectedRevision : ExpectedRevision)
    (prepared : List (PreparedEvent store.codec)) : List String :=
  [(expectedRevisionArg expectedRevision).1, Nat.repr (expectedRevisionArg expectedRevision).2,
      Nat.repr prepared.length] ++
    prepared.flatMap (eventArguments aggregateIdJson A.aggregateType)

/-- `build_append_eval_args` after the script itself: the number of keys, the keys, the
arguments. -/
def buildAppendEvalArgs (aggregateIdJson : String) (expectedRevision : ExpectedRevision)
    (prepared : List (PreparedEvent store.codec)) : List String :=
  "5" :: store.appendKeys aggregateIdJson ++
    store.appendArguments aggregateIdJson expectedRevision prepared

/-- The server cuts the arguments of `EVAL` by the number of keys. -/
def evalAppend : List String → Script RedisValue
  | [] => throw "ERR wrong number of arguments for 'eval' command"
  | numKeys :: rest =>
    match parseU64 numKeys with
    | .error _ => throw "ERR value is not an integer or out of range"
    | .ok count => appendLua (rest.take count) (rest.drop count)

def currentRevision (db : KeySpace) (aggregateIdKey : String) : Except EventStoreError Nat := do
  let keys := store.keyPrefix.streamKeysForStorageKey A.aggregateType aggregateIdKey
  let value ← execute (getReply keys.revisionKey) db
  redisOptionalU64 "stream revision" value

def maxRevisionForAggregateId (db : KeySpace) : List String → Except EventStoreError Nat
  | [] => .ok 0
  | key :: rest => do
      let revision ← store.currentRevision db key
      let later ← maxRevisionForAggregateId db rest
      return max revision later

/-- The envelopes rebuilt from the script's reply. -/
def committedFromReply (aggregateId : A.Id) (expectedRevision : ExpectedRevision)
    (prepared : List (PreparedEvent store.codec)) (value : RedisValue) :
    Except EventStoreError (EventStream A) := do
  let result ← parseAppendEvalResult value expectedRevision
  if result.nextRevision < prepared.length then
    .error (.deserialization "Redis append script returned revision smaller than event count" none)
  else
    return PreparedEvent.committed aggregateId (result.nextRevision - prepared.length)
      result.firstSequence prepared

/-- The append of an empty batch only checks the revision, under all keys. -/
def appendNothing (db : KeySpace) (keys : List String) (expectedRevision : ExpectedRevision) :
    Except EventStoreError (EventStream A) := do
  let actual ← store.maxRevisionForAggregateId db keys
  checkExpectedRevision expectedRevision actual
  return []

def appendPrepared (db : KeySpace) (delivery : Delivery) (aggregateId : A.Id) (keys : List String)
    (expectedRevision : ExpectedRevision) (prepared : List (PreparedEvent store.codec)) :
    Except EventStoreError (EventStream A) × KeySpace :=
  if prepared.isEmpty then
    match delivery with
    | .answered => (store.appendNothing db keys expectedRevision, db)
    | .lost error | .unanswered error => (.error error, db)
  else
    let script := evalAppend
      (store.buildAppendEvalArgs (keys.headD "") expectedRevision prepared)
    match delivery with
    | .answered =>
      ((execute script db).bind
        (store.committedFromReply aggregateId expectedRevision prepared), afterScript script db)
    | .lost error => (.error error, db)
    | .unanswered error => (.error error, afterScript script db)

/-- An append and the key space after it. -/
def append (db : KeySpace) (delivery : Delivery) (aggregateId : A.Id)
    (expectedRevision : ExpectedRevision) (events : List (NewEvent A.Event × Stamp)) :
    Except EventStoreError (EventStream A) × KeySpace :=
  match store.codec.aggregateIdLookupKeys aggregateId with
  | .error error => (.error error, db)
  | .ok keys =>
    match events.mapM store.codec.prepare with
    | .error error => (.error error, db)
    | .ok prepared =>
      store.appendPrepared db delivery aggregateId keys expectedRevision prepared

end RedisEventStore

def sequencePageSize : Nat := 500

def hashFetchChunkSize : Nat := 256

/-- What is left of the limit, and a page at most. -/
def pageLimit (limit : Option Nat) (taken : Nat) : Nat :=
  match limit with
  | some limit => min (limit - taken) sequencePageSize
  | none => sequencePageSize

/-- One turn of the paging loop after another, from a score cursor. `fuel` bounds the turns. -/
def pageSequences (db : KeySpace) (indexKey : String) (limit : Option Nat) :
    Nat → Nat → List Nat → Except EventStoreError (List Nat)
  | 0, _, _ => .error (.unknown "paging did not end" none)
  | fuel + 1, cursor, sequences => do
      let pageSize := pageLimit limit sequences.length
      if pageSize = 0 then return sequences
      let value ← execute (zrangeReply indexKey cursor pageSize) db
      let page ← redisScoredSequencePage value
      let sequences := sequences ++ page.map Prod.fst
      if page.length < pageSize then return sequences
      match page.getLast? with
      | some (_, score) =>
        if cursor < score then pageSequences db indexKey limit fuel score sequences
        else return sequences
      | none => return sequences

/-- How many members an index has, which bounds the pages it can fill. -/
def indexSize (db : KeySpace) (indexKey : String) : Nat :=
  match db indexKey with
  | some (.sortedSet members) => members.length
  | _ => 0

def loadIndexedSequences (db : KeySpace) (indexKey : String) (afterScore : Nat)
    (limit : Option Nat) : Except EventStoreError (List Nat) :=
  pageSequences db indexKey limit (indexSize db indexKey + 1) afterScore []

namespace RedisEventStore

variable (store : RedisEventStore A)

/-- The hashes of the sequences, fetched chunk by chunk. `fuel` bounds the chunks. -/
def fetchChunks (db : KeySpace) : Nat → List Nat → Except EventStoreError (List RedisHash)
  | 0, _ => .ok []
  | fuel + 1, sequences =>
    if sequences.isEmpty then .ok []
    else do
      let chunk := sequences.take hashFetchChunkSize
      let value ← execute
        (fetchHashesLua (chunk.map (fun sequence => store.keyPrefix.key (.event sequence)))) db
      let hashes ← unpackFlatHashBatch value chunk
      let later ← fetchChunks db fuel (sequences.drop hashFetchChunkSize)
      return hashes ++ later

def loadSequenceHashes (db : KeySpace) (sequences : List Nat) :
    Except EventStoreError (List RedisHash) :=
  store.fetchChunks db sequences.length sequences

def hashToEnvelope (hash : RedisHash) : Except EventStoreError (EventEnvelope A.Event A.Id) := do
  let row ← hashToRow hash
  store.reader.envelopeFromStoredRow row

/-- The events among fetched hashes that carry the store's aggregate type. -/
def ownEnvelopes : List RedisHash → Except EventStoreError (EventStream A)
  | [] => .ok []
  | hash :: rest => do
      let aggregateType ← hashFieldString hash "aggregate_type"
      if aggregateType = A.aggregateType then
        let event ← store.hashToEnvelope hash
        let later ← ownEnvelopes rest
        return event :: later
      else ownEnvelopes rest

/-- The events of one stream index. -/
def loadStream (db : KeySpace) (aggregateIdKey : String) (revision : Nat) :
    Except EventStoreError (EventStream A) := do
  let keys := store.keyPrefix.streamKeysForStorageKey A.aggregateType aggregateIdKey
  let sequences ← loadIndexedSequences db keys.streamKey revision none
  let hashes ← store.loadSequenceHashes db sequences
  store.ownEnvelopes hashes

/-- The first key that has events. -/
def loadKeys (db : KeySpace) (revision : Nat) : List String → Except EventStoreError (EventStream A)
  | [] => .ok []
  | key :: rest => do
      let events ← store.loadStream db key revision
      if events.isEmpty then loadKeys db revision rest else return events

def load (db : KeySpace) (aggregateId : A.Id) : Except EventStoreError (EventStream A) := do
  let keys ← store.codec.aggregateIdLookupKeys aggregateId
  store.loadKeys db 0 keys

def loadAfterRevision (db : KeySpace) (aggregateId : A.Id) (revision : Nat) :
    Except EventStoreError (EventStream A) := do
  let keys ← store.codec.aggregateIdLookupKeys aggregateId
  store.loadKeys db revision keys

/-- The events of the global index, typed or raw. -/
def loadGlobal {E : Type} (decode : StoredEventRow → Except EventStoreError E) (db : KeySpace)
    (sequence : Option Nat) (limit : Option Nat) : Except EventStoreError (List E) := do
  let sequences ← loadIndexedSequences db (store.keyPrefix.key .global) (sequence.getD 0) limit
  let hashes ← store.loadSequenceHashes db sequences
  hashes.mapM (fun hash => do
    let row ← hashToRow hash
    decode row)

def loadGlobalAfter (db : KeySpace) (sequence : Option Nat) :
    Except EventStoreError (EventStream A) :=
  store.loadGlobal store.reader.envelopeFromStoredRow db sequence none

def loadGlobalAfterLimited (db : KeySpace) (sequence : Option Nat) (limit : Nat) :
    Except EventStoreError (EventStream A) :=
  store.loadGlobal store.reader.envelopeFromStoredRow db sequence (some limit)

def loadRawGlobalAfterLimited (db : KeySpace) (sequence : Option Nat) (limit : Nat) :
    Except EventStoreError (List (EventEnvelope store.reader.Json String)) :=
  store.loadGlobal store.reader.rawEnvelopeFromStoredRow db sequence (some limit)

end RedisEventStore

end DddCqrsEs
