import DddCqrsEs.CounterApp.Counter
import DddCqrsEs.DecimalTexts
import DddCqrsEs.OwnedCheckpoints
import DddCqrsEs.RedisIntegers
import DddCqrsEs.ReplyShape

/- The counter's read model in Redis: one script applies an event and moves the checkpoint. -/
namespace DddCqrsEs

def ExpectedRevision.debug : ExpectedRevision → String
  | .any => "Any"
  | .noStream => "NoStream"
  | .exact revision => "Exact(" ++ Nat.repr revision ++ ")"

def ConcurrencyError.display : ConcurrencyError → String
  | .streamAlreadyExists => "event stream already exists"
  | .wrongExpectedRevision expected actual =>
    "wrong expected revision: expected " ++ expected.debug ++ ", actual revision " ++
      Nat.repr actual
  | .staleSnapshotRevision offered current =>
    "stale snapshot revision: offered " ++ Nat.repr offered ++ ", current " ++ Nat.repr current

def EventStoreError.display : EventStoreError → String
  | .concurrency error => error.display
  | .serialization message _ => "serialization error: " ++ message
  | .deserialization message _ => "deserialization error: " ++ message
  | .connection message _ => "connection error: " ++ message
  | .poisoned => "event store lock was poisoned"
  | .backend message _ => "event store backend error: " ++ message
  | .unknown message _ => "unknown event store error: " ++ message

namespace CounterApp

open RedisServer

/-- `serde_json::to_string` of the transparent id. -/
def aggregateIdJson (aggregateId : String) : String :=
  String.ofList (JsonString.write aggregateId.toList)

def redisReadModelKey (aggregateIdJson : String) : String :=
  "counter:read_model:" ++ hexEncode (asBytes aggregateIdJson)

def redisCheckpointKey (projectionName : String) : String :=
  "ddd_cqrs_es:checkpoint:" ++ hexEncode (asBytes projectionName)

def projectionName : String := "counter_projection"

/-- `tonumber` of an integer with any sign. -/
def luaSigned (text : String) : Option Int :=
  (Decimal.signed text.toList).map fun number => number.sign * Binary64.round number.natAbs

/-- A Lua number as an argument of `redis.call`, which prints seventeen significant digits. -/
def luaArgument : Option Int → Script String
  | some number => pure (writeInteger number)
  | none => throw "Lua redis lib command arguments must be strings or integers"

/-- The tail of the script: apply the operation, then move the checkpoint. -/
def applyOperation (keys : List String) (operation : String) (amount : Option Int)
    (sequence current : Nat) : Script RedisValue := do
  if operation = "incr" then
    let _ ← incrby (← argument keys 1) (← luaArgument amount)
  else if operation = "set" then
    set (← argument keys 1) (← luaArgument amount)
  else
    return .array [.bytes "ERR", .bytes "unknown_operation", .int current]
  set (← argument keys 2) (← luaArgument (some sequence))
  return .array [.bytes "OK", .int sequence]

/-- `REDIS_COUNTER_PROJECTION_LUA`. -/
def counterProjectionLua (keys arguments : List String) : Script RedisValue := do
  let sequence ← luaDouble (← argument arguments 1)
  let operation ← argument arguments 2
  let amount := luaSigned (← argument arguments 3)
  let current ← luaDouble ((← get (← argument keys 2)).getD "0")
  if sequence ≤ current then
    return .array [.bytes "SKIP", .int current]
  if sequence ≠ Binary64.round (current + 1) then
    return .array [.bytes "ERR", .bytes "checkpoint_gap", .int current]
  applyOperation keys operation amount sequence current

def redisValueAsI64 : RedisValue → Option Int
  | .int value => some value
  | .bytes text | .status text => (parseSigned text).toOption
  | .array [value] => redisValueAsI64 value
  | _ => none

def redisValueAsString : RedisValue → Option String
  | .bytes text => some text
  | .status text => some text
  | .int value => some (writeInteger value)
  | .array [value] => redisValueAsString value
  | _ => none

def projectionFailed (reason : Option String) (checkpoint : Option Int) : String :=
  "Redis projection script failed: " ++ reason.getD "unknown" ++ " at checkpoint " ++
    (checkpoint.map writeInteger).getD "?"

def ensureRedisProjectionResult : RedisValue → Except String Unit
  | .array items =>
    match items.head?.bind redisValueAsString with
    | none => .error ("Redis projection script returned " ++ (RedisValue.array items).debug)
    | some status =>
      if status = "OK" ∨ status = "SKIP" then .ok ()
      else if status = "ERR" then
        .error (projectionFailed (items[1]?.bind redisValueAsString)
          (items[2]?.bind redisValueAsI64))
      else .error ("unknown Redis projection status `" ++ status ++ "`")
  | value => .error ("Redis projection script returned " ++ value.debug)

/-- The operation of an event and its amount. -/
def CounterEvent.operation : CounterEvent → String × Int
  | .incremented amount => ("incr", amount.toInt)
  | .decremented amount => ("incr", -amount.toInt)
  | .resetPerformed value => ("set", value.toInt)

/-- The script with the keys and the arguments of one event. -/
def projectionScript (sequence : Nat) (event : EventEnvelope CounterEvent String) :
    Script RedisValue :=
  counterProjectionLua
    [redisReadModelKey (aggregateIdJson event.aggregateId), redisCheckpointKey projectionName]
    [Nat.repr sequence, event.payload.operation.1, writeInteger event.payload.operation.2]

def applyRedisCounterProjectionAtomically (client : RedisClient) (delivery : Delivery)
    (event : EventEnvelope CounterEvent String) (db : KeySpace) : Except String Unit × KeySpace :=
  match event.sequence with
  | none => (.error "Event envelope is missing global sequence", db)
  | some sequence =>
    let (value, after) := client.write delivery (projectionScript sequence event) db
    ((value.mapError EventStoreError.display).bind ensureRedisProjectionResult, after)

/-- `RedisAtomicCounterProjection::load_checkpoint`, through the library's checkpoint store. -/
def loadCheckpoint (client : RedisClient) (db : KeySpace) : Except String (Option Nat) :=
  (RedisCheckpointStore.loadCheckpointOver defaultRedisPrefix client projectionName db).mapError
    EventStoreError.display

def counterProjectionBatchSize : Nat := 128

def counterProjectionBatchLimit : ProjectionBatchConfig := ⟨counterProjectionBatchSize, by decide⟩

/-- The runner's ports where nothing gets lost. -/
def projectionPorts (client : RedisClient) (store : RedisEventStore counter) :
    OwnedPorts KeySpace CounterEvent String String EventStoreError where
  loadCheckpoint db := (loadCheckpoint client db, db)
  applyAndCheckpoint := applyRedisCounterProjectionAtomically client .answered
  loadGlobalAfterLimited checkpoint limit db :=
    (store.loadGlobalOver client store.reader.envelopeFromStoredRow db checkpoint (some limit), db)

/-- `run_redis_counter_projection_atomic`. -/
def runRedisCounterProjectionAtomic (client : RedisClient) (store : RedisEventStore counter)
    (db : KeySpace) : Except (ProjectionRunnerError String EventStoreError String) Nat × KeySpace :=
  Prod.map (·.map ProjectionBatchOutcome.applied) id
    ((projectionPorts client store).runBatchAsync counterProjectionBatchLimit db)

def i32TryFrom (value : Int) : Option Int32 := if Fits value then some (.ofInt value) else none

/-- `get_count_db` over Redis. -/
def getCountDb (client : RedisClient) (db : KeySpace) : Except EventStoreError Int32 :=
  (client.execute (getReply (redisReadModelKey (aggregateIdJson "global"))) db).map fun value =>
    ((redisValueAsI64 value).bind i32TryFrom).getD 0

end CounterApp

end DddCqrsEs
