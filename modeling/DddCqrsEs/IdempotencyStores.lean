import DddCqrsEs.Binary64
import DddCqrsEs.IdempotentAppend
import DddCqrsEs.RedisStore

/- The durable idempotency stores: one table for each of the SQL databases, and one hash a
key for Redis. -/
namespace DddCqrsEs

open RedisServer

variable {V : Type}

def idempotencyKeyMaxLen : Nat := 255

/-- `IdempotencyKey::validate_storage_length`, as the stores report it. -/
def validateStorageLength (key : String) : Except EventStoreError Unit :=
  if idempotencyKeyMaxLen < key.utf8ByteSize then
    .error (.backend ("idempotency key length " ++ toString key.utf8ByteSize ++
      " exceeds the supported maximum of " ++ toString idempotencyKeyMaxLen) none)
  else .ok ()

def parseCompleted (fromJson : String → Except String V) (value : String) :
    Except EventStoreError (Option (IdempotencyState V)) :=
  match fromJson value with
  | .ok value => .ok (some (.complete value))
  | .error error => .error (.deserialization ("idempotency value JSON: " ++ error) none)

/-- What a row that is not pending holds. -/
def completedState (fromJson : String → Except String V) (row : IdempotencyRow) :
    Except EventStoreError (Option (IdempotencyState V)) :=
  if row.state = "complete" then
    match row.value with
    | some value => parseCompleted fromJson value
    | none => .error (.deserialization "completed idempotency row is missing value" none)
  else .error (.deserialization ("unknown idempotency state: " ++ row.state) none)

abbrev IdempotencyTable := String → Option IdempotencyRow

structure SqliteIdempotencyStore (V : Type) where
  fromJson : String → Except String V

namespace SqliteIdempotencyStore

variable (store : SqliteIdempotencyStore V) (table : IdempotencyTable)

def load (fault : Option EventStoreError) (nowMs : Nat) (key : String) :
    Except EventStoreError (Option (IdempotencyState V)) :=
  match fault, table key with
  | some error, _ => .error error
  | none, none => .ok none
  | none, some row =>
    if row.state = "pending" then
      .ok ((pendingStateFromRow row.owner row.expiresAtMs nowMs).map .pending)
    else completedState store.fromJson row

/-- The `WHERE` of the update that takes over a row. Times beyond the column's range count
as 0. -/
def reclaims (row : IdempotencyRow) (nowMs : Nat) : Bool :=
  row.state = "pending" &&
    match row.expiresAtMs with
    | none => true
    | some expiresAt => expiresAt ≤ (if nowMs ≤ i64Max then nowMs else 0 : Nat)

/-- Insert the row, or else take over the one that is there. A database error leaves the
table as it was. -/
def reserveWithLease (fault : Option EventStoreError) (clock : SystemTime) (key : String)
    (config : IdempotencyLeaseConfig) : Except EventStoreError (Bool × IdempotencyTable) :=
  match validateStorageLength key, systemTimeToMillis clock, fault with
  | .error error, _, _ => .error error
  | .ok (), .error error, _ => .error error
  | .ok (), .ok _, some error => .error error
  | .ok (), .ok updatedAtMs, none =>
    let lease := newLease (nowMs clock) config
    let expiresAt := (min lease.expiresAtMs i64Max : Nat)
    match table key with
    | none =>
      let row : IdempotencyRow :=
        ⟨"pending", none, updatedAtMs, some lease.owner, some expiresAt⟩
      .ok (true, Function.update table key (some row))
    | some row =>
      if reclaims row (nowMs clock) then
        let row : IdempotencyRow :=
          ⟨row.state, row.value, updatedAtMs, some lease.owner, some expiresAt⟩
        .ok (true, Function.update table key (some row))
      else .ok (false, table)

end SqliteIdempotencyStore

/-- The PostgreSQL store and the MySQL store, which do the same. -/
structure PooledIdempotencyStore (V : Type) where
  fromJson : String → Except String V

namespace PooledIdempotencyStore

variable (store : PooledIdempotencyStore V) (table : IdempotencyTable)

def load (fault : Option EventStoreError) (nowMs : Nat) (key : String) :
    Except EventStoreError (Option (IdempotencyState V)) :=
  match fault, table key with
  | some error, _ => .error error
  | none, none => .ok none
  | none, some row =>
    if row.state = "pending" then .ok ((pendingStateFromRow none none nowMs).map .pending)
    else completedState store.fromJson row

def reserve (fault : Option EventStoreError) (clock : SystemTime) (key : String) :
    Except EventStoreError (Bool × IdempotencyTable) :=
  match validateStorageLength key, systemTimeToMillis clock, fault with
  | .error error, _, _ => .error error
  | .ok (), .error error, _ => .error error
  | .ok (), .ok _, some error => .error error
  | .ok (), .ok updatedAtMs, none =>
    match table key with
    | none =>
      let row : IdempotencyRow := ⟨"pending", none, updatedAtMs, none, none⟩
      .ok (true, Function.update table key (some row))
    | some _ => .ok (false, table)

/-- The lease is not stored. -/
def reserveWithLease (fault : Option EventStoreError) (clock : SystemTime) (key : String)
    (_config : IdempotencyLeaseConfig) : Except EventStoreError (Bool × IdempotencyTable) :=
  reserve table fault clock key

end PooledIdempotencyStore

/-- `str::parse::<i64>`, without its messages. -/
def parseI64 (text : String) : Option Int :=
  match text.toList with
  | '-' :: c :: digits =>
    match parseU64Digits 0 (c :: digits) with
    | .ok value => if value ≤ i64Max + 1 then some (-(value : Int)) else none
    | .error _ => none
  | _ =>
    match parseU64 text with
    | .ok value => if value ≤ i64Max then some value else none
    | .error _ => none

/-- `tonumber` of a text of decimal digits that is then compared. Lua's numbers are 64-bit
floating-point numbers. The stores write no other texts; Lua reads some of those as well, such as
`1e3`, and here they are no numbers. -/
def luaDouble (text : String) : Script Nat :=
  if text.toList ≠ [] ∧ text.toList.all Char.isDigit then
    pure (Binary64.round (Nat.ofDigitChars 10 text.toList 0))
  else throw "attempt to compare nil with number"

/-- `IDEMPOTENCY_RESERVE_LUA`. -/
def idempotencyReserveLua (keys arguments : List String) : Script RedisValue := do
  let existing ← hget (← argument keys 1) "state"
  if existing = none then
    hset (← argument keys 1)
      [("state", "pending"), ("owner", ← argument arguments 1),
        ("expires_at_ms", ← argument arguments 2)]
    return .int 1
  if existing = some "complete" then
    return .int 0
  let expires ← luaDouble ((← hget (← argument keys 1) "expires_at_ms").getD "0")
  let now ← luaDouble (← argument arguments 3)
  if expires ≤ now then
    hset (← argument keys 1)
      [("owner", ← argument arguments 1), ("expires_at_ms", ← argument arguments 2)]
    return .int 1
  return .int 0

/-- `HGETALL key` as the server answers it. -/
def hgetallReply (key : String) : Script RedisValue := do
  let fields ← hgetall key
  return .array (fields.flatMap (fun field => [.bytes field.1, .bytes field.2]))

def fieldFromItems (field : String) : List RedisValue → Option String
  | .bytes key :: .bytes value :: rest =>
    if key = field then some value else fieldFromItems field rest
  | _ :: _ :: rest => fieldFromItems field rest
  | _ => none

def fieldFromHash (value : RedisValue) (field : String) : Option String :=
  match value with
  | .array items => fieldFromItems field items
  | _ => none

structure RedisIdempotencyStore (V : Type) where
  keyPrefix : RedisPrefix
  fromJson : String → Except String V

namespace RedisIdempotencyStore

variable (store : RedisIdempotencyStore V) (db : KeySpace)

def key (idempotencyKey : String) : String :=
  redisHashTaggedPrefix store.keyPrefix.val ++ ":idempotency:" ++ hexEncode (asBytes idempotencyKey)

def stateFromReply (nowMs : Nat) (value : RedisValue) :
    Except EventStoreError (Option (IdempotencyState V)) :=
  let state := (fieldFromHash value "state").getD ""
  if state = "complete" then
    match fieldFromHash value "value" with
    | some raw => parseCompleted store.fromJson raw
    | none => .error (.deserialization "completed redis idempotency row is missing value" none)
  else if state = "pending" then
    .ok ((pendingStateFromRow (fieldFromHash value "owner")
      ((fieldFromHash value "expires_at_ms").bind parseI64) nowMs).map .pending)
  else .error (.deserialization ("unknown idempotency state: " ++ state) none)

def load (nowMs : Nat) (idempotencyKey : String) :
    Except EventStoreError (Option (IdempotencyState V)) :=
  match execute (hgetallReply (store.key idempotencyKey)) db with
  | .error error => .error error
  | .ok (.array []) => .ok none
  | .ok (.array items) => store.stateFromReply nowMs (.array items)
  | .ok _ => .ok none

def reservedFromReply : RedisValue → Except EventStoreError Bool
  | .int 1 => .ok true
  | .int 0 => .ok false
  | other =>
    .error (.deserialization ("unexpected redis idempotency reserve reply: " ++ other.debug) none)

def reserveScript (nowMs : Nat) (idempotencyKey : String) (config : IdempotencyLeaseConfig) :
    Script RedisValue :=
  let lease := newLease nowMs config
  idempotencyReserveLua [store.key idempotencyKey]
    [lease.owner, Nat.repr lease.expiresAtMs, Nat.repr nowMs]

/-- A reservation and the key space after it. -/
def reserveWithLease (delivery : Delivery) (nowMs : Nat) (idempotencyKey : String)
    (config : IdempotencyLeaseConfig) : Except EventStoreError Bool × KeySpace :=
  let script := store.reserveScript nowMs idempotencyKey config
  match delivery with
  | .answered => ((execute script db).bind reservedFromReply, afterScript script db)
  | .lost error => (.error error, db)
  | .unanswered error => (.error error, afterScript script db)

end RedisIdempotencyStore

end DddCqrsEs
