import DddCqrsEs.RedisKeys
import DddCqrsEs.IdempotencyStores

/- Event, checkpoint, idempotency and snapshot stores may share a server and a prefix. Here is
every key any of them writes. -/
namespace DddCqrsEs

/-- What the stores of one prefix keep: the keys of the event store, and the records of the
other stores. -/
inductive RedisEntry where
  | events (key : RedisKey)
  | checkpoint (projectionName : String)
  | idempotency (idempotencyKey : String)
  | snapshot (aggregateType aggregateId : String)
  deriving DecidableEq, Repr

namespace RedisPrefix

variable (keyPrefix : RedisPrefix)

def checkpointKey (projectionName : String) : String :=
  redisHashTaggedPrefix keyPrefix.val ++ ":checkpoint:" ++ hexEncode (asBytes projectionName)

def idempotencyKey (idempotencyKey : String) : String :=
  redisHashTaggedPrefix keyPrefix.val ++ ":idempotency:" ++ hexEncode (asBytes idempotencyKey)

def snapshotKey (aggregateType aggregateId : String) : String :=
  redisHashTaggedPrefix keyPrefix.val ++ ":snapshot:" ++ hexEncode (asBytes aggregateType) ++ ":" ++
    hexEncode (asBytes aggregateId)

def entryKey : RedisEntry → String
  | .events key => keyPrefix.key key
  | .checkpoint projectionName => keyPrefix.checkpointKey projectionName
  | .idempotency key => keyPrefix.idempotencyKey key
  | .snapshot aggregateType aggregateId => keyPrefix.snapshotKey aggregateType aggregateId

end RedisPrefix

namespace RedisEntry

/-- What follows the tag of the prefix. -/
def suffix : RedisEntry → String
  | .events key => key.suffix
  | .checkpoint projectionName => ":checkpoint:" ++ hexEncode (asBytes projectionName)
  | .idempotency idempotencyKey => ":idempotency:" ++ hexEncode (asBytes idempotencyKey)
  | .snapshot aggregateType aggregateId =>
    ":snapshot:" ++ (hexEncode (asBytes aggregateType) ++ ":" ++ hexEncode (asBytes aggregateId))

theorem entryKey_eq (keyPrefix : RedisPrefix) (entry : RedisEntry) :
    keyPrefix.entryKey entry = redisHashTaggedPrefix keyPrefix.val ++ entry.suffix := by
  cases entry with
  | events key => rfl
  | checkpoint | idempotency | snapshot =>
    simp only [RedisPrefix.entryKey, RedisPrefix.checkpointKey, RedisPrefix.idempotencyKey,
      RedisPrefix.snapshotKey, suffix, String.append_assoc]

theorem hexEncode_asBytes_injective {first second : String}
    (same : hexEncode (asBytes first) = hexEncode (asBytes second)) : first = second :=
  asBytes_injective (hexEncode_injective same)

/-- The keys of the event store are told from the others by the word behind the tag. -/
theorem events_suffix_ne (key : RedisKey) (entry : RedisEntry)
    (other : ∀ key, entry ≠ .events key) : key.suffix ≠ entry.suffix := by
  intro same
  have chars := congrArg String.toList same
  cases entry with
  | events key => exact other key rfl
  | checkpoint | idempotency | snapshot => cases key <;> simp [RedisKey.suffix, suffix] at chars

theorem suffix_injective {first second : RedisEntry} (same : first.suffix = second.suffix) :
    first = second := by
  cases first <;> cases second
  case events.events key other => rw [RedisKey.suffix_injective same]
  case events.checkpoint | events.idempotency | events.snapshot =>
    exact absurd same (events_suffix_ne _ _ (by simp))
  case checkpoint.events | idempotency.events | snapshot.events =>
    exact absurd same.symm (events_suffix_ne _ _ (by simp))
  case checkpoint.checkpoint | idempotency.idempotency =>
    simp only [suffix, String.append_right_inj] at same
    rw [hexEncode_asBytes_injective same]
  case snapshot.snapshot =>
    simp only [suffix, String.append_right_inj] at same
    obtain ⟨types, ids⟩ := hexEncode_pair same
    rw [types, ids]
  all_goals
    have chars := congrArg String.toList same
    simp [suffix] at chars

end RedisEntry

theorem RedisPrefix.entryKey_inj {first second : RedisPrefix} {entry other : RedisEntry}
    (same : first.entryKey entry = second.entryKey other) : first = second ∧ entry = other := by
  rw [RedisEntry.entryKey_eq, RedisEntry.entryKey_eq] at same
  obtain ⟨prefixes, suffixes⟩ := redisHashTaggedPrefix_append same
  exact ⟨prefixes, RedisEntry.suffix_injective suffixes⟩

/-- Keys coincide only for the same entry of the same prefix. -/
theorem RedisPrefix.entryKey_eq_iff (first second : RedisPrefix) (entry other : RedisEntry) :
    first.entryKey entry = second.entryKey other ↔ first = second ∧ entry = other := by
  constructor
  · exact entryKey_inj
  · rintro ⟨rfl, rfl⟩
    rfl

end DddCqrsEs
