import DddCqrsEs.ExecuteIdempotentAtomic
import DddCqrsEs.RedisKeyLease

/- All idempotency stores side by side: in which of them, for which rows and at which times a
pending key is blocked exactly as long as its lease lives. -/
namespace DddCqrsEs

/-- The in-memory store always blocks a key as long as its lease lives. The SQLite store
does where it honours the row, the Redis store where its script can tell the time from an
expiry to come. The PostgreSQL and MySQL stores and the event stores' own keys do only while
the lease lives, for they never clear a key. -/
theorem pendingKeys_blocked_iff {A : Aggregate} {V : Type} (clock : SystemTime) (key : String) :
    (∀ (store : InMemoryIdempotencyStore V) (config : IdempotencyLeaseConfig),
      (∀ lease, store.load key = some (.pending lease) → lease.expiresAtMs ≤ u64Max) →
      (store.access key config).BlocksWhileLeased clock) ∧
    (∀ (store : SqliteIdempotencyStore V) (table : IdempotencyTable)
      (config : IdempotencyLeaseConfig),
      (∀ lease, pendingLease table key = some lease → lease.FitsColumn) →
      ((store.access table key config).BlocksWhileLeased clock ↔
        ∀ lease, pendingLease table key = some lease →
          SqliteIdempotencyStore.Honours key clock lease)) ∧
    (∀ (store : PooledIdempotencyStore V) (table : IdempotencyTable)
      (config : IdempotencyLeaseConfig),
      (∀ lease, pendingLease table key = some lease → lease.FitsColumn) →
      ((store.access table key config).BlocksWhileLeased clock ↔
        ∀ lease, pendingLease table key = some lease →
          (key.utf8ByteSize ≤ idempotencyKeyMaxLen ∧ ColumnTime clock) ∧
            lease.LiveAt (nowMs clock))) ∧
    (∀ (store : SqliteEventStore A) (db : SqliteDatabase) (aggregateId : A.Id)
      (expectedRevision : ExpectedRevision) (events : List (NewEvent A.Event × Stamp)),
      ((store.access db key aggregateId expectedRevision events).BlocksWhileLeased clock ↔
        ∀ lease, pendingLease db.idempotency key = some lease →
          store.codec.Encodes aggregateId events ∧ lease.LiveAt (nowMs clock))) ∧
    (∀ (store : PooledEventStore A) (db : SqliteDatabase) (aggregateId : A.Id)
      (expectedRevision : ExpectedRevision) (events : List (NewEvent A.Event × Stamp)),
      (∀ lease, pendingLease db.idempotency key = some lease → lease.FitsColumn) →
      ((store.access db key aggregateId expectedRevision events).BlocksWhileLeased clock ↔
        ∀ lease, pendingLease db.idempotency key = some lease →
          store.codec.Encodes aggregateId events ∧ lease.LiveAt (nowMs clock))) ∧
    (∀ (store : RedisIdempotencyStore V) (db : RedisServer.KeySpace)
      (config : IdempotencyLeaseConfig), store.WrittenExpiry db key →
      ((store.access db key config).BlocksWhileLeased clock ↔
        ∀ lease, store.lease db key = some lease → lease.ReadAsLive (nowMs clock) →
          Binary64.round (nowMs clock) < Binary64.round (store.storedExpiry db key))) := by
  refine ⟨?_, ?_, ?_, ?_, ?_, ?_⟩
  · intro store config fits
    exact store.blocksWhileLeased key config clock fits
  · intro store table config fits
    exact SqliteIdempotencyStore.blocksWhileLeased_iff clock fits
  · intro store table config fits
    exact PooledIdempotencyStore.blocksWhileLeased_iff clock fits
  · intro store db aggregateId expectedRevision events
    exact SqliteEventStore.blocksWhileLeased_iff clock
  · intro store db aggregateId expectedRevision events fits
    exact PooledEventStore.blocksWhileLeased_iff clock fits
  · intro store db config written
    exact RedisIdempotencyStore.blocksWhileLeased_iff clock written

/-- A database whose key `k` somebody reserved, and was to complete before 1000. -/
def reservedKey : SqliteDatabase where
  events := .empty
  idempotency := fun key =>
    if key = "k" then some ⟨"pending", none, 0, some "owner-1", some 1000⟩ else none

def reservedEntry : InMemoryIdempotencyStore String :=
  InMemoryIdempotencyStore.new.insert "k" ⟨.pending ⟨"owner-1", 1000⟩, 0⟩

def pooledAccountStore : PooledEventStore .account where
  dialect := .postgres
  codec := accountCodec
  committedJson := accountCommittedJson
  networked := by decide

def redisKeys : RedisIdempotencyStore String := ⟨defaultRedisPrefix, .ok⟩

/-- The key `k` as the reserve script leaves it. -/
def reservedHash : RedisServer.KeySpace :=
  Function.update (fun _ => none) (redisKeys.key "k")
    (some (.hash [("state", "pending"), ("owner", "owner-1"), ("expires_at_ms", "1000")]))

theorem reservedKey_fits {lease : StoredLease}
    (leased : pendingLease reservedKey.idempotency "k" = some lease) : lease.FitsColumn := by
  cases leased
  intro expiresAt stored
  cases stored
  decide

theorem reservedKey_live {lease : StoredLease}
    (leased : pendingLease reservedKey.idempotency "k" = some lease) : lease.LiveAt 500 := by
  cases leased
  exact ⟨⟨"owner-1", 1000⟩, rfl, by decide⟩

theorem reservedHash_hash : redisKeys.hash reservedHash "k" =
    [("state", "pending"), ("owner", "owner-1"), ("expires_at_ms", "1000")] :=
  hashOf_hash (Function.update_self _ _ _)

/-- Half a second after the epoch the key is reserved in every store; two seconds after it,
the in-memory, the SQLite and the Redis store give it to somebody else. -/
theorem pendingKeys_blocked_iff_reservedKey :
    (reservedEntry.access "k" .default).BlocksWhileLeased 2000000000 ∧
      ((⟨.ok⟩ : SqliteIdempotencyStore String).access reservedKey.idempotency "k"
        .default).BlocksWhileLeased 2000000000 ∧
      ((⟨.ok⟩ : PooledIdempotencyStore String).access reservedKey.idempotency "k"
        .default).BlocksWhileLeased 500000000 ∧
      (accountStore.access reservedKey "k" "a" .any
        [accountEvent "event-1"]).BlocksWhileLeased 500000000 ∧
      (pooledAccountStore.access reservedKey "k" "a" .any
        [accountEvent "event-1"]).BlocksWhileLeased 500000000 ∧
      (redisKeys.access reservedHash "k" .default).BlocksWhileLeased 2000000000 := by
  obtain ⟨memory, sqlite, _, _, _, redis⟩ :=
    pendingKeys_blocked_iff (A := .account) (V := String) 2000000000 "k"
  obtain ⟨_, _, pooled, sqliteAppend, pooledAppend, _⟩ :=
    pendingKeys_blocked_iff (A := .account) (V := String) 500000000 "k"
  have encodes : accountCodec.Encodes "a" [accountEvent "event-1"] := ⟨⟨_, rfl⟩, _, rfl⟩
  refine ⟨memory _ _ ?_, (sqlite _ _ _ ?_).mpr ?_, (pooled _ _ _ ?_).mpr ?_,
    (sqliteAppend _ _ _ _ _).mpr ?_, (pooledAppend _ _ _ _ _ ?_).mpr ?_, (redis _ _ _ ?_).mpr ?_⟩
  · intro lease held
    cases held
    decide
  · intro lease leased
    exact reservedKey_fits leased
  · intro lease leased
    cases leased
    exact ⟨by decide, Or.inl ⟨by decide, Or.inl (by decide)⟩⟩
  · intro lease leased
    exact reservedKey_fits leased
  · intro lease leased
    exact ⟨⟨by decide, by decide⟩, reservedKey_live leased⟩
  · intro lease leased
    exact ⟨encodes, reservedKey_live leased⟩
  · intro lease leased
    exact reservedKey_fits leased
  · intro lease leased
    exact ⟨encodes, reservedKey_live leased⟩
  · intro text found
    rw [reservedHash_hash] at found
    cases found
    exact ⟨1000, by decide, rfl⟩
  · intro lease leased live
    unfold RedisIdempotencyStore.lease at leased
    rw [reservedHash_hash] at leased
    cases leased
    have unexpired := (StoredLease.readAsLive_of_named
      (show _ = some ⟨"owner-1", 1000⟩ from rfl)).mp live
    exact absurd unexpired (by decide)

/-- Once the lease has expired, the SQLite event store can neither load nor append the key,
and the PostgreSQL store still refuses it. -/
theorem expiredKey_stuck :
    (accountStore.access reservedKey "k" "a" .any [accountEvent "event-1"]).load 2000000000 =
        .error (.deserialization
          "pending idempotency row has expired or is missing lease metadata" none) ∧
      (accountStore.access reservedKey "k" "a" .any [accountEvent "event-1"]).attempt 2000000000 =
        .failed (.deserialization "unknown idempotency state: pending" none) ∧
      ¬ (accountStore.access reservedKey "k" "a" .any
        [accountEvent "event-1"]).BlocksWhileLeased 2000000000 ∧
      (pooledAccountStore.access reservedKey "k" "a" .any
        [accountEvent "event-1"]).attempt 2000000000 = .refused ∧
      ¬ (pooledAccountStore.access reservedKey "k" "a" .any
        [accountEvent "event-1"]).BlocksWhileLeased 2000000000 := by
  have expired : ¬ (⟨some "owner-1", some 1000⟩ : StoredLease).LiveAt 2000 := by
    intro live
    obtain ⟨held, named, unexpired⟩ := live
    cases named
    exact absurd unexpired (by decide)
  refine ⟨rfl, rfl, ?_, rfl, ?_⟩
  · intro blocks
    have live := (SqliteEventStore.blocksWhileLeased_iff _).mp blocks _ rfl
    exact expired live.2
  · intro blocks
    have live := (PooledEventStore.blocksWhileLeased_iff _ (fun _ => reservedKey_fits)).mp blocks _ rfl
    exact expired live.2

end DddCqrsEs
