import DddCqrsEs.SqlKeyLease

/- The event stores that keep the idempotency key next to the events: an append under a key
that is pending. -/
namespace DddCqrsEs

variable {A : Aggregate}

/-- The arguments of an append that become column text. -/
def RowCodec.Encodes (codec : RowCodec A) (aggregateId : A.Id)
    (events : List (NewEvent A.Event × Stamp)) : Prop :=
  (∃ aggregateIdKey, codec.serializeId aggregateId = .ok aggregateIdKey) ∧
    ∃ prepared, events.mapM codec.prepare = .ok prepared

theorem RowCodec.not_encodes {codec : RowCodec A} {aggregateId : A.Id}
    {events : List (NewEvent A.Event × Stamp)} (unencoded : ¬ codec.Encodes aggregateId events) :
    (∃ error, codec.serializeId aggregateId = .error error) ∨
      ∃ aggregateIdKey error, codec.serializeId aggregateId = .ok aggregateIdKey ∧
        events.mapM codec.prepare = .error error := by
  cases serialized : codec.serializeId aggregateId with
  | error error => exact Or.inl ⟨error, rfl⟩
  | ok aggregateIdKey =>
    cases readied : events.mapM codec.prepare with
    | error error => exact Or.inr ⟨aggregateIdKey, error, rfl, rfl⟩
    | ok prepared => exact absurd ⟨⟨_, serialized⟩, _, readied⟩ unencoded

/-- A stored answer does not read as a lease. -/
theorem committed_ne_pending (committed : Except EventStoreError (EventStream A))
    (lease : IdempotencyLease) :
    committed.map (fun stream => some (IdempotencyState.complete stream))
      ≠ .ok (some (.pending lease)) := by
  cases committed <;> simp [Except.map]

namespace SqliteEventStore

variable (store : SqliteEventStore A) (db : SqliteDatabase) (key : String) (aggregateId : A.Id)
  (expectedRevision : ExpectedRevision) (events : List (NewEvent A.Event × Stamp))

def access : KeyAccess (EventStream A) where
  lease := pendingLease db.idempotency key
  load clock := store.loadIdempotent db none (nowMs clock) key
  attempt clock :=
    .ofAppended (store.appendIdempotent db none clock key aggregateId expectedRevision events)

variable {store} {db} {key} {aggregateId} {expectedRevision} {events} {row : IdempotencyRow}

/-- A pending row refuses while it reads as live. After that it is in the way. -/
theorem attempt_pending (held : db.idempotency key = some row) (pending : row.state = "pending")
    (clock : SystemTime) :
    let access := store.access db key aggregateId expectedRevision events
    access.attempt clock ≠ .granted ∧
      (access.attempt clock = .refused ↔
        store.codec.Encodes aggregateId events ∧
          (⟨row.owner, row.expiresAtMs⟩ : StoredLease).ReadAsLive (nowMs clock)) := by
  show KeyAttempt.ofAppended (store.appendIdempotent _ _ _ _ _ _ _) ≠ _ ∧
    (KeyAttempt.ofAppended (store.appendIdempotent _ _ _ _ _ _ _) = _ ↔ _)
  have incomplete : row.state ≠ "complete" := by simp [pending]
  unfold appendIdempotent
  by_cases encodes : store.codec.Encodes aggregateId events
  · obtain ⟨⟨aggregateIdKey, serialized⟩, prepared, readied⟩ := encodes
    have encodes : store.codec.Encodes aggregateId events := ⟨⟨_, serialized⟩, _, readied⟩
    rw [serialized, readied, held]
    dsimp only
    rw [if_neg incomplete]
    by_cases live : (⟨row.owner, row.expiresAtMs⟩ : StoredLease).ReadAsLive (nowMs clock)
    · obtain ⟨lease, read, _⟩ := live.read
      dsimp only at read
      rw [if_pos ⟨pending, by rw [read]; rfl⟩]
      simp [KeyAttempt.ofAppended, encodes, live]
    · have unread := StoredLease.read_none live
      dsimp only at unread
      rw [if_neg (by rw [unread]; simp)]
      simp [KeyAttempt.ofAppended, live]
  · rcases RowCodec.not_encodes encodes with failed | failed
    · obtain ⟨error, failed⟩ := failed
      rw [failed]
      simp [KeyAttempt.ofAppended, encodes]
    · obtain ⟨aggregateIdKey, error, serialized, failed⟩ := failed
      rw [serialized, failed]
      simp [KeyAttempt.ofAppended, encodes]

/-- An append to a key that is not pending is not refused as pending. -/
theorem attempt_idle (idle : ∀ row, db.idempotency key = some row → row.state ≠ "pending")
    (clock : SystemTime) :
    (store.access db key aggregateId expectedRevision events).attempt clock ≠ .refused := by
  show KeyAttempt.ofAppended (store.appendIdempotent _ _ _ _ _ _ _) ≠ _
  unfold appendIdempotent
  split
  · simp [KeyAttempt.ofAppended]
  · simp [KeyAttempt.ofAppended]
  · simp [KeyAttempt.ofAppended]
  · cases held : db.idempotency key with
    | none =>
      dsimp only
      split <;> simp [KeyAttempt.ofAppended]
    | some row =>
      have idle := idle row held
      dsimp only
      split
      · split
        · split <;> simp [KeyAttempt.ofAppended]
        · simp [KeyAttempt.ofAppended]
      · rw [if_neg (fun refused => idle refused.1)]
        simp [KeyAttempt.ofAppended]

theorem loadIdempotent_idle
    (idle : ∀ row, db.idempotency key = some row → row.state ≠ "pending") (nowMs : Nat)
    (lease : IdempotencyLease) :
    store.loadIdempotent db none nowMs key ≠ .ok (some (.pending lease)) := by
  unfold loadIdempotent
  cases held : db.idempotency key with
  | none => simp
  | some row =>
    dsimp only
    rw [if_neg (idle row held)]
    split
    · split
      · exact committed_ne_pending _ lease
      · simp
    · simp

/-- A pending key is blocked as long as its lease lives only while it does live: an expired
row is never cleared away, and one without a lease never expires. -/
theorem blocksWhileLeased_iff (clock : SystemTime) :
    (store.access db key aggregateId expectedRevision events).BlocksWhileLeased clock ↔
      ∀ lease, pendingLease db.idempotency key = some lease →
        store.codec.Encodes aggregateId events ∧ lease.LiveAt (nowMs clock) := by
  rcases pending_or_idle db.idempotency key with taken | idle
  · obtain ⟨row, held, pending⟩ := taken
    have leased := pendingLease_row held pending
    simp only [leased, Option.some.injEq, forall_eq']
    apply KeyAccess.blocks_iff_of_never_granted leased
    · intro live
      obtain ⟨lease, read, unexpired⟩ := live.readAsLive.read
      refine ⟨lease, ?_, unexpired⟩
      show store.loadIdempotent db none (nowMs clock) key = _
      unfold loadIdempotent
      rw [held]
      dsimp only at read ⊢
      rw [if_pos pending, read]
    · intro live
      rw [(attempt_pending held pending clock).2, and_iff_left live.readAsLive]
    · intro later _
      exact (attempt_pending held pending later).1
  · have unleased := pendingLease_idle idle
    exact iff_of_true (KeyAccess.blocks_of_unleased unleased
      (loadIdempotent_idle idle (nowMs clock)) (attempt_idle idle clock)) (by simp [unleased])

end SqliteEventStore

namespace PooledEventStore

variable (store : PooledEventStore A) (db : SqliteDatabase) (key : String) (aggregateId : A.Id)
  (expectedRevision : ExpectedRevision) (events : List (NewEvent A.Event × Stamp))

def access : KeyAccess (EventStream A) where
  lease := pendingLease db.idempotency key
  load clock := store.loadIdempotent db none (nowMs clock) key
  attempt clock := .ofAppended
    (store.appendIdempotent db none false clock key aggregateId expectedRevision events)

variable {store} {db} {key} {aggregateId} {expectedRevision} {events} {row : IdempotencyRow}

/-- Any pending row refuses, whatever its lease. -/
theorem attempt_pending (held : db.idempotency key = some row) (pending : row.state = "pending")
    (clock : SystemTime) :
    let access := store.access db key aggregateId expectedRevision events
    access.attempt clock ≠ .granted ∧
      (access.attempt clock = .refused ↔ store.codec.Encodes aggregateId events) := by
  show KeyAttempt.ofAppended (store.appendIdempotent _ _ _ _ _ _ _ _) ≠ _ ∧
    (KeyAttempt.ofAppended (store.appendIdempotent _ _ _ _ _ _ _ _) = _ ↔ _)
  have incomplete : row.state ≠ "complete" := by simp [pending]
  unfold appendIdempotent
  by_cases encodes : store.codec.Encodes aggregateId events
  · obtain ⟨⟨aggregateIdKey, serialized⟩, prepared, readied⟩ := encodes
    have encodes : store.codec.Encodes aggregateId events := ⟨⟨_, serialized⟩, _, readied⟩
    rw [serialized, readied]
    dsimp only
    unfold runIdempotentAppend
    rw [held]
    dsimp only
    rw [if_neg incomplete, if_pos pending]
    simp [KeyAttempt.ofAppended, encodes]
  · rcases RowCodec.not_encodes encodes with failed | failed
    · obtain ⟨error, failed⟩ := failed
      rw [failed]
      simp [KeyAttempt.ofAppended, encodes]
    · obtain ⟨aggregateIdKey, error, serialized, failed⟩ := failed
      rw [serialized, failed]
      simp [KeyAttempt.ofAppended, encodes]

theorem attempt_idle (idle : ∀ row, db.idempotency key = some row → row.state ≠ "pending")
    (clock : SystemTime) :
    (store.access db key aggregateId expectedRevision events).attempt clock ≠ .refused := by
  show KeyAttempt.ofAppended (store.appendIdempotent _ _ _ _ _ _ _ _) ≠ _
  unfold appendIdempotent
  split
  · simp [KeyAttempt.ofAppended]
  · simp [KeyAttempt.ofAppended]
  · simp [KeyAttempt.ofAppended]
  · unfold runIdempotentAppend
    cases held : db.idempotency key with
    | none =>
      dsimp only
      split
      · simp [KeyAttempt.ofAppended]
      · rw [if_neg (by simp)]
        split <;> simp [KeyAttempt.ofAppended]
    | some row =>
      dsimp only
      split
      · split
        · split <;> simp [KeyAttempt.ofAppended]
        · simp [KeyAttempt.ofAppended]
      · rw [if_neg (idle row held)]
        simp [KeyAttempt.ofAppended]

theorem loadIdempotent_idle
    (idle : ∀ row, db.idempotency key = some row → row.state ≠ "pending") (nowMs : Nat)
    (lease : IdempotencyLease) :
    store.loadIdempotent db none nowMs key ≠ .ok (some (.pending lease)) := by
  unfold loadIdempotent
  cases held : db.idempotency key with
  | none => simp
  | some row =>
    dsimp only
    rw [if_neg (idle row held)]
    split
    · split
      · exact committed_ne_pending _ lease
      · simp
    · simp

/-- A pending key is blocked as long as its lease lives only while it does live: the key is
never free again. -/
theorem blocksWhileLeased_iff (clock : SystemTime)
    (fits : ∀ lease, pendingLease db.idempotency key = some lease → lease.FitsColumn) :
    (store.access db key aggregateId expectedRevision events).BlocksWhileLeased clock ↔
      ∀ lease, pendingLease db.idempotency key = some lease →
        store.codec.Encodes aggregateId events ∧ lease.LiveAt (nowMs clock) := by
  rcases pending_or_idle db.idempotency key with taken | idle
  · obtain ⟨row, held, pending⟩ := taken
    have leased := pendingLease_row held pending
    simp only [leased, Option.some.injEq, forall_eq']
    apply KeyAccess.blocks_iff_of_never_granted leased
    · intro live
      have early := live.early (fits _ leased)
      obtain ⟨lease, read, unexpired⟩ := (StoredLease.readAsLive_fresh.mpr early).read
      refine ⟨lease, ?_, unexpired⟩
      show store.loadIdempotent db none (nowMs clock) key = _
      unfold loadIdempotent
      rw [held]
      dsimp only at read ⊢
      rw [if_pos pending, read]
    · intro _
      exact (attempt_pending held pending clock).2
    · intro later _
      exact (attempt_pending held pending later).1
  · have unleased := pendingLease_idle idle
    exact iff_of_true (KeyAccess.blocks_of_unleased unleased
      (loadIdempotent_idle idle (nowMs clock)) (attempt_idle idle clock)) (by simp [unleased])

end PooledEventStore

end DddCqrsEs
