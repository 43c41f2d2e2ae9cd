import DddCqrsEs.RedisExecutors

/- The Redis stores over the raw client and over the Spin client. Loads, appends, checkpoints
and the saves that ignore their reply are the same over both. A reservation, a heartbeat and
the save of a snapshot read a scalar where the Spin client hands on a list. -/
namespace DddCqrsEs

open RedisServer

/-- An executor that keeps a list, and hands on a scalar as it is or as a list of one. -/
structure RedisClient.Shaped (client : RedisClient) : Prop where
  array : ∀ items, client.reply (.array items) = .array items
  scalar : ∀ value, (∀ items, value ≠ .array items) →
    client.reply value = value ∨ client.reply value = .array [value]

theorem wasiRedisClient_shaped : wasiRedisClient.Shaped where
  array _ := rfl
  scalar _ _ := Or.inl rfl

variable {value : RedisValue} {db after : KeySpace} {script : Script RedisValue}

theorem spinRedisClient_scalar (scalar : ∀ items, value ≠ .array items) :
    spinRedisClient.reply value = .array [value] := by
  cases value with
  | array items => exact absurd rfl (scalar items)
  | nil | status | int | bytes => rfl

theorem spinRedisClient_shaped : spinRedisClient.Shaped where
  array _ := rfl
  scalar _ scalar := Or.inr (spinRedisClient_scalar scalar)

/-- Every reply of the script is a list. -/
def RepliesArray (script : Script RedisValue) : Prop :=
  ∀ db value after, script db = .ok value after → ∃ items, value = .array items

namespace RepliesArray

theorem pure (items : List RedisValue) : RepliesArray (pure (.array items)) := by
  intro db value after ran
  cases ran
  exact ⟨items, rfl⟩

theorem throw (message : String) : RepliesArray (throw message) := by
  intro db value after ran
  cases ran

theorem bind {α : Type} {first : Script α} {next : α → Script RedisValue}
    (replies : ∀ value, RepliesArray (next value)) : RepliesArray (first >>= next) := by
  intro db value after ran
  have ran : EStateM.bind first next db = .ok value after := ran
  unfold EStateM.bind at ran
  split at ran
  · exact replies _ _ _ _ ran
  · cases ran

theorem ite {condition : Prop} [Decidable condition] {first second : Script RedisValue}
    (left : RepliesArray first) (right : RepliesArray second) :
    RepliesArray (if condition then first else second) := by
  split
  · exact left
  · exact right

end RepliesArray

theorem storeEvents_repliesArray (keys arguments : List String) (current count : Nat) :
    RepliesArray (storeEvents keys arguments current count) :=
  .bind fun _ => .bind fun _ => .bind fun _ => .bind fun _ => .bind fun _ => .bind fun _ =>
    .bind fun _ => .pure _

theorem appendLua_repliesArray (keys arguments : List String) :
    RepliesArray (appendLua keys arguments) := by
  unfold appendLua
  refine .bind fun _ => .bind fun current => .bind fun _ => .bind fun streamCard => ?_
  refine .ite (.pure _) ?_
  refine .bind fun expectedKind => .bind fun _ => .bind fun expectedRevision => ?_
  refine .bind fun _ => .bind fun count => ?_
  refine .ite (.pure _) (.ite (.pure _) (.ite (.pure _) ?_))
  exact storeEvents_repliesArray keys arguments current count

theorem evalAppend_repliesArray (arguments : List String) :
    RepliesArray (RedisEventStore.evalAppend arguments) := by
  unfold RedisEventStore.evalAppend
  split
  · exact .throw _
  · split
    · exact .throw _
    · exact appendLua_repliesArray _ _

theorem fetchHashesLua_repliesArray (keys : List String) : RepliesArray (fetchHashesLua keys) :=
  .bind fun _ => .pure _

theorem zrangeReply_repliesArray (key : String) (after limit : Nat) :
    RepliesArray (zrangeReply key after limit) :=
  .bind fun _ => .pure _

theorem hgetallReply_repliesArray (key : String) : RepliesArray (hgetallReply key) :=
  .bind fun _ => .pure _

theorem redisOptionalU64_list (label : String) (scalar : ∀ items, value ≠ .array items) :
    redisOptionalU64 label (.array [value]) = redisOptionalU64 label value := by
  cases value with
  | array items => exact absurd rfl (scalar items)
  | nil | status | int | bytes => rfl

theorem getReply_scalar {key : String} (ran : getReply key db = .ok value after)
    (items : List RedisValue) : value ≠ .array items := by
  unfold getReply at ran
  cases read : get key db with
  | error message left =>
    have ran : EStateM.bind (get key) _ db = .ok value after := ran
    rw [EStateM.bind, read] at ran
    cases ran
  | ok stored left =>
    rw [bind_ok read] at ran
    cases stored with
    | none =>
      cases ran
      simp
    | some text =>
      cases ran
      simp

namespace RedisClient.Shaped

variable {client : RedisClient} (shaped : client.Shaped) {A : Aggregate} {V : Type}

include shaped

theorem execute_array {script : Script RedisValue} (replies : RepliesArray script)
    (db : KeySpace) : client.execute script db = DddCqrsEs.execute script db := by
  unfold RedisClient.execute DddCqrsEs.execute
  cases ran : script db with
  | error message after => rfl
  | ok value after =>
    obtain ⟨items, rfl⟩ := replies _ _ _ ran
    exact congrArg Except.ok (shaped.array items)

/-- A counter is read through the shape of its reply. -/
theorem get_optionalU64 (label key : String) (db : KeySpace) :
    (do redisOptionalU64 label (← client.execute (getReply key) db)) =
      (do redisOptionalU64 label (← DddCqrsEs.execute (getReply key) db)) := by
  unfold RedisClient.execute DddCqrsEs.execute
  cases ran : getReply key db with
  | error message after => rfl
  | ok value after =>
    have scalar := getReply_scalar ran
    show redisOptionalU64 label (client.reply value) = redisOptionalU64 label value
    rcases shaped.scalar value scalar with same | listed
    · rw [same]
    · rw [listed, redisOptionalU64_list label scalar]

theorem pageSequences_eq (db : KeySpace) (indexKey : String) (limit : Option Nat)
    (fuel cursor : Nat) (sequences : List Nat) :
    pageSequencesOver client db indexKey limit fuel cursor sequences =
      pageSequences db indexKey limit fuel cursor sequences := by
  induction fuel generalizing cursor sequences with
  | zero => rfl
  | succ fuel ih =>
    unfold pageSequencesOver pageSequences
    simp only [shaped.execute_array (zrangeReply_repliesArray _ _ _)]
    by_cases done : pageLimit limit sequences.length = 0
    · rw [if_pos done, if_pos done]
    · rw [if_neg done, if_neg done]
      refine bind_congr fun value => bind_congr fun page => ?_
      by_cases last : page.length < pageLimit limit sequences.length
      · rw [if_pos last, if_pos last]
      · rw [if_neg last, if_neg last]
        cases page.getLast? with
        | none => rfl
        | some scored =>
          show (if cursor < scored.2 then _ else _) = if cursor < scored.2 then _ else _
          rw [ih]

theorem loadIndexedSequences_eq (db : KeySpace) (indexKey : String) (afterScore : Nat)
    (limit : Option Nat) :
    loadIndexedSequencesOver client db indexKey afterScore limit =
      loadIndexedSequences db indexKey afterScore limit :=
  shaped.pageSequences_eq db indexKey limit _ afterScore []

section

variable (store : RedisEventStore A)

theorem currentRevision_eq (db : KeySpace) (aggregateIdKey : String) :
    store.currentRevisionOver client db aggregateIdKey = store.currentRevision db aggregateIdKey :=
  shaped.get_optionalU64 "stream revision" _ db

theorem maxRevisionForAggregateId_eq (db : KeySpace) (keys : List String) :
    store.maxRevisionForAggregateIdOver client db keys =
      store.maxRevisionForAggregateId db keys := by
  induction keys with
  | nil => rfl
  | cons key rest ih =>
    rw [RedisEventStore.maxRevisionForAggregateIdOver, RedisEventStore.maxRevisionForAggregateId,
      shaped.currentRevision_eq, ih]

theorem append_eq (db : KeySpace) (delivery : Delivery) (aggregateId : A.Id)
    (expectedRevision : ExpectedRevision) (events : List (NewEvent A.Event × Stamp)) :
    store.appendOver client db delivery aggregateId expectedRevision events =
      store.append db delivery aggregateId expectedRevision events := by
  unfold RedisEventStore.appendOver RedisEventStore.append
  cases store.codec.aggregateIdLookupKeys aggregateId with
  | error error => rfl
  | ok keys =>
    cases events.mapM store.codec.prepare with
    | error error => rfl
    | ok prepared =>
      show store.appendPreparedOver client db delivery aggregateId keys expectedRevision
        prepared = store.appendPrepared db delivery aggregateId keys expectedRevision prepared
      unfold RedisEventStore.appendPreparedOver RedisEventStore.appendPrepared
      by_cases empty : prepared.isEmpty
      · have nothing : store.appendNothingOver client db keys expectedRevision =
            store.appendNothing db keys expectedRevision := by
          rw [RedisEventStore.appendNothingOver, RedisEventStore.appendNothing,
            shaped.maxRevisionForAggregateId_eq]
        rw [if_pos empty, if_pos empty]
        cases delivery with
        | answered => exact congrArg (·, db) nothing
        | lost | unanswered => rfl
      · rw [if_neg empty, if_neg empty]
        cases delivery with
        | answered =>
          simp only [RedisClient.write, shaped.execute_array (evalAppend_repliesArray _)]
        | lost | unanswered => rfl

theorem fetchChunks_eq (db : KeySpace) (fuel : Nat) (sequences : List Nat) :
    store.fetchChunksOver client db fuel sequences = store.fetchChunks db fuel sequences := by
  induction fuel generalizing sequences with
  | zero => rfl
  | succ fuel ih =>
    simp only [RedisEventStore.fetchChunksOver, RedisEventStore.fetchChunks,
      shaped.execute_array (fetchHashesLua_repliesArray _), ih]

theorem loadKeys_eq (db : KeySpace) (revision : Nat) (keys : List String) :
    store.loadKeysOver client db revision keys = store.loadKeys db revision keys := by
  induction keys with
  | nil => rfl
  | cons key rest ih =>
    simp only [RedisEventStore.loadKeysOver, RedisEventStore.loadKeys,
      RedisEventStore.loadStreamOver, RedisEventStore.loadStream,
      RedisEventStore.loadSequenceHashesOver, RedisEventStore.loadSequenceHashes,
      shaped.loadIndexedSequences_eq, shaped.fetchChunks_eq, ih]

theorem load_eq (db : KeySpace) (aggregateId : A.Id) (revision : Nat) :
    store.loadOver client db aggregateId revision =
      store.loadAfterRevision db aggregateId revision := by
  simp only [RedisEventStore.loadOver, RedisEventStore.loadAfterRevision, shaped.loadKeys_eq]

theorem loadGlobal_eq {E : Type} (decode : StoredEventRow → Except EventStoreError E)
    (db : KeySpace) (sequence limit : Option Nat) :
    store.loadGlobalOver client decode db sequence limit =
      store.loadGlobal decode db sequence limit := by
  simp only [RedisEventStore.loadGlobalOver, RedisEventStore.loadGlobal,
    RedisEventStore.loadSequenceHashesOver, RedisEventStore.loadSequenceHashes,
    shaped.loadIndexedSequences_eq, shaped.fetchChunks_eq]

end

theorem loadCheckpoint_eq (keyPrefix : RedisPrefix) (projectionName : String) (db : KeySpace) :
    RedisCheckpointStore.loadCheckpointOver keyPrefix client projectionName db =
      RedisCheckpointStore.loadCheckpoint keyPrefix projectionName db := by
  unfold RedisCheckpointStore.loadCheckpointOver RedisCheckpointStore.loadCheckpoint
  rw [← bind_assoc, ← bind_assoc]
  exact congrArg (· >>= _) (shaped.get_optionalU64 "projection checkpoint" _ db)

theorem loadState_eq (store : RedisIdempotencyStore V) (db : KeySpace) (nowMs : Nat)
    (idempotencyKey : String) :
    store.loadOver client db nowMs idempotencyKey = store.load db nowMs idempotencyKey := by
  rw [RedisIdempotencyStore.loadOver, shaped.execute_array (hgetallReply_repliesArray _)]
  cases found : DddCqrsEs.execute (hgetallReply (store.key idempotencyKey)) db with
  | error error => rw [RedisIdempotencyStore.load, found]
  | ok value =>
    cases value with
    | array items => cases items <;> rw [RedisIdempotencyStore.load, found]
    | nil | status | int | bytes => rw [RedisIdempotencyStore.load, found]

theorem loadSnapshot_eq (store : RedisSnapshotStore A) (db : KeySpace) (aggregateId : A.Id) :
    store.loadSnapshotOver client db aggregateId =
      store.loadSnapshotOver wasiRedisClient db aggregateId := by
  simp only [RedisSnapshotStore.loadSnapshotOver,
    shaped.execute_array (hgetallReply_repliesArray _),
    wasiRedisClient_shaped.execute_array (hgetallReply_repliesArray _)]

end RedisClient.Shaped

/-- A reply that is not looked at. -/
theorem RedisClient.execute_ignored (client : RedisClient) (script : Script RedisValue)
    (db : KeySpace) :
    (client.execute script db).map (fun _ => ()) =
      (DddCqrsEs.execute script db).map (fun _ => ()) := by
  unfold RedisClient.execute DddCqrsEs.execute
  cases script db <;> rfl

/-- What a write leaves does not depend on the client. -/
theorem RedisClient.write_after (client other : RedisClient) (delivery : Delivery)
    (script : Script RedisValue) (db : KeySpace) :
    (client.write delivery script db).2 = (other.write delivery script db).2 := by
  cases delivery <;> rfl

theorem RedisClient.write_ignored (client other : RedisClient) (delivery : Delivery)
    (script : Script RedisValue) (db : KeySpace) :
    (client.write delivery script db).1.map (fun _ => ()) =
      (other.write delivery script db).1.map (fun _ => ()) := by
  cases delivery with
  | answered => exact (client.execute_ignored script db).trans (other.execute_ignored script db).symm
  | lost | unanswered => rfl

inductive RedisOp : Type 1 where
  | append {A : Aggregate} (store : RedisEventStore A) (delivery : Delivery) (aggregateId : A.Id)
      (expectedRevision : ExpectedRevision) (events : List (NewEvent A.Event × Stamp))
  | load {A : Aggregate} (store : RedisEventStore A) (aggregateId : A.Id) (revision : Nat)
  | loadGlobal {A : Aggregate} (store : RedisEventStore A) (sequence limit : Option Nat)
  | loadRawGlobal {A : Aggregate} (store : RedisEventStore A) (sequence : Option Nat) (limit : Nat)
  | loadCheckpoint (keyPrefix : RedisPrefix) (projectionName : String)
  | saveCheckpoint (keyPrefix : RedisPrefix) (delivery : Delivery) (projectionName : String)
      (sequence : UInt64)
  | resetCheckpoint (keyPrefix : RedisPrefix) (delivery : Delivery) (projectionName : String)
  | loadState {V : Type} (store : RedisIdempotencyStore V) (nowMs : Nat) (idempotencyKey : String)
  | reserve {V : Type} (store : RedisIdempotencyStore V) (delivery : Delivery) (nowMs : Nat)
      (idempotencyKey : String) (config : IdempotencyLeaseConfig)
  | heartbeat {V : Type} (store : RedisIdempotencyStore V) (delivery : Delivery) (nowMs : Nat)
      (idempotencyKey owner : String)
  | saveValue {V : Type} (store : RedisIdempotencyStore V) (toJson : V → Except String String)
      (delivery : Delivery) (idempotencyKey : String) (value : V)
  | removeKey {V : Type} (store : RedisIdempotencyStore V) (delivery : Delivery)
      (idempotencyKey : String)
  | loadSnapshot {A : Aggregate} (store : RedisSnapshotStore A) (aggregateId : A.Id)
  | saveSnapshot {A : Aggregate} (store : RedisSnapshotStore A) (delivery : Delivery)
      (snapshot : Snapshot A)

namespace RedisOp

def Result : RedisOp → Type
  | @append A .. | @load A .. | @loadGlobal A .. => Except EventStoreError (EventStream A)
  | loadRawGlobal store .. => Except EventStoreError (List (EventEnvelope store.reader.Json String))
  | loadCheckpoint .. => Except EventStoreError (Option Nat)
  | @loadState V .. => Except EventStoreError (Option (IdempotencyState V))
  | reserve .. | heartbeat .. => Except EventStoreError Bool
  | @loadSnapshot A .. => Except EventStoreError (Option (Snapshot A))
  | saveCheckpoint .. | resetCheckpoint .. | saveValue .. | removeKey .. | saveSnapshot .. =>
    Except EventStoreError Unit

/-- An operation over an executor, and the key space after it. -/
def run (client : RedisClient) (db : KeySpace) : (op : RedisOp) → op.Result × KeySpace
  | append store delivery aggregateId expectedRevision events =>
    store.appendOver client db delivery aggregateId expectedRevision events
  | load store aggregateId revision => (store.loadOver client db aggregateId revision, db)
  | loadGlobal store sequence limit =>
    (store.loadGlobalOver client store.reader.envelopeFromStoredRow db sequence limit, db)
  | loadRawGlobal store sequence limit =>
    (store.loadGlobalOver client store.reader.rawEnvelopeFromStoredRow db sequence (some limit), db)
  | loadCheckpoint keyPrefix projectionName =>
    (RedisCheckpointStore.loadCheckpointOver keyPrefix client projectionName db, db)
  | saveCheckpoint keyPrefix delivery projectionName sequence =>
    RedisCheckpointStore.saveCheckpointOver keyPrefix client delivery projectionName sequence db
  | resetCheckpoint keyPrefix delivery projectionName =>
    RedisCheckpointStore.resetCheckpointOver keyPrefix client delivery projectionName db
  | loadState store nowMs idempotencyKey => (store.loadOver client db nowMs idempotencyKey, db)
  | reserve store delivery nowMs idempotencyKey config =>
    store.reserveWithLeaseOver client db delivery nowMs idempotencyKey config
  | heartbeat store delivery nowMs idempotencyKey owner =>
    store.heartbeatOver client db delivery nowMs idempotencyKey owner
  | saveValue store toJson delivery idempotencyKey value =>
    store.saveOver client db toJson delivery idempotencyKey value
  | removeKey store delivery idempotencyKey => store.removeOver client db delivery idempotencyKey
  | loadSnapshot store aggregateId => (store.loadSnapshotOver client db aggregateId, db)
  | saveSnapshot store delivery snapshot => store.saveSnapshotOver client db delivery snapshot

/-- The key space a history of operations leaves. -/
def stateAfter (client : RedisClient) (history : List RedisOp) (db : KeySpace) : KeySpace :=
  history.foldl (fun db op => (op.run client db).2) db

end RedisOp

/-- The fields a hash command finds; none where the key holds something else. -/
def asHash : Option Object → Option RedisHash
  | none => some []
  | some (.hash held) => some held
  | some _ => none

/-- The number `tonumber` reads. -/
def decimal (text : String) : Option Nat :=
  if text.toList ≠ [] ∧ text.toList.all Char.isDigit then
    some (Nat.ofDigitChars 10 text.toList 0)
  else none

/-- The reserve script fails on what the key holds. -/
def StopsReserve (object : Option Object) : Prop :=
  ∀ held, asHash object = some held → held.lookup "state" ≠ none ∧
    held.lookup "state" ≠ some "complete" ∧
    decimal ((held.lookup "expires_at_ms").getD "0") = none

/-- The key is reserved by the owner. -/
def OwnedBy (owner : String) (object : Option Object) : Prop :=
  ∃ held, asHash object = some held ∧ held.lookup "owner" = some owner

/-- The save script fails on what the key holds, or refuses the revision for a later one. -/
def RefusesSnapshot (revision : Nat) (object : Option Object) : Prop :=
  ∀ held current, asHash object = some held →
    decimal ((held.lookup "revision").getD "0") = some current →
    Binary64.round current ≠ 0 ∧ Binary64.round revision < Binary64.round current

/-- What an operation has to meet for both clients to answer alike. -/
def RedisOp.Agrees (db : KeySpace) : RedisOp → Prop
  | .reserve store delivery _ idempotencyKey _ =>
    delivery = .answered → StopsReserve (db (store.key idempotencyKey))
  | .heartbeat store delivery _ idempotencyKey owner =>
    delivery = .answered → ¬ OwnedBy owner (db (store.key idempotencyKey))
  | .saveSnapshot store delivery snapshot =>
    delivery = .answered → ∀ key arguments, store.saveArguments snapshot = .ok (key, arguments) →
      RefusesSnapshot snapshot.revision (db key)
  | _ => True

theorem bind_error {α β : Type} {first : Script α} {next : α → Script β} {message : String}
    (failed : first db = .error message after) : (first >>= next) db = .error message after := by
  show EStateM.bind first next db = _
  rw [EStateM.bind, failed]

theorem fields_asHash (key : String) (db : KeySpace) :
    fields key db =
      match asHash (db key) with
      | some held => .ok held db
      | none => .error wrongType db := by
  unfold fields asHash
  cases db key with
  | none => rfl
  | some object => cases object <;> rfl

section

variable {key : String} {held : RedisHash}

theorem hget_asHash (read : asHash (db key) = some held) (field : String) :
    hget key field db = .ok (held.lookup field) db := by
  have found : fields key db = .ok held db := by rw [fields_asHash, read]
  rw [hget, bind_ok found]
  rfl

theorem hget_wrongType (read : asHash (db key) = none) (field : String) :
    hget key field db = .error wrongType db := by
  have failed : fields key db = .error wrongType db := by rw [fields_asHash, read]
  rw [hget, bind_error failed]

theorem hset_asHash (read : asHash (db key) = some held) (written : RedisHash) :
    hset key written db =
      .ok () (Function.update db key (some (.hash (written.foldl setField held)))) := by
  have found : fields key db = .ok held db := by rw [fields_asHash, read]
  rw [hset, bind_ok found]
  rfl

theorem luaDouble_some {text : String} {number : Nat} (read : decimal text = some number)
    (db : KeySpace) : luaDouble text db = .ok (Binary64.round number) db := by
  unfold decimal at read
  split at read
  · rename_i digits
    cases read
    rw [luaDouble, if_pos digits]
    rfl
  · cases read

theorem luaDouble_none {text : String} (read : decimal text = none) (db : KeySpace) :
    luaDouble text db = .error "attempt to compare nil with number" db := by
  unfold decimal at read
  split at read
  · cases read
  · rename_i other
    rw [luaDouble, if_neg other]
    rfl

/-- The reserve script fails, or replies with 1 or 0. -/
theorem idempotencyReserveLua_outcome (key owner expires : String) (now : Nat) (db : KeySpace) :
    (StopsReserve (db key) ∧ ∃ message after,
      idempotencyReserveLua [key] [owner, expires, Nat.repr now] db = .error message after) ∨
    (¬ StopsReserve (db key) ∧ ∃ granted : Bool, ∃ after,
      idempotencyReserveLua [key] [owner, expires, Nat.repr now] db =
        .ok (.int (if granted then 1 else 0)) after) := by
  have first (db : KeySpace) : argument [key] 1 db = .ok key db := rfl
  have clock (db : KeySpace) : argument [owner, expires, Nat.repr now] 3 db =
      .ok (Nat.repr now) db := rfl
  unfold idempotencyReserveLua
  rw [bind_ok (first db)]
  cases read : asHash (db key) with
  | none =>
    rw [bind_error (hget_wrongType read _)]
    refine Or.inl ⟨?_, _, _, rfl⟩
    intro held found
    rw [read] at found
    cases found
  | some held =>
    have stops : StopsReserve (db key) ↔ held.lookup "state" ≠ none ∧
        held.lookup "state" ≠ some "complete" ∧
        decimal ((held.lookup "expires_at_ms").getD "0") = none := by
      unfold StopsReserve
      rw [read]
      simp
    rw [bind_ok (hget_asHash read _), stops]
    by_cases missing : held.lookup "state" = none
    · rw [if_pos missing, bind_ok (first db), bind_ok (by rfl), bind_ok (by rfl),
        bind_ok (hset_asHash read _)]
      exact Or.inr ⟨fun stops => stops.1 missing, true, _, rfl⟩
    · rw [if_neg missing]
      by_cases complete : held.lookup "state" = some "complete"
      · rw [if_pos complete]
        exact Or.inr ⟨fun stops => stops.2.1 complete, false, _, rfl⟩
      · rw [if_neg complete, bind_ok (first db), bind_ok (hget_asHash read _)]
        cases expiry : decimal ((held.lookup "expires_at_ms").getD "0") with
        | none =>
          rw [bind_error (luaDouble_none expiry db)]
          exact Or.inl ⟨⟨missing, complete, rfl⟩, _, _, rfl⟩
        | some number =>
          rw [bind_ok (luaDouble_some expiry db), bind_ok (clock db),
            bind_ok (luaDouble_repr now db)]
          refine Or.inr ⟨(fun stops => by cases stops.2.2), ?_⟩
          by_cases expired : Binary64.round number ≤ Binary64.round now
          · rw [if_pos expired, bind_ok (first db), bind_ok (by rfl), bind_ok (by rfl),
              bind_ok (hset_asHash read _)]
            exact ⟨true, _, rfl⟩
          · rw [if_neg expired]
            exact ⟨false, _, rfl⟩

/-- The heartbeat script fails, or replies with 1 to the owner and with 0 to others. -/
theorem idempotencyHeartbeatLua_outcome (key owner expires : String) (db : KeySpace) :
    (¬ OwnedBy owner (db key) ∧ ∃ message after,
      idempotencyHeartbeatLua [key] [owner, expires] db = .error message after) ∨
    (OwnedBy owner (db key) ∧ ∃ after,
      idempotencyHeartbeatLua [key] [owner, expires] db = .ok (.int 1) after) ∨
    (¬ OwnedBy owner (db key) ∧ ∃ after,
      idempotencyHeartbeatLua [key] [owner, expires] db = .ok (.int 0) after) := by
  have first (db : KeySpace) : argument [key] 1 db = .ok key db := rfl
  have named (db : KeySpace) : argument [owner, expires] 1 db = .ok owner db := rfl
  unfold idempotencyHeartbeatLua OwnedBy
  rw [bind_ok (first db)]
  cases read : asHash (db key) with
  | none =>
    rw [bind_error (hget_wrongType read _)]
    exact Or.inl ⟨by simp, _, _, rfl⟩
  | some held =>
    rw [bind_ok (hget_asHash read _), bind_ok (named db)]
    by_cases owned : held.lookup "owner" = some owner
    · rw [if_pos owned, bind_ok (first db), bind_ok (by rfl), bind_ok (hset_asHash read _)]
      exact Or.inr (Or.inl ⟨⟨held, rfl, owned⟩, _, rfl⟩)
    · rw [if_neg owned]
      exact Or.inr (Or.inr ⟨by simpa using owned, _, rfl⟩)

/-- The save script fails or refuses, or replies with OK. -/
theorem snapshotSaveLua_outcome (key : String) (revision : Nat)
    (state metadata recordedAt aggregateType : String) (db : KeySpace) :
    (RefusesSnapshot revision (db key) ∧
      ((∃ message after, snapshotSaveLua [key]
          [Nat.repr revision, state, metadata, recordedAt, aggregateType] db =
            .error message after) ∨
        ∃ items after, snapshotSaveLua [key]
          [Nat.repr revision, state, metadata, recordedAt, aggregateType] db =
            .ok (.array items) after)) ∨
    (¬ RefusesSnapshot revision (db key) ∧ ∃ after, snapshotSaveLua [key]
      [Nat.repr revision, state, metadata, recordedAt, aggregateType] db =
        .ok (.bytes "OK") after) := by
  have first (db : KeySpace) : argument [key] 1 db = .ok key db := rfl
  have offered (db : KeySpace) :
      argument [Nat.repr revision, state, metadata, recordedAt, aggregateType] 1 db =
        .ok (Nat.repr revision) db := rfl
  unfold snapshotSaveLua
  rw [bind_ok (first db)]
  cases read : asHash (db key) with
  | none =>
    rw [bind_error (hget_wrongType read _)]
    refine Or.inl ⟨?_, Or.inl ⟨_, _, rfl⟩⟩
    intro held current found
    rw [read] at found
    cases found
  | some held =>
    rw [bind_ok (hget_asHash read _)]
    cases stored : decimal ((held.lookup "revision").getD "0") with
    | none =>
      rw [bind_error (luaDouble_none stored db)]
      refine Or.inl ⟨?_, Or.inl ⟨_, _, rfl⟩⟩
      intro other current found number
      rw [read] at found
      cases found
      rw [stored] at number
      cases number
    | some current =>
      have refuses : RefusesSnapshot revision (db key) ↔ Binary64.round current ≠ 0 ∧
          Binary64.round revision < Binary64.round current := by
        constructor
        · intro refuses
          exact refuses held current read stored
        · rintro stale other number found numeral
          rw [read] at found
          cases found
          rw [stored] at numeral
          cases numeral
          exact stale
      rw [bind_ok (luaDouble_some stored db), bind_ok (offered db),
        bind_ok (luaDouble_repr revision db), refuses]
      by_cases stale : Binary64.round current ≠ 0 ∧
          Binary64.round revision < Binary64.round current
      · rw [if_pos stale]
        exact Or.inl ⟨stale, Or.inr ⟨_, _, rfl⟩⟩
      · rw [if_neg stale, bind_ok (first db), bind_ok (offered db), bind_ok (by rfl),
          bind_ok (by rfl), bind_ok (by rfl), bind_ok (by rfl), bind_ok (hset_asHash read _)]
        exact Or.inr ⟨stale, _, rfl⟩

end

theorem spin_execute_ok (ran : script db = .ok value after) :
    spinRedisClient.execute script db = .ok (spinRedisClient.reply value) := by
  rw [RedisClient.execute, execute_ok ran]
  rfl

theorem wasi_execute (script : Script RedisValue) (db : KeySpace) :
    wasiRedisClient.execute script db = execute script db := by
  unfold RedisClient.execute execute
  cases script db <;> rfl

theorem execute_error (client : RedisClient) {message : String}
    (failed : script db = .error message after) :
    client.execute script db = .error (.backend message none) := by
  rw [RedisClient.execute, execute, failed]
  rfl

section

variable {A : Aggregate} {V : Type}

theorem reserveWithLease_iff (store : RedisIdempotencyStore V) (nowMs : Nat)
    (idempotencyKey : String) (config : IdempotencyLeaseConfig) :
    (store.reserveWithLeaseOver spinRedisClient db .answered nowMs idempotencyKey config).1 =
        (store.reserveWithLeaseOver wasiRedisClient db .answered nowMs idempotencyKey config).1 ↔
      StopsReserve (db (store.key idempotencyKey)) := by
  show (spinRedisClient.execute (store.reserveScript nowMs idempotencyKey config) db).bind
      RedisIdempotencyStore.reservedFromReply =
    (wasiRedisClient.execute (store.reserveScript nowMs idempotencyKey config) db).bind
      RedisIdempotencyStore.reservedFromReply ↔ _
  rcases idempotencyReserveLua_outcome (store.key idempotencyKey) (newLease nowMs config).owner
      (Nat.repr (newLease nowMs config).expiresAtMs) nowMs db with
    ⟨stops, message, after, failed⟩ | ⟨runs, granted, after, ran⟩
  · have failed : store.reserveScript nowMs idempotencyKey config db = .error message after := failed
    rw [execute_error _ failed, execute_error _ failed]
    exact iff_of_true rfl stops
  · have ran : store.reserveScript nowMs idempotencyKey config db =
        .ok (.int (if granted then 1 else 0)) after := ran
    rw [spin_execute_ok ran, wasi_execute, execute_ok ran]
    refine iff_of_false ?_ runs
    cases granted with
    | true => exact fun same => by cases same
    | false => exact fun same => by cases same

theorem heartbeat_iff (store : RedisIdempotencyStore V) (nowMs : Nat)
    (idempotencyKey owner : String) :
    (store.heartbeatOver spinRedisClient db .answered nowMs idempotencyKey owner).1 =
        (store.heartbeatOver wasiRedisClient db .answered nowMs idempotencyKey owner).1 ↔
      ¬ OwnedBy owner (db (store.key idempotencyKey)) := by
  show (spinRedisClient.execute (store.heartbeatScript nowMs idempotencyKey owner) db).map
      RedisIdempotencyStore.renewedFromReply =
    (wasiRedisClient.execute (store.heartbeatScript nowMs idempotencyKey owner) db).map
      RedisIdempotencyStore.renewedFromReply ↔ _
  rcases idempotencyHeartbeatLua_outcome (store.key idempotencyKey) owner
      (Nat.repr (expiresAtMs nowMs defaultIdempotencyLease)) db with
    ⟨other, message, after, failed⟩ | ⟨owned, after, ran⟩ | ⟨other, after, ran⟩
  · have failed : store.heartbeatScript nowMs idempotencyKey owner db = .error message after := failed
    rw [execute_error _ failed, execute_error _ failed]
    exact iff_of_true rfl other
  · have ran : store.heartbeatScript nowMs idempotencyKey owner db = .ok (.int 1) after := ran
    rw [spin_execute_ok ran, wasi_execute, execute_ok ran]
    refine iff_of_false ?_ (not_not.mpr owned)
    exact fun same => by cases same
  · have ran : store.heartbeatScript nowMs idempotencyKey owner db = .ok (.int 0) after := ran
    rw [spin_execute_ok ran, wasi_execute, execute_ok ran]
    exact iff_of_true rfl other

theorem saveSnapshot_iff (store : RedisSnapshotStore A) (snapshot : Snapshot A) :
    (store.saveSnapshotOver spinRedisClient db .answered snapshot).1 =
        (store.saveSnapshotOver wasiRedisClient db .answered snapshot).1 ↔
      ∀ key arguments, store.saveArguments snapshot = .ok (key, arguments) →
        RefusesSnapshot snapshot.revision (db key) := by
  unfold RedisSnapshotStore.saveSnapshotOver
  cases encoded : store.saveArguments snapshot with
  | error error => simp
  | ok command =>
    obtain ⟨key, arguments⟩ := command
    obtain ⟨state, metadata, recordedAt, rfl⟩ : ∃ state metadata recordedAt, arguments =
        [Nat.repr snapshot.revision, state, metadata, recordedAt, snapshot.aggregateType] := by
      obtain ⟨aggregateId, _, encoded⟩ := ok_of_bind encoded
      obtain ⟨state, _, encoded⟩ := ok_of_bind encoded
      obtain ⟨metadata, _, encoded⟩ := ok_of_bind encoded
      obtain ⟨recordedAt, _, encoded⟩ := ok_of_bind encoded
      cases encoded
      exact ⟨_, _, _, rfl⟩
    show (spinRedisClient.execute (snapshotSaveLua [key] _) db).bind
        (RedisSnapshotStore.savedFromReply snapshot.revision) =
      (wasiRedisClient.execute (snapshotSaveLua [key] _) db).bind
        (RedisSnapshotStore.savedFromReply snapshot.revision) ↔ _
    simp only [Except.ok.injEq, Prod.mk.injEq, and_imp, forall_eq', forall_apply_eq_imp_iff]
    rcases snapshotSaveLua_outcome key snapshot.revision state metadata recordedAt
        snapshot.aggregateType db with
      ⟨refuses, ⟨message, after, failed⟩ | ⟨items, after, ran⟩⟩ | ⟨accepts, after, ran⟩
    · rw [execute_error _ failed, execute_error _ failed]
      exact iff_of_true rfl refuses
    · rw [spin_execute_ok ran, wasi_execute, execute_ok ran]
      exact iff_of_true rfl refuses
    · rw [spin_execute_ok ran, wasi_execute, execute_ok ran]
      refine iff_of_false ?_ accepts
      exact fun same => by cases same

end

namespace RedisOp

/-- Both clients leave the same key space. -/
theorem run_after (db : KeySpace) (op : RedisOp) :
    (op.run spinRedisClient db).2 = (op.run wasiRedisClient db).2 := by
  cases op with
  | append store delivery aggregateId expectedRevision events =>
    show (store.appendOver _ _ _ _ _ _).2 = (store.appendOver _ _ _ _ _ _).2
    rw [spinRedisClient_shaped.append_eq, wasiRedisClient_shaped.append_eq]
  | load | loadGlobal | loadRawGlobal | loadCheckpoint | loadState | loadSnapshot => rfl
  | saveCheckpoint | resetCheckpoint | reserve | heartbeat | removeKey =>
    exact RedisClient.write_after _ _ _ _ db
  | saveValue store toJson delivery idempotencyKey value =>
    show (store.saveOver _ _ _ _ _ _).2 = (store.saveOver _ _ _ _ _ _).2
    unfold RedisIdempotencyStore.saveOver
    cases toJson value with
    | error error => rfl
    | ok valueJson => exact RedisClient.write_after _ _ _ _ db
  | saveSnapshot store delivery snapshot =>
    show (store.saveSnapshotOver _ _ _ _).2 = (store.saveSnapshotOver _ _ _ _).2
    unfold RedisSnapshotStore.saveSnapshotOver
    cases store.saveArguments snapshot with
    | error error => rfl
    | ok command => exact RedisClient.write_after _ _ _ _ db

theorem stateAfter_eq (history : List RedisOp) (db : KeySpace) :
    stateAfter spinRedisClient history db = stateAfter wasiRedisClient history db := by
  induction history generalizing db with
  | nil => rfl
  | cons op rest ih =>
    show stateAfter _ rest (op.run spinRedisClient db).2 =
      stateAfter _ rest (op.run wasiRedisClient db).2
    rw [run_after, ih]

/-- Both clients return the same, but for the replies that are read as scalars. -/
theorem run_iff (db : KeySpace) (op : RedisOp) :
    (op.run spinRedisClient db).1 = (op.run wasiRedisClient db).1 ↔ op.Agrees db := by
  cases op with
  | append store delivery aggregateId expectedRevision events =>
    refine iff_of_true ?_ trivial
    show (store.appendOver _ _ _ _ _ _).1 = (store.appendOver _ _ _ _ _ _).1
    rw [spinRedisClient_shaped.append_eq, wasiRedisClient_shaped.append_eq]
  | load store aggregateId revision =>
    exact iff_of_true ((spinRedisClient_shaped.load_eq store db aggregateId revision).trans
      (wasiRedisClient_shaped.load_eq store db aggregateId revision).symm) trivial
  | loadGlobal store sequence limit =>
    exact iff_of_true ((spinRedisClient_shaped.loadGlobal_eq store _ db sequence limit).trans
      (wasiRedisClient_shaped.loadGlobal_eq store _ db sequence limit).symm) trivial
  | loadRawGlobal store sequence limit =>
    exact iff_of_true ((spinRedisClient_shaped.loadGlobal_eq store _ db sequence (some limit)).trans
      (wasiRedisClient_shaped.loadGlobal_eq store _ db sequence (some limit)).symm) trivial
  | loadCheckpoint keyPrefix projectionName =>
    exact iff_of_true ((spinRedisClient_shaped.loadCheckpoint_eq keyPrefix projectionName db).trans
      (wasiRedisClient_shaped.loadCheckpoint_eq keyPrefix projectionName db).symm) trivial
  | loadState store nowMs idempotencyKey =>
    exact iff_of_true ((spinRedisClient_shaped.loadState_eq store db nowMs idempotencyKey).trans
      (wasiRedisClient_shaped.loadState_eq store db nowMs idempotencyKey).symm) trivial
  | loadSnapshot store aggregateId =>
    exact iff_of_true (spinRedisClient_shaped.loadSnapshot_eq store db aggregateId) trivial
  | saveCheckpoint | resetCheckpoint | removeKey =>
    exact iff_of_true (RedisClient.write_ignored _ _ _ _ db) trivial
  | saveValue store toJson delivery idempotencyKey value =>
    refine iff_of_true ?_ trivial
    show (store.saveOver _ _ _ _ _ _).1 = (store.saveOver _ _ _ _ _ _).1
    unfold RedisIdempotencyStore.saveOver
    cases toJson value with
    | error error => rfl
    | ok valueJson => exact RedisClient.write_ignored _ _ _ _ db
  | reserve store delivery nowMs idempotencyKey config =>
    cases delivery with
    | answered =>
      exact (reserveWithLease_iff store nowMs idempotencyKey config).trans
        ⟨fun stops _ => stops, fun agrees => agrees rfl⟩
    | lost | unanswered => exact iff_of_true rfl (fun answered => by cases answered)
  | heartbeat store delivery nowMs idempotencyKey owner =>
    cases delivery with
    | answered =>
      exact (heartbeat_iff store nowMs idempotencyKey owner).trans
        ⟨fun other _ => other, fun agrees => agrees rfl⟩
    | lost | unanswered => exact iff_of_true rfl (fun answered => by cases answered)
  | saveSnapshot store delivery snapshot =>
    cases delivery with
    | answered =>
      exact (saveSnapshot_iff store snapshot).trans
        ⟨fun refuses _ => refuses, fun agrees => agrees rfl⟩
    | lost error | unanswered error =>
      refine iff_of_true ?_ (fun answered => by cases answered)
      show (store.saveSnapshotOver _ _ _ _).1 = (store.saveSnapshotOver _ _ _ _).1
      unfold RedisSnapshotStore.saveSnapshotOver
      cases store.saveArguments snapshot <;> rfl

end RedisOp

/-- Over both clients every history leaves the same key space, and so does the next operation.
It returns the same exactly when no scalar reply is read: not for an answered reservation,
nor for an answered heartbeat of the owner or an accepted snapshot. -/
theorem replyShape_iff (db : KeySpace) (history : List RedisOp) (op : RedisOp) :
    RedisOp.stateAfter spinRedisClient history db = RedisOp.stateAfter wasiRedisClient history db ∧
    (op.run spinRedisClient (RedisOp.stateAfter spinRedisClient history db)).2 =
      (op.run wasiRedisClient (RedisOp.stateAfter wasiRedisClient history db)).2 ∧
    ((op.run spinRedisClient (RedisOp.stateAfter spinRedisClient history db)).1 =
        (op.run wasiRedisClient (RedisOp.stateAfter wasiRedisClient history db)).1 ↔
      op.Agrees (RedisOp.stateAfter wasiRedisClient history db)) := by
  have same := RedisOp.stateAfter_eq history db
  refine ⟨same, ?_, ?_⟩
  · rw [same]
    exact RedisOp.run_after _ op
  · rw [same]
    exact RedisOp.run_iff _ op

def orderKeys : RedisIdempotencyStore String := ⟨defaultRedisPrefix, .ok⟩

/-- A key that is free: the raw client reserves it, and the Spin client reserves it and
reports an error. -/
theorem replyShape_reservation :
    (orderKeys.reserveWithLeaseOver wasiRedisClient (fun _ => none) .answered 0 "order-1"
      .default).1 = .ok true ∧
    (orderKeys.reserveWithLeaseOver spinRedisClient (fun _ => none) .answered 0 "order-1"
      .default).1 = .error (.deserialization ("unexpected redis idempotency reserve reply: " ++
        (RedisValue.array [.int 1]).debug) none) ∧
    ¬ ∀ (db : KeySpace) (history : List RedisOp) (op : RedisOp),
      op.run spinRedisClient (RedisOp.stateAfter spinRedisClient history db) =
        op.run wasiRedisClient (RedisOp.stateAfter wasiRedisClient history db) := by
  refine ⟨rfl, rfl, ?_⟩
  intro agree
  have same := agree (fun _ => none) [] (.reserve orderKeys .answered 0 "order-1" .default)
  cases congrArg Prod.fst same

end DddCqrsEs
