import DddCqrsEs.CheckedRevision
import DddCqrsEs.ExecuteIdempotentAtomic
import DddCqrsEs.RedisReads

/- When the revision that an append checks is the one that a load reports: in the databases
and key spaces that any appends reach, from whatever earlier versions left under the legacy
keys. -/
namespace DddCqrsEs

open RedisServer Transition

/-- One transaction on a SQL database, by a store of any aggregate type. `rekey`: an
idempotency store rewrites its table. -/
inductive SqlAction where
  | append (A : Aggregate) (store : SqlEventStore A) (fault : Nat → Option EventStoreError)
      (aggregateId : A.Id) (expectedRevision : ExpectedRevision)
      (events : List (NewEvent A.Event × Stamp))
  | sqliteIdempotent (A : Aggregate) (store : SqliteEventStore A)
      (fault : Option EventStoreError) (clock : SystemTime) (key : String) (aggregateId : A.Id)
      (expectedRevision : ExpectedRevision) (events : List (NewEvent A.Event × Stamp))
  | pooledIdempotent (A : Aggregate) (store : PooledEventStore A)
      (fault : Option EventStoreError) (raced : Bool) (clock : SystemTime) (key : String)
      (aggregateId : A.Id) (expectedRevision : ExpectedRevision)
      (events : List (NewEvent A.Event × Stamp))
  | rekey (idempotency : String → Option IdempotencyRow)

/-- What a transaction leaves behind; one that fails changes nothing. -/
def SqlAction.after (db : SqliteDatabase) : SqlAction → SqliteDatabase
  | .append _ store fault aggregateId expectedRevision events =>
    match store.append db.events fault aggregateId expectedRevision events with
    | .ok done => { db with events := done.2 }
    | .error _ => db
  | .sqliteIdempotent _ store fault clock key aggregateId expectedRevision events =>
    match store.appendIdempotent db fault clock key aggregateId expectedRevision events with
    | .ok done => done.2
    | .error _ => db
  | .pooledIdempotent _ store fault raced clock key aggregateId expectedRevision events =>
    match store.appendIdempotent db fault raced clock key aggregateId expectedRevision
        events with
    | .ok done => done.2
    | .error _ => db
  | .rekey idempotency => { db with idempotency := idempotency }

/-- Runs from any rows that are counted from one, under current or legacy keys. -/
def sqlMachine : Machine SqliteDatabase SqlAction where
  start db := Counted db.events
  step db action := some (action.after db)

/-- The append runs of a Redis server, from any key space that holds consistent streams. -/
def legacyRedisMachine : Machine KeySpace RedisCall where
  start := Grounded
  step := redisMachine.step

variable {added : List StoredEventRow} {db : SqliteDatabase}

theorem Counted.extend {table after : EventsTable} (counted : Counted table)
    (grown : after.rows = table.rows ++ added) (positive : ∀ row ∈ added, row.revision ≠ 0) :
    Counted after := by
  intro row member
  rw [grown] at member
  rcases List.mem_append.mp member with earlier | new
  · exact counted row earlier
  · exact positive row new

theorem positive_of_numbered {revision count : Nat}
    (numbered : added.map (·.revision) = List.range' (revision + 1) count) :
    ∀ row ∈ added, row.revision ≠ 0 := by
  intro row member
  have listed := List.mem_map_of_mem (f := (·.revision)) member
  rw [numbered, List.mem_range'_1] at listed
  omega

section Counted

variable {A : Aggregate} {aggregateId : A.Id} {key : String}
  {expectedRevision : ExpectedRevision} {events : List (NewEvent A.Event × Stamp)}
  {committed : EventStream A}

theorem SqlEventStore.append_counted {store : SqlEventStore A} {table after : EventsTable}
    {fault : Nat → Option EventStoreError} (counted : Counted table)
    (appended : store.append table fault aggregateId expectedRevision events =
      .ok (committed, after)) : Counted after := by
  obtain ⟨keys, lookup, _⟩ := ok_of_bind appended
  obtain ⟨_, added, grown, _, numbered, _⟩ := append_ok lookup appended
  exact counted.extend grown (positive_of_numbered numbered)

variable {fault : Option EventStoreError} {clock : SystemTime} {store : PooledEventStore A}

theorem SqliteEventStore.appendIdempotent_counted {store : SqliteEventStore A}
    {after : SqliteDatabase} (counted : Counted db.events)
    (appended : store.appendIdempotent db fault clock key aggregateId expectedRevision events =
      .ok (committed, after)) : Counted after.events := by
  rcases appendIdempotent_ok appended with ⟨unchanged, _⟩ | ⟨_, added, _, grown, _, numbered, _⟩
  · rw [unchanged]
    exact counted
  · obtain ⟨revision, count, numbered⟩ := numbered
    exact counted.extend grown (positive_of_numbered numbered)

theorem PooledEventStore.appendReserved_counted {after : SqliteDatabase} {updatedAtMs : Nat}
    {aggregateIdKey : String} {prepared : List (PreparedEvent store.codec)}
    (counted : Counted db.events)
    (reserved : store.appendReserved db updatedAtMs key aggregateId aggregateIdKey
      expectedRevision prepared = .ok (committed, after)) : Counted after.events := by
  unfold appendReserved at reserved
  split at reserved
  · cases reserved
  · split at reserved
    · cases reserved
    · rename_i inserted
      split at reserved
      · cases reserved
      · cases reserved
        obtain ⟨added, grown, _, numbered, _⟩ := insertPreparedEvents_ok inserted
        exact counted.extend grown (positive_of_numbered numbered)

theorem PooledEventStore.appendIdempotent_counted {after : SqliteDatabase} {raced : Bool}
    (counted : Counted db.events)
    (appended : store.appendIdempotent db fault raced clock key aggregateId expectedRevision
      events = .ok (committed, after)) : Counted after.events := by
  unfold appendIdempotent at appended
  split at appended
  · cases appended
  · cases appended
  · cases appended
  · unfold runIdempotentAppend at appended
    split at appended
    · split at appended
      · split at appended
        · split at appended
          · cases appended
            exact counted
          · cases appended
        · cases appended
      · split at appended <;> cases appended
    · split at appended
      · cases appended
      · split at appended
        · cases appended
        · split at appended
          · rename_i reserved
            cases appended
            exact appendReserved_counted counted reserved
          · cases appended

end Counted

theorem SqlAction.counted (action : SqlAction) (counted : Counted db.events) :
    Counted (action.after db).events := by
  cases action with
  | append A store fault aggregateId expectedRevision events =>
    unfold SqlAction.after
    dsimp only
    split
    · rename_i appended
      exact SqlEventStore.append_counted counted appended
    · exact counted
  | sqliteIdempotent A store fault clock key aggregateId expectedRevision events =>
    unfold SqlAction.after
    dsimp only
    split
    · rename_i appended
      exact SqliteEventStore.appendIdempotent_counted counted appended
    · exact counted
  | pooledIdempotent A store fault raced clock key aggregateId expectedRevision events =>
    unfold SqlAction.after
    dsimp only
    split
    · rename_i appended
      exact PooledEventStore.appendIdempotent_counted counted appended
    · exact counted
  | rekey idempotency => exact counted

/-- Every database that is reached counts its revisions from one. -/
theorem sqlMachine_counted (reached : sqlMachine.Reachable db) : Counted db.events := by
  refine Machine.invariant (I := fun db => Counted db.events) ?_ ?_ reached
  · intro first counted
    exact counted
  · intro first action second _ counted stepped
    cases stepped
    exact action.counted counted

theorem legacyRedisMachine_grounded {db : KeySpace} (reached : legacyRedisMachine.Reachable db) :
    Grounded db := by
  refine Machine.invariant (I := Grounded) ?_ ?_ reached
  · intro first grounded
    exact grounded
  · intro first call second _ grounded stepped
    simp only [legacyRedisMachine, redisMachine] at stepped
    split at stepped
    · rename_i fits
      cases stepped
      exact call.grounded grounded fits
    · cases stepped

namespace RedisEventStore

variable {A : Aggregate} {store : RedisEventStore A} {db : KeySpace} {table : EventsTable}

/-- The revision counter of a stream. -/
def streamRevision (store : RedisEventStore A) (db : KeySpace) (key : String) : Nat :=
  counterOf db (store.keyPrefix.key (.revision A.aggregateType key))

theorem streamRevision_eq (represents : Represents store.keyPrefix db table) (key : String) :
    store.streamRevision db key = (table.streamRows A.aggregateType key).length :=
  counterOf_ofCount (represents.revision A.aggregateType key)

theorem getLast_range' (count : Nat) : ((List.range' 1 count).getLast?).getD 0 = count := by
  cases count with
  | zero => rfl
  | succ count =>
    rw [List.range'_concat, List.getLast?_concat]
    simp [Nat.add_comm]

variable {stream : EventStream A} {keys : List String}

/-- The load of one key reports the counter. -/
theorem loadStream_lastRevision (represents : Represents store.keyPrefix db table)
    (bounded : Bounded table) {key : String} (loaded : store.loadStream db key 0 = .ok stream) :
    stream.length = store.streamRevision db key ∧
      lastRevision stream = store.streamRevision db key := by
  rw [store.loadStream_rows represents bounded] at loaded
  have numbered := represents.revisions A.aggregateType key
  have all : (table.streamRows A.aggregateType key).filter (fun row => 0 < row.revision) =
      table.streamRows A.aggregateType key := by
    rw [List.filter_eq_self]
    intro row listed
    have positive := positive_of_numbered numbered row listed
    simpa using Nat.pos_of_ne_zero positive
  rw [all] at loaded
  have revisions := revisions_of_mapM loaded
  rw [numbered] at revisions
  constructor
  · rw [streamRevision_eq represents]
    simpa using congrArg List.length revisions
  · unfold lastRevision
    rw [revisions, streamRevision_eq represents]
    exact getLast_range' _

theorem loadKeys_lastRevision (represents : Represents store.keyPrefix db table)
    (bounded : Bounded table) (loaded : store.loadKeys db 0 keys = .ok stream) :
    lastRevision stream = firstRevision (store.streamRevision db) keys ∧
      (stream ≠ [] → lastRevision stream ≠ 0) := by
  induction keys with
  | nil =>
    cases loaded
    exact ⟨rfl, fun some => absurd rfl some⟩
  | cons key rest ih =>
    unfold loadKeys at loaded
    obtain ⟨events, read, loaded⟩ := ok_of_bind loaded
    obtain ⟨length, last⟩ := loadStream_lastRevision represents bounded read
    unfold firstRevision
    by_cases empty : events = []
    · subst empty
      rw [List.isEmpty_nil, if_pos rfl] at loaded
      rw [← length, List.length_nil, if_pos rfl]
      exact ih loaded
    · have some : store.streamRevision db key ≠ 0 := by
        rw [← length]
        simpa using empty
      rw [if_neg (by simpa using empty)] at loaded
      cases loaded
      rw [if_neg some, last]
      exact ⟨rfl, fun _ => some⟩

theorem currentRevision_ok (represents : Represents store.keyPrefix db table)
    (bounded : Bounded table) (key : String) :
    store.currentRevision db key = .ok (store.streamRevision db key) := by
  have held := represents.revision A.aggregateType key
  have fits : (table.streamRows A.aggregateType key).length < 2 ^ 64 := by
    have within : (table.streamRows A.aggregateType key).length ≤ table.rows.length :=
      List.length_filter_le _ _
    rw [represents.toIndexed.length] at within
    have bound := bounded.sequence
    omega
  rw [streamRevision_eq represents]
  unfold currentRevision getReply execute
  dsimp only [RedisPrefix.streamKeysForStorageKey]
  rw [bind_ok (get_ofCount held)]
  by_cases zero : (table.streamRows A.aggregateType key).length = 0
  · rw [if_pos zero, zero]
    rfl
  · rw [if_neg zero]
    show redisOptionalU64 _ (.bytes (Nat.repr _)) = _
    unfold redisOptionalU64 redisScalar redisValueU64
    dsimp only
    rw [parseU64_repr fits]
    rfl

/-- All keys together: the highest counter. -/
theorem maxRevisionForAggregateId_ok (represents : Represents store.keyPrefix db table)
    (bounded : Bounded table) (shape : KeyShape keys) :
    store.maxRevisionForAggregateId db keys =
      .ok (maxRevisionForLookupKeys keys (store.streamRevision db)) := by
  obtain ⟨current, rfl | ⟨legacy, _, rfl⟩⟩ := shape
  · simp [maxRevisionForAggregateId, maxRevisionForLookupKeys, bind, Except.bind, pure,
      Except.pure, currentRevision_ok represents bounded]
  · simp [maxRevisionForAggregateId, maxRevisionForLookupKeys, bind, Except.bind, pure,
      Except.pure, currentRevision_ok represents bounded]

variable {aggregateId : A.Id} {events : List (NewEvent A.Event × Stamp)}
  {prepared : List (PreparedEvent store.codec)}

theorem append_answered (lookup : store.codec.aggregateIdLookupKeys aggregateId = .ok keys)
    (readied : events.mapM store.codec.prepare = .ok prepared)
    (expectedRevision : ExpectedRevision) :
    store.append db .answered aggregateId expectedRevision events =
      store.appendPrepared db .answered aggregateId keys expectedRevision prepared := by
  simp only [append, lookup, readied]

/-- The append of no events checks the highest counter of the id. -/
theorem append_nothing_checks (represents : Represents store.keyPrefix db table)
    (bounded : Bounded table)
    (lookup : store.codec.aggregateIdLookupKeys aggregateId = .ok keys) :
    ChecksRevision
      (fun expected => failure (store.append db .answered aggregateId expected []).1)
      (maxRevisionForLookupKeys keys (store.streamRevision db)) := by
  have ran : ∀ expected, (store.append db .answered aggregateId expected []).1 =
      (checkExpectedRevision expected
        (maxRevisionForLookupKeys keys (store.streamRevision db))).map (fun _ => []) := by
    intro expected
    rw [append_answered lookup rfl]
    show store.appendNothing db keys expected = _
    unfold appendNothing
    rw [bind_of_ok (maxRevisionForAggregateId_ok represents bounded
      (aggregateIdLookupKeys_shape lookup))]
    cases checkExpectedRevision expected
      (maxRevisionForLookupKeys keys (store.streamRevision db)) <;> rfl
  constructor
  · intro expected error rejected
    rw [ran, rejected]
    rfl
  · intro expected admitted error failed
    rw [ran, admitted] at failed
    cases failed

/-- The append of events checks the counter of the current key. -/
theorem append_events_checks (represents : Represents store.keyPrefix db table)
    (lookup : store.codec.aggregateIdLookupKeys aggregateId = .ok keys)
    (readied : events.mapM store.codec.prepare = .ok prepared) (some : prepared ≠ []) :
    ChecksRevision
      (fun expected => failure (store.append db .answered aggregateId expected events).1)
      (store.streamRevision db (keys.headD "")) := by
  have nonempty : prepared.isEmpty = false := by simpa using some
  rw [streamRevision_eq represents]
  constructor
  · intro expected error rejected
    obtain ⟨reply, ran, parsed⟩ :=
      appendLua_rejects store (keys.headD "") prepared represents rejected
    rw [append_answered lookup readied]
    unfold appendPrepared
    rw [nonempty, evalAppend_run]
    dsimp only
    rw [if_neg (by simp), execute_ok ran]
    have answered : store.committedFromReply aggregateId expected prepared reply = .error error := by
      unfold committedFromReply
      rw [parsed]
      rfl
    show failure (store.committedFromReply aggregateId expected prepared reply) = _
    rw [answered]
    rfl
  · intro expected admitted error failed
    obtain ⟨written, ran, _, _⟩ :=
      storeEvents_run store (keys.headD "") expected some represents
    have stored := appendLua_stores store (keys.headD "") some represents admitted
    rw [ran] at stored
    rw [append_answered lookup readied] at failed
    unfold appendPrepared at failed
    rw [nonempty, evalAppend_run] at failed
    dsimp only at failed
    rw [if_neg (by simp), execute_ok stored] at failed
    have answered := committedFromReply_ok store aggregateId expected prepared
      (table.streamRows A.aggregateType (keys.headD "")).length table.lastSequence
    dsimp only [Except.bind] at failed
    rw [answered] at failed
    cases failed

end RedisEventStore

section Agreement

variable {A : Aggregate} {reader : RowReader A} {aggregateId : A.Id} {keys : List String}
  {stream : EventStream A} {answer : ExpectedRevision → Option EventStoreError}
  {store : SqlEventStore A} {table : EventsTable}

theorem SqlEventStore.Loads.agrees_iff_newestFirst
    (loads : store.Loads reader table aggregateId keys stream) (counted : Counted table)
    (checks : ChecksRevision answer
      (maxRevisionForLookupKeys keys (table.currentRevision A.aggregateType))) :
    AgreesWithLoad answer stream ↔ NewestFirst (table.currentRevision A.aggregateType) keys := by
  rw [checks.agreesWithLoad_iff (loads.lastRevision_ne_zero counted),
    loads.lastRevision_eq counted]
  exact maxRevision_eq_firstRevision_iff (aggregateIdLookupKeys_shape loads.lookup) _

theorem SqlEventStore.Loads.agrees_iff_currentOrFresh
    (loads : store.Loads reader table aggregateId keys stream) (counted : Counted table)
    (checks : ChecksRevision answer (table.currentRevision A.aggregateType (keys.headD ""))) :
    AgreesWithLoad answer stream ↔ CurrentOrFresh (table.currentRevision A.aggregateType) keys := by
  rw [checks.agreesWithLoad_iff (loads.lastRevision_ne_zero counted),
    loads.lastRevision_eq counted]
  exact headRevision_eq_firstRevision_iff (aggregateIdLookupKeys_shape loads.lookup) _

end Agreement

/-- In every database that is reached, an append compares the revision that a load reports
exactly where no legacy row is ahead of the rows in view; an append under an idempotency key
does exactly where the current key has rows or no key has; and on Redis, appends of no events
do as the former, all others as the latter. -/
theorem appends_checkLoaded_iff (A : Aggregate) (aggregateId : A.Id) (keys : List String)
    (stream : EventStream A) (events : List (NewEvent A.Event × Stamp)) :
    (∀ db, sqlMachine.Reachable db → ∀ reader : RowReader A,
      (∀ (store : SqlEventStore A) (prepared : List (PreparedEvent store.codec)),
        store.Loads reader db.events aggregateId keys stream →
        events.mapM store.codec.prepare = .ok prepared →
        (AgreesWithLoad (fun expected =>
            failure (store.append db.events (fun _ => none) aggregateId expected events)) stream ↔
          NewestFirst (db.events.currentRevision A.aggregateType) keys)) ∧
      (∀ (store : SqliteEventStore A) (prepared : List (PreparedEvent store.codec))
        (clock : SystemTime) (updatedAtMs : Nat) (key : String),
        store.eventStore.Loads reader db.events aggregateId keys stream →
        events.mapM store.codec.prepare = .ok prepared →
        systemTimeToMillis clock = .ok updatedAtMs → db.idempotency key = none →
        (AgreesWithLoad (fun expected => storeFailure
            (store.appendIdempotent db none clock key aggregateId expected events)) stream ↔
          CurrentOrFresh (db.events.currentRevision A.aggregateType) keys)) ∧
      (∀ (store : PooledEventStore A) (prepared : List (PreparedEvent store.codec))
        (clock : SystemTime) (updatedAtMs : Nat) (key : String),
        store.toSqlEventStore.Loads reader db.events aggregateId keys stream →
        events.mapM store.codec.prepare = .ok prepared →
        systemTimeToMillis clock = .ok updatedAtMs → db.idempotency key = none →
        (AgreesWithLoad (fun expected => storeFailure
            (store.appendIdempotent db none false clock key aggregateId expected events)) stream ↔
          CurrentOrFresh (db.events.currentRevision A.aggregateType) keys))) ∧
    (∀ db, legacyRedisMachine.Reachable db → ∀ (store : RedisEventStore A)
      (prepared : List (PreparedEvent store.codec)),
      store.codec.aggregateIdLookupKeys aggregateId = .ok keys →
      store.load db aggregateId = .ok stream →
      events.mapM store.codec.prepare = .ok prepared →
      (AgreesWithLoad (fun expected =>
          failure (store.append db .answered aggregateId expected events).1) stream ↔
        if events = [] then NewestFirst (store.streamRevision db) keys
        else CurrentOrFresh (store.streamRevision db) keys)) := by
  constructor
  · intro db reached reader
    have counted := sqlMachine_counted reached
    refine ⟨?_, ?_, ?_⟩
    · intro store prepared loads readied
      exact loads.agrees_iff_newestFirst counted (SqlEventStore.append_checks loads.lookup readied)
    · intro store prepared clock updatedAtMs key loads readied timed free
      have serialized := RowCodec.serializeId_of_lookup loads.lookup
      exact loads.agrees_iff_currentOrFresh counted
        (SqliteEventStore.appendIdempotent_checks serialized readied timed free)
    · intro store prepared clock updatedAtMs key loads readied timed free
      have serialized := RowCodec.serializeId_of_lookup loads.lookup
      exact loads.agrees_iff_currentOrFresh counted
        (PooledEventStore.appendIdempotent_checks serialized readied timed free)
  · intro db reached store prepared lookup loaded readied
    obtain ⟨table, represents, bounded⟩ :=
      legacyRedisMachine_grounded reached store.keyPrefix
    have shape := aggregateIdLookupKeys_shape lookup
    have read : store.loadKeys db 0 keys = .ok stream := by
      unfold RedisEventStore.load at loaded
      rwa [bind_of_ok lookup] at loaded
    obtain ⟨last, positive⟩ := RedisEventStore.loadKeys_lastRevision represents bounded read
    by_cases empty : events = []
    · subst empty
      rw [if_pos rfl, (RedisEventStore.append_nothing_checks represents bounded
        lookup).agreesWithLoad_iff positive, last]
      exact maxRevision_eq_firstRevision_iff shape _
    · have some : prepared ≠ [] := by
        intro none
        have lengths := (forall₂_of_mapM_ok readied).length_eq
        rw [none] at lengths
        exact empty (List.length_eq_zero_iff.mp lengths)
      rw [if_neg empty, (RedisEventStore.append_events_checks represents lookup readied
        some).agreesWithLoad_iff positive, last]
      exact headRevision_eq_firstRevision_iff shape _

/-- The account codec, reading rows as the account reader does. -/
def readingCodec : RowCodec .account :=
  { accountCodec with envelopeFromStoredRow := accountReader.envelopeFromStoredRow }

def readingStore : SqlEventStore .account := ⟨.postgres, readingCodec⟩

def readingSqlite : SqliteEventStore .account := ⟨readingCodec, accountCommittedJson⟩

def readingPooled : PooledEventStore .account := ⟨readingStore, accountCommittedJson, by decide⟩

/-- A database from before: the account `a` was opened under its quoted key. -/
def legacyDatabase : SqliteDatabase where
  events := ⟨[⟨"e1", "\"a\"", "account", 1, 1, "account_opened", 1, "null", "\x7b\x7d", 0⟩], 1⟩
  idempotency := fun _ => none

def legacyOpened : EventEnvelope Aggregate.account.Event Aggregate.account.Id :=
  ⟨"e1", "a", "account", 1, some 1, "account_opened", 1, (), .empty, 0⟩

theorem legacyDatabase_counted : Counted legacyDatabase.events := by
  intro row member
  cases member with
  | head => decide
  | tail _ later => cases later

theorem legacyDatabase_loads : readingStore.Loads accountReader legacyDatabase.events "a"
    ["a", "\"a\""] [legacyOpened] := ⟨rfl, rfl, rfl⟩

def freshDatabase : SqliteDatabase := ⟨.empty, fun _ => none⟩

theorem freshDatabase_loads : readingStore.Loads accountReader freshDatabase.events "a"
    ["a", "\"a\""] [] := ⟨rfl, rfl, rfl⟩

/-- A plain append continues the legacy stream; the others start one. -/
theorem appends_checkLoaded_iff_account :
    AgreesWithLoad (fun expected => failure (readingStore.append legacyDatabase.events
        (fun _ => none) "a" expected [accountEvent "e2"])) [legacyOpened] ∧
      AgreesWithLoad (fun expected => storeFailure (readingSqlite.appendIdempotent freshDatabase
        none 0 "k" "a" expected [accountEvent "e1"])) ([] : EventStream .account) ∧
      AgreesWithLoad (fun expected => storeFailure (readingPooled.appendIdempotent freshDatabase
        none false 0 "k" "a" expected [accountEvent "e1"])) ([] : EventStream .account) ∧
      AgreesWithLoad (fun expected => failure (accountRedis.append (fun _ => none) .answered "a"
        expected [accountEvent "e1"]).1) ([] : EventStream .account) := by
  have continued := appends_checkLoaded_iff .account "a" ["a", "\"a\""] [legacyOpened]
    [accountEvent "e2"]
  have started := appends_checkLoaded_iff .account "a" ["a", "\"a\""] [] [accountEvent "e1"]
  have fresh : Counted freshDatabase.events := fun row member => absurd member List.not_mem_nil
  have grounded : Grounded (fun _ => none) := fun keyPrefix =>
    ⟨.empty, empty_represents keyPrefix, by decide, by simp [EventsTable.empty],
      by simp [EventsTable.empty]⟩
  obtain ⟨plain, _, _⟩ := continued.1 legacyDatabase (.start legacyDatabase_counted) accountReader
  obtain ⟨_, sqlite, pooled⟩ := started.1 freshDatabase (.start fresh) accountReader
  refine ⟨(plain readingStore _ legacyDatabase_loads rfl).mpr (Or.inl rfl),
    (sqlite readingSqlite _ 0 _ "k" ⟨rfl, rfl, rfl⟩ rfl rfl rfl).mpr (Or.inr ?_),
    (pooled readingPooled _ 0 _ "k" freshDatabase_loads rfl rfl rfl).mpr (Or.inr ?_),
    (started.2 _ (.start grounded) accountRedis _ rfl rfl rfl).mpr ?_⟩
  · decide
  · decide
  · rw [if_neg (by simp)]
    exact Or.inr (by decide)

/-- A key space in which the id whose text is `"a"`, quotes included, has one event. -/
def legacyKeySpace : KeySpace :=
  (accountRedis.append (fun _ => none) .answered "\"a\"" .noStream [accountEvent "e1"]).2

/-- The stream is loaded at revision 1, which the append under an idempotency key rejects, and
so does the append of events on Redis. -/
theorem legacyStream_conflicts :
    readingStore.load legacyDatabase.events "a" = .ok [legacyOpened] ∧
      readingSqlite.appendIdempotent legacyDatabase none 0 "k" "a" (.exact 1)
          [accountEvent "e2"] =
        .error (.store (.concurrency (.wrongExpectedRevision (.exact 1) 0))) ∧
      ¬ AgreesWithLoad (fun expected => storeFailure (readingSqlite.appendIdempotent
        legacyDatabase none 0 "k" "a" expected [accountEvent "e2"])) [legacyOpened] ∧
      (accountRedis.load legacyKeySpace "a").map lastRevision = .ok 1 ∧
      failure (accountRedis.append legacyKeySpace .answered "a" (.exact 1)
          [accountEvent "e2"]).1 =
        some (.concurrency (.wrongExpectedRevision (.exact 1) 0)) := by
  refine ⟨rfl, rfl, ?_, by decide +kernel, by decide +kernel⟩
  intro agrees
  have accepted := agrees.exact (.concurrency (.wrongExpectedRevision (.exact 1) 0)) rfl
  cases accepted

end DddCqrsEs
