import DddCqrsEs.RedisAppend
import DddCqrsEs.Transition

/- Runs of appends on one Redis server, by stores of any aggregate types and prefixes, and
what they keep true of its keys. -/
namespace DddCqrsEs

open RedisServer Transition

/-- One call of a store's append. -/
structure RedisCall where
  A : Aggregate
  store : RedisEventStore A
  delivery : Delivery
  aggregateId : A.Id
  expectedRevision : ExpectedRevision
  events : List (NewEvent A.Event × Stamp)

def RedisCall.outcome (call : RedisCall) (db : KeySpace) :
    Except EventStoreError (EventStream call.A) × KeySpace :=
  call.store.append db call.delivery call.aggregateId call.expectedRevision call.events

def counterOf (db : KeySpace) (key : String) : Nat :=
  match db key with
  | some (.string text) => Nat.ofDigitChars 10 text.toList 0
  | _ => 0

def setOf (db : KeySpace) (key : String) : List (Nat × String) :=
  match db key with
  | some (.sortedSet members) => members
  | _ => []

def hashOf (db : KeySpace) (key : String) : RedisHash :=
  match db key with
  | some (.hash fields) => fields
  | _ => []

/-- Sequences stay below 10^14, where Lua prints integers exactly, and event versions fit the
source's 32 bits. -/
def RedisCall.Fits (call : RedisCall) (db : KeySpace) : Prop :=
  counterOf db (call.store.keyPrefix.key .sequence) + call.events.length < 10 ^ 14 ∧
    ∀ event ∈ call.events, event.1.eventVersion < 2 ^ 32

instance (call : RedisCall) (db : KeySpace) : Decidable (call.Fits db) :=
  inferInstanceAs (Decidable (_ ∧ _))

def redisMachine : Machine KeySpace RedisCall where
  start db := db = fun _ => none
  step db call := if call.Fits db then some (call.outcome db).2 else none

theorem redisMachine_step (call : RedisCall) (db : KeySpace) (fits : call.Fits db) :
    redisMachine.step db call = some (call.outcome db).2 := by
  simp only [redisMachine, if_pos fits]

/-- A hash that carries a stream's names, a revision and a sequence. -/
def HoldsEvent (hash : RedisHash) (aggregateType key : String) (revision sequence : Nat) : Prop :=
  hash.lookup "aggregate_type" = some aggregateType ∧ hash.lookup "aggregate_id" = some key ∧
    hash.lookup "revision" = some (luaTostring revision) ∧
    hash.lookup "sequence" = some (luaTostring sequence)

/-- What the keys of a prefix say together. -/
structure Consistent (keyPrefix : RedisPrefix) (db : KeySpace) : Prop where
  /-- The scores of a stream's index run from one to its revision counter. -/
  streams : ∀ aggregateType key,
    (setOf db (keyPrefix.key (.stream aggregateType key))).map Prod.fst =
      List.range' 1 (counterOf db (keyPrefix.key (.revision aggregateType key)))
  global : setOf db (keyPrefix.key .global) =
    (List.range' 1 (counterOf db (keyPrefix.key .sequence))).map
      (fun sequence => (sequence, luaTostring sequence))
  events : ∀ aggregateType key,
    ∀ member ∈ setOf db (keyPrefix.key (.stream aggregateType key)),
      ∃ sequence, member.2 = luaTostring sequence ∧
        (sequence, luaTostring sequence) ∈ setOf db (keyPrefix.key .global) ∧
        HoldsEvent (hashOf db (keyPrefix.key (.event sequence))) aggregateType key member.1 sequence
  indexed : ∀ member ∈ setOf db (keyPrefix.key .global), ∃ aggregateType key revision,
    HoldsEvent (hashOf db (keyPrefix.key (.event member.1))) aggregateType key revision member.1 ∧
      (revision, member.2) ∈ setOf db (keyPrefix.key (.stream aggregateType key))

/-- An envelope says what the store now holds under its sequence. -/
def StoredEnvelope {A : Aggregate} (store : RedisEventStore A) (db : KeySpace) (key : String)
    (event : EventEnvelope A.Event A.Id) : Prop :=
  ∃ sequence, event.sequence = some sequence ∧
    HoldsEvent (hashOf db (store.keyPrefix.key (.event sequence))) A.aggregateType key
      event.revision sequence ∧
    (event.revision, luaTostring sequence) ∈
      setOf db (store.keyPrefix.key (.stream A.aggregateType key)) ∧
    (hashOf db (store.keyPrefix.key (.event sequence))).lookup "event_id" = some event.eventId

variable {db : KeySpace} {key : String} {A : Aggregate} {codec : RowCodec A} {row : StoredEventRow}
  {table : EventsTable}

theorem counterOf_ofCount {count : Nat} (held : db key = ofCount count) :
    counterOf db key = count := by
  rw [counterOf, held, ofCount]
  by_cases zero : count = 0
  · simp [zero]
  · rw [if_neg zero]
    show Nat.ofDigitChars 10 (Nat.repr count).toList 0 = count
    rw [Nat.repr, String.toList_ofList, Nat.ofDigitChars_ten_toDigits]

theorem setOf_ofSet {members : List (Nat × String)} (held : db key = ofSet members) :
    setOf db key = members := by
  rw [setOf, held, ofSet]
  by_cases empty : members = []
  · simp [empty]
  · simp [empty]

theorem hashOf_hash {hash : RedisHash} (held : db key = some (.hash hash)) :
    hashOf db key = hash := by
  rw [hashOf, held]

theorem rowHash_holdsEvent (row : StoredEventRow) :
    HoldsEvent (rowHash row) row.aggregateType row.aggregateId row.revision row.sequence :=
  ⟨rfl, rfl, rfl, rfl⟩

namespace Represents

variable {keyPrefix : RedisPrefix}

theorem consistent (represents : Represents keyPrefix db table) : Consistent keyPrefix db := by
  have global := setOf_ofSet represents.global
  have streams := fun aggregateType key => setOf_ofSet (represents.stream aggregateType key)
  have hashes : ∀ row ∈ table.rows, hashOf db (keyPrefix.key (.event row.sequence)) = rowHash row :=
    fun row member => hashOf_hash (represents.event row member)
  constructor
  · intro aggregateType key
    rw [streams, counterOf_ofCount (represents.revision aggregateType key),
      ← represents.revisions, List.map_map]
    rfl
  · rw [global, counterOf_ofCount represents.sequence, ← represents.sequences, List.map_map]
    rfl
  · intro aggregateType key member listed
    rw [streams] at listed
    obtain ⟨row, own, rfl⟩ := List.mem_map.mp listed
    obtain ⟨stored, named⟩ := List.mem_filter.mp own
    rw [decide_eq_true_eq] at named
    refine ⟨row.sequence, rfl, ?_, ?_⟩
    · rw [global]
      exact List.mem_map_of_mem stored
    · rw [hashes row stored, ← named.1, ← named.2]
      exact rowHash_holdsEvent row
  · intro member listed
    rw [global] at listed
    obtain ⟨row, stored, rfl⟩ := List.mem_map.mp listed
    refine ⟨row.aggregateType, row.aggregateId, row.revision, ?_, ?_⟩
    · rw [hashes row stored]
      exact rowHash_holdsEvent row
    · rw [streams]
      exact List.mem_map.mpr ⟨row, List.mem_filter.mpr ⟨stored, by simp⟩, rfl⟩

end Represents

/-- The numbers of a table are those that the columns hold. -/
structure Bounded (table : EventsTable) : Prop where
  sequence : table.lastSequence < 10 ^ 14
  version : ∀ row ∈ table.rows, row.eventVersion < 2 ^ 32
  recordedAt : ∀ row ∈ table.rows, row.recordedAtMs ≤ i64Max

theorem systemTimeToMillis_le {recordedAt : SystemTime} {millis : Nat}
    (converted : systemTimeToMillis recordedAt = .ok millis) : millis ≤ i64Max := by
  rw [systemTimeToMillis] at converted
  split at converted
  · cases converted
  · dsimp only at converted
    split at converted
    · cases converted
      assumption
    · cases converted

theorem PreparedEvent.storedRows_source {revision sequence : Nat}
    {events : List (PreparedEvent codec)} (member : row ∈ storedRows key revision sequence events) :
    ∃ event ∈ events, row.eventVersion = event.event.eventVersion ∧
      row.recordedAtMs = event.recordedAtMs := by
  induction events generalizing revision sequence with
  | nil => cases member
  | cons event rest ih =>
    rcases List.mem_cons.mp member with rfl | later
    · exact ⟨event, List.mem_cons_self, rfl, rfl⟩
    · obtain ⟨source, listed, same⟩ := ih later
      exact ⟨source, List.mem_cons_of_mem _ listed, same⟩

/-- A batch within the limits leaves the table within them. -/
theorem Bounded.extend (bounded : Bounded table) {events : List (NewEvent A.Event × Stamp)}
    {prepared : List (PreparedEvent codec)} (readied : events.mapM codec.prepare = .ok prepared)
    (room : table.lastSequence + events.length < 10 ^ 14)
    (versions : ∀ event ∈ events, event.1.eventVersion < 2 ^ 32) (key : String) :
    Bounded (table.extend (table.appended key prepared)) := by
  have pointwise := forall₂_of_mapM_ok readied
  have sources : ∀ ready ∈ prepared, ready.event.eventVersion < 2 ^ 32 := by
    intro ready member
    obtain ⟨event, listed, one⟩ := exists_of_forall₂ pointwise member
    rw [(prepare_source one).1]
    exact versions event listed
  have added : ∀ row ∈ table.appended key prepared,
      row.eventVersion < 2 ^ 32 ∧ row.recordedAtMs ≤ i64Max := by
    intro row member
    obtain ⟨event, listed, version, recordedAt⟩ := PreparedEvent.storedRows_source member
    rw [version, recordedAt]
    exact ⟨sources event listed, systemTimeToMillis_le event.recorded_text⟩
  constructor
  · rw [EventsTable.extend, EventsTable.appended, PreparedEvent.storedRows_length,
      ← pointwise.length_eq]
    exact room
  · intro row member
    rcases List.mem_append.mp member with earlier | new
    · exact bounded.version row earlier
    · exact (added row new).1
  · intro row member
    rcases List.mem_append.mp member with earlier | new
    · exact bounded.recordedAt row earlier
    · exact (added row new).2

/-- Every prefix stands for some table. -/
def Grounded (db : KeySpace) : Prop :=
  ∀ keyPrefix, ∃ table, Represents keyPrefix db table ∧ Bounded table

/-- What a prefix stands for before a call is the front of what it stands for after it. -/
theorem RedisCall.extends (call : RedisCall) (grounded : Grounded db) (fits : call.Fits db)
    {keyPrefix : RedisPrefix} (represents : Represents keyPrefix db table)
    (bounded : Bounded table) :
    ∃ later, Represents keyPrefix (call.outcome db).2 later ∧ Bounded later ∧
      table.rows <+: later.rows := by
  by_cases written : keyPrefix = call.store.keyPrefix
  · subst written
    rcases call.store.append_cases represents call.delivery call.aggregateId
      call.expectedRevision call.events with
      ⟨same, _⟩ | ⟨keys, prepared, _, readied, _, represented, _, _⟩
    · refine ⟨table, ?_, bounded, List.prefix_refl _⟩
      show Represents _ (call.store.append db _ _ _ _).2 table
      rwa [same]
    · have room : table.lastSequence + call.events.length < 10 ^ 14 := by
        rw [← counterOf_ofCount represents.sequence]
        exact fits.1
      exact ⟨_, represented, bounded.extend readied room fits.2 _, List.prefix_append _ _⟩
  · refine ⟨table, ?_, bounded, List.prefix_refl _⟩
    obtain ⟨own, holds, _⟩ := grounded call.store.keyPrefix
    show Represents keyPrefix (call.store.append db _ _ _ _).2 table
    rcases call.store.append_cases holds call.delivery call.aggregateId
      call.expectedRevision call.events with ⟨same, _⟩ | ⟨keys, prepared, _, _, _, _, frame, _⟩
    · rwa [same]
    · apply represents.congr
      intro name
      apply frame
      intro theirs same
      exact written (RedisPrefix.key_injective same).1

theorem RedisCall.grounded (call : RedisCall) (grounded : Grounded db) (fits : call.Fits db) :
    Grounded (call.outcome db).2 := by
  intro keyPrefix
  obtain ⟨table, represents, bounded⟩ := grounded keyPrefix
  obtain ⟨later, represented, within, _⟩ := call.extends grounded fits represents bounded
  exact ⟨later, represented, within⟩

theorem redisMachine_grounded (reached : redisMachine.Reachable db) : Grounded db := by
  refine Machine.invariant (I := Grounded) ?_ ?_ reached
  · rintro first rfl keyPrefix
    exact ⟨.empty, empty_represents keyPrefix, by decide, by simp [EventsTable.empty],
      by simp [EventsTable.empty]⟩
  · intro first call second _ grounded stepped
    simp only [redisMachine] at stepped
    split at stepped
    · rename_i fits
      cases stepped
      exact call.grounded grounded fits
    · cases stepped

/-- What a call leaves behind, and what it returns. A rejected batch leaves everything as it
was, and the returned envelopes say what is stored. -/
def RedisCall.Faithful (call : RedisCall) (db : KeySpace) : Prop :=
  (∀ error, call.delivery = .answered → (call.outcome db).1 = .error error →
    (call.outcome db).2 = db) ∧
  ∀ committed, (call.outcome db).1 = .ok committed → committed.length = call.events.length ∧
    ∀ event ∈ committed, ∃ key, call.store.codec.serializeId call.aggregateId = .ok key ∧
      StoredEnvelope call.store (call.outcome db).2 key event

theorem RowCodec.serializeId_of_lookup {aggregateId : A.Id} {keys : List String}
    (lookup : codec.aggregateIdLookupKeys aggregateId = .ok keys) :
    codec.serializeId aggregateId = .ok (keys.headD "") := by
  rw [aggregateIdLookupKeys] at lookup
  split at lookup
  · cases lookup
  · rename_i current serialized
    rw [serialized]
    split at lookup
    · split at lookup <;> cases lookup <;> rfl
    · cases lookup
      rfl

theorem Represents.storedEnvelope {store : RedisEventStore A}
    (represents : Represents store.keyPrefix db table) (member : row ∈ table.rows)
    {event : EventEnvelope A.Event A.Id} (stored : StoredAs store.codec row event)
    (named : row.aggregateType = A.aggregateType) :
    StoredEnvelope store db row.aggregateId event := by
  have hash := hashOf_hash (represents.event row member)
  refine ⟨row.sequence, stored.sequence.symm, ?_, ?_, ?_⟩
  · rw [hash, ← named, ← stored.revision]
    exact rowHash_holdsEvent row
  · rw [setOf_ofSet (represents.stream A.aggregateType row.aggregateId), ← stored.revision]
    exact List.mem_map.mpr ⟨row, List.mem_filter.mpr ⟨member, by simp [named]⟩, rfl⟩
  · rw [hash, ← stored.eventId]
    rfl

theorem PreparedEvent.committed_length (aggregateId : A.Id) (revision sequence : Nat)
    (events : List (PreparedEvent codec)) :
    (committed aggregateId revision sequence events).length = events.length := by
  induction events generalizing revision sequence with
  | nil => rfl
  | cons event rest ih => simp [committed, ih]

theorem RedisCall.faithful (call : RedisCall) (grounded : Grounded db) : call.Faithful db := by
  obtain ⟨table, represents, _⟩ := grounded call.store.keyPrefix
  rcases call.store.append_cases represents call.delivery call.aggregateId call.expectedRevision
    call.events with ⟨same, nothing⟩ |
      ⟨keys, prepared, lookup, readied, _, represented, _, answered⟩
  · refine ⟨fun _ _ _ => same, ?_⟩
    intro committed succeeded
    obtain ⟨none, empty⟩ := nothing committed succeeded
    rw [none, empty]
    exact ⟨rfl, fun event member => absurd member List.not_mem_nil⟩
  · constructor
    · intro error delivered failed
      rcases answered with succeeded | ⟨lost, unanswered, _⟩
      · rw [RedisCall.outcome, succeeded] at failed
        cases failed
      · rw [delivered] at unanswered
        cases unanswered
    · intro committed succeeded
      rcases answered with returned | ⟨lost, _, failed⟩
      · rw [RedisCall.outcome, returned] at succeeded
        cases succeeded
        have stored := PreparedEvent.storedRows_storedAs call.aggregateId (keys.headD "")
          (table.streamRows call.A.aggregateType (keys.headD "")).length table.lastSequence prepared
        refine ⟨?_, ?_⟩
        · rw [PreparedEvent.committed_length]
          exact (forall₂_of_mapM_ok readied).length_eq.symm
        · intro event member
          obtain ⟨row, new, held⟩ := exists_of_forall₂ stored member
          have named := PreparedEvent.storedRows_keys new
          refine ⟨keys.headD "", RowCodec.serializeId_of_lookup lookup, ?_⟩
          rw [← named.2]
          exact represented.storedEnvelope (List.mem_append_right _ new) held named.1
      · rw [RedisCall.outcome, failed] at succeeded
        cases succeeded

/-- Appends by any stores keep the keys of every prefix consistent, a rejected append changes
nothing, and the envelopes rebuilt from the reply carry the stored revisions and sequences. -/
theorem redisAppends_consistent (db : KeySpace) (reached : redisMachine.Reachable db) :
    (∀ keyPrefix, Consistent keyPrefix db) ∧
      ∀ (call : RedisCall) (after : KeySpace), redisMachine.step db call = some after →
        after = (call.outcome db).2 ∧ call.Faithful db := by
  have grounded := redisMachine_grounded reached
  constructor
  · intro keyPrefix
    obtain ⟨table, represents, _⟩ := grounded keyPrefix
    exact represents.consistent
  · intro call after stepped
    simp only [redisMachine] at stepped
    split at stepped
    · cases stepped
      exact ⟨rfl, call.faithful grounded⟩
    · cases stepped

/-- An account's payload is JSON `null` whatever is stored, and its id what the key stands for. -/
def accountReader : RowReader .account where
  Json := String
  fromStr text := .ok text
  deserializeId text := .ok (unquoted text)
  preparePayload _ version payload := .ok (version, payload)
  payloadFromValue _ := .ok ()
  metadataFromValue _ := .ok .empty

def defaultRedisPrefix : RedisPrefix := ⟨"ddd_cqrs_es", rfl⟩

def accountRedis : RedisEventStore .account := ⟨defaultRedisPrefix, accountCodec, accountReader⟩

def accountCall (eventId : String) (expectedRevision : ExpectedRevision) : RedisCall :=
  ⟨.account, accountRedis, .answered, "a", expectedRevision, [accountEvent eventId]⟩

/-- A second append is rejected after the first one has opened the stream. -/
theorem redisAppends_consistent_account :
    let opened := ((accountCall "e1" .noStream).outcome (fun _ => none)).2
    Consistent defaultRedisPrefix opened ∧
      (accountCall "e2" .noStream).Faithful opened ∧
      ((accountCall "e2" .noStream).outcome opened).1 = .error (.concurrency .streamAlreadyExists) ∧
      counterOf opened (defaultRedisPrefix.key (.revision "account" "a")) = 1 := by
  have first := redisMachine_step (accountCall "e1" .noStream) (fun _ => none) (by decide)
  have sound := redisAppends_consistent _ (.step (.start rfl) first)
  have second := redisMachine_step (accountCall "e2" .noStream)
    ((accountCall "e1" .noStream).outcome (fun _ => none)).2 (by decide +kernel)
  exact ⟨sound.1 defaultRedisPrefix, (sound.2 _ _ second).2, rfl, by decide +kernel⟩

end DddCqrsEs
