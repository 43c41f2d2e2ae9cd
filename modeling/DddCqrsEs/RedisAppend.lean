import DddCqrsEs.RedisStore

/- What the append script keeps: a key space stands for a table of rows, whose counters,
indexes and hashes it holds, and a script run that is not rejected adds the batch to that
table. -/
namespace DddCqrsEs

open RedisServer

/-- The fields of a row's hash, in the order the script writes them. -/
def rowHash (row : StoredEventRow) : RedisHash :=
  [("event_id", row.eventId), ("aggregate_id", row.aggregateId),
    ("aggregate_type", row.aggregateType), ("revision", luaTostring row.revision),
    ("sequence", luaTostring row.sequence), ("event_type", row.eventType),
    ("event_version", Nat.repr row.eventVersion), ("payload", row.payload),
    ("metadata", row.metadata), ("recorded_at_ms", Nat.repr row.recordedAtMs)]

/-- The indexes and hashes under a prefix are those of a table whose rows are numbered in
order, as a whole and within each stream. -/
structure Indexed (keyPrefix : RedisPrefix) (db : KeySpace) (table : EventsTable) : Prop where
  sequences : table.rows.map (·.sequence) = List.range' 1 table.lastSequence
  revisions : ∀ aggregateType key, (table.streamRows aggregateType key).map (·.revision) =
    List.range' 1 (table.streamRows aggregateType key).length
  global : db (keyPrefix.key .global) =
    ofSet (table.rows.map (fun row => (row.sequence, luaTostring row.sequence)))
  stream : ∀ aggregateType key, db (keyPrefix.key (.stream aggregateType key)) =
    ofSet ((table.streamRows aggregateType key).map
      (fun row => (row.revision, luaTostring row.sequence)))
  event : ∀ row ∈ table.rows,
    db (keyPrefix.key (.event row.sequence)) = some (.hash (rowHash row))
  unused : ∀ sequence, table.lastSequence < sequence →
    db (keyPrefix.key (.event sequence)) = none

/-- The counters agree with the table as well. -/
structure Represents (keyPrefix : RedisPrefix) (db : KeySpace) (table : EventsTable) : Prop extends
    Indexed keyPrefix db table where
  sequence : db (keyPrefix.key .sequence) = ofCount table.lastSequence
  revision : ∀ aggregateType key, db (keyPrefix.key (.revision aggregateType key)) =
    ofCount (table.streamRows aggregateType key).length

theorem empty_represents (keyPrefix : RedisPrefix) :
    Represents keyPrefix (fun _ => none) .empty where
  sequences := rfl
  revisions _ _ := rfl
  global := rfl
  stream _ _ := rfl
  event _ member := absurd member List.not_mem_nil
  unused _ _ := rfl
  sequence := rfl
  revision _ _ := rfl

/-- What a table shows after one more row. -/
def EventsTable.push (table : EventsTable) (row : StoredEventRow) : EventsTable :=
  ⟨table.rows ++ [row], table.lastSequence + 1⟩

theorem EventsTable.streamRows_push (table : EventsTable) (row : StoredEventRow)
    (aggregateType key : String) :
    (table.push row).streamRows aggregateType key =
      table.streamRows aggregateType key ++
        if row.aggregateType = aggregateType ∧ row.aggregateId = key then [row] else [] := by
  have grown : (table.push row).rows = table.rows ++ [row] := rfl
  rw [EventsTable.streamRows_added grown, List.filter_singleton]
  by_cases own : row.aggregateType = aggregateType ∧ row.aggregateId = key
  · simp [own]
  · simp [own]

theorem luaTonumber_repr (number : Nat) (db : KeySpace) :
    luaTonumber (Nat.repr number) db = .ok number db := by
  have digits : (Nat.repr number).toList = Nat.toDigits 10 number := String.toList_ofList
  have all : (Nat.toDigits 10 number).all Char.isDigit = true := by
    rw [List.all_eq_true]
    intro c member
    exact Nat.isDigit_of_mem_toDigits (by decide) (by decide) member
  rw [luaTonumber, digits, if_pos ⟨Nat.toDigits_ne_nil, all⟩, Nat.ofDigitChars_ten_toDigits]
  rfl

variable {db after : KeySpace} {text : String} {keyPrefix : RedisPrefix} {table : EventsTable}
  {row : StoredEventRow} {expectedRevision : ExpectedRevision}

theorem bind_ok {α β : Type} {first : Script α} {next : α → Script β} {value : α}
    (ran : first db = .ok value after) : (first >>= next) db = next value after := by
  show EStateM.bind first next db = _
  rw [EStateM.bind, ran]

theorem execute_ok {α : Type} {script : Script α} {value : α} (ran : script db = .ok value after) :
    execute script db = .ok value := by
  rw [execute, ran]

theorem luaCounter_ofCount {key : String} {count : Nat} (held : db key = ofCount count) :
    luaCounter key db = .ok count db := by
  rw [luaCounter, bind_ok (get_ofCount held)]
  by_cases zero : count = 0
  · rw [if_pos zero, zero]
    exact luaTonumber_repr 0 db
  · rw [if_neg zero]
    exact luaTonumber_repr count db

theorem argument_ok {arguments : List String} {index : Nat}
    (found : arguments[index - 1]? = some text) (db : KeySpace) :
    argument arguments index db = .ok text db := by
  rw [argument, found]
  rfl

/-- The key space after one event: its hash, then its place in both indexes. -/
def withRow (keyPrefix : RedisPrefix) (db : KeySpace) (table : EventsTable)
    (row : StoredEventRow) : KeySpace :=
  let hashed := Function.update db (keyPrefix.key (.event row.sequence)) (some (.hash (rowHash row)))
  let streamed := Function.update hashed
    (keyPrefix.key (.stream row.aggregateType row.aggregateId))
    (ofSet ((table.streamRows row.aggregateType row.aggregateId).map
      (fun row => (row.revision, luaTostring row.sequence)) ++
        [(row.revision, luaTostring row.sequence)]))
  Function.update streamed (keyPrefix.key .global)
    (ofSet (table.rows.map (fun row => (row.sequence, luaTostring row.sequence)) ++
      [(row.sequence, luaTostring row.sequence)]))

theorem RedisPrefix.key_ne {name other : RedisKey} (differ : name ≠ other) :
    keyPrefix.key name ≠ keyPrefix.key other :=
  fun same => differ (RedisPrefix.key_injective same).2

theorem withRow_elsewhere (event : text ≠ keyPrefix.key (.event row.sequence))
    (stream : text ≠ keyPrefix.key (.stream row.aggregateType row.aggregateId))
    (global : text ≠ keyPrefix.key .global) : withRow keyPrefix db table row text = db text := by
  rw [withRow, Function.update_of_ne global, Function.update_of_ne stream,
    Function.update_of_ne event]

namespace Indexed

theorem row_sequence (indexed : Indexed keyPrefix db table) (member : row ∈ table.rows) :
    1 ≤ row.sequence ∧ row.sequence ≤ table.lastSequence := by
  have listed := List.mem_map_of_mem (f := (·.sequence)) member
  rw [indexed.sequences, List.mem_range'_1] at listed
  omega

theorem length (indexed : Indexed keyPrefix db table) : table.rows.length = table.lastSequence := by
  have lengths := congrArg List.length indexed.sequences
  simpa using lengths

/-- The next row joins the table. -/
theorem push (indexed : Indexed keyPrefix db table)
    (sequence : row.sequence = table.lastSequence + 1)
    (revision : row.revision = (table.streamRows row.aggregateType row.aggregateId).length + 1) :
    Indexed keyPrefix (withRow keyPrefix db table row) (table.push row) := by
  have streams : ∀ aggregateType key, (table.push row).streamRows aggregateType key =
      table.streamRows aggregateType key ++
        if row.aggregateType = aggregateType ∧ row.aggregateId = key then [row] else [] :=
    table.streamRows_push row
  constructor
  · rw [EventsTable.push, List.map_append, indexed.sequences, List.range'_concat]
    simp [sequence, Nat.add_comm]
  · intro aggregateType key
    rw [streams]
    by_cases own : row.aggregateType = aggregateType ∧ row.aggregateId = key
    · obtain ⟨rfl, rfl⟩ := own
      rw [if_pos ⟨rfl, rfl⟩, List.map_append, indexed.revisions, List.length_append,
        List.length_singleton, List.range'_concat]
      simp [revision, Nat.add_comm]
    · rw [if_neg own, List.append_nil]
      exact indexed.revisions aggregateType key
  · rw [withRow, Function.update_self, EventsTable.push, List.map_append]
    rfl
  · intro aggregateType key
    rw [streams]
    have global : keyPrefix.key (.stream aggregateType key) ≠ keyPrefix.key .global :=
      RedisPrefix.key_ne (by simp)
    by_cases own : row.aggregateType = aggregateType ∧ row.aggregateId = key
    · obtain ⟨rfl, rfl⟩ := own
      rw [if_pos ⟨rfl, rfl⟩, List.map_append, withRow, Function.update_of_ne global,
        Function.update_self]
      rfl
    · rw [if_neg own, List.append_nil, ← indexed.stream aggregateType key]
      apply withRow_elsewhere
      · exact RedisPrefix.key_ne (by simp)
      · apply RedisPrefix.key_ne
        intro same
        cases same
        exact own ⟨rfl, rfl⟩
      · exact global
  · intro other member
    have global : keyPrefix.key (.event other.sequence) ≠ keyPrefix.key .global :=
      RedisPrefix.key_ne (by simp)
    have stream : keyPrefix.key (.event other.sequence) ≠
        keyPrefix.key (.stream row.aggregateType row.aggregateId) := RedisPrefix.key_ne (by simp)
    rcases List.mem_append.mp member with earlier | new
    · have bound := indexed.row_sequence earlier
      have apart : keyPrefix.key (.event other.sequence) ≠ keyPrefix.key (.event row.sequence) := by
        apply RedisPrefix.key_ne
        intro same
        have numbers : other.sequence = row.sequence := RedisKey.event.inj same
        omega
      rw [withRow_elsewhere apart stream global]
      exact indexed.event other earlier
    · rw [List.mem_singleton] at new
      subst new
      rw [withRow, Function.update_of_ne global, Function.update_of_ne stream, Function.update_self]
  · intro later beyond
    have larger : table.lastSequence + 1 < later := beyond
    rw [withRow_elsewhere]
    · exact indexed.unused later (by omega)
    · apply RedisPrefix.key_ne
      intro same
      have numbers : later = row.sequence := RedisKey.event.inj same
      omega
    · exact RedisPrefix.key_ne (by simp)
    · exact RedisPrefix.key_ne (by simp)

end Indexed

variable {A : Aggregate}

/-- The row the script stores for an event. -/
def PreparedEvent.storedRow {codec : RowCodec A} (event : PreparedEvent codec) (key : String)
    (revision sequence : Nat) : StoredEventRow :=
  { event.row key revision with sequence := sequence }

variable {codec : RowCodec A}

/-- The event at a place in the batch is found where the loop looks for it. -/
theorem argument_event {store : RedisEventStore A} {aggregateIdJson : String}
    {before after : List (PreparedEvent store.codec)} {event : PreparedEvent store.codec}
    {place : Nat}
    (found : (eventArguments aggregateIdJson A.aggregateType event)[place]? = some text)
    (db : KeySpace) :
    argument (store.appendArguments aggregateIdJson expectedRevision (before ++ event :: after))
      (4 + before.length * 8 + place) db = .ok text db := by
  apply argument_ok
  have short : place < (eventArguments aggregateIdJson A.aggregateType event).length :=
    (List.getElem?_eq_some_iff.mp found).1
  have skipped : (before.flatMap (eventArguments aggregateIdJson A.aggregateType)).length =
      before.length * 8 := by
    induction before with
    | nil => rfl
    | cons first rest ih =>
      rw [List.flatMap_cons, List.length_append, ih, List.length_cons]
      simp only [eventArguments, List.length_cons, List.length_nil]
      omega
  rw [RedisEventStore.appendArguments, List.flatMap_append, List.flatMap_cons,
    List.getElem?_append_right (by simp; omega), List.getElem?_append_right (by simp [skipped]; omega),
    List.getElem?_append_left (by simp [skipped]; omega), ← found]
  congr 1
  simp only [skipped, List.length_cons, List.length_nil]
  omega

theorem appendEvent_run (store : RedisEventStore A) (aggregateIdJson : String)
    (expectedRevision : ExpectedRevision) (before after : List (PreparedEvent store.codec))
    (event : PreparedEvent store.codec) (current : Nat) {firstSequence : Nat}
    (indexed : Indexed store.keyPrefix db table)
    (sequence : firstSequence + before.length = table.lastSequence + 1) :
    appendEvent (store.appendKeys aggregateIdJson)
        (store.appendArguments aggregateIdJson expectedRevision (before ++ event :: after))
        current firstSequence before.length db =
      .ok () (withRow store.keyPrefix db table
        (event.storedRow aggregateIdJson (current + before.length + 1)
          (firstSequence + before.length))) := by
  let row := event.storedRow aggregateIdJson (current + before.length + 1)
    (firstSequence + before.length)
  have eventKey : argument (store.appendKeys aggregateIdJson) 5 db =
      .ok store.keyPrefix.eventKeyPrefix db := rfl
  have listed : ∀ place text,
      (eventArguments aggregateIdJson A.aggregateType event)[place]? = some text →
      argument (store.appendArguments aggregateIdJson expectedRevision (before ++ event :: after))
        (4 + before.length * 8 + place) db = .ok text db :=
    fun place text found => argument_event found db
  have unused : db (store.keyPrefix.key (.event (firstSequence + before.length))) = none :=
    indexed.unused _ (by omega)
  have hashed : hset (store.keyPrefix.eventKeyPrefix ++ luaTostring (firstSequence + before.length))
      (rowHash row) db = .ok () (Function.update db
        (store.keyPrefix.key (.event (firstSequence + before.length))) (some (.hash (rowHash row)))) := by
    rw [luaTostring, RedisPrefix.eventKeyPrefix_append]
    exact hset_fresh unused (by simp [rowHash])
  have newMember : ∀ (rows : List StoredEventRow) (score : StoredEventRow → Nat),
      (∀ row ∈ rows, row ∈ table.rows) →
      ∀ other ∈ rows.map (fun row => (score row, luaTostring row.sequence)),
        other.2 ≠ luaTostring (firstSequence + before.length) := by
    intro rows score within other member same
    obtain ⟨earlier, listed, rfl⟩ := List.mem_map.mp member
    have bound := indexed.row_sequence (within earlier listed)
    have numbers : earlier.sequence = firstSequence + before.length := Decimal.repr_injective same
    omega
  rw [appendEvent]
  dsimp only
  have first : argument (store.appendArguments aggregateIdJson expectedRevision
      (before ++ event :: after)) (4 + before.length * 8) db = .ok event.stamp.eventId db :=
    listed 0 _ rfl
  rw [bind_ok eventKey, bind_ok first, bind_ok (listed 1 _ rfl), bind_ok (listed 2 _ rfl),
    bind_ok (listed 3 _ rfl), bind_ok (listed 4 _ rfl), bind_ok (listed 5 _ rfl),
    bind_ok (listed 6 _ rfl), bind_ok (listed 7 _ rfl)]
  refine (bind_ok hashed).trans ?_
  -- the hash is not an index, so both indexes stand as they were
  have streamHeld : Function.update db
      (store.keyPrefix.key (.event (firstSequence + before.length))) (some (.hash (rowHash row)))
        (store.keyPrefix.key (.stream A.aggregateType aggregateIdJson)) =
      ofSet ((table.streamRows A.aggregateType aggregateIdJson).map
        (fun row => (row.revision, luaTostring row.sequence))) := by
    rw [Function.update_of_ne (RedisPrefix.key_ne (by simp))]
    exact indexed.stream _ _
  have streamed := zadd_ofSet (current + before.length + 1) streamHeld
    (newMember _ (·.revision) (fun row member => (List.mem_filter.mp member).1))
  have globalHeld : Function.update (Function.update db
      (store.keyPrefix.key (.event (firstSequence + before.length))) (some (.hash (rowHash row))))
        (store.keyPrefix.key (.stream A.aggregateType aggregateIdJson))
        (ofSet ((table.streamRows A.aggregateType aggregateIdJson).map
          (fun row => (row.revision, luaTostring row.sequence)) ++
            [(current + before.length + 1, luaTostring (firstSequence + before.length))]))
        (store.keyPrefix.key .global) =
      ofSet (table.rows.map (fun row => (row.sequence, luaTostring row.sequence))) := by
    rw [Function.update_of_ne (RedisPrefix.key_ne (by simp)),
      Function.update_of_ne (RedisPrefix.key_ne (by simp))]
    exact indexed.global
  have joined := zadd_ofSet (firstSequence + before.length) globalHeld
    (newMember _ (·.sequence) (fun row member => member))
  exact (bind_ok streamed).trans joined

/-- The rows of a batch, above a revision and a sequence. -/
def PreparedEvent.storedRows {codec : RowCodec A} (key : String) :
    Nat → Nat → List (PreparedEvent codec) → List StoredEventRow
  | _, _, [] => []
  | revision, sequence, event :: rest =>
    event.storedRow key (revision + 1) (sequence + 1) ::
      storedRows key (revision + 1) (sequence + 1) rest

def EventsTable.extend (table : EventsTable) (rows : List StoredEventRow) : EventsTable :=
  ⟨table.rows ++ rows, table.lastSequence + rows.length⟩

@[simp] theorem PreparedEvent.storedRows_length (key : String) (revision sequence : Nat)
    (events : List (PreparedEvent codec)) :
    (storedRows key revision sequence events).length = events.length := by
  induction events generalizing revision sequence with
  | nil => rfl
  | cons event rest ih => simp [storedRows, ih]

/-- A key under the prefix that is not one of its counters. -/
def NotCounter (keyPrefix : RedisPrefix) (text : String) : Prop :=
  ∃ name, text = keyPrefix.key name ∧ name ≠ .sequence ∧
    ∀ aggregateType key, name ≠ .revision aggregateType key

theorem appendEvents_run (store : RedisEventStore A) (aggregateIdJson : String)
    (expectedRevision : ExpectedRevision) (before after : List (PreparedEvent store.codec))
    (current firstSequence : Nat) (indexed : Indexed store.keyPrefix db table)
    (sequence : firstSequence + before.length = table.lastSequence + 1)
    (revision : current + before.length =
      (table.streamRows A.aggregateType aggregateIdJson).length) :
    ∃ written,
      appendEvents (store.appendKeys aggregateIdJson)
          (store.appendArguments aggregateIdJson expectedRevision (before ++ after))
          current firstSequence before.length after.length db = .ok () written ∧
      Indexed store.keyPrefix written (table.extend (PreparedEvent.storedRows aggregateIdJson
        (current + before.length) table.lastSequence after)) ∧
      ∀ text, ¬ NotCounter store.keyPrefix text → written text = db text := by
  induction after generalizing before db table with
  | nil =>
    refine ⟨db, rfl, ?_, fun _ _ => rfl⟩
    rw [PreparedEvent.storedRows, EventsTable.extend, List.append_nil]
    exact indexed
  | cons event rest ih =>
    have one := appendEvent_run store aggregateIdJson expectedRevision before rest event current
      indexed sequence
    let row := event.storedRow aggregateIdJson (current + before.length + 1)
      (firstSequence + before.length)
    have pushed : Indexed store.keyPrefix (withRow store.keyPrefix db table row) (table.push row) :=
      indexed.push sequence (congrArg (· + 1) revision)
    have grown : (before ++ [event]).length = before.length + 1 := by simp
    have streamRows : ((table.push row).streamRows A.aggregateType aggregateIdJson).length =
        current + (before ++ [event]).length := by
      rw [EventsTable.streamRows_push, if_pos ⟨rfl, rfl⟩, List.length_append, ← revision, grown]
      rfl
    obtain ⟨written, ran, kept, frame⟩ := ih (before ++ [event]) pushed
      (by rw [grown]; show _ = table.lastSequence + 1 + 1; omega) streamRows.symm
    refine ⟨written, ?_, ?_, ?_⟩
    · show (appendEvent _ _ current firstSequence before.length >>= _) db = _
      rw [bind_ok one]
      rw [grown, List.append_assoc] at ran
      exact ran
    · have rows : table.extend (PreparedEvent.storedRows aggregateIdJson (current + before.length)
          table.lastSequence (event :: rest)) =
          (table.push row).extend (PreparedEvent.storedRows aggregateIdJson
            (current + (before ++ [event]).length) (table.push row).lastSequence rest) := by
        have position : table.lastSequence + 1 = firstSequence + before.length := sequence.symm
        simp only [EventsTable.extend, EventsTable.push, PreparedEvent.storedRows, grown,
          List.append_assoc, List.singleton_append, List.length_cons,
          PreparedEvent.storedRows_length]
        have count : table.lastSequence + (rest.length + 1) =
            firstSequence + before.length + rest.length := by omega
        rw [position, count]
        rfl
      rw [rows]
      exact kept
    · intro text outside
      rw [frame text outside]
      apply withRow_elsewhere
      · rintro rfl
        exact outside ⟨_, rfl, by simp, by simp⟩
      · rintro rfl
        exact outside ⟨_, rfl, by simp, by simp⟩
      · rintro rfl
        exact outside ⟨_, rfl, by simp, by simp⟩

theorem PreparedEvent.storedRows_keys {key : String} {revision sequence : Nat}
    {events : List (PreparedEvent codec)} (member : row ∈ storedRows key revision sequence events) :
    row.aggregateType = A.aggregateType ∧ row.aggregateId = key := by
  induction events generalizing revision sequence with
  | nil => cases member
  | cons event rest ih =>
    rcases List.mem_cons.mp member with rfl | later
    · exact ⟨rfl, rfl⟩
    · exact ih later

theorem EventsTable.streamRows_extend (table : EventsTable) (key : String) (revision sequence : Nat)
    (events : List (PreparedEvent codec)) (aggregateType other : String) :
    (table.extend (PreparedEvent.storedRows key revision sequence events)).streamRows aggregateType
        other =
      table.streamRows aggregateType other ++
        if A.aggregateType = aggregateType ∧ key = other then
          PreparedEvent.storedRows key revision sequence events
        else [] := by
  have grown : (table.extend (PreparedEvent.storedRows key revision sequence events)).rows =
      table.rows ++ PreparedEvent.storedRows key revision sequence events := rfl
  rw [EventsTable.streamRows_added grown]
  congr 1
  by_cases own : A.aggregateType = aggregateType ∧ key = other
  · rw [if_pos own, List.filter_eq_self]
    intro row member
    obtain ⟨names, keys⟩ := PreparedEvent.storedRows_keys member
    simpa [names, keys] using own
  · rw [if_neg own, List.filter_eq_nil_iff]
    intro row member
    obtain ⟨names, keys⟩ := PreparedEvent.storedRows_keys member
    simpa [names, keys] using own

namespace Represents

/-- The keys of the prefix are all that counts. -/
theorem congr (represents : Represents keyPrefix db table)
    (same : ∀ name, after (keyPrefix.key name) = db (keyPrefix.key name)) :
    Represents keyPrefix after table where
  sequences := represents.sequences
  revisions := represents.revisions
  global := (same _).trans represents.global
  stream aggregateType key := (same _).trans (represents.stream aggregateType key)
  event row member := (same _).trans (represents.event row member)
  unused sequence beyond := (same _).trans (represents.unused sequence beyond)
  sequence := (same _).trans represents.sequence
  revision aggregateType key := (same _).trans (represents.revision aggregateType key)

end Represents

/-- The counters may move while the indexes and hashes stand. -/
theorem Indexed.congr {keyPrefix : RedisPrefix} {db after : KeySpace} {table : EventsTable}
    (indexed : Indexed keyPrefix db table)
    (same : ∀ text, NotCounter keyPrefix text → after text = db text) :
    Indexed keyPrefix after table where
  sequences := indexed.sequences
  revisions := indexed.revisions
  global := (same _ ⟨_, rfl, by simp, by simp⟩).trans indexed.global
  stream aggregateType key :=
    (same _ ⟨_, rfl, by simp, by simp⟩).trans (indexed.stream aggregateType key)
  event row member := (same _ ⟨_, rfl, by simp, by simp⟩).trans (indexed.event row member)
  unused sequence beyond :=
    (same _ ⟨_, rfl, by simp, by simp⟩).trans (indexed.unused sequence beyond)

theorem ofCount_pos {count : Nat} (positive : 0 < count) :
    ofCount count = some (.string (luaTostring count)) := by
  rw [ofCount, if_neg (Nat.pos_iff_ne_zero.mp positive), luaTostring]

/-- A batch that is not empty moves the table on by its rows. -/
theorem storeEvents_run (store : RedisEventStore A) (aggregateIdJson : String)
    (expectedRevision : ExpectedRevision) {prepared : List (PreparedEvent store.codec)}
    (some : prepared ≠ []) (represents : Represents store.keyPrefix db table) :
    let current := (table.streamRows A.aggregateType aggregateIdJson).length
    ∃ after,
      storeEvents (store.appendKeys aggregateIdJson)
          (store.appendArguments aggregateIdJson expectedRevision prepared) current
          prepared.length db =
        .ok (.array [.bytes "OK", .int (table.lastSequence + 1 : Nat),
          .int (table.lastSequence + prepared.length : Nat),
          .int (current + prepared.length : Nat)]) after ∧
      Represents store.keyPrefix after (table.extend
        (PreparedEvent.storedRows aggregateIdJson current table.lastSequence prepared)) ∧
      ∀ text, (∀ name, text ≠ store.keyPrefix.key name) → after text = db text := by
  intro current
  have positive : 0 < prepared.length := List.length_pos_of_ne_nil some
  have counter : luaCounter (store.keyPrefix.key .sequence) db = .ok table.lastSequence db :=
    luaCounter_ofCount represents.sequence
  obtain ⟨written, ran, kept, frame⟩ := appendEvents_run store aggregateIdJson expectedRevision []
    prepared current (table.lastSequence + 1) represents.toIndexed rfl rfl
  let revised := Function.update written
    (store.keyPrefix.key (.revision A.aggregateType aggregateIdJson))
    (Option.some (.string (luaTostring (current + prepared.length))))
  let after := Function.update revised (store.keyPrefix.key .sequence)
    (Option.some (.string (luaTostring (table.lastSequence + prepared.length))))
  have elsewhere : ∀ text, text ≠ store.keyPrefix.key .sequence →
      text ≠ store.keyPrefix.key (.revision A.aggregateType aggregateIdJson) →
      after text = written text := fun text apart other =>
    (Function.update_of_ne apart _ revised).trans (Function.update_of_ne other _ written)
  have atSequence : after (store.keyPrefix.key .sequence) =
      ofCount (table.lastSequence + prepared.length) :=
    (Function.update_self _ _ revised).trans (ofCount_pos (by omega)).symm
  have atRevision : after (store.keyPrefix.key (.revision A.aggregateType aggregateIdJson)) =
      ofCount (current + prepared.length) :=
    ((Function.update_of_ne (RedisPrefix.key_ne (by simp)) _ revised).trans
      (Function.update_self _ _ written)).trans (ofCount_pos (by omega)).symm
  refine ⟨after, ?_, ?_, ?_⟩
  · have second : argument (store.appendKeys aggregateIdJson) 2 db =
        .ok (store.keyPrefix.key .sequence) db := rfl
    rw [storeEvents, bind_ok second, bind_ok counter]
    exact bind_ok ran
  · have moved : Indexed store.keyPrefix after (table.extend
        (PreparedEvent.storedRows aggregateIdJson current table.lastSequence prepared)) := by
      apply kept.congr
      rintro text ⟨name, rfl, notSequence, notRevision⟩
      exact elsewhere _ (RedisPrefix.key_ne notSequence) (RedisPrefix.key_ne (notRevision _ _))
    refine ⟨moved, ?_, ?_⟩
    · rw [atSequence, EventsTable.extend, PreparedEvent.storedRows_length]
    · intro aggregateType key
      rw [EventsTable.streamRows_extend]
      by_cases own : A.aggregateType = aggregateType ∧ aggregateIdJson = key
      · obtain ⟨rfl, rfl⟩ := own
        rw [atRevision, if_pos ⟨rfl, rfl⟩, List.length_append, PreparedEvent.storedRows_length]
      · have other : store.keyPrefix.key (.revision aggregateType key) ≠
            store.keyPrefix.key (.revision A.aggregateType aggregateIdJson) := by
          apply RedisPrefix.key_ne
          intro same
          cases same
          exact own ⟨rfl, rfl⟩
        have counter : ¬ NotCounter store.keyPrefix (store.keyPrefix.key (.revision aggregateType key)) := by
          rintro ⟨name, same, _, notRevision⟩
          exact notRevision _ _ (RedisPrefix.key_injective same).2.symm
        rw [elsewhere _ (RedisPrefix.key_ne (by simp)) other, if_neg own, List.append_nil,
          frame _ counter]
        exact represents.revision aggregateType key
  · intro text outside
    rw [elsewhere text (outside _) (outside _)]
    apply frame
    rintro ⟨name, same, _⟩
    exact outside name same

theorem argument_expected (store : RedisEventStore A) (aggregateIdJson : String)
    (expectedRevision : ExpectedRevision) (prepared : List (PreparedEvent store.codec))
    (db : KeySpace) :
    argument (store.appendArguments aggregateIdJson expectedRevision prepared) 1 db =
        .ok (expectedRevisionArg expectedRevision).1 db ∧
      argument (store.appendArguments aggregateIdJson expectedRevision prepared) 2 db =
        .ok (Nat.repr (expectedRevisionArg expectedRevision).2) db ∧
      argument (store.appendArguments aggregateIdJson expectedRevision prepared) 3 db =
        .ok (Nat.repr prepared.length) db :=
  ⟨rfl, rfl, rfl⟩

/-- The script on a consistent key space: what it reads, and the choice it is left with. -/
theorem appendLua_run (store : RedisEventStore A) (aggregateIdJson : String)
    (expectedRevision : ExpectedRevision) (prepared : List (PreparedEvent store.codec))
    (represents : Represents store.keyPrefix db table) :
    let current := (table.streamRows A.aggregateType aggregateIdJson).length
    appendLua (store.appendKeys aggregateIdJson)
        (store.appendArguments aggregateIdJson expectedRevision prepared) db =
      (if (expectedRevisionArg expectedRevision).1 = "no_stream" ∧ current ≠ 0 then
        .ok (.array [.bytes "ERR", .bytes "stream_exists", .int current]) db
      else if (expectedRevisionArg expectedRevision).1 = "exact" ∧
          current ≠ (expectedRevisionArg expectedRevision).2 then
        .ok (.array [.bytes "ERR", .bytes "wrong_revision", .int current]) db
      else if prepared.length = 0 then
        .ok (.array [.bytes "OK", .int 0, .int 0, .int current]) db
      else
        storeEvents (store.appendKeys aggregateIdJson)
          (store.appendArguments aggregateIdJson expectedRevision prepared) current
          prepared.length db) := by
  intro current
  have counter := luaCounter_ofCount (represents.revision A.aggregateType aggregateIdJson)
  have cardinality := zcard_ofSet (represents.stream A.aggregateType aggregateIdJson)
  rw [List.length_map] at cardinality
  have first : argument (store.appendKeys aggregateIdJson) 1 db =
      .ok (store.keyPrefix.key (.revision A.aggregateType aggregateIdJson)) db := rfl
  have third : argument (store.appendKeys aggregateIdJson) 3 db =
      .ok (store.keyPrefix.key (.stream A.aggregateType aggregateIdJson)) db := rfl
  obtain ⟨kind, revision, count⟩ :=
    argument_expected store aggregateIdJson expectedRevision prepared db
  rw [appendLua, bind_ok first, bind_ok counter, bind_ok third, bind_ok cardinality,
    if_neg (not_not_intro rfl), bind_ok kind, bind_ok revision, bind_ok (luaTonumber_repr _ db),
    bind_ok count, bind_ok (luaTonumber_repr _ db)]
  by_cases taken : (expectedRevisionArg expectedRevision).1 = "no_stream" ∧ current ≠ 0
  · rw [if_pos taken, if_pos taken]
    rfl
  · rw [if_neg taken, if_neg taken]
    by_cases wrong : (expectedRevisionArg expectedRevision).1 = "exact" ∧
        current ≠ (expectedRevisionArg expectedRevision).2
    · rw [if_pos wrong, if_pos wrong]
      rfl
    · rw [if_neg wrong, if_neg wrong]
      by_cases empty : prepared.length = 0
      · rw [if_pos empty, if_pos empty]
        rfl
      · rw [if_neg empty, if_neg empty]

theorem evalAppend_run (store : RedisEventStore A) (aggregateIdJson : String)
    (expectedRevision : ExpectedRevision) (prepared : List (PreparedEvent store.codec)) :
    RedisEventStore.evalAppend
        (store.buildAppendEvalArgs aggregateIdJson expectedRevision prepared) =
      appendLua (store.appendKeys aggregateIdJson)
        (store.appendArguments aggregateIdJson expectedRevision prepared) := rfl

/-- The script rejects what the shared check rejects, with an answer that says the same, and
writes nothing. -/
theorem appendLua_rejects (store : RedisEventStore A) (aggregateIdJson : String)
    (prepared : List (PreparedEvent store.codec)) (represents : Represents store.keyPrefix db table)
    {error : EventStoreError} (rejected : checkExpectedRevision expectedRevision
      (table.streamRows A.aggregateType aggregateIdJson).length = .error error) :
    ∃ reply,
      appendLua (store.appendKeys aggregateIdJson)
        (store.appendArguments aggregateIdJson expectedRevision prepared) db = .ok reply db ∧
      parseAppendEvalResult reply expectedRevision = .error error := by
  rw [appendLua_run store aggregateIdJson expectedRevision prepared represents]
  generalize (table.streamRows A.aggregateType aggregateIdJson).length = current at rejected ⊢
  cases expectedRevision with
  | any => cases rejected
  | noStream =>
    rw [checkExpectedRevision] at rejected
    split at rejected
    · cases rejected
    · rename_i present
      cases rejected
      exact ⟨_, if_pos ⟨rfl, present⟩, rfl⟩
  | exact revision =>
    rw [checkExpectedRevision] at rejected
    split at rejected
    · cases rejected
    · rename_i differ
      cases rejected
      have noStream : ¬ ((expectedRevisionArg (.exact revision)).1 = "no_stream" ∧ current ≠ 0) :=
        fun both => absurd (show "exact" = "no_stream" from both.1) (by decide)
      rw [if_neg noStream, if_pos ⟨rfl, fun same => differ same.symm⟩]
      exact ⟨_, rfl, rfl⟩

theorem appendLua_stores (store : RedisEventStore A) (aggregateIdJson : String)
    {prepared : List (PreparedEvent store.codec)} (some : prepared ≠ [])
    (represents : Represents store.keyPrefix db table)
    (admitted : checkExpectedRevision expectedRevision
      (table.streamRows A.aggregateType aggregateIdJson).length = .ok ()) :
    appendLua (store.appendKeys aggregateIdJson)
        (store.appendArguments aggregateIdJson expectedRevision prepared) db =
      storeEvents (store.appendKeys aggregateIdJson)
        (store.appendArguments aggregateIdJson expectedRevision prepared)
        (table.streamRows A.aggregateType aggregateIdJson).length prepared.length db := by
  rw [appendLua_run store aggregateIdJson expectedRevision prepared represents]
  have nonempty : ¬ prepared.length = 0 := fun empty => some (List.length_eq_zero_iff.mp empty)
  generalize (table.streamRows A.aggregateType aggregateIdJson).length = current at admitted ⊢
  have admits := (checkExpectedRevision_ok_iff _ _).mp admitted
  have noStream : ¬ ((expectedRevisionArg expectedRevision).1 = "no_stream" ∧ current ≠ 0) := by
    rintro ⟨kind, present⟩
    cases expectedRevision with
    | any => exact absurd kind (by decide)
    | noStream => exact present admits
    | exact revision => exact absurd kind (show ¬ "exact" = "no_stream" by decide)
  have unequal : ¬ ((expectedRevisionArg expectedRevision).1 = "exact" ∧
      current ≠ (expectedRevisionArg expectedRevision).2) := by
    rintro ⟨kind, differ⟩
    cases expectedRevision with
    | any => exact absurd kind (by decide)
    | noStream => exact absurd kind (by decide)
    | exact revision => exact differ (Eq.symm admits)
  rw [if_neg noStream, if_neg unequal, if_neg nonempty]

theorem PreparedEvent.storedRows_storedAs (aggregateId : A.Id) (key : String)
    (revision sequence : Nat) (events : List (PreparedEvent codec)) :
    List.Forall₂ (StoredAs codec) (storedRows key revision sequence events)
      (committed aggregateId revision (sequence + 1) events) := by
  induction events generalizing revision sequence with
  | nil => exact .nil
  | cons event rest ih =>
    exact .cons ⟨rfl, rfl, rfl, rfl, rfl, rfl, event.payload_text, event.metadata_text,
      event.recorded_text⟩ (ih (revision + 1) (sequence + 1))

/-- The rows that a batch adds to its stream. -/
def EventsTable.appended (table : EventsTable) {codec : RowCodec A} (key : String)
    (prepared : List (PreparedEvent codec)) : List StoredEventRow :=
  PreparedEvent.storedRows key (table.streamRows A.aggregateType key).length table.lastSequence
    prepared

theorem committedFromReply_ok (store : RedisEventStore A) (aggregateId : A.Id)
    (expectedRevision : ExpectedRevision) (prepared : List (PreparedEvent store.codec))
    (current lastSequence : Nat) :
    store.committedFromReply aggregateId expectedRevision prepared
        (.array [.bytes "OK", .int (lastSequence + 1 : Nat),
          .int (lastSequence + prepared.length : Nat), .int (current + prepared.length : Nat)]) =
      .ok (PreparedEvent.committed aggregateId current (lastSequence + 1) prepared) := by
  have parsed : parseAppendEvalResult (.array [.bytes "OK", .int (lastSequence + 1 : Nat),
      .int (lastSequence + prepared.length : Nat), .int (current + prepared.length : Nat)])
        expectedRevision =
      .ok ⟨lastSequence + 1, lastSequence + prepared.length, current + prepared.length⟩ := by
    have plain : ∀ (label : String) (value : Nat), redisValueU64 label (.int value) = .ok value := by
      intro label value
      rw [redisValueU64, if_neg (by omega)]
      rfl
    simp only [parseAppendEvalResult, redisArrayItems, redisValueString, redisValueBytes, bind,
      Except.bind, plain, if_true]
    rfl
  rw [RedisEventStore.committedFromReply, parsed]
  show (if current + prepared.length < prepared.length then _ else _) = _
  rw [if_neg (by omega), Nat.add_sub_cancel]
  rfl

/-- What an append does to a consistent key space. Either nothing, and it fails or its batch
was empty; or the batch joins the table, and its envelopes are returned unless the answer was
lost. -/
def RedisEventStore.Appended (store : RedisEventStore A) (db : KeySpace) (table : EventsTable)
    (delivery : Delivery) (aggregateId : A.Id) (keys : List String)
    (expectedRevision : ExpectedRevision) (prepared : List (PreparedEvent store.codec))
    (outcome : Except EventStoreError (EventStream A) × KeySpace) : Prop :=
  checkExpectedRevision expectedRevision
      (table.streamRows A.aggregateType (keys.headD "")).length = .ok () ∧
    Represents store.keyPrefix outcome.2 (table.extend (table.appended (keys.headD "") prepared)) ∧
    (∀ text, (∀ name, text ≠ store.keyPrefix.key name) → outcome.2 text = db text) ∧
    (outcome.1 = .ok (PreparedEvent.committed aggregateId
        (table.streamRows A.aggregateType (keys.headD "")).length (table.lastSequence + 1)
        prepared) ∨
      ∃ error, delivery = .unanswered error ∧ outcome.1 = .error error)

namespace RedisEventStore

theorem appendNothing_ok {store : RedisEventStore A} {keys : List String}
    {expectedRevision : ExpectedRevision} {committed : EventStream A}
    (succeeded : store.appendNothing db keys expectedRevision = .ok committed) :
    committed = [] := by
  obtain ⟨actual, _, succeeded⟩ := ok_of_bind succeeded
  obtain ⟨_, _, succeeded⟩ := ok_of_bind succeeded
  cases succeeded
  rfl

theorem appendPrepared_cases (store : RedisEventStore A)
    (represents : Represents store.keyPrefix db table) (delivery : Delivery) (aggregateId : A.Id)
    (keys : List String) (expectedRevision : ExpectedRevision)
    (prepared : List (PreparedEvent store.codec)) :
    let outcome := store.appendPrepared db delivery aggregateId keys expectedRevision prepared
    (outcome.2 = db ∧ ∀ committed, outcome.1 = .ok committed → committed = [] ∧ prepared = []) ∨
      store.Appended db table delivery aggregateId keys expectedRevision prepared outcome := by
  intro outcome
  by_cases empty : prepared = []
  · left
    subst empty
    cases delivery with
    | lost error => exact ⟨rfl, fun committed failed => by cases failed⟩
    | unanswered error => exact ⟨rfl, fun committed failed => by cases failed⟩
    | answered => exact ⟨rfl, fun committed succeeded => ⟨appendNothing_ok succeeded, rfl⟩⟩
  · have some : prepared.isEmpty = false := by simpa using empty
    have script := evalAppend_run store (keys.headD "") expectedRevision prepared
    cases checked : checkExpectedRevision expectedRevision
        (table.streamRows A.aggregateType (keys.headD "")).length with
    | error error =>
      left
      obtain ⟨reply, ran, parsed⟩ :=
        appendLua_rejects store (keys.headD "") prepared represents checked
      have after : afterScript (evalAppend
          (store.buildAppendEvalArgs (keys.headD "") expectedRevision prepared)) db = db := by
        rw [script, afterScript, ran]
      cases delivery with
      | lost error =>
        simp only [outcome, appendPrepared, some]
        exact ⟨rfl, fun committed failed => by cases failed⟩
      | unanswered error =>
        simp only [outcome, appendPrepared, some]
        exact ⟨after, fun committed failed => by cases failed⟩
      | answered =>
        simp only [outcome, appendPrepared, some]
        refine ⟨after, ?_⟩
        intro committed succeeded
        rw [script, execute_ok ran] at succeeded
        have read : store.committedFromReply aggregateId expectedRevision prepared reply =
            .ok committed := succeeded
        obtain ⟨result, accepted, _⟩ := ok_of_bind read
        rw [parsed] at accepted
        cases accepted
    | ok admitted =>
      obtain ⟨written, ran, represented, frame⟩ :=
        storeEvents_run store (keys.headD "") expectedRevision empty represents
      have stored := appendLua_stores store (keys.headD "") empty represents checked
      rw [ran] at stored
      have after : afterScript (evalAppend
          (store.buildAppendEvalArgs (keys.headD "") expectedRevision prepared)) db = written := by
        rw [script, afterScript, stored]
      cases delivery with
      | lost error =>
        left
        simp only [outcome, appendPrepared, some]
        exact ⟨rfl, fun committed failed => by cases failed⟩
      | unanswered error =>
        right
        simp only [outcome, appendPrepared, some]
        rw [Appended, after]
        exact ⟨checked, represented, frame, .inr ⟨error, rfl, rfl⟩⟩
      | answered =>
        right
        simp only [outcome, appendPrepared, some]
        rw [Appended, after]
        refine ⟨checked, represented, frame, .inl ?_⟩
        rw [script, execute_ok stored]
        exact committedFromReply_ok store aggregateId expectedRevision prepared _ _

theorem append_cases (store : RedisEventStore A) (represents : Represents store.keyPrefix db table)
    (delivery : Delivery) (aggregateId : A.Id) (expectedRevision : ExpectedRevision)
    (events : List (NewEvent A.Event × Stamp)) :
    let outcome := store.append db delivery aggregateId expectedRevision events
    (outcome.2 = db ∧ ∀ committed, outcome.1 = .ok committed → committed = [] ∧ events = []) ∨
      ∃ keys prepared,
        store.codec.aggregateIdLookupKeys aggregateId = .ok keys ∧
        events.mapM store.codec.prepare = .ok prepared ∧
        store.Appended db table delivery aggregateId keys expectedRevision prepared outcome := by
  intro outcome
  cases lookup : store.codec.aggregateIdLookupKeys aggregateId with
  | error error =>
    have same : outcome = (.error error, db) := by simp only [outcome, append, lookup]
    exact .inl (by simp [same])
  | ok keys =>
    cases readied : events.mapM store.codec.prepare with
    | error error =>
      have same : outcome = (.error error, db) := by simp only [outcome, append, lookup, readied]
      exact .inl (by simp [same])
    | ok prepared =>
      have same : outcome =
          store.appendPrepared db delivery aggregateId keys expectedRevision prepared := by
        simp only [outcome, append, lookup, readied]
      rw [same]
      rcases store.appendPrepared_cases represents delivery aggregateId keys expectedRevision
        prepared with ⟨kept, nothing⟩ | appended
      · left
        refine ⟨kept, fun committed succeeded => ?_⟩
        obtain ⟨none, empty⟩ := nothing committed succeeded
        have lengths := (forall₂_of_mapM_ok readied).length_eq
        rw [empty] at lengths
        exact ⟨none, List.length_eq_zero_iff.mp lengths⟩
      · exact .inr ⟨keys, prepared, rfl, rfl, appended⟩

end RedisEventStore

end DddCqrsEs
