import DddCqrsEs.PooledIdempotent
import DddCqrsEs.RowReader
import DddCqrsEs.Transition
import Mathlib.Data.List.Pairwise

/- The revision an append of a SQL store checks, next to the revision a load of the same
stream reports. The load stops at the first storage key that has rows. -/
namespace DddCqrsEs

variable {A : Aggregate}

/-- The revision of the last event, or the initial one. -/
def lastRevision (stream : EventStream A) : Nat :=
  ((stream.map (·.revision)).getLast?).getD initialRevision

/-- What an append reports to its caller when it fails. -/
def failure {ε α : Type} : Except ε α → Option ε
  | .ok _ => none
  | .error error => some error

def storeFailure {α : Type} : Except IdempotentAppendError α → Option EventStoreError
  | .error (.store error) => some error
  | _ => none

/-- An append compares this revision: it fails as the check of it fails, and where the check
passes it reports no conflict. -/
structure ChecksRevision (answer : ExpectedRevision → Option EventStoreError) (revision : Nat) :
    Prop where
  rejects : ∀ expected error, checkExpectedRevision expected revision = .error error →
    answer expected = some error
  admits : ∀ expected, checkExpectedRevision expected revision = .ok () →
    ∀ error, answer expected = some error → error.isConcurrency = false

/-- An append compares the revision that the load reported. So it accepts `Exact` of it, and
rejects `NoStream` once there are events. -/
structure AgreesWithLoad (answer : ExpectedRevision → Option EventStoreError)
    (stream : EventStream A) : Prop where
  checks : ChecksRevision answer (lastRevision stream)
  exact : ∀ error, answer (.exact (lastRevision stream)) = some error → error.isConcurrency = false
  noStream : stream ≠ [] → answer .noStream = some (.concurrency .streamAlreadyExists)

namespace ChecksRevision

variable {answer : ExpectedRevision → Option EventStoreError} {revision other : Nat}

/-- An append compares one revision. -/
theorem unique (checks : ChecksRevision answer revision)
    (checksOther : ChecksRevision answer other) : revision = other := by
  by_contra differ
  have rejected : checkExpectedRevision (.exact revision) other =
      .error (.concurrency (.wrongExpectedRevision (.exact revision) other)) := if_neg differ
  have admitted : checkExpectedRevision (.exact revision) revision = .ok () := by
    simp [checkExpectedRevision]
  have accepted := checks.admits _ admitted _ (checksOther.rejects _ _ rejected)
  cases accepted

theorem agreesWithLoad_iff (checks : ChecksRevision answer revision) {stream : EventStream A}
    (numbered : stream ≠ [] → lastRevision stream ≠ 0) :
    AgreesWithLoad answer stream ↔ revision = lastRevision stream := by
  constructor
  · intro agrees
    exact checks.unique agrees.checks
  · intro same
    subst same
    refine ⟨checks, checks.admits _ (by simp [checkExpectedRevision]), ?_⟩
    intro some
    exact checks.rejects _ _ (if_neg (numbered some))

end ChecksRevision

/-- The first of the keys that has events decides what a load reports. -/
def firstRevision (revision : String → Nat) : List String → Nat
  | [] => initialRevision
  | key :: rest => if revision key = 0 then firstRevision revision rest else revision key

/-- No other key is ahead of the first, where that one has events. -/
def NewestFirst (revision : String → Nat) (keys : List String) : Prop :=
  revision (keys.headD "") = 0 ∨ ∀ key ∈ keys.tail, revision key ≤ revision (keys.headD "")

/-- The first key has events, or no key has. -/
def CurrentOrFresh (revision : String → Nat) (keys : List String) : Prop :=
  revision (keys.headD "") ≠ 0 ∨ ∀ key ∈ keys.tail, revision key = 0

variable {keys : List String} {table : EventsTable}

theorem maxRevision_eq_firstRevision_iff (shape : KeyShape keys) (revision : String → Nat) :
    maxRevisionForLookupKeys keys revision = firstRevision revision keys ↔
      NewestFirst revision keys := by
  unfold NewestFirst
  obtain ⟨current, rfl | ⟨legacy, _, rfl⟩⟩ := shape
  · simp only [maxRevisionForLookupKeys, List.foldl_cons, List.foldl_nil, firstRevision,
      initialRevision, List.headD_cons, List.tail_cons, List.not_mem_nil]
    split
    · simp_all
    · simp
  · simp only [maxRevisionForLookupKeys, List.foldl_cons, List.foldl_nil, firstRevision,
      initialRevision, List.headD_cons, List.tail_cons, List.mem_singleton, forall_eq]
    split
    · split <;> omega
    · omega

theorem headRevision_eq_firstRevision_iff (shape : KeyShape keys) (revision : String → Nat) :
    revision (keys.headD "") = firstRevision revision keys ↔ CurrentOrFresh revision keys := by
  unfold CurrentOrFresh
  obtain ⟨current, rfl | ⟨legacy, _, rfl⟩⟩ := shape
  · simp only [firstRevision, initialRevision, List.headD_cons, List.tail_cons, List.not_mem_nil]
    split
    · simp_all
    · simp
  · simp only [firstRevision, initialRevision, List.headD_cons, List.tail_cons,
      List.mem_singleton, forall_eq]
    split
    · split <;> omega
    · omega

theorem foldl_max_le {values : List Nat} {start bound : Nat} (below : start ≤ bound)
    (each : ∀ value ∈ values, value ≤ bound) : values.foldl max start ≤ bound := by
  induction values generalizing start with
  | nil => exact below
  | cons value rest ih =>
    rw [List.foldl_cons]
    apply ih
    · have := each value List.mem_cons_self
      omega
    · intro other member
      exact each other (List.mem_cons_of_mem _ member)

/-- The last of the sorted numbers is their maximum. -/
theorem getLast_insertionSort (values : List Nat) :
    ((values.insertionSort (· ≤ ·)).getLast?).getD 0 = values.foldl max 0 := by
  have same := List.perm_insertionSort (· ≤ ·) values
  have sorted := List.pairwise_insertionSort (· ≤ ·) values
  cases last : (values.insertionSort (· ≤ ·)).getLast? with
  | none =>
    rw [List.getLast?_eq_none_iff] at last
    rw [last] at same
    rw [List.nil_perm.mp same]
    rfl
  | some highest =>
    have member := List.mem_of_getLast? last
    have above : ∀ value ∈ values, value ≤ highest := by
      intro value listed
      rw [List.getLast?_eq_some_getLast (List.ne_nil_of_mem member)] at last
      rw [← Option.some.inj last]
      exact sorted.rel_getLast (same.mem_iff.mpr listed)
    apply Nat.le_antisymm
    · exact (le_foldl_max id values 0).2 highest (same.mem_iff.mp member)
    · exact foldl_max_le (Nat.zero_le _) above

/-- The rows of a stream in reading order end with its revision. -/
theorem EventsTable.selectStream_last (table : EventsTable) (aggregateType key : String) :
    (((table.selectStream aggregateType key).map (·.revision)).getLast?).getD 0 =
      table.currentRevision aggregateType key := by
  have sorted : (table.selectStream aggregateType key).map (·.revision) =
      ((table.streamRows aggregateType key).map (·.revision)).insertionSort (· ≤ ·) :=
    List.map_insertionSort _ _ _ _ (fun _ _ _ _ => Iff.rfl)
  rw [sorted, getLast_insertionSort]
  rfl

/-- Revisions are counted from one. -/
def Counted (table : EventsTable) : Prop := ∀ row ∈ table.rows, row.revision ≠ 0

theorem Counted.currentRevision_eq_zero_iff (counted : Counted table) (aggregateType key : String) :
    table.currentRevision aggregateType key = 0 ↔ table.selectStream aggregateType key = [] := by
  have same := List.perm_insertionSort (fun a b : StoredEventRow => a.revision ≤ b.revision)
    (table.streamRows aggregateType key)
  constructor
  · intro zero
    by_contra some
    obtain ⟨row, member⟩ := List.exists_mem_of_ne_nil _ some
    have listed : row ∈ table.streamRows aggregateType key := same.mem_iff.mp member
    obtain ⟨stored, names⟩ := List.mem_filter.mp listed
    simp only [decide_eq_true_eq] at names
    have bound := EventsTable.le_currentRevision stored
    rw [names.1, names.2] at bound
    have positive := counted row stored
    omega
  · intro empty
    rw [← EventsTable.selectStream_last, empty]
    rfl

/-- The rows a load decodes end with the revision of the first key that has any. -/
theorem Counted.queryLookupKeys_last (counted : Counted table) (aggregateType : String)
    (keys : List String) :
    (((queryLookupKeys (table.selectStream aggregateType) keys).map (·.revision)).getLast?).getD
      initialRevision = firstRevision (table.currentRevision aggregateType) keys := by
  induction keys with
  | nil => rfl
  | cons key rest ih =>
    unfold queryLookupKeys firstRevision
    split
    · rename_i empty
      rw [if_pos ((counted.currentRevision_eq_zero_iff _ _).mpr empty), ih]
    · rename_i row rows found
      rw [if_neg, ← found]
      · exact table.selectStream_last aggregateType key
      · rw [counted.currentRevision_eq_zero_iff, found]
        simp

theorem exists_of_queryLookupKeys {α : Type} {query : String → List α} {item : α}
    (found : item ∈ queryLookupKeys query keys) : ∃ key ∈ keys, item ∈ query key := by
  induction keys with
  | nil => exact absurd found List.not_mem_nil
  | cons key rest ih =>
    unfold queryLookupKeys at found
    split at found
    · obtain ⟨other, listed, member⟩ := ih found
      exact ⟨other, List.mem_cons_of_mem _ listed, member⟩
    · rename_i row rows read
      exact ⟨key, List.mem_cons_self, read ▸ found⟩

/-- A load of a stream, and the keys it looked under. -/
structure SqlEventStore.Loads (store : SqlEventStore A) (reader : RowReader A)
    (table : EventsTable) (aggregateId : A.Id) (keys : List String) (stream : EventStream A) :
    Prop where
  decodes : store.codec.envelopeFromStoredRow = reader.envelopeFromStoredRow
  lookup : store.codec.aggregateIdLookupKeys aggregateId = .ok keys
  loaded : store.load table aggregateId = .ok stream

theorem revisions_of_mapM {reader : RowReader A} {rows : List StoredEventRow}
    {stream : EventStream A} (read : rows.mapM reader.envelopeFromStoredRow = .ok stream) :
    stream.map (·.revision) = rows.map (·.revision) := by
  have decoded := forall₂_of_mapM_ok read
  clear read
  induction decoded with
  | nil => rfl
  | cons first _ ih =>
    rw [List.map_cons, List.map_cons, ih, (RowReader.envelopeFromStoredRow_ok first).2.2.1]

namespace SqlEventStore.Loads

variable {store : SqlEventStore A} {reader : RowReader A} {aggregateId : A.Id}
  {stream : EventStream A}

theorem revisions (loads : store.Loads reader table aggregateId keys stream) :
    stream.map (·.revision) =
      (queryLookupKeys (table.selectStream A.aggregateType) keys).map (·.revision) := by
  have loaded := loads.loaded
  unfold SqlEventStore.load SqlEventStore.loadRows at loaded
  rw [loads.lookup, loads.decodes] at loaded
  exact revisions_of_mapM loaded

theorem lastRevision_eq (loads : store.Loads reader table aggregateId keys stream)
    (counted : Counted table) :
    lastRevision stream = firstRevision (table.currentRevision A.aggregateType) keys := by
  unfold lastRevision
  rw [loads.revisions]
  exact counted.queryLookupKeys_last _ keys

theorem lastRevision_ne_zero (loads : store.Loads reader table aggregateId keys stream)
    (counted : Counted table) (some : stream ≠ []) : lastRevision stream ≠ 0 := by
  have nonempty : stream.map (·.revision) ≠ [] := by simpa using some
  have member := List.getLast_mem nonempty
  unfold lastRevision
  rw [List.getLast?_eq_some_getLast nonempty, Option.getD_some]
  generalize (stream.map (·.revision)).getLast nonempty = last at member ⊢
  rw [loads.revisions, List.mem_map] at member
  obtain ⟨row, found, same⟩ := member
  obtain ⟨key, _, read⟩ := exists_of_queryLookupKeys found
  have listed : row ∈ table.streamRows A.aggregateType key :=
    (List.perm_insertionSort _ _).mem_iff.mp read
  rw [← same]
  exact counted row (List.mem_filter.mp listed).1

end SqlEventStore.Loads

namespace EventsTable

/-- No row of the stream is above this revision. -/
def UpTo (table : EventsTable) (aggregateType key : String) (revision : Nat) : Prop :=
  ∀ row ∈ table.rows, row.aggregateType = aggregateType → row.aggregateId = key →
    row.revision ≤ revision

variable {next : EventsTable} {aggregateType key : String} {revision : Nat} {row : StoredEventRow}
  {violation : UniqueViolation}

theorem upTo_of_currentRevision_le (above : table.currentRevision aggregateType key ≤ revision) :
    table.UpTo aggregateType key revision := by
  intro row member ofType ofKey
  have bound := le_currentRevision member
  rw [ofType, ofKey] at bound
  omega

theorem UpTo.insert_ok (upTo : table.UpTo aggregateType key revision)
    (inserted : table.insert row = .ok next) (fits : row.revision ≤ revision + 1) :
    next.UpTo aggregateType key (revision + 1) := by
  have grown := EventsTable.insert_ok inserted
  subst grown
  intro other member ofType ofKey
  rcases List.mem_append.mp member with earlier | new
  · have := upTo other earlier ofType ofKey
    omega
  · rw [List.mem_singleton] at new
    subst new
    exact fits

/-- A row above its stream can only repeat an event id. -/
theorem UpTo.insert_error (upTo : table.UpTo row.aggregateType row.aggregateId revision)
    (above : revision < row.revision) (failed : table.insert row = .error violation) :
    violation = .eventId := by
  unfold insert at failed
  split at failed
  · cases failed
    rfl
  · split at failed
    · rename_i repeated
      rw [List.any_eq_true] at repeated
      obtain ⟨other, member, same⟩ := repeated
      simp only [decide_eq_true_eq] at same
      have := upTo other member same.1 same.2.1
      omega
    · cases failed

theorem UpTo.insertAll_error {rows : List StoredEventRow}
    (upTo : table.UpTo aggregateType key revision)
    (keyed : ∀ row ∈ rows, row.aggregateType = aggregateType ∧ row.aggregateId = key)
    (numbered : rows.map (·.revision) = List.range' (revision + 1) rows.length)
    (failed : table.insertAll rows = .error violation) : violation = .eventId := by
  induction rows generalizing table revision with
  | nil => cases failed
  | cons row rest ih =>
    rw [List.map_cons, List.length_cons, List.range'_succ, List.cons.injEq] at numbered
    have names := keyed row List.mem_cons_self
    unfold insertAll at failed
    rw [List.foldlM_cons] at failed
    cases first : table.insert row with
    | error repeated =>
      rw [first] at failed
      cases failed
      rw [← names.1, ← names.2] at upTo
      exact upTo.insert_error (by omega) first
    | ok next =>
      rw [first] at failed
      exact ih (upTo.insert_ok first (by omega))
        (fun other member => keyed other (List.mem_cons_of_mem _ member)) numbered.2 failed

end EventsTable

theorem insertError_eventId (dialect : SqlDialect) (expected : ExpectedRevision) (current : Nat) :
    (dialect.insertError expected current .eventId).isConcurrency = false := by
  cases dialect <;> rfl

/-- Rows above their stream meet no conflict. -/
theorem insertPreparedEvents_error {codec : RowCodec A} {dialect : SqlDialect} {read : EventsTable}
    {aggregateId : A.Id} {key : String} {actualRevision : Nat} {expectedRevision : ExpectedRevision}
    {prepared : List (PreparedEvent codec)} {error : EventStoreError}
    (upTo : table.UpTo A.aggregateType key actualRevision)
    (failed : insertPreparedEvents dialect read table aggregateId key actualRevision
      expectedRevision prepared = .error error) : error.isConcurrency = false := by
  unfold insertPreparedEvents at failed
  split at failed
  · rename_i unfit
    cases failed
    exact PreparedEvent.rows_error unfit
  · rename_i rows fits
    obtain ⟨numbered, keyed⟩ := PreparedEvent.rows_ok fits
    have length : rows.length = prepared.length := by simpa using congrArg List.length numbered
    split at failed
    · rename_i violation repeated
      cases failed
      rw [← length] at numbered
      rw [upTo.insertAll_error keyed numbered repeated]
      exact insertError_eventId _ _ _
    · cases failed

namespace SqlEventStore

theorem appendAttempts_quiet (once : Except EventStoreError (EventStream A × EventsTable))
    {remaining attempt : Nat} (left : remaining + attempt = maxAppendAttempts)
    (some : 0 < remaining) : appendAttempts (fun _ => none) once remaining attempt = once := by
  induction remaining generalizing attempt with
  | zero => omega
  | succ remaining ih =>
    unfold appendAttempts
    rw [Option.elim_none]
    cases once with
    | ok done => rfl
    | error error =>
      dsimp only
      by_cases retried : error.isRetryable = true ∧ attempt + 1 < maxAppendAttempts
      · rw [if_pos retried, ih (by omega) (by omega)]
      · rw [if_neg retried]

theorem writeAttempts_quiet {α : Type} (operation : Except EventStoreError α) :
    writeAttempts (fun _ => none) operation = operation := by
  unfold writeAttempts
  cases operation with
  | ok done => rfl
  | error error =>
    dsimp only [Option.elim_none]
    split <;> rfl

variable {store : SqlEventStore A} {aggregateId : A.Id} {events : List (NewEvent A.Event × Stamp)}
  {prepared : List (PreparedEvent store.codec)}

/-- Without database errors every retry ends as the first attempt. -/
theorem append_quiet (lookup : store.codec.aggregateIdLookupKeys aggregateId = .ok keys)
    (readied : events.mapM store.codec.prepare = .ok prepared)
    (expectedRevision : ExpectedRevision) :
    store.append table (fun _ => none) aggregateId expectedRevision events =
      appendPreparedEventsOnce store.dialect table keys aggregateId expectedRevision prepared := by
  unfold append
  rw [bind_of_ok lookup, bind_of_ok readied]
  split
  · split
    · rfl
    · exact appendAttempts_quiet _ rfl (by decide)
  · exact writeAttempts_quiet _
  · exact writeAttempts_quiet _

/-- A plain append checks the highest revision under any key. -/
theorem append_checks (lookup : store.codec.aggregateIdLookupKeys aggregateId = .ok keys)
    (readied : events.mapM store.codec.prepare = .ok prepared) :
    ChecksRevision
      (fun expected => failure (store.append table (fun _ => none) aggregateId expected events))
      (maxRevisionForLookupKeys keys (table.currentRevision A.aggregateType)) := by
  have current : table.currentRevision A.aggregateType (keys.headD "") ≤
      maxRevisionForLookupKeys keys (table.currentRevision A.aggregateType) := by
    apply le_maxRevisionForLookupKeys
    obtain ⟨key, rfl | ⟨legacy, _, rfl⟩⟩ := aggregateIdLookupKeys_shape lookup
    · exact List.mem_cons_self
    · exact List.mem_cons_self
  constructor
  · intro expected error rejected
    rw [append_quiet lookup readied]
    unfold appendPreparedEventsOnce
    dsimp only
    rw [rejected]
    rfl
  · intro expected admitted error failed
    rw [append_quiet lookup readied] at failed
    unfold appendPreparedEventsOnce at failed
    dsimp only at failed
    rw [admitted] at failed
    dsimp only at failed
    split at failed
    · cases failed
    · cases inserted : insertPreparedEvents store.dialect table table aggregateId (keys.headD "")
          (maxRevisionForLookupKeys keys (table.currentRevision A.aggregateType)) expected
          prepared with
      | ok done =>
        rw [inserted] at failed
        cases failed
      | error other =>
        rw [inserted] at failed
        cases failed
        exact insertPreparedEvents_error (EventsTable.upTo_of_currentRevision_le current) inserted

end SqlEventStore

namespace SqliteEventStore

variable {store : SqliteEventStore A} {db : SqliteDatabase} {clock : SystemTime} {key : String}
  {aggregateId : A.Id} {aggregateIdKey : String} {events : List (NewEvent A.Event × Stamp)}
  {prepared : List (PreparedEvent store.codec)}

theorem insertIdempotentEvents_error {table : EventsTable} {expectedRevision : ExpectedRevision}
    {actualRevision : Nat} {error : EventStoreError}
    (upTo : table.UpTo A.aggregateType key actualRevision)
    (failed : store.insertIdempotentEvents aggregateId key expectedRevision table actualRevision
      prepared = .error error) : error.isConcurrency = false := by
  induction prepared generalizing table actualRevision with
  | nil => cases failed
  | cons event rest ih =>
    unfold insertIdempotentEvents at failed
    split at failed
    · cases failed
      rfl
    · cases first : table.insert (event.row key (actualRevision + 1)) with
      | error violation =>
        rw [first] at failed
        cases failed
        rw [upTo.insert_error (Nat.lt_succ_self actualRevision) first]
        exact insertError_eventId _ _ _
      | ok next =>
        rw [first] at failed
        dsimp only at failed
        cases later : store.insertIdempotentEvents aggregateId key expectedRevision next
            (actualRevision + 1) rest with
        | ok done =>
          rw [later] at failed
          cases failed
        | error other =>
          rw [later] at failed
          cases failed
          exact ih (upTo.insert_ok first (Nat.le_refl _)) later

/-- The append under a free idempotency key checks the revision under the current key. -/
theorem appendIdempotent_checks {updatedAtMs : Nat}
    (serialized : store.codec.serializeId aggregateId = .ok aggregateIdKey)
    (readied : events.mapM store.codec.prepare = .ok prepared)
    (timed : systemTimeToMillis clock = .ok updatedAtMs) (free : db.idempotency key = none) :
    ChecksRevision
      (fun expected =>
        storeFailure (store.appendIdempotent db none clock key aggregateId expected events))
      (db.events.currentRevision A.aggregateType aggregateIdKey) := by
  have ran : ∀ expected, store.appendIdempotent db none clock key aggregateId expected events =
      (store.appendReserved db clock key aggregateId aggregateIdKey expected prepared).mapError
        .store := by
    intro expected
    unfold appendIdempotent
    cases reserved : store.appendReserved db clock key aggregateId aggregateIdKey expected
      prepared <;> simp only [serialized, readied, free, reserved, Except.mapError]
  constructor
  · intro expected error rejected
    rw [ran]
    unfold appendReserved
    rw [timed]
    dsimp only
    rw [rejected]
    rfl
  · intro expected admitted error failed
    rw [ran] at failed
    unfold appendReserved at failed
    rw [timed] at failed
    dsimp only at failed
    rw [admitted] at failed
    dsimp only at failed
    cases inserted : store.insertIdempotentEvents aggregateId aggregateIdKey expected db.events
        (db.events.currentRevision A.aggregateType aggregateIdKey) prepared with
    | error other =>
      rw [inserted] at failed
      cases failed
      exact insertIdempotentEvents_error (EventsTable.upTo_of_currentRevision_le (Nat.le_refl _))
        inserted
    | ok done =>
      rw [inserted] at failed
      dsimp only at failed
      cases written : store.committedJson.toJson done.1 with
      | error message =>
        rw [written] at failed
        cases failed
        rfl
      | ok value =>
        rw [written] at failed
        cases failed

end SqliteEventStore

namespace PooledEventStore

variable {store : PooledEventStore A} {db : SqliteDatabase} {clock : SystemTime} {key : String}
  {aggregateId : A.Id} {aggregateIdKey : String} {events : List (NewEvent A.Event × Stamp)}
  {prepared : List (PreparedEvent store.codec)}

/-- The append under a free idempotency key checks the revision under the current key. -/
theorem appendIdempotent_checks {updatedAtMs : Nat}
    (serialized : store.codec.serializeId aggregateId = .ok aggregateIdKey)
    (readied : events.mapM store.codec.prepare = .ok prepared)
    (timed : systemTimeToMillis clock = .ok updatedAtMs) (free : db.idempotency key = none) :
    ChecksRevision
      (fun expected =>
        storeFailure (store.appendIdempotent db none false clock key aggregateId expected events))
      (db.events.currentRevision A.aggregateType aggregateIdKey) := by
  have ran : ∀ expected,
      store.appendIdempotent db none false clock key aggregateId expected events =
        (store.appendReserved db updatedAtMs key aggregateId aggregateIdKey expected
          prepared).mapError .store := by
    intro expected
    unfold appendIdempotent
    rw [serialized, readied]
    exact store.runIdempotentAppend_free free timed aggregateId aggregateIdKey expected prepared
  constructor
  · intro expected error rejected
    rw [ran]
    unfold appendReserved
    rw [rejected]
    rfl
  · intro expected admitted error failed
    rw [ran] at failed
    unfold appendReserved at failed
    rw [admitted] at failed
    dsimp only at failed
    cases inserted : insertPreparedEvents store.dialect db.events db.events aggregateId
        aggregateIdKey (db.events.currentRevision A.aggregateType aggregateIdKey) expected
        prepared with
    | error other =>
      rw [inserted] at failed
      cases failed
      exact insertPreparedEvents_error (EventsTable.upTo_of_currentRevision_le (Nat.le_refl _))
        inserted
    | ok done =>
      rw [inserted] at failed
      dsimp only at failed
      cases written : store.committedJson.toJson done.1 with
      | error message =>
        rw [written] at failed
        cases failed
        rfl
      | ok value =>
        rw [written] at failed
        cases failed

end PooledEventStore

end DddCqrsEs
