import DddCqrsEs.Blocks
import DddCqrsEs.SqlStore

/- The multi-row inserts of the PostgreSQL and MySQL stores: one statement there and one for
each chunk here, with the sequences the rows received read back by revision. -/
namespace DddCqrsEs

/-- How a call ends: with a result, or in a panic with its text. -/
inductive Called (α : Type) where
  | returned (result : Except EventStoreError α)
  | panicked (text : EventStoreError)

/-- Why a database refuses a row. -/
inductive InsertRefusal where
  | unique (violation : UniqueViolation)
  | column (error : EventStoreError)

/-- The part of a database the inserts leave open. -/
structure EventsServer where
  /-- The error a row runs into when its texts do not fit their columns. -/
  refuses : StoredEventRow → Option EventStoreError
  /-- The sequence a row receives. -/
  draws : EventsTable → StoredEventRow → Nat
  /-- The order in which a query without `ORDER BY`, or `RETURNING`, gives its rows. -/
  gives : List StoredEventRow → List StoredEventRow
  gives_perm : ∀ rows, (gives rows).Perm rows

namespace EventsServer

variable (server : EventsServer)

def insert (table : EventsTable) (row : StoredEventRow) : Except InsertRefusal EventsTable :=
  match server.refuses row with
  | some error => .error (.column error)
  | none =>
    match table.insert row with
    | .error violation => .error (.unique violation)
    | .ok _ =>
      let sequence := server.draws table row
      .ok ⟨table.rows ++ [{ row with sequence := sequence }], sequence⟩

/-- One statement: the first row refused undoes all of it. -/
def insertAll (table : EventsTable) (rows : List StoredEventRow) :
    Except InsertRefusal EventsTable :=
  rows.foldlM server.insert table

/-- Whether a statement goes through. -/
def Takes (table : EventsTable) (rows : List StoredEventRow) : Prop :=
  ∃ after, server.insertAll table rows = .ok after

/-- A row as it is stored: with a sequence of its own. -/
def Numbers (row stored : StoredEventRow) : Prop :=
  stored = { row with sequence := stored.sequence }

variable {server} {table after : EventsTable} {row : StoredEventRow} {rows : List StoredEventRow}

theorem insert_ok (inserted : server.insert table row = .ok after) :
    ∃ stored, Numbers row stored ∧ after.rows = table.rows ++ [stored] := by
  rw [insert] at inserted
  split at inserted
  · cases inserted
  · split at inserted
    · cases inserted
    · cases inserted
      exact ⟨{ row with sequence := server.draws table row }, rfl, rfl⟩

/-- A statement that goes through adds its rows, in their order, and nothing else. -/
theorem insertAll_ok (inserted : server.insertAll table rows = .ok after) :
    ∃ added, List.Forall₂ Numbers rows added ∧ after.rows = table.rows ++ added := by
  induction rows generalizing table with
  | nil =>
    cases inserted
    exact ⟨[], .nil, (List.append_nil _).symm⟩
  | cons row rest ih =>
    rw [insertAll, List.foldlM_cons] at inserted
    cases first : server.insert table row with
    | error refusal =>
      rw [first] at inserted
      cases inserted
    | ok next =>
      rw [first] at inserted
      obtain ⟨stored, numbered, one⟩ := insert_ok first
      obtain ⟨added, others, grown⟩ := ih inserted
      exact ⟨stored :: added, .cons numbered others, by
        rw [grown, one, List.append_assoc, List.singleton_append]⟩

theorem insertAll_append (table : EventsTable) (front rest : List StoredEventRow) :
    server.insertAll table (front ++ rest) =
      (server.insertAll table front).bind (fun between => server.insertAll between rest) :=
  List.foldlM_append

/-- The unique constraints of a table with these rows admit a row. -/
def Admits (rows : List StoredEventRow) (row : StoredEventRow) : Prop :=
  (∀ other ∈ rows, other.eventId ≠ row.eventId) ∧
    ∀ other ∈ rows, ¬ (other.aggregateType = row.aggregateType ∧
      other.aggregateId = row.aggregateId ∧ other.revision = row.revision)

theorem insert_ok_iff :
    server.insert table row = .ok after ↔
      server.refuses row = none ∧ Admits table.rows row ∧
        ⟨table.rows ++ [{ row with sequence := server.draws table row }],
          server.draws table row⟩ = after := by
  rw [insert, EventsTable.insert, Admits]
  cases server.refuses row with
  | some error => simp
  | none =>
    have known : table.rows.any (fun other => other.eventId = row.eventId) = true ↔
        ¬ ∀ other ∈ table.rows, other.eventId ≠ row.eventId := by simp
    have written : table.rows.any (fun other => other.aggregateType = row.aggregateType ∧
          other.aggregateId = row.aggregateId ∧ other.revision = row.revision) = true ↔
        ¬ ∀ other ∈ table.rows, ¬ (other.aggregateType = row.aggregateType ∧
          other.aggregateId = row.aggregateId ∧ other.revision = row.revision) := by simp
    simp only [known, written]
    by_cases fresh : ∀ other ∈ table.rows, other.eventId ≠ row.eventId
    · rw [if_neg (not_not.mpr fresh)]
      by_cases apart : ∀ other ∈ table.rows, ¬ (other.aggregateType = row.aggregateType ∧
          other.aggregateId = row.aggregateId ∧ other.revision = row.revision)
      · rw [if_neg (not_not.mpr apart)]
        simp only [Except.ok.injEq, true_and]
        exact (and_iff_right ⟨fresh, apart⟩).symm
      · rw [if_pos apart]
        simp only [reduceCtorEq, apart, and_false, false_and]
    · rw [if_pos fresh]
      simp only [reduceCtorEq, fresh, and_false, false_and]

/-- The unique constraints do not look at sequences. -/
theorem admits_of_numbers {others : List StoredEventRow} (same : List.Forall₂ Numbers rows others) :
    Admits rows row ↔ Admits others row := by
  unfold Admits
  induction same with
  | nil => rfl
  | cons numbered _ ih =>
    rw [List.forall_mem_cons, List.forall_mem_cons, List.forall_mem_cons, List.forall_mem_cons,
      numbered]
    tauto

theorem takes_cons_iff {rest : List StoredEventRow} :
    server.Takes table (row :: rest) ↔
      server.refuses row = none ∧ Admits table.rows row ∧
        server.Takes ⟨table.rows ++ [{ row with sequence := server.draws table row }],
          server.draws table row⟩ rest := by
  unfold Takes insertAll
  rw [List.foldlM_cons]
  constructor
  · rintro ⟨after, taken⟩
    obtain ⟨next, first, later⟩ := ok_of_bind taken
    obtain ⟨fits, admitted, rfl⟩ := insert_ok_iff.mp first
    exact ⟨fits, admitted, after, later⟩
  · rintro ⟨fits, admitted, after, later⟩
    refine ⟨after, ?_⟩
    rw [insert_ok_iff.mpr ⟨fits, admitted, rfl⟩]
    exact later

/-- Databases that refuse the same texts take the same statements, whatever sequences they give
out. -/
theorem takes_of_refuseAlike {mysql postgres : EventsServer}
    (alike : ∀ row, mysql.refuses row = none ↔ postgres.refuses row = none) {a b : EventsTable}
    (same : List.Forall₂ Numbers a.rows b.rows) : mysql.Takes a rows ↔ postgres.Takes b rows := by
  induction rows generalizing a b with
  | nil => exact iff_of_true ⟨a, rfl⟩ ⟨b, rfl⟩
  | cons row rest ih =>
    rw [takes_cons_iff, takes_cons_iff, alike row, admits_of_numbers same, ih]
    exact List.rel_append same (.cons rfl .nil)

end EventsServer

variable {A : Aggregate} {codec : RowCodec A}

namespace PreparedEvent

/-- The rows of a batch above a revision, whether or not their columns hold the numbers. -/
@[grind =]
def numbered (key : String) : Nat → List (PreparedEvent codec) → List StoredEventRow
  | _, [] => []
  | actualRevision, prepared :: rest =>
    prepared.row key (actualRevision + 1) :: numbered key (actualRevision + 1) rest

/-- The columns hold the revisions and the versions of a batch. -/
def Fits (dialect : SqlDialect) (actualRevision : Nat) (prepared : List (PreparedEvent codec)) :
    Prop :=
  (prepared ≠ [] → actualRevision + prepared.length ≤ i64Max) ∧
    ∀ event ∈ prepared, event.event.eventVersion ≤ dialect.versionLimit

variable {dialect : SqlDialect} {actualRevision : Nat} {rest : List (PreparedEvent codec)}

theorem fits_cons {first : PreparedEvent codec} :
    Fits dialect actualRevision (first :: rest) ↔
      (actualRevision + 1 ≤ i64Max ∧ first.event.eventVersion ≤ dialect.versionLimit) ∧
        Fits dialect (actualRevision + 1) rest := by
  rw [Fits, Fits, List.forall_mem_cons, List.length_cons]
  have room : (first :: rest ≠ [] → actualRevision + (rest.length + 1) ≤ i64Max) ↔
      actualRevision + 1 ≤ i64Max ∧
        (rest ≠ [] → actualRevision + 1 + rest.length ≤ i64Max) := by
    cases rest with
    | nil => simp
    | cons second rest =>
      simp only [ne_eq, reduceCtorEq, not_false_eq_true, forall_const, List.length_cons]
      omega
  rw [room]
  tauto

theorem rows_ok_iff {key : String} {prepared : List (PreparedEvent codec)}
    {out : List StoredEventRow} :
    rows dialect key actualRevision prepared = .ok out ↔
      Fits dialect actualRevision prepared ∧ out = numbered key actualRevision prepared := by
  induction prepared generalizing actualRevision out with
  | nil => simp [rows, numbered, Fits, eq_comm]
  | cons first rest ih =>
    rw [rows, fits_cons, numbered]
    split
    · simp only [reduceCtorEq, false_iff]
      omega
    · split
      · simp only [reduceCtorEq, false_iff]
        omega
      · cases later : rows dialect key (actualRevision + 1) rest with
        | error error =>
          have unfit : ¬ Fits dialect (actualRevision + 1) rest := by
            intro fits
            have built := ih.mpr ⟨fits, rfl⟩
            rw [later] at built
            cases built
          simp [Except.map, unfit]
        | ok more =>
          obtain ⟨fits, same⟩ := ih.mp later
          subst same
          simp only [Except.map, Except.ok.injEq, fits, and_true, eq_comm (b := out)]
          constructor
          · intro same
            exact ⟨by omega, same⟩
          · exact fun held => held.2

theorem numbered_append (key : String) (actualRevision : Nat)
    (front rest : List (PreparedEvent codec)) :
    numbered key actualRevision (front ++ rest) =
      numbered key actualRevision front ++ numbered key (actualRevision + front.length) rest := by
  induction front generalizing actualRevision with
  | nil => rfl
  | cons first front ih =>
    rw [List.cons_append, numbered, numbered, ih, List.length_cons, List.cons_append,
      Nat.add_assoc, Nat.add_comm 1]

theorem fits_append {front : List (PreparedEvent codec)} :
    Fits dialect actualRevision (front ++ rest) ↔
      Fits dialect actualRevision front ∧ Fits dialect (actualRevision + front.length) rest := by
  induction front generalizing actualRevision with
  | nil => simp [Fits]
  | cons first front ih =>
    rw [List.cons_append, fits_cons, fits_cons, ih, List.length_cons, Nat.add_assoc,
      Nat.add_comm 1, and_assoc, and_assoc, and_assoc]

end PreparedEvent

open Blocks (chunks)

/-- MySQL allows at most 65535 placeholders per statement, and an event binds nine. -/
def maxMysqlAppendEvents : Nat := 65535 / 9

section Inserts

variable (server : EventsServer) (key : String)

/-- What the statement's error is mapped to; `rereads` is the revision read again. -/
def InsertRefusal.error (dialect : SqlDialect) (expected : ExpectedRevision) (rereads : Nat) :
    InsertRefusal → EventStoreError
  | .unique violation => dialect.insertError expected rereads violation
  | .column error => error

/-- The numbers are converted before the statement is sent, and the conversions assert. A
refused statement reads the revision again in its transaction. -/
def insertMysqlEventChunk (expected : ExpectedRevision) (table : EventsTable)
    (baseRevision : Nat) (chunk : List (PreparedEvent codec)) : Called EventsTable :=
  match PreparedEvent.rows .mysql key baseRevision chunk with
  | .error text => .panicked text
  | .ok rows =>
    match server.insertAll table rows with
    | .error refusal =>
      .returned (.error
        (refusal.error .mysql expected (table.currentRevision A.aggregateType key)))
    | .ok after => .returned (.ok after)

/-- The chunks from the given offset on. -/
def insertMysqlEventChunks (expected : ExpectedRevision) (actualRevision : Nat) :
    Nat → List (List (PreparedEvent codec)) → EventsTable → Called EventsTable
  | _, [], table => .returned (.ok table)
  | chunkOffset, chunk :: rest, table =>
    match insertMysqlEventChunk server key expected table
        (actualRevision + chunkOffset * maxMysqlAppendEvents) chunk with
    | .panicked text => .panicked text
    | .returned (.error error) => .returned (.error error)
    | .returned (.ok after) =>
      insertMysqlEventChunks expected actualRevision (chunkOffset + 1) rest after

/-- The envelopes of a batch with the sequences found for their revisions. A later pair
replaces an earlier one of its revision. -/
def committedWith (aggregateId : A.Id) (sequences : List (Nat × Nat)) :
    Nat → List (PreparedEvent codec) → Except EventStoreError (EventStream A)
  | _, [] => .ok []
  | actualRevision, prepared :: rest =>
    if i64Max < actualRevision + 1 then
      .error (.serialization "revision exceeds BIGINT" none)
    else
      match sequences.reverse.lookup (actualRevision + 1) with
      | none =>
        .error (.backend ("multi-row insert returned no sequence for revision " ++
          toString (actualRevision + 1)) none)
      | some sequence =>
        (committedWith aggregateId sequences (actualRevision + 1) rest).map (fun later =>
          .commit aggregateId (actualRevision + 1) (some sequence) prepared.event
            prepared.stamp :: later)

/-- What is done with the rows read back, after they are counted. -/
def committedFrom (aggregateId : A.Id) (actualRevision : Nat)
    (prepared : List (PreparedEvent codec)) (rows : List StoredEventRow) :
    Except EventStoreError (EventStream A) :=
  if rows.length ≠ prepared.length then
    .error (.backend ("multi-row insert returned " ++ toString rows.length ++ " of " ++
      toString prepared.length ++ " sequences") none)
  else
    committedWith aggregateId (rows.map (fun row => (row.revision, row.sequence))) actualRevision
      prepared

def insertPreparedMysqlEvents (table : EventsTable) (aggregateId : A.Id) (actualRevision : Nat)
    (expected : ExpectedRevision) (prepared : List (PreparedEvent codec)) :
    Called (EventStream A × EventsTable) :=
  if i64Max < actualRevision then .returned (.error (.serialization "revision exceeds BIGINT" none))
  else
    match insertMysqlEventChunks server key expected actualRevision 0
        (chunks maxMysqlAppendEvents prepared) table with
    | .panicked text => .panicked text
    | .returned (.error error) => .returned (.error error)
    | .returned (.ok after) =>
      let rows := server.gives ((after.streamRows A.aggregateType key).filter
        (fun row => actualRevision < row.revision))
      .returned ((committedFrom aggregateId actualRevision prepared rows).map (·, after))

def insertPreparedPostgresEvents (table : EventsTable) (aggregateId : A.Id)
    (actualRevision : Nat) (expected : ExpectedRevision) (prepared : List (PreparedEvent codec)) :
    Called (EventStream A × EventsTable) :=
  match PreparedEvent.rows .postgres key actualRevision prepared with
  | .error error => .returned (.error error)
  | .ok rows =>
    match server.insertAll table rows with
    | .error refusal => .returned (.error (refusal.error .postgres expected actualRevision))
    | .ok after =>
      let returning := server.gives (after.rows.drop table.rows.length)
      .returned ((committedFrom aggregateId actualRevision prepared returning).map (·, after))

end Inserts

/-- How the two stores insert a prepared batch: under a key, for an aggregate id, above the
revision that was read. -/
abbrev BatchInsert (codec : RowCodec A) : Type :=
  String → EventsTable → A.Id → Nat → ExpectedRevision → List (PreparedEvent codec) →
    Called (EventStream A × EventsTable)

/-- The append of either store in one transaction. -/
def appendInTransaction (codec : RowCodec A) (insert : BatchInsert codec) (table : EventsTable)
    (aggregateId : A.Id) (expected : ExpectedRevision)
    (events : List (NewEvent A.Event × Stamp)) : Called (EventStream A × EventsTable) :=
  match codec.aggregateIdLookupKeys aggregateId with
  | .error error => .returned (.error error)
  | .ok keys =>
    match events.mapM codec.prepare with
    | .error error => .returned (.error error)
    | .ok prepared =>
      let actualRevision :=
        maxRevisionForLookupKeys keys (table.currentRevision A.aggregateType)
      match checkExpectedRevision expected actualRevision with
      | .error error => .returned (.error error)
      | .ok () =>
        if prepared.isEmpty then .returned (.ok ([], table))
        else
          insert (keys.headD "") table aggregateId actualRevision expected prepared

/-- What a call ends with, and the table it leaves. -/
structure AppendRun (A : Aggregate) where
  call : Called (EventStream A)
  table : EventsTable

/-- A transaction that is dropped, also by a panic, is rolled back. -/
def settle (table : EventsTable) : Called (EventStream A × EventsTable) → AppendRun A
  | .panicked text => ⟨.panicked text, table⟩
  | .returned (.error error) => ⟨.returned (.error error), table⟩
  | .returned (.ok (committed, after)) => ⟨.returned (.ok committed), after⟩

section Appends

variable (server : EventsServer) (codec : RowCodec A) (table : EventsTable) (aggregateId : A.Id)
  (expected : ExpectedRevision) (events : List (NewEvent A.Event × Stamp))

def mysqlAppend : AppendRun A :=
  settle table (appendInTransaction codec (insertPreparedMysqlEvents server) table
    aggregateId expected events)

def postgresAppend : AppendRun A :=
  settle table (appendInTransaction codec (insertPreparedPostgresEvents server) table
    aggregateId expected events)

end Appends

section Chunks

variable {server : EventsServer} {key : String} {expected : ExpectedRevision}
  {table after : EventsTable}

/-- A chunk panics, is refused, or goes through. -/
theorem insertMysqlEventChunk_cases (server : EventsServer) (key : String)
    (expected : ExpectedRevision) (table : EventsTable) (baseRevision : Nat)
    (chunk : List (PreparedEvent codec)) :
    (¬ PreparedEvent.Fits .mysql baseRevision chunk ∧
      ∃ text, insertMysqlEventChunk server key expected table baseRevision chunk =
        .panicked text) ∨
    (PreparedEvent.Fits .mysql baseRevision chunk ∧
      (∃ refusal, server.insertAll table (PreparedEvent.numbered key baseRevision chunk) =
        .error refusal) ∧
      ∃ error, insertMysqlEventChunk server key expected table baseRevision chunk =
        .returned (.error error)) ∨
    (PreparedEvent.Fits .mysql baseRevision chunk ∧
      ∃ after, server.insertAll table (PreparedEvent.numbered key baseRevision chunk) =
          .ok after ∧
        insertMysqlEventChunk server key expected table baseRevision chunk =
          .returned (.ok after)) := by
  cases built : PreparedEvent.rows .mysql key baseRevision chunk with
  | error text =>
    apply Or.inl
    constructor
    · intro fits
      rw [PreparedEvent.rows_ok_iff.mpr ⟨fits, rfl⟩] at built
      cases built
    · exact ⟨text, by rw [insertMysqlEventChunk, built]⟩
  | ok rows =>
    obtain ⟨fits, same⟩ := PreparedEvent.rows_ok_iff.mp built
    apply Or.inr
    cases sent : server.insertAll table rows with
    | error refusal =>
      apply Or.inl
      exact ⟨fits, ⟨refusal, same ▸ sent⟩,
        refusal.error .mysql expected (table.currentRevision A.aggregateType key),
        by simp only [insertMysqlEventChunk, built, sent]⟩
    | ok after =>
      apply Or.inr
      exact ⟨fits, after, same ▸ sent, by simp only [insertMysqlEventChunk, built, sent]⟩

variable (server key expected) in
/-- The chunks one above the other, from a running revision instead of an offset. -/
@[grind =]
def insertChunksAbove : Nat → List (List (PreparedEvent codec)) → EventsTable → Called EventsTable
  | _, [], table => .returned (.ok table)
  | baseRevision, chunk :: rest, table =>
    match insertMysqlEventChunk server key expected table baseRevision chunk with
    | .panicked text => .panicked text
    | .returned (.error error) => .returned (.error error)
    | .returned (.ok after) => insertChunksAbove (baseRevision + chunk.length) rest after

variable (server key expected) in
/-- Every chunk before the last is full, so the offsets number the batch without a gap. -/
theorem insertMysqlEventChunks_eq (actualRevision : Nat) (prepared : List (PreparedEvent codec))
    (chunkOffset : Nat) (table : EventsTable) :
    insertMysqlEventChunks server key expected actualRevision chunkOffset
        (chunks maxMysqlAppendEvents prepared) table =
      insertChunksAbove server key expected
        (actualRevision + chunkOffset * maxMysqlAppendEvents)
        (chunks maxMysqlAppendEvents prepared) table := by
  induction prepared using Blocks.chunks.induct maxMysqlAppendEvents
    generalizing chunkOffset table with
  | case1 =>
    rw [chunks]
    rfl
  | case2 first rest ih =>
    rw [chunks, insertMysqlEventChunks, insertChunksAbove]
    cases insertMysqlEventChunk server key expected table
      (actualRevision + chunkOffset * maxMysqlAppendEvents)
      (first :: rest.take (maxMysqlAppendEvents - 1)) with
    | panicked text => rfl
    | returned result =>
      cases result with
      | error error => rfl
      | ok after =>
        simp only []
        by_cases last : rest.drop (maxMysqlAppendEvents - 1) = []
        · rw [last, chunks]
          rfl
        · rw [ih, Blocks.length_chunk (by decide) last, Nat.add_assoc, Nat.succ_mul]

variable (server key expected) in
/-- The chunks go through exactly when the batch would as one statement. -/
theorem insertChunksAbove_ok (baseRevision : Nat)
    (pieces : List (List (PreparedEvent codec))) (table after : EventsTable) :
    insertChunksAbove server key expected baseRevision pieces table = .returned (.ok after) ↔
      PreparedEvent.Fits .mysql baseRevision pieces.flatten ∧
        server.insertAll table (PreparedEvent.numbered key baseRevision pieces.flatten) =
          .ok after := by
  induction pieces generalizing baseRevision table with
  | nil =>
    simp [insertChunksAbove, PreparedEvent.Fits, PreparedEvent.numbered, EventsServer.insertAll,
      pure, Except.pure]
  | cons chunk rest ih =>
    rw [insertChunksAbove, List.flatten_cons, PreparedEvent.fits_append,
      PreparedEvent.numbered_append, EventsServer.insertAll_append]
    rcases insertMysqlEventChunk_cases server key expected table baseRevision chunk with
      ⟨unfit, text, ran⟩ | ⟨fits, ⟨refusal, refused⟩, error, ran⟩ | ⟨fits, between, sent, ran⟩
    · simp [ran, unfit]
    · simp [ran, refused, Except.bind]
    · simp only [ran, sent, Except.bind, fits, true_and]
      exact ih (baseRevision + chunk.length) between

/-- Some chunk holds a number that its column does not, and the chunks before it have gone
through. -/
def ChunkOverflows (server : EventsServer) (key : String) (table : EventsTable)
    (baseRevision : Nat) (pieces : List (List (PreparedEvent codec))) : Prop :=
  ∃ front chunk rest, pieces = front ++ chunk :: rest ∧
    server.Takes table (PreparedEvent.numbered key baseRevision front.flatten) ∧
    ¬ PreparedEvent.Fits .mysql (baseRevision + front.flatten.length) chunk

theorem chunkOverflows_cons {baseRevision : Nat} {chunk : List (PreparedEvent codec)}
    {rest : List (List (PreparedEvent codec))} :
    ChunkOverflows server key table baseRevision (chunk :: rest) ↔
      ¬ PreparedEvent.Fits .mysql baseRevision chunk ∨
        ∃ between, server.insertAll table (PreparedEvent.numbered key baseRevision chunk) =
            .ok between ∧
          ChunkOverflows server key between (baseRevision + chunk.length) rest := by
  constructor
  · rintro ⟨front, unfit, later, cut, ⟨after, taken⟩, overflows⟩
    cases front with
    | nil =>
      cases cut
      exact Or.inl overflows
    | cons first front =>
      cases cut
      rw [List.flatten_cons, PreparedEvent.numbered_append,
        EventsServer.insertAll_append] at taken
      cases sent : server.insertAll table (PreparedEvent.numbered key baseRevision chunk) with
      | error refusal =>
        rw [sent] at taken
        cases taken
      | ok between =>
        rw [sent] at taken
        rw [List.flatten_cons, List.length_append, ← Nat.add_assoc] at overflows
        exact Or.inr ⟨between, rfl, front, unfit, later, rfl, ⟨after, taken⟩, overflows⟩
  · rintro (unfit | ⟨between, sent, front, unfit, later, cut, ⟨after, taken⟩, overflows⟩)
    · exact ⟨[], chunk, rest, rfl, ⟨table, rfl⟩, unfit⟩
    · refine ⟨chunk :: front, unfit, later, by rw [cut, List.cons_append], ⟨after, ?_⟩, ?_⟩
      · rw [List.flatten_cons, PreparedEvent.numbered_append, EventsServer.insertAll_append, sent]
        exact taken
      · rw [List.flatten_cons, List.length_append, ← Nat.add_assoc]
        exact overflows

variable (server key expected) in
theorem insertChunksAbove_panics (baseRevision : Nat)
    (pieces : List (List (PreparedEvent codec))) (table : EventsTable) :
    (∃ text, insertChunksAbove server key expected baseRevision pieces table = .panicked text) ↔
      ChunkOverflows server key table baseRevision pieces := by
  induction pieces generalizing baseRevision table with
  | nil => simp [insertChunksAbove, ChunkOverflows]
  | cons chunk rest ih =>
    rw [insertChunksAbove, chunkOverflows_cons]
    rcases insertMysqlEventChunk_cases server key expected table baseRevision chunk with
      ⟨unfit, text, ran⟩ | ⟨fits, ⟨refusal, refused⟩, error, ran⟩ | ⟨fits, between, sent, ran⟩
    · simp [ran, unfit]
    · simp [ran, refused, fits]
    · simp only [ran, sent, fits, not_true_eq_false, false_or, Except.ok.injEq,
        exists_eq_left', ih]

end Chunks

/-- Among pairs of different revisions a row's sequence is found by its revision. -/
theorem lookup_sequence {rows : List StoredEventRow} (different : (rows.map (·.revision)).Nodup)
    {row : StoredEventRow} (member : row ∈ rows) :
    (rows.map (fun row => (row.revision, row.sequence))).reverse.lookup row.revision =
      some row.sequence := by
  obtain ⟨before, after, split⟩ := List.append_of_mem member
  subst split
  rw [List.map_append, List.map_cons, List.nodup_append] at different
  rw [List.lookup_eq_some_iff]
  refine ⟨(after.map (fun row => (row.revision, row.sequence))).reverse,
    (before.map (fun row => (row.revision, row.sequence))).reverse, by simp, ?_⟩
  intro pair later
  rw [List.mem_reverse, List.mem_map] at later
  obtain ⟨other, last, rfl⟩ := later
  have apart := (List.nodup_cons.mp different.2.1).1
  rw [bne_iff_ne]
  intro same
  exact apart (same ▸ List.mem_map_of_mem last)

/-- An envelope commits an event for an aggregate id, at a revision and sequence of its own. -/
def CommitOf (aggregateId : A.Id) (event : NewEvent A.Event × Stamp)
    (envelope : EventEnvelope A.Event A.Id) : Prop :=
  envelope = .commit aggregateId envelope.revision envelope.sequence event.1 event.2

section Readback

variable {aggregateId : A.Id} {key : String} {actualRevision : Nat}
  {prepared : List (PreparedEvent codec)}
  {added : List StoredEventRow} {table after : EventsTable}

variable (aggregateId) in
/-- Where each stored row's sequence is found, the envelopes are those of the rows. -/
theorem committedWith_ok {sequences : List (Nat × Nat)} (numbers : List.Forall₂ EventsServer.Numbers
      (PreparedEvent.numbered key actualRevision prepared) added)
    (fits : PreparedEvent.Fits .mysql actualRevision prepared)
    (found : ∀ row ∈ added, sequences.reverse.lookup row.revision = some row.sequence) :
    ∃ committed, committedWith aggregateId sequences actualRevision prepared = .ok committed ∧
      List.Forall₂ (StoredAs codec) added committed ∧
      List.Forall₂ (fun event => CommitOf aggregateId (event.event, event.stamp)) prepared
        committed := by
  induction prepared generalizing actualRevision added with
  | nil =>
    cases numbers
    exact ⟨[], rfl, .nil, .nil⟩
  | cons first rest ih =>
    cases numbers with
    | cons stored numbers =>
      rename_i row added
      rw [PreparedEvent.fits_cons] at fits
      rw [List.forall_mem_cons] at found
      obtain ⟨committed, ran, rows, commits⟩ := ih numbers fits.2 found.2
      have revision : row.revision = actualRevision + 1 := by rw [stored]; rfl
      have here := found.1
      rw [revision] at here
      refine ⟨.commit aggregateId (actualRevision + 1) (some row.sequence) first.event
        first.stamp :: committed, ?_, .cons ?_ rows, .cons rfl commits⟩
      · rw [committedWith, if_neg (by omega), here, ran]
        rfl
      · rw [stored]
        exact ⟨rfl, rfl, rfl, rfl, rfl, rfl, first.payload_text, first.metadata_text,
          first.recorded_text⟩

/-- A batch stands in the table above a revision, in its order, and the envelopes returned
are those of its rows. -/
def CommittedAbove (codec : RowCodec A) (table after : EventsTable) (key : String)
    (actualRevision : Nat) (aggregateId : A.Id) (events : List (NewEvent A.Event × Stamp))
    (committed : EventStream A) : Prop :=
  ∃ added, after.rows = table.rows ++ added ∧
    added.map (·.revision) = List.range' (actualRevision + 1) events.length ∧
    (∀ row ∈ added, row.aggregateType = A.aggregateType ∧ row.aggregateId = key) ∧
    List.Forall₂ (StoredAs codec) added committed ∧
    List.Forall₂ (CommitOf aggregateId) events committed

/-- The stored rows of a batch that fits: contiguous, and all under the key. -/
theorem numbers_columns (numbers : List.Forall₂ EventsServer.Numbers
      (PreparedEvent.numbered key actualRevision prepared) added) :
    added.map (·.revision) = List.range' (actualRevision + 1) prepared.length ∧
      ∀ row ∈ added, row.aggregateType = A.aggregateType ∧ row.aggregateId = key := by
  induction prepared generalizing actualRevision added with
  | nil =>
    cases numbers
    simp
  | cons first rest ih =>
    cases numbers with
    | cons stored numbers =>
      obtain ⟨revisions, keyed⟩ := ih numbers
      rw [List.map_cons, revisions, List.length_cons, List.range'_succ, List.forall_mem_cons,
        stored]
      exact ⟨rfl, ⟨rfl, rfl⟩, keyed⟩

variable (aggregateId) in
/-- Whatever the order in which the new rows are read back, their number is right and each
revision finds its own sequence. -/
theorem committedFrom_ok {rows : List StoredEventRow} (numbers : List.Forall₂ EventsServer.Numbers
      (PreparedEvent.numbered key actualRevision prepared) added)
    (fits : PreparedEvent.Fits .mysql actualRevision prepared) (read : rows.Perm added)
    (grown : after.rows = table.rows ++ added) :
    ∃ committed, committedFrom aggregateId actualRevision prepared rows = .ok committed ∧
      CommittedAbove codec table after key actualRevision aggregateId
        (prepared.map (fun event => (event.event, event.stamp))) committed := by
  obtain ⟨revisions, keyed⟩ := numbers_columns numbers
  have length : rows.length = prepared.length := by
    rw [read.length_eq, ← List.length_map (f := fun row : StoredEventRow => row.revision),
      revisions, List.length_range']
  have different : (rows.map (·.revision)).Nodup := by
    rw [(read.map _).nodup_iff, revisions]
    exact List.nodup_range'
  have found : ∀ row ∈ added,
      (rows.map (fun row => (row.revision, row.sequence))).reverse.lookup row.revision =
        some row.sequence :=
    fun row member => lookup_sequence different (read.mem_iff.mpr member)
  obtain ⟨committed, ran, stored, commits⟩ :=
    committedWith_ok aggregateId numbers fits found
  refine ⟨committed, ?_, added, grown, ?_, keyed, stored, ?_⟩
  · rw [committedFrom, if_neg (not_not.mpr length)]
    exact ran
  · rw [List.length_map]
    exact revisions
  · rw [List.forall₂_map_left_iff]
    exact commits

/-- Where no row stood above the revision, the rows above it are those just added. -/
theorem rows_above (grown : after.rows = table.rows ++ added)
    (keyed : ∀ row ∈ added, row.aggregateType = A.aggregateType ∧ row.aggregateId = key)
    (above : ∀ row ∈ added, actualRevision < row.revision)
    (highest : table.currentRevision A.aggregateType key ≤ actualRevision) :
    (after.streamRows A.aggregateType key).filter (fun row => actualRevision < row.revision) =
      added := by
  rw [EventsTable.streamRows_added grown, List.filter_append]
  have old : (table.streamRows A.aggregateType key).filter
      (fun row => actualRevision < row.revision) = [] := by
    rw [List.filter_eq_nil_iff]
    intro row member
    rw [EventsTable.streamRows, List.mem_filter, decide_eq_true_eq] at member
    have most := EventsTable.le_currentRevision member.1
    rw [member.2.1, member.2.2] at most
    rw [decide_eq_true_eq]
    omega
  have kept : added.filter
      (fun row => row.aggregateType = A.aggregateType ∧ row.aggregateId = key) = added := by
    rw [List.filter_eq_self]
    intro row member
    exact decide_eq_true (keyed row member)
  have listed : added.filter (fun row => actualRevision < row.revision) = added := by
    rw [List.filter_eq_self]
    intro row member
    exact decide_eq_true (above row member)
  rw [old, kept, listed, List.nil_append]

variable {server : EventsServer} {table : EventsTable} {actualRevision : Nat}
  {expected : ExpectedRevision} {prepared : List (PreparedEvent codec)}

/-- The numbers of a batch fit their columns, and a single statement with its rows goes
through. -/
def GoesIn (server : EventsServer) (key : String) (table : EventsTable) (actualRevision : Nat)
    (prepared : List (PreparedEvent codec)) : Prop :=
  PreparedEvent.Fits .mysql actualRevision prepared ∧
    server.Takes table (PreparedEvent.numbered key actualRevision prepared)

/-- A call that commits the batch. -/
def CommitsChunks (codec : RowCodec A) (table : EventsTable) (key : String) (actualRevision : Nat)
    (aggregateId : A.Id) (events : List (NewEvent A.Event × Stamp))
    (call : Called (EventStream A × EventsTable)) : Prop :=
  ∃ committed after, call = .returned (.ok (committed, after)) ∧
    CommittedAbove codec table after key actualRevision aggregateId events committed

variable (server key table aggregateId actualRevision expected prepared) in
theorem insertPreparedPostgresEvents_cases :
    (GoesIn server key table actualRevision prepared ∧
      CommitsChunks codec table key actualRevision aggregateId
        (prepared.map (fun event => (event.event, event.stamp)))
        (insertPreparedPostgresEvents server key table aggregateId actualRevision expected
          prepared)) ∨
    (¬ GoesIn server key table actualRevision prepared ∧
      ∃ error, insertPreparedPostgresEvents server key table aggregateId actualRevision expected
        prepared = .returned (.error error)) := by
  cases built : PreparedEvent.rows .postgres key actualRevision prepared with
  | error error =>
    apply Or.inr
    constructor
    · intro goes
      have whole : PreparedEvent.rows .postgres key actualRevision prepared =
          .ok (PreparedEvent.numbered key actualRevision prepared) :=
        PreparedEvent.rows_ok_iff.mpr ⟨goes.1, rfl⟩
      rw [built] at whole
      cases whole
    · exact ⟨error, by rw [insertPreparedPostgresEvents, built]⟩
  | ok rows =>
    obtain ⟨fits, same⟩ := PreparedEvent.rows_ok_iff.mp built
    subst same
    cases sent : server.insertAll table (PreparedEvent.numbered key actualRevision prepared) with
    | error refusal =>
      apply Or.inr
      constructor
      · intro goes
        obtain ⟨after, taken⟩ := goes.2
        rw [sent] at taken
        cases taken
      · exact ⟨refusal.error .postgres expected actualRevision,
          by simp only [insertPreparedPostgresEvents, built, sent]⟩
    | ok after =>
      apply Or.inl
      obtain ⟨added, numbers, grown⟩ := EventsServer.insertAll_ok sent
      have returned : after.rows.drop table.rows.length = added := by
        rw [grown, List.drop_left]
      obtain ⟨committed, read, done⟩ := committedFrom_ok aggregateId numbers
        fits (server.gives_perm added) grown
      refine ⟨⟨fits, after, sent⟩, committed, after, ?_, done⟩
      simp only [insertPreparedPostgresEvents, built, sent, returned, read]
      rfl

variable (aggregateId expected prepared) in
theorem insertPreparedMysqlEvents_cases (room : actualRevision ≤ i64Max)
    (highest : table.currentRevision A.aggregateType key ≤ actualRevision) :
    (GoesIn server key table actualRevision prepared ∧
      ¬ ChunkOverflows server key table actualRevision (chunks maxMysqlAppendEvents prepared) ∧
      CommitsChunks codec table key actualRevision aggregateId
        (prepared.map (fun event => (event.event, event.stamp)))
        (insertPreparedMysqlEvents server key table aggregateId actualRevision expected
          prepared)) ∨
    (¬ GoesIn server key table actualRevision prepared ∧
      ¬ ChunkOverflows server key table actualRevision (chunks maxMysqlAppendEvents prepared) ∧
      ∃ error, insertPreparedMysqlEvents server key table aggregateId actualRevision expected
        prepared = .returned (.error error)) ∨
    (ChunkOverflows server key table actualRevision (chunks maxMysqlAppendEvents prepared) ∧
      ∃ text, insertPreparedMysqlEvents server key table aggregateId actualRevision expected
        prepared = .panicked text) := by
  have aligned := insertMysqlEventChunks_eq server key expected actualRevision prepared 0 table
  rw [Nat.zero_mul, Nat.add_zero] at aligned
  have panics := insertChunksAbove_panics server key expected actualRevision
    (chunks maxMysqlAppendEvents prepared) table
  have goesThrough := insertChunksAbove_ok server key expected actualRevision
    (chunks maxMysqlAppendEvents prepared) table
  rw [← aligned] at panics
  simp only [← aligned, Blocks.flatten_chunks] at goesThrough
  cases ran : insertMysqlEventChunks server key expected actualRevision 0
    (chunks maxMysqlAppendEvents prepared) table with
  | panicked text =>
    apply Or.inr
    apply Or.inr
    refine ⟨panics.mp ⟨text, ran⟩, text, ?_⟩
    simp only [insertPreparedMysqlEvents, if_neg (Nat.not_lt.mpr room), ran]
  | returned result =>
    have calm : ¬ ChunkOverflows server key table actualRevision
        (chunks maxMysqlAppendEvents prepared) := by
      intro overflows
      obtain ⟨text, panicked⟩ := panics.mpr overflows
      rw [ran] at panicked
      cases panicked
    cases result with
    | error error =>
      apply Or.inr
      apply Or.inl
      refine ⟨?_, calm, error, ?_⟩
      · intro goes
        obtain ⟨after, taken⟩ := goes.2
        have through := (goesThrough after).mpr ⟨goes.1, taken⟩
        rw [ran] at through
        cases through
      · simp only [insertPreparedMysqlEvents, if_neg (Nat.not_lt.mpr room), ran]
    | ok after =>
      apply Or.inl
      obtain ⟨fits, sent⟩ := (goesThrough after).mp ran
      obtain ⟨added, numbers, grown⟩ := EventsServer.insertAll_ok sent
      obtain ⟨revisions, keyed⟩ := numbers_columns numbers
      have above : ∀ row ∈ added, actualRevision < row.revision := by
        intro row member
        have listed := List.mem_map_of_mem (f := fun row : StoredEventRow => row.revision) member
        rw [revisions, List.mem_range'_1] at listed
        omega
      have selected := rows_above grown keyed above highest
      obtain ⟨committed, read, done⟩ := committedFrom_ok aggregateId numbers
        fits (server.gives_perm added) grown
      refine ⟨⟨fits, after, sent⟩, calm, committed, after, ?_, done⟩
      simp only [insertPreparedMysqlEvents, if_neg (Nat.not_lt.mpr room), ran, selected, read]
      rfl

end Readback

/-- A call returns: with an error that leaves the table as it was, or with the envelopes of
the batch it committed above the stream's revision. -/
def ErrsOrCommits (codec : RowCodec A) (table : EventsTable) (aggregateId : A.Id)
    (events : List (NewEvent A.Event × Stamp)) (run : AppendRun A) : Prop :=
  match run.call with
  | .panicked _ => False
  | .returned (.error _) => run.table = table
  | .returned (.ok committed) =>
    ∃ keys, codec.aggregateIdLookupKeys aggregateId = .ok keys ∧
      CommittedAbove codec table run.table (keys.headD "")
        (maxRevisionForLookupKeys keys (table.currentRevision A.aggregateType)) aggregateId
        events committed

def AppendRun.Accepted (run : AppendRun A) : Prop :=
  ∃ committed, run.call = .returned (.ok committed)

/-- Both stores return or commit, and they accept the same batch. -/
structure AppendAlike (onMysql onPostgres : EventsServer) (codec : RowCodec A) (table : EventsTable)
    (aggregateId : A.Id) (expected : ExpectedRevision)
    (events : List (NewEvent A.Event × Stamp)) : Prop where
  mysql : ErrsOrCommits codec table aggregateId events
    (mysqlAppend onMysql codec table aggregateId expected events)
  postgres : ErrsOrCommits codec table aggregateId events
    (postgresAppend onPostgres codec table aggregateId expected events)
  alike : (mysqlAppend onMysql codec table aggregateId expected events).Accepted ↔
    (postgresAppend onPostgres codec table aggregateId expected events).Accepted

/-- What an append has found when it comes to its insert. -/
structure Reaches (codec : RowCodec A) (table : EventsTable) (aggregateId : A.Id)
    (expected : ExpectedRevision) (events : List (NewEvent A.Event × Stamp))
    (keys : List String) (prepared : List (PreparedEvent codec)) (actualRevision : Nat) :
    Prop where
  lookup : codec.aggregateIdLookupKeys aggregateId = .ok keys
  readied : events.mapM codec.prepare = .ok prepared
  actual : actualRevision =
    maxRevisionForLookupKeys keys (table.currentRevision A.aggregateType)
  admitted : expected.Admits actualRevision

/-- Once an append comes to its insert, no chunk that is reached overflows its columns, and
the two databases take the same batch. -/
def ReachedNumbersFit (mysql postgres : EventsServer) (codec : RowCodec A) (table : EventsTable)
    (aggregateId : A.Id) (expected : ExpectedRevision)
    (events : List (NewEvent A.Event × Stamp)) : Prop :=
  ∀ keys prepared actualRevision,
    Reaches codec table aggregateId expected events keys prepared actualRevision →
    actualRevision ≤ i64Max →
    ¬ ChunkOverflows mysql (keys.headD "") table actualRevision
        (chunks maxMysqlAppendEvents prepared) ∧
      (GoesIn mysql (keys.headD "") table actualRevision prepared ↔
        GoesIn postgres (keys.headD "") table actualRevision prepared)

variable {codec : RowCodec A} {table : EventsTable} {aggregateId : A.Id}
  {events : List (NewEvent A.Event × Stamp)}

/-- Where both databases refuse the same texts, only the numbers decide. MySQL's ids and event
types are `VARCHAR(255)` and PostgreSQL's `TEXT`: a longer one goes into one of them alone. -/
theorem reachedNumbersFit_of_refuseAlike {mysql postgres : EventsServer}
    (alike : ∀ row, mysql.refuses row = none ↔ postgres.refuses row = none)
    {expected : ExpectedRevision} :
    ReachedNumbersFit mysql postgres codec table aggregateId expected events ↔
      ∀ keys prepared actualRevision,
        Reaches codec table aggregateId expected events keys prepared actualRevision →
        actualRevision ≤ i64Max →
        ¬ ChunkOverflows mysql (keys.headD "") table actualRevision
          (chunks maxMysqlAppendEvents prepared) := by
  have same : List.Forall₂ EventsServer.Numbers table.rows table.rows :=
    List.forall₂_same.mpr (fun _ _ => rfl)
  have goes : ∀ key actualRevision (prepared : List (PreparedEvent codec)),
      GoesIn mysql key table actualRevision prepared ↔
        GoesIn postgres key table actualRevision prepared :=
    fun key actualRevision prepared =>
      and_congr_right (fun _ => EventsServer.takes_of_refuseAlike alike same)
  unfold ReachedNumbersFit
  simp only [goes, and_true]

theorem settle_errsOrCommits_error (error : EventStoreError) :
    ErrsOrCommits codec table aggregateId events (settle table (.returned (.error error))) := rfl

theorem not_accepted_error (error : EventStoreError) :
    ¬ (settle (A := A) table (.returned (.error error))).Accepted := by
  rintro ⟨committed, call⟩
  cases call

theorem accepted_ok {after : EventsTable} {committed : EventStream A} :
    (settle table (.returned (.ok (committed, after)))).Accepted := ⟨committed, rfl⟩

theorem settle_commits {keys : List String} {call : Called (EventStream A × EventsTable)}
    (lookup : codec.aggregateIdLookupKeys aggregateId = .ok keys)
    (commits : CommitsChunks codec table (keys.headD "")
      (maxRevisionForLookupKeys keys (table.currentRevision A.aggregateType)) aggregateId events
      call) :
    ErrsOrCommits codec table aggregateId events (settle table call) ∧
      (settle table call).Accepted := by
  obtain ⟨committed, after, same, done⟩ := commits
  subst same
  exact ⟨⟨keys, lookup, done⟩, accepted_ok⟩

theorem prepared_source {prepared : List (PreparedEvent codec)}
    (readied : events.mapM codec.prepare = .ok prepared) :
    prepared.map (fun event => (event.event, event.stamp)) = events := by
  have same : List.Forall₂ (fun event ready => event = (ready.event, ready.stamp)) events
      prepared := by
    apply (forall₂_of_mapM_ok readied).imp
    intro event ready one
    exact (Prod.ext (prepare_source one).1 (prepare_source one).2).symm
  have mapped := List.forall₂_map_right_iff.mpr same
  rw [List.forall₂_eq_eq_eq] at mapped
  exact mapped.symm

/-- An append fails before its insert, whatever that is, or comes to it. -/
theorem appendInTransaction_cases (codec : RowCodec A) (table : EventsTable)
    (aggregateId : A.Id) (expected : ExpectedRevision)
    (events : List (NewEvent A.Event × Stamp)) :
    ((∀ keys prepared actualRevision,
        ¬ Reaches codec table aggregateId expected events keys prepared actualRevision) ∧
      ∃ error, ∀ insert : BatchInsert codec,
        appendInTransaction codec insert table aggregateId expected events =
          .returned (.error error)) ∨
    ∃ keys prepared actualRevision,
      Reaches codec table aggregateId expected events keys prepared actualRevision ∧
        ∀ insert : BatchInsert codec,
          appendInTransaction codec insert table aggregateId expected events =
            if prepared.isEmpty then .returned (.ok ([], table))
            else insert (keys.headD "") table aggregateId actualRevision expected prepared := by
  cases lookup : codec.aggregateIdLookupKeys aggregateId with
  | error error =>
    apply Or.inl
    constructor
    · intro keys prepared actualRevision reaches
      have found := reaches.lookup
      rw [lookup] at found
      cases found
    · exact ⟨error, fun insert => by simp only [appendInTransaction, lookup]⟩
  | ok keys =>
    cases readied : events.mapM codec.prepare with
    | error error =>
      apply Or.inl
      constructor
      · intro keys prepared actualRevision reaches
        have found := reaches.readied
        rw [readied] at found
        cases found
      · exact ⟨error, fun insert => by simp only [appendInTransaction, lookup, readied]⟩
    | ok prepared =>
      cases checked : checkExpectedRevision expected
        (maxRevisionForLookupKeys keys (table.currentRevision A.aggregateType)) with
      | error error =>
        apply Or.inl
        constructor
        · intro others ready actualRevision reaches
          have same := reaches.lookup
          rw [lookup] at same
          cases same
          have admitted := (checkExpectedRevision_ok_iff _ _).mpr reaches.admitted
          rw [reaches.actual, checked] at admitted
          cases admitted
        · exact ⟨error, fun insert => by
            simp only [appendInTransaction, lookup, readied, checked]⟩
      | ok done =>
        apply Or.inr
        exact ⟨keys, prepared, _, ⟨lookup, readied, rfl,
          (checkExpectedRevision_ok_iff _ _).mp checked⟩, fun insert => by
            simp only [appendInTransaction, lookup, readied, checked]⟩

section Both

variable {mysql postgres : EventsServer} {codec : RowCodec A} {table : EventsTable}
  {aggregateId : A.Id} {expected : ExpectedRevision} {events : List (NewEvent A.Event × Stamp)}
  {keys : List String} {prepared : List (PreparedEvent codec)} {actualRevision : Nat}

/-- What is found before the insert is found once. -/
theorem reachedNumbersFit_iff
    (reaches : Reaches codec table aggregateId expected events keys prepared actualRevision) :
    ReachedNumbersFit mysql postgres codec table aggregateId expected events ↔
      (actualRevision ≤ i64Max →
        ¬ ChunkOverflows mysql (keys.headD "") table actualRevision
            (chunks maxMysqlAppendEvents prepared) ∧
          (GoesIn mysql (keys.headD "") table actualRevision prepared ↔
            GoesIn postgres (keys.headD "") table actualRevision prepared)) := by
  constructor
  · intro fit
    exact fit keys prepared actualRevision reaches
  · intro fit others ready highest again
    have sameKeys := again.lookup
    have sameEvents := again.readied
    rw [reaches.lookup] at sameKeys
    rw [reaches.readied] at sameEvents
    cases sameKeys
    cases sameEvents
    rw [again.actual, ← reaches.actual]
    exact fit

/-- The revision read is at least that of the key the batch goes under. -/
theorem Reaches.highest
    (reaches : Reaches codec table aggregateId expected events keys prepared actualRevision) :
    table.currentRevision A.aggregateType (keys.headD "") ≤ actualRevision := by
  rw [reaches.actual]
  apply le_maxRevisionForLookupKeys
  obtain ⟨current, shape | ⟨legacy, -, shape⟩⟩ := aggregateIdLookupKeys_shape reaches.lookup <;>
    simp [shape]

/-- An empty batch is accepted by both stores, and adds nothing. -/
theorem appendAlike_empty
    (reaches : Reaches codec table aggregateId expected events keys [] actualRevision)
    (runs : ∀ insert : BatchInsert codec,
      appendInTransaction codec insert table aggregateId expected events = .returned (.ok ([], table))) :
    AppendAlike mysql postgres codec table aggregateId expected events := by
  have none : events = [] := (prepared_source reaches.readied).symm
  have returns : ErrsOrCommits codec table aggregateId events
      (settle table (.returned (.ok ([], table)))) := by
    refine ⟨keys, reaches.lookup, [], (List.append_nil _).symm, ?_, ?_, .nil, ?_⟩
    · rw [none]
      rfl
    · exact List.forall_mem_nil _
    · rw [none]
      exact .nil
  constructor
  · rw [mysqlAppend, runs]
    exact returns
  · rw [postgresAppend, runs]
    exact returns
  · rw [mysqlAppend, postgresAppend, runs, runs]

theorem postgresAppend_spec
    (reaches : Reaches codec table aggregateId expected events keys prepared actualRevision)
    (runs : appendInTransaction codec (insertPreparedPostgresEvents postgres) table aggregateId expected
        events =
      insertPreparedPostgresEvents postgres (keys.headD "") table aggregateId actualRevision
        expected prepared) :
    ErrsOrCommits codec table aggregateId events
        (postgresAppend postgres codec table aggregateId expected events) ∧
      ((postgresAppend postgres codec table aggregateId expected events).Accepted ↔
        GoesIn postgres (keys.headD "") table actualRevision prepared) := by
  rw [postgresAppend, runs]
  rcases insertPreparedPostgresEvents_cases aggregateId (keys.headD "") postgres table
      actualRevision expected prepared with ⟨goes, commits⟩ | ⟨refused, error, ran⟩
  · rw [prepared_source reaches.readied, reaches.actual] at commits
    obtain ⟨done, accepted⟩ := settle_commits reaches.lookup commits
    rw [← reaches.actual] at done accepted
    exact ⟨done, iff_of_true accepted goes⟩
  · rw [ran]
    exact ⟨settle_errsOrCommits_error error,
      iff_of_false (not_accepted_error error) refused⟩

theorem mysqlAppend_spec (room : actualRevision ≤ i64Max)
    (reaches : Reaches codec table aggregateId expected events keys prepared actualRevision)
    (runs : appendInTransaction codec (insertPreparedMysqlEvents mysql) table aggregateId expected
        events =
      insertPreparedMysqlEvents mysql (keys.headD "") table aggregateId actualRevision expected
        prepared) :
    (¬ ChunkOverflows mysql (keys.headD "") table actualRevision
        (chunks maxMysqlAppendEvents prepared) →
      ErrsOrCommits codec table aggregateId events
          (mysqlAppend mysql codec table aggregateId expected events) ∧
        ((mysqlAppend mysql codec table aggregateId expected events).Accepted ↔
          GoesIn mysql (keys.headD "") table actualRevision prepared)) ∧
      (ChunkOverflows mysql (keys.headD "") table actualRevision
          (chunks maxMysqlAppendEvents prepared) →
        ¬ ErrsOrCommits codec table aggregateId events
          (mysqlAppend mysql codec table aggregateId expected events)) := by
  rw [mysqlAppend, runs]
  rcases insertPreparedMysqlEvents_cases aggregateId expected prepared room reaches.highest with
    ⟨goes, calm, commits⟩ | ⟨refused, calm, error, ran⟩ | ⟨overflows, text, ran⟩
  · rw [prepared_source reaches.readied, reaches.actual] at commits
    obtain ⟨done, accepted⟩ := settle_commits reaches.lookup commits
    rw [← reaches.actual] at done accepted
    exact ⟨fun _ => ⟨done, iff_of_true accepted goes⟩, fun overflows => absurd overflows calm⟩
  · rw [ran]
    exact ⟨fun _ => ⟨settle_errsOrCommits_error error,
      iff_of_false (not_accepted_error error) refused⟩, fun overflows => absurd overflows calm⟩
  · rw [ran]
    exact ⟨fun calm => absurd overflows calm, fun _ returned => returned⟩

end Both

/-- The two stores append alike exactly when no number that a chunk reaches overflows its
column and the databases take the same batch, as they do when they refuse the same texts. -/
theorem appendsAlike_exact (mysql postgres : EventsServer) (codec : RowCodec A)
    (table : EventsTable) (aggregateId : A.Id) (expected : ExpectedRevision)
    (events : List (NewEvent A.Event × Stamp)) :
    AppendAlike mysql postgres codec table aggregateId expected events ↔
      ReachedNumbersFit mysql postgres codec table aggregateId expected events := by
  rcases appendInTransaction_cases codec table aggregateId expected events with
    ⟨never, error, runs⟩ | ⟨keys, prepared, actualRevision, reaches, runs⟩
  · constructor
    · intro alike keys prepared actualRevision reaches
      exact absurd reaches (never keys prepared actualRevision)
    · intro fit
      constructor
      · rw [mysqlAppend, runs]
        exact settle_errsOrCommits_error error
      · rw [postgresAppend, runs]
        exact settle_errsOrCommits_error error
      · rw [mysqlAppend, postgresAppend, runs, runs]
  · rw [reachedNumbersFit_iff reaches]
    cases prepared with
    | nil =>
      apply iff_of_true (appendAlike_empty reaches runs)
      intro room
      constructor
      · rintro ⟨front, chunk, rest, cut, -⟩
        rw [chunks] at cut
        simp at cut
      · exact Iff.rfl
    | cons first rest =>
      have onPostgres := postgresAppend_spec reaches (runs (insertPreparedPostgresEvents postgres))
      by_cases room : actualRevision ≤ i64Max
      · have onMysql := mysqlAppend_spec room reaches (runs (insertPreparedMysqlEvents mysql))
        simp only [room, true_imp_iff]
        constructor
        · intro alike
          have calm := fun overflows => onMysql.2 overflows alike.mysql
          rw [← onPostgres.2, ← (onMysql.1 calm).2]
          exact ⟨calm, alike.alike⟩
        · intro fit
          obtain ⟨done, accepted⟩ := onMysql.1 fit.1
          exact ⟨done, onPostgres.1, accepted.trans (fit.2.trans onPostgres.2.symm)⟩
      · apply iff_of_true _ (fun within => absurd within room)
        have ran : appendInTransaction codec (insertPreparedMysqlEvents mysql) table aggregateId
            expected events = .returned (.error (.serialization "revision exceeds BIGINT" none)) := by
          rw [runs]
          exact if_pos (Nat.lt_of_not_le room)
        have refused : ¬ GoesIn postgres (keys.headD "") table actualRevision (first :: rest) := by
          intro goes
          have fits := goes.1.1 (List.cons_ne_nil first rest)
          omega
        constructor
        · rw [mysqlAppend, ran]
          exact settle_errsOrCommits_error _
        · exact onPostgres.1
        · rw [mysqlAppend, ran]
          exact iff_of_false (not_accepted_error _) (fun accepted => refused (onPostgres.2.mp accepted))

/-- A database that takes every text and numbers its rows one after the other. -/
def plainServer : EventsServer where
  refuses _ := none
  draws table _ := table.lastSequence + 1
  gives rows := rows
  gives_perm rows := .refl rows

/-- The least version above `i32`: one store panics on it, and the other reports it. -/
theorem largeVersion_panics :
    let events : List (NewEvent Aggregate.account.Event × Stamp) :=
      [(⟨(), "account_opened", 2147483648, .empty⟩, ⟨"e1", 0⟩)]
    ¬ AppendAlike plainServer plainServer accountCodec .empty "a" .any events ∧
      (mysqlAppend plainServer accountCodec .empty "a" .any events).call =
        .panicked (.unknown "event_version must fit in i32" none) ∧
      (postgresAppend plainServer accountCodec .empty "a" .any events).call =
        .returned (.error (.serialization "event_version exceeds INT" none)) := by
  intro events
  have panics : (mysqlAppend plainServer accountCodec .empty "a" .any events).call =
      .panicked (.unknown "event_version must fit in i32" none) := by
    obtain ⟨prepared, readied, version⟩ : ∃ prepared : PreparedEvent accountCodec,
        events.mapM accountCodec.prepare = .ok [prepared] ∧
          prepared.event.eventVersion = 2147483648 := ⟨_, rfl, rfl⟩
    have unfit : PreparedEvent.rows .mysql "a" 0 [prepared] =
        .error (.unknown "event_version must fit in i32" none) := by
      rw [PreparedEvent.rows, version]
      rfl
    have inserted : insertPreparedMysqlEvents plainServer "a" .empty "a" 0 .any [prepared] =
        .panicked (.unknown "event_version must fit in i32" none) := by
      unfold insertPreparedMysqlEvents
      rw [chunks, List.take_nil, List.drop_nil, chunks]
      unfold insertMysqlEventChunks insertMysqlEventChunk
      rw [Nat.zero_mul, Nat.add_zero, unfit]
      rfl
    have ran : appendInTransaction accountCodec (insertPreparedMysqlEvents plainServer) .empty "a"
        .any events = insertPreparedMysqlEvents plainServer "a" .empty "a" 0 .any [prepared] := by
      unfold appendInTransaction
      rw [readied]
      rfl
    unfold mysqlAppend
    rw [ran, inserted]
    rfl
  refine ⟨?_, panics, rfl⟩
  intro alike
  have returned := alike.mysql
  unfold ErrsOrCommits at returned
  rw [panics] at returned
  exact returned

end DddCqrsEs
