import DddCqrsEs.AppendAtomic

/- When the guarded SQLite append keeps the optimistic-concurrency rule: the guard as its
parameters fall on the placeholders, next to the rule and to the Postgres guard. -/
namespace DddCqrsEs

open GuardedInsert

theorem le_nearestDouble {n : Nat} (large : 2 ^ 63 ≤ n) : 2 ^ 63 ≤ nearestDouble n := by
  have nonzero : n ≠ 0 := by omega
  have exponent : 63 ≤ n.log2 := (Nat.le_log2 nonzero).mpr large
  have power : 2 ^ 52 * 2 ^ (n.log2 - 52) = 2 ^ n.log2 := by
    rw [← Nat.pow_add]
    congr 1
    omega
  have quotient : 2 ^ 52 ≤ n / 2 ^ (n.log2 - 52) := by
    rw [Nat.le_div_iff_mul_le (Nat.two_pow_pos _), power]
    exact Nat.log2_self_le nonzero
  have rounded : 2 ^ 52 * 2 ^ (n.log2 - 52) ≤ nearestDouble n := by
    unfold nearestDouble
    dsimp only
    split
    · exact Nat.mul_le_mul_right _ (by omega)
    · exact Nat.mul_le_mul_right _ quotient
  calc 2 ^ 63 ≤ 2 ^ n.log2 := Nat.pow_le_pow_right (by decide) exponent
    _ = 2 ^ 52 * 2 ^ (n.log2 - 52) := power.symm
    _ ≤ nearestDouble n := rounded

theorem toHranaArg_integer (n : Int) :
    toHranaArg (.integer n) = if inI64 n = true then .integer n else .real (asF64 n : Rat) := rfl

theorem inI64_natCast (n : Nat) : inI64 n = decide (n ≤ i64Max) := rfl

theorem i64Max_lt_asF64 {n : Nat} (large : i64Max < n) : (i64Max : Int) < asF64 n := by
  have max : i64Max = 2 ^ 63 - 1 := rfl
  have rounded := le_nearestDouble (n := n) (by omega)
  show (i64Max : Int) < (nearestDouble n : Nat)
  omega

variable {current : Nat} {record : EventRecord} {rows : List AppendEventRow}
  {expected : ExpectedRevision} {statement : Statement} {params : List (Param JsonValue)}

/-- A current revision is compared with the expected one, also where that one is bound as a
double. -/
theorem equal_toHranaArg {revision : Nat} (inRange : current ≤ i64Max) :
    (Value.integer current).equal (toHranaArg (.integer revision)) =
      some (decide (current = revision)) := by
  rw [toHranaArg_integer, inI64_natCast]
  by_cases fits : revision ≤ i64Max
  · rw [decide_eq_true fits, if_pos rfl, Value.equal]
    simp only [Int.natCast_inj]
  · have beyond := i64Max_lt_asF64 (Nat.not_le.mp fits)
    have apart : (current : Int) ≠ asF64 revision := by omega
    have differ : current ≠ revision := by omega
    have unequal : ((current : Int) : Rat) ≠ (asF64 revision : Rat) :=
      fun same => apart (Rat.intCast_inj.mp same)
    rw [decide_eq_false fits, if_neg (by simp), Value.equal, decide_eq_false differ]
    exact congrArg some (decide_eq_false unequal)

section Bound

variable (table aggregateType aggregateId : String) (expected : ExpectedRevision)
  (rows : List AppendEventRow)

/-- The values of one tuple of `VALUES`. -/
def AppendEventRow.tuple (row : AppendEventRow) (index : Nat) : List Value :=
  (row.sqliteParams index).map toHranaArg

def batchTuples (start : Nat) : List (List Value) :=
  (rows.zipIdx start).map (fun entry => entry.1.tuple entry.2)

/-- The expected revision falls on the last `?` of the guard, but its mode only on the
first: the other two modes are compared with themselves. -/
def boundGuard (mode revision : Value) : Condition :=
  .either (.either (.equal (.literal mode) (.literal (.integer 0)))
      (.both (.equal (.literal (.integer 1)) (.literal (.integer 1)))
        (.equal (.column "current_rev") (.literal (.integer 0)))))
    (.both (.equal (.literal (.integer 2)) (.literal (.integer 2)))
      (.equal (.column "current_rev") (.literal revision)))

def boundSlice : Condition :=
  .both (.equal (.column "aggregate_type") (.literal (.text aggregateType)))
    (.equal (.column "aggregate_id") (.literal (.text aggregateId)))

def boundOver (mode revision : Value) (source : Source) : Statement where
  table := table
  maximum := "revision"
  current := "current_rev"
  slice := boundSlice aggregateType aggregateId
  guard := boundGuard mode revision
  columns := insertColumns
  projection := [.column "event_id", .literal (.text aggregateId), .literal (.text aggregateType),
    .sum (.column "current_rev") (.column "row_offset"), .column "event_type",
    .column "event_version", .column "payload", .column "metadata", .column "recorded_at_ms"]
  source := source
  sourceColumns := ["event_id", "event_type", "event_version", "payload", "metadata",
    "recorded_at_ms", "row_offset"]
  returning := ["event_id", "sequence", "revision"]

def boundStatement : Statement :=
  boundOver table aggregateType aggregateId (.integer (guardMode expected).1)
    (toHranaArg (.integer (guardMode expected).2))
    (.values ((batchTuples rows 0).map (·.map .literal)))

variable {table aggregateType aggregateId expected rows}

theorem sqlite_bound {statement : Statement} {params : List JsonValue}
    (built : buildSqliteAppendStatement table aggregateType aggregateId expected rows =
      .ok (statement, params)) :
    rows ≠ [] ∧ (statement.bindNext (params.map toHranaArg)).1 =
      boundStatement table aggregateType aggregateId expected rows := by
  obtain ⟨_, _, built⟩ := ok_of_bind built
  split at built
  · cases built
  · rename_i some_row
    refine ⟨by simpa using some_row, ?_⟩
    cases built
    have tuples : (rows.zipIdx.map (fun entry => entry.1.sqliteParams entry.2)).flatten.map
        toHranaArg = (batchTuples rows 0).flatten := by
      rw [List.map_flatten, List.map_map]
      rfl
    have count : (batchTuples rows 0).length = rows.length := by simp [batchTuples]
    have wide : ∀ tuple ∈ batchTuples rows 0, tuple.length = 7 := by
      intro tuple member
      obtain ⟨entry, _, rfl⟩ := List.mem_map.mp member
      rfl
    have taken := bindNext_values (batchTuples rows 0) [] wide
    rw [List.append_nil, count] at taken
    have mode : toHranaArg (.integer (guardMode expected).1) = .integer (guardMode expected).1 := by
      cases expected <;> rfl
    rw [List.map_append, tuples]
    show boundOver table aggregateType aggregateId
      (toHranaArg (.integer (guardMode expected).1)) (toHranaArg (.integer (guardMode expected).2))
      (.values ((List.replicate rows.length (List.replicate 7 Term.placeholder)).mapM
        (fun row : List Term => row.mapM Term.bindNext) (batchTuples rows 0).flatten).1) = _
    rw [taken, mode]
    rfl

end Bound

section Run

variable {aggregateType aggregateId : String} {records : List EventRecord}

theorem boundSlice_select (server : Server) :
    (boundSlice aggregateType aggregateId).select server (records.map EventRecord.cells) =
      .ok ((streamRecords records aggregateType aggregateId).map EventRecord.cells) := by
  have decided : ∀ row ∈ records.map EventRecord.cells,
      (boundSlice aggregateType aggregateId).eval server row = .ok (some
        (decide (cell row "aggregate_type" = .text aggregateType ∧
          cell row "aggregate_id" = .text aggregateId))) := by
    intro row member
    obtain ⟨record, _, rfl⟩ := List.mem_map.mp member
    show Except.ok (both (some (decide (record.aggregateType = aggregateType)))
      (some (decide (record.aggregateId = aggregateId)))) = _
    have sameType : cell record.cells "aggregate_type" = .text record.aggregateType := rfl
    have sameId : cell record.cells "aggregate_id" = .text record.aggregateId := rfl
    rw [sameType, sameId]
    simp
  rw [select_ok server decided, List.filter_map]
  congr 2
  apply List.filter_congr
  intro record _
  show decide (Value.text record.aggregateType = .text aggregateType ∧
    Value.text record.aggregateId = .text aggregateId) = _
  simp only [Value.text.injEq]

theorem currentRevisionOf_le (records : List EventRecord) (aggregateType aggregateId : String) :
    currentRevisionOf records aggregateType aggregateId ≤ i64Max := by
  unfold currentRevisionOf
  generalize streamRecords records aggregateType aggregateId = stream
  suffices bounded : ∀ first ≤ i64Max,
      (stream.map EventRecord.revision).foldl max first ≤ i64Max by
    exact bounded 0 (Nat.zero_le _)
  induction stream with
  | nil => exact fun first inRange => inRange
  | cons record rest ih =>
    intro first inRange
    exact ih _ (Nat.max_le.mpr ⟨inRange, record.inRange⟩)

/-- The pairs that the guard of the bound statement lets pass. -/
def sqliteAdmits : ExpectedRevision → Nat → Bool
  | .any, _ => true
  | .noStream, current => decide (current = 0)
  | .exact revision, current => decide (current = 0) || decide (current = revision)

theorem sqliteAdmits_iff (expected : ExpectedRevision) (current : Nat) :
    sqliteAdmits expected current = true ↔
      expected.Admits current ∨ (current = 0 ∧ ∃ revision, expected = .exact revision) := by
  cases expected with
  | any => simp [sqliteAdmits, ExpectedRevision.Admits]
  | noStream => simp [sqliteAdmits, ExpectedRevision.Admits]
  | exact revision =>
    simp only [sqliteAdmits, ExpectedRevision.Admits, Bool.or_eq_true, decide_eq_true_eq]
    constructor
    · rintro (empty | same)
      · exact Or.inr ⟨empty, revision, rfl⟩
      · exact Or.inl same.symm
    · rintro (same | ⟨empty, _⟩)
      · exact Or.inr same.symm
      · exact Or.inl empty

theorem boundGuard_eval (server : Server) (expected : ExpectedRevision) {current : Nat}
    (inRange : current ≤ i64Max) :
    (boundGuard (.integer (guardMode expected).1)
        (toHranaArg (.integer (guardMode expected).2))).eval server
          [("current_rev", .integer current)] = .ok (some (sqliteAdmits expected current)) := by
  have empty : (Value.integer current).equal (.integer 0) = some (decide (current = 0)) := by
    simp [Value.equal]
  show Except.ok (either (either ((Value.integer (guardMode expected).1).equal (.integer 0))
    (both (some true) ((Value.integer current).equal (.integer 0)))) (both (some true)
      ((Value.integer current).equal (toHranaArg (.integer (guardMode expected).2))))) = _
  rw [equal_toHranaArg inRange, empty]
  cases expected with
  | any => simp [guardMode, guardAny, Value.equal, sqliteAdmits]
  | noStream =>
    have apart : (Value.integer guardNostream).equal (.integer 0) = some false := rfl
    simp only [guardMode, apart, both_some, either_some, Bool.true_and, Bool.false_or]
    exact congrArg (fun truth => Except.ok (some truth)) (Bool.or_self (decide (current = 0)))
  | exact revision =>
    have apart : (Value.integer guardExact).equal (.integer 0) = some false := rfl
    simp only [guardMode, apart, both_some, either_some, Bool.true_and, Bool.false_or]
    rfl

theorem largest_revision (records : List EventRecord) (aggregateType aggregateId : String) :
    coalesce ((((streamRecords records aggregateType aggregateId).map EventRecord.cells).map
      (cell · "revision")).foldl larger .null) (.integer 0) =
        .integer (currentRevisionOf records aggregateType aggregateId) := by
  have revisions : ((streamRecords records aggregateType aggregateId).map EventRecord.cells).map
      (cell · "revision") = ((streamRecords records aggregateType aggregateId).map
        EventRecord.revision).map (fun n : Nat => Value.integer n) := by
    rw [List.map_map, List.map_map]
    rfl
  rw [revisions, coalesce_largest]
  rfl

/-- Where derived columns may be named, the guard has a row exactly for those pairs. -/
theorem boundStatement_guardRow (records : List EventRecord)
    (table aggregateType aggregateId : String) (expected : ExpectedRevision)
    (rows : List AppendEventRow) :
    (boundStatement table aggregateType aggregateId expected rows).guardRow
        (sqliteServer true) (records.map EventRecord.cells) =
      .ok (if sqliteAdmits expected (currentRevisionOf records aggregateType aggregateId) = true
        then some (.integer (currentRevisionOf records aggregateType aggregateId)) else none) :=
  guardRow_ok _ rfl (boundSlice_select _) (largest_revision records aggregateType aggregateId)
    (boundGuard_eval _ expected (currentRevisionOf_le records aggregateType aggregateId))

/-- The row of an event under the revision it receives. -/
def rowCells (aggregateType aggregateId : String) (revision : Value) (row : AppendEventRow) : Row :=
  [("event_id", .text row.eventId), ("aggregate_id", .text aggregateId),
    ("aggregate_type", .text aggregateType), ("revision", revision),
    ("event_type", .text row.eventType), ("event_version", toHranaArg (.integer row.eventVersion)),
    ("payload", toHranaArg row.payload), ("metadata", toHranaArg row.metadata),
    ("recorded_at_ms", toHranaArg (.integer row.recordedAtMs))]

/-- What `g.current_rev + u.row_offset` gives. -/
def assignedRevision (current index : Nat) : Value :=
  match sqliteAdd (.integer current) (toHranaArg (.integer (index + 1))) with
  | .ok revision => revision
  | .error _ => .null

theorem sqliteAdd_offset (current index : Nat) :
    sqliteAdd (.integer current) (toHranaArg (.integer (index + 1))) =
      .ok (assignedRevision current index) := by
  have added : ∃ revision, sqliteAdd (.integer current) (toHranaArg (.integer (index + 1))) =
      .ok revision := by
    rw [toHranaArg_integer]
    split
    · exact ⟨_, rfl⟩
    · exact ⟨_, rfl⟩
  obtain ⟨revision, added⟩ := added
  rw [assignedRevision, added]

theorem assignedRevision_eq_iff (current index : Nat) :
    assignedRevision current index = .integer (current + (index + 1) : Nat) ↔
      current + (index + 1) ≤ i64Max := by
  have offset : inI64 (index + 1) = decide (index + 1 ≤ i64Max) := by
    rw [← inI64_natCast]
    push_cast
    rfl
  have sum : inI64 (current + (index + 1)) = decide (current + (index + 1) ≤ i64Max) := by
    rw [← inI64_natCast]
    push_cast
    rfl
  rw [assignedRevision, toHranaArg_integer, offset]
  by_cases small : index + 1 ≤ i64Max
  · rw [decide_eq_true small, if_pos rfl, sqliteAdd, sum]
    by_cases room : current + (index + 1) ≤ i64Max <;> simp [room]
  · have full : ¬ current + (index + 1) ≤ i64Max := by omega
    rw [decide_eq_false small, if_neg Bool.false_ne_true, sqliteAdd]
    simp [full]

theorem boundStatement_project (server : Bool) (table : String) (expected : ExpectedRevision)
    (rows : List AppendEventRow) (current index : Nat) (row : AppendEventRow) :
    (boundStatement table aggregateType aggregateId expected rows).project (sqliteServer server)
        (.integer current) (row.tuple index) =
      .ok (rowCells aggregateType aggregateId (assignedRevision current index) row) := by
  have sum := sqliteAdd_offset current index
  simp [Statement.project, boundStatement, boundOver, insertColumns, Term.eval, List.lookup_cons,
    AppendEventRow.tuple, AppendEventRow.sqliteParams, sqliteServer, rowCells, bind, Except.bind,
    sum]
  rfl

/-- The batch as the statement inserts it. -/
def assignedRows (aggregateType aggregateId : String) (current : Nat)
    (rows : List AppendEventRow) : List Row :=
  rows.zipIdx.map (fun entry =>
    rowCells aggregateType aggregateId (assignedRevision current entry.2) entry.1)

theorem boundStatement_run (records : List EventRecord)
    (table aggregateType aggregateId : String) (expected : ExpectedRevision)
    (rows : List AppendEventRow) :
    (boundStatement table aggregateType aggregateId expected rows).run (sqliteServer true)
        eventsSchema (records.map EventRecord.cells) =
      if sqliteAdmits expected (currentRevisionOf records aggregateType aggregateId) = true then
        (assignedRows aggregateType aggregateId
          (currentRevisionOf records aggregateType aggregateId) rows).foldlM eventsSchema.insert
            (records.map EventRecord.cells)
      else .ok (records.map EventRecord.cells) := by
  generalize same : currentRevisionOf records aggregateType aggregateId = current
  have guarded := boundStatement_guardRow records table aggregateType aggregateId
    expected rows
  rw [same] at guarded
  have tuples : (boundStatement table aggregateType aggregateId expected rows).source.tuples
      (sqliteServer true) = .ok (batchTuples rows 0) := tuples_literal _ _
  have projected : (batchTuples rows 0).mapM
      ((boundStatement table aggregateType aggregateId expected rows).project (sqliteServer true)
        (.integer current)) = .ok (assignedRows aggregateType aggregateId current rows) := by
    rw [batchTuples, List.mapM_map]
    exact mapM_ok _ (fun entry _ => boundStatement_project true table expected rows current
      entry.2 entry.1)
  rw [Statement.run, guarded]
  by_cases admitted : sqliteAdmits expected current = true
  · rw [if_pos admitted, if_pos admitted]
    show ((boundStatement table aggregateType aggregateId expected rows).source.tuples
      (sqliteServer true) >>= _) = _
    rw [tuples]
    show ((batchTuples rows 0).mapM ((boundStatement table aggregateType aggregateId expected
      rows).project (sqliteServer true) (.integer current)) >>= _) = _
    rw [projected]
    rfl
  · rw [if_neg admitted, if_neg admitted]
    rfl

end Run

/-- The batch under the revisions that follow the current one. -/
def batchRows (aggregateType aggregateId : String) (current : Nat) (rows : List AppendEventRow) :
    List Row :=
  rows.zipIdx.map (fun entry =>
    rowCells aggregateType aggregateId (.integer (current + (entry.2 + 1) : Nat)) entry.1)

/-- Event ids that are new and distinct, and no JSON `null` where a column is required. -/
structure Storable (records : List EventRecord) (rows : List AppendEventRow) : Prop where
  distinct : (rows.map AppendEventRow.eventId).Nodup
  fresh : ∀ row ∈ rows, ∀ record ∈ records, record.eventId ≠ row.eventId
  required : ∀ row ∈ rows, row.payload ≠ .null ∧ row.metadata ≠ .null

theorem sameKey_eventId {row other : Row} {id otherId : String}
    (here : cell row "event_id" = .text id) (there : cell other "event_id" = .text otherId) :
    sameKey ["event_id"] row other = decide (id = otherId) := by
  simp [sameKey, here, there, Value.equal]

theorem sameKey_revision {row other : Row} {revision otherRevision : Nat}
    (here : cell row "revision" = .integer revision)
    (there : cell other "revision" = .integer otherRevision) (differ : revision ≠ otherRevision) :
    sameKey ["aggregate_type", "aggregate_id", "revision"] row other = false := by
  have apart : (cell row "revision").equal (cell other "revision") = some false := by
    rw [here, there, Value.equal]
    simp only [Int.natCast_inj, differ, decide_false]
  simp [sameKey, apart]

variable {aggregateType aggregateId : String} {records : List EventRecord}

theorem le_currentRevisionOf (member : record ∈ streamRecords records aggregateType aggregateId) :
    record.revision ≤ currentRevisionOf records aggregateType aggregateId := by
  unfold currentRevisionOf
  rw [List.foldl_map]
  exact (le_foldl_max EventRecord.revision _ 0).2 record member

/-- The next revisions of a stream are taken by no stored row. -/
theorem sameKey_record (aggregateType aggregateId : String) (stored : record ∈ records)
    (row : AppendEventRow) (index : Nat) :
    sameKey ["aggregate_type", "aggregate_id", "revision"]
      (rowCells aggregateType aggregateId (.integer
        (currentRevisionOf records aggregateType aggregateId + (index + 1) : Nat)) row)
      record.cells = false := by
  by_cases stream : record.aggregateType = aggregateType ∧ record.aggregateId = aggregateId
  · have bounded : record.revision ≤ currentRevisionOf records aggregateType aggregateId :=
      le_currentRevisionOf (List.mem_filter.mpr ⟨stored, decide_eq_true stream⟩)
    apply sameKey_revision rfl rfl
    omega
  · rw [Bool.eq_false_iff]
    intro taken
    apply stream
    simp only [sameKey, List.all_cons, Bool.and_eq_true, decide_eq_true_eq] at taken
    obtain ⟨type, id, _⟩ := taken
    have sameType : some (decide (aggregateType = record.aggregateType)) = some true := type
    have sameId : some (decide (aggregateId = record.aggregateId)) = some true := id
    simp only [Option.some.injEq, decide_eq_true_eq] at sameType sameId
    exact ⟨sameType.symm, sameId.symm⟩

theorem toHranaArg_ne_null {value : JsonValue} : toHranaArg value ≠ .null ↔ value ≠ .null := by
  cases value with
  | null => simp [toHranaArg]
  | integer n =>
    rw [toHranaArg_integer]
    split <;> simp
  | bool _ | float _ | string _ | compound _ => simp [toHranaArg]

/-- One row against the table. -/
theorem fits_iff (row : AppendEventRow) (index : Nat) :
    eventsSchema.Fits (records.map EventRecord.cells) (rowCells aggregateType aggregateId (.integer
        (currentRevisionOf records aggregateType aggregateId + (index + 1) : Nat)) row) ↔
      (∀ record ∈ records, record.eventId ≠ row.eventId) ∧
        row.payload ≠ .null ∧ row.metadata ≠ .null := by
  have number : ∀ n : Int, toHranaArg (.integer n) ≠ .null :=
    fun n => (toHranaArg_ne_null).mpr (by simp)
  have next := fun record (stored : record ∈ records) =>
    sameKey_record aggregateType aggregateId stored row index
  constructor
  · rintro ⟨filled, free⟩
    refine ⟨?_, ?_, ?_⟩
    · intro record stored same
      have taken := free ["event_id"] (by decide) record.cells (List.mem_map_of_mem stored)
      rw [sameKey_eventId rfl rfl, same] at taken
      simp at taken
    · exact (toHranaArg_ne_null).mp (filled "payload" (by decide))
    · exact (toHranaArg_ne_null).mp (filled "metadata" (by decide))
  · rintro ⟨fresh, payload, metadata⟩
    have text : ∀ s : String, Value.text s ≠ .null := by simp
    have integer : ∀ n : Int, Value.integer n ≠ .null := by simp
    constructor
    · simp only [eventsSchema, insertColumns, List.forall_mem_cons]
      exact ⟨text _, text _, text _, integer _, text _, number _,
        (toHranaArg_ne_null).mpr payload, (toHranaArg_ne_null).mpr metadata,
        number _, fun _ none => by cases none⟩
    · simp only [eventsSchema, List.forall_mem_cons]
      refine ⟨?_, ?_, fun _ none => by cases none⟩
      · intro other member
        obtain ⟨record, stored, rfl⟩ := List.mem_map.mp member
        rw [sameKey_eventId rfl rfl, decide_eq_false_iff_not]
        exact fun same => fresh record stored same.symm
      · intro other member
        obtain ⟨record, stored, rfl⟩ := List.mem_map.mp member
        exact next record stored

/-- The constraints let the batch in exactly when it is storable. -/
theorem batchRows_stored_iff {after : List Row} :
    (batchRows aggregateType aggregateId
        (currentRevisionOf records aggregateType aggregateId) rows).foldlM eventsSchema.insert
          (records.map EventRecord.cells) = .ok after ↔
      Storable records rows ∧ after = records.map EventRecord.cells ++ batchRows aggregateType
        aggregateId (currentRevisionOf records aggregateType aggregateId) rows := by
  have apart : ∀ first second : AppendEventRow × Nat, first.2 ≠ second.2 → ∀ current : Nat,
      ((∀ key ∈ eventsSchema.unique, sameKey key
        (rowCells aggregateType aggregateId (.integer (current + (second.2 + 1) : Nat)) second.1)
        (rowCells aggregateType aggregateId (.integer (current + (first.2 + 1) : Nat)) first.1) =
          false) ↔ first.1.eventId ≠ second.1.eventId) := by
    intro first second differ current
    simp only [eventsSchema, List.forall_mem_cons]
    rw [sameKey_eventId rfl rfl, decide_eq_false_iff_not]
    constructor
    · rintro ⟨ids, _⟩ same
      exact ids same.symm
    · intro ids
      exact ⟨fun same => ids same.symm, sameKey_revision rfl rfl (by omega),
        fun _ none => by cases none⟩
  have indices : rows.zipIdx.Pairwise (fun first second => first.2 ≠ second.2) := by
    have range : (rows.zipIdx.map Prod.snd).Nodup := by
      rw [List.zipIdx_map_snd]
      exact List.nodup_range' _
    exact List.pairwise_map.mp range
  have ids : (rows.map AppendEventRow.eventId).Nodup ↔
      rows.zipIdx.Pairwise (fun first second => first.1.eventId ≠ second.1.eventId) := by
    have both : rows.map AppendEventRow.eventId = rows.zipIdx.map (fun entry => entry.1.eventId) := by
      rw [← List.zipIdx_map_fst 0 rows, List.map_map, List.zipIdx_map_fst]
      rfl
    rw [both]
    exact List.pairwise_map
  have numbered : ∀ row ∈ rows, ∃ index, (row, index) ∈ rows.zipIdx := by
    intro row member
    rw [← List.zipIdx_map_fst 0 rows] at member
    obtain ⟨entry, listed, rfl⟩ := List.mem_map.mp member
    exact ⟨entry.2, listed⟩
  rw [insertAll_ok_iff, batchRows, List.forall_mem_map, List.pairwise_map]
  constructor
  · rintro ⟨each, pairs, rfl⟩
    refine ⟨⟨?_, ?_, ?_⟩, rfl⟩
    · exact ids.mpr ((indices.and pairs).imp
        (fun {first second} both => (apart first second both.1 _).mp both.2))
    · intro row member
      obtain ⟨index, listed⟩ := numbered row member
      exact ((fits_iff row index).mp (each _ listed)).1
    · intro row member
      obtain ⟨index, listed⟩ := numbered row member
      exact ((fits_iff row index).mp (each _ listed)).2
  · rintro ⟨storable, rfl⟩
    refine ⟨?_, ?_, rfl⟩
    · intro entry listed
      have member : entry.1 ∈ rows := List.fst_mem_of_mem_zipIdx listed
      exact (fits_iff entry.1 entry.2).mpr
        ⟨storable.fresh entry.1 member, storable.required entry.1 member⟩
    · exact (indices.and (ids.mp storable.distinct)).imp
        (fun {first second} both => (apart first second both.1 _).mpr both.2)

def postgresGuard (mode revision : Value) : Condition :=
  .either (.either (.equal (.literal mode) (.literal (.integer 0)))
      (.both (.equal (.literal mode) (.literal (.integer 1)))
        (.equal (.column "current_rev") (.literal (.integer 0)))))
    (.both (.equal (.literal mode) (.literal (.integer 2)))
      (.equal (.column "current_rev") (.literal revision)))

theorem postgresGuard_eval (server : Server) (expected : ExpectedRevision) (current : Nat) :
    ∃ truth, (postgresGuard (.integer (guardMode expected).1)
        (.integer (guardMode expected).2)).eval server [("current_rev", .integer current)] =
          .ok (some truth) ∧ (truth = true ↔ expected.Admits current) := by
  refine ⟨decide ((guardMode expected).1 = 0) ||
    (decide ((guardMode expected).1 = 1) && decide ((current : Int) = 0)) ||
    (decide ((guardMode expected).1 = 2) && decide ((current : Int) = (guardMode expected).2)),
    ?_, ?_⟩
  · rw [← either_some, ← either_some, ← both_some, ← both_some]
    rfl
  · cases expected with
    | any => simp [guardMode, guardAny, ExpectedRevision.Admits]
    | noStream => simp [guardMode, guardNostream, ExpectedRevision.Admits]
    | exact revision =>
      have apart : guardExact ≠ 0 ∧ guardExact ≠ 1 := by decide
      simp only [guardMode, apart, decide_false, Bool.false_and, Bool.false_or]
      simp only [Bool.and_eq_true, decide_eq_true_eq, Int.natCast_inj, ExpectedRevision.Admits]
      exact ⟨fun both => both.2.symm, fun same => ⟨rfl, same.symm⟩⟩

/-- The numbered parameters fall where they are meant to; an expected revision that is no
`bigint` fails the statement. -/
theorem postgres_bound {table : String}
    (built : buildPostgresAppendStatement table aggregateType aggregateId expected rows =
      .ok (statement, params)) :
    if (guardMode expected).2 ≤ i64Max then
      ∃ bound, statement.bindGuardNumbered postgresConvert postgresTypes params = .ok bound ∧
        bound.slice = boundSlice aggregateType aggregateId ∧ bound.maximum = "revision" ∧
        bound.current = "current_rev" ∧ bound.guard = postgresGuard
          (.integer (guardMode expected).1) (.integer (guardMode expected).2) ∧
        bound.admittedBy postgresServer = true
    else statement.bindGuardNumbered postgresConvert postgresTypes params = .error .outOfRange := by
  obtain ⟨_, _, built⟩ := ok_of_bind built
  split at built
  · cases built
  · injection built with built
    injection built with statementIs paramsIs
    subst statementIs
    have first : scalarParam postgresConvert postgresTypes params 1 = .ok (.text aggregateType) := by
      rw [← paramsIs]
      rfl
    have second : scalarParam postgresConvert postgresTypes params 2 = .ok (.text aggregateId) := by
      rw [← paramsIs]
      rfl
    have third : scalarParam postgresConvert postgresTypes params 3 =
        .ok (.integer (guardMode expected).1) := by
      rw [← paramsIs]
      cases expected <;> rfl
    have fourth : scalarParam postgresConvert postgresTypes params 4 =
        if inI64 (guardMode expected).2 = true then .ok (.integer (guardMode expected).2)
        else .error .outOfRange := by
      rw [← paramsIs]
      rfl
    simp only [Statement.bindGuardNumbered, Condition.bindNumbered, Term.bindNumbered, first,
      second, third, fourth, inI64_natCast]
    split
    · rename_i fits
      simp only [fits, decide_true, if_true]
      exact ⟨_, rfl, rfl, rfl, rfl, rfl, rfl⟩
    · rename_i large
      simp only [large, decide_false, Bool.false_eq_true, if_false]
      rfl

/-- What the Postgres guard lets pass is what the rule admits. -/
theorem postgres_guardRow (records : List EventRecord) {table : String}
    (built : buildPostgresAppendStatement table aggregateType aggregateId expected rows =
      .ok (statement, params)) :
    (∃ current, (do
        let bound ← statement.bindGuardNumbered postgresConvert postgresTypes params
        bound.guardRow postgresServer (records.map EventRecord.cells)) = .ok (some current)) ↔
      expected.Admits (currentRevisionOf records aggregateType aggregateId) := by
  have bound := postgres_bound built
  split at bound
  · obtain ⟨bound, binds, slice, maximum, named, guard, admitted⟩ := bound
    obtain ⟨truth, guarded, admits⟩ := postgresGuard_eval postgresServer expected
      (currentRevisionOf records aggregateType aggregateId)
    rw [← guard, ← named] at guarded
    have row := guardRow_ok postgresServer admitted (slice ▸ boundSlice_select postgresServer)
      (maximum ▸ largest_revision records aggregateType aggregateId) guarded
    rw [binds, ← admits]
    show (∃ current, bound.guardRow postgresServer _ = _) ↔ _
    rw [row]
    cases truth <;> simp
  · rename_i large
    have small := currentRevisionOf_le records aggregateType aggregateId
    rw [bound]
    constructor
    · rintro ⟨current, passed⟩
      cases passed
    · intro admitted
      cases expected with
      | any => exact absurd (Nat.zero_le _) large
      | noStream => exact absurd (Nat.zero_le _) large
      | exact revision =>
        have same : revision = currentRevisionOf records aggregateType aggregateId := admitted
        exact absurd (same ▸ small) large

/-- The table after a SQLite append: a statement that fails leaves it alone. -/
def sqliteAfter (derivedColumns : Bool) (table : List Row) (append : Statement × List JsonValue) :
    List Row :=
  match executeSqlite derivedColumns table append.1 append.2 with
  | .ok after => after
  | .error _ => table

/-- The statement's guard has a row. -/
def sqliteAccepts (derivedColumns : Bool) (table : List Row) (append : Statement × List JsonValue) :
    Prop :=
  ∃ current, (append.1.bindNext (append.2.map toHranaArg)).1.guardRow
    (sqliteServer derivedColumns) table = .ok (some current)

def postgresAccepts (table : List Row) (append : Statement × List (Param JsonValue)) : Prop :=
  ∃ current, (do
    let bound ← append.1.bindGuardNumbered postgresConvert postgresTypes append.2
    bound.guardRow postgresServer table) = .ok (some current)

/-- The batch is inserted under the next revisions exactly when the expected revision is met,
nothing is inserted otherwise, and the guard passes what the Postgres guard passes. -/
def KeepsRevisionRule (derivedColumns : Bool) (records : List EventRecord)
    (aggregateType aggregateId : String) (expected : ExpectedRevision) (rows : List AppendEventRow)
    (sqlite : Statement × List JsonValue) (postgres : Statement × List (Param JsonValue)) : Prop :=
  let table := records.map EventRecord.cells
  let current := currentRevisionOf records aggregateType aggregateId
  sqliteAfter derivedColumns table sqlite =
      (match checkExpectedRevision expected current with
      | .ok _ => table ++ batchRows aggregateType aggregateId current rows
      | .error _ => table) ∧
    (sqliteAccepts derivedColumns table sqlite ↔ postgresAccepts table postgres)

theorem assignedRows_eq_iff (some_row : rows ≠ []) :
    assignedRows aggregateType aggregateId current rows =
        batchRows aggregateType aggregateId current rows ↔
      current + rows.length ≤ i64Max := by
  have cells : ∀ entry ∈ rows.zipIdx, rowCells aggregateType aggregateId
      (assignedRevision current entry.2) entry.1 = rowCells aggregateType aggregateId
        (.integer (current + (entry.2 + 1) : Nat)) entry.1 ↔
      current + (entry.2 + 1) ≤ i64Max := by
    intro entry _
    rw [← assignedRevision_eq_iff]
    simp [rowCells]
  rw [assignedRows, batchRows, List.map_inj_left]
  constructor
  · intro same
    have positive : 0 < rows.length := List.length_pos_iff.mpr some_row
    have last : (rows[rows.length - 1], rows.length - 1) ∈ rows.zipIdx := by
      rw [List.mem_zipIdx_iff_getElem?]
      exact List.getElem?_eq_getElem (by omega)
    have room := (cells _ last).mp (same _ last)
    simp only at room
    omega
  · intro room entry listed
    have inside := List.snd_lt_of_mem_zipIdx listed
    exact (cells entry listed).mpr (by omega)

variable {table : String} {sqlite : Statement × List JsonValue}
  {postgres : Statement × List (Param JsonValue)}

theorem sqliteAccepts_iff (derivedColumns : Bool) (records : List EventRecord)
    (built : buildSqliteAppendStatement table aggregateType aggregateId expected rows = .ok sqlite) :
    sqliteAccepts derivedColumns (records.map EventRecord.cells) sqlite ↔
      derivedColumns = true ∧
        sqliteAdmits expected (currentRevisionOf records aggregateType aggregateId) = true := by
  obtain ⟨_, bound⟩ := sqlite_bound built
  unfold sqliteAccepts
  rw [bound]
  cases derivedColumns with
  | false =>
    simp only [Bool.false_eq_true, false_and, iff_false]
    rintro ⟨current, passed⟩
    cases passed
  | true =>
    rw [boundStatement_guardRow]
    cases sqliteAdmits expected (currentRevisionOf records aggregateType aggregateId) <;> simp

/-- A server that cannot parse the statement inserts nothing. -/
theorem sqliteAfter_unparsed
    (built : buildSqliteAppendStatement table aggregateType aggregateId expected rows = .ok sqlite) :
    sqliteAfter false (records.map EventRecord.cells) sqlite = records.map EventRecord.cells := by
  rw [sqliteAfter, executeSqlite, (sqlite_bound built).2]
  rfl

/-- Where derived columns may be named, the statement is the guard, then the insert. -/
theorem sqliteAfter_eq
    (built : buildSqliteAppendStatement table aggregateType aggregateId expected rows = .ok sqlite) :
    sqliteAfter true (records.map EventRecord.cells) sqlite =
      if sqliteAdmits expected (currentRevisionOf records aggregateType aggregateId) = true then
        match (assignedRows aggregateType aggregateId
            (currentRevisionOf records aggregateType aggregateId) rows).foldlM eventsSchema.insert
              (records.map EventRecord.cells) with
        | .ok after => after
        | .error _ => records.map EventRecord.cells
      else records.map EventRecord.cells := by
  obtain ⟨_, bound⟩ := sqlite_bound built
  rw [sqliteAfter, executeSqlite, bound, boundStatement_run]
  by_cases admitted : sqliteAdmits expected
      (currentRevisionOf records aggregateType aggregateId) = true
  · rw [if_pos admitted, if_pos admitted]
  · rw [if_neg admitted, if_neg admitted]

theorem batchRows_ne_nil (some_row : rows ≠ []) :
    batchRows aggregateType aggregateId current rows ≠ [] := by
  unfold batchRows
  simp [some_row]

theorem sqliteAfter_batch_iff
    (built : buildSqliteAppendStatement table aggregateType aggregateId expected rows = .ok sqlite)
    (admitted : sqliteAdmits expected (currentRevisionOf records aggregateType aggregateId) = true) :
    sqliteAfter true (records.map EventRecord.cells) sqlite =
        records.map EventRecord.cells ++ batchRows aggregateType aggregateId
          (currentRevisionOf records aggregateType aggregateId) rows ↔
      currentRevisionOf records aggregateType aggregateId + rows.length ≤ i64Max ∧
        Storable records rows := by
  have some_row := (sqlite_bound built).1
  rw [sqliteAfter_eq built, if_pos admitted]
  constructor
  · intro grown
    split at grown
    · rename_i after stored
      obtain ⟨_, _, whole⟩ := insertAll_ok_iff.mp stored
      rw [whole, List.append_cancel_left_eq] at grown
      rw [grown] at stored
      exact ⟨(assignedRows_eq_iff some_row).mp grown, ((batchRows_stored_iff).mp stored).1⟩
    · have none := List.append_right_eq_self.mp grown.symm
      exact absurd none (batchRows_ne_nil some_row)
  · rintro ⟨room, storable⟩
    rw [(assignedRows_eq_iff some_row).mpr room, (batchRows_stored_iff).mpr ⟨storable, rfl⟩]

/-- The rule is kept exactly when an admitted batch can be stored at all, and no exact revision
other than 0 is expected of an empty stream of a server that reads the statement. -/
theorem keepsRevisionRule_iff (derivedColumns : Bool) (records : List EventRecord)
    (sqliteBuilt : buildSqliteAppendStatement table aggregateType aggregateId expected rows =
      .ok sqlite)
    (postgresBuilt : buildPostgresAppendStatement table aggregateType aggregateId expected rows =
      .ok postgres) :
    KeepsRevisionRule derivedColumns records aggregateType aggregateId expected rows sqlite
        postgres ↔
      (expected.Admits (currentRevisionOf records aggregateType aggregateId) →
        derivedColumns = true ∧
          currentRevisionOf records aggregateType aggregateId + rows.length ≤ i64Max ∧
          Storable records rows) ∧
      ¬ (derivedColumns = true ∧ currentRevisionOf records aggregateType aggregateId = 0 ∧
        ∃ revision, revision ≠ 0 ∧ expected = .exact revision) := by
  have accepts := sqliteAccepts_iff derivedColumns records sqliteBuilt
  have sibling := postgres_guardRow records postgresBuilt
  have lets := sqliteAdmits_iff expected (currentRevisionOf records aggregateType aggregateId)
  have checked := checkExpectedRevision_ok_iff expected
    (currentRevisionOf records aggregateType aggregateId)
  have some_row := (sqlite_bound sqliteBuilt).1
  unfold KeepsRevisionRule
  dsimp only
  by_cases admitted : expected.Admits (currentRevisionOf records aggregateType aggregateId)
  · have passes := lets.mpr (Or.inl admitted)
    have never : ¬ (derivedColumns = true ∧
        currentRevisionOf records aggregateType aggregateId = 0 ∧
          ∃ revision, revision ≠ 0 ∧ expected = .exact revision) := by
      rintro ⟨_, empty, revision, nonzero, rfl⟩
      exact nonzero (Eq.trans admitted empty)
    rw [checked.mpr admitted]
    cases derivedColumns with
    | false =>
      constructor
      · rintro ⟨inserted, _⟩
        rw [sqliteAfter_unparsed sqliteBuilt] at inserted
        have none := List.append_right_eq_self.mp (Eq.symm inserted)
        exact absurd none (batchRows_ne_nil some_row)
      · rintro ⟨needs, _⟩
        exact absurd (needs admitted).1 Bool.false_ne_true
    | true =>
      constructor
      · rintro ⟨inserted, _⟩
        exact ⟨fun _ => ⟨rfl, (sqliteAfter_batch_iff sqliteBuilt passes).mp inserted⟩, never⟩
      · rintro ⟨needs, _⟩
        exact ⟨(sqliteAfter_batch_iff sqliteBuilt passes).mpr (needs admitted).2,
          fun _ => sibling.mpr admitted, fun _ => accepts.mpr ⟨rfl, passes⟩⟩
  · cases check : checkExpectedRevision expected
        (currentRevisionOf records aggregateType aggregateId) with
    | ok _ => exact absurd (checked.mp check) admitted
    | error error =>
      dsimp only
      constructor
      · rintro ⟨_, agree⟩
        refine ⟨fun met => absurd met admitted, ?_⟩
        rintro ⟨named, empty, revision, _, same⟩
        have passed := accepts.mpr ⟨named, lets.mpr (Or.inr ⟨empty, revision, same⟩)⟩
        exact admitted (sibling.mp (agree.mp passed))
      · rintro ⟨_, never⟩
        have rejected : ¬ (derivedColumns = true ∧ sqliteAdmits expected
            (currentRevisionOf records aggregateType aggregateId) = true) := by
          rintro ⟨named, passes⟩
          rcases lets.mp passes with met | ⟨empty, revision, same⟩
          · exact admitted met
          · refine never ⟨named, empty, revision, ?_, same⟩
            rintro rfl
            apply admitted
            rw [same]
            exact empty.symm
        refine ⟨?_, fun passed => absurd (accepts.mp passed) rejected,
          fun passed => absurd (sibling.mp passed) admitted⟩
        cases derivedColumns with
        | false => exact sqliteAfter_unparsed sqliteBuilt
        | true => rw [sqliteAfter_eq sqliteBuilt, if_neg (fun passes => rejected ⟨rfl, passes⟩)]

/-- SQLite's grammar has no column names behind the alias of a derived table, so its servers
reject the statement: the rule is kept exactly where the expected revision is not met. A server
that read the statement would keep the rule where an admitted batch can be stored, but for an
exact revision other than 0 that is expected of an empty stream. -/
theorem guardedAppend_iff (records : List EventRecord)
    (sqliteBuilt : buildSqliteAppendStatement table aggregateType aggregateId expected rows =
      .ok sqlite)
    (postgresBuilt : buildPostgresAppendStatement table aggregateType aggregateId expected rows =
      .ok postgres) :
    (KeepsRevisionRule false records aggregateType aggregateId expected rows sqlite postgres ↔
      ¬ expected.Admits (currentRevisionOf records aggregateType aggregateId)) ∧
    (KeepsRevisionRule true records aggregateType aggregateId expected rows sqlite postgres ↔
      (expected.Admits (currentRevisionOf records aggregateType aggregateId) →
        currentRevisionOf records aggregateType aggregateId + rows.length ≤ i64Max ∧
          Storable records rows) ∧
      ¬ (currentRevisionOf records aggregateType aggregateId = 0 ∧
        ∃ revision, revision ≠ 0 ∧ expected = .exact revision)) := by
  constructor
  · rw [keepsRevisionRule_iff false records sqliteBuilt postgresBuilt]
    constructor
    · rintro ⟨needs, _⟩ admitted
      exact Bool.false_ne_true (needs admitted).1
    · intro rejected
      refine ⟨fun admitted => absurd admitted rejected, ?_⟩
      rintro ⟨named, _⟩
      exact Bool.false_ne_true named
  · rw [keepsRevisionRule_iff true records sqliteBuilt postgresBuilt]
    simp only [true_and]

/-- Opening an account, as both transports send it. -/
def openedRow : AppendEventRow :=
  ⟨"evt-1", "Opened", 1, .compound "[]", .compound "[]", 1700000000000⟩

/-- Two accounts, the second one with two events. -/
def openedAccounts : List EventRecord :=
  [⟨"evt-8", "a", "Account", 1, "Opened", 1, .text "[]", .text "[]", 1700000000000, by decide⟩,
    ⟨"evt-9", "b", "Account", 1, "Opened", 1, .text "[]", .text "[]", 1700000000000, by decide⟩,
    ⟨"evt-10", "b", "Account", 2, "Opened", 1, .text "[]", .text "[]", 1700000000000, by decide⟩]

/-- Revision 5 is expected of a stream at 2, and nothing is inserted; where 2 is expected, nothing
is inserted either, unless the server read the statement. -/
theorem guardedAppend_iff_opened :
    (∃ sqlite postgres,
      buildSqliteAppendStatement "events" "Account" "b" (.exact 5) [openedRow] = .ok sqlite ∧
      buildPostgresAppendStatement "events" "Account" "b" (.exact 5) [openedRow] = .ok postgres ∧
      KeepsRevisionRule false openedAccounts "Account" "b" (.exact 5) [openedRow] sqlite
        postgres) ∧
    ∃ sqlite postgres,
      buildSqliteAppendStatement "events" "Account" "b" (.exact 2) [openedRow] = .ok sqlite ∧
      buildPostgresAppendStatement "events" "Account" "b" (.exact 2) [openedRow] = .ok postgres ∧
      ¬ KeepsRevisionRule false openedAccounts "Account" "b" (.exact 2) [openedRow] sqlite
        postgres ∧
      KeepsRevisionRule true openedAccounts "Account" "b" (.exact 2) [openedRow] sqlite
        postgres := by
  have built : ∀ expected, ∃ sqlite postgres,
      buildSqliteAppendStatement "events" "Account" "b" expected [openedRow] = .ok sqlite ∧
      buildPostgresAppendStatement "events" "Account" "b" expected [openedRow] = .ok postgres :=
    fun expected => ⟨_, _, rfl, rfl⟩
  have second : currentRevisionOf openedAccounts "Account" "b" = 2 := rfl
  constructor
  · obtain ⟨sqlite, postgres, sqliteBuilt, postgresBuilt⟩ := built (.exact 5)
    refine ⟨sqlite, postgres, sqliteBuilt, postgresBuilt,
      (guardedAppend_iff openedAccounts sqliteBuilt postgresBuilt).1.mpr ?_⟩
    rw [second]
    decide
  · obtain ⟨sqlite, postgres, sqliteBuilt, postgresBuilt⟩ := built (.exact 2)
    have decided := guardedAppend_iff openedAccounts sqliteBuilt postgresBuilt
    rw [second] at decided
    have admitted : ExpectedRevision.Admits (.exact 2) 2 := rfl
    refine ⟨sqlite, postgres, sqliteBuilt, postgresBuilt,
      fun kept => decided.1.mp kept admitted, decided.2.mpr ⟨fun _ => ⟨by decide, ?_⟩, ?_⟩⟩
    · refine ⟨List.nodup_singleton _, ?_, ?_⟩
      · intro row member
        rw [List.mem_singleton.mp member]
        decide
      · intro row member
        rw [List.mem_singleton.mp member]
        exact ⟨by decide, by decide⟩
    · rintro ⟨empty, _⟩
      cases empty

/-- A stream that is to be opened is not there, and the row is not inserted: the statement is a
syntax error. -/
theorem newStream_rejected :
    ∃ sqlite postgres,
      buildSqliteAppendStatement "events" "Account" "a" .noStream [openedRow] = .ok sqlite ∧
      buildPostgresAppendStatement "events" "Account" "a" .noStream [openedRow] = .ok postgres ∧
      checkExpectedRevision .noStream (currentRevisionOf [] "Account" "a") = .ok () ∧
      executeSqlite false [] sqlite.1 sqlite.2 = .error (.unparsed "(") ∧
      sqliteAfter false [] sqlite = [] ∧
      ¬ KeepsRevisionRule false [] "Account" "a" .noStream [openedRow] sqlite postgres := by
  refine ⟨_, _, rfl, rfl, rfl, by decide +kernel, by decide +kernel, ?_⟩
  rintro ⟨inserted, _⟩
  revert inserted
  decide +kernel

/-- A server that read the statement would insert the row although revision 5 is expected of a
stream without events. -/
theorem emptyStream_accepts_exact :
    ∃ sqlite postgres,
      buildSqliteAppendStatement "events" "Account" "a" (.exact 5) [openedRow] = .ok sqlite ∧
      buildPostgresAppendStatement "events" "Account" "a" (.exact 5) [openedRow] = .ok postgres ∧
      sqliteAfter true [] sqlite = batchRows "Account" "a" 0 [openedRow] ∧
      ¬ KeepsRevisionRule true [] "Account" "a" (.exact 5) [openedRow] sqlite postgres := by
  refine ⟨_, _, rfl, rfl, by decide +kernel, ?_⟩
  rintro ⟨inserted, _⟩
  revert inserted
  decide +kernel

end DddCqrsEs
