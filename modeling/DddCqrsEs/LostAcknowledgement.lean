import DddCqrsEs.PooledWrite

/- What a caller of the pooled append can believe: the batch is never appended twice, and a
reported conflict is truthful unless the retry met the batch itself. -/
namespace DddCqrsEs

variable {A : Aggregate} {codec : RowCodec A}

/-- The batch is appended at most once, and a reported conflict means that none of it was. -/
structure Written.Truthful {α : Type} (written : Written α) : Prop where
  atMostOnce : written.commits.length ≤ 1
  conflict : ∀ error, written.result = .error error → error.isConcurrency = true →
    written.commits = []

@[simp] theorem ConnectionFailure.error_isConcurrency (failure : ConnectionFailure) :
    failure.error.isConcurrency = false := by
  cases failure <;> rfl

/-- The revision an attempt reads. -/
def AttemptEnv.readRevision (A : Aggregate) (keys : List String) (env : AttemptEnv)
    (table : EventsTable) : Nat :=
  maxRevisionForLookupKeys keys ((table.joined env.before).currentRevision A.aggregateType)

/-- The transaction of an attempt takes effect at the server if its connection lasts. -/
def Commits (dialect : SqlDialect) (keys : List String) (aggregateId : A.Id)
    (expectedRevision : ExpectedRevision) (prepared : List (PreparedEvent codec))
    (env : AttemptEnv) (table : EventsTable) (committed : EventStream A) (after : EventsTable) :
    Prop :=
  expectedRevision.Admits (env.readRevision A keys table) ∧ prepared ≠ [] ∧
    insertPreparedEvents dialect (table.joined env.before)
      ((table.joined env.before).joined env.between) aggregateId (keys.headD "")
      (env.readRevision A keys table) expectedRevision prepared = .ok (committed, after)

variable {dialect : SqlDialect} {read table after : EventsTable} {aggregateId : A.Id} {key : String}
  {actualRevision : Nat} {expectedRevision : ExpectedRevision}
  {prepared rest : List (PreparedEvent codec)} {fault : Option (FaultPoint × ConnectionFailure)}
  {written : Written (EventStream A)} {keys : List String} {env : AttemptEnv}
  {committed : EventStream A} {first : PreparedEvent codec}

theorem insertAttempt_commits
    (ran : insertAttempt dialect read table aggregateId key actualRevision expectedRevision prepared
      fault = written) :
    written.commits = [] ∨ ∃ committed rows, prepared ≠ [] ∧
      insertPreparedEvents dialect read table aggregateId key actualRevision expectedRevision
        prepared = .ok (committed, written.table) ∧
      written.commits = [rows] ∧
      (written.result = .ok committed ∨ ∃ failure, fault = some (.acknowledge, failure) ∧
        written.result = .error failure.error) := by
  subst ran
  rw [insertAttempt]
  split
  · exact .inl rfl
  · rename_i nonempty
    have some_events : prepared ≠ [] := by
      intro empty
      rw [empty] at nonempty
      exact nonempty rfl
    dsimp only
    split
    · exact .inl rfl
    · exact .inl rfl
    · rename_i committed after inserted
      exact .inr ⟨committed, _, some_events, inserted, rfl, .inl rfl⟩
    · rename_i failure committed after inserted
      exact .inr ⟨committed, _, some_events, inserted, rfl, .inr ⟨failure, rfl, rfl⟩⟩
    · exact .inl rfl

/-- A transaction of an attempt took effect only if the batch could be inserted, and then
the client got the batch or the failure of its acknowledgement. -/
theorem appendAttempt_commits
    (ran : appendAttempt dialect keys aggregateId expectedRevision prepared env table = written) :
    written.commits = [] ∨ ∃ committed rows,
      Commits dialect keys aggregateId expectedRevision prepared env table committed written.table ∧
      written.commits = [rows] ∧
      (written.result = .ok committed ∨ ∃ failure, env.fault = some (.acknowledge, failure) ∧
        written.result = .error failure.error) := by
  rw [appendAttempt] at ran
  split at ran
  · subst ran
    exact .inl rfl
  · dsimp only at ran
    split at ran
    · subst ran
      exact .inl rfl
    · rename_i checked
      rcases insertAttempt_commits ran with none | ⟨committed, rows, some_events, inserted, took, outcome⟩
      · exact .inl none
      · have admitted := (checkExpectedRevision_ok_iff _ _).mp checked
        exact .inr ⟨committed, rows, ⟨admitted, some_events, inserted⟩, took, outcome⟩

/-- With its acknowledgement lost, an insertable batch takes effect and the client gets the
failure. -/
theorem appendAttempt_lost {failure : ConnectionFailure}
    (lost : env.fault = some (.acknowledge, failure))
    (commits : Commits dialect keys aggregateId expectedRevision prepared env table committed
      after) :
    ∃ rows, appendAttempt dialect keys aggregateId expectedRevision prepared env table =
      ⟨.error failure.error, after, [rows]⟩ := by
  obtain ⟨admitted, some_events, inserted⟩ := commits
  have checked := (checkExpectedRevision_ok_iff _ _).mpr admitted
  have nonempty : prepared.isEmpty = false := by
    cases prepared with
    | nil => exact absurd rfl some_events
    | cons _ _ => rfl
  rw [AttemptEnv.readRevision] at checked inserted
  refine ⟨after.rows.drop ((table.joined env.before).joined env.between).rows.length, ?_⟩
  rw [appendAttempt, lost]
  dsimp only
  rw [checked]
  dsimp only
  rw [insertAttempt, nonempty, inserted]
  rfl

namespace EventsTable

theorem mem_joined {table : EventsTable} {row : StoredEventRow} (others : List StoredEventRow)
    (member : row ∈ table.rows) : row ∈ (table.joined others).rows :=
  List.mem_append_left _ member

end EventsTable

/-- The rows of a non-empty batch start with the first event's, under the next revision. -/
theorem PreparedEvent.rows_cons {rows : List StoredEventRow}
    (fits : PreparedEvent.rows dialect key actualRevision (first :: rest) = .ok rows) :
    ∃ more, rows = first.row key (actualRevision + 1) :: more := by
  rw [PreparedEvent.rows] at fits
  split at fits
  · cases fits
  · split at fits
    · cases fits
    · cases later : PreparedEvent.rows dialect key (actualRevision + 1) rest with
      | error reason =>
        rw [later] at fits
        cases fits
      | ok more =>
        rw [later] at fits
        cases fits
        exact ⟨more, rfl⟩

/-- The first row of an inserted batch is in the table, under the batch's key and the next
revision. -/
theorem insertPreparedEvents_first
    (inserted : insertPreparedEvents dialect read table aggregateId key actualRevision
      expectedRevision (first :: rest) = .ok (committed, after)) :
    ∃ row ∈ after.rows, row.eventId = first.stamp.eventId ∧
      row.aggregateType = A.aggregateType ∧ row.aggregateId = key ∧
      row.revision = actualRevision + 1 := by
  rw [insertPreparedEvents] at inserted
  split at inserted
  · cases inserted
  · rename_i rows fits
    obtain ⟨more, same⟩ := PreparedEvent.rows_cons fits
    split at inserted
    · cases inserted
    · rename_i final written
      cases inserted
      have grown := EventsTable.insertAll_ok written
      subst grown
      subst same
      refine ⟨{ first.row key (actualRevision + 1) with sequence := table.lastSequence + 1 }, ?_,
        rfl, rfl, rfl, rfl⟩
      exact List.mem_append_right _ (List.mem_cons_self ..)

/-- A batch whose first event is in the table already is refused, and not as a conflict. -/
theorem insertPreparedEvents_duplicate
    (present : ∃ row ∈ table.rows, row.eventId = first.stamp.eventId) :
    ∃ error, insertPreparedEvents dialect read table aggregateId key actualRevision
      expectedRevision (first :: rest) = .error error ∧ error.isConcurrency = false := by
  rw [insertPreparedEvents]
  cases fits : PreparedEvent.rows dialect key actualRevision (first :: rest) with
  | error error => exact ⟨error, rfl, PreparedEvent.rows_error fits⟩
  | ok rows =>
    obtain ⟨more, same⟩ := PreparedEvent.rows_cons fits
    subst same
    have duplicate : table.insert (first.row key (actualRevision + 1)) = .error .eventId := by
      rw [EventsTable.insert, if_pos]
      obtain ⟨row, member, sameId⟩ := present
      exact List.any_eq_true.mpr ⟨row, member, by simp [sameId, PreparedEvent.row]⟩
    have refused : table.insertAll (first.row key (actualRevision + 1) :: more) = .error .eventId := by
      rw [EventsTable.insertAll, List.foldlM_cons, duplicate]
      rfl
    dsimp only
    rw [refused]
    exact ⟨_, rfl, by cases dialect <;> rfl⟩

/-- A conflict reported after the check comes from the insert. -/
theorem insertAttempt_conflict {error : EventStoreError}
    (failed : (insertAttempt dialect read table aggregateId key actualRevision expectedRevision
      prepared fault).result = .error error) (conflict : error.isConcurrency = true) :
    prepared ≠ [] ∧ insertPreparedEvents dialect read table aggregateId key actualRevision
      expectedRevision prepared = .error error := by
  have noFailure : ∀ failure : ConnectionFailure, error ≠ failure.error := by
    rintro failure rfl
    rw [ConnectionFailure.error_isConcurrency] at conflict
    cases conflict
  rw [insertAttempt] at failed
  split at failed
  · cases fault with
    | none => cases failed
    | some fault => exact absurd (Except.error.inj failed).symm (noFailure _)
  · rename_i nonempty
    have some_events : prepared ≠ [] := by
      intro empty
      rw [empty] at nonempty
      exact nonempty rfl
    refine ⟨some_events, ?_⟩
    dsimp only at failed
    split at failed
    · exact absurd (Except.error.inj failed).symm (noFailure _)
    · rename_i refused
      rw [refused, Except.error.inj failed]
    · cases failed
    · exact absurd (Except.error.inj failed).symm (noFailure _)
    · exact absurd (Except.error.inj failed).symm (noFailure _)

theorem ExpectedRevision.admits_unique {expected : ExpectedRevision} (demands : expected ≠ .any)
    {first second : Nat} (admitsFirst : expected.Admits first)
    (admitsSecond : expected.Admits second) : first = second := by
  cases expected with
  | any => exact absurd rfl demands
  | noStream =>
    have zero : first = 0 := admitsFirst
    have zeroAgain : second = 0 := admitsSecond
    omega
  | exact revision =>
    have same : revision = first := admitsFirst
    have sameAgain : revision = second := admitsSecond
    omega

section Retry

variable {again : AttemptEnv}

/-- The events of a committed attempt are in the table of the next one. -/
theorem Commits.present (commits : Commits dialect keys aggregateId expectedRevision prepared env
    table committed after) :
    ∃ first rest, prepared = first :: rest ∧ ∃ row ∈ after.rows,
      row.eventId = first.stamp.eventId ∧ row.aggregateType = A.aggregateType ∧
      row.aggregateId = keys.headD "" ∧ row.revision = env.readRevision A keys table + 1 := by
  obtain ⟨_, some_events, inserted⟩ := commits
  cases prepared with
  | nil => exact absurd rfl some_events
  | cons first rest => exact ⟨first, rest, rfl, insertPreparedEvents_first inserted⟩

variable (again) in
/-- A second attempt at a committed batch does not commit it again: the event ids are taken. -/
theorem Commits.once (commits : Commits dialect keys aggregateId expectedRevision prepared env
    table committed after) :
    (appendAttempt dialect keys aggregateId expectedRevision prepared again after).commits = [] := by
  obtain ⟨first, rest, batch, row, member, sameId, _⟩ := commits.present
  rcases appendAttempt_commits
    (rfl : appendAttempt dialect keys aggregateId expectedRevision prepared again after = _) with
    none | ⟨_, _, ⟨_, _, inserted⟩, _⟩
  · exact none
  · rw [batch] at inserted
    have present : ∃ row ∈ ((after.joined again.before).joined again.between).rows,
        row.eventId = first.stamp.eventId :=
      ⟨row, EventsTable.mem_joined _ (EventsTable.mem_joined _ member), sameId⟩
    obtain ⟨error, refused, _⟩ := insertPreparedEvents_duplicate present
    rw [refused] at inserted
    cases inserted

variable (again) in
/-- The next attempt reads a higher revision. -/
theorem Commits.raised (shape : KeyShape keys)
    (commits : Commits dialect keys aggregateId expectedRevision prepared env table committed
      after) : env.readRevision A keys table < again.readRevision A keys after := by
  obtain ⟨_, _, _, row, member, _, sameType, sameKey, revision⟩ := commits.present
  have above := EventsTable.le_currentRevision (EventsTable.mem_joined again.before member)
  have listed : keys.headD "" ∈ keys := by
    obtain ⟨current, rfl | ⟨legacy, _, rfl⟩⟩ := shape <;> simp
  have highest := le_maxRevisionForLookupKeys
    ((after.joined again.before).currentRevision A.aggregateType) listed
  rw [sameType, sameKey] at above
  rw [AttemptEnv.readRevision] at revision ⊢
  rw [AttemptEnv.readRevision]
  omega

variable (again) in
/-- The second attempt at a committed batch reports a conflict exactly when it reads the
revision and the caller asked for one. -/
theorem Commits.conflict_iff (shape : KeyShape keys)
    (commits : Commits dialect keys aggregateId expectedRevision prepared env table committed
      after) :
    (∃ error, (appendAttempt dialect keys aggregateId expectedRevision prepared again after).result =
        .error error ∧ error.isConcurrency = true) ↔
      expectedRevision ≠ .any ∧ ∀ failure, again.fault ≠ some (.beforeRead, failure) := by
  constructor
  · rintro ⟨error, failed, conflict⟩
    rw [appendAttempt] at failed
    split at failed
    · have same := Except.error.inj failed
      rw [← same, ConnectionFailure.error_isConcurrency] at conflict
      cases conflict
    · rename_i fault reads
      refine ⟨?_, reads⟩
      rintro rfl
      obtain ⟨_, inserted⟩ := insertAttempt_conflict failed conflict
      obtain ⟨first, rest, batch, row, member, sameId, _⟩ := commits.present
      rw [batch] at inserted
      have present : ∃ row ∈ ((after.joined again.before).joined again.between).rows,
          row.eventId = first.stamp.eventId :=
        ⟨row, EventsTable.mem_joined _ (EventsTable.mem_joined _ member), sameId⟩
      obtain ⟨other, refused, noConflict⟩ := insertPreparedEvents_duplicate present
      rw [refused] at inserted
      rw [← Except.error.inj inserted, noConflict] at conflict
      cases conflict
  · rintro ⟨demands, reads⟩
    have raised := commits.raised again shape
    cases checked : checkExpectedRevision expectedRevision (again.readRevision A keys after) with
    | ok admitted =>
      have admits := (checkExpectedRevision_ok_iff _ _).mp checked
      have same := ExpectedRevision.admits_unique demands commits.1 admits
      omega
    | error error =>
      have conflict := (checkExpectedRevision_error checked).2
      refine ⟨error, ?_, conflict⟩
      rw [AttemptEnv.readRevision] at checked
      rw [appendAttempt]
      split
      · rename_i failure lost
        exact absurd lost (reads failure)
      · dsimp only
        rw [checked]

/-- The acknowledgement of a committed batch is lost, and the retry reads the revision it
raised: the pool hands out a connection, opens another, and the caller asked for a
revision. -/
structure ConflictAfterCommit (dialect : SqlDialect) (keys : List String) (aggregateId : A.Id)
    (expectedRevision : ExpectedRevision) (prepared : List (PreparedEvent codec)) (env : WriteEnv)
    (table : EventsTable) : Prop where
  acquired : env.acquire = none
  commits : ∃ committed after,
    Commits dialect keys aggregateId expectedRevision prepared env.first table committed after
  lost : ∃ failure, env.first.fault = some (.acknowledge, failure) ∧
    isTransportError failure.error = true
  reconnects : env.reconnects = true
  acquiredFresh : env.acquireFresh = none
  reads : ∀ failure, env.second.fault ≠ some (.beforeRead, failure)
  demands : expectedRevision ≠ .any

theorem Written.truthful_of_empty {α : Type} {written : Written α} (nothing : written.commits = []) :
    written.Truthful := by
  refine ⟨?_, fun _ _ _ => nothing⟩
  rw [nothing]
  exact Nat.zero_le 1

theorem appendAttempt_truthful :
    (appendAttempt dialect keys aggregateId expectedRevision prepared env table).Truthful := by
  rcases appendAttempt_commits
    (rfl : appendAttempt dialect keys aggregateId expectedRevision prepared env table = _) with
    nothing | ⟨committed, rows, _, one, outcome⟩
  · exact Written.truthful_of_empty nothing
  · refine ⟨by rw [one]; exact Nat.le_refl 1, ?_⟩
    intro error failed conflict
    rcases outcome with succeeded | ⟨failure, _, lost⟩
    · rw [succeeded] at failed
      cases failed
    · rw [lost] at failed
      rw [← Except.error.inj failed, ConnectionFailure.error_isConcurrency] at conflict
      cases conflict

variable (again) in
/-- A retry after a committed batch keeps the promise unless it reports a conflict. -/
theorem Commits.retry_truthful_iff (shape : KeyShape keys) (rows : List StoredEventRow)
    (commits : Commits dialect keys aggregateId expectedRevision prepared env table committed
      after) :
    let second := appendAttempt dialect keys aggregateId expectedRevision prepared again after
    { second with commits := [rows] ++ second.commits }.Truthful ↔
      ¬ (expectedRevision ≠ .any ∧ ∀ failure, again.fault ≠ some (.beforeRead, failure)) := by
  intro second
  have once : second.commits = [] := commits.once again
  rw [once, ← commits.conflict_iff again shape]
  constructor
  · rintro truthful ⟨error, failed, conflict⟩
    have nothing := truthful.conflict error failed conflict
    cases nothing
  · intro quiet
    refine ⟨Nat.le_refl 1, ?_⟩
    intro error failed conflict
    exact absurd ⟨error, failed, conflict⟩ quiet

theorem poolWrite_truthful_iff {writes : WriteEnv} (shape : KeyShape keys) :
    (poolWrite writes
        (appendAttempt dialect keys aggregateId expectedRevision prepared) table).Truthful ↔
      ¬ ConflictAfterCommit dialect keys aggregateId expectedRevision prepared writes table := by
  rw [poolWrite]
  split
  · rename_i failure unavailable
    refine iff_of_true (Written.truthful_of_empty rfl) ?_
    intro conflict
    rw [conflict.acquired] at unavailable
    cases unavailable
  · rename_i acquired
    dsimp only
    generalize ran : appendAttempt dialect keys aggregateId expectedRevision prepared writes.first
      table = first
    have firstTruthful : first.Truthful := ran ▸ appendAttempt_truthful
    -- under the condition the first attempt is a lost acknowledgement
    have lostFirst : ConflictAfterCommit dialect keys aggregateId expectedRevision prepared writes
        table → ∃ (failure : ConnectionFailure) (rows : List StoredEventRow) (after : EventsTable),
          first = ⟨.error failure.error, after, [rows]⟩ ∧
          isTransportError failure.error = true := by
      intro conflict
      obtain ⟨committed, after, commits⟩ := conflict.commits
      obtain ⟨failure, lost, transport⟩ := conflict.lost
      obtain ⟨rows, result⟩ := appendAttempt_lost lost commits
      exact ⟨failure, rows, after, ran.symm.trans result, transport⟩
    split
    · rename_i value succeeded
      refine iff_of_true firstTruthful ?_
      intro conflict
      obtain ⟨failure, rows, after, same, _⟩ := lostFirst conflict
      rw [same] at succeeded
      cases succeeded
    · rename_i error failed
      split
      · rename_i final
        refine iff_of_true firstTruthful ?_
        intro conflict
        obtain ⟨failure, rows, after, same, transport⟩ := lostFirst conflict
        rw [same] at failed
        rw [← Except.error.inj failed, transport, conflict.reconnects] at final
        rcases final with impossible | impossible <;> cases impossible
      · rename_i retried
        split
        · rename_i failure unavailable
          refine iff_of_true ⟨firstTruthful.atMostOnce, ?_⟩ ?_
          · intro other failedAgain conflict
            rw [← Except.error.inj failedAgain, ConnectionFailure.error_isConcurrency] at conflict
            cases conflict
          · intro conflict
            rw [conflict.acquiredFresh] at unavailable
            cases unavailable
        · rename_i acquiredFresh
          rcases appendAttempt_commits ran with nothing | ⟨committed, rows, commits, one, outcome⟩
          · -- nothing was committed: the second attempt decides alone
            refine iff_of_true ?_ ?_
            · rw [nothing]
              exact appendAttempt_truthful
            · intro conflict
              obtain ⟨_, _, _, same, _⟩ := lostFirst conflict
              rw [same] at nothing
              cases nothing
          · -- the batch is in the table: the second attempt decides what is reported
            rw [one]
            refine (commits.retry_truthful_iff writes.second shape rows).trans ?_
            refine not_congr ⟨?_, fun conflict => ⟨conflict.demands, conflict.reads⟩⟩
            rintro ⟨demands, reads⟩
            rcases outcome with succeeded | ⟨failure, lost, reported⟩
            · rw [succeeded] at failed
              cases failed
            · rw [reported] at failed
              have sameError := Except.error.inj failed
              refine ⟨acquired, ⟨committed, _, commits⟩, ⟨failure, lost, ?_⟩, ?_, acquiredFresh, reads,
                demands⟩
              · rw [sameError]
                cases transport : isTransportError error with
                | true => rfl
                | false => exact absurd (.inl transport) retried
              · cases reconnects : writes.reconnects with
                | true => rfl
                | false => exact absurd (.inr reconnects) retried

/-- Whatever happens to the connections, one of the two transactions takes effect at most. -/
theorem poolWrite_atMostOnce {writes : WriteEnv} :
    (poolWrite writes (appendAttempt dialect keys aggregateId expectedRevision prepared)
      table).commits.length ≤ 1 := by
  rw [poolWrite]
  split
  · exact Nat.zero_le 1
  · dsimp only
    generalize ran : appendAttempt dialect keys aggregateId expectedRevision prepared writes.first
      table = first
    have atMostOnce : first.commits.length ≤ 1 := ran ▸ appendAttempt_truthful.atMostOnce
    split
    · exact atMostOnce
    · split
      · exact atMostOnce
      · split
        · exact atMostOnce
        · rcases appendAttempt_commits ran with nothing | ⟨_, rows, commits, one, _⟩
          · rw [nothing]
            exact appendAttempt_truthful.atMostOnce
          · rw [one, commits.once writes.second]
            exact Nat.le_refl 1

end Retry

theorem pooledAppend_truthful_iff (store : SqlEventStore A) (env : WriteEnv) (table : EventsTable)
    (aggregateId : A.Id) (expectedRevision : ExpectedRevision)
    (events : List (NewEvent A.Event × Stamp)) :
    (pooledAppend store env table aggregateId expectedRevision events).Truthful ↔
      ¬ ∃ keys prepared, store.codec.aggregateIdLookupKeys aggregateId = .ok keys ∧
        events.mapM store.codec.prepare = .ok prepared ∧
        ConflictAfterCommit store.dialect keys aggregateId expectedRevision prepared env table := by
  rw [pooledAppend]
  cases lookup : store.codec.aggregateIdLookupKeys aggregateId with
  | error error =>
    refine iff_of_true (Written.truthful_of_empty rfl) ?_
    rintro ⟨_, _, impossible, _⟩
    cases impossible
  | ok keys =>
    cases readied : events.mapM store.codec.prepare with
    | error error =>
      refine iff_of_true (Written.truthful_of_empty rfl) ?_
      rintro ⟨_, _, _, impossible, _⟩
      cases impossible
    | ok prepared =>
      refine (poolWrite_truthful_iff (aggregateIdLookupKeys_shape lookup)).trans (not_congr ?_)
      constructor
      · intro conflict
        exact ⟨keys, prepared, rfl, rfl, conflict⟩
      · rintro ⟨_, _, same, sameBatch, conflict⟩
        cases same
        cases sameBatch
        exact conflict

/-- The commit of a new account is applied, its acknowledgement is lost, and the retry on a
fresh connection meets its own row. -/
def lostAcknowledgement : WriteEnv where
  acquire := none
  first := ⟨[], [], some (.acknowledge, .backend "connection closed" none)⟩
  reconnects := true
  acquireFresh := none
  second := ⟨[], [], none⟩

/-- The call reports that the stream exists, although it created the stream itself. -/
theorem lostAcknowledgement_conflict :
    let written := pooledAppend ⟨.postgres, accountCodec⟩ lostAcknowledgement .empty "a" .noStream
      [accountEvent "e1"]
    written.result = .error (.concurrency .streamAlreadyExists) ∧
      written.table.rows.map (·.eventId) = ["e1"] ∧ written.commits.length = 1 ∧
      ¬ written.Truthful := by
  intro written
  refine ⟨rfl, rfl, rfl, ?_⟩
  intro truthful
  have nothing := truthful.conflict (.concurrency .streamAlreadyExists) rfl rfl
  cases nothing

end DddCqrsEs
