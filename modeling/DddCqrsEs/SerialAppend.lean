import DddCqrsEs.LostAcknowledgement

/- The pooled append among other clients, with its retry, is an append in one piece: at some
moment between their commits, with the answer that the store gives then. -/
namespace DddCqrsEs

variable {A : Aggregate} {codec : RowCodec A}

theorem sequenced_append (next : Nat) (first second : List StoredEventRow) :
    sequenced next (first ++ second) =
      sequenced next first ++ sequenced (next + first.length) second := by
  induction first generalizing next with
  | nil => rfl
  | cons row first ih =>
    rw [List.cons_append, sequenced, ih, sequenced, List.cons_append, List.length_cons,
      Nat.add_right_comm, Nat.add_assoc]

/-- A row keeps its key and revision where it is given a sequence. -/
theorem sequenced_mem {row : StoredEventRow} {rows : List StoredEventRow} (next : Nat)
    (member : row ∈ rows) : ∃ sequence, { row with sequence } ∈ sequenced next rows := by
  induction rows generalizing next with
  | nil => cases member
  | cons first rest ih =>
    rw [sequenced]
    rcases List.mem_cons.mp member with rfl | later
    · exact ⟨next, List.mem_cons_self⟩
    · obtain ⟨sequence, found⟩ := ih (next + 1) later
      exact ⟨sequence, List.mem_cons_of_mem _ found⟩

theorem EventsTable.joined_append (table : EventsTable) (first second : List StoredEventRow) :
    table.joined (first ++ second) = (table.joined first).joined second := by
  have next : table.lastSequence + 1 + first.length = table.lastSequence + first.length + 1 :=
    Nat.add_right_comm _ _ _
  simp only [EventsTable.joined, sequenced_append, next, List.length_append, List.append_assoc,
    Nat.add_assoc]

variable {dialect : SqlDialect} {read table : EventsTable} {aggregateId : A.Id}
  {expectedRevision : ExpectedRevision} {prepared : List (PreparedEvent codec)}
  {done : EventStream A × EventsTable}

/-- What a transaction read matters to its error alone. -/
theorem insertPreparedEvents_read {key : String} {actualRevision : Nat}
    (inserted : insertPreparedEvents dialect read table aggregateId key actualRevision
      expectedRevision prepared = .ok done) (other : EventsTable) :
    insertPreparedEvents dialect other table aggregateId key actualRevision expectedRevision
      prepared = .ok done := by
  rw [insertPreparedEvents] at inserted ⊢
  split at inserted
  · cases inserted
  · split at inserted
    · cases inserted
    · exact inserted

/-- No batch goes in where the revision of its first event is taken. -/
theorem insertPreparedEvents_taken {key : String} {actualRevision : Nat}
    (some_events : prepared ≠ [])
    (taken : ∃ row ∈ table.rows, row.aggregateType = A.aggregateType ∧ row.aggregateId = key ∧
      row.revision = actualRevision + 1) (done : EventStream A × EventsTable) :
    insertPreparedEvents dialect read table aggregateId key actualRevision expectedRevision
      prepared ≠ .ok done := by
  intro inserted
  cases prepared with
  | nil => exact some_events rfl
  | cons first rest =>
    rw [insertPreparedEvents] at inserted
    split at inserted
    · cases inserted
    · rename_i rows fits
      obtain ⟨more, rfl⟩ := PreparedEvent.rows_cons fits
      split at inserted
      · cases inserted
      · rename_i final written
        rw [EventsTable.insertAll, List.foldlM_cons, EventsTable.insert] at written
        obtain ⟨row, member, sameType, sameKey, revision⟩ := taken
        split at written
        · cases written
        · rw [if_pos] at written
          · cases written
          · exact List.any_eq_true.mpr
              ⟨row, member, by simp [sameType, sameKey, revision, PreparedEvent.row]⟩

/-- Other clients number the stream: where they append to it behind an attempt's read, they take
the revision after the one that it read. -/
def AttemptEnv.Numbered (A : Aggregate) (keys : List String) (env : AttemptEnv)
    (table : EventsTable) : Prop :=
  maxRevisionForLookupKeys keys
      ((table.joined (env.before ++ env.between)).currentRevision A.aggregateType) =
    env.readRevision A keys table ∨
  ∃ row ∈ env.between, row.aggregateType = A.aggregateType ∧ row.aggregateId = keys.headD "" ∧
    row.revision = env.readRevision A keys table + 1

/-- The table is that of one append in one piece, with this answer, after some rows of the other
clients and before others. -/
def InOnePiece (append : EventsTable → Except EventStoreError (EventStream A × EventsTable))
    (others : List StoredEventRow) (table final : EventsTable) (answer : EventStream A) : Prop :=
  ∃ before later after, (before ++ later).Sublist others ∧
    append (table.joined before) = .ok (answer, after) ∧ final = after.joined later

/-- An answer is that of an append in one piece; an error leaves the other clients' rows alone,
or the append too where its acknowledgement was lost. -/
structure Written.Serial (append : EventsTable → Except EventStoreError (EventStream A × EventsTable))
    (others : List StoredEventRow) (lost : Prop) (table : EventsTable)
    (written : Written (EventStream A)) : Prop where
  answered : ∀ answer, written.result = .ok answer →
    InOnePiece append others table written.table answer
  failed : ∀ error, written.result = .error error →
    (∃ met : List StoredEventRow, met.Sublist others ∧ written.table = table.joined met) ∨
      lost ∧ ∃ answer, InOnePiece append others table written.table answer

section Serial

variable {append : EventsTable → Except EventStoreError (EventStream A × EventsTable)}
  {others more : List StoredEventRow} {final : EventsTable} {answer : EventStream A}

theorem InOnePiece.mono (piece : InOnePiece append others table final answer)
    (fewer : others.Sublist more) : InOnePiece append more table final answer := by
  obtain ⟨before, later, after, listed, rest⟩ := piece
  exact ⟨before, later, after, listed.trans fewer, rest⟩

variable {met : List StoredEventRow}

/-- Rows that were there before come first. -/
theorem InOnePiece.after (piece : InOnePiece append others (table.joined met) final answer)
    (fewer : met.Sublist more) : InOnePiece append (more ++ others) table final answer := by
  obtain ⟨before, later, after, listed, ran, left⟩ := piece
  refine ⟨met ++ before, later, after, ?_, ?_, left⟩
  · rw [List.append_assoc]
    exact fewer.append listed
  · rw [EventsTable.joined_append]
    exact ran

/-- Rows that come behind the append stay behind it. -/
theorem InOnePiece.joined (piece : InOnePiece append others table final answer)
    (fewer : met.Sublist more) :
    InOnePiece append (others ++ more) table (final.joined met) answer := by
  obtain ⟨before, later, after, listed, ran, rfl⟩ := piece
  refine ⟨before, later ++ met, after, ?_, ran, (EventsTable.joined_append after later met).symm⟩
  rw [← List.append_assoc]
  exact listed.append fewer

end Serial

section Attempts

variable {keys : List String} {env : AttemptEnv} {committed : EventStream A}
  {written : Written (EventStream A)}

/-- An attempt whose transaction takes effect is an append in one piece at that moment. -/
theorem Commits.once_there {after : EventsTable} (numbered : env.Numbered A keys table)
    (commits : Commits dialect keys aggregateId expectedRevision prepared env table committed
      after) :
    appendPreparedEventsOnce dialect (table.joined (env.before ++ env.between)) keys aggregateId
      expectedRevision prepared = .ok (committed, after) := by
  obtain ⟨admitted, some_events, inserted⟩ := commits
  rw [← EventsTable.joined_append] at inserted
  rcases numbered with same | ⟨row, member, sameType, sameKey, revision⟩
  · have nonempty : prepared.isEmpty = false := by
      cases prepared with
      | nil => exact absurd rfl some_events
      | cons _ _ => rfl
    rw [appendPreparedEventsOnce, same, (checkExpectedRevision_ok_iff _ _).mpr admitted]
    dsimp only
    rw [nonempty]
    exact insertPreparedEvents_read inserted _
  · apply absurd inserted
    apply insertPreparedEvents_taken some_events
    obtain ⟨sequence, found⟩ := sequenced_mem (table.lastSequence + 1)
      (List.mem_append_right env.before member)
    exact ⟨_, List.mem_append_right table.rows found, sameType, sameKey, revision⟩

theorem Commits.piece {after : EventsTable} (numbered : env.Numbered A keys table)
    (commits : Commits dialect keys aggregateId expectedRevision prepared env table committed
      after) :
    InOnePiece (appendPreparedEventsOnce dialect · keys aggregateId expectedRevision prepared)
      (env.before ++ env.between) table after committed :=
  ⟨env.before ++ env.between, [], after, by rw [List.append_nil], commits.once_there numbered,
    (EventsTable.joined_nil _).symm⟩

/-- A transaction that takes no effect leaves the table alone, and answers with no events where
it answers. -/
theorem insertAttempt_kept {read : EventsTable} {key : String} {actualRevision : Nat}
    {fault : Option (FaultPoint × ConnectionFailure)}
    (ran : insertAttempt dialect read table aggregateId key actualRevision expectedRevision prepared
      fault = written) (nothing : written.commits = []) :
    written.table = table ∧ ∀ answer, written.result = .ok answer → answer = [] ∧ prepared = [] := by
  rw [insertAttempt] at ran
  split at ran
  · rename_i empty
    subst ran
    refine ⟨rfl, ?_⟩
    intro answer answered
    refine ⟨?_, List.isEmpty_iff.mp empty⟩
    cases fault with
    | none => exact (Except.ok.inj answered).symm
    | some fault => cases answered
  · dsimp only at ran
    split at ran
    · subst ran
      exact ⟨rfl, fun _ answered => by cases answered⟩
    · subst ran
      exact ⟨rfl, fun _ answered => by cases answered⟩
    · subst ran
      cases nothing
    · subst ran
      cases nothing
    · subst ran
      exact ⟨rfl, fun _ answered => by cases answered⟩

/-- An attempt whose transaction takes no effect leaves the other clients' rows alone; where it
answers, the batch is empty and the stream was as expected. -/
theorem appendAttempt_kept
    (ran : appendAttempt dialect keys aggregateId expectedRevision prepared env table = written)
    (nothing : written.commits = []) :
    (∃ met : List StoredEventRow, met.Sublist (env.before ++ env.between) ∧
      written.table = table.joined met) ∧
    ∀ answer, written.result = .ok answer →
      prepared = [] ∧
        InOnePiece (appendPreparedEventsOnce dialect · keys aggregateId expectedRevision prepared)
          (env.before ++ env.between) table written.table answer := by
  rw [appendAttempt] at ran
  split at ran
  · subst ran
    exact ⟨⟨env.before, List.sublist_append_left _ _, rfl⟩, fun _ answered => by cases answered⟩
  · dsimp only at ran
    split at ran
    · subst ran
      exact ⟨⟨_, List.Sublist.refl _, (EventsTable.joined_append _ _ _).symm⟩,
        fun _ answered => by cases answered⟩
    · rename_i checked
      obtain ⟨kept, answered⟩ := insertAttempt_kept ran nothing
      refine ⟨⟨_, List.Sublist.refl _, by rw [kept, EventsTable.joined_append]⟩, ?_⟩
      intro answer ok
      obtain ⟨rfl, rfl⟩ := answered answer ok
      refine ⟨rfl, env.before, env.between, table.joined env.before, List.Sublist.refl _, ?_, kept⟩
      dsimp only
      rw [appendPreparedEventsOnce, checked]
      rfl

variable (dialect aggregateId expectedRevision prepared) in
/-- One attempt is an append in one piece. -/
theorem appendAttempt_serial (numbered : env.Numbered A keys table) :
    (appendAttempt dialect keys aggregateId expectedRevision prepared env table).Serial
      (appendPreparedEventsOnce dialect · keys aggregateId expectedRevision prepared)
      (env.before ++ env.between) (∃ failure, env.fault = some (.acknowledge, failure)) table := by
  generalize ran : appendAttempt dialect keys aggregateId expectedRevision prepared env table =
    written
  rcases appendAttempt_commits ran with nothing | ⟨committed, rows, commits, _, outcome⟩
  · obtain ⟨kept, answered⟩ := appendAttempt_kept ran nothing
    exact ⟨fun answer ok => (answered answer ok).2, fun _ _ => .inl kept⟩
  · have piece := commits.piece numbered
    rcases outcome with succeeded | ⟨failure, lost, reported⟩
    · constructor
      · intro answer ok
        rw [succeeded] at ok
        cases ok
        exact piece
      · intro error failed
        rw [succeeded] at failed
        cases failed
    · constructor
      · intro answer ok
        rw [reported] at ok
        cases ok
      · exact fun _ _ => .inr ⟨⟨failure, lost⟩, committed, piece⟩

end Attempts

/-- The rows of other clients that a call may meet, in the order of their commits. -/
def WriteEnv.others (env : WriteEnv) : List StoredEventRow :=
  (env.first.before ++ env.first.between) ++ (env.second.before ++ env.second.between)

/-- An acknowledgement of the call's commits is lost. -/
def WriteEnv.LosesAcknowledgement (env : WriteEnv) : Prop :=
  ∃ failure, env.first.fault = some (.acknowledge, failure) ∨
    env.second.fault = some (.acknowledge, failure)

theorem Written.Serial.mono
    {append : EventsTable → Except EventStoreError (EventStream A × EventsTable)}
    {others more : List StoredEventRow} {lost either : Prop} {written : Written (EventStream A)}
    (serial : written.Serial append others lost table) (fewer : others.Sublist more)
    (weaker : lost → either) : written.Serial append more either table := by
  constructor
  · intro answer ok
    exact (serial.answered answer ok).mono fewer
  · intro error failed
    rcases serial.failed error failed with ⟨met, listed, kept⟩ | ⟨happened, answer, piece⟩
    · exact .inl ⟨met, listed.trans fewer, kept⟩
    · exact .inr ⟨weaker happened, answer, piece.mono fewer⟩

section Retry

variable {keys : List String} {env : WriteEnv}

/-- The write helper around an attempt is an append in one piece. -/
theorem poolWrite_serial (numbered : env.first.Numbered A keys table)
    (renumbered : env.second.Numbered A keys (appendAttempt dialect keys aggregateId
      expectedRevision prepared env.first table).table) :
    (poolWrite env (appendAttempt dialect keys aggregateId expectedRevision prepared)
      table).Serial
      (appendPreparedEventsOnce dialect · keys aggregateId expectedRevision prepared)
      env.others env.LosesAcknowledgement table := by
  rw [poolWrite]
  split
  · exact ⟨(fun _ answered => by cases answered),
      fun _ _ => .inl ⟨[], List.nil_sublist _, (EventsTable.joined_nil _).symm⟩⟩
  · dsimp only
    generalize ran : appendAttempt dialect keys aggregateId expectedRevision prepared env.first
      table = first at renumbered ⊢
    have serial := appendAttempt_serial dialect aggregateId expectedRevision prepared numbered
    rw [ran] at serial
    have mine : (∃ failure, env.first.fault = some (.acknowledge, failure)) →
        env.LosesAcknowledgement := by
      rintro ⟨failure, lost⟩
      exact ⟨failure, .inl lost⟩
    have alone := serial.mono
      (List.sublist_append_left _ (env.second.before ++ env.second.between)) mine
    split
    · exact alone
    · rename_i error failed
      split
      · exact alone
      · split
        · exact ⟨(fun _ answered => by cases answered), fun _ _ => alone.failed error failed⟩
        · have again := appendAttempt_serial dialect aggregateId expectedRevision prepared renumbered
          rcases appendAttempt_commits ran with nothing | ⟨committed, rows, commits, _, outcome⟩
          · -- the second attempt decides, behind the rows that the first one met
            obtain ⟨⟨met, listed, kept⟩, _⟩ := appendAttempt_kept ran nothing
            rw [kept] at again ⊢
            constructor
            · intro answer ok
              exact (again.answered answer ok).after listed
            · intro other failedAgain
              rcases again.failed other failedAgain with ⟨more, inside, left⟩ | ⟨lost, answer, piece⟩
              · refine .inl ⟨met ++ more, listed.append inside, ?_⟩
                rw [EventsTable.joined_append]
                exact left
              · obtain ⟨failure, lost⟩ := lost
                exact .inr ⟨⟨failure, .inr lost⟩, answer, piece.after listed⟩
          · -- the batch is in the table already: the second attempt adds nothing and fails
            obtain ⟨⟨more, inside, left⟩, answered⟩ :=
              appendAttempt_kept rfl (commits.once env.second)
            constructor
            · intro answer ok
              exact absurd (answered answer ok).1 commits.2.1
            · intro _ _
              rcases outcome with succeeded | ⟨failure, lost, _⟩
              · rw [succeeded] at failed
                cases failed
              · refine .inr ⟨⟨failure, .inl lost⟩, committed, ?_⟩
                show InOnePiece _ _ _ (appendAttempt dialect keys aggregateId expectedRevision
                  prepared env.second first.table).table _
                rw [left]
                exact (commits.piece numbered).joined inside

end Retry

/-- The rows of the other clients number the stream of the call. -/
def SqlEventStore.OthersNumber (store : SqlEventStore A) (env : WriteEnv) (table : EventsTable)
    (aggregateId : A.Id) (expectedRevision : ExpectedRevision)
    (events : List (NewEvent A.Event × Stamp)) : Prop :=
  ∀ keys prepared, store.codec.aggregateIdLookupKeys aggregateId = .ok keys →
    events.mapM store.codec.prepare = .ok prepared →
    env.first.Numbered A keys table ∧
      env.second.Numbered A keys (appendAttempt store.dialect keys aggregateId expectedRevision
        prepared env.first table).table

theorem SqlEventStore.append_of_once {store : SqlEventStore A}
    {events : List (NewEvent A.Event × Stamp)} {keys : List String}
    {prepared : List (PreparedEvent store.codec)}
    (lookup : store.codec.aggregateIdLookupKeys aggregateId = .ok keys)
    (readied : events.mapM store.codec.prepare = .ok prepared)
    (once : appendPreparedEventsOnce store.dialect table keys aggregateId expectedRevision prepared =
      .ok done) :
    store.append table (fun _ => none) aggregateId expectedRevision events = .ok done := by
  rw [append, lookup, readied]
  simp only [bind, Except.bind, once]
  cases store.dialect with
  | sqlite =>
    cases prepared.isEmpty with
    | true => rfl
    | false => rfl
  | postgres | mysql => rfl

theorem InOnePiece.append
    {first second : EventsTable → Except EventStoreError (EventStream A × EventsTable)}
    {others : List StoredEventRow} {final : EventsTable} {answer : EventStream A}
    (piece : InOnePiece first others table final answer)
    (follows : ∀ table done, first table = .ok done → second table = .ok done) :
    InOnePiece second others table final answer := by
  obtain ⟨before, later, after, listed, ran, left⟩ := piece
  exact ⟨before, later, after, listed, follows _ _ ran, left⟩

/-- A pooled append that answers is an append of the store in one piece, between some rows of the
other clients and the others; one that fails leaves those rows alone, or was such an append
where an acknowledgement was lost. -/
theorem pooledAppend_serial (store : SqlEventStore A) (env : WriteEnv) (table : EventsTable)
    (aggregateId : A.Id) (expectedRevision : ExpectedRevision)
    (events : List (NewEvent A.Event × Stamp))
    (numbered : store.OthersNumber env table aggregateId expectedRevision events) :
    (pooledAppend store env table aggregateId expectedRevision events).Serial
      (store.append · (fun _ => none) aggregateId expectedRevision events)
      env.others env.LosesAcknowledgement table := by
  have untouched : ∀ error : EventStoreError,
      (Written.mk (.error error) table [] : Written (EventStream A)).Serial
        (store.append · (fun _ => none) aggregateId expectedRevision events)
        env.others env.LosesAcknowledgement table :=
    fun error => ⟨nofun, fun _ _ =>
      .inl ⟨[], List.nil_sublist _, (EventsTable.joined_nil table).symm⟩⟩
  rw [pooledAppend]
  cases lookup : store.codec.aggregateIdLookupKeys aggregateId with
  | error error => exact untouched error
  | ok keys =>
    cases readied : events.mapM store.codec.prepare with
    | error error => exact untouched error
    | ok prepared =>
      obtain ⟨first, second⟩ := numbered keys prepared lookup readied
      have serial := poolWrite_serial first second
      have follows : ∀ table done, appendPreparedEventsOnce store.dialect table keys aggregateId
          expectedRevision prepared = .ok done →
          store.append table (fun _ => none) aggregateId expectedRevision events = .ok done :=
        fun table done => SqlEventStore.append_of_once lookup readied
      constructor
      · intro answer ok
        exact (serial.answered answer ok).append follows
      · intro error failed
        rcases serial.failed error failed with kept | ⟨lost, answer, piece⟩
        · exact .inl kept
        · exact .inr ⟨lost, answer, piece.append follows⟩

def twoAccounts : EventsTable := ⟨[accountRowAt "e1" "a" 1 1, accountRowAt "f1" "b" 1 2], 2⟩

/-- The connection is lost in the insert, and the second attempt succeeds; another client appends
to account "b" at every moment. -/
def insertLost : WriteEnv where
  acquire := none
  first := ⟨[accountRowAt "f2" "b" 2 0], [accountRowAt "f3" "b" 3 0],
    some (.insert, .backend "connection closed" none)⟩
  reconnects := true
  acquireFresh := none
  second := ⟨[], [accountRowAt "f4" "b" 4 0], none⟩

/-- The commit is acknowledged to nobody, and the second attempt meets its rows. -/
def commitUnheard : WriteEnv where
  acquire := none
  first := ⟨[accountRowAt "f2" "b" 2 0], [],
    some (.acknowledge, .backend "connection closed" none)⟩
  reconnects := true
  acquireFresh := none
  second := ⟨[accountRowAt "f3" "b" 3 0], [], none⟩

theorem pooledAppend_serial_twoAccounts :
    let store : SqlEventStore .account := ⟨.postgres, accountCodec⟩
    let batch := [accountEvent "e2", accountEvent "e3"]
    let append (table : EventsTable) := store.append table (fun _ => none) "a" (.exact 1) batch
    (∃ answer, (pooledAppend store insertLost twoAccounts "a" (.exact 1) batch).result = .ok answer ∧
      answer.map (·.revision) = [2, 3] ∧
      InOnePiece append insertLost.others twoAccounts
        (pooledAppend store insertLost twoAccounts "a" (.exact 1) batch).table answer) ∧
    (pooledAppend store commitUnheard twoAccounts "a" (.exact 1) batch).result =
      .error (.concurrency (.wrongExpectedRevision (.exact 1) 3)) ∧
    ∃ answer, InOnePiece append commitUnheard.others twoAccounts
      (pooledAppend store commitUnheard twoAccounts "a" (.exact 1) batch).table answer := by
  intro store batch append
  have numbered : store.OthersNumber insertLost twoAccounts "a" (.exact 1) batch := by
    intro keys prepared lookup readied
    cases lookup
    cases readied
    exact ⟨.inl rfl, .inl rfl⟩
  have renumbered : store.OthersNumber commitUnheard twoAccounts "a" (.exact 1) batch := by
    intro keys prepared lookup readied
    cases lookup
    cases readied
    exact ⟨.inl rfl, .inl rfl⟩
  have reconnected := pooledAppend_serial store insertLost twoAccounts "a" (.exact 1) batch numbered
  have unheard := pooledAppend_serial store commitUnheard twoAccounts "a" (.exact 1) batch renumbered
  refine ⟨⟨_, rfl, rfl, reconnected.answered _ rfl⟩, rfl, ?_⟩
  rcases unheard.failed _ rfl with ⟨met, listed, kept⟩ | ⟨_, piece⟩
  · -- the batch's two rows are in the table beside those of the other client
    have rows := congrArg (fun table : EventsTable => table.rows.length) kept
    have few : met.length ≤ 2 := listed.length_le
    simp only [EventsTable.joined, List.length_append, sequenced_length] at rows
    change 6 = 2 + met.length at rows
    omega
  · exact piece

end DddCqrsEs
