import DddCqrsEs.IdempotentAppend
import DddCqrsEs.Once

/- Callers of `execute_idempotent_atomic` that share one key, interleaved with each other
and with the appends of other clients. -/
namespace DddCqrsEs

open Transition

variable {A : Aggregate}

abbrev AtomicRepositoryError (A : Aggregate) :=
  IdempotentRepositoryError A.Error EventStoreError EventStoreError

/-- Where one call of `execute_idempotent_atomic` stands. -/
inductive AtomicPhase (A : Aggregate) where
  /-- In the loop over `load_idempotent`. -/
  | checking
  /-- Past that loop; the aggregate is not loaded yet. -/
  | loading
  /-- In the loop over `append_idempotent`. -/
  | appending (expectedRevision : ExpectedRevision) (events : List (NewEvent A.Event))
  | returned (outcome : Except (AtomicRepositoryError A) (EventStream A))

namespace AtomicPhase

/-- The command is not evaluated before the aggregate is loaded. -/
def unevaluated : AtomicPhase A → Bool
  | .checking | .loading => true
  | .appending _ _ | .returned _ => false

def afterCheck (key : String) (call : IdempotentCall A) (read : WaitClock) :
    Except EventStoreError (Option (IdempotencyState (EventStream A))) → AtomicPhase A
  | .error error => .returned (.error (.fromStoreError error))
  | .ok (some (.complete committed)) => .returned (.ok committed)
  | .ok (some (.pending lease)) =>
    if lease.isExpired (nowMs read.later) then .loading
    else
      match pendingWaitDelay call.waitConfig read.elapsed read.waited key with
      | .ok _ => .checking
      | .error error => .returned (.error error)
  | .ok none => .loading

/-- Replay the stream and evaluate the command on it. -/
def afterLoad (call : IdempotentCall A) :
    Except EventStoreError (EventStream A) → AtomicPhase A
  | .error error => .returned (.error (.fromStoreError error))
  | .ok stream =>
    let loaded := replay stream
    match handleCommandAsNewEvents loaded.state call.command call.metadata with
    | .error error => .returned (.error (.domain error))
    | .ok events => .appending (.exact loaded.revision) events

def afterAppend (key : String) (call : IdempotentCall A) (read : WaitClock)
    (expectedRevision : ExpectedRevision) (events : List (NewEvent A.Event)) :
    Except IdempotentAppendError (EventStream A × SqliteDatabase) → AtomicPhase A
  | .ok (committed, _) => .returned (.ok committed)
  | .error (.pending _) =>
    match pendingWaitDelay call.waitConfig read.elapsed read.waited key with
    | .ok _ => .appending expectedRevision events
    | .error error => .returned (.error error)
  | .error (.store error) => .returned (.error (.fromStoreError error))

end AtomicPhase

/-- The database, the callers, and what the run has to remember: the batches that
transactions under the key appended and those that other clients appended, each with its rows,
and the callers that had not evaluated their command when another caller's batch was
committed. -/
structure AtomicState (A : Aggregate) where
  db : SqliteDatabase
  phase : Nat → AtomicPhase A
  appended : List (List StoredEventRow × EventStream A)
  others : List (List StoredEventRow × EventStream A)
  overtaken : Nat → Bool

/-- One store call of one caller, or an append of another client. `fault` is the database
error the call runs into, if any; `stamp` supplies identity and time of each new event. -/
inductive AtomicAction (A : Aggregate) where
  | loadIdempotent (caller : Nat) (fault : Option EventStoreError) (read : WaitClock)
  | load (caller : Nat) (fault : Option EventStoreError)
  | appendIdempotent (caller : Nat) (fault : Option EventStoreError) (read : WaitClock)
      (stamp : Nat → Stamp)
  | append (fault : Nat → Option EventStoreError) (aggregateId : A.Id)
      (expectedRevision : ExpectedRevision) (events : List (NewEvent A.Event × Stamp))

def AtomicAction.caller : AtomicAction A → Option Nat
  | .loadIdempotent caller _ _ | .load caller _ | .appendIdempotent caller _ _ _ => some caller
  | .append _ _ _ _ => none

namespace AtomicState

def become (s : AtomicState A) (caller : Nat) (phase : AtomicPhase A) : AtomicState A :=
  { s with phase := Function.update s.phase caller phase }

@[simp] theorem become_self (s : AtomicState A) (caller : Nat) (phase : AtomicPhase A) :
    (s.become caller phase).phase caller = phase := Function.update_self ..

theorem become_other (s : AtomicState A) {caller other : Nat} (phase : AtomicPhase A)
    (different : other ≠ caller) : (s.become caller phase).phase other = s.phase other :=
  Function.update_of_ne different ..

/-- Record a batch that the caller's transaction appended. -/
def commit (s : AtomicState A) (caller : Nat) (db : SqliteDatabase) (committed : EventStream A) :
    AtomicState A where
  db := db
  phase := s.phase
  appended := s.appended ++ [(db.events.rows.drop s.db.events.rows.length, committed)]
  others := s.others
  overtaken other := s.overtaken other || (other ≠ caller && (s.phase other).unevaluated)

/-- Record a batch that another client appended. -/
def foreign (s : AtomicState A) (table : EventsTable) (committed : EventStream A) :
    AtomicState A where
  db := { s.db with events := table }
  phase := s.phase
  appended := s.appended
  others := s.others ++ [(table.rows.drop s.db.events.rows.length, committed)]
  overtaken := s.overtaken

variable (store : SqliteEventStore A) (key : String) (calls : Nat → IdempotentCall A)

/-- The database after an `append_idempotent`. What a transaction that found no row under the
key has appended is recorded. -/
def afterTransaction (s : AtomicState A) (caller : Nat) :
    Except IdempotentAppendError (EventStream A × SqliteDatabase) → AtomicState A
  | .ok (committed, db) =>
    if (s.db.idempotency key).isNone then s.commit caller db committed else { s with db := db }
  | .error _ => s

def step (s : AtomicState A) : AtomicAction A → Option (AtomicState A)
  | .loadIdempotent caller fault read =>
    match s.phase caller with
    | .checking =>
      let loaded := store.loadIdempotent s.db fault (nowMs read.clock) key
      some (s.become caller (.afterCheck key (calls caller) read loaded))
    | _ => none
  | .load caller fault =>
    match s.phase caller with
    | .loading =>
      let loaded :=
        fault.elim (store.eventStore.load s.db.events (calls caller).aggregateId) .error
      some (s.become caller (.afterLoad (calls caller) loaded))
    | _ => none
  | .appendIdempotent caller fault read stamp =>
    match s.phase caller with
    | .appending expectedRevision events =>
      let result := store.appendIdempotent s.db fault read.clock key (calls caller).aggregateId
        expectedRevision (stampEvents stamp events)
      some ((s.afterTransaction key caller result).become caller
        (.afterAppend key (calls caller) read expectedRevision events result))
    | _ => none
  | .append fault aggregateId expectedRevision events =>
    match store.eventStore.append s.db.events fault aggregateId expectedRevision events with
    | .ok (committed, table) => some (s.foreign table committed)
    | .error _ => some s

end AtomicState

/-- Any number of calls with one key, over any database. -/
def executeIdempotentAtomic (store : SqliteEventStore A) (key : String)
    (calls : Nat → IdempotentCall A) : Machine (AtomicState A) (AtomicAction A) where
  start s :=
    (∀ caller, s.phase caller = .checking) ∧ s.appended = [] ∧ s.others = [] ∧
      ∀ caller, s.overtaken caller = false
  step s action := s.step store key calls action

variable {store : SqliteEventStore A} {key : String} {calls : Nat → IdempotentCall A}

namespace AtomicPhase

variable {call : IdempotentCall A} {read : WaitClock} {committed : EventStream A}

theorem afterCheck_returned
    {loaded : Except EventStoreError (Option (IdempotencyState (EventStream A)))}
    (returned : afterCheck key call read loaded = .returned (.ok committed)) :
    loaded = .ok (some (.complete committed)) := by
  match loaded, returned with
  | .ok (some (.complete _)), rfl => rfl
  | .ok (some (.pending lease)), returned =>
    rw [afterCheck] at returned
    split at returned
    · cases returned
    · split at returned <;> cases returned

theorem afterLoad_returned {loaded : Except EventStoreError (EventStream A)} :
    afterLoad call loaded ≠ .returned (.ok committed) := by
  intro returned
  cases loaded with
  | error error => cases returned
  | ok stream =>
    rw [afterLoad] at returned
    split at returned <;> cases returned

theorem afterAppend_returned {expectedRevision : ExpectedRevision}
    {events : List (NewEvent A.Event)}
    {result : Except IdempotentAppendError (EventStream A × SqliteDatabase)}
    (returned : afterAppend key call read expectedRevision events result =
      .returned (.ok committed)) : ∃ db, result = .ok (committed, db) := by
  match result, returned with
  | .ok (_, db), rfl => exact ⟨db, rfl⟩
  | .error (.pending _), returned =>
    rw [afterAppend] at returned
    split at returned <;> cases returned

end AtomicPhase

namespace AtomicState

/-- What one action does: a caller moves on without an answer, a caller returns the batch
of the completed key, a caller's transaction appends the batch and it returns, or another
client appends. -/
inductive Effect (store : SqliteEventStore A) (key : String) (actor : Option Nat)
    (s : AtomicState A) : AtomicState A → Prop
  | silent (caller : Nat) (acts : actor = some caller) (phase : AtomicPhase A)
      (unanswered : ∀ committed, phase ≠ .returned (.ok committed)) :
      Effect store key actor s (s.become caller phase)
  | replay (caller : Nat) (acts : actor = some caller) (row : IdempotencyRow) (committed : EventStream A)
      (held : s.db.idempotency key = some row) (completed : store.Completed row committed) :
      Effect store key actor s (s.become caller (.returned (.ok committed)))
  | commit (caller : Nat) (acts : actor = some caller) (db : SqliteDatabase)
      (committed : EventStream A) (added : List StoredEventRow) (row : IdempotencyRow)
      (absent : s.db.idempotency key = none)
      (grown : db.events.rows = s.db.events.rows ++ added)
      (stored : List.Forall₂ (StoredAs store.codec) added committed)
      (written : db.idempotency key = some row) (completed : store.Completed row committed) :
      Effect store key actor s ((s.commit caller db committed).become caller (.returned (.ok committed)))
  | foreign (acts : actor = none) (table : EventsTable) (committed : EventStream A)
      (added : List StoredEventRow) (grown : table.rows = s.db.events.rows ++ added)
      (stored : List.Forall₂ (StoredAs store.codec) added committed) :
      Effect store key actor s (s.foreign table committed)
  | refused (acts : actor = none) : Effect store key actor s s

variable {s next initial : AtomicState A} {action : AtomicAction A}
  {cell : Once.Cell (EventStream A)} {db : SqliteDatabase} {committed : EventStream A}
  {row : IdempotencyRow} {added : List StoredEventRow}

theorem step_effect (stepped : s.step store key calls action = some next) :
    Effect store key action.caller s next := by
  cases action with
  | loadIdempotent caller fault read =>
    simp only [step] at stepped
    split at stepped
    · cases stepped
      by_cases answered : ∃ committed,
          store.loadIdempotent s.db fault (nowMs read.clock) key = .ok (some (.complete committed))
      · obtain ⟨committed, loaded⟩ := answered
        cases fault with
        | some error => cases loaded
        | none =>
          obtain ⟨row, held, completed⟩ :=
            SqliteEventStore.loadIdempotent_complete_iff.mp loaded
          rw [loaded]
          exact .replay caller rfl row committed held completed
      · refine .silent caller rfl _ ?_
        intro committed returned
        exact answered ⟨committed, AtomicPhase.afterCheck_returned returned⟩
    · cases stepped
  | load caller fault =>
    simp only [step] at stepped
    split at stepped
    · cases stepped
      exact .silent caller rfl _ (fun _ => AtomicPhase.afterLoad_returned)
    · cases stepped
  | appendIdempotent caller fault read stamp =>
    simp only [step] at stepped
    split at stepped
    · rename_i expectedRevision events appending
      generalize result : store.appendIdempotent s.db fault read.clock key
        (calls caller).aggregateId expectedRevision (stampEvents stamp events) = outcome at stepped
      cases stepped
      cases outcome with
      | error error =>
        refine .silent caller rfl _ ?_
        intro committed returned
        obtain ⟨_, impossible⟩ := AtomicPhase.afterAppend_returned returned
        cases impossible
      | ok done =>
        obtain ⟨committed, db⟩ := done
        rcases SqliteEventStore.appendIdempotent_ok result with
          ⟨same, row, held, completed⟩ |
          ⟨absent, added, row, grown, stored, _, written, completed⟩
        · rw [afterTransaction, held, same]
          exact .replay caller rfl row committed held completed
        · have held : db.idempotency key = some row := by rw [written, Function.update_self]
          rw [afterTransaction, absent]
          exact .commit caller rfl db committed added row absent grown stored held completed
    · cases stepped
  | append fault aggregateId expectedRevision events =>
    simp only [step] at stepped
    split at stepped
    · rename_i committed table appended
      cases stepped
      obtain ⟨added, grown, stored⟩ := SqlEventStore.append_grows appended
      exact .foreign rfl table committed added grown stored
    · cases stepped
      exact .refused rfl

/-- The batch that the key's row holds. -/
def Recorded (store : SqliteEventStore A) (key : String) (s : AtomicState A)
    (committed : EventStream A) : Prop :=
  ∃ row, s.db.idempotency key = some row ∧ store.Completed row committed

/-- The run seen as a write-once cell: its value is the batch the key's row holds. -/
structure Represents (store : SqliteEventStore A) (key : String) (s : AtomicState A)
    (cell : Once.Cell (EventStream A)) : Prop where
  atMostOnce : s.appended.length ≤ 1
  appended : ∀ batch ∈ s.appended, cell.committed = [batch.2]
  answers : ∀ caller committed, s.phase caller = .returned (.ok committed) →
    committed ∈ cell.answers
  completed : ∀ committed, cell.committed = [committed] ↔ s.Recorded store key committed
  absent : s.db.idempotency key = none → cell.committed = []

theorem Represents.nothing (represents : Represents store key s cell)
    (absent : s.db.idempotency key = none) : s.appended = [] := by
  rw [List.eq_nil_iff_forall_not_mem]
  intro batch member
  have full := represents.appended batch member
  rw [represents.absent absent] at full
  cases full

/-- A caller that moves on without an answer is invisible to the cell; one that returns
the committed batch takes an answer. -/
theorem Represents.become (represents : Represents store key s cell) (caller : Nat)
    {phase : AtomicPhase A}
    (answered : ∀ committed, phase = .returned (.ok committed) → cell.committed = [committed]) :
    ∃ moves next, (Once.cell (EventStream A)).run cell moves = some next ∧
      Represents store key (s.become caller phase) next := by
  have others : ∀ next : Once.Cell (EventStream A), (∀ value ∈ cell.answers, value ∈ next.answers) →
      (∀ committed, phase = .returned (.ok committed) → committed ∈ next.answers) →
      ∀ other committed, (s.become caller phase).phase other = .returned (.ok committed) →
        committed ∈ next.answers := by
    intro next kept own other committed returned
    by_cases same : other = caller
    · subst same
      rw [become_self] at returned
      exact own committed returned
    · rw [become_other _ _ same] at returned
      exact kept committed (represents.answers other committed returned)
  by_cases silent : ∃ committed, phase = .returned (.ok committed)
  · obtain ⟨committed, rfl⟩ := silent
    have full := answered committed rfl
    refine ⟨[.answer], cell.answered committed, ?_, ?_⟩
    · rw [Machine.run_cons, Once.step_answer full]
      rfl
    · refine ⟨represents.atMostOnce, represents.appended, others _ ?_ ?_, represents.completed,
        represents.absent⟩
      · intro value earlier
        exact List.mem_append_left _ earlier
      · intro value same
        cases same
        exact List.mem_append_right _ (List.mem_singleton.mpr rfl)
  · refine ⟨[], cell, rfl, represents.atMostOnce, represents.appended,
      others cell (fun _ earlier => earlier) ?_, represents.completed, represents.absent⟩
    intro committed returned
    exact absurd ⟨committed, returned⟩ silent

/-- A transaction that finds no row for the key fills the cell. -/
theorem Represents.commit (represents : Represents store key s cell) (caller : Nat)
    (absent : s.db.idempotency key = none) (written : db.idempotency key = some row)
    (completed : store.Completed row committed) :
    ∃ next, (Once.cell (EventStream A)).run cell [.commit committed] = some next ∧
      next.committed = [committed] ∧
      Represents store key (s.commit caller db committed) next := by
  have fresh := represents.absent absent
  have only : (s.commit caller db committed).appended =
      [(db.events.rows.drop s.db.events.rows.length, committed)] := by
    rw [AtomicState.commit, represents.nothing absent, List.nil_append]
  refine ⟨{ cell with committed := [committed] }, ?_, rfl, ?_⟩
  · rw [Machine.run_cons, Once.step_commit fresh]
    rfl
  · refine ⟨?_, ?_, represents.answers, ?_, ?_⟩
    · rw [only]
      exact Nat.le_refl 1
    · intro batch member
      rw [only, List.mem_singleton] at member
      rw [member]
    · intro other
      show [committed] = [other] ↔ ∃ row, db.idempotency key = some row ∧ store.Completed row other
      constructor
      · intro same
        cases same
        exact ⟨row, written, completed⟩
      · rintro ⟨held, found, holds⟩
        rw [written] at found
        cases found
        rw [store.completed_unique completed holds]
    · intro none
      rw [show (s.commit caller db committed).db = db from rfl, written] at none
      cases none

/-- An append of another client leaves the key alone. -/
theorem Represents.append (represents : Represents store key s cell) (table : EventsTable)
    (committed : EventStream A) : Represents store key (s.foreign table committed) cell :=
  ⟨represents.atMostOnce, represents.appended, represents.answers, represents.completed,
    represents.absent⟩

/-- Every store call of a caller and every append of another client is, for the cell, some
commits and answers. -/
theorem simulates (store : SqliteEventStore A) (key : String) (calls : Nat → IdempotentCall A) :
    Machine.Simulates (executeIdempotentAtomic store key calls) (Once.cell (EventStream A))
      (Represents store key) where
  start := by
    rintro s ⟨checking, nothing, _, _⟩
    have unreturned : ∀ caller committed, s.phase caller ≠ .returned (.ok committed) := by
      intro caller committed returned
      rw [checking caller] at returned
      cases returned
    by_cases earlier : ∃ committed, s.Recorded store key committed
    · obtain ⟨committed, row, held, completed⟩ := earlier
      refine ⟨⟨[committed], []⟩, ⟨Nat.le_refl 1, rfl⟩, by simp [nothing], by simp [nothing],
        fun caller batch returned => absurd returned (unreturned caller batch), ?_, ?_⟩
      · intro other
        constructor
        · intro same
          cases same
          exact ⟨row, held, completed⟩
        · rintro ⟨found, holds, completedOther⟩
          rw [held] at holds
          cases holds
          rw [store.completed_unique completed completedOther]
      · intro none
        rw [held] at none
        cases none
    · refine ⟨Once.Cell.empty, ⟨Nat.zero_le 1, rfl⟩, by simp [nothing], by simp [nothing],
        fun caller batch returned => absurd returned (unreturned caller batch), ?_, fun _ => rfl⟩
      intro committed
      constructor
      · intro full
        cases full
      · intro recorded
        exact absurd ⟨committed, recorded⟩ earlier
  step := by
    intro s action next cell represents stepped
    cases step_effect stepped with
    | silent caller _ phase unanswered =>
      refine represents.become caller ?_
      intro committed returned
      exact absurd returned (unanswered committed)
    | replay caller _ row committed held completed =>
      refine represents.become caller ?_
      intro answer returned
      cases returned
      exact (represents.completed committed).mpr ⟨row, held, completed⟩
    | commit caller _ db committed added row absent _ _ written completed =>
      obtain ⟨middle, filled, full, represented⟩ :=
        represents.commit caller absent written completed
      have answered : ∀ answer,
          (.returned (.ok committed) : AtomicPhase A) = .returned (.ok answer) →
            middle.committed = [answer] := by
        intro answer returned
        cases returned
        exact full
      obtain ⟨moves, last, ran, related⟩ := represented.become caller answered
      refine ⟨.commit committed :: moves, last, ?_, related⟩
      rw [← List.singleton_append, Machine.run_append, filled]
      exact ran
    | foreign _ table committed _ _ _ =>
      exact ⟨[], cell, rfl, represents.append table committed⟩
    | refused _ => exact ⟨[], cell, rfl, represents⟩

/-- What a run from `initial` has made of the table and of the key. -/
structure Accounted (store : SqliteEventStore A) (key : String) (initial s : AtomicState A) :
    Prop where
  rows : s.db.events.rows.Perm (initial.db.events.rows ++
    (s.others.flatMap Prod.fst ++ s.appended.flatMap Prod.fst))
  stored : ∀ batch ∈ s.others ++ s.appended, batch.1 <:+: s.db.events.rows ∧
    List.Forall₂ (StoredAs store.codec) batch.1 batch.2
  origin : (s.appended = [] ∧ s.db.idempotency key = initial.db.idempotency key) ∨
    ∃ rows committed, s.appended = [(rows, committed)] ∧ s.Recorded store key committed

theorem Accounted.start (begun : (executeIdempotentAtomic store key calls).start s) :
    Accounted store key s s := by
  obtain ⟨_, nothing, nobody, _⟩ := begun
  exact ⟨by simp [nothing, nobody], by simp [nothing, nobody], .inl ⟨nothing, rfl⟩⟩

/-- What is recorded of the table holds of a table that has grown by one batch more. -/
theorem stored_snoc {store : SqliteEventStore A} {table : List StoredEventRow}
    {batches : List (List StoredEventRow × EventStream A)}
    (earlier : ∀ batch ∈ batches, batch.1 <:+: table ∧
      List.Forall₂ (StoredAs store.codec) batch.1 batch.2)
    (stored : List.Forall₂ (StoredAs store.codec) added committed) :
    ∀ batch, batch ∈ batches ∨ batch = (added, committed) → batch.1 <:+: table ++ added ∧
      List.Forall₂ (StoredAs store.codec) batch.1 batch.2 := by
  rintro batch (member | rfl)
  · obtain ⟨inside, held⟩ := earlier batch member
    exact ⟨inside.trans (List.prefix_append _ _).isInfix, held⟩
  · exact ⟨(List.suffix_append _ _).isInfix, stored⟩

theorem Accounted.commit (accounted : Accounted store key initial s) (caller : Nat)
    (nothing : s.appended = []) (grown : db.events.rows = s.db.events.rows ++ added)
    (stored : List.Forall₂ (StoredAs store.codec) added committed)
    (written : db.idempotency key = some row) (completed : store.Completed row committed) :
    Accounted store key initial (s.commit caller db committed) := by
  have batch : (s.commit caller db committed).appended = [(added, committed)] := by
    rw [AtomicState.commit, nothing, grown, List.drop_left, List.nil_append]
  have table : (s.commit caller db committed).db.events.rows = s.db.events.rows ++ added := grown
  have others : (s.commit caller db committed).others = s.others := rfl
  constructor
  · have counted := accounted.rows
    rw [nothing] at counted
    rw [table, batch, others]
    simpa using counted.append_right added
  · intro one member
    rw [table]
    apply stored_snoc accounted.stored stored
    rw [others, batch, List.mem_append, List.mem_singleton] at member
    exact member.imp_left (List.mem_append_left _)
  · exact .inr ⟨added, committed, batch, row, written, completed⟩

theorem Accounted.foreign (accounted : Accounted store key initial s) {table : EventsTable}
    (grown : table.rows = s.db.events.rows ++ added)
    (stored : List.Forall₂ (StoredAs store.codec) added committed) :
    Accounted store key initial (s.foreign table committed) := by
  have others : (s.foreign table committed).others = s.others ++ [(added, committed)] := by
    rw [AtomicState.foreign, grown, List.drop_left]
  have rows : (s.foreign table committed).db.events.rows = s.db.events.rows ++ added := grown
  have appended : (s.foreign table committed).appended = s.appended := rfl
  constructor
  · rw [rows, others, appended]
    apply (accounted.rows.append_right added).trans
    rw [List.perm_iff_count]
    intro row
    simp only [List.flatMap_append, List.flatMap_cons, List.flatMap_nil, List.count_append,
      List.append_nil]
    omega
  · intro one member
    rw [rows]
    apply stored_snoc accounted.stored stored
    rw [others, appended] at member
    simp only [List.mem_append, List.mem_singleton] at member ⊢
    tauto
  · exact accounted.origin

/-- One step keeps the account. -/
theorem Accounted.step (reached : (executeIdempotentAtomic store key calls).Reachable s)
    (accounted : Accounted store key initial s)
    (stepped : s.step store key calls action = some next) : Accounted store key initial next := by
  obtain ⟨cell, _, represents⟩ := (simulates store key calls).reachable reached
  cases step_effect stepped with
  | silent | replay => exact ⟨accounted.rows, accounted.stored, accounted.origin⟩
  | commit caller _ db committed added row absent grown stored written completed =>
    have kept := accounted.commit caller (represents.nothing absent) grown stored written completed
    exact ⟨kept.rows, kept.stored, kept.origin⟩
  | foreign _ table committed added grown stored => exact accounted.foreign grown stored
  | refused _ => exact accounted

theorem accounted {actions : List (AtomicAction A)}
    (started : (executeIdempotentAtomic store key calls).start initial)
    (ran : (executeIdempotentAtomic store key calls).run initial actions = some s) :
    Accounted store key initial s := by
  refine Machine.run_invariant (I := Accounted store key initial) ?_ (.start started)
    (.start started) ran
  intro s action next reached held stepped
  exact held.step reached stepped

end AtomicState

def openedBatch : EventStream .account :=
  [.commit "a" 1 (some 1) (.ofDomainEvent () .empty) ⟨"e1", 0⟩]

/-- The JSON of an event that an account's stream `a` starts or goes on with. -/
def openedEnvelopeJson (eventId : String) (revision sequence : Nat) : String :=
  "\x7b\"event_id\":\"" ++ eventId ++ "\",\"aggregate_id\":\"a\"," ++
    "\"aggregate_type\":\"account\",\"revision\":" ++ toString revision ++
    ",\"sequence\":" ++ toString sequence ++
    ",\"event_type\":\"account_opened\",\"event_version\":1,\"payload\":null," ++
    "\"metadata\":\x7b\"correlation_id\":null,\"causation_id\":null,\"actor_id\":null," ++
    "\"tenant_id\":null,\"request_id\":null,\"headers\":\x7b\x7d\x7d," ++
    "\"recorded_at\":\x7b\"secs_since_epoch\":0,\"nanos_since_epoch\":0\x7d\x7d"

/-- JSON of one batch, and of no other. -/
def batchJson (batch : EventStream .account) (text : String) : CommittedJson .account where
  toJson committed := if committed = batch then .ok text else .error "unsupported batch"
  fromJson value := if value = text then .ok batch else .error "unsupported text"
  fromJson_toJson := by
    intro committed value written
    split at written
    · rename_i same
      cases written
      rw [if_pos rfl, same]
    · cases written

def accountCommittedJson : CommittedJson .account :=
  batchJson openedBatch ("[" ++ openedEnvelopeJson "e1" 1 1 ++ "]")

def accountStore : SqliteEventStore .account := ⟨accountCodec, accountCommittedJson⟩

def openAccount : Nat → IdempotentCall .account := fun _ => ⟨"a", (), .empty, .default⟩

def beforeOpening : AtomicState .account :=
  ⟨⟨.empty, fun _ => none⟩, fun _ => .checking, [], [], fun _ => false⟩

def atEpoch : WaitClock := ⟨0, 0, 0, 0⟩

theorem beforeOpening_start :
    (executeIdempotentAtomic accountStore "k" openAccount).start beforeOpening :=
  ⟨fun _ => rfl, rfl, rfl, fun _ => rfl⟩

/-- Both callers evaluate their command, and another account is opened between their
transactions. -/
def bothEvaluate : List (AtomicAction .account) :=
  [.loadIdempotent 0 none atEpoch, .loadIdempotent 1 none atEpoch, .load 0 none, .load 1 none,
    .appendIdempotent 0 none atEpoch (fun _ => ⟨"e1", 0⟩),
    .append (fun _ => none) "b" .noStream [accountEvent "e2"],
    .appendIdempotent 1 none atEpoch (fun _ => ⟨"e3", 0⟩)]

theorem bothEvaluate_runs :
    ((executeIdempotentAtomic accountStore "k" openAccount).run beforeOpening
      bothEvaluate).isSome = true := by
  decide +kernel

/-- The atomic path takes effect once: whatever the callers' commands and whoever else
appends, at most one batch is appended under the key, and the events table holds what it held
at the start, what other clients appended and that batch, row by row. Every caller that returns
committed events returns that batch, or the one that the key held from the start. -/
theorem executeIdempotentAtomic_exactlyOnce {initial s : AtomicState A}
    {actions : List (AtomicAction A)}
    (started : (executeIdempotentAtomic store key calls).start initial)
    (ran : (executeIdempotentAtomic store key calls).run initial actions = some s) :
    s.appended.length ≤ 1 ∧
      s.db.events.rows.Perm (initial.db.events.rows ++
        (s.others.flatMap Prod.fst ++ s.appended.flatMap Prod.fst)) ∧
      (∀ batch ∈ s.others ++ s.appended, batch.1 <:+: s.db.events.rows ∧
        List.Forall₂ (StoredAs store.codec) batch.1 batch.2) ∧
      ∀ caller committed, s.phase caller = .returned (.ok committed) →
        (∃ rows, s.appended = [(rows, committed)]) ∨
          (s.appended = [] ∧ initial.Recorded store key committed) := by
  have begun := Machine.Reachable.start started
  have accounted := AtomicState.accounted started ran
  obtain ⟨cell, cellReached, represents⟩ :=
    (AtomicState.simulates store key calls).reachable (begun.run ran)
  refine ⟨represents.atMostOnce, accounted.rows, accounted.stored, ?_⟩
  intro caller committed returned
  have agrees := Once.agrees cellReached
  have answered := agrees.answers committed (represents.answers caller committed returned)
  obtain ⟨row, held, completed⟩ := (represents.completed committed).mp answered
  rcases accounted.origin with ⟨nothing, same⟩ | ⟨rows, batch, single, other, found, holds⟩
  · rw [same] at held
    exact .inr ⟨nothing, row, held, completed⟩
  · rw [held] at found
    cases found
    rw [store.completed_unique completed holds]
    exact .inl ⟨rows, single⟩

set_option maxRecDepth 8000 in
/-- The second transaction replays the first one's batch, and the table has a row of each
account. -/
theorem executeIdempotentAtomic_exactlyOnce_account :
    ∃ s : AtomicState .account, s.phase 0 = .returned (.ok openedBatch) ∧
      s.phase 1 = .returned (.ok openedBatch) ∧ (∃ rows, s.appended = [(rows, openedBatch)]) ∧
      s.others.length = 1 ∧
      s.db.events.rows.Perm (s.others.flatMap Prod.fst ++ s.appended.flatMap Prod.fst) := by
  have ran := (Option.some_get bothEvaluate_runs).symm
  have once := executeIdempotentAtomic_exactlyOnce beforeOpening_start ran
  refine ⟨Option.get _ bothEvaluate_runs, rfl, rfl, ?_, rfl, once.2.1⟩
  rcases once.2.2.2 1 openedBatch rfl with appended | ⟨_, row, held, _⟩
  · exact appended
  · cases held

end DddCqrsEs
