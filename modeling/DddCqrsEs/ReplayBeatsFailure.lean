import DddCqrsEs.ExecuteIdempotentAtomic

/- When a caller of the atomic path that another caller overtook gets the committed batch,
and when it fails instead. -/
namespace DddCqrsEs

open Transition

variable {A : Aggregate} {store : SqliteEventStore A} {key : String}
  {calls : Nat → IdempotentCall A}

namespace AtomicState

/-- A caller that had not evaluated its command when another caller's batch was committed
returns that batch and nothing else. -/
def ReplayBeatsFailure (s : AtomicState A) : Prop :=
  ∀ caller outcome, s.overtaken caller = true → s.phase caller = .returned outcome →
    ∃ rows committed, s.appended = [(rows, committed)] ∧ outcome = .ok committed

/-- The step is not one in which an overtaken caller fails: no database error meets it,
its arguments can be encoded, and where it still evaluates its command, the aggregate
accepts the command on the stream the caller loads. -/
def Spares (store : SqliteEventStore A) (calls : Nat → IdempotentCall A) (s : AtomicState A) :
    AtomicAction A → Prop
  | .loadIdempotent caller fault _ => s.overtaken caller = true → fault = none
  | .load caller fault => s.overtaken caller = true → fault = none ∧
      ∃ stream events, store.eventStore.load s.db.events (calls caller).aggregateId = .ok stream ∧
        A.handle (replay stream).state (calls caller).command = .ok events
  | .appendIdempotent caller fault _ stamp => s.overtaken caller = true → fault = none ∧
      (∃ aggregateIdKey, store.codec.serializeId (calls caller).aggregateId = .ok aggregateIdKey) ∧
      ∀ expectedRevision events, s.phase caller = .appending expectedRevision events →
        ∃ prepared, (stampEvents stamp events).mapM store.codec.prepare = .ok prepared
  | .append _ _ _ _ => True

variable {s next : AtomicState A} {caller : Nat} {action : AtomicAction A}

/-- Once a caller is overtaken, the key is complete. -/
theorem overtaken_completed (reached : (executeIdempotentAtomic store key calls).Reachable s)
    (overtaken : s.overtaken caller = true) :
    ∃ rows committed row, s.appended = [(rows, committed)] ∧
      s.db.idempotency key = some row ∧ store.Completed row committed := by
  have recorded : ∀ caller, s.overtaken caller = true → s.appended ≠ [] := by
    refine Machine.invariant
      (I := fun s : AtomicState A => ∀ caller, s.overtaken caller = true → s.appended ≠ [])
      ?_ ?_ reached
    · rintro s ⟨_, _, _, nobody⟩ caller overtaken
      rw [nobody caller] at overtaken
      cases overtaken
    · intro s action next _ recorded stepped
      cases step_effect stepped with
      | silent _ _ _ _ => exact recorded
      | replay _ _ _ _ _ _ => exact recorded
      | commit _ _ _ _ _ _ _ _ _ _ _ =>
        intro _ _
        exact List.append_ne_nil_of_right_ne_nil _ (List.cons_ne_nil _ _)
      | foreign _ _ _ _ _ _ => exact recorded
      | refused _ => exact recorded
  obtain ⟨cell, cellReached, represents⟩ := (simulates store key calls).reachable reached
  have one := represents.atMostOnce
  have some := List.length_pos_of_ne_nil (recorded caller overtaken)
  obtain ⟨⟨rows, committed⟩, single⟩ := List.length_eq_one_iff.mp (by omega : s.appended.length = 1)
  have full := represents.appended (rows, committed) (by simp [single])
  obtain ⟨row, held, completed⟩ := (represents.completed committed).mp full
  exact ⟨rows, committed, row, single, held, completed⟩

/-- A step of an overtaken caller avoids an error exactly when it is spared. -/
theorem spares_iff (reached : (executeIdempotentAtomic store key calls).Reachable s)
    (stepped : s.step store key calls action = some next) (acts : action.caller = some caller)
    (overtaken : s.overtaken caller = true) :
    Spares store calls s action ↔ ∀ error, next.phase caller ≠ .returned (.error error) := by
  obtain ⟨_, committed, row, _, held, completed⟩ := overtaken_completed reached overtaken
  cases action with
  | append fault aggregateId expectedRevision events => cases acts
  | loadIdempotent actor fault read =>
    cases acts
    simp only [step] at stepped
    split at stepped
    · cases stepped
      cases fault with
      | some error => simp [Spares, overtaken, SqliteEventStore.loadIdempotent, AtomicPhase.afterCheck]
      | none =>
        rw [SqliteEventStore.loadIdempotent_complete_iff.mpr ⟨row, held, completed⟩]
        simp [Spares, AtomicPhase.afterCheck]
    · cases stepped
  | load actor fault =>
    cases acts
    simp only [step] at stepped
    split at stepped
    · cases stepped
      cases fault with
      | some error => simp [Spares, overtaken, AtomicPhase.afterLoad]
      | none =>
        cases loaded : store.eventStore.load s.db.events (calls caller).aggregateId with
        | error error => simp [Spares, overtaken, loaded, AtomicPhase.afterLoad]
        | ok stream =>
          cases handled : A.handle (replay stream).state (calls caller).command with
          | error error =>
            simp [Spares, overtaken, loaded, handled, AtomicPhase.afterLoad,
              handleCommandAsNewEvents, Except.map]
          | ok events =>
            simp [Spares, loaded, handled, AtomicPhase.afterLoad,
              handleCommandAsNewEvents, Except.map]
    · cases stepped
  | appendIdempotent actor fault read stamp =>
    cases acts
    simp only [step] at stepped
    split at stepped
    · rename_i expectedRevision events appending
      cases stepped
      cases serialized : store.codec.serializeId (calls caller).aggregateId with
      | error error =>
        simp [Spares, overtaken, serialized, SqliteEventStore.appendIdempotent,
          AtomicPhase.afterAppend]
      | ok aggregateIdKey =>
        cases readied : (stampEvents stamp events).mapM store.codec.prepare with
        | error error =>
          simp [Spares, overtaken, serialized, readied, appending,
            SqliteEventStore.appendIdempotent, AtomicPhase.afterAppend]
        | ok prepared =>
          cases fault with
          | some error =>
            simp [Spares, overtaken, serialized, readied,
              SqliteEventStore.appendIdempotent, AtomicPhase.afterAppend]
          | none =>
            rw [SqliteEventStore.appendIdempotent_completed serialized readied held
              completed]
            simp [Spares, serialized, readied, appending, AtomicPhase.afterAppend]
    · cases stepped

/-- A step that is not an overtaken caller's is spared. -/
theorem spares_of_not_overtaken
    (behind : ∀ caller, action.caller = some caller → s.overtaken caller = false) :
    Spares store calls s action := by
  cases action with
  | append fault aggregateId expectedRevision events => trivial
  | loadIdempotent caller fault read => simp [Spares, behind caller rfl]
  | load caller fault => simp [Spares, behind caller rfl]
  | appendIdempotent caller fault read stamp => simp [Spares, behind caller rfl]

theorem overtaken_kept (stepped : s.step store key calls action = some next)
    (overtaken : s.overtaken caller = true) : next.overtaken caller = true := by
  cases step_effect stepped with
  | silent _ _ _ _ => exact overtaken
  | replay _ _ _ _ _ _ => exact overtaken
  | commit _ _ _ _ _ _ _ _ _ _ _ => simp [become, commit, overtaken]
  | foreign _ _ _ _ _ _ => exact overtaken
  | refused _ => exact overtaken

/-- One step keeps the promise exactly when it is spared. -/
theorem replayBeatsFailure_step (reached : (executeIdempotentAtomic store key calls).Reachable s)
    (holds : s.ReplayBeatsFailure) (stepped : s.step store key calls action = some next) :
    next.ReplayBeatsFailure ↔ Spares store calls s action := by
  constructor
  · intro kept
    by_cases runs : ∃ caller, action.caller = some caller ∧ s.overtaken caller = true
    · obtain ⟨caller, acts, overtaken⟩ := runs
      rw [spares_iff reached stepped acts overtaken]
      intro error failed
      obtain ⟨_, _, _, impossible⟩ := kept caller _ (overtaken_kept stepped overtaken) failed
      cases impossible
    · refine spares_of_not_overtaken ?_
      intro caller acts
      cases behind : s.overtaken caller with
      | false => rfl
      | true => exact absurd ⟨caller, acts, behind⟩ runs
  · intro spared
    cases step_effect stepped with
    | foreign _ _ _ _ _ _ => exact holds
    | refused _ => exact holds
    | silent actor acts phase unanswered =>
      intro caller outcome overtaken returned
      by_cases same : caller = actor
      · subst same
        have noError := (spares_iff reached stepped acts overtaken).mp spared
        cases outcome with
        | error error => exact absurd returned (noError error)
        | ok committed =>
          rw [become_self] at returned
          exact absurd returned (unanswered committed)
      · rw [become_other _ _ same] at returned
        exact holds caller outcome overtaken returned
    | replay actor acts row committed held completed =>
      intro caller outcome overtaken returned
      by_cases same : caller = actor
      · subst same
        obtain ⟨rows, batch, other, single, found, holdsBatch⟩ :=
          overtaken_completed reached overtaken
        rw [held] at found
        cases found
        rw [become_self] at returned
        cases returned
        rw [SqliteEventStore.completed_unique completed holdsBatch]
        exact ⟨rows, batch, single, rfl⟩
      · rw [become_other _ _ same] at returned
        exact holds caller outcome overtaken returned
    | commit actor acts db committed added row absent grown stored written completed =>
      intro caller outcome overtaken returned
      have nobody : ∀ other, s.overtaken other = false := by
        intro other
        cases behind : s.overtaken other with
        | false => rfl
        | true =>
          obtain ⟨_, _, _, _, found, _⟩ := overtaken_completed reached behind
          rw [absent] at found
          cases found
      by_cases same : caller = actor
      · subst same
        simp [become, commit, nobody] at overtaken
      · rw [become_other _ _ same] at returned
        have unevaluated : (s.phase caller).unevaluated = true := by
          simpa [become, commit, nobody, same] using overtaken
        have phase : s.phase caller = .returned outcome := returned
        rw [phase] at unevaluated
        cases unevaluated

end AtomicState

/-- Over any run, the promise holds in every state visited exactly when every step of an
overtaken caller is spared. -/
theorem replayBeatsFailure_iff {s t : AtomicState A} {actions : List (AtomicAction A)}
    (begun : (executeIdempotentAtomic store key calls).start s)
    (ran : (executeIdempotentAtomic store key calls).run s actions = some t) :
    (executeIdempotentAtomic store key calls).Along AtomicState.ReplayBeatsFailure s actions ↔
      (executeIdempotentAtomic store key calls).Meets (AtomicState.Spares store calls) s actions := by
  refine Machine.along_iff_meets ?_ (.start begun) ?_ ran
  · intro s action next reached holds stepped
    exact AtomicState.replayBeatsFailure_step reached holds stepped
  · intro caller outcome overtaken
    rw [begun.2.2.2 caller] at overtaken
    cases overtaken

/-- The second caller looks at the key once the first one's transaction is through. -/
def lateCheck : List (AtomicAction .account) :=
  [.loadIdempotent 0 none atEpoch, .load 0 none,
    .appendIdempotent 0 none atEpoch (fun _ => ⟨"e1", 0⟩), .loadIdempotent 1 none atEpoch]

theorem lateCheck_runs :
    ((executeIdempotentAtomic accountStore "k" openAccount).run beforeOpening lateCheck).isSome =
      true := by
  decide +kernel

theorem replayBeatsFailure_iff_account :
    (executeIdempotentAtomic accountStore "k" openAccount).Along AtomicState.ReplayBeatsFailure
      beforeOpening lateCheck := by
  refine (replayBeatsFailure_iff beforeOpening_start (Option.some_get lateCheck_runs).symm).mpr ?_
  refine ⟨fun _ => rfl, ?_⟩
  rintro _ ⟨⟩
  refine ⟨(fun overtaken => by cases overtaken), ?_⟩
  rintro _ ⟨⟩
  refine ⟨(fun overtaken => by cases overtaken), ?_⟩
  rintro _ ⟨⟩
  refine ⟨fun _ => rfl, ?_⟩
  rintro _ ⟨⟩
  trivial

/-- The first caller's transaction commits between the second caller's look at the key and
its load. -/
def lateLoad : List (AtomicAction .account) :=
  [.loadIdempotent 1 none atEpoch, .loadIdempotent 0 none atEpoch, .load 0 none,
    .appendIdempotent 0 none atEpoch (fun _ => ⟨"e1", 0⟩), .load 1 none]

/-- The second caller evaluates the same command on its own effect and reports the
aggregate's rejection, although the key is complete. -/
theorem lateLoad_rejected :
    ∃ s, (executeIdempotentAtomic accountStore "k" openAccount).run beforeOpening lateLoad = some s ∧
      s.overtaken 1 = true ∧ s.phase 0 = .returned (.ok openedBatch) ∧
      s.phase 1 = .returned (.error (.domain ())) ∧ ¬ s.ReplayBeatsFailure := by
  refine ⟨_, rfl, rfl, rfl, rfl, ?_⟩
  intro promise
  obtain ⟨_, _, _, impossible⟩ := promise 1 (.error (.domain ())) rfl rfl
  cases impossible

end DddCqrsEs
