import DddCqrsEs.ExecuteIdempotent
import DddCqrsEs.Once

/- At-most-once execution under leases: the runs in which it holds, and the takeover that
breaks it. -/
namespace DddCqrsEs

open Transition

variable {A : Aggregate} {api : EventStoreApi A} {key : String} {calls : Nat → IdempotentCall A}

namespace IdempotentRun

/-- A reservation takes over an expired lease only when no caller is still at work under
the key and none has appended. -/
def Undisturbed (key : String) (s : IdempotentRun A api) : IdempotentAction A api → Prop
  | .reserve _ none read => ∀ lease, s.keys.load key = some (.pending lease) →
      lease.isExpired (nowMs read.clock) = true →
        s.executed = [] ∧ ∀ other, (s.phase other).holds = false
  | _ => True

/-- The run seen as a write-once cell. One caller at most holds the key, it knows what has
been committed, and the key says so once nobody holds it. -/
structure Represents (key : String) (s : IdempotentRun A api) (cell : Once.Cell (EventStream A)) :
    Prop where
  committed : cell.committed = s.executed
  answers : ∀ caller committed, s.phase caller = .returned (.ok committed) →
    committed ∈ cell.answers
  held : ∀ caller executed, (s.phase caller).committedSoFar = some executed → s.executed = executed
  exclusive : ∀ caller other, (s.phase caller).holds = true → (s.phase other).holds = true →
    caller = other
  free : s.keys.load key = none → s.executed = [] ∧ ∀ caller, (s.phase caller).holds = false
  complete : ∀ committed, s.keys.load key = some (.complete committed) →
    s.executed = [committed] ∧ ∀ caller, (s.phase caller).holds = false

variable {s : IdempotentRun A api} {cell : Once.Cell (EventStream A)} {phase : IdempotentPhase A}

theorem Represents.alone (represents : Represents key s cell) {caller : Nat}
    (holds : (s.phase caller).holds = true) :
    ∀ other, other ≠ caller → (s.phase other).holds = false := by
  intro other different
  cases working : (s.phase other).holds with
  | false => rfl
  | true => exact absurd (represents.exclusive other caller working holds) different

/-- A property of every caller's phase after one caller moved. -/
theorem become_all {P : IdempotentPhase A → Prop} {actor : Nat} (own : P phase)
    (others : ∀ other, other ≠ actor → P (s.phase other)) :
    ∀ caller, P ((s.become actor phase).phase caller) := by
  intro caller
  by_cases same : caller = actor
  · rw [same, become_self]
    exact own
  · rw [become_other _ _ same]
    exact others caller same

/-- A caller moves on and may rewrite the key; nothing is appended. -/
theorem Represents.move (represents : Represents key s cell) (caller : Nat)
    {keys : InMemoryIdempotencyStore (EventStream A)}
    (held : ∀ executed, phase.committedSoFar = some executed → s.executed = executed)
    (alone : phase.holds = true → ∀ other, other ≠ caller → (s.phase other).holds = false)
    (free : keys.load key = none → s.executed = [] ∧ phase.holds = false ∧
      ∀ other, other ≠ caller → (s.phase other).holds = false)
    (complete : ∀ committed, keys.load key = some (.complete committed) →
      s.executed = [committed] ∧ phase.holds = false ∧
        ∀ other, other ≠ caller → (s.phase other).holds = false)
    (answered : ∀ committed, phase = .returned (.ok committed) → s.executed = [committed]) :
    ∃ moves next, (Once.cell (EventStream A)).run cell moves = some next ∧
      Represents key ({ s with keys := keys }.become caller phase) next := by
  have related : ∀ next : Once.Cell (EventStream A), next.committed = cell.committed →
      (∀ value ∈ cell.answers, value ∈ next.answers) →
      (∀ committed, phase = .returned (.ok committed) → committed ∈ next.answers) →
      Represents key ({ s with keys := keys }.become caller phase) next := by
    intro next same kept own
    refine ⟨same.trans represents.committed, ?_, ?_, ?_, ?_, ?_⟩
    · refine become_all (P := fun phase => ∀ committed, phase = .returned (.ok committed) →
        committed ∈ next.answers) own ?_
      intro other _ committed returned
      exact kept committed (represents.answers other committed returned)
    · refine become_all (P := fun phase => ∀ executed, phase.committedSoFar = some executed →
        s.executed = executed) held ?_
      intro other _
      exact represents.held other
    · intro first second holdsFirst holdsSecond
      by_cases firstSame : first = caller <;> by_cases secondSame : second = caller
      · rw [firstSame, secondSame]
      · rw [firstSame, become_self] at holdsFirst
        rw [become_other _ _ secondSame] at holdsSecond
        have idle := alone holdsFirst second secondSame
        exact absurd (holdsSecond.symm.trans idle) (by decide)
      · rw [secondSame, become_self] at holdsSecond
        rw [become_other _ _ firstSame] at holdsFirst
        have idle := alone holdsSecond first firstSame
        exact absurd (holdsFirst.symm.trans idle) (by decide)
      · rw [become_other _ _ firstSame] at holdsFirst
        rw [become_other _ _ secondSame] at holdsSecond
        exact represents.exclusive first second holdsFirst holdsSecond
    · intro absent
      obtain ⟨nothing, own, others⟩ := free absent
      exact ⟨nothing, become_all (P := fun phase => phase.holds = false) own others⟩
    · intro committed stored
      obtain ⟨single, own, others⟩ := complete committed stored
      exact ⟨single, become_all (P := fun phase => phase.holds = false) own others⟩
  by_cases answers : ∃ committed, phase = .returned (.ok committed)
  · obtain ⟨committed, rfl⟩ := answers
    have full : cell.committed = [committed] := represents.committed.trans (answered committed rfl)
    refine ⟨[.answer], cell.answered committed, ?_, related _ rfl ?_ ?_⟩
    · rw [Machine.run_cons, Once.step_answer full]
      rfl
    · intro value earlier
      exact List.mem_append_left _ earlier
    · intro other same
      cases same
      exact List.mem_append_right _ (List.mem_singleton.mpr rfl)
  · refine ⟨[], cell, rfl, related cell rfl (fun _ earlier => earlier) ?_⟩
    intro committed returned
    exact absurd ⟨committed, returned⟩ answers

/-- A caller that does not hold the key afterwards leaves it alone. -/
theorem Represents.pass (represents : Represents key s cell) (caller : Nat)
    (idle : phase.committedSoFar = none)
    (answered : ∀ committed, phase = .returned (.ok committed) → s.executed = [committed]) :
    ∃ moves next, (Once.cell (EventStream A)).run cell moves = some next ∧
      Represents key (s.become caller phase) next := by
  have silent : phase.holds = false := by rw [IdempotentPhase.holds, idle]; rfl
  refine represents.move caller ?_ ?_ ?_ ?_ answered
  · intro executed holds
    rw [idle] at holds
    cases holds
  · intro holds
    rw [silent] at holds
    cases holds
  · intro absent
    obtain ⟨nothing, nobody⟩ := represents.free absent
    exact ⟨nothing, silent, fun other _ => nobody other⟩
  · intro committed stored
    obtain ⟨single, nobody⟩ := represents.complete committed stored
    exact ⟨single, silent, fun other _ => nobody other⟩

/-- A caller that holds the key goes on with it. -/
theorem Represents.advance (represents : Represents key s cell) (caller : Nat)
    (holds : (s.phase caller).committedSoFar = phase.committedSoFar)
    (working : phase.holds = true) :
    ∃ moves next, (Once.cell (EventStream A)).run cell moves = some next ∧
      Represents key (s.become caller phase) next := by
  have before : (s.phase caller).holds = true := by
    rw [IdempotentPhase.holds, holds]
    exact working
  refine represents.move caller ?_ ?_ ?_ ?_ ?_
  · intro executed same
    exact represents.held caller executed (holds.trans same)
  · intro _
    exact represents.alone before
  · intro absent
    have idle := (represents.free absent).2 caller
    exact absurd (before.symm.trans idle) (by decide)
  · intro committed stored
    have idle := (represents.complete committed stored).2 caller
    exact absurd (before.symm.trans idle) (by decide)
  · rintro committed rfl
    cases working

/-- The append of the caller that holds the key fills the cell. -/
theorem Represents.commit (represents : Represents key s cell) (caller : Nat) (events : api.State)
    (committed : EventStream A) (holds : (s.phase caller).committedSoFar = some []) :
    ∃ next, (Once.cell (EventStream A)).run cell [.commit committed] = some next ∧
      Represents key (s.record caller (.ok committed, events)) next := by
  have working : (s.phase caller).holds = true := by rw [IdempotentPhase.holds, holds]; rfl
  have nothing := represents.held caller [] holds
  have idle := represents.alone working
  have fresh : cell.committed = [] := represents.committed.trans nothing
  refine ⟨{ cell with committed := [committed] }, ?_, ?_, ?_, ?_, ?_, ?_, ?_⟩
  · rw [Machine.run_cons, Once.step_commit fresh]
    rfl
  · show [committed] = s.executed ++ [committed]
    rw [nothing]
    rfl
  · refine become_all (P := fun phase => ∀ answer, phase = .returned (.ok answer) →
      answer ∈ cell.answers) ?_ ?_
    · intro answer returned
      cases returned
    · intro other _ answer returned
      exact represents.answers other answer returned
  · refine become_all (P := fun phase => ∀ executed, phase.committedSoFar = some executed →
      s.executed ++ [committed] = executed) ?_ ?_
    · intro executed same
      cases same
      rw [nothing]
      rfl
    · intro other different executed same
      have quiet := idle other different
      rw [IdempotentPhase.holds, same] at quiet
      cases quiet
  · have only : ∀ other, ((s.record caller (.ok committed, events)).phase other).holds = true →
        other = caller := by
      intro other holdsOther
      by_cases same : other = caller
      · exact same
      · rw [record, become_other _ _ same] at holdsOther
        exact absurd (holdsOther.symm.trans (idle other same)) (by decide)
    intro first second holdsFirst holdsSecond
    rw [only first holdsFirst, only second holdsSecond]
  · intro absent
    have quiet := (represents.free absent).2 caller
    exact absurd (working.symm.trans quiet) (by decide)
  · intro other stored
    have quiet := (represents.complete other stored).2 caller
    exact absurd (working.symm.trans quiet) (by decide)

theorem wait_idle (key : String) (call : IdempotentCall A) (read : WaitClock) :
    (IdempotentPhase.wait key call read).committedSoFar = none ∧
      ∀ committed, IdempotentPhase.wait key call read ≠ .returned (.ok committed) := by
  rw [IdempotentPhase.wait]
  split <;> simp [IdempotentPhase.committedSoFar]

theorem Represents.load (represents : Represents key s cell) (caller : Nat)
    (call : IdempotentCall A) (read : WaitClock) :
    ∃ moves next, (Once.cell (EventStream A)).run cell moves = some next ∧
      Represents key (s.become caller (.afterLoad key call read (s.keys.load key))) next := by
  cases found : s.keys.load key with
  | none => exact represents.pass caller rfl (fun _ returned => by cases returned)
  | some state =>
    cases state with
    | complete committed =>
      refine represents.pass caller rfl ?_
      intro answer returned
      cases returned
      exact (represents.complete committed found).1
    | pending lease =>
      rw [IdempotentPhase.afterLoad]
      split
      · exact represents.pass caller rfl (fun _ returned => by cases returned)
      · obtain ⟨idle, unanswered⟩ := wait_idle key call read
        exact represents.pass caller idle (fun committed returned =>
          absurd returned (unanswered committed))

theorem Represents.reserve (represents : Represents key s cell) (caller : Nat)
    (call : IdempotentCall A) (read : WaitClock)
    (undisturbed : Undisturbed key s (.reserve caller none read)) :
    ∃ moves next, (Once.cell (EventStream A)).run cell moves = some next ∧
      Represents key ({ s with keys := (s.keys.reserve (nowMs read.clock) key).2 }.become caller
        (.afterReserve key call read (s.keys.reserve (nowMs read.clock) key).1)) next := by
  cases outcome : s.keys.reserve (nowMs read.clock) key with
  | mk reserved keys =>
    cases reserved with
    | false =>
      rw [InMemoryIdempotencyStore.reserve_refused outcome]
      obtain ⟨idle, unanswered⟩ := wait_idle key call read
      exact represents.pass caller idle (fun committed returned =>
        absurd returned (unanswered committed))
    | true =>
      obtain ⟨before, lease, after⟩ := InMemoryIdempotencyStore.reserve_granted outcome
      have unused : s.executed = [] ∧ ∀ other, (s.phase other).holds = false := by
        rcases before with absent | ⟨held, pending, expired⟩
        · exact represents.free absent
        · exact undisturbed held pending expired
      refine represents.move caller ?_ ?_ ?_ ?_ (fun _ returned => by cases returned)
      · intro executed same
        cases same
        exact unused.1
      · intro _ other _
        exact unused.2 other
      · intro absent
        rw [after] at absent
        cases absent
      · intro committed stored
        rw [after] at stored
        cases stored

theorem Represents.append (represents : Represents key s cell) (caller : Nat)
    (holds : (s.phase caller).committedSoFar = some [])
    (result : Except EventStoreError (EventStream A) × api.State) :
    ∃ moves next, (Once.cell (EventStream A)).run cell moves = some next ∧
      Represents key (s.record caller result) next := by
  obtain ⟨outcome, events⟩ := result
  cases outcome with
  | ok committed =>
    obtain ⟨next, ran, related⟩ := represents.commit caller events committed holds
    exact ⟨[.commit committed], next, ran, related⟩
  | error error =>
    obtain ⟨moves, next, ran, related⟩ :=
      represents.advance caller (holds.trans rfl : _ = (IdempotentPhase.releasing (.fromStoreError error) 1).committedSoFar) rfl
    exact ⟨moves, next, ran, related.committed, related.answers, related.held,
      related.exclusive, related.free, related.complete⟩

theorem afterEventLoad_holds (call : IdempotentCall A)
    (loaded : Except EventStoreError (EventStream A)) :
    (IdempotentPhase.afterEventLoad call loaded).committedSoFar = some [] := by
  cases loaded with
  | error error => rfl
  | ok stream =>
    rw [IdempotentPhase.afterEventLoad]
    split <;> rfl

/-- As long as no reservation disturbs a caller at work, every step is, for the cell, some
commits and answers. -/
theorem Represents.step {next : IdempotentRun A api} {action : IdempotentAction A api}
    (represents : Represents key s cell) (undisturbed : Undisturbed key s action)
    (stepped : s.step key calls action = some next) :
    ∃ moves after, (Once.cell (EventStream A)).run cell moves = some after ∧
      Represents key next after := by
  cases action with
  | load caller fault read =>
    simp only [IdempotentRun.step] at stepped
    split at stepped
    · cases stepped
      exact represents.load caller (calls caller) read
    · cases stepped
      exact represents.pass caller rfl (fun _ returned => by cases returned)
    · cases stepped
  | reserve caller fault read =>
    simp only [IdempotentRun.step] at stepped
    split at stepped
    · cases stepped
      exact represents.reserve caller (calls caller) read undisturbed
    · cases stepped
      exact represents.pass caller rfl (fun _ returned => by cases returned)
    · cases stepped
  | loadEvents caller input =>
    simp only [IdempotentRun.step] at stepped
    split at stepped
    · rename_i executing
      cases stepped
      have holds := afterEventLoad_holds (calls caller)
        (api.load s.events input (calls caller).aggregateId)
      refine represents.advance caller ?_ ?_
      · rw [executing, holds]
        rfl
      · rw [IdempotentPhase.holds, holds]
        rfl
    · cases stepped
  | append caller input =>
    simp only [IdempotentRun.step] at stepped
    split at stepped
    · rename_i expectedRevision events appending
      cases stepped
      exact represents.append caller (by rw [appending]; rfl) _
    · cases stepped
  | save caller fault read =>
    simp only [IdempotentRun.step] at stepped
    split at stepped
    · rename_i committed attempt saving
      cases stepped
      have single := represents.held caller [committed] (by rw [saving]; rfl)
      have idle := represents.alone (by rw [saving]; rfl : (s.phase caller).holds = true)
      refine represents.move caller ?_ ?_ ?_ ?_ ?_
      · intro executed holds
        cases holds
      · intro holds
        cases holds
      · intro absent
        simp at absent
      · intro other stored
        simp only [InMemoryIdempotencyStore.load_save, Option.some.injEq,
          IdempotencyState.complete.injEq] at stored
        rw [← stored]
        exact ⟨single, rfl, idle⟩
      · intro answer returned
        cases returned
        exact single
    · rename_i committed attempt error saving
      split at stepped
      · cases stepped
        exact represents.pass caller rfl (fun _ returned => by cases returned)
      · cases stepped
        exact represents.advance caller (by rw [saving]; rfl) rfl
    · cases stepped
  | release caller fault =>
    simp only [IdempotentRun.step] at stepped
    split at stepped
    · rename_i error attempt releasing
      cases stepped
      have nothing := represents.held caller [] (by rw [releasing]; rfl)
      have idle := represents.alone (by rw [releasing]; rfl : (s.phase caller).holds = true)
      refine represents.move caller ?_ ?_ ?_ ?_ ?_
      · intro executed holds
        cases holds
      · intro holds
        cases holds
      · intro _
        exact ⟨nothing, rfl, idle⟩
      · intro committed stored
        simp at stored
      · intro answer returned
        cases returned
    · rename_i error attempt fault releasing
      split at stepped
      · cases stepped
        exact represents.pass caller rfl (fun _ returned => by cases returned)
      · cases stepped
        exact represents.advance caller (by rw [releasing]; rfl) rfl
    · cases stepped
  | foreignAppend input aggregateId expectedRevision events =>
    cases stepped
    exact ⟨[], cell, rfl, represents.committed, represents.answers, represents.held,
      represents.exclusive, represents.free, represents.complete⟩

theorem simulates (api : EventStoreApi A) (key : String) (calls : Nat → IdempotentCall A) :
    Machine.Simulates ((executeIdempotent api key calls).restrict (Undisturbed key))
      (Once.cell (EventStream A)) (Represents key) where
  start := by
    rintro s ⟨incomplete, waiting, nothing⟩
    have idle : ∀ caller, (s.phase caller).holds = false := by
      intro caller
      rw [waiting caller]
      rfl
    refine ⟨Once.Cell.empty, ⟨Nat.zero_le 1, rfl⟩, nothing.symm, ?_, ?_, ?_, fun _ => ⟨nothing, idle⟩, ?_⟩
    · intro caller committed returned
      rw [waiting caller] at returned
      cases returned
    · intro caller executed holds
      rw [waiting caller] at holds
      cases holds
    · intro caller _ holds _
      exact absurd (holds.symm.trans (idle caller)) (by decide)
    · intro committed stored
      exact absurd stored (incomplete committed)
  step := by
    intro s action next cell represents stepped
    obtain ⟨undisturbed, stepped⟩ := (Machine.restrict_step_iff _ _ _ _).mp stepped
    exact represents.step undisturbed stepped

end IdempotentRun

def postEntry : Nat → IdempotentCall .ledger := fun _ => ⟨"a", (), .empty, .default⟩

def beforePosting : IdempotentRun .ledger (memoryApi .ledger) :=
  ⟨.new, .new, fun _ => .waiting, []⟩

theorem beforePosting_start :
    (executeIdempotent (memoryApi .ledger) "k" postEntry).start beforePosting :=
  ⟨(fun _ stored => by cases stored), fun _ => rfl, rfl⟩

def atSecond (seconds : Nat) : WaitClock :=
  ⟨(seconds * 1000000000 : Nat), (seconds * 1000000000 : Nat), 0, 0⟩

/-- The generic path takes effect at most once in every run in which no reservation takes
over an expired lease while its holder is still at work or after it has appended: the
command's events are appended at most once, and every caller that returns committed events
returns that commit. -/
theorem executeIdempotent_atMostOnce {s : IdempotentRun A api}
    (reached : ((executeIdempotent api key calls).restrict
      (IdempotentRun.Undisturbed key)).Reachable s) :
    s.executed.length ≤ 1 ∧
      ∀ caller committed, s.phase caller = .returned (.ok committed) → s.executed = [committed] := by
  obtain ⟨cell, cellReached, represents⟩ :=
    (IdempotentRun.simulates api key calls).reachable reached
  have agrees := Once.agrees cellReached
  rw [← represents.committed]
  refine ⟨agrees.atMostOnce, ?_⟩
  intro caller committed returned
  exact agrees.answers committed (represents.answers caller committed returned)

/-- The second caller loads the key once the first one has saved. -/
def savedInTime : List (IdempotentAction .ledger (memoryApi .ledger)) :=
  [.load 0 none (atSecond 0), .reserve 0 none (atSecond 0), .loadEvents 0 (fun _ => ⟨"e1", 0⟩),
    .append 0 (fun _ => ⟨"e1", 0⟩), .save 0 none (atSecond 1), .load 1 none (atSecond 61)]

theorem executeIdempotent_atMostOnce_ledger :
    ∃ (s : IdempotentRun .ledger (memoryApi .ledger)) (committed : EventStream .ledger),
      s.phase 1 = .returned (.ok committed) ∧ s.executed = [committed] := by
  have runs : ((executeIdempotent (memoryApi .ledger) "k" postEntry).run beforePosting
      savedInTime).isSome = true := by decide +kernel
  have meets : (executeIdempotent (memoryApi .ledger) "k" postEntry).Meets
      (IdempotentRun.Undisturbed "k") beforePosting savedInTime := by
    refine ⟨trivial, ?_⟩
    rintro _ ⟨⟩
    refine ⟨(fun _ pending => by cases pending), ?_⟩
    rintro _ ⟨⟩
    refine ⟨trivial, ?_⟩
    rintro _ ⟨⟩
    refine ⟨trivial, ?_⟩
    rintro _ ⟨⟩
    refine ⟨trivial, ?_⟩
    rintro _ ⟨⟩
    refine ⟨trivial, ?_⟩
    rintro _ ⟨⟩
    trivial
  have begun : ((executeIdempotent (memoryApi .ledger) "k" postEntry).restrict
      (IdempotentRun.Undisturbed "k")).Reachable beforePosting := .start beforePosting_start
  have reached := meets.reachable begun (Option.some_get runs).symm
  refine ⟨Option.get _ runs, _, rfl, ?_⟩
  exact (executeIdempotent_atMostOnce reached).2 1 _ rfl

/-- The first caller appends and is then delayed past its lease; the second one takes the
key over before the first one saves. -/
def leaseTakeover : List (IdempotentAction .ledger (memoryApi .ledger)) :=
  [.load 0 none (atSecond 0), .reserve 0 none (atSecond 0), .loadEvents 0 (fun _ => ⟨"e1", 0⟩),
    .append 0 (fun _ => ⟨"e1", 0⟩), .load 1 none (atSecond 61), .reserve 1 none (atSecond 61),
    .loadEvents 1 (fun _ => ⟨"e2", 0⟩), .append 1 (fun _ => ⟨"e2", 0⟩), .save 0 none (atSecond 62),
    .save 1 none (atSecond 62)]

/-- The command's events are appended twice, and the callers return different commits. -/
theorem leaseTakeover_executesTwice :
    ∃ s first second, (executeIdempotent (memoryApi .ledger) "k" postEntry).run beforePosting
        leaseTakeover = some s ∧
      s.phase 0 = .returned (.ok first) ∧ s.phase 1 = .returned (.ok second) ∧
      s.executed = [first, second] ∧ s.events.global = first ++ second ∧ first ≠ second := by
  refine ⟨_, _, _, rfl, rfl, rfl, rfl, rfl, ?_⟩
  intro same
  have revisions := congrArg (List.map (·.revision)) same
  cases revisions

end DddCqrsEs
