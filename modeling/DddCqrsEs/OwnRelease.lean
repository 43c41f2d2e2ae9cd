import DddCqrsEs.LeasedExecution

/- What the release of a failing caller deletes. -/
namespace DddCqrsEs

open Transition

variable {A : Aggregate} {api : EventStoreApi A} {key : String} {calls : Nat → IdempotentCall A}

namespace IdempotentRun

theorem wait_silent (key : String) (call : IdempotentCall A) (read : WaitClock) :
    (IdempotentPhase.wait key call read).holds = false := by
  unfold IdempotentPhase.holds
  rw [(wait_idle key call read).1]
  rfl

theorem afterLoad_silent (key : String) (call : IdempotentCall A) (read : WaitClock)
    (found : Option (IdempotencyState (EventStream A))) :
    (IdempotentPhase.afterLoad key call read found).holds = false := by
  unfold IdempotentPhase.afterLoad
  split
  · rfl
  · split
    · rfl
    · exact wait_silent key call read
  · rfl

variable {s next : IdempotentRun A api} {actor caller : Nat} {phase : IdempotentPhase A}
  {action : IdempotentAction A api}

/-- After one caller moved, the callers at work are the earlier ones, if that one was. -/
theorem holds_become (before : phase.holds = true → (s.phase actor).holds = true)
    (working : ((s.become actor phase).phase caller).holds = true) :
    (s.phase caller).holds = true := by
  by_cases same : caller = actor
  · subst same
    rw [become_self] at working
    exact before working
  · rw [become_other _ _ same] at working
    exact working

theorem holds_returned {outcome : Except (IdempotentError A) (EventStream A)}
    (working : ((s.become actor (.returned outcome)).phase caller).holds = true) :
    (s.phase caller).holds = true :=
  holds_become (fun idle => by cases idle) working

/-- Nobody but the actor starts to work. -/
theorem holds_become_or (working : ((s.become actor phase).phase caller).holds = true) :
    caller = actor ∨ (s.phase caller).holds = true := by
  by_cases same : caller = actor
  · exact Or.inl same
  · rw [become_other _ _ same] at working
    exact Or.inr working

/-- What one step can do to the key: nothing, and then nobody starts to work; or a granted
reservation, a save or a release. -/
inductive KeyStep (key : String) (s next : IdempotentRun A api) : IdempotentAction A api → Prop
  | quiet {action : IdempotentAction A api} (keys : next.keys = s.keys)
      (working : ∀ caller, (next.phase caller).holds = true → (s.phase caller).holds = true)
      (refused : ∀ caller read, action = .reserve caller none read →
        (s.keys.reserve (nowMs read.clock) key).1 = false)
      (unsaved : ∀ caller read, action ≠ .save caller none read)
      (kept : ∀ caller, action ≠ .release caller none) : KeyStep key s next action
  | granted {caller : Nat} {read : WaitClock}
      (granted : (s.keys.reserve (nowMs read.clock) key).1 = true)
      (reserved : ∃ lease, next.keys.load key = some (.pending lease))
      (working : ∀ other, (next.phase other).holds = true →
        other = caller ∨ (s.phase other).holds = true) :
      KeyStep key s next (.reserve caller none read)
  | saved {caller : Nat} {read : WaitClock}
      (complete : ∃ committed, next.keys.load key = some (.complete committed))
      (idle : (next.phase caller).holds = false)
      (working : ∀ other, (next.phase other).holds = true → (s.phase other).holds = true) :
      KeyStep key s next (.save caller none read)
  | released {caller : Nat} (holder : (s.phase caller).holds = true)
      (absent : next.keys.load key = none)
      (working : ∀ other, (next.phase other).holds = true → (s.phase other).holds = true) :
      KeyStep key s next (.release caller none)

/-- A step that neither reserves nor saves nor releases. -/
theorem KeyStep.unrelated (keys : next.keys = s.keys)
    (working : ∀ caller, (next.phase caller).holds = true → (s.phase caller).holds = true)
    (unrelated : ∀ caller, (∀ read, action ≠ .reserve caller none read) ∧
      (∀ read, action ≠ .save caller none read) ∧ action ≠ .release caller none) :
    KeyStep key s next action := by
  refine .quiet keys working ?_ ?_ ?_
  · intro caller read same
    exact absurd same ((unrelated caller).1 read)
  · intro caller
    exact (unrelated caller).2.1
  · intro caller
    exact (unrelated caller).2.2

theorem step_keyStep (stepped : s.step key calls action = some next) :
    KeyStep key s next action := by
  cases action with
  | load caller fault read =>
    simp only [step] at stepped
    split at stepped
    · cases stepped
      refine .unrelated rfl (fun _ => holds_become ?_) (by simp)
      rw [afterLoad_silent]
      simp
    · cases stepped
      exact .unrelated rfl (fun _ => holds_returned) (by simp)
    · cases stepped
  | reserve caller fault read =>
    simp only [step] at stepped
    split at stepped
    · cases stepped
      cases granted : (s.keys.reserve (nowMs read.clock) key).1 with
      | true =>
        obtain ⟨_, reserved⟩ := InMemoryIdempotencyStore.reserve_granted
          (show s.keys.reserve (nowMs read.clock) key =
            (true, (s.keys.reserve (nowMs read.clock) key).2) from Prod.ext granted rfl)
        exact .granted granted reserved (fun _ working => holds_become_or working)
      | false =>
        have same := InMemoryIdempotencyStore.reserve_refused
          (show s.keys.reserve (nowMs read.clock) key =
            (false, (s.keys.reserve (nowMs read.clock) key).2) from Prod.ext granted rfl)
        refine .quiet same (fun _ => holds_become ?_) ?_ (by simp) (by simp)
        · unfold IdempotentPhase.afterReserve
          rw [wait_silent]
          simp
        · intro other reading same
          cases same
          exact granted
    · cases stepped
      exact .unrelated rfl (fun _ => holds_returned) (by simp)
    · cases stepped
  | loadEvents caller input =>
    simp only [step] at stepped
    split at stepped
    · rename_i executing
      cases stepped
      exact .unrelated rfl (fun _ => holds_become (fun _ => by rw [executing]; rfl)) (by simp)
    · cases stepped
  | append caller input =>
    simp only [step] at stepped
    split at stepped
    · rename_i expectedRevision events appending
      cases stepped
      unfold record
      split
      · exact .unrelated rfl (fun _ => holds_become (fun _ => by rw [appending]; rfl)) (by simp)
      · exact .unrelated rfl (fun _ => holds_become (fun _ => by rw [appending]; rfl)) (by simp)
    · cases stepped
  | save caller fault read =>
    simp only [step] at stepped
    split at stepped
    · rename_i committed attempt saving
      cases stepped
      refine .saved ⟨committed, InMemoryIdempotencyStore.load_save _ _ _⟩ ?_ ?_
      · rw [become_self]
        rfl
      intro other working
      exact holds_returned working
    · rename_i committed attempt error saving
      split at stepped
      · cases stepped
        exact .unrelated rfl (fun _ => holds_returned) (by simp)
      · cases stepped
        exact .unrelated rfl (fun _ => holds_become (fun _ => by rw [saving]; rfl)) (by simp)
    · cases stepped
  | release caller fault =>
    simp only [step] at stepped
    split at stepped
    · rename_i error attempt releasing
      cases stepped
      refine .released (by rw [releasing]; rfl) (InMemoryIdempotencyStore.load_remove key) ?_
      intro other working
      exact holds_returned working
    · rename_i error attempt fault releasing
      split at stepped
      · cases stepped
        exact .unrelated rfl (fun _ => holds_returned) (by simp)
      · cases stepped
        exact .unrelated rfl (fun _ => holds_become (fun _ => by rw [releasing]; rfl)) (by simp)
    · cases stepped
  | foreignAppend input aggregateId expectedRevision events =>
    cases stepped
    exact .unrelated rfl (fun _ working => working) (by simp)

end IdempotentRun

/-- A run, with who wrote what the key holds, who was overtaken, and what was deleted
wrongly. A caller is overtaken when another one reserves the key, or saves a result under
it, after the caller's own reservation. -/
structure ReleaseRun (A : Aggregate) (api : EventStoreApi A) where
  run : IdempotentRun A api
  author : Option Nat
  overtaken : Nat → Bool
  trespasses : List (Nat × IdempotencyState (EventStream A))

namespace ReleaseRun

/-- What a release at this time deletes although it is complete, or the live reservation of
another caller. -/
def trespass (key : String) (s : ReleaseRun A api) (caller : Nat) (instant : SystemTime) :
    List (Nat × IdempotencyState (EventStream A)) :=
  match s.run.keys.load key with
  | none => []
  | some (.complete committed) => [(caller, .complete committed)]
  | some (.pending lease) =>
    if lease.isExpired (nowMs instant) || s.author == some caller then []
    else [(caller, .pending lease)]

/-- What a step means for the record under the key. -/
def after (key : String) (s : ReleaseRun A api) (instant : SystemTime)
    (run : IdempotentRun A api) : IdempotentAction A api → ReleaseRun A api
  | .reserve caller none read =>
    if (s.run.keys.reserve (nowMs read.clock) key).1 then
      ⟨run, some caller, fun other => other != caller, s.trespasses⟩
    else { s with run := run }
  | .save caller none _ =>
    ⟨run, some caller, fun other => s.overtaken other || other != caller, s.trespasses⟩
  | .release caller none =>
    ⟨run, none, s.overtaken, s.trespasses ++ s.trespass key caller instant⟩
  | _ => { s with run := run }

/-- One step at one instant. -/
def step (key : String) (calls : Nat → IdempotentCall A) (s : ReleaseRun A api)
    (action : IdempotentAction A api × SystemTime) : Option (ReleaseRun A api) :=
  (s.run.step key calls action.1).map fun run => s.after key action.2 run action.1

variable {s : ReleaseRun A api}

theorem after_quiet {action : IdempotentAction A api}
    (refused : ∀ caller read, action = .reserve caller none read →
      (s.run.keys.reserve (nowMs read.clock) key).1 = false)
    (unsaved : ∀ caller read, action ≠ .save caller none read)
    (kept : ∀ caller, action ≠ .release caller none) (instant : SystemTime)
    (run : IdempotentRun A api) : s.after key instant run action = { s with run := run } := by
  unfold after
  split
  · rename_i caller read
    rw [if_neg (by rw [refused caller read rfl]; exact Bool.false_ne_true)]
  · rename_i caller read
    exact absurd rfl (unsaved caller read)
  · rename_i caller
    exact absurd rfl (kept caller)
  · rfl

theorem after_granted {caller : Nat} {read : WaitClock}
    (granted : (s.run.keys.reserve (nowMs read.clock) key).1 = true) (instant : SystemTime)
    (run : IdempotentRun A api) :
    s.after key instant run (.reserve caller none read) =
      ⟨run, some caller, fun other => other != caller, s.trespasses⟩ :=
  if_pos granted

/-- A caller that was overtaken releases only where nothing is left, or a reservation that
has expired. -/
def Harmless (key : String) (s : ReleaseRun A api) :
    IdempotentAction A api × SystemTime → Prop
  | (.release caller none, instant) => s.overtaken caller = true →
      ∀ state, s.run.keys.load key = some state → state.isExpiredPending (nowMs instant) = true
  | _ => True

/-- A caller at work finds its own reservation, unless it was overtaken; then what is
pending is not its own. -/
structure Attributed (key : String) (s : ReleaseRun A api) : Prop where
  own : ∀ caller, (s.run.phase caller).holds = true → s.overtaken caller = false →
    ∀ state, s.run.keys.load key = some state →
      (∃ lease, state = .pending lease) ∧ s.author = some caller
  others : ∀ caller, (s.run.phase caller).holds = true → s.overtaken caller = true →
    ∀ lease, s.run.keys.load key = some (.pending lease) → s.author ≠ some caller

end ReleaseRun

/-- The calls of `executeIdempotent`, with the time of every step. -/
def releases (api : EventStoreApi A) (key : String) (calls : Nat → IdempotentCall A) :
    Machine (ReleaseRun A api) (IdempotentAction A api × SystemTime) where
  start s := (executeIdempotent api key calls).start s.run ∧ s.trespasses = []
  step s action := s.step key calls action

namespace ReleaseRun

/-- A step that leaves the record and its history as they are. -/
theorem Attributed.quiet {s : ReleaseRun A api} (attributed : s.Attributed key)
    {run : IdempotentRun A api} (keys : run.keys = s.run.keys)
    (working : ∀ caller, (run.phase caller).holds = true → (s.run.phase caller).holds = true) :
    Attributed key { s with run := run } where
  own caller holds ahead state found := by
    rw [keys] at found
    exact attributed.own caller (working caller holds) ahead state found
  others caller holds behind lease found := by
    rw [keys] at found
    exact attributed.others caller (working caller holds) behind lease found

variable {s next : ReleaseRun A api} {action : IdempotentAction A api × SystemTime}

theorem step_attributed (attributed : s.Attributed key)
    (stepped : s.step key calls action = some next) : next.Attributed key := by
  obtain ⟨action, instant⟩ := action
  obtain ⟨run, ran, same⟩ := Option.map_eq_some_iff.mp stepped
  dsimp only at ran same
  cases IdempotentRun.step_keyStep ran with
  | quiet keys working refused unsaved kept =>
    rw [← same, after_quiet refused unsaved kept]
    exact attributed.quiet keys working
  | @granted actor read granted reserved working =>
    rw [after_granted granted] at same
    subst same
    refine ⟨?_, ?_⟩
    · intro caller holds ahead state found
      obtain ⟨lease, pending⟩ := reserved
      have own : caller = actor := by simpa using ahead
      exact ⟨⟨lease, Option.some.inj (found.symm.trans pending)⟩, congrArg some own.symm⟩
    · intro caller holds behind lease found same
      have other : caller ≠ actor := by simpa using behind
      exact other (Option.some.inj same).symm
  | @saved actor read complete idle working =>
    subst same
    obtain ⟨committed, stored⟩ := complete
    refine ⟨?_, ?_⟩
    · intro caller holds ahead state found
      have own : caller = actor := by
        have still : (s.overtaken caller || caller != actor) = false := ahead
        have both : s.overtaken caller = false ∧ caller = actor := by simpa using still
        exact both.2
      subst own
      exact absurd (holds.symm.trans idle) (by decide)
    · intro caller holds behind lease found
      cases found.symm.trans stored
  | released holder absent working =>
    subst same
    refine ⟨?_, ?_⟩
    · intro caller holds ahead state found
      cases found.symm.trans absent
    · intro caller holds behind lease found
      cases found.symm.trans absent

theorem releases_attributed (reached : (releases api key calls).Reachable s) :
    s.Attributed key := by
  refine Machine.invariant (I := fun s => s.Attributed key) ?_ ?_ reached
  · rintro s ⟨⟨_, waiting, _⟩, _⟩
    have idle : ∀ caller, (s.run.phase caller).holds = false := by
      intro caller
      rw [waiting caller]
      rfl
    refine ⟨?_, ?_⟩
    · intro caller holds
      exact absurd (holds.symm.trans (idle caller)) (by decide)
    · intro caller holds
      exact absurd (holds.symm.trans (idle caller)) (by decide)
  · intro s action next _ attributed stepped
    exact step_attributed attributed stepped

/-- What a release deletes wrongly, by the history of the key. -/
theorem Attributed.trespass_iff (attributed : s.Attributed key) {caller : Nat}
    (holds : (s.run.phase caller).holds = true) (instant : SystemTime) :
    s.trespass key caller instant = [] ↔ (s.overtaken caller = true →
      ∀ state, s.run.keys.load key = some state →
        state.isExpiredPending (nowMs instant) = true) := by
  unfold trespass
  cases found : s.run.keys.load key with
  | none => simp
  | some state =>
    cases behind : s.overtaken caller with
    | false =>
      obtain ⟨⟨lease, pending⟩, author⟩ := attributed.own caller holds behind state found
      subst pending
      simp [author]
    | true =>
      cases state with
      | complete committed => simp [IdempotencyState.isExpiredPending]
      | pending lease =>
        have foreign := attributed.others caller holds behind lease found
        simp [IdempotencyState.isExpiredPending, foreign]

/-- One step keeps the callers from deleting what is not theirs exactly if it is harmless. -/
theorem step_trespasses (attributed : s.Attributed key) (clean : s.trespasses = [])
    (stepped : s.step key calls action = some next) :
    next.trespasses = [] ↔ s.Harmless key action := by
  obtain ⟨action, instant⟩ := action
  obtain ⟨run, ran, same⟩ := Option.map_eq_some_iff.mp stepped
  dsimp only at ran same
  subst same
  cases IdempotentRun.step_keyStep ran with
  | quiet keys working refused unsaved kept =>
    rw [after_quiet refused unsaved kept]
    refine iff_of_true clean ?_
    cases action with
    | release caller fault =>
      cases fault with
      | none => exact absurd rfl (kept caller)
      | some error => trivial
    | load | reserve | loadEvents | append | save | foreignAppend => trivial
  | granted granted reserved working =>
    rw [after_granted granted]
    exact iff_of_true clean trivial
  | saved complete idle working => exact iff_of_true clean trivial
  | @released actor holder absent working =>
    show s.trespasses ++ s.trespass key actor instant = [] ↔ _
    rw [clean, List.nil_append]
    exact attributed.trespass_iff holder instant

end ReleaseRun

/-- Along any run, failing callers delete nothing but their own or expired reservations
exactly if every release is harmless. -/
theorem releases_ownOnly_iff {s t : ReleaseRun A api}
    {actions : List (IdempotentAction A api × SystemTime)}
    (begun : (releases api key calls).start s)
    (ran : (releases api key calls).run s actions = some t) :
    (releases api key calls).Along (fun s => s.trespasses = []) s actions ↔
      (releases api key calls).Meets (ReleaseRun.Harmless key) s actions := by
  refine Machine.along_iff_meets ?_ (.start begun) begun.2 ran
  intro before action after reached clean stepped
  exact ReleaseRun.step_trespasses (ReleaseRun.releases_attributed reached) clean stepped

def openOnce : Nat → IdempotentCall .account := fun _ => ⟨"a", (), .empty, .default⟩

def beforeRelease : ReleaseRun .account (memoryApi .account) :=
  ⟨⟨.new, .new, fun _ => .waiting, []⟩, none, fun _ => false, []⟩

theorem beforeRelease_start :
    (releases (memoryApi .account) "k" openOnce).start beforeRelease :=
  ⟨⟨(fun _ stored => by cases stored), fun _ => rfl, rfl⟩, rfl⟩

/-- The first caller is delayed past its lease, the second one opens the account and
completes the key; then the first one is rejected by the aggregate and releases. -/
def lateRelease : List (IdempotentAction .account (memoryApi .account) × SystemTime) :=
  [(.load 0 none (atSecond 0), 0), (.reserve 0 none (atSecond 0), 0),
    (.load 1 none (atSecond 61), 61000000000), (.reserve 1 none (atSecond 61), 61000000000),
    (.loadEvents 1 (fun _ => ⟨"e1", 0⟩), 61000000000), (.append 1 (fun _ => ⟨"e1", 0⟩), 61000000000),
    (.save 1 none (atSecond 61), 61000000000), (.loadEvents 0 (fun _ => ⟨"e2", 0⟩), 62000000000),
    (.release 0 none, 62000000000)]

theorem lateRelease_deletes :
    ∃ s committed, (releases (memoryApi .account) "k" openOnce).run beforeRelease lateRelease =
        some s ∧
      s.run.phase 1 = .returned (.ok committed) ∧ s.trespasses = [(0, .complete committed)] ∧
      s.run.keys.load "k" = none :=
  ⟨_, _, rfl, rfl, rfl, rfl⟩

/-- The second caller loads the key after the first one has released it. -/
def releasedInTime : List (IdempotentAction .account (memoryApi .account) × SystemTime) :=
  [(.load 0 none (atSecond 0), 0), (.reserve 0 none (atSecond 0), 0),
    (.foreignAppend (fun _ => ⟨"e1", 0⟩) "a" .noStream [⟨(), "account_opened", 1, .empty⟩], 0),
    (.loadEvents 0 (fun _ => ⟨"e2", 0⟩), 0), (.release 0 none, 1000000000),
    (.load 1 none (atSecond 2), 2000000000)]

theorem releases_ownOnly_iff_account :
    ((releases (memoryApi .account) "k" openOnce).run beforeRelease releasedInTime).isSome = true ∧
      (releases (memoryApi .account) "k" openOnce).Along (fun s => s.trespasses = [])
        beforeRelease releasedInTime := by
  have runs : ((releases (memoryApi .account) "k" openOnce).run beforeRelease
      releasedInTime).isSome = true := by decide +kernel
  -- only the release is guarded, and nobody has overtaken the caller that releases
  have harmless : (releases (memoryApi .account) "k" openOnce).Meets (ReleaseRun.Harmless "k")
      beforeRelease releasedInTime := by
    refine .cons trivial rfl (.cons trivial rfl (.cons trivial rfl (.cons trivial rfl ?_)))
    refine .cons ?_ rfl (.cons trivial rfl trivial)
    intro overtaken
    cases overtaken
  exact ⟨runs, (releases_ownOnly_iff beforeRelease_start (Option.some_get runs).symm).mpr harmless⟩

end DddCqrsEs
