import DddCqrsEs.ConnectionPool

/- A connection that is returned while threads wait is queued for one of them. The number of
waiting threads falls only when one wakes, so more connections can be queued than threads will
come for them. -/
namespace DddCqrsEs

open Transition

namespace Pool

variable {C : Type} {shared : PoolShared} {pool next : Pool C}

/-- A healthy connection lies in the queue or idle. -/
def HeldByNobody (shared : PoolShared) (probe : Probe C) (pool : Pool C) : Prop :=
  pool.state.handoffs ≠ [] ∨
    ∃ connection ∈ pool.state.idle, shared.idleConnectionIsUsable probe connection

/-- No connection is queued for nobody, and a thread that acquires while a healthy connection
is held by nobody leases one at once. -/
def Unstranded (shared : PoolShared) (pool : Pool C) : Prop :=
  (pool.waiting = [] → pool.state.handoffs = []) ∧
  ∀ probe expired, HeldByNobody shared probe pool →
    ∃ connection, (shared.turn probe expired pool.state).1 = .lease connection

/-- Nothing is returned in good health while a thread waits. -/
def ReturnsUnawaited (pool : Pool C) : PoolAction C → Prop
  | .giveBack lease => lease.broken ∨ pool.waiting = []
  | _ => True

/-- The last thread that waits does not wake to more than one queued connection. -/
def LastWakesToOne (pool : Pool C) : PoolAction C → Prop
  | .wake thread _ _ => pool.waiting = [thread] → pool.state.handoffs.length ≤ 1
  | _ => True

variable {probe : Probe C} {action : PoolAction C}

theorem checkout_usable {idle : List C} {connection : C} (present : connection ∈ idle)
    (usable : shared.idleConnectionIsUsable probe connection) :
    ∃ found rest, shared.checkout probe idle = (some found, rest) := by
  induction idle with
  | nil => cases present
  | cons first others ih =>
    by_cases good : shared.idleConnectionIsUsable probe first
    · exact ⟨first, others, by simp [PoolShared.checkout, good]⟩
    · rcases List.mem_cons.mp present with rfl | later
      · exact absurd usable good
      · simpa [PoolShared.checkout, good] using ih later

theorem turn_usable {connection : C} (expired : Bool) (present : connection ∈ pool.state.idle)
    (usable : shared.idleConnectionIsUsable probe connection) :
    ∃ found, (shared.turn probe expired pool.state).1 = .lease found := by
  obtain ⟨found, rest, looked⟩ := checkout_usable present usable
  exact ⟨found, by simp [PoolShared.turn, looked]⟩

theorem turn_no_idle (probe : Probe C) (expired : Bool) (drained : pool.state.idle = [])
    (connection : C) : (shared.turn probe expired pool.state).1 ≠ .lease connection := by
  simp only [PoolShared.turn, drained, PoolShared.checkout]
  split
  · split <;> simp
  · split <;> simp

theorem loop_handoffs (thread : Nat) (probe : Probe C) (expired : Bool) :
    (loop shared pool thread probe expired).state.handoffs = pool.state.handoffs := by
  rcases loop_cases shared pool thread probe expired with
    ⟨_, _, _, same⟩ | ⟨_, same⟩ | same | ⟨_, same⟩ <;> rw [same]

theorem loop_waiting (thread : Nat) (probe : Probe C) (expired : Bool) :
    (loop shared pool thread probe expired).waiting = pool.waiting ∨
      (loop shared pool thread probe expired).waiting = thread :: pool.waiting := by
  rcases loop_cases shared pool thread probe expired with
    ⟨_, _, _, same⟩ | ⟨_, same⟩ | same | ⟨_, same⟩
  · exact .inl (by rw [same])
  · exact .inl (by rw [same])
  · exact .inl (by rw [same])
  · exact .inr (by rw [same])

/-- While a thread waits no connection is idle. -/
theorem loop_idle (thread : Nat) (probe : Probe C) (expired : Bool)
    (drained : pool.waiting ≠ [] → pool.state.idle = [])
    (waits : (loop shared pool thread probe expired).waiting ≠ []) :
    (loop shared pool thread probe expired).state.idle = [] := by
  rcases loop_cases shared pool thread probe expired with
    ⟨connection, rest, split, same⟩ | ⟨_, same⟩ | same | ⟨_, same⟩
  · rw [same] at waits
    rw [drained waits] at split
    simp at split
  · rw [same]
  · rw [same]
  · rw [same]

variable [DecidableEq C]

/-- The queue after a step. -/
def queuedAfter (pool : Pool C) : PoolAction C → List C
  | .wake _ _ _ => pool.state.handoffs.tail
  | .giveBack lease =>
    if lease.broken ∨ pool.waiting = [] then pool.state.handoffs
    else pool.state.handoffs ++ [lease.connection]
  | _ => pool.state.handoffs

theorem step_handoffs (accounted : Accounted shared pool)
    (stepped : step shared pool action = some next) :
    next.state.handoffs = pool.queuedAfter action := by
  cases action with
  | acquire thread probe expired =>
    simp only [step, Option.ite_none_left_eq_some, Option.some.injEq] at stepped
    rw [← stepped.2]
    exact loop_handoffs thread probe expired
  | wake thread probe expired =>
    simp only [step, Option.ite_none_right_eq_some] at stepped
    obtain ⟨_, stepped⟩ := stepped
    cases queue : pool.state.handoffs with
    | nil =>
      simp only [awake, queue, Option.some.injEq] at stepped
      rw [← stepped, loop_handoffs, queuedAfter, queue]
      rfl
    | cons connection rest =>
      simp only [awake, queue, Option.some.injEq] at stepped
      rw [← stepped, queuedAfter, queue]
      rfl
  | connected | connectFailed | markBroken =>
    simp only [step, Option.ite_none_right_eq_some, Option.some.injEq] at stepped
    rw [← stepped.2]
    rfl
  | giveBack lease =>
    simp only [step, Option.ite_none_right_eq_some, Option.some.injEq] at stepped
    rw [← stepped.2]
    have waiters := accounted.waiters
    by_cases broken : lease.broken
    · simp [PoolLease.returned, broken, PoolState.giveBack, queuedAfter]
    · by_cases unawaited : pool.waiting = []
      · simp [PoolLease.returned, broken, PoolState.giveBack, waiters, unawaited, queuedAfter]
      · have some := List.length_pos_iff.mpr unawaited
        simp [PoolLease.returned, broken, PoolState.giveBack, waiters, unawaited, some,
          queuedAfter]

theorem wake_waiting {thread : Nat} {expired : Bool}
    (stepped : step shared pool (.wake thread probe expired) = some next) :
    next.waiting = pool.waiting.erase thread ∨
      next.waiting = thread :: pool.waiting.erase thread ∧ pool.state.handoffs = [] := by
  simp only [step, Option.ite_none_right_eq_some] at stepped
  obtain ⟨_, stepped⟩ := stepped
  cases queue : pool.state.handoffs with
  | nil =>
    simp only [awake, queue, Option.some.injEq] at stepped
    rw [← stepped]
    rcases loop_waiting thread probe expired with same | more
    · exact .inl same
    · exact .inr ⟨more, rfl⟩
  | cons connection rest =>
    simp only [awake, queue, Option.some.injEq] at stepped
    rw [← stepped]
    exact .inl rfl

/-- A thread stops waiting only by waking. -/
theorem step_waiting (stepped : step shared pool action = some next) (emptied : next.waiting = []) :
    pool.waiting = [] ∨
      ∃ thread probe expired, action = .wake thread probe expired ∧ pool.waiting = [thread] := by
  cases action with
  | acquire thread probe expired =>
    simp only [step, Option.ite_none_left_eq_some, Option.some.injEq] at stepped
    rw [← stepped.2] at emptied
    rcases loop_waiting thread probe expired with same | more
    · exact .inl (same.symm.trans emptied)
    · exact absurd (more.symm.trans emptied) (List.cons_ne_nil _ _)
  | wake thread probe expired =>
    rcases wake_waiting stepped with same | ⟨more, _⟩
    · rcases List.erase_eq_nil_iff.mp (same.symm.trans emptied) with none | one
      · exact .inl none
      · exact .inr ⟨thread, probe, expired, rfl, one⟩
    · exact absurd (more.symm.trans emptied) (List.cons_ne_nil _ _)
  | connected | connectFailed | markBroken | giveBack =>
    simp only [step, Option.ite_none_right_eq_some, Option.some.injEq] at stepped
    rw [← stepped.2] at emptied
    exact .inl emptied

/-- While a thread waits no connection is idle. -/
theorem waiting_idle (reached : (poolMachine shared).Reachable pool) :
    pool.waiting ≠ [] → pool.state.idle = [] := by
  refine Machine.invariant (I := fun pool => pool.waiting ≠ [] → pool.state.idle = []) ?_ ?_ reached
  · rintro _ ⟨seed, rfl⟩ waits
    exact absurd rfl waits
  · intro source action target earlier drained stepped waits
    have accounted := Accounted.reachable earlier
    simp only [poolMachine] at stepped
    cases action with
    | acquire thread probe expired =>
      simp only [step, Option.ite_none_left_eq_some, Option.some.injEq] at stepped
      rw [← stepped.2] at waits ⊢
      exact loop_idle thread probe expired drained waits
    | wake thread probe expired =>
      simp only [step, Option.ite_none_right_eq_some] at stepped
      obtain ⟨present, stepped⟩ := stepped
      have empty := drained (List.ne_nil_of_mem present)
      cases queue : source.state.handoffs with
      | nil =>
        simp only [awake, queue, Option.some.injEq] at stepped
        rw [← stepped] at waits ⊢
        exact loop_idle thread probe expired (fun _ => empty) waits
      | cons connection rest =>
        simp only [awake, queue, Option.some.injEq] at stepped
        rw [← stepped]
        exact empty
    | connected | connectFailed | markBroken =>
      simp only [step, Option.ite_none_right_eq_some, Option.some.injEq] at stepped
      rw [← stepped.2] at waits ⊢
      exact drained waits
    | giveBack lease =>
      simp only [step, Option.ite_none_right_eq_some, Option.some.injEq] at stepped
      rw [← stepped.2] at waits ⊢
      have some := List.length_pos_iff.mpr waits
      have waiters := accounted.waiters
      by_cases broken : lease.broken
      · simpa [PoolLease.returned, broken, PoolState.giveBack] using drained waits
      · simpa [PoolLease.returned, broken, PoolState.giveBack, waiters, some] using drained waits

/-- No connection is stranded exactly while none is queued. -/
theorem unstranded_iff (reached : (poolMachine shared).Reachable pool) :
    Unstranded shared pool ↔ pool.state.handoffs = [] := by
  refine ⟨?_, ?_⟩
  · rintro ⟨unqueued, served⟩
    by_contra queued
    have waits : pool.waiting ≠ [] := fun none => queued (unqueued none)
    obtain ⟨connection, leased⟩ :=
      served ⟨fun _ => 0, fun _ => true⟩ false (.inl queued)
    exact turn_no_idle _ _ (waiting_idle reached waits) connection leased
  · intro empty
    refine ⟨fun _ => empty, ?_⟩
    rintro probe expired (queued | ⟨connection, present, usable⟩)
    · exact absurd empty queued
    · exact turn_usable expired present usable

theorem step_unstranded (reached : (poolMachine shared).Reachable pool)
    (unstranded : Unstranded shared pool) (stepped : step shared pool action = some next) :
    Unstranded shared next ↔ pool.ReturnsUnawaited action := by
  have empty := (unstranded_iff reached).mp unstranded
  have after := step_handoffs (Accounted.reachable reached) stepped
  rw [unstranded_iff (reached.step stepped), after]
  cases action with
  | giveBack lease =>
    by_cases kept : lease.broken ∨ pool.waiting = []
    · simp [queuedAfter, ReturnsUnawaited, kept, empty]
    · simp [queuedAfter, ReturnsUnawaited, kept]
  | acquire | wake | connected | connectFailed | markBroken =>
    simp [queuedAfter, ReturnsUnawaited, empty]

theorem step_awaited (reached : (poolMachine shared).Reachable pool)
    (awaited : pool.waiting = [] → pool.state.handoffs = [])
    (stepped : step shared pool action = some next) :
    (next.waiting = [] → next.state.handoffs = []) ↔ pool.LastWakesToOne action := by
  have after := step_handoffs (Accounted.reachable reached) stepped
  cases action with
  | wake thread probe expired =>
    have tail : pool.state.handoffs.tail = [] ↔ pool.state.handoffs.length ≤ 1 := by
      rw [← List.length_eq_zero_iff, List.length_tail]
      omega
    rw [after, queuedAfter, LastWakesToOne, tail]
    refine ⟨?_, ?_⟩
    · intro kept last
      rcases wake_waiting stepped with same | ⟨_, empty⟩
      · exact kept (by rw [same, last, List.erase_cons_head])
      · simp [empty]
    · intro kept emptied
      rcases step_waiting stepped emptied with none | ⟨_, _, _, same, last⟩
      · simp [awaited none]
      · cases same
        exact kept last
  | acquire | connected | connectFailed | markBroken | giveBack =>
    refine iff_of_true ?_ trivial
    intro emptied
    rcases step_waiting stepped emptied with none | ⟨_, _, _, same, _⟩
    · rw [after]
      simp [queuedAfter, none, awaited none]
    · cases same

/-- Along any run, no connection is stranded exactly if none is returned in good health while
a thread waits, and none is queued for nobody exactly if the last thread to wake never leaves
one in the queue. -/
theorem stranded_iff {start : Pool C} {actions : List (PoolAction C)}
    (begun : (poolMachine shared).start start)
    (ran : (poolMachine shared).run start actions = some pool) :
    ((poolMachine shared).Along (Unstranded shared) start actions ↔
      (poolMachine shared).Meets ReturnsUnawaited start actions) ∧
    ((poolMachine shared).Along (fun pool => pool.waiting = [] → pool.state.handoffs = []) start
        actions ↔
      (poolMachine shared).Meets LastWakesToOne start actions) := by
  have reached := Machine.Reachable.start begun
  obtain ⟨seed, rfl⟩ := begun
  refine ⟨Machine.along_iff_meets ?_ reached ((unstranded_iff reached).mpr rfl) ran,
    Machine.along_iff_meets ?_ reached (fun _ => rfl) ran⟩
  · intro before action after reached unstranded stepped
    exact step_unstranded reached unstranded stepped
  · intro before action after reached awaited stepped
    exact step_awaited reached awaited stepped

end Pool

/-- A healthy lease is returned and taken again. A broken one makes room for the thread that
waits. -/
def renewing : List (PoolAction Nat) :=
  [.acquire 1 alwaysUsable false, .connected 1 1, .acquire 2 alwaysUsable false,
    .connected 2 2, .giveBack ⟨1, false⟩, .acquire 3 alwaysUsable false, .markBroken ⟨2, false⟩,
    .acquire 4 alwaysUsable false, .giveBack ⟨2, true⟩, .wake 4 alwaysUsable false,
    .connected 4 3]

/-- A healthy lease is returned while a thread waits, and handed to it. -/
def handingOver : List (PoolAction Nat) :=
  exhausting ++ [.giveBack ⟨1, false⟩, .wake 3 alwaysUsable false, .giveBack ⟨2, false⟩]

theorem renewing_meets : (poolMachine smallPool).Meets Pool.ReturnsUnawaited (Pool.build none)
    renewing :=
  .cons trivial rfl (.cons trivial rfl (.cons trivial rfl (.cons trivial rfl
    (.cons (.inr rfl) rfl (.cons trivial rfl (.cons trivial rfl (.cons trivial rfl
      (.cons (.inl rfl) rfl (.cons trivial rfl (.cons trivial rfl trivial))))))))))

theorem handingOver_meets : (poolMachine smallPool).Meets Pool.LastWakesToOne (Pool.build none)
    handingOver := by
  have before : (poolMachine smallPool).Meets Pool.LastWakesToOne (Pool.build none) exhausting :=
    .cons trivial rfl (.cons trivial rfl (.cons trivial rfl (.cons trivial rfl
      (.cons trivial rfl trivial))))
  exact before.append run_exhausting (.cons trivial rfl
    (.cons (fun _ => Nat.le_refl 1) rfl (.cons trivial rfl trivial)))

/-- The first run ends with two leases, the second one with a lease and an idle connection. -/
theorem stranded_iff_runs :
    (∃ pool, (poolMachine smallPool).run (Pool.build none) renewing = some pool ∧
      pool.leases.map PoolLease.connection = [3, 1] ∧
      (poolMachine smallPool).Along (Pool.Unstranded smallPool) (Pool.build none) renewing) ∧
    ∃ pool, (poolMachine smallPool).run (Pool.build none) handingOver = some pool ∧
      pool.leases.map PoolLease.connection = [1] ∧ pool.state.idle = [2] ∧
      (poolMachine smallPool).Along (fun pool => pool.waiting = [] → pool.state.handoffs = [])
        (Pool.build none) handingOver := by
  have renewed : (poolMachine smallPool).run (Pool.build none) renewing = some _ := rfl
  have handed : (poolMachine smallPool).run (Pool.build none) handingOver = some _ := rfl
  refine ⟨⟨_, renewed, rfl, ?_⟩, _, handed, rfl, rfl, ?_⟩
  · exact (Pool.stranded_iff ⟨none, rfl⟩ renewed).1.mpr renewing_meets
  · exact (Pool.stranded_iff ⟨none, rfl⟩ handed).2.mpr handingOver_meets

/-- Both leases are returned before the waiting thread has the lock again. -/
def bothReturned : List (PoolAction Nat) :=
  exhausting ++ [.giveBack ⟨1, false⟩, .giveBack ⟨2, false⟩, .wake 3 alwaysUsable false]

/-- One connection stays queued with nobody waiting, and the next thread waits for its whole
timeout and is refused. -/
theorem bothReturned_strands :
    ∃ pool, (poolMachine smallPool).run (Pool.build none) bothReturned = some pool ∧
      pool.waiting = [] ∧ pool.state.handoffs = [2] ∧ ¬ Pool.Unstranded smallPool pool ∧
      (smallPool.turn alwaysUsable false pool.state).1 = .wait ∧
      (smallPool.turn alwaysUsable true pool.state).1 = .refused (.connection
        "no pooled connection became available within 30s (2 of 2 connections leased)" none) := by
  refine ⟨_, rfl, rfl, rfl, ?_, rfl, by decide +kernel⟩
  intro unstranded
  cases unstranded.1 rfl

end DddCqrsEs
