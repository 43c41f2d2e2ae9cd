import DddCqrsEs.Event
import DddCqrsEs.Transition
import Mathlib.Data.List.Nodup
import Mathlib.Data.List.Perm.Basic

/- The connection pool: threads acquire and return connections, each section that holds the
pool's lock is one step, and any thread may come next. A counter that was decremented below
zero would show as a negative number. -/
namespace DddCqrsEs

open Transition

def overrideMinSize : Nat := 1

def overrideMaxSize : Nat := 128

def defaultMinSize : Nat := 2

def defaultMaxSize : Nat := 8

/-- `env` is what the environment variable parses to, `parallelism` the CPU count. -/
def resolvePoolSize (explicit env parallelism : Option Nat) : Nat :=
  match explicit.or env with
  | some size => max overrideMinSize (min size overrideMaxSize)
  | none => max defaultMinSize (min (parallelism.getD defaultMinSize) defaultMaxSize)

theorem resolvePoolSize_pos (explicit env parallelism : Option Nat) :
    0 < resolvePoolSize explicit env parallelism := by
  unfold resolvePoolSize
  split
  · exact Nat.lt_of_lt_of_le (by decide) (Nat.le_max_left _ _)
  · exact Nat.lt_of_lt_of_le (by decide) (Nat.le_max_left _ _)

structure PoolShared where
  maxSize : Nat
  /-- Pools hold one connection or a resolved number of them. -/
  positive : 0 < maxSize
  /-- As it is printed. -/
  acquireTimeout : String
  maxIdleAge : Option Nat
  /-- Whether there is a factory to connect with, and a check of idle connections. -/
  connects : Bool
  validates : Bool

variable {C : Type}

/-- The newest idle connection comes first. -/
structure PoolState (C : Type) where
  idle : List C
  leased : Int
  handoffs : List C
  waiters : Int

/-- What one look at the idle connections finds: how long each was idle, and whether it
answers. -/
structure Probe (C : Type) where
  elapsed : C → Nat
  validate : C → Bool

namespace PoolShared

variable (shared : PoolShared)

def idleConnectionIsUsable (probe : Probe C) (connection : C) : Bool :=
  match shared.maxIdleAge with
  | some maxIdleAge =>
    if maxIdleAge < probe.elapsed connection then false
    else if shared.validates then probe.validate connection
    else true
  | none => if shared.validates then probe.validate connection else true

/-- Pop idle connections up to the first usable one. -/
def checkout (probe : Probe C) : List C → Option C × List C
  | [] => (none, [])
  | connection :: rest =>
    if shared.idleConnectionIsUsable probe connection then (some connection, rest)
    else checkout probe rest

end PoolShared

/-- How one turn of the loop in `acquire` ends. -/
inductive Turn (C : Type) where
  | lease (connection : C)
  | connect
  | refused (error : EventStoreError)
  | wait
  deriving DecidableEq

/-- A turn of the loop from its head. `expired` tells whether the deadline has passed. -/
def PoolShared.turn (shared : PoolShared) (probe : Probe C) (expired : Bool)
    (state : PoolState C) : Turn C × PoolState C :=
  match shared.checkout probe state.idle with
  | (some connection, idle) =>
    (.lease connection, { state with idle := idle, leased := state.leased + 1 })
  | (none, idle) =>
    let state := { state with idle := idle }
    if state.leased < (shared.maxSize : Int) then
      if shared.connects then (.connect, { state with leased := state.leased + 1 })
      else (.refused (.backend
        "no pooled connection is available and no reconnect factory is configured" none), state)
    else if expired then
      (.refused (.connection ("no pooled connection became available within " ++
        shared.acquireTimeout ++ " (" ++ toString state.leased ++ " of " ++
        toString shared.maxSize ++ " connections leased)") none), state)
    else (.wait, { state with waiters := state.waiters + 1 })

def PoolState.giveBack (state : PoolState C) : Option C → PoolState C
  | some connection =>
    if 0 < state.waiters then { state with handoffs := state.handoffs ++ [connection] }
    else { state with leased := state.leased - 1, idle := connection :: state.idle }
  | none => { state with leased := state.leased - 1 }

/-- The guard of a connect that failed is dropped. The subtraction saturates. -/
def PoolState.releaseSlot (state : PoolState C) : PoolState C :=
  { state with leased := max (state.leased - 1) 0 }

structure PoolLease (C : Type) where
  connection : C
  broken : Bool
  deriving DecidableEq

/-- What a lease that is dropped gives back. -/
def PoolLease.returned (lease : PoolLease C) : Option C :=
  if lease.broken then none else some lease.connection

/-- The pool, the threads inside `acquire`, the leases that are held, and every connection
that the pool ever had or let go. -/
structure Pool (C : Type) where
  state : PoolState C
  connecting : List Nat
  waiting : List Nat
  leases : List (PoolLease C)
  opened : List C
  discarded : List C

/-- A connect that is given up on counts as failed, whenever its thread returns. A waiting
thread may wake for any reason. -/
inductive PoolAction (C : Type) where
  | acquire (thread : Nat) (probe : Probe C) (expired : Bool)
  | wake (thread : Nat) (probe : Probe C) (expired : Bool)
  | connected (thread : Nat) (connection : C)
  | connectFailed (thread : Nat)
  | markBroken (lease : PoolLease C)
  | giveBack (lease : PoolLease C)

namespace Pool

def build (seed : Option C) : Pool C where
  state := ⟨seed.toList, 0, [], 0⟩
  connecting := []
  waiting := []
  leases := []
  opened := seed.toList
  discarded := []

/-- The idle connections a turn pops and does not hand out. -/
def passed (shared : PoolShared) (probe : Probe C) (idle : List C) : List C :=
  idle.takeWhile (fun connection => !shared.idleConnectionIsUsable probe connection)

/-- A thread runs the loop until it leaves the locked section. -/
def loop (shared : PoolShared) (pool : Pool C) (thread : Nat) (probe : Probe C)
    (expired : Bool) : Pool C :=
  let discarded := passed shared probe pool.state.idle ++ pool.discarded
  match shared.turn probe expired pool.state with
  | (.lease connection, state) =>
    { pool with
      state := state, discarded := discarded, leases := ⟨connection, false⟩ :: pool.leases }
  | (.connect, state) =>
    { pool with state := state, discarded := discarded, connecting := thread :: pool.connecting }
  | (.refused _, state) => { pool with state := state, discarded := discarded }
  | (.wait, state) =>
    { pool with state := state, discarded := discarded, waiting := thread :: pool.waiting }

/-- A waiting thread has the lock again. -/
def awake (pool : Pool C) (thread : Nat) : Pool C :=
  { pool with
    state := { pool.state with waiters := pool.state.waiters - 1 }
    waiting := pool.waiting.erase thread }

variable [DecidableEq C]

/-- One section that holds the lock. A thread that wakes takes the head of the queue, and
without one its loop starts over. -/
def step (shared : PoolShared) (pool : Pool C) : PoolAction C → Option (Pool C)
  | .acquire thread probe expired =>
    if thread ∈ pool.connecting ∨ thread ∈ pool.waiting then none
    else some (loop shared pool thread probe expired)
  | .wake thread probe expired =>
    if thread ∈ pool.waiting then
      let pool := pool.awake thread
      match pool.state.handoffs with
      | connection :: rest =>
        some { pool with
          state := { pool.state with handoffs := rest }
          leases := ⟨connection, false⟩ :: pool.leases }
      | [] => some (loop shared pool thread probe expired)
    else none
  | .connected thread connection =>
    if thread ∈ pool.connecting ∧ connection ∉ pool.opened then
      some { pool with
        connecting := pool.connecting.erase thread
        leases := ⟨connection, false⟩ :: pool.leases
        opened := connection :: pool.opened }
    else none
  | .connectFailed thread =>
    if thread ∈ pool.connecting then
      some { pool with
        state := pool.state.releaseSlot, connecting := pool.connecting.erase thread }
    else none
  | .markBroken lease =>
    if lease ∈ pool.leases then
      some { pool with leases := { lease with broken := true } :: pool.leases.erase lease }
    else none
  | .giveBack lease =>
    if lease ∈ pool.leases then
      some { pool with
        state := pool.state.giveBack lease.returned
        leases := pool.leases.erase lease
        discarded := (if lease.broken then [lease.connection] else []) ++ pool.discarded }
    else none

end Pool

/-- Runs of a pool from its construction, with or without a seed connection. -/
def poolMachine [DecidableEq C] (shared : PoolShared) : Machine (Pool C) (PoolAction C) where
  start pool := ∃ seed, pool = Pool.build seed
  step := Pool.step shared

theorem PoolShared.checkout_eq (shared : PoolShared) (probe : Probe C) (idle : List C) :
    idle = Pool.passed shared probe idle ++
      (shared.checkout probe idle).1.toList ++ (shared.checkout probe idle).2 := by
  induction idle with
  | nil => rfl
  | cons connection rest ih =>
    by_cases usable : shared.idleConnectionIsUsable probe connection
    · simp [Pool.passed, PoolShared.checkout, usable]
    · simpa [Pool.passed, PoolShared.checkout, usable] using ih

variable {shared : PoolShared}

theorem PoolShared.checkout_some {probe : Probe C} {idle rest : List C} {connection : C}
    (found : shared.checkout probe idle = (some connection, rest)) :
    idle = Pool.passed shared probe idle ++ connection :: rest := by
  have split := shared.checkout_eq probe idle
  rw [found] at split
  simpa using split

theorem PoolShared.checkout_none {probe : Probe C} {idle rest : List C}
    (absent : shared.checkout probe idle = (none, rest)) :
    rest = [] ∧ Pool.passed shared probe idle = idle := by
  have left : rest = [] := by
    induction idle with
    | nil => exact (Prod.mk.inj absent).2.symm
    | cons connection others ih =>
      by_cases usable : shared.idleConnectionIsUsable probe connection
      · simp [PoolShared.checkout, usable] at absent
      · exact ih (by simpa [PoolShared.checkout, usable] using absent)
  have split := shared.checkout_eq probe idle
  rw [absent, left] at split
  exact ⟨left, by simpa using split.symm⟩

namespace Pool

variable {pool next : Pool C}

/-- What a thread that runs the loop does to the pool. -/
theorem loop_cases (shared : PoolShared) (pool : Pool C) (thread : Nat) (probe : Probe C)
    (expired : Bool) :
    (∃ connection rest, pool.state.idle = passed shared probe pool.state.idle ++ connection :: rest ∧
      loop shared pool thread probe expired = { pool with
        state := { pool.state with idle := rest, leased := pool.state.leased + 1 }
        discarded := passed shared probe pool.state.idle ++ pool.discarded
        leases := ⟨connection, false⟩ :: pool.leases }) ∨
    (pool.state.leased < shared.maxSize ∧ loop shared pool thread probe expired = { pool with
      state := { pool.state with idle := [], leased := pool.state.leased + 1 }
      discarded := pool.state.idle ++ pool.discarded
      connecting := thread :: pool.connecting }) ∨
    loop shared pool thread probe expired = { pool with
      state := { pool.state with idle := [] }
      discarded := pool.state.idle ++ pool.discarded } ∨
    (shared.maxSize ≤ pool.state.leased ∧ loop shared pool thread probe expired = { pool with
      state := { pool.state with idle := [], waiters := pool.state.waiters + 1 }
      discarded := pool.state.idle ++ pool.discarded
      waiting := thread :: pool.waiting }) := by
  rcases looked : shared.checkout probe pool.state.idle with ⟨_ | connection, rest⟩
  · obtain ⟨rfl, all⟩ := PoolShared.checkout_none looked
    by_cases room : pool.state.leased < (shared.maxSize : Int)
    · by_cases connects : shared.connects
      · exact .inr (.inl ⟨room, by simp [loop, PoolShared.turn, looked, room, connects, all]⟩)
      · exact .inr (.inr (.inl (by simp [loop, PoolShared.turn, looked, room, connects, all])))
    · by_cases late : expired
      · exact .inr (.inr (.inl (by simp [loop, PoolShared.turn, looked, room, late, all])))
      · exact .inr (.inr (.inr
          ⟨Int.not_lt.mp room, by simp [loop, PoolShared.turn, looked, room, late, all]⟩))
  · exact .inl ⟨connection, rest, PoolShared.checkout_some looked,
      by simp [loop, PoolShared.turn, looked]⟩

/-- The connections that have a place: idle, queued or leased. -/
def places (pool : Pool C) : List C :=
  pool.state.idle ++ pool.state.handoffs ++ pool.leases.map (·.connection)

/-- The counters say what they count, within the size of the pool, and every connection that
was not discarded has one place. -/
structure Accounted (shared : PoolShared) (pool : Pool C) : Prop where
  leased : pool.state.leased =
    pool.leases.length + pool.connecting.length + pool.state.handoffs.length
  waiters : pool.state.waiters = pool.waiting.length
  bounded : pool.state.leased + pool.state.idle.length ≤ shared.maxSize
  distinct : pool.opened.Nodup
  placed : pool.opened.Perm (pool.places ++ pool.discarded)

theorem accounted_build (shared : PoolShared) (seed : Option C) :
    Accounted shared (build seed) where
  leased := rfl
  waiters := rfl
  bounded := by
    have positive := shared.positive
    cases seed with
    | none => simp [build]
    | some connection => simp [build]; omega
  distinct := by cases seed <;> simp [build]
  placed := by cases seed <;> simp [build, places]

theorem Accounted.awake (accounted : Accounted shared pool) {thread : Nat}
    (waits : thread ∈ pool.waiting) : Accounted shared (pool.awake thread) := by
  obtain ⟨leased, waiters, bounded, distinct, placed⟩ := accounted
  refine ⟨leased, ?_, bounded, distinct, placed⟩
  have length := List.length_erase_of_mem waits
  have present := List.length_pos_of_mem waits
  simp only [Pool.awake]
  omega

variable [DecidableEq C]

theorem Accounted.loop (accounted : Accounted shared pool) (thread : Nat) (probe : Probe C)
    (expired : Bool) : Accounted shared (pool.loop shared thread probe expired) := by
  obtain ⟨leased, waiters, bounded, distinct, placed⟩ := accounted
  rcases loop_cases shared pool thread probe expired with
    ⟨connection, rest, split, same⟩ | ⟨room, same⟩ | same | ⟨_, same⟩
  · rw [same]
    have length := congrArg List.length split
    simp only [List.length_append, List.length_cons] at length
    refine ⟨?_, waiters, ?_, distinct, placed.trans (List.perm_iff_count.mpr fun one => ?_)⟩
    · simp only [List.length_cons]
      omega
    · simp only
      omega
    · have counted := congrArg (List.count one) split
      simp only [List.count_append, List.count_cons] at counted
      simp only [places, List.map_cons, List.count_append, List.count_cons]
      omega
  · rw [same]
    refine ⟨?_, waiters, ?_, distinct, placed.trans (List.perm_iff_count.mpr fun one => ?_)⟩
    · simp only [List.length_cons]
      omega
    · simp only [List.length_nil]
      omega
    · simp only [places, List.count_append, List.count_nil]
      omega
  · rw [same]
    refine ⟨leased, waiters, ?_, distinct, placed.trans (List.perm_iff_count.mpr fun one => ?_)⟩
    · simp only [List.length_nil]
      omega
    · simp only [places, List.count_append, List.count_nil]
      omega
  · rw [same]
    refine ⟨leased, ?_, ?_, distinct, placed.trans (List.perm_iff_count.mpr fun one => ?_)⟩
    · simp only [List.length_cons]
      omega
    · simp only [List.length_nil]
      omega
    · simp only [places, List.count_append, List.count_nil]
      omega

variable {lease : PoolLease C}

/-- A lease that is held takes part in the counts and has the place of its connection. -/
theorem Accounted.lease_held (accounted : Accounted shared pool) (held : lease ∈ pool.leases) :
    0 < pool.state.leased ∧ (pool.leases.erase lease).length + 1 = pool.leases.length ∧
      (pool.leases.map (·.connection)).Perm
        (lease.connection :: (pool.leases.erase lease).map (·.connection)) := by
  have present := List.length_pos_of_mem held
  have length := List.length_erase_of_mem held
  have leased := accounted.leased
  exact ⟨by omega, by omega, (List.perm_cons_erase held).map (·.connection)⟩

theorem Accounted.giveBack (accounted : Accounted shared pool) (held : lease ∈ pool.leases) :
    Accounted shared { pool with
      state := pool.state.giveBack lease.returned
      leases := pool.leases.erase lease
      discarded := (if lease.broken then [lease.connection] else []) ++ pool.discarded } := by
  obtain ⟨counted, length, moved⟩ := accounted.lease_held held
  obtain ⟨leased, waiters, bounded, distinct, placed⟩ := accounted
  have move := fun one => List.perm_iff_count.mp moved one
  simp only [List.count_cons] at move
  by_cases broken : lease.broken
  · simp only [PoolLease.returned, broken, ↓reduceIte, PoolState.giveBack]
    refine ⟨?_, waiters, ?_, distinct, placed.trans (List.perm_iff_count.mpr fun one => ?_)⟩
    · simp only
      omega
    · simp only
      omega
    · have here := move one
      simp only [places, List.count_append, List.count_cons, List.count_nil]
      omega
  · by_cases awaited : 0 < pool.state.waiters
    · simp only [PoolLease.returned, broken, Bool.false_eq_true, ↓reduceIte, PoolState.giveBack,
        awaited, List.nil_append]
      refine ⟨?_, waiters, bounded, distinct, placed.trans (List.perm_iff_count.mpr fun one => ?_)⟩
      · simp only [List.length_append, List.length_singleton]
        omega
      · have here := move one
        simp only [places, List.count_append, List.count_cons, List.count_nil]
        omega
    · simp only [PoolLease.returned, broken, Bool.false_eq_true, ↓reduceIte, PoolState.giveBack,
        awaited, List.nil_append]
      refine ⟨?_, waiters, ?_, distinct, placed.trans (List.perm_iff_count.mpr fun one => ?_)⟩
      · simp only
        omega
      · simp only [List.length_cons]
        omega
      · have here := move one
        simp only [places, List.count_append, List.count_cons]
        omega

theorem Accounted.step (accounted : Accounted shared pool) {action : PoolAction C}
    (stepped : step shared pool action = some next) : Accounted shared next := by
  cases action with
  | acquire thread probe expired =>
    simp only [Pool.step, Option.ite_none_left_eq_some, Option.some.injEq] at stepped
    exact stepped.2 ▸ accounted.loop thread probe expired
  | wake thread probe expired =>
    simp only [Pool.step, Option.ite_none_right_eq_some] at stepped
    obtain ⟨waits, stepped⟩ := stepped
    have woken := accounted.awake waits
    cases queue : (pool.awake thread).state.handoffs with
    | nil =>
      rw [queue] at stepped
      exact Option.some.inj stepped ▸ woken.loop thread probe expired
    | cons connection rest =>
      rw [queue] at stepped
      cases stepped
      obtain ⟨leased, waiters, bounded, distinct, placed⟩ := woken
      rw [queue, List.length_cons] at leased
      refine ⟨?_, waiters, bounded, distinct,
        placed.trans (List.perm_iff_count.mpr fun one => ?_)⟩
      · simp only [List.length_cons]
        omega
      · simp only [places, queue, List.map_cons, List.count_append, List.count_cons]
        omega
  | connected thread connection =>
    simp only [Pool.step, Option.ite_none_right_eq_some, Option.some.injEq] at stepped
    obtain ⟨⟨connects, fresh⟩, rfl⟩ := stepped
    obtain ⟨leased, waiters, bounded, distinct, placed⟩ := accounted
    have length := List.length_erase_of_mem connects
    have present := List.length_pos_of_mem connects
    refine ⟨?_, waiters, bounded, List.nodup_cons.mpr ⟨fresh, distinct⟩,
      (placed.cons connection).trans (List.perm_iff_count.mpr fun one => ?_)⟩
    · simp only [List.length_cons]
      omega
    · simp only [places, List.map_cons, List.count_append, List.count_cons]
      omega
  | connectFailed thread =>
    simp only [Pool.step, Option.ite_none_right_eq_some, Option.some.injEq] at stepped
    obtain ⟨connects, rfl⟩ := stepped
    obtain ⟨leased, waiters, bounded, distinct, placed⟩ := accounted
    have length := List.length_erase_of_mem connects
    have present := List.length_pos_of_mem connects
    refine ⟨?_, waiters, ?_, distinct, placed⟩
    · simp only [PoolState.releaseSlot]
      omega
    · simp only [PoolState.releaseSlot]
      omega
  | markBroken lease =>
    simp only [Pool.step, Option.ite_none_right_eq_some, Option.some.injEq] at stepped
    obtain ⟨held, rfl⟩ := stepped
    obtain ⟨_, length, moved⟩ := accounted.lease_held held
    obtain ⟨leased, waiters, bounded, distinct, placed⟩ := accounted
    refine ⟨?_, waiters, bounded, distinct, placed.trans ?_⟩
    · simp only [List.length_cons]
      omega
    · exact (moved.append_left _).append_right _
  | giveBack lease =>
    simp only [Pool.step, Option.ite_none_right_eq_some, Option.some.injEq] at stepped
    obtain ⟨held, rfl⟩ := stepped
    exact accounted.giveBack held

theorem Accounted.reachable (reached : (poolMachine shared).Reachable pool) :
    Accounted shared pool := by
  refine Machine.invariant ?_ ?_ reached
  · rintro _ ⟨seed, rfl⟩
    exact accounted_build shared seed
  · intro source action target _ accounted stepped
    exact accounted.step stepped

/-- However threads interleave, `leased` counts the leases, the connects under way and the
queued connections, no subtraction finds a zero, and no connection has two places. -/
theorem pool_accounting (reached : (poolMachine shared).Reachable pool) :
    pool.state.leased =
        pool.leases.length + pool.connecting.length + pool.state.handoffs.length ∧
      pool.state.leased + pool.state.idle.length ≤ shared.maxSize ∧
      pool.state.waiters = pool.waiting.length ∧
      (∀ thread ∈ pool.waiting, 0 < pool.state.waiters) ∧
      (∀ thread ∈ pool.connecting, 0 < pool.state.leased) ∧
      (∀ lease ∈ pool.leases, 0 < pool.state.leased) ∧
      ∀ connection, pool.places.count connection =
        if connection ∈ pool.opened ∧ connection ∉ pool.discarded then 1 else 0 := by
  have accounted := Accounted.reachable reached
  refine ⟨accounted.leased, accounted.bounded, accounted.waiters, ?_, ?_, ?_, ?_⟩
  · intro thread waits
    have present := List.length_pos_of_mem waits
    have waiters := accounted.waiters
    omega
  · intro thread connects
    have present := List.length_pos_of_mem connects
    have leased := accounted.leased
    omega
  · intro lease held
    exact (accounted.lease_held held).1
  · intro connection
    have counted := accounted.placed.count_eq connection
    rw [List.count_append] at counted
    by_cases opened : connection ∈ pool.opened
    · have once := List.count_eq_one_of_mem accounted.distinct opened
      by_cases gone : connection ∈ pool.discarded
      · have present := List.count_pos_iff.mpr gone
        simp only [gone, not_true_eq_false, and_false, ↓reduceIte]
        omega
      · have absent := List.count_eq_zero.mpr gone
        simp only [opened, gone, not_false_eq_true, and_self, ↓reduceIte]
        omega
    · have absent := List.count_eq_zero.mpr opened
      simp only [opened, false_and, ↓reduceIte]
      omega

end Pool

/-- A pool of two connections that number themselves, each of them usable for ever. -/
def smallPool : PoolShared where
  maxSize := resolvePoolSize (some 2) none none
  positive := resolvePoolSize_pos _ _ _
  acquireTimeout := "30s"
  maxIdleAge := none
  connects := true
  validates := false

def alwaysUsable : Probe Nat := ⟨fun _ => 0, fun _ => true⟩

def exhausting : List (PoolAction Nat) :=
  [.acquire 1 alwaysUsable false, .connected 1 1, .acquire 2 alwaysUsable false,
    .connected 2 2, .acquire 3 alwaysUsable false]

/-- Both connections are leased and a third thread waits. -/
def exhausted : Pool Nat where
  state := ⟨[], 2, [], 1⟩
  connecting := []
  waiting := [3]
  leases := [⟨2, false⟩, ⟨1, false⟩]
  opened := [2, 1]
  discarded := []

theorem run_exhausting : (poolMachine smallPool).run (Pool.build none) exhausting = some exhausted :=
  rfl

theorem pool_accounting_exhausted :
    exhausted.state.leased = 2 ∧ exhausted.state.waiters = 1 ∧ exhausted.places.count 1 = 1 := by
  have begun : (poolMachine smallPool).Reachable (Pool.build (none : Option Nat)) :=
    .start ⟨none, rfl⟩
  obtain ⟨leased, _, waiters, _, _, _, placed⟩ :=
    Pool.pool_accounting (begun.run run_exhausting)
  exact ⟨leased, waiters, placed 1⟩

end DddCqrsEs
