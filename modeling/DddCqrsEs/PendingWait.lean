import DddCqrsEs.Durations
import DddCqrsEs.Idempotency
import Mathlib.Algebra.GroupWithZero.Nat

/- The wait for a key that another caller holds: each turn of the loop loads the key, tries to
reserve it where it is free, and sleeps for a part of the budget that is left. -/
namespace DddCqrsEs

open Durations

/-- `IdempotencyWaitConfig` with durations as wide as they are. -/
structure WaitDurations where
  pendingTimeout : Duration
  pollInterval : Duration

def WaitDurations.config (config : WaitDurations) : IdempotencyWaitConfig where
  pendingTimeout := config.pendingTimeout.nanos
  pollInterval := config.pollInterval.nanos

def pollJitterMs (key : String) (pollInterval : Duration) : Except Panic UInt64 :=
  let spanMs := UInt64.ofNat (max pollInterval.asMillis 1 / 4)
  if spanMs = 0 then .ok 0 else checkedRem (wrappingHash 31 key.toUTF8.toList) spanMs

def WaitDurations.nextDelay (config : WaitDurations) (elapsed : Duration) (jitterKey : String) :
    Except Panic (Option Duration) :=
  match config.pendingTimeout.checkedSub elapsed with
  | none => .ok none
  | some remaining =>
    if remaining.isZero || config.pollInterval.isZero then .ok none
    else
      match pollJitterMs jitterKey config.pollInterval with
      | .error panic => .error panic
      | .ok jitterMs =>
        .ok (some (remaining.shorter
          (config.pollInterval.saturatingAdd (.fromMillis jitterMs))))

theorem pollJitterMs_ok (key : String) (pollInterval : Duration) : ∃ jitter,
    pollJitterMs key pollInterval = .ok jitter ∧
      jitter.toNat = idempotencyPollJitterMs key pollInterval.nanos := by
  have span : (UInt64.ofNat (max pollInterval.asMillis 1 / 4)).toNat =
      max (pollInterval.nanos / 1000000) 1 / 4 % 2 ^ 64 := UInt64.toNat_ofNat
  have hash := wrappingHash_toNat 31 key.toUTF8.toList
  rw [pollJitterMs, idempotencyPollJitterMs]
  by_cases zero : UInt64.ofNat (max pollInterval.asMillis 1 / 4) = 0
  · rw [zero] at span
    have none : max (pollInterval.nanos / 1000000) 1 / 4 % 2 ^ 64 = 0 := span.symm
    rw [if_pos zero, if_pos none]
    exact ⟨0, rfl, rfl⟩
  · have other : ¬ max (pollInterval.nanos / 1000000) 1 / 4 % 2 ^ 64 = 0 := by
      rw [← span]
      exact fun same => zero (UInt64.toNat_inj.mp same)
    rw [if_neg zero, if_neg other, checkedRem, if_neg zero]
    refine ⟨_, rfl, ?_⟩
    rw [UInt64.toNat_mod, hash, span]
    rfl

/-- No step of the arithmetic panics, and its bounds do not show: the delay is the one that
unbounded numbers give. -/
theorem nextDelay_ok (config : WaitDurations) (elapsed : Duration) (key : String) : ∃ delay,
    config.nextDelay elapsed key = .ok delay ∧
      delay.map Duration.nanos = config.config.nextDelay elapsed.nanos key := by
  obtain ⟨jitter, read, same⟩ := pollJitterMs_ok key config.pollInterval
  have fits := config.pendingTimeout.fits
  have total : IdempotencyWaitConfig.nextDelay config.config elapsed.nanos key =
      if config.pendingTimeout.nanos < elapsed.nanos then none
      else if config.pendingTimeout.nanos - elapsed.nanos = 0 ∨ config.pollInterval.nanos = 0 then
        none
      else some (min (config.pendingTimeout.nanos - elapsed.nanos)
        (config.pollInterval.nanos + jitter.toNat * 1000000)) := by
    rw [same]
    rfl
  rw [total, WaitDurations.nextDelay, Duration.checkedSub]
  by_cases late : config.pendingTimeout.nanos < elapsed.nanos
  · rw [if_pos late, if_neg (by omega)]
    exact ⟨none, rfl, rfl⟩
  · rw [if_neg late, if_pos (by omega)]
    dsimp only
    by_cases spent : config.pendingTimeout.nanos - elapsed.nanos = 0 ∨
        config.pollInterval.nanos = 0
    · rw [if_pos spent, if_pos (by simpa [Duration.isZero] using spent)]
      exact ⟨none, rfl, rfl⟩
    · rw [if_neg spent, if_neg (by simpa [Duration.isZero] using spent), read]
      refine ⟨_, rfl, ?_⟩
      simp only [Option.map_some, Duration.shorter_nanos, Duration.saturatingAdd,
        Duration.fromMillis, Option.some_inj]
      omega

variable {elapsed delay : Duration}

/-- A delay is a part of the budget that is left: all of it, or at least the poll interval. -/
theorem nextDelay_part {config : WaitDurations} {key : String}
    (next : config.nextDelay elapsed key = .ok (some delay)) :
    0 < delay.nanos ∧ elapsed.nanos + delay.nanos ≤ config.pendingTimeout.nanos ∧
      (elapsed.nanos + delay.nanos = config.pendingTimeout.nanos ∨
        config.pollInterval.nanos ≤ delay.nanos) := by
  obtain ⟨same, ok, nanos⟩ := nextDelay_ok config elapsed key
  rw [next, Except.ok.injEq] at ok
  rw [← ok, Option.map_some, IdempotencyWaitConfig.nextDelay] at nanos
  split at nanos
  · cases nanos
  · dsimp only at nanos
    split at nanos
    · cases nanos
    · have value := Option.some_inj.mp nanos
      simp only [WaitDurations.config] at *
      omega

/-- Without a delay the budget is spent. -/
theorem nextDelay_none {config : WaitDurations} {key : String}
    (nonzero : 0 < config.pollInterval.nanos) (next : config.nextDelay elapsed key = .ok none) :
    config.pendingTimeout.nanos ≤ elapsed.nanos := by
  obtain ⟨same, ok, nanos⟩ := nextDelay_ok config elapsed key
  rw [next, Except.ok.injEq] at ok
  rw [← ok, Option.map_none, IdempotencyWaitConfig.nextDelay] at nanos
  split at nanos
  · rename_i late
    simp only [WaitDurations.config] at late
    omega
  · dsimp only at nanos
    split at nanos
    · rename_i spent
      simp only [WaitDurations.config] at *
      omega
    · cases nanos

/-- What one turn of the loop meets: the answers of the store, the clock for the expiry of a
lease, and the two readings of the time since the start. -/
structure WaitTurn (V E : Type*) where
  load : Except E (Option (IdempotencyState V))
  now : SystemTime
  reserve : Except E Bool
  elapsed : Duration
  waited : Duration

/-- How the loop ends. -/
inductive WaitEnd (V D S E : Type*) where
  | panicked (panic : Panic)
  | reserved
  | returned (result : Except (IdempotentRepositoryError D S E) V)

inductive TurnResult (V D S E : Type*) where
  | slept (delay : Duration)
  | ended (last : WaitEnd V D S E)

section Loop

variable {V D S E : Type*} (config : WaitDurations) (key : String)

/-- `pending_wait_delay`, and the sleep. -/
def waitForKey (turn : WaitTurn V E) : TurnResult V D S E :=
  match config.nextDelay turn.elapsed key with
  | .error panic => .ended (.panicked panic)
  | .ok (some delay) => .slept delay
  | .ok none => .ended (.returned (.error (.idempotencyPendingTimeout key turn.waited.nanos)))

def reserveKey (turn : WaitTurn V E) : TurnResult V D S E :=
  match turn.reserve with
  | .error error => .ended (.returned (.error (.idempotency error)))
  | .ok true => .ended .reserved
  | .ok false => waitForKey config key turn

def waitTurn (turn : WaitTurn V E) : TurnResult V D S E :=
  match turn.load with
  | .error error => .ended (.returned (.error (.idempotency error)))
  | .ok (some (.complete committed)) => .ended (.returned (.ok committed))
  | .ok (some (.pending lease)) =>
    if lease.isExpired (nowMs turn.now) then reserveKey config key turn
    else waitForKey config key turn
  | .ok none => reserveKey config key turn

/-- A sleep, with the time since the start for which its delay was computed. -/
structure Sleep where
  elapsed : Nat
  delay : Nat

/-- The sleeps of the loop over these turns, and how it ends if it does. -/
@[grind =]
def waitLoop : List (WaitTurn V E) → List Sleep × Option (WaitEnd V D S E)
  | [] => ([], none)
  | turn :: turns =>
    match waitTurn config key turn with
    | .ended last => ([], some last)
    | .slept delay =>
      let later := waitLoop turns
      (⟨turn.elapsed.nanos, delay.nanos⟩ :: later.1, later.2)

/-- The time since the start never runs back, and a sleep takes at least its delay. -/
def Clock (D S : Type*) : Nat → List (WaitTurn V E) → Prop
  | _, [] => True
  | least, turn :: turns =>
    least ≤ turn.elapsed.nanos ∧ turn.elapsed.nanos ≤ turn.waited.nanos ∧
      ∀ delay, (waitTurn config key turn : TurnResult V D S E) = .slept delay →
        Clock D S (turn.elapsed.nanos + delay.nanos) turns

/-- Another caller has the key: its lease runs, or it took the key first. -/
def WaitTurn.stillPending (turn : WaitTurn V E) : Prop :=
  match turn.load with
  | .ok (some (.pending lease)) =>
    lease.isExpired (nowMs turn.now) = false ∨ turn.reserve = .ok false
  | .ok none => turn.reserve = .ok false
  | _ => False

end Loop

section Bounds

variable {V D S E : Type*} {config : WaitDurations} {key : String} {turn : WaitTurn V E}
  {turns : List (WaitTurn V E)}

theorem waitForKey_eq_slept
    (slept : (waitForKey config key turn : TurnResult V D S E) = .slept delay) :
    config.nextDelay turn.elapsed key = .ok (some delay) := by
  obtain ⟨answer, ok, -⟩ := nextDelay_ok config turn.elapsed key
  rw [waitForKey, ok] at slept
  cases answer with
  | none => cases slept
  | some other =>
    cases slept
    exact ok

/-- A turn sleeps only for the delay that the budget gives. -/
theorem waitTurn_eq_slept (slept : (waitTurn config key turn : TurnResult V D S E) = .slept delay) :
    config.nextDelay turn.elapsed key = .ok (some delay) := by
  have reserving (slept : (reserveKey config key turn : TurnResult V D S E) = .slept delay) :
      config.nextDelay turn.elapsed key = .ok (some delay) := by
    rw [reserveKey] at slept
    split at slept
    · cases slept
    · cases slept
    · exact waitForKey_eq_slept slept
  rw [waitTurn] at slept
  split at slept
  · cases slept
  · cases slept
  · split at slept
    · exact reserving slept
    · exact waitForKey_eq_slept slept
  · exact reserving slept

/-- The delay of a sleep is the one that unbounded numbers give. -/
theorem slept_delay (slept : (waitTurn config key turn : TurnResult V D S E) = .slept delay) :
    config.config.nextDelay turn.elapsed.nanos key = some delay.nanos := by
  obtain ⟨answer, ok, same⟩ := nextDelay_ok config turn.elapsed key
  cases ok.symm.trans (waitTurn_eq_slept slept)
  exact same.symm

theorem waitForKey_not_panicked {panic : Panic} :
    (waitForKey config key turn : TurnResult V D S E) ≠ .ended (.panicked panic) := by
  obtain ⟨answer, ok, -⟩ := nextDelay_ok config turn.elapsed key
  rw [waitForKey, ok]
  cases answer with
  | none => nofun
  | some delay => nofun

theorem waitTurn_not_panicked {panic : Panic} :
    (waitTurn config key turn : TurnResult V D S E) ≠ .ended (.panicked panic) := by
  have reserving : (reserveKey config key turn : TurnResult V D S E) ≠ .ended (.panicked panic) := by
    rw [reserveKey]
    split
    · nofun
    · nofun
    · exact waitForKey_not_panicked
  rw [waitTurn]
  split
  · nofun
  · nofun
  · split
    · exact reserving
    · exact waitForKey_not_panicked
  · exact reserving

/-- While the key is pending, a turn only waits. -/
theorem waitTurn_stillPending (still : turn.stillPending) :
    (waitTurn config key turn : TurnResult V D S E) = waitForKey config key turn := by
  rw [WaitTurn.stillPending] at still
  rw [waitTurn]
  split at still
  · rename_i lease loaded
    rw [loaded]
    dsimp only
    split
    · rename_i expired
      have refused : turn.reserve = .ok false := by
        rcases still with running | refused
        · rw [expired] at running
          cases running
        · exact refused
      rw [reserveKey, refused]
    · rfl
  · rename_i loaded
    rw [loaded]
    dsimp only
    rw [reserveKey, still]
  · cases still

/-- The loop does not panic. -/
theorem waitLoop_not_panicked (turns : List (WaitTurn V E)) (panic : Panic) :
    (waitLoop config key turns : List Sleep × Option (WaitEnd V D S E)).2 ≠
      some (.panicked panic) := by
  induction turns with
  | nil => nofun
  | cons turn turns ih =>
    rw [waitLoop]
    split
    · rename_i last ended
      intro same
      rw [Option.some_inj.mp same] at ended
      exact waitTurn_not_panicked ended
    · exact ih

/-- Each sleep is a part of the budget that is left, and what is left bounds all of them. -/
theorem waitLoop_spent {least : Nat} (nonzero : 0 < config.pollInterval.nanos)
    (clock : Clock config key D S least turns) :
    (∀ sleep ∈ (waitLoop config key turns : List Sleep × Option (WaitEnd V D S E)).1,
      0 < sleep.delay ∧ sleep.elapsed + sleep.delay ≤ config.pendingTimeout.nanos) ∧
    ((waitLoop config key turns : List Sleep × Option (WaitEnd V D S E)).1.map Sleep.delay).sum ≤
      config.pendingTimeout.nanos - least ∧
    (waitLoop config key turns : List Sleep × Option (WaitEnd V D S E)).1.length *
      config.pollInterval.nanos <
        config.pendingTimeout.nanos - least + config.pollInterval.nanos := by
  induction turns generalizing least with
  | nil =>
    refine ⟨nofun, Nat.zero_le _, ?_⟩
    simp only [waitLoop, List.length_nil, Nat.zero_mul]
    omega
  | cons turn turns ih =>
    obtain ⟨begun, -, later⟩ := clock
    rw [waitLoop]
    split
    · refine ⟨nofun, Nat.zero_le _, ?_⟩
      simp only [List.length_nil, Nat.zero_mul]
      omega
    · rename_i delay slept
      obtain ⟨parts, total, count⟩ := ih (later delay slept)
      obtain ⟨positive, within, rest⟩ := nextDelay_part (waitTurn_eq_slept slept)
      simp only [List.forall_mem_cons, List.map_cons, List.sum_cons, List.length_cons,
        Nat.succ_mul]
      refine ⟨⟨⟨positive, within⟩, parts⟩, by omega, ?_⟩
      rcases rest with all | whole
      · have none : config.pendingTimeout.nanos - (turn.elapsed.nanos + delay.nanos) = 0 := by
          omega
        rw [none, Nat.zero_add] at count
        -- Nothing is left, so this was the last sleep.
        have last : (waitLoop config key turns : List Sleep × Option (WaitEnd V D S E)).1.length *
            config.pollInterval.nanos = 0 := by
          by_contra more
          have one := Nat.pos_of_mul_pos_right (Nat.pos_of_ne_zero more)
          have least := Nat.le_mul_of_pos_left config.pollInterval.nanos one
          omega
        omega
      · omega

/-- Turns that find the key pending sleep, each one, until the budget is spent; then the loop
returns the timeout. -/
theorem waitLoop_stillPending {least : Nat} (nonzero : 0 < config.pollInterval.nanos)
    (clock : Clock config key D S least turns) (still : ∀ turn ∈ turns, turn.stillPending) :
    (waitLoop config key turns : List Sleep × Option (WaitEnd V D S E)).1.length = turns.length ∨
      ∃ waited, config.pendingTimeout.nanos ≤ waited ∧
        (waitLoop config key turns : List Sleep × Option (WaitEnd V D S E)).2 =
          some (.returned (.error (.idempotencyPendingTimeout key waited))) := by
  induction turns generalizing least with
  | nil => exact Or.inl rfl
  | cons turn turns ih =>
    obtain ⟨-, behind, later⟩ := clock
    rw [List.forall_mem_cons] at still
    have waits : (waitTurn config key turn : TurnResult V D S E) = waitForKey config key turn :=
      waitTurn_stillPending still.1
    obtain ⟨answer, ok, -⟩ := nextDelay_ok config turn.elapsed key
    rw [waitForKey, ok] at waits
    rw [waitLoop, waits]
    cases answer with
    | none =>
      have spent := nextDelay_none nonzero ok
      exact Or.inr ⟨turn.waited.nanos, by omega, rfl⟩
    | some delay =>
      rcases ih (later delay waits) still.2 with all | timeout
      · exact Or.inl (congrArg (· + 1) all)
      · exact Or.inr timeout

end Bounds

/-- The wait for a pending key is bounded: whatever the store answers, each sleep is positive and
within the budget that is left, all together are within the timeout, and there are at most as many
as poll intervals begin within it. Behind them the loop returns the timeout error if the key is
still pending. No configuration makes the arithmetic panic. -/
theorem waitLoop_bounded {V D S E : Type} (config : WaitDurations) (key : String)
    (turns : List (WaitTurn V E)) (nonzero : 0 < config.pollInterval.nanos)
    (clock : Clock config key D S 0 turns) :
    (∀ sleep ∈ (waitLoop config key turns : List Sleep × Option (WaitEnd V D S E)).1,
      0 < sleep.delay ∧ sleep.elapsed < config.pendingTimeout.nanos ∧
        sleep.delay ≤ config.pendingTimeout.nanos - sleep.elapsed) ∧
    ((waitLoop config key turns : List Sleep × Option (WaitEnd V D S E)).1.map Sleep.delay).sum ≤
      config.pendingTimeout.nanos ∧
    (waitLoop config key turns : List Sleep × Option (WaitEnd V D S E)).1.length ≤
      (config.pendingTimeout.nanos + config.pollInterval.nanos - 1) / config.pollInterval.nanos ∧
    ((∀ turn ∈ turns, turn.stillPending) →
      (config.pendingTimeout.nanos + config.pollInterval.nanos - 1) / config.pollInterval.nanos <
        turns.length → ∃ waited, config.pendingTimeout.nanos ≤ waited ∧
        (waitLoop config key turns : List Sleep × Option (WaitEnd V D S E)).2 =
          some (.returned (.error (.idempotencyPendingTimeout key waited)))) ∧
    (∀ panic, (waitLoop config key turns : List Sleep × Option (WaitEnd V D S E)).2 ≠
      some (.panicked panic)) ∧
    ∀ (other : WaitDurations) (elapsed : Duration) (jitterKey : String),
      ∃ delay, other.nextDelay elapsed jitterKey = .ok delay := by
  obtain ⟨parts, total, count⟩ := waitLoop_spent nonzero clock
  have few : (waitLoop config key turns : List Sleep × Option (WaitEnd V D S E)).1.length ≤
      (config.pendingTimeout.nanos + config.pollInterval.nanos - 1) /
        config.pollInterval.nanos := by
    rw [Nat.le_div_iff_mul_le nonzero]
    omega
  refine ⟨fun sleep member => ?_, total, few, fun still many => ?_, waitLoop_not_panicked turns,
    fun other elapsed jitterKey => ?_⟩
  · have part := parts sleep member
    omega
  · rcases waitLoop_stillPending nonzero clock still with all | timeout
    · omega
    · exact timeout
  · obtain ⟨delay, ok, -⟩ := nextDelay_ok other elapsed jitterKey
    exact ⟨delay, ok⟩

/-- A timeout of 50 ms and an interval of 20 ms. -/
def shortWait : WaitDurations := ⟨⟨50000000, by decide⟩, ⟨20000000, by decide⟩⟩

/-- A turn that finds the key free, and another caller takes it first. -/
def lateTurn (nanos : Nat) (fits : nanos < limit) : WaitTurn Unit Unit where
  load := .ok none
  now := 0
  reserve := .ok false
  elapsed := ⟨nanos, fits⟩
  waited := ⟨nanos, fits⟩

/-- The key's jitter is 4 ms, and the last sleep is cut to 2 ms. -/
def lateTurns : List (WaitTurn Unit Unit) :=
  [lateTurn 0 (by decide), lateTurn 24000000 (by decide), lateTurn 48000000 (by decide),
    lateTurn 50000000 (by decide)]

theorem shortWait_delays :
    shortWait.config.nextDelay 0 "order-1" = some 24000000 ∧
      shortWait.config.nextDelay 24000000 "order-1" = some 24000000 ∧
      shortWait.config.nextDelay 48000000 "order-1" = some 2000000 ∧
      shortWait.config.nextDelay 50000000 "order-1" = none := by
  decide +kernel

theorem lateTurn_slept {nanos next : Nat} {fits : nanos < limit}
    (computed : shortWait.config.nextDelay nanos "order-1" = some next)
    (slept : (waitTurn shortWait "order-1" (lateTurn nanos fits) : TurnResult Unit Unit Unit Unit) =
      .slept delay) : delay.nanos = next :=
  (Option.some.inj (computed.symm.trans (slept_delay slept))).symm

theorem shortWait_clock : Clock shortWait "order-1" Unit Unit 0 lateTurns := by
  obtain ⟨whole, again, cut, _⟩ := shortWait_delays
  refine ⟨Nat.zero_le _, Nat.le_refl _, fun first slept => ?_⟩
  rw [lateTurn_slept whole slept]
  refine ⟨by decide, Nat.le_refl _, fun second slept => ?_⟩
  rw [lateTurn_slept again slept]
  refine ⟨by decide, Nat.le_refl _, fun third slept => ?_⟩
  rw [lateTurn_slept cut slept]
  exact ⟨by decide, Nat.le_refl _, fun _ _ => trivial⟩

/-- Three sleeps within the timeout, and the fourth turn gives up. -/
theorem waitLoop_bounded_lateTurns :
    let waited := (waitLoop shortWait "order-1" lateTurns :
      List Sleep × Option (WaitEnd Unit Unit Unit Unit))
    waited.1.map Sleep.delay = [24000000, 24000000, 2000000] ∧
      (waited.1.map Sleep.delay).sum ≤ 50000000 ∧ waited.1.length ≤ 3 ∧
      ∃ nanos, 50000000 ≤ nanos ∧
        waited.2 = some (.returned (.error (.idempotencyPendingTimeout "order-1" nanos))) := by
  intro waited
  have positive : 0 < shortWait.pollInterval.nanos := by decide
  obtain ⟨_, total, count, timeout, _⟩ :=
    waitLoop_bounded (D := Unit) (S := Unit) shortWait "order-1" lateTurns positive shortWait_clock
  refine ⟨by decide +kernel, total, count, timeout ?_ (by decide)⟩
  intro turn member
  simp only [lateTurns, List.mem_cons, List.not_mem_nil, or_false] at member
  rcases member with rfl | rfl | rfl | rfl <;> rfl

end DddCqrsEs
