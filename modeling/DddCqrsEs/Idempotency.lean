import DddCqrsEs.Aggregate
import Mathlib.Logic.Function.Basic

/- Idempotency keys: leases on pending keys, the wait policy of callers that find a key
pending, and the in-memory idempotency store. Durations are nanoseconds, clock readings
of `nowMs` milliseconds. -/
namespace DddCqrsEs

def u64Max : Nat := 2 ^ 64 - 1

/-- `Duration::as_millis` narrowed to `u64`. -/
def durationMillis (duration : Nat) : Nat := duration / 1000000 % 2 ^ 64

/-- The system clock in milliseconds; a clock before the epoch reads 0. -/
def nowMs (clock : SystemTime) : Nat := durationMillis clock.toNat

def defaultIdempotencyLease : Nat := 60 * 1000000000

structure IdempotencyLease where
  owner : String
  expiresAtMs : Nat
  deriving DecidableEq, Repr

def IdempotencyLease.isExpired (lease : IdempotencyLease) (nowMs : Nat) : Bool :=
  decide (lease.expiresAtMs ≤ nowMs)

structure IdempotencyLeaseConfig where
  leaseDuration : Nat
  owner : Option String
  deriving DecidableEq, Repr

def IdempotencyLeaseConfig.default : IdempotencyLeaseConfig := ⟨defaultIdempotencyLease, none⟩

def expiresAtMs (nowMs : Nat) (duration : Nat) : Nat :=
  min (nowMs + durationMillis duration) u64Max

def newLease (nowMs : Nat) (config : IdempotencyLeaseConfig) : IdempotencyLease where
  owner := config.owner.getD ("owner-" ++ toString nowMs)
  expiresAtMs := expiresAtMs nowMs config.leaseDuration

/-- The lease of a pending row, unless it has expired. Missing lease columns stand for a
fresh lease. -/
def pendingStateFromRow (owner : Option String) (expiresAt : Option Int) (nowMs : Nat) :
    Option IdempotencyLease :=
  let lease :=
    match owner.filter (fun value => value ≠ ""), expiresAt.filter (fun value => 0 ≤ value) with
    | some owner, some expiresAt => ⟨owner, expiresAt.toNat⟩
    | _, _ => newLease nowMs .default
  if lease.isExpired nowMs then none else some lease

structure IdempotencyWaitConfig where
  pendingTimeout : Nat
  pollInterval : Nat
  deriving DecidableEq, Repr

def IdempotencyWaitConfig.default : IdempotencyWaitConfig where
  pendingTimeout := 30 * 1000000000
  pollInterval := 50 * 1000000

def idempotencyPollJitterMs (key : String) (pollInterval : Nat) : Nat :=
  let spanMs := max (pollInterval / 1000000) 1 / 4 % 2 ^ 64
  if spanMs = 0 then 0
  else key.toUTF8.toList.foldl (fun acc byte => (acc * 31 + byte.toNat) % 2 ^ 64) 0 % spanMs

/-- The next delay, capped by what is left of the timeout. -/
def IdempotencyWaitConfig.nextDelay (config : IdempotencyWaitConfig) (elapsed : Nat)
    (jitterKey : String) : Option Nat :=
  if config.pendingTimeout < elapsed then none
  else
    let remaining := config.pendingTimeout - elapsed
    if remaining = 0 ∨ config.pollInterval = 0 then none
    else
      let jitter := idempotencyPollJitterMs jitterKey config.pollInterval * 1000000
      some (min remaining (config.pollInterval + jitter))

inductive IdempotencyState (V : Type*) where
  | pending (lease : IdempotencyLease)
  | complete (value : V)
  deriving DecidableEq, Repr

def IdempotencyState.isExpiredPending {V : Type*} (nowMs : Nat) : IdempotencyState V → Bool
  | .pending lease => lease.isExpired nowMs
  | .complete _ => false

inductive IdempotentRepositoryError (DomainError StoreError IdempotencyError : Type*) where
  | domain (error : DomainError)
  | concurrency (error : ConcurrencyError)
  | store (error : StoreError)
  | idempotency (error : IdempotencyError)
  | idempotencyPendingTimeout (key : String) (waited : Nat)
  | idempotencyReleaseFailed (key : String) (attempts : Nat)
  deriving DecidableEq, Repr

/-- Clock readings of one turn of a wait loop: for the store, for the expiry test after
it, and since the call started. -/
structure WaitClock where
  clock : SystemTime
  later : SystemTime
  elapsed : Nat
  waited : Nat

/-- The arguments of one idempotent call, besides its key. -/
structure IdempotentCall (A : Aggregate) where
  aggregateId : A.Id
  command : A.Command
  metadata : Metadata
  waitConfig : IdempotencyWaitConfig

/-- Concurrency failures of the store are reported as such, all others as store errors. -/
def IdempotentRepositoryError.fromStoreError {DomainError IdempotencyError : Type*} :
    EventStoreError → IdempotentRepositoryError DomainError EventStoreError IdempotencyError
  | .concurrency error => .concurrency error
  | error => .store error

/-- The next delay of the pending-key wait loop, or the timeout once the budget is spent.
The clock is read once for the budget and once more for the error. -/
def pendingWaitDelay {DomainError StoreError IdempotencyError : Type*}
    (config : IdempotencyWaitConfig) (elapsed waited : Nat) (key : String) :
    Except (IdempotentRepositoryError DomainError StoreError IdempotencyError) Nat :=
  match config.nextDelay elapsed key with
  | some delay => .ok delay
  | none => .error (.idempotencyPendingTimeout key waited)

/-- The only failure of the in-memory store: its lock was poisoned. -/
inductive InMemoryIdempotencyError where
  | poisoned
  deriving DecidableEq, Repr

structure InMemoryIdempotencyEntry (V : Type*) where
  state : IdempotencyState V
  updatedAtMs : Nat
  deriving DecidableEq, Repr

structure InMemoryIdempotencyStore (V : Type*) where
  entries : String → Option (InMemoryIdempotencyEntry V)

namespace InMemoryIdempotencyStore

variable {V : Type*} (store : InMemoryIdempotencyStore V)

def new : InMemoryIdempotencyStore V := ⟨fun _ => none⟩

def insert (key : String) (entry : InMemoryIdempotencyEntry V) : InMemoryIdempotencyStore V :=
  ⟨Function.update store.entries key (some entry)⟩

def load (key : String) : Option (IdempotencyState V) := (store.entries key).map (·.state)

/-- Reserve a key that is absent or whose pending lease has expired. -/
def reserveWithLease (nowMs : Nat) (key : String) (config : IdempotencyLeaseConfig) :
    Bool × InMemoryIdempotencyStore V :=
  let reserved := store.insert key ⟨.pending (newLease nowMs config), nowMs⟩
  match store.load key with
  | none => (true, reserved)
  | some (.pending lease) => if lease.isExpired nowMs then (true, reserved) else (false, store)
  | some (.complete _) => (false, store)

def reserve (nowMs : Nat) (key : String) : Bool × InMemoryIdempotencyStore V :=
  store.reserveWithLease nowMs key .default

/-- Renews the lease of a pending key for its owner. -/
def heartbeat (nowMs : Nat) (key owner : String) : Bool × InMemoryIdempotencyStore V :=
  match store.load key with
  | some (.pending lease) =>
    if lease.owner ≠ owner then (false, store)
    else
      let renewed := { lease with expiresAtMs := expiresAtMs nowMs defaultIdempotencyLease }
      (true, store.insert key ⟨.pending renewed, nowMs⟩)
  | _ => (false, store)

/-- Drops the pending keys whose leases have expired. -/
def expireStalePending (nowMs : Nat) : InMemoryIdempotencyStore V :=
  ⟨fun key => (store.entries key).filter (fun entry => !entry.state.isExpiredPending nowMs)⟩

/-- Drops the completed keys last written before the cutoff. -/
def expireCompletedBefore (cutoffMs : Nat) : InMemoryIdempotencyStore V :=
  ⟨fun key => (store.entries key).filter (fun entry =>
    match entry.state with
    | .complete _ => !decide (entry.updatedAtMs < cutoffMs)
    | .pending _ => true)⟩

/-- Overwrites whatever the key holds. -/
def save (nowMs : Nat) (key : String) (value : V) : InMemoryIdempotencyStore V :=
  store.insert key ⟨.complete value, nowMs⟩

/-- Deletes whatever the key holds. -/
def remove (key : String) : InMemoryIdempotencyStore V :=
  ⟨Function.update store.entries key none⟩

variable {store}

@[simp] theorem load_insert (key : String) (entry : InMemoryIdempotencyEntry V) :
    (store.insert key entry).load key = some entry.state := by
  simp [insert, load]

@[simp] theorem load_save (nowMs : Nat) (key : String) (value : V) :
    (store.save nowMs key value).load key = some (.complete value) := by
  simp [save]

@[simp] theorem load_remove (key : String) : (store.remove key).load key = none := by
  simp [remove, load]

variable {after : InMemoryIdempotencyStore V}

/-- A granted reservation found the key free or expired, and leaves it pending. -/
theorem reserve_granted {nowMs : Nat} {key : String}
    (reserved : store.reserve nowMs key = (true, after)) :
    (store.load key = none ∨
        ∃ lease, store.load key = some (.pending lease) ∧ lease.isExpired nowMs = true) ∧
      ∃ lease, after.load key = some (.pending lease) := by
  rw [reserve, reserveWithLease] at reserved
  split at reserved
  · rename_i absent
    cases reserved
    exact ⟨.inl absent, _, load_insert _ _⟩
  · rename_i lease held
    split at reserved
    · rename_i expired
      cases reserved
      exact ⟨.inr ⟨lease, held, expired⟩, _, load_insert _ _⟩
    · cases reserved
  · cases reserved

/-- A refused reservation changes nothing. -/
theorem reserve_refused {nowMs : Nat} {key : String}
    (reserved : store.reserve nowMs key = (false, after)) : after = store := by
  rw [reserve, reserveWithLease] at reserved
  split at reserved
  · cases reserved
  · split at reserved
    · cases reserved
    · cases reserved
      rfl
  · cases reserved
    rfl

end InMemoryIdempotencyStore

end DddCqrsEs
