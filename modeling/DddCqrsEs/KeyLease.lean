import DddCqrsEs.IdempotencyStores
import DddCqrsEs.PooledIdempotent

/- How long a pending idempotency key keeps other callers out, in each of the stores: what a
load tells them, and what becomes of their attempt to take the key. -/
namespace DddCqrsEs

/-- The lease columns of a pending row. -/
structure StoredLease where
  owner : Option String
  expiresAtMs : Option Int
  deriving DecidableEq, Repr

namespace StoredLease

variable (lease : StoredLease)

/-- The lease, where the columns name its owner and its expiry. -/
def named : Option IdempotencyLease :=
  match lease.owner.filter (fun value => value ≠ ""),
      lease.expiresAtMs.filter (fun value => 0 ≤ value) with
  | some owner, some expiresAt => some ⟨owner, expiresAt.toNat⟩
  | _, _ => none

def LiveAt (nowMs : Nat) : Prop := ∃ held, lease.named = some held ∧ nowMs < held.expiresAtMs

/-- What counts as alive when columns without a lease stand for a fresh one. -/
def ReadAsLive (nowMs : Nat) : Prop :=
  (∀ held, lease.named = some held → nowMs < held.expiresAtMs) ∧
    (lease.named = none → nowMs < u64Max)

variable {lease} {nowMs : Nat}

theorem pendingStateFromRow_named :
    pendingStateFromRow lease.owner lease.expiresAtMs nowMs =
      if (lease.named.getD (newLease nowMs .default)).isExpired nowMs then none
      else some (lease.named.getD (newLease nowMs .default)) := by
  unfold pendingStateFromRow named
  generalize lease.owner.filter (fun value => value ≠ "") = owner
  generalize lease.expiresAtMs.filter (fun value => 0 ≤ value) = expiresAt
  cases owner with
  | none => rfl
  | some owner => cases expiresAt <;> rfl

theorem newLease_default_live (nowMs : Nat) :
    nowMs < (newLease nowMs .default).expiresAtMs ↔ nowMs < u64Max := by
  have fresh : (newLease nowMs .default).expiresAtMs = min (nowMs + 60000) u64Max := rfl
  omega

theorem readAsLive_iff :
    lease.ReadAsLive nowMs ↔
      nowMs < (lease.named.getD (newLease nowMs .default)).expiresAtMs := by
  unfold ReadAsLive
  cases read : lease.named with
  | none => simp [newLease_default_live]
  | some held => simp

/-- A row that reads as live reads as a lease that has not expired. -/
theorem ReadAsLive.read (live : lease.ReadAsLive nowMs) :
    ∃ held, pendingStateFromRow lease.owner lease.expiresAtMs nowMs = some held ∧
      nowMs < held.expiresAtMs := by
  rw [readAsLive_iff] at live
  refine ⟨_, ?_, live⟩
  rw [pendingStateFromRow_named, if_neg]
  simpa [IdempotencyLease.isExpired] using live

theorem read_none (dead : ¬ lease.ReadAsLive nowMs) :
    pendingStateFromRow lease.owner lease.expiresAtMs nowMs = none := by
  rw [readAsLive_iff] at dead
  rw [pendingStateFromRow_named, if_pos]
  simpa [IdempotencyLease.isExpired] using dead

theorem LiveAt.readAsLive (live : lease.LiveAt nowMs) : lease.ReadAsLive nowMs := by
  obtain ⟨held, named, unexpired⟩ := live
  simp [ReadAsLive, named, unexpired]

theorem readAsLive_of_named {held : IdempotencyLease} (named : lease.named = some held) :
    lease.ReadAsLive nowMs ↔ nowMs < held.expiresAtMs := by
  simp [ReadAsLive, named]

theorem readAsLive_of_unnamed (unnamed : lease.named = none) :
    lease.ReadAsLive nowMs ↔ nowMs < u64Max := by
  simp [ReadAsLive, unnamed]

theorem readAsLive_fresh : (⟨none, none⟩ : StoredLease).ReadAsLive nowMs ↔ nowMs < u64Max := by
  exact readAsLive_of_unnamed rfl

/-- An expiry that is named is the one in the column. -/
theorem named_expiry {held : IdempotencyLease} (named : lease.named = some held) :
    lease.expiresAtMs = some (held.expiresAtMs : Int) := by
  unfold StoredLease.named at named
  split at named
  · rename_i owner expiresAt _ kept
    cases named
    obtain ⟨stored, positive⟩ := Option.filter_eq_some_iff.mp kept
    have positive : 0 ≤ expiresAt := by simpa using positive
    rw [stored]
    exact congrArg some (Int.toNat_of_nonneg positive).symm
  · cases named

end StoredLease

/-- What a caller gets who tries to take a key. `refused`: because it is pending. -/
inductive KeyAttempt where
  | granted
  | refused
  | completed
  | failed (error : EventStoreError)
  deriving DecidableEq, Repr

/-- One key of one store as its callers meet it: the lease of its pending row, and at any
time a load and an attempt to take the key. -/
structure KeyAccess (V : Type*) where
  lease : Option StoredLease
  load : SystemTime → Except EventStoreError (Option (IdempotencyState V))
  attempt : SystemTime → KeyAttempt

namespace KeyAccess

variable {V : Type*} (access : KeyAccess V) (clock : SystemTime)

def ReportsLive : Prop :=
  ∃ lease, access.load clock = .ok (some (.pending lease)) ∧ nowMs clock < lease.expiresAtMs

/-- The key is pending, and its lease has expired or was never stored. -/
def Lapsed : Prop := ∃ lease, access.lease = some lease ∧ ¬ lease.LiveAt (nowMs clock)

def Readable : Prop :=
  (∀ message code, access.load clock ≠ .error (.deserialization message code)) ∧
    ∀ message code, access.attempt clock ≠ .failed (.deserialization message code)

/-- Callers are refused exactly while a load reports a live reservation; once the lease has
lapsed, those that keep trying meet no unreadable row and get the key at some time. -/
def BlocksWhileLeased : Prop :=
  (access.ReportsLive clock ↔ access.attempt clock = .refused) ∧
    (access.Lapsed clock → (∀ later, clock ≤ later → access.Readable later) ∧
      ∃ later, clock ≤ later ∧ access.attempt later = .granted)

variable {access} {clock}

/-- A key that is not pending is not reported so and refuses nobody. -/
theorem blocks_of_unleased (unleased : access.lease = none)
    (unreported : ∀ lease, access.load clock ≠ .ok (some (.pending lease)))
    (unrefused : access.attempt clock ≠ .refused) : access.BlocksWhileLeased clock := by
  constructor
  · constructor
    · intro reported
      obtain ⟨lease, loaded, _⟩ := reported
      exact absurd loaded (unreported lease)
    · intro refused
      exact absurd refused unrefused
  · intro lapsed
    obtain ⟨lease, held, _⟩ := lapsed
    rw [unleased] at held
    cases held

variable {lease : StoredLease}

/-- A load that reports what the row reads as. -/
theorem reportsLive_iff
    (alive : ∀ held, pendingStateFromRow lease.owner lease.expiresAtMs (nowMs clock) = some held →
      access.load clock = .ok (some (.pending held)))
    (dead : pendingStateFromRow lease.owner lease.expiresAtMs (nowMs clock) = none →
      ∀ held, access.load clock ≠ .ok (some (.pending held))) :
    access.ReportsLive clock ↔ lease.ReadAsLive (nowMs clock) := by
  constructor
  · intro reported
    obtain ⟨held, loaded, _⟩ := reported
    by_contra lapsed
    exact dead (StoredLease.read_none lapsed) held loaded
  · intro live
    obtain ⟨held, read, unexpired⟩ := live.read
    exact ⟨held, alive held read, unexpired⟩

theorem lapsed_iff (leased : access.lease = some lease) :
    access.Lapsed clock ↔ ¬ lease.LiveAt (nowMs clock) := by
  simp [Lapsed, leased]

/-- Where nobody gets the key from now on, a live lease is what makes the refusals right. -/
theorem blocks_iff_of_never_granted {P : Prop} (leased : access.lease = some lease)
    (reports : lease.LiveAt (nowMs clock) → access.ReportsLive clock)
    (refuses : lease.LiveAt (nowMs clock) → (access.attempt clock = .refused ↔ P))
    (never : ∀ later, clock ≤ later → access.attempt later ≠ .granted) :
    access.BlocksWhileLeased clock ↔ P ∧ lease.LiveAt (nowMs clock) := by
  unfold BlocksWhileLeased
  rw [lapsed_iff leased]
  constructor
  · intro blocks
    obtain ⟨agree, retried⟩ := blocks
    have live : lease.LiveAt (nowMs clock) := by
      by_contra lapsed
      obtain ⟨_, later, after, granted⟩ := retried lapsed
      exact never later after granted
    exact ⟨(refuses live).mp (agree.mp (reports live)), live⟩
  · intro blocked
    obtain ⟨refused, live⟩ := blocked
    exact ⟨iff_of_true (reports live) ((refuses live).mpr refused), fun lapsed => absurd live lapsed⟩

/-- Attempts that all fail keep callers out without a word of the key being pending. -/
theorem not_blocks_of_failing (leased : access.lease = some lease)
    (reports : lease.LiveAt (nowMs clock) → access.ReportsLive clock)
    (failing : ∀ later, clock ≤ later → ∃ error, access.attempt later = .failed error) :
    ¬ access.BlocksWhileLeased clock := by
  have never : ∀ later, clock ≤ later → access.attempt later ≠ .granted := by
    intro later after
    obtain ⟨error, failed⟩ := failing later after
    simp [failed]
  have unrefused : access.attempt clock = .refused ↔ False := by
    obtain ⟨error, failed⟩ := failing clock (le_refl _)
    simp [failed]
  rw [blocks_iff_of_never_granted leased reports (fun _ => unrefused) never]
  exact fun blocks => blocks.1

end KeyAccess

end DddCqrsEs
