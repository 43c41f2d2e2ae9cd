import DddCqrsEs.KeyLease

/- The in-memory store and the SQL stores: which pending rows keep other callers out exactly
as long as their lease lives. -/
namespace DddCqrsEs

variable {A : Aggregate} {V : Type}

def IdempotencyRow.lease (row : IdempotencyRow) : Option StoredLease :=
  if row.state = "pending" then some ⟨row.owner, row.expiresAtMs⟩ else none

def pendingLease (table : IdempotencyTable) (key : String) : Option StoredLease :=
  (table key).bind IdempotencyRow.lease

/-- The expiry column holds 64-bit integers. -/
def StoredLease.FitsColumn (lease : StoredLease) : Prop :=
  ∀ expiresAt, lease.expiresAtMs = some expiresAt → expiresAt ≤ i64Max

/-- What an answer to a reservation means for a key that is pending, or is not. -/
def KeyAttempt.ofReserved (pending : Bool) : Except EventStoreError Bool → KeyAttempt
  | .ok true => .granted
  | .ok false => if pending then .refused else .completed
  | .error error => .failed error

def KeyAttempt.ofAppended {α : Type*} : Except IdempotentAppendError α → KeyAttempt
  | .ok _ => .granted
  | .error (.pending _) => .refused
  | .error (.store error) => .failed error

theorem KeyAttempt.ofReserved_idle (answer : Except EventStoreError Bool) :
    KeyAttempt.ofReserved false answer ≠ .refused := by
  unfold KeyAttempt.ofReserved
  split <;> simp

/-- The milliseconds of a clock reading that fit a database column. -/
def ColumnTime (clock : SystemTime) : Prop := 0 ≤ clock ∧ clock.toNat / 1000000 ≤ i64Max

instance (clock : SystemTime) : Decidable (ColumnTime clock) := inferInstanceAs (Decidable (_ ∧ _))

variable {clock : SystemTime}

theorem nowMs_of_columnTime (storable : ColumnTime clock) :
    nowMs clock = clock.toNat / 1000000 := by
  have fits : clock.toNat / 1000000 ≤ 2 ^ 63 - 1 := storable.2
  exact Nat.mod_eq_of_lt (Nat.lt_of_le_of_lt fits (by decide))

theorem systemTimeToMillis_of_columnTime (storable : ColumnTime clock) :
    systemTimeToMillis clock = .ok (nowMs clock) := by
  unfold systemTimeToMillis
  rw [if_neg (not_lt.mpr storable.1), nowMs_of_columnTime storable]
  exact if_pos storable.2

theorem systemTimeToMillis_beyond (unstorable : ¬ ColumnTime clock) :
    ∃ message, systemTimeToMillis clock = .error (.serialization message none) := by
  unfold systemTimeToMillis
  by_cases before : clock < 0
  · exact ⟨_, if_pos before⟩
  · rw [if_neg before]
    exact ⟨_, if_neg (fun fits => unstorable ⟨not_lt.mp before, fits⟩)⟩

/-- Every reading of the clock comes at some later time. -/
theorem exists_later (clock : Int) {millis : Nat} (fits : millis ≤ u64Max) :
    ∃ later : SystemTime, clock ≤ later ∧ nowMs later = millis := by
  have far : clock ≤ ((clock.toNat * 2 ^ 64 + millis) * 1000000 : Nat) := by omega
  refine ⟨((clock.toNat * 2 ^ 64 + millis) * 1000000 : Nat), far, ?_⟩
  show (clock.toNat * 2 ^ 64 + millis) * 1000000 / 1000000 % 2 ^ 64 = millis
  unfold u64Max at fits
  omega

/-- A time that fits its column is reached while the clock still fits it. -/
theorem exists_columnTime {clock : Int} {millis : Nat} (fits : millis ≤ i64Max)
    (bounded : clock.toNat / 1000000 ≤ i64Max) :
    ∃ later : SystemTime, clock ≤ later ∧ ColumnTime later ∧ millis ≤ nowMs later := by
  by_cases passed : ((millis * 1000000 : Nat) : Int) ≤ clock
  · have after : 0 ≤ clock := by omega
    have reached : millis ≤ clock.toNat / 1000000 := by omega
    refine ⟨clock, Int.le_refl _, ⟨after, bounded⟩, ?_⟩
    rw [nowMs_of_columnTime ⟨after, bounded⟩]
    exact reached
  · have whole : (millis * 1000000 : Nat) / 1000000 = millis := by omega
    have storable : ColumnTime (millis * 1000000 : Nat) := by
      refine ⟨Int.natCast_nonneg _, ?_⟩
      rw [Int.toNat_natCast, whole]
      exact fits
    refine ⟨(millis * 1000000 : Nat), Int.le_of_lt (not_le.mp passed), storable, ?_⟩
    rw [nowMs_of_columnTime storable, Int.toNat_natCast, whole]

/-- A clock that has passed what its column holds does not come back. -/
theorem columnTime_of_later {clock later : Int} (start : 0 ≤ clock) (after : clock ≤ later)
    (fits : ColumnTime later) : ColumnTime clock := by
  have bound := fits.2
  exact ⟨start, by omega⟩

namespace InMemoryIdempotencyStore

variable (store : InMemoryIdempotencyStore V) (key : String) (config : IdempotencyLeaseConfig)

def lease : Option StoredLease :=
  match store.load key with
  | some (.pending lease) => some ⟨some lease.owner, some lease.expiresAtMs⟩
  | _ => none

def access : KeyAccess V where
  lease := store.lease key
  load _ := .ok (store.load key)
  attempt clock := .ofReserved (store.lease key).isSome
    (.ok (store.reserveWithLease (nowMs clock) key config).1)

/-- The lease a pending entry keeps is all that decides, for a load and for a
reservation. -/
theorem blocksWhileLeased (clock : SystemTime)
    (fits : ∀ lease, store.load key = some (.pending lease) → lease.expiresAtMs ≤ u64Max) :
    (store.access key config).BlocksWhileLeased clock := by
  cases held : store.load key with
  | none =>
    apply KeyAccess.blocks_of_unleased
    · simp [access, lease, held]
    · simp [access, held]
    · simpa [access, lease, held] using KeyAttempt.ofReserved_idle _
  | some state =>
    cases state with
    | complete value =>
      apply KeyAccess.blocks_of_unleased
      · simp [access, lease, held]
      · simp [access, held]
      · simpa [access, lease, held] using KeyAttempt.ofReserved_idle _
    | pending stored =>
      have attempt : ∀ clock, (store.access key config).attempt clock =
          if stored.expiresAtMs ≤ nowMs clock then .granted else .refused := by
        intro clock
        simp only [access, lease, held, reserveWithLease, IdempotencyLease.isExpired,
          decide_eq_true_eq]
        split <;> rfl
      have loaded : ∀ clock, (store.access key config).load clock =
          .ok (some (.pending stored)) := by simp [access, held]
      constructor
      · rw [attempt]
        simp [KeyAccess.ReportsLive, loaded]
      · intro _
        constructor
        · intro later _
          constructor
          · simp [loaded]
          · intro message code
            rw [attempt]
            split <;> simp
        · obtain ⟨later, after, reached⟩ := exists_later clock (fits stored held)
          refine ⟨later, after, ?_⟩
          rw [attempt, if_pos (by rw [reached])]

end InMemoryIdempotencyStore

section PendingRow

variable {table : IdempotencyTable} {key : String} {row : IdempotencyRow}

theorem pendingLease_row (held : table key = some row) (pending : row.state = "pending") :
    pendingLease table key = some ⟨row.owner, row.expiresAtMs⟩ := by
  simp [pendingLease, held, IdempotencyRow.lease, pending]

theorem pendingLease_idle (idle : ∀ row, table key = some row → row.state ≠ "pending") :
    pendingLease table key = none := by
  unfold pendingLease
  cases held : table key with
  | none => rfl
  | some row => simp [IdempotencyRow.lease, idle row held]

/-- A key is pending, or none of its rows is. -/
theorem pending_or_idle (table : IdempotencyTable) (key : String) :
    (∃ row, table key = some row ∧ row.state = "pending") ∨
      ∀ row, table key = some row → row.state ≠ "pending" := by
  by_cases pending : ∃ row, table key = some row ∧ row.state = "pending"
  · exact Or.inl pending
  · exact Or.inr (fun row held same => pending ⟨row, held, same⟩)

end PendingRow

theorem completedState_ne_pending {fromJson : String → Except String V} {row : IdempotencyRow}
    (lease : IdempotencyLease) : completedState fromJson row ≠ .ok (some (.pending lease)) := by
  unfold completedState parseCompleted
  intro loaded
  split at loaded
  · split at loaded
    · split at loaded <;> cases loaded
    · cases loaded
  · cases loaded

namespace SqliteIdempotencyStore

variable (store : SqliteIdempotencyStore V) (table : IdempotencyTable) (key : String)
  (config : IdempotencyLeaseConfig)

def access : KeyAccess V where
  lease := pendingLease table key
  load clock := store.load table none (nowMs clock) key
  attempt clock := .ofReserved (pendingLease table key).isSome
    ((reserveWithLease table none clock key config).map Prod.fst)

/-- Where the takeover and the load agree: the row names a lease, or at least an expiry to
come. Times that do not fit the column make every reservation fail. -/
def Honours (clock : SystemTime) (lease : StoredLease) : Prop :=
  key.utf8ByteSize ≤ idempotencyKeyMaxLen ∧
    ((ColumnTime clock ∧ (lease.named ≠ none ∨
        ∃ expiresAt, lease.expiresAtMs = some expiresAt ∧ (nowMs clock : Int) < expiresAt)) ∨
      (clock < 0 ∧ ∃ held, lease.named = some held ∧ held.expiresAtMs = 0))

variable {store} {table} {key} {config} {row : IdempotencyRow}

theorem load_pending (held : table key = some row) (pending : row.state = "pending")
    (nowMs : Nat) :
    store.load table none nowMs key =
      .ok ((pendingStateFromRow row.owner row.expiresAtMs nowMs).map .pending) := by
  unfold load
  rw [held]
  exact if_pos pending


variable (table config) in
/-- A reservation fails where the key is too long or the clock does not fit its column. -/
theorem reserveWithLease_fails
    (unfit : ¬ (key.utf8ByteSize ≤ idempotencyKeyMaxLen ∧ ColumnTime clock)) :
    ∃ error, reserveWithLease table none clock key config = .error error ∧
      ∀ message code, error ≠ .deserialization message code := by
  unfold reserveWithLease validateStorageLength
  by_cases long : idempotencyKeyMaxLen < key.utf8ByteSize
  · rw [if_pos long]
    exact ⟨_, rfl, by simp⟩
  · rw [if_neg long]
    obtain ⟨message, late⟩ := systemTimeToMillis_beyond
      (fun storable => unfit ⟨not_lt.mp long, storable⟩)
    rw [late]
    exact ⟨_, rfl, by simp⟩

theorem reserveWithLease_answers (held : table key = some row)
    (short : key.utf8ByteSize ≤ idempotencyKeyMaxLen) (storable : ColumnTime clock) :
    (reserveWithLease table none clock key config).map Prod.fst =
      .ok (reclaims row (nowMs clock)) := by
  unfold reserveWithLease validateStorageLength
  rw [if_neg (not_lt.mpr short), systemTimeToMillis_of_columnTime storable, held]
  dsimp only
  split
  · rename_i taken
    rw [taken]
    rfl
  · rename_i kept
    rw [Bool.not_eq_true] at kept
    rw [kept]
    rfl

theorem reclaims_iff (pending : row.state = "pending") (storable : ColumnTime clock) :
    reclaims row (nowMs clock) = true ↔
      ∀ expiresAt, row.expiresAtMs = some expiresAt → expiresAt ≤ (nowMs clock : Int) := by
  have fits : nowMs clock ≤ i64Max := by
    rw [nowMs_of_columnTime storable]
    exact storable.2
  unfold reclaims
  rw [pending, if_pos fits]
  cases row.expiresAtMs <;> simp

theorem attempt_answers (held : table key = some row) (pending : row.state = "pending")
    (short : key.utf8ByteSize ≤ idempotencyKeyMaxLen) (storable : ColumnTime clock) :
    (store.access table key config).attempt clock =
      if reclaims row (nowMs clock) then .granted else .refused := by
  show KeyAttempt.ofReserved (pendingLease table key).isSome _ = _
  rw [reserveWithLease_answers held short storable, pendingLease_row held pending]
  cases reclaims row (nowMs clock) <;> rfl

variable (store table config) in
theorem attempt_fails {clock : SystemTime}
    (unfit : ¬ (key.utf8ByteSize ≤ idempotencyKeyMaxLen ∧ ColumnTime clock)) :
    ∃ error, (store.access table key config).attempt clock = .failed error ∧
      ∀ message code, error ≠ .deserialization message code := by
  obtain ⟨error, failed, plain⟩ := reserveWithLease_fails table config unfit
  refine ⟨error, ?_, plain⟩
  show KeyAttempt.ofReserved _ (Except.map Prod.fst _) = _
  rw [failed]
  rfl

theorem reportsLive_iff (held : table key = some row) (pending : row.state = "pending") :
    (store.access table key config).ReportsLive clock ↔
      (⟨row.owner, row.expiresAtMs⟩ : StoredLease).ReadAsLive (nowMs clock) := by
  apply KeyAccess.reportsLive_iff
  · intro lease read
    show store.load table none (nowMs clock) key = _
    rw [load_pending held pending, read]
    rfl
  · intro read lease
    show store.load table none (nowMs clock) key ≠ _
    rw [load_pending held pending, read]
    simp

theorem reports_of_live (held : table key = some row) (pending : row.state = "pending")
    (live : (⟨row.owner, row.expiresAtMs⟩ : StoredLease).LiveAt (nowMs clock)) :
    (store.access table key config).ReportsLive clock :=
  (reportsLive_iff held pending).mpr live.readAsLive

/-- A pending row is never unreadable. -/
theorem readable (held : table key = some row) (pending : row.state = "pending")
    (clock : SystemTime) : (store.access table key config).Readable clock := by
  constructor
  · intro message code
    show store.load table none (nowMs clock) key ≠ _
    rw [load_pending held pending]
    simp
  · intro message code
    by_cases fits : key.utf8ByteSize ≤ idempotencyKeyMaxLen ∧ ColumnTime clock
    · rw [attempt_answers held pending fits.1 fits.2]
      split <;> simp
    · obtain ⟨error, failed, plain⟩ := attempt_fails store table config fits
      rw [failed]
      simpa using plain message code

/-- A row with an expiry is taken over at some later time. -/
theorem granted_later (held : table key = some row) (pending : row.state = "pending")
    (short : key.utf8ByteSize ≤ idempotencyKeyMaxLen)
    (fits : (⟨row.owner, row.expiresAtMs⟩ : StoredLease).FitsColumn)
    (bounded : clock.toNat / 1000000 ≤ i64Max)
    (stored : ∃ expiresAt, row.expiresAtMs = some expiresAt) :
    ∃ later, clock ≤ later ∧ (store.access table key config).attempt later = .granted := by
  obtain ⟨expiresAt, stored⟩ := stored
  have bound : expiresAt.toNat ≤ i64Max := by
    have := fits expiresAt stored
    omega
  obtain ⟨later, after, inColumn, reached⟩ := exists_columnTime bound bounded
  refine ⟨later, after, ?_⟩
  rw [attempt_answers held pending short inColumn, if_pos]
  rw [reclaims_iff pending inColumn]
  intro other same
  rw [stored] at same
  cases same
  omega

/-- A row that names its lease, or an expiry to come, is taken over as soon as its column
says so. -/
theorem blocks_iff_of_answered (held : table key = some row) (pending : row.state = "pending")
    (short : key.utf8ByteSize ≤ idempotencyKeyMaxLen) (storable : ColumnTime clock)
    (fits : (⟨row.owner, row.expiresAtMs⟩ : StoredLease).FitsColumn) :
    (store.access table key config).BlocksWhileLeased clock ↔
      ((⟨row.owner, row.expiresAtMs⟩ : StoredLease).named ≠ none ∨
        ∃ expiresAt, row.expiresAtMs = some expiresAt ∧ (nowMs clock : Int) < expiresAt) := by
  have refused : (store.access table key config).attempt clock = .refused ↔
      ∃ expiresAt, row.expiresAtMs = some expiresAt ∧ (nowMs clock : Int) < expiresAt := by
    have takes := reclaims_iff pending storable
    rw [attempt_answers held pending short storable]
    by_cases taken : reclaims row (nowMs clock) = true
    · rw [if_pos taken]
      have due := takes.mp taken
      simp only [reduceCtorEq, false_iff]
      intro later
      obtain ⟨expiresAt, stored, unexpired⟩ := later
      exact absurd (due expiresAt stored) (not_le.mpr unexpired)
    · rw [if_neg taken]
      rw [takes] at taken
      simpa using taken
  have retried : (∃ expiresAt, row.expiresAtMs = some expiresAt) →
      (∀ later, clock ≤ later → (store.access table key config).Readable later) ∧
        ∃ later, clock ≤ later ∧ (store.access table key config).attempt later = .granted :=
    fun stored => ⟨fun later _ => readable held pending later,
      granted_later held pending short fits storable.2 stored⟩
  unfold KeyAccess.BlocksWhileLeased
  rw [reportsLive_iff held pending, refused]
  cases named : (⟨row.owner, row.expiresAtMs⟩ : StoredLease).named with
  | none =>
    have early : nowMs clock < u64Max := by
      rw [nowMs_of_columnTime storable]
      exact Nat.lt_of_le_of_lt storable.2 (by decide)
    rw [StoredLease.readAsLive_of_unnamed named]
    constructor
    · intro blocks
      exact Or.inr (blocks.1.mp early)
    · intro stored
      have due := stored.resolve_left (fun other => other rfl)
      obtain ⟨expiresAt, column, unexpired⟩ := due
      exact ⟨iff_of_true early ⟨expiresAt, column, unexpired⟩, fun _ => retried ⟨_, column⟩⟩
  | some lease =>
    have column : row.expiresAtMs = some (lease.expiresAtMs : Int) :=
      StoredLease.named_expiry named
    rw [StoredLease.readAsLive_of_named named]
    constructor
    · intro _
      exact Or.inl (by simp)
    · intro _
      exact ⟨by simp [column], fun _ => retried ⟨_, column⟩⟩

/-- Before the epoch nothing can be reserved, and only what expires at the epoch reads as
expired. -/
theorem blocks_iff_of_before_epoch (held : table key = some row) (pending : row.state = "pending")
    (short : key.utf8ByteSize ≤ idempotencyKeyMaxLen)
    (fits : (⟨row.owner, row.expiresAtMs⟩ : StoredLease).FitsColumn) (before : clock < 0) :
    (store.access table key config).BlocksWhileLeased clock ↔
      ∃ lease, (⟨row.owner, row.expiresAtMs⟩ : StoredLease).named = some lease ∧
        lease.expiresAtMs = 0 := by
  have start : clock.toNat = 0 := Int.toNat_of_nonpos (le_of_lt before)
  have zero : nowMs clock = 0 := by
    rw [nowMs, start, durationMillis, Nat.zero_div, Nat.zero_mod]
  have unrefused : (store.access table key config).attempt clock ≠ .refused := by
    obtain ⟨error, failed, _⟩ := attempt_fails store table config
      (fun fit : key.utf8ByteSize ≤ idempotencyKeyMaxLen ∧ ColumnTime clock =>
        absurd fit.2.1 (not_le.mpr before))
    rw [failed]
    simp
  unfold KeyAccess.BlocksWhileLeased
  rw [reportsLive_iff held pending, zero, iff_false_right unrefused]
  cases named : (⟨row.owner, row.expiresAtMs⟩ : StoredLease).named with
  | none =>
    rw [StoredLease.readAsLive_of_unnamed named]
    simp [u64Max]
  | some lease =>
    have column : row.expiresAtMs = some (lease.expiresAtMs : Int) :=
      StoredLease.named_expiry named
    rw [StoredLease.readAsLive_of_named named]
    constructor
    · intro blocks
      exact ⟨lease, rfl, by omega⟩
    · intro expired
      obtain ⟨other, same, expiry⟩ := expired
      cases same
      refine ⟨by omega, fun _ => ⟨fun later _ => readable held pending later, ?_⟩⟩
      exact granted_later held pending short fits (by rw [start]; decide) ⟨_, column⟩

theorem load_idle (idle : ∀ row, table key = some row → row.state ≠ "pending") (nowMs : Nat)
    (lease : IdempotencyLease) : store.load table none nowMs key ≠ .ok (some (.pending lease)) := by
  unfold load
  cases held : table key with
  | none => simp
  | some row =>
    dsimp only
    rw [if_neg (idle row held)]
    exact completedState_ne_pending lease

/-- The rows and times at which a pending key is blocked as long as its lease lives. -/
theorem blocksWhileLeased_iff (clock : SystemTime)
    (fits : ∀ lease, pendingLease table key = some lease → lease.FitsColumn) :
    (store.access table key config).BlocksWhileLeased clock ↔
      ∀ lease, pendingLease table key = some lease → Honours key clock lease := by
  rcases pending_or_idle table key with taken | idle
  · obtain ⟨row, held, pending⟩ := taken
    have leased := pendingLease_row held pending
    have fits := fits _ leased
    simp only [leased, Option.some.injEq, forall_eq']
    unfold Honours
    by_cases short : key.utf8ByteSize ≤ idempotencyKeyMaxLen
    · by_cases inColumn : ColumnTime clock
      · rw [blocks_iff_of_answered held pending short inColumn fits]
        simp [short, inColumn, not_lt.mpr inColumn.1]
      · by_cases before : clock < 0
        · rw [blocks_iff_of_before_epoch held pending short fits before]
          simp [short, inColumn, before]
        · apply iff_of_false
          · apply KeyAccess.not_blocks_of_failing leased (reports_of_live held pending)
            intro later after
            obtain ⟨error, failed, _⟩ := attempt_fails store table config
              (fun fit : key.utf8ByteSize ≤ idempotencyKeyMaxLen ∧ ColumnTime later =>
                inColumn (columnTime_of_later (not_lt.mp before) after fit.2))
            exact ⟨error, failed⟩
          · simp [inColumn, before]
    · apply iff_of_false
      · apply KeyAccess.not_blocks_of_failing leased (reports_of_live held pending)
        intro later _
        obtain ⟨error, failed, _⟩ := attempt_fails store table config
          (fun fit : key.utf8ByteSize ≤ idempotencyKeyMaxLen ∧ ColumnTime later => short fit.1)
        exact ⟨error, failed⟩
      · simp [short]
  · have unleased := pendingLease_idle idle
    refine iff_of_true (KeyAccess.blocks_of_unleased unleased (load_idle idle _) ?_)
      (by simp [unleased])
    simpa [access, unleased] using KeyAttempt.ofReserved_idle _

end SqliteIdempotencyStore

/-- A lease that fits its column is not alive at the end of time. -/
theorem StoredLease.LiveAt.early {lease : StoredLease} {nowMs : Nat} (live : lease.LiveAt nowMs)
    (fits : lease.FitsColumn) : nowMs < u64Max := by
  obtain ⟨held, named, unexpired⟩ := live
  have bound : held.expiresAtMs ≤ i64Max := by
    have := fits _ (StoredLease.named_expiry named)
    omega
  exact Nat.lt_trans unexpired (Nat.lt_of_le_of_lt bound (by decide))

namespace PooledIdempotencyStore

variable (store : PooledIdempotencyStore V) (table : IdempotencyTable) (key : String)
  (config : IdempotencyLeaseConfig)

def access : KeyAccess V where
  lease := pendingLease table key
  load clock := store.load table none (nowMs clock) key
  attempt clock := .ofReserved (pendingLease table key).isSome
    ((reserveWithLease table none clock key config).map Prod.fst)

variable {store} {table} {key} {config} {row : IdempotencyRow}

/-- Any pending row is refused, whatever its lease. -/
theorem attempt_pending (held : table key = some row) (pending : row.state = "pending")
    (clock : SystemTime) :
    (store.access table key config).attempt clock ≠ .granted ∧
      ((store.access table key config).attempt clock = .refused ↔
        key.utf8ByteSize ≤ idempotencyKeyMaxLen ∧ ColumnTime clock) := by
  show KeyAttempt.ofReserved (pendingLease table key).isSome _ ≠ _ ∧
    (KeyAttempt.ofReserved (pendingLease table key).isSome _ = _ ↔ _)
  unfold reserveWithLease reserve validateStorageLength
  rw [pendingLease_row held pending, held]
  by_cases long : idempotencyKeyMaxLen < key.utf8ByteSize
  · simp [long, not_le.mpr long, KeyAttempt.ofReserved, Except.map]
  · by_cases inColumn : ColumnTime clock
    · simp [long, not_lt.mp long, inColumn, systemTimeToMillis_of_columnTime,
        KeyAttempt.ofReserved, Except.map]
    · obtain ⟨message, late⟩ := systemTimeToMillis_beyond inColumn
      simp [long, inColumn, late, KeyAttempt.ofReserved, Except.map]

theorem load_idle (idle : ∀ row, table key = some row → row.state ≠ "pending") (nowMs : Nat)
    (lease : IdempotencyLease) : store.load table none nowMs key ≠ .ok (some (.pending lease)) := by
  unfold load
  cases held : table key with
  | none => simp
  | some row =>
    dsimp only
    rw [if_neg (idle row held)]
    exact completedState_ne_pending lease

/-- A pending key is blocked as long as its lease lives only while it does live: the key is
never free again. -/
theorem blocksWhileLeased_iff (clock : SystemTime)
    (fits : ∀ lease, pendingLease table key = some lease → lease.FitsColumn) :
    (store.access table key config).BlocksWhileLeased clock ↔
      ∀ lease, pendingLease table key = some lease →
        (key.utf8ByteSize ≤ idempotencyKeyMaxLen ∧ ColumnTime clock) ∧
          lease.LiveAt (nowMs clock) := by
  rcases pending_or_idle table key with taken | idle
  · obtain ⟨row, held, pending⟩ := taken
    have leased := pendingLease_row held pending
    simp only [leased, Option.some.injEq, forall_eq']
    apply KeyAccess.blocks_iff_of_never_granted leased
    · intro live
      have early := live.early (fits _ leased)
      obtain ⟨lease, read, unexpired⟩ := (StoredLease.readAsLive_fresh.mpr early).read
      refine ⟨lease, ?_, unexpired⟩
      show store.load table none (nowMs clock) key = _
      unfold load
      rw [held]
      dsimp only at read ⊢
      rw [if_pos pending, read]
      rfl
    · intro _
      exact (attempt_pending held pending clock).2
    · intro later _
      exact (attempt_pending held pending later).1
  · have unleased := pendingLease_idle idle
    refine iff_of_true (KeyAccess.blocks_of_unleased unleased (load_idle idle _) ?_)
      (by simp [unleased])
    simpa [access, unleased] using KeyAttempt.ofReserved_idle _

end PooledIdempotencyStore

end DddCqrsEs
