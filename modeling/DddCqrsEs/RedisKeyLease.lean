import DddCqrsEs.AppendKeyLease
import DddCqrsEs.RedisReads

/- The Redis store: a pending hash, what a load makes of it, and what the reserve script
does. -/
namespace DddCqrsEs

open RedisServer

variable {V : Type} {db : KeySpace} {held : RedisHash}

theorem hget_ok {key : String} (stored : db key = some (.hash held)) (field : String) :
    hget key field db = .ok (held.lookup field) db := by
  have read : fields key db = .ok held db := by rw [fields, stored]
  rw [hget, bind_ok read]
  rfl

theorem hset_ok {key : String} (stored : db key = some (.hash held)) (written : RedisHash) :
    hset key written db =
      .ok () (Function.update db key (some (.hash (written.foldl setField held)))) := by
  have read : fields key db = .ok held db := by rw [fields, stored]
  rw [hset, bind_ok read]
  rfl

theorem fieldFromItems_hash (field : String) (held : RedisHash) :
    fieldFromItems field (held.flatMap (fun entry => [.bytes entry.1, .bytes entry.2])) =
      held.lookup field := by
  induction held with
  | nil => rfl
  | cons entry rest ih =>
    rw [List.flatMap_cons, List.cons_append, List.cons_append, List.nil_append, fieldFromItems,
      ih, List.lookup_cons]
    by_cases same : entry.1 = field
    · simp [same]
    · have other : (field == entry.1) = false := by simpa using Ne.symm same
      rw [if_neg same, other]

theorem luaDouble_repr (number : Nat) (db : KeySpace) :
    luaDouble (Nat.repr number) db = .ok (Binary64.round number) db := by
  have digits : (Nat.repr number).toList = Nat.toDigits 10 number := String.toList_ofList
  have all : (Nat.toDigits 10 number).all Char.isDigit = true := by
    rw [List.all_eq_true]
    intro c member
    exact Nat.isDigit_of_mem_toDigits (by decide) (by decide) member
  rw [luaDouble, digits, if_pos ⟨Nat.toDigits_ne_nil, all⟩, Nat.ofDigitChars_ten_toDigits]
  rfl

/-- A number is read back where it fits 64 bits with a sign. -/
theorem parseI64_repr {number : Nat} (fits : number ≤ u64Max) :
    parseI64 (Nat.repr number) = if number ≤ i64Max then some (number : Int) else none := by
  have all : ∀ c ∈ Nat.toDigits 10 number, c.isDigit = true :=
    fun c member => Nat.isDigit_of_mem_toDigits (by decide) (by decide) member
  have digits : (Nat.repr number).toList = Nat.toDigits 10 number := String.toList_ofList
  have read : parseU64 (Nat.repr number) = .ok number :=
    parseU64_repr (Nat.lt_of_le_of_lt fits (by decide))
  unfold parseI64
  split
  · rename_i c rest minus
    rw [digits] at minus
    rw [minus] at all
    exact absurd (all '-' List.mem_cons_self) (by decide)
  · rw [read]

namespace RedisIdempotencyStore

variable (store : RedisIdempotencyStore V) (db : KeySpace) (idempotencyKey : String)
  (config : IdempotencyLeaseConfig)

def hash : RedisHash := hashOf db (store.key idempotencyKey)

def lease : Option StoredLease :=
  if (store.hash db idempotencyKey).lookup "state" = some "pending" then
    some ⟨(store.hash db idempotencyKey).lookup "owner",
      ((store.hash db idempotencyKey).lookup "expires_at_ms").bind parseI64⟩
  else none

/-- The expiry as the reserve script reads it. -/
def storedExpiry : Nat :=
  Nat.ofDigitChars 10
    (((store.hash db idempotencyKey).lookup "expires_at_ms").getD "0").toList 0

/-- An expiry, where there is one, is a 64-bit number as the scripts write it. -/
def WrittenExpiry : Prop :=
  ∀ text, (store.hash db idempotencyKey).lookup "expires_at_ms" = some text →
    ∃ expiresAt, expiresAt ≤ u64Max ∧ text = Nat.repr expiresAt

def access : KeyAccess V where
  lease := store.lease db idempotencyKey
  load clock := store.load db (nowMs clock) idempotencyKey
  attempt clock := .ofReserved (store.lease db idempotencyKey).isSome
    (store.reserveWithLease db .answered (nowMs clock) idempotencyKey config).1

variable {store} {db} {idempotencyKey} {config}

theorem ofDigitChars_repr (number : Nat) : Nat.ofDigitChars 10 (Nat.repr number).toList 0 = number := by
  have digits : (Nat.repr number).toList = Nat.toDigits 10 number := String.toList_ofList
  rw [digits, Nat.ofDigitChars_ten_toDigits]

/-- The text the script reads is that of a 64-bit number. -/
theorem storedExpiry_text (written : store.WrittenExpiry db idempotencyKey) :
    ((store.hash db idempotencyKey).lookup "expires_at_ms").getD "0" =
        Nat.repr (store.storedExpiry db idempotencyKey) ∧
      store.storedExpiry db idempotencyKey ≤ u64Max := by
  unfold storedExpiry
  cases found : (store.hash db idempotencyKey).lookup "expires_at_ms" with
  | none => exact ⟨rfl, Nat.zero_le _⟩
  | some text =>
    obtain ⟨expiresAt, fits, decimal⟩ := written text found
    rw [Option.getD_some, decimal, ofDigitChars_repr]
    exact ⟨rfl, fits⟩

/-- The script on a pending hash: it takes over what has expired. -/
theorem reserveScript_pending (stored : db (store.key idempotencyKey) = some (.hash held))
    (pending : held.lookup "state" = some "pending")
    (written : store.WrittenExpiry db idempotencyKey) (nowMs : Nat) :
    execute (store.reserveScript nowMs idempotencyKey config) db =
      .ok (.int (if Binary64.round (store.storedExpiry db idempotencyKey) ≤ Binary64.round nowMs
        then 1 else 0)) := by
  have same : store.hash db idempotencyKey = held := hashOf_hash stored
  have text := (storedExpiry_text written).1
  rw [same] at text
  have key : ∀ db, argument [store.key idempotencyKey] 1 db = .ok (store.key idempotencyKey) db :=
    argument_ok rfl
  have now : ∀ lease : IdempotencyLease, argument
      [lease.owner, Nat.repr lease.expiresAtMs, Nat.repr nowMs] 3 db = .ok (Nat.repr nowMs) db :=
    fun lease => argument_ok rfl db
  unfold reserveScript idempotencyReserveLua execute
  rw [bind_ok (key db), bind_ok (hget_ok stored _), pending, if_neg (by simp), if_neg (by decide),
    bind_ok (key db), bind_ok (hget_ok stored _), text, bind_ok (luaDouble_repr _ db),
    bind_ok (now _), bind_ok (luaDouble_repr _ db)]
  by_cases expired : Binary64.round (store.storedExpiry db idempotencyKey) ≤ Binary64.round nowMs
  · rw [if_pos expired, if_pos expired, bind_ok (key db), bind_ok (argument_ok rfl db),
      bind_ok (argument_ok rfl db), bind_ok (hset_ok stored _)]
    rfl
  · rw [if_neg expired, if_neg expired]
    rfl

/-- A load of a key that holds a hash with a state. -/
theorem load_hash (stored : db (store.key idempotencyKey) = some (.hash held))
    (nonempty : held ≠ []) (nowMs : Nat) :
    store.load db nowMs idempotencyKey = store.stateFromReply nowMs
      (.array (held.flatMap (fun entry => [.bytes entry.1, .bytes entry.2]))) := by
  have reply : execute (hgetallReply (store.key idempotencyKey)) db =
      .ok (.array (held.flatMap (fun entry => [.bytes entry.1, .bytes entry.2]))) := by
    apply execute_ok
    rw [hgetallReply, bind_ok (hgetall_hash stored)]
    rfl
  unfold load
  rw [reply]
  cases held with
  | nil => exact absurd rfl nonempty
  | cons entry rest => rfl

theorem stateFromReply_hash (held : RedisHash) (nowMs : Nat) :
    store.stateFromReply nowMs
        (.array (held.flatMap (fun entry => [.bytes entry.1, .bytes entry.2]))) =
      if (held.lookup "state").getD "" = "complete" then
        match held.lookup "value" with
        | some raw => parseCompleted store.fromJson raw
        | none =>
          .error (.deserialization "completed redis idempotency row is missing value" none)
      else if (held.lookup "state").getD "" = "pending" then
        .ok ((pendingStateFromRow (held.lookup "owner")
          ((held.lookup "expires_at_ms").bind parseI64) nowMs).map .pending)
      else
        .error (.deserialization
          ("unknown idempotency state: " ++ (held.lookup "state").getD "") none) := by
  have found : ∀ field, fieldFromHash
      (.array (held.flatMap (fun entry => [.bytes entry.1, .bytes entry.2]))) field =
        held.lookup field := fun field => fieldFromItems_hash field held
  unfold stateFromReply
  cases value : held.lookup "value" <;> simp only [found, value]

theorem hash_some {field text : String}
    (found : (store.hash db idempotencyKey).lookup field = some text) :
    db (store.key idempotencyKey) = some (.hash (store.hash db idempotencyKey)) := by
  unfold hash hashOf at found ⊢
  split
  · rename_i stored
    exact stored
  · rename_i other
    split at found
    · rename_i held stored
      exact absurd stored (other held)
    · cases found

/-- A key with a pending lease holds a hash that says so. -/
theorem lease_some {lease : StoredLease} (leased : store.lease db idempotencyKey = some lease) :
    ∃ held, db (store.key idempotencyKey) = some (.hash held) ∧
      store.hash db idempotencyKey = held ∧ held.lookup "state" = some "pending" ∧
      lease = ⟨held.lookup "owner", (held.lookup "expires_at_ms").bind parseI64⟩ := by
  unfold RedisIdempotencyStore.lease at leased
  by_cases pending : (store.hash db idempotencyKey).lookup "state" = some "pending"
  · rw [if_pos pending] at leased
    cases leased
    exact ⟨_, hash_some pending, rfl, pending, rfl⟩
  · rw [if_neg pending] at leased
    cases leased

theorem load_pending (stored : db (store.key idempotencyKey) = some (.hash held))
    (pending : held.lookup "state" = some "pending") (nowMs : Nat) :
    store.load db nowMs idempotencyKey =
      .ok ((pendingStateFromRow (held.lookup "owner")
        ((held.lookup "expires_at_ms").bind parseI64) nowMs).map .pending) := by
  have nonempty : held ≠ [] := by
    intro empty
    rw [empty] at pending
    cases pending
  rw [load_hash stored nonempty, stateFromReply_hash, pending, Option.getD_some,
    if_neg (by decide), if_pos rfl]

/-- A key that holds no hash. -/
theorem load_wrongType {object : Object} (stored : db (store.key idempotencyKey) = some object)
    (other : ∀ held, object ≠ .hash held) (nowMs : Nat) :
    store.load db nowMs idempotencyKey = .error (.backend wrongType none) := by
  have failed : execute (hgetallReply (store.key idempotencyKey)) db =
      .error (.backend wrongType none) := by
    unfold execute hgetallReply hgetall fields
    cases object with
    | hash held => exact absurd rfl (other held)
    | string text => simp only [bind, EStateM.bind, stored]
    | sortedSet members => simp only [bind, EStateM.bind, stored]
  rw [load, failed]

theorem load_idle (unleased : store.lease db idempotencyKey = none) (nowMs : Nat)
    (lease : IdempotencyLease) :
    store.load db nowMs idempotencyKey ≠ .ok (some (.pending lease)) := by
  have idle : (store.hash db idempotencyKey).lookup "state" ≠ some "pending" := by
    intro pending
    unfold RedisIdempotencyStore.lease at unleased
    rw [if_pos pending] at unleased
    cases unleased
  cases stored : db (store.key idempotencyKey) with
  | none =>
    have read : fields (store.key idempotencyKey) db = .ok [] db := by rw [fields, stored]
    have loaded : store.load db nowMs idempotencyKey = .ok none := by
      unfold load hgetallReply hgetall execute
      rw [bind_ok read]
      rfl
    rw [loaded]
    simp
  | some object =>
    cases object with
    | string text =>
      rw [load_wrongType stored (by simp)]
      simp
    | sortedSet members =>
      rw [load_wrongType stored (by simp)]
      simp
    | hash held =>
      have same : store.hash db idempotencyKey = held := hashOf_hash stored
      rw [same] at idle
      by_cases empty : held = []
      · subst empty
        have loaded : store.load db nowMs idempotencyKey = .ok none := by
          unfold load hgetallReply execute
          rw [bind_ok (hgetall_hash stored)]
          rfl
        rw [loaded]
        simp
      · rw [load_hash stored empty, stateFromReply_hash]
        have unset : (held.lookup "state").getD "" ≠ "pending" := by
          cases found : held.lookup "state" with
          | none => simp
          | some text =>
            rw [found] at idle
            simpa using idle
        rw [if_neg unset]
        unfold parseCompleted
        split
        · split
          · split <;> simp
          · simp
        · simp

theorem attempt_pending (stored : db (store.key idempotencyKey) = some (.hash held))
    (pending : held.lookup "state" = some "pending")
    (written : store.WrittenExpiry db idempotencyKey) (clock : SystemTime) :
    (store.access db idempotencyKey config).attempt clock =
      if Binary64.round (store.storedExpiry db idempotencyKey) ≤ Binary64.round (nowMs clock)
        then .granted else .refused := by
  have leased : (store.lease db idempotencyKey).isSome = true := by
    unfold RedisIdempotencyStore.lease hash
    rw [hashOf_hash stored, if_pos pending]
    rfl
  show KeyAttempt.ofReserved (store.lease db idempotencyKey).isSome
    ((execute (store.reserveScript (nowMs clock) idempotencyKey config) db).bind _) = _
  rw [reserveScript_pending stored pending written, leased]
  by_cases expired : Binary64.round (store.storedExpiry db idempotencyKey) ≤
      Binary64.round (nowMs clock)
  · rw [if_pos expired, if_pos expired]
    rfl
  · rw [if_neg expired, if_neg expired]
    rfl

/-- A lease that is named expires at what the script reads. -/
theorem named_storedExpiry {lease : StoredLease} {named : IdempotencyLease}
    (leased : store.lease db idempotencyKey = some lease)
    (written : store.WrittenExpiry db idempotencyKey) (holder : lease.named = some named) :
    named.expiresAtMs = store.storedExpiry db idempotencyKey := by
  obtain ⟨held, _, same, _, columns⟩ := lease_some leased
  have column := StoredLease.named_expiry holder
  cases found : held.lookup "expires_at_ms" with
  | none =>
    rw [columns, found] at column
    cases column
  | some text =>
    obtain ⟨expiresAt, bound, decimal⟩ := written text (by rw [same, found])
    have read : store.storedExpiry db idempotencyKey = expiresAt := by
      unfold storedExpiry
      rw [same, found, Option.getD_some, decimal, ofDigitChars_repr]
    rw [columns, found, Option.bind_some, decimal, parseI64_repr bound] at column
    split at column
    · have equal := Option.some.inj column
      omega
    · cases column

/-- What the script takes for alive, a load reads as alive. -/
theorem readAsLive_of_script {lease : StoredLease} {nowMs : Nat}
    (leased : store.lease db idempotencyKey = some lease)
    (written : store.WrittenExpiry db idempotencyKey)
    (alive : Binary64.round nowMs < Binary64.round (store.storedExpiry db idempotencyKey)) :
    lease.ReadAsLive nowMs := by
  have early : nowMs < store.storedExpiry db idempotencyKey := by
    by_contra late
    exact absurd (Binary64.round_mono (not_lt.mp late)) (not_le.mpr alive)
  constructor
  · intro named holder
    rw [named_storedExpiry leased written holder]
    exact early
  · intro _
    exact Nat.lt_of_lt_of_le early (storedExpiry_text written).2

/-- The key is blocked as long as its lease lives where the script's numbers tell the time
from an expiry that the load reads as one to come. -/
theorem blocksWhileLeased_iff (clock : SystemTime)
    (written : store.WrittenExpiry db idempotencyKey) :
    (store.access db idempotencyKey config).BlocksWhileLeased clock ↔
      ∀ lease, store.lease db idempotencyKey = some lease → lease.ReadAsLive (nowMs clock) →
        Binary64.round (nowMs clock) < Binary64.round (store.storedExpiry db idempotencyKey) := by
  cases leased : store.lease db idempotencyKey with
  | none =>
    refine iff_of_true (KeyAccess.blocks_of_unleased leased (load_idle leased _) ?_) (by simp)
    simpa [access, leased] using KeyAttempt.ofReserved_idle _
  | some lease =>
    obtain ⟨held, stored, _, pending, columns⟩ := lease_some leased
    have attempt : ∀ clock, (store.access db idempotencyKey config).attempt clock = _ :=
      attempt_pending stored pending written
    have reports : (store.access db idempotencyKey config).ReportsLive clock ↔
        lease.ReadAsLive (nowMs clock) := by
      subst columns
      apply KeyAccess.reportsLive_iff
      · intro other read
        show store.load db (nowMs clock) idempotencyKey = _
        rw [load_pending stored pending, read]
        rfl
      · intro read other
        show store.load db (nowMs clock) idempotencyKey ≠ _
        rw [load_pending stored pending, read]
        simp
    have readable : ∀ later, (store.access db idempotencyKey config).Readable later := by
      intro later
      constructor
      · intro message code
        show store.load db (nowMs later) idempotencyKey ≠ _
        rw [load_pending stored pending]
        simp
      · intro message code
        rw [attempt]
        split <;> simp
    obtain ⟨later, after, last⟩ := exists_later clock (Nat.le_refl u64Max)
    have granted : (store.access db idempotencyKey config).attempt later = .granted := by
      rw [attempt, last, if_pos (Binary64.round_mono (storedExpiry_text written).2)]
    have refused : (store.access db idempotencyKey config).attempt clock = .refused ↔
        Binary64.round (nowMs clock) < Binary64.round (store.storedExpiry db idempotencyKey) := by
      rw [attempt]
      split
      · rename_i expired
        simp [not_lt.mpr expired]
      · rename_i alive
        simp [not_le.mp alive]
    unfold KeyAccess.BlocksWhileLeased
    rw [reports, refused]
    simp only [Option.some.injEq, forall_eq']
    constructor
    · intro blocks
      exact blocks.1.mp
    · intro told
      exact ⟨⟨told, readAsLive_of_script leased written⟩,
        fun _ => ⟨fun later _ => readable later, later, after, granted⟩⟩

end RedisIdempotencyStore

end DddCqrsEs
