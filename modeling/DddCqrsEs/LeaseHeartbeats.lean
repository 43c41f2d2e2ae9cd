import DddCqrsEs.ReplyShape

/- Reservations of one key and their heartbeats, in the in-memory store and in Redis. A
heartbeat names its reservation by the owner's text alone. -/
namespace DddCqrsEs

open RedisServer Transition

variable {σ Change Caller V : Type}

/-- What a store holds under the key. -/
inductive KeyRecord where
  | free
  | pending (lease : IdempotencyLease)
  | complete
  deriving DecidableEq, Repr

/-- What a caller reserved the key with, and when. -/
structure Reservation (Caller : Type) where
  caller : Caller
  config : IdempotencyLeaseConfig
  nowMs : Nat

def Reservation.owner (reservation : Reservation Caller) : String :=
  (newLease reservation.nowMs reservation.config).owner

/-- Two reservations get one owner: by name, by the millisecond, or by a name that is the
text of the other's millisecond. -/
def SameOwner (first second : Reservation Caller) : Prop :=
  match first.config.owner, second.config.owner with
  | some owner, some other => owner = other
  | none, none => first.nowMs = second.nowMs
  | some owner, none => owner = "owner-" ++ toString second.nowMs
  | none, some owner => owner = "owner-" ++ toString first.nowMs

/-- A store as the callers of one key see it. A change is any other operation on the key, or
anything that happens elsewhere. -/
structure LeaseStore (σ Change : Type) where
  fresh : σ → Prop
  record : σ → KeyRecord
  reserve : Nat → IdempotencyLeaseConfig → σ → Bool × σ
  heartbeat : Nat → String → σ → Except EventStoreError Bool × σ
  change : Change → σ → σ

inductive LeaseAction (Change Caller : Type) where
  | reserve (reservation : Reservation Caller)
  | heartbeat (nowMs : Nat) (owner : String)
  | change (change : Change)

/-- The store, and the reservations it has granted. -/
structure LeaseState (σ Caller : Type) where
  world : σ
  granted : List (Reservation Caller)

namespace LeaseStore

variable (store : LeaseStore σ Change)

def step (s : LeaseState σ Caller) : LeaseAction Change Caller → LeaseState σ Caller
  | .reserve reservation =>
    match store.reserve reservation.nowMs reservation.config s.world with
    | (true, world) => ⟨world, s.granted ++ [reservation]⟩
    | (false, world) => ⟨world, s.granted⟩
  | .heartbeat nowMs owner => { s with world := (store.heartbeat nowMs owner s.world).2 }
  | .change change => { s with world := store.change change s.world }

def leases (Caller : Type) : Machine (LeaseState σ Caller) (LeaseAction Change Caller) where
  start s := store.fresh s.world ∧ s.granted = []
  step s action := some (store.step s action)

/-- The key is pending under a reservation with this owner. -/
def PendingUnder (world : σ) (owner : String) : Prop :=
  ∃ lease, store.record world = .pending lease ∧ lease.owner = owner

/-- A heartbeat is answered with true and extends the lease of its own reservation, and is
else answered with false and leaves everything as it is. -/
def ActsOnOwn (world : σ) (nowMs : Nat) (owner : String) : Prop :=
  (∀ lease, store.record world = .pending lease → lease.owner = owner →
    ∃ after expiry, store.heartbeat nowMs owner world = (.ok true, after) ∧
      store.record after = .pending { lease with expiresAtMs := expiry } ∧
      lease.expiresAtMs ≤ expiry) ∧
  (¬ store.PendingUnder world owner → store.heartbeat nowMs owner world = (.ok false, world))

/-- No two callers hold reservations with one owner. -/
def OwnersDiffer (granted : List (Reservation Caller)) : Prop :=
  granted.Pairwise (fun first second =>
    first.caller ≠ second.caller → first.owner ≠ second.owner)

/-- A heartbeat with the owner of one's own reservation renews no other caller's lease. -/
def OwnLeaseOnly (s : LeaseState σ Caller) : Prop :=
  ∀ mine ∈ s.granted, ∀ nowMs lease, store.record s.world = .pending lease →
    ((store.heartbeat nowMs mine.owner s.world).1 = .ok true ∨
      store.record (store.heartbeat nowMs mine.owner s.world).2 ≠ store.record s.world) →
    ∃ held, s.granted.getLast? = some held ∧ held.owner = lease.owner ∧
      held.caller = mine.caller

/-- A reservation takes an owner that no other caller has had. -/
def TakesOwnName (s : LeaseState σ Caller) : LeaseAction Change Caller → Prop
  | .reserve reservation =>
    ∀ earlier ∈ s.granted, earlier.caller ≠ reservation.caller → ¬ SameOwner earlier reservation
  | _ => True

/-- The heartbeat, if it is the owner's, does not bring the expiry forward. -/
def Lengthens (world : σ) (nowMs : Nat) (owner : String) : Prop :=
  ∀ lease, store.record world = .pending lease → lease.owner = owner →
    lease.expiresAtMs ≤ expiresAtMs nowMs defaultIdempotencyLease

end LeaseStore

def KeyRecord.owner : KeyRecord → Option String
  | .pending lease => some lease.owner
  | _ => none

@[simp] theorem KeyRecord.owner_pending (lease : IdempotencyLease) :
    (KeyRecord.pending lease).owner = some lease.owner := rfl

theorem KeyRecord.owner_eq_some {record : KeyRecord} {owner : String} :
    record.owner = some owner ↔ ∃ lease, record = .pending lease ∧ lease.owner = owner := by
  cases record <;> simp [KeyRecord.owner]

/-- What each operation does to the record, in states that are kept. -/
structure LeaseStore.Lawful (store : LeaseStore σ Change) (Kept : σ → Prop) : Prop where
  fresh : ∀ world, store.fresh world → Kept world ∧ store.record world = .free
  reserve : ∀ world nowMs config granted after, Kept world →
    store.reserve nowMs config world = (granted, after) →
    Kept after ∧ store.record after =
      if granted then .pending (newLease nowMs config) else store.record world
  heartbeat : ∀ world nowMs owner, Kept world →
    Kept (store.heartbeat nowMs owner world).2 ∧
      (store.record (store.heartbeat nowMs owner world).2).owner = (store.record world).owner ∧
      ∀ lease, store.record world = .pending lease → lease.owner ≠ owner →
        store.heartbeat nowMs owner world = (.ok false, world)
  change : ∀ world change, Kept world →
    Kept (store.change change world) ∧
      (store.record (store.change change world) = store.record world ∨
        (store.record (store.change change world)).owner = none)

theorem owner_eq_iff (first second : Reservation Caller) :
    first.owner = second.owner ↔ SameOwner first second := by
  unfold Reservation.owner SameOwner newLease
  cases first.config.owner with
  | some owner =>
    cases second.config.owner with
    | some other => rfl
    | none => rfl
  | none =>
    cases second.config.owner with
    | some other => exact eq_comm
    | none =>
      constructor
      · intro same
        exact Decimal.repr_injective ((String.append_right_inj "owner-").mp same)
      · intro same
        exact congrArg (fun millis => "owner-" ++ toString millis) same

namespace LeaseStore.Lawful

variable {store : LeaseStore σ Change} {Kept : σ → Prop}

/-- The last reservation granted is the one the key is pending under. -/
def Held (store : LeaseStore σ Change) (s : LeaseState σ Caller) : Prop :=
  ∀ owner, (store.record s.world).owner = some owner →
    ∃ held, s.granted.getLast? = some held ∧ held.owner = owner

variable {s : LeaseState σ Caller}

theorem step_held (lawful : store.Lawful Kept) (action : LeaseAction Change Caller)
    (kept : Kept s.world) (held : Held store s) :
    Kept (store.step s action).world ∧ Held store (store.step s action) := by
  cases action with
  | reserve reservation =>
    rw [step]
    cases ran : store.reserve reservation.nowMs reservation.config s.world with
    | mk granted world =>
      obtain ⟨keptAfter, recorded⟩ := lawful.reserve _ _ _ _ _ kept ran
      cases granted with
      | true =>
        refine ⟨keptAfter, ?_⟩
        intro owner named
        rw [recorded] at named
        cases named
        exact ⟨reservation, List.getLast?_concat, rfl⟩
      | false =>
        refine ⟨keptAfter, ?_⟩
        intro owner named
        rw [recorded] at named
        exact held owner named
  | heartbeat nowMs owner =>
    obtain ⟨keptAfter, same, _⟩ := lawful.heartbeat s.world nowMs owner kept
    refine ⟨keptAfter, ?_⟩
    intro other named
    exact held other (same.symm.trans named)
  | change change =>
    obtain ⟨keptAfter, same | gone⟩ := lawful.change s.world change kept
    · refine ⟨keptAfter, ?_⟩
      intro owner named
      exact held owner ((congrArg KeyRecord.owner same).symm.trans named)
    · refine ⟨keptAfter, ?_⟩
      intro owner named
      cases gone.symm.trans named

theorem held_of_reachable (lawful : store.Lawful Kept)
    (reached : (store.leases Caller).Reachable s) : Kept s.world ∧ Held store s := by
  refine Machine.invariant (I := fun s => Kept s.world ∧ Held store s) ?_ ?_ reached
  · rintro s ⟨fresh, none⟩
    obtain ⟨kept, free⟩ := lawful.fresh s.world fresh
    refine ⟨kept, ?_⟩
    intro owner named
    rw [free] at named
    cases named
  · rintro s action t _ ⟨kept, held⟩ stepped
    cases stepped
    exact lawful.step_held action kept held

/-- Where reservations take names of their own, callers differ in their owners. -/
theorem ownersDiffer_of_reachable
    (reached : ((store.leases Caller).restrict TakesOwnName).Reachable s) :
    OwnersDiffer s.granted := by
  refine Machine.invariant (I := fun s => OwnersDiffer s.granted) ?_ ?_ reached
  · rintro s ⟨_, none⟩
    rw [none]
    exact List.Pairwise.nil
  · intro s action t _ differ stepped
    obtain ⟨takes, stepped⟩ := (Machine.restrict_step_iff _ _ _ _).mp stepped
    cases stepped
    cases action with
    | reserve reservation =>
      rw [step]
      cases ran : store.reserve reservation.nowMs reservation.config s.world with
      | mk granted world =>
        cases granted with
        | false => exact differ
        | true =>
          refine List.pairwise_append.mpr ⟨differ, List.pairwise_singleton _ _, ?_⟩
          intro earlier member other last others same
          rw [List.mem_singleton.mp last] at others same
          exact takes earlier member others ((owner_eq_iff _ _).mp same)
    | heartbeat nowMs owner => exact differ
    | change change => exact differ

/-- An owner that no other caller shares renews none of their leases. -/
theorem ownLeaseOnly (lawful : store.Lawful Kept) (kept : Kept s.world) (held : Held store s)
    (differ : OwnersDiffer s.granted) : store.OwnLeaseOnly s := by
  intro mine member nowMs lease pending renews
  obtain ⟨last, ended, named⟩ := held lease.owner (by rw [pending]; rfl)
  refine ⟨last, ended, named, ?_⟩
  by_cases own : lease.owner = mine.owner
  · by_contra others
    have before : s.granted = s.granted.dropLast ++ [last] := by
      obtain ⟨nonempty, ends⟩ := List.getLast?_eq_some_iff.mp ended
      rw [ends, List.dropLast_concat]
    rw [before] at member differ
    obtain ⟨_, _, apart⟩ := List.pairwise_append.mp differ
    rcases List.mem_append.mp member with earlier | same
    · exact apart mine earlier last (List.mem_singleton.mpr rfl) (Ne.symm others)
        (own.symm.trans named.symm)
    · exact others (congrArg Reservation.caller (List.mem_singleton.mp same).symm)
  · have refused := (lawful.heartbeat s.world nowMs mine.owner kept).2.2 lease pending own
    rw [refused] at renews
    rcases renews with answered | changed
    · cases answered
    · exact absurd rfl changed

end LeaseStore.Lawful

inductive InMemoryChange (V : Type) where
  | save (nowMs : Nat) (value : V)
  | remove
  | expireStalePending (nowMs : Nat)
  | expireCompletedBefore (cutoffMs : Nat)
  | elsewhere (entries : String → Option (InMemoryIdempotencyEntry V))

namespace InMemoryIdempotencyStore

def record (store : InMemoryIdempotencyStore V) (key : String) : KeyRecord :=
  match store.load key with
  | none => .free
  | some (.pending lease) => .pending lease
  | some (.complete _) => .complete

def change (store : InMemoryIdempotencyStore V) (key : String) :
    InMemoryChange V → InMemoryIdempotencyStore V
  | .save nowMs value => store.save nowMs key value
  | .remove => store.remove key
  | .expireStalePending nowMs => store.expireStalePending nowMs
  | .expireCompletedBefore cutoffMs => store.expireCompletedBefore cutoffMs
  | .elsewhere entries => ⟨Function.update entries key (store.entries key)⟩

def leaseStore (key : String) : LeaseStore (InMemoryIdempotencyStore V) (InMemoryChange V) where
  fresh store := store.load key = none
  record store := store.record key
  reserve nowMs config store := store.reserveWithLease nowMs key config
  heartbeat nowMs owner store :=
    (.ok (store.heartbeat nowMs key owner).1, (store.heartbeat nowMs key owner).2)
  change change store := store.change key change

variable {store : InMemoryIdempotencyStore V} {key : String}

theorem record_insert (entry : InMemoryIdempotencyEntry V) :
    (store.insert key entry).record key =
      match entry.state with
      | .pending lease => .pending lease
      | .complete _ => .complete := by
  rw [record, load_insert]
  cases entry.state <;> rfl

variable {lease : IdempotencyLease}

theorem record_pending :
    store.record key = .pending lease ↔ store.load key = some (.pending lease) := by
  unfold record
  cases store.load key with
  | none => simp
  | some state => cases state <;> simp

/-- What is left of the key after entries have been dropped. -/
theorem record_filter (store : InMemoryIdempotencyStore V) (key : String)
    (keeps : InMemoryIdempotencyEntry V → Bool) :
    (⟨fun key => (store.entries key).filter keeps⟩ : InMemoryIdempotencyStore V).record key =
        store.record key ∨
      (⟨fun key => (store.entries key).filter keeps⟩ : InMemoryIdempotencyStore V).record key =
        .free := by
  unfold record load
  dsimp only
  cases store.entries key with
  | none => exact .inl rfl
  | some entry =>
    by_cases kept : keeps entry = true
    · exact .inl (by rw [Option.filter_some, if_pos kept])
    · exact .inr (by rw [Option.filter_some, if_neg kept]; rfl)

theorem reserveWithLease_record {nowMs : Nat} {config : IdempotencyLeaseConfig} {granted : Bool}
    {after : InMemoryIdempotencyStore V}
    (reserved : store.reserveWithLease nowMs key config = (granted, after)) :
    after.record key = if granted then .pending (newLease nowMs config) else store.record key := by
  unfold reserveWithLease at reserved
  cases held : store.load key with
  | none =>
    rw [held] at reserved
    cases reserved
    exact record_insert _
  | some state =>
    rw [held] at reserved
    cases state with
    | complete value =>
      cases reserved
      rfl
    | pending lease =>
      dsimp only at reserved
      by_cases expired : lease.isExpired nowMs = true
      · rw [if_pos expired] at reserved
        cases reserved
        exact record_insert _
      · rw [if_neg expired] at reserved
        cases reserved
        rfl

theorem heartbeat_own (pending : store.record key = .pending lease) (nowMs : Nat) :
    (store.heartbeat nowMs key lease.owner).1 = true ∧
      (store.heartbeat nowMs key lease.owner).2.record key =
        .pending ⟨lease.owner, expiresAtMs nowMs defaultIdempotencyLease⟩ := by
  unfold heartbeat
  rw [record_pending.mp pending]
  dsimp only
  rw [if_neg (not_not_intro rfl)]
  exact ⟨rfl, record_insert _⟩

theorem heartbeat_other {owner : String} (other : (store.record key).owner ≠ some owner)
    (nowMs : Nat) : store.heartbeat nowMs key owner = (false, store) := by
  unfold heartbeat
  unfold record at other
  cases held : store.load key with
  | none => rfl
  | some state =>
    cases state with
    | complete value => rfl
    | pending lease =>
      rw [held] at other
      dsimp only
      rw [if_pos (fun same => other (congrArg some same))]

theorem leaseStore_lawful : (leaseStore (V := V) key).Lawful (fun _ => True) where
  fresh store free := by
    refine ⟨trivial, ?_⟩
    show store.record key = .free
    rw [record, show store.load key = none from free]
  reserve store nowMs config granted after _ reserved :=
    ⟨trivial, reserveWithLease_record reserved⟩
  heartbeat store nowMs owner _ := by
    refine ⟨trivial, ?_, ?_⟩
    · show ((store.heartbeat nowMs key owner).2.record key).owner = (store.record key).owner
      by_cases own : (store.record key).owner = some owner
      · obtain ⟨lease, pending, rfl⟩ := KeyRecord.owner_eq_some.mp own
        rw [(heartbeat_own pending nowMs).2, pending, KeyRecord.owner_pending,
          KeyRecord.owner_pending]
      · rw [heartbeat_other own]
    · intro lease pending other
      have apart : (store.record key).owner ≠ some owner := by
        rw [show store.record key = .pending lease from pending]
        exact fun same => other (Option.some.inj same)
      show ((.ok (store.heartbeat nowMs key owner).1 : Except EventStoreError Bool),
        (store.heartbeat nowMs key owner).2) = _
      rw [heartbeat_other apart]
  change store change _ := by
    refine ⟨trivial, ?_⟩
    show (store.change key change).record key = store.record key ∨
      ((store.change key change).record key).owner = none
    cases change with
    | save nowMs value =>
      rw [InMemoryIdempotencyStore.change, save, record_insert]
      exact .inr rfl
    | remove =>
      rw [InMemoryIdempotencyStore.change, record, load_remove]
      exact .inr rfl
    | expireStalePending nowMs =>
      rcases record_filter store key
        (fun entry => !entry.state.isExpiredPending nowMs) with same | free
      · exact .inl same
      · exact .inr (congrArg KeyRecord.owner free)
    | expireCompletedBefore cutoffMs =>
      exact (record_filter store key _).imp id (congrArg KeyRecord.owner)
    | elsewhere entries =>
      refine .inl ?_
      rw [InMemoryIdempotencyStore.change, record, load]
      dsimp only
      rw [Function.update_self]
      rfl

/-- The in-memory store compares the owner of a pending key only. -/
theorem actsOnOwn_iff (store : InMemoryIdempotencyStore V) (nowMs : Nat) (owner : String) :
    (leaseStore key).ActsOnOwn store nowMs owner ↔
      (leaseStore key).Lengthens store nowMs owner := by
  constructor
  · rintro ⟨own, _⟩ lease pending same
    subst same
    obtain ⟨after, expiry, ran, recorded, extended⟩ := own lease pending rfl
    have found : store.record key = .pending lease := pending
    have renewed := (heartbeat_own found nowMs).2
    have reached : (store.heartbeat nowMs key lease.owner).2 = after := congrArg Prod.snd ran
    rw [reached] at renewed
    have same : KeyRecord.pending ⟨lease.owner, expiry⟩ =
        .pending ⟨lease.owner, expiresAtMs nowMs defaultIdempotencyLease⟩ :=
      (show after.record key = _ from recorded).symm.trans renewed
    rw [KeyRecord.pending.injEq, IdempotencyLease.mk.injEq] at same
    rw [← same.2]
    exact extended
  · intro lengthens
    refine ⟨?_, ?_⟩
    · intro lease pending same
      subst same
      have found : store.record key = .pending lease := pending
      obtain ⟨renewed, recorded⟩ := heartbeat_own found nowMs
      refine ⟨_, _, Prod.ext (congrArg Except.ok renewed) rfl, recorded, ?_⟩
      exact lengthens lease pending rfl
    · intro other
      have apart : (store.record key).owner ≠ some owner :=
        fun same => other (KeyRecord.owner_eq_some.mp same)
      show ((.ok (store.heartbeat nowMs key owner).1 : Except EventStoreError Bool),
        (store.heartbeat nowMs key owner).2) = _
      rw [heartbeat_other apart]

end InMemoryIdempotencyStore

/-- The two executors the crate has. -/
inductive RedisExecutor where
  | wasi
  | spin
  deriving DecidableEq, Repr

def RedisExecutor.client : RedisExecutor → RedisClient
  | .wasi => wasiRedisClient
  | .spin => spinRedisClient

inductive RedisKeyChange (V : Type) where
  | save (delivery : Delivery) (value : V)
  | remove (delivery : Delivery)
  | elsewhere (db : KeySpace)

def pendingHash (owner expires : String) : RedisHash :=
  [("state", "pending"), ("owner", owner), ("expires_at_ms", expires)]

def completeHash (value expires : String) : RedisHash :=
  [("state", "complete"), ("value", value), ("owner", ""), ("expires_at_ms", expires)]

/-- What the scripts leave under a key, and the record it stands for. -/
inductive LeaseKept : Option Object → KeyRecord → Prop
  | free : LeaseKept none .free
  | pending (lease : IdempotencyLease) :
      LeaseKept (some (.hash (pendingHash lease.owner (Nat.repr lease.expiresAtMs))))
        (.pending lease)
  | complete (value expires : String) :
      LeaseKept (some (.hash (completeHash value expires))) .complete

namespace RedisIdempotencyStore

variable (store : RedisIdempotencyStore V) (db : KeySpace) (idempotencyKey : String)

def record : KeyRecord :=
  let fields := store.hash db idempotencyKey
  match fields.lookup "state" with
  | none => .free
  | some "pending" =>
    .pending ⟨(fields.lookup "owner").getD "", store.storedExpiry db idempotencyKey⟩
  | some _ => .complete

/-- The expiry a heartbeat writes is the one that is there. -/
def Repeats (nowMs : Nat) : Prop :=
  (store.hash db idempotencyKey).lookup "expires_at_ms" =
    some (Nat.repr (expiresAtMs nowMs defaultIdempotencyLease))

def change (toJson : V → Except String String) : RedisKeyChange V → KeySpace
  | .save delivery value =>
    (store.saveOver wasiRedisClient db toJson delivery idempotencyKey value).2
  | .remove delivery => (store.removeOver wasiRedisClient db delivery idempotencyKey).2
  | .elsewhere other => Function.update other (store.key idempotencyKey)
      (db (store.key idempotencyKey))

/-- The store over an executor. Whether the script grants does not depend on it. -/
def leaseStore (executor : RedisExecutor) (toJson : V → Except String String) :
    LeaseStore KeySpace (RedisKeyChange V) where
  fresh db := db (store.key idempotencyKey) = none
  record db := store.record db idempotencyKey
  reserve nowMs config db :=
    let (granted, after) :=
      store.reserveWithLeaseOver wasiRedisClient db .answered nowMs idempotencyKey config
    (decide (granted.toOption = some true), after)
  heartbeat nowMs owner db :=
    store.heartbeatOver executor.client db .answered nowMs idempotencyKey owner
  change change db := store.change db idempotencyKey toJson change

variable {store} {db} {idempotencyKey}

theorem record_of_kept {record : KeyRecord} (kept : LeaseKept (db (store.key idempotencyKey)) record) :
    store.record db idempotencyKey = record := by
  generalize held : db (store.key idempotencyKey) = object at kept
  unfold RedisIdempotencyStore.record storedExpiry hash hashOf
  rw [held]
  cases kept with
  | free => rfl
  | pending lease =>
    show KeyRecord.pending ⟨lease.owner,
      Nat.ofDigitChars 10 (Nat.repr lease.expiresAtMs).toList 0⟩ = _
    rw [ofDigitChars_repr]
  | complete value expires => rfl

/-- The heartbeat script writes to whatever hash has the owner. -/
theorem heartbeatScript_own {held : RedisHash} {owner : String}
    (stored : db (store.key idempotencyKey) = some (.hash held))
    (own : held.lookup "owner" = some owner) (nowMs : Nat) :
    store.heartbeatScript nowMs idempotencyKey owner db =
      .ok (.int 1) (Function.update db (store.key idempotencyKey) (some (.hash (setField held
        ("expires_at_ms", Nat.repr (expiresAtMs nowMs defaultIdempotencyLease)))))) := by
  have first (db : KeySpace) : argument [store.key idempotencyKey] 1 db =
      .ok (store.key idempotencyKey) db := rfl
  unfold heartbeatScript idempotencyHeartbeatLua
  rw [bind_ok (first db), bind_ok (hget_ok stored _), bind_ok (by rfl), if_pos own,
    bind_ok (first db), bind_ok (by rfl), bind_ok (hset_ok stored _)]
  rfl

theorem heartbeatScript_other {record : KeyRecord} {owner : String}
    (kept : LeaseKept (db (store.key idempotencyKey)) record) (other : record.owner ≠ some owner)
    (named : record = .complete → owner ≠ "") (nowMs : Nat) :
    store.heartbeatScript nowMs idempotencyKey owner db = .ok (.int 0) db := by
  have first (db : KeySpace) : argument [store.key idempotencyKey] 1 db =
      .ok (store.key idempotencyKey) db := rfl
  have read : ∃ found, hget (store.key idempotencyKey) "owner" db = .ok found db ∧
      found ≠ some owner := by
    generalize held : db (store.key idempotencyKey) = object at kept
    cases kept with
    | free =>
      have empty : asHash (db (store.key idempotencyKey)) = some [] := by
        rw [held]
        rfl
      exact ⟨none, hget_asHash empty _, by simp⟩
    | pending lease => exact ⟨some lease.owner, hget_ok held _, other⟩
    | complete value expires =>
      exact ⟨some "", hget_ok held _, fun same => named rfl (Option.some.inj same).symm⟩
  obtain ⟨found, read, apart⟩ := read
  unfold heartbeatScript idempotencyHeartbeatLua
  rw [bind_ok (first db), bind_ok read, bind_ok (by rfl), if_neg apart]
  rfl

/-- The Spin host's reply is a list, which is never taken for a renewal. -/
theorem heartbeatOver_ok (executor : RedisExecutor) (renewed : Bool) {after : KeySpace}
    {nowMs : Nat} {owner : String}
    (ran : store.heartbeatScript nowMs idempotencyKey owner db =
      .ok (.int (if renewed then 1 else 0)) after) :
    store.heartbeatOver executor.client db .answered nowMs idempotencyKey owner =
      (.ok (renewed && executor = .wasi), after) := by
  show ((executor.client.execute (store.heartbeatScript nowMs idempotencyKey owner) db).map
    renewedFromReply, afterScript (store.heartbeatScript nowMs idempotencyKey owner) db) = _
  have left : afterScript (store.heartbeatScript nowMs idempotencyKey owner) db = after := by
    rw [afterScript, ran]
  rw [left]
  cases executor with
  | wasi =>
    rw [RedisExecutor.client, wasi_execute, execute_ok ran]
    cases renewed <;> rfl
  | spin =>
    rw [RedisExecutor.client, spin_execute_ok ran]
    cases renewed <;> rfl

/-- A heartbeat of the owner, also of the empty owner of a completed key. -/
theorem heartbeatScript_kept {record : KeyRecord}
    (kept : LeaseKept (db (store.key idempotencyKey)) record) {owner : String}
    (own : record.owner = some owner ∨ record = .complete ∧ owner = "") (nowMs : Nat) :
    ∃ after, store.heartbeatScript nowMs idempotencyKey owner db = .ok (.int 1) after ∧
      (∀ lease, record = .pending lease → LeaseKept (after (store.key idempotencyKey))
        (.pending ⟨owner, expiresAtMs nowMs defaultIdempotencyLease⟩)) ∧
      (record = .complete → LeaseKept (after (store.key idempotencyKey)) .complete ∧
        (after = db ↔ store.Repeats db idempotencyKey nowMs)) := by
  generalize held : db (store.key idempotencyKey) = object at kept
  cases kept with
  | free => rcases own with named | ⟨complete, _⟩ <;> contradiction
  | pending lease =>
    have named : lease.owner = owner := by
      rcases own with named | ⟨complete, _⟩
      · exact Option.some.inj named
      · cases complete
    subst named
    refine ⟨_, heartbeatScript_own held rfl nowMs, ?_, ?_⟩
    · intro other same
      rw [Function.update_self, pendingHash]
      exact .pending ⟨lease.owner, expiresAtMs nowMs defaultIdempotencyLease⟩
    · intro complete
      cases complete
  | complete value expires =>
    have empty : owner = "" := by
      rcases own with named | ⟨_, empty⟩
      · cases named
      · exact empty
    subst empty
    have written : setField (completeHash value expires)
        ("expires_at_ms", Nat.repr (expiresAtMs nowMs defaultIdempotencyLease)) =
          completeHash value (Nat.repr (expiresAtMs nowMs defaultIdempotencyLease)) := by
      simp [setField, completeHash]
    refine ⟨_, heartbeatScript_own held rfl nowMs, ?_, ?_⟩
    · intro lease pending
      cases pending
    · intro _
      rw [written]
      refine ⟨?_, ?_⟩
      · rw [Function.update_self]
        exact .complete value _
      · have stored : (store.hash db idempotencyKey).lookup "expires_at_ms" = some expires := by
          rw [hash, hashOf, held]
          rfl
        rw [Repeats, stored, Function.update_eq_self_iff, held]
        simp [completeHash, eq_comm]

theorem reserveWithLeaseOver_kept {record : KeyRecord}
    (kept : LeaseKept (db (store.key idempotencyKey)) record) (nowMs : Nat)
    (config : IdempotencyLeaseConfig) :
    ∃ granted after,
      store.reserveWithLeaseOver wasiRedisClient db .answered nowMs idempotencyKey config =
        (.ok granted, after) ∧
      LeaseKept (after (store.key idempotencyKey))
        (if granted then .pending (newLease nowMs config) else record) := by
  have script : ∀ {granted : Bool} {after : KeySpace},
      store.reserveScript nowMs idempotencyKey config db =
        .ok (.int (if granted then 1 else 0)) after →
      store.reserveWithLeaseOver wasiRedisClient db .answered nowMs idempotencyKey config =
        (.ok granted, after) := by
    intro granted after ran
    show ((wasiRedisClient.execute (store.reserveScript nowMs idempotencyKey config) db).bind
      reservedFromReply, afterScript (store.reserveScript nowMs idempotencyKey config) db) = _
    rw [wasi_execute, execute_ok ran, afterScript, ran]
    cases granted <;> rfl
  have first (db : KeySpace) : argument [store.key idempotencyKey] 1 db =
      .ok (store.key idempotencyKey) db := rfl
  have clock (db : KeySpace) (lease : IdempotencyLease) :
      argument [lease.owner, Nat.repr lease.expiresAtMs, Nat.repr nowMs] 3 db =
        .ok (Nat.repr nowMs) db := rfl
  have reserved : LeaseKept ((Function.update db (store.key idempotencyKey) (some (.hash
      (pendingHash (newLease nowMs config).owner (Nat.repr (newLease nowMs config).expiresAtMs)))))
        (store.key idempotencyKey)) (.pending (newLease nowMs config)) := by
    rw [Function.update_self]
    exact .pending (newLease nowMs config)
  generalize held : db (store.key idempotencyKey) = object at kept
  cases kept with
  | free =>
    have empty : asHash (db (store.key idempotencyKey)) = some [] := by
      rw [held]
      rfl
    refine ⟨true, _, script ?_, reserved⟩
    unfold reserveScript idempotencyReserveLua
    rw [bind_ok (first db), bind_ok (hget_asHash empty _), if_pos List.lookup_nil,
      bind_ok (first db), bind_ok (by rfl), bind_ok (by rfl), bind_ok (hset_asHash empty _)]
    rfl
  | complete value expires =>
    have state : (completeHash value expires).lookup "state" = some "complete" := rfl
    refine ⟨false, db, script ?_, ?_⟩
    · unfold reserveScript idempotencyReserveLua
      rw [bind_ok (first db), bind_ok (hget_ok held _), state, if_neg (by simp), if_pos rfl]
      rfl
    · rw [held]
      exact .complete value expires
  | pending lease =>
    have state : (pendingHash lease.owner (Nat.repr lease.expiresAtMs)).lookup "state" =
        some "pending" := rfl
    have expiry : ((pendingHash lease.owner (Nat.repr lease.expiresAtMs)).lookup
        "expires_at_ms").getD "0" = Nat.repr lease.expiresAtMs := rfl
    by_cases expired : Binary64.round lease.expiresAtMs ≤ Binary64.round nowMs
    · refine ⟨true, _, script ?_, reserved⟩
      unfold reserveScript idempotencyReserveLua
      rw [bind_ok (first db), bind_ok (hget_ok held _), state, if_neg (by simp),
        if_neg (by decide), bind_ok (first db), bind_ok (hget_ok held _), expiry,
        bind_ok (luaDouble_repr _ db), bind_ok (clock db _), bind_ok (luaDouble_repr nowMs db),
        if_pos expired, bind_ok (first db), bind_ok (by rfl), bind_ok (by rfl),
        bind_ok (hset_ok held _)]
      rfl
    · refine ⟨false, db, script ?_, ?_⟩
      · unfold reserveScript idempotencyReserveLua
        rw [bind_ok (first db), bind_ok (hget_ok held _), state, if_neg (by simp),
          if_neg (by decide), bind_ok (first db), bind_ok (hget_ok held _), expiry,
          bind_ok (luaDouble_repr _ db), bind_ok (clock db _),
          bind_ok (luaDouble_repr nowMs db), if_neg expired]
        rfl
      · rw [held]
        exact .pending lease

theorem saveOver_kept (toJson : V → Except String String) {record : KeyRecord}
    (kept : LeaseKept (db (store.key idempotencyKey)) record) (delivery : Delivery) (value : V) :
    let after := (store.saveOver wasiRedisClient db toJson delivery idempotencyKey value).2
    LeaseKept (after (store.key idempotencyKey)) record ∨
      LeaseKept (after (store.key idempotencyKey)) .complete := by
  dsimp only
  unfold saveOver
  cases toJson value with
  | error error => exact .inl kept
  | ok text =>
    have written : LeaseKept (afterScript (idempotencySaveLua [store.key idempotencyKey] [text])
        db (store.key idempotencyKey)) .complete := by
      have first (db : KeySpace) : argument [store.key idempotencyKey] 1 db =
          .ok (store.key idempotencyKey) db := rfl
      have fields : ∃ held, asHash (db (store.key idempotencyKey)) = some held ∧
          [("state", "complete"), ("value", text), ("owner", ""),
            ("expires_at_ms", "0")].foldl setField held = completeHash text "0" := by
        generalize db (store.key idempotencyKey) = object at kept
        cases kept with
        | free => exact ⟨[], rfl, by simp [setField, completeHash]⟩
        | pending lease => exact ⟨_, rfl, by simp [setField, pendingHash, completeHash]⟩
        | complete value expires => exact ⟨_, rfl, by simp [setField, completeHash]⟩
      obtain ⟨held, read, same⟩ := fields
      unfold afterScript idempotencySaveLua
      rw [bind_ok (first db), bind_ok (by rfl), bind_ok (hset_asHash read _), same]
      show LeaseKept (Function.update db _ _ _) _
      rw [Function.update_self]
      exact .complete text "0"
    cases delivery with
    | answered => exact .inr written
    | lost error => exact .inl kept
    | unanswered error => exact .inr written

theorem removeOver_kept {record : KeyRecord}
    (kept : LeaseKept (db (store.key idempotencyKey)) record) (delivery : Delivery) :
    let after := (store.removeOver wasiRedisClient db delivery idempotencyKey).2
    LeaseKept (after (store.key idempotencyKey)) record ∨
      LeaseKept (after (store.key idempotencyKey)) .free := by
  have removed : LeaseKept (afterScript (delReply (store.key idempotencyKey)) db
      (store.key idempotencyKey)) .free := by
    show LeaseKept (Function.update db _ _ _) _
    rw [Function.update_self]
    exact .free
  cases delivery with
  | answered => exact .inr removed
  | lost error => exact .inl kept
  | unanswered error => exact .inr removed

theorem change_kept (toJson : V → Except String String) {record : KeyRecord}
    (kept : LeaseKept (db (store.key idempotencyKey)) record) (change : RedisKeyChange V) :
    ∃ after, LeaseKept (store.change db idempotencyKey toJson change (store.key idempotencyKey))
        after ∧ (after = record ∨ after.owner = none) := by
  cases change with
  | save delivery value =>
    rcases saveOver_kept toJson kept delivery value with same | complete
    · exact ⟨record, same, .inl rfl⟩
    · exact ⟨.complete, complete, .inr rfl⟩
  | remove delivery =>
    rcases removeOver_kept kept delivery with same | removed
    · exact ⟨record, same, .inl rfl⟩
    · exact ⟨.free, removed, .inr rfl⟩
  | elsewhere other =>
    refine ⟨record, ?_, .inl rfl⟩
    rw [change, Function.update_self]
    exact kept

/-- What a heartbeat does: it is the owner's, or that of nobody on a completed key, or it does
nothing. -/
theorem heartbeatOver_kept {executor : RedisExecutor} {record : KeyRecord}
    (kept : LeaseKept (db (store.key idempotencyKey)) record) (nowMs : Nat) (owner : String) :
    (∃ lease after, record = .pending lease ∧ lease.owner = owner ∧
      store.heartbeatOver executor.client db .answered nowMs idempotencyKey owner =
        (.ok (executor = .wasi), after) ∧
      LeaseKept (after (store.key idempotencyKey))
        (.pending ⟨owner, expiresAtMs nowMs defaultIdempotencyLease⟩)) ∨
    (∃ after, record = .complete ∧ owner = "" ∧
      store.heartbeatOver executor.client db .answered nowMs idempotencyKey owner =
        (.ok (executor = .wasi), after) ∧
      LeaseKept (after (store.key idempotencyKey)) .complete ∧
      (after = db ↔ store.Repeats db idempotencyKey nowMs)) ∨
    (record.owner ≠ some owner ∧ (record = .complete → owner ≠ "") ∧
      store.heartbeatOver executor.client db .answered nowMs idempotencyKey owner =
        (.ok false, db)) := by
  by_cases own : record.owner = some owner ∨ record = .complete ∧ owner = ""
  · obtain ⟨after, ran, pending, complete⟩ := heartbeatScript_kept kept own nowMs
    have answered := heartbeatOver_ok executor true ran
    rw [Bool.true_and] at answered
    rcases own with named | ⟨done, empty⟩
    · obtain ⟨lease, same, named⟩ := KeyRecord.owner_eq_some.mp named
      exact .inl ⟨lease, after, same, named, answered, pending lease same⟩
    · exact .inr (.inl ⟨after, done, empty, answered, complete done⟩)
  · obtain ⟨other, unnamed⟩ := not_or.mp own
    have named : record = .complete → owner ≠ "" := fun done empty => unnamed ⟨done, empty⟩
    have answered := heartbeatOver_ok executor false
      (heartbeatScript_other kept other named nowMs)
    exact .inr (.inr ⟨other, named, answered⟩)

def Kept (store : RedisIdempotencyStore V) (idempotencyKey : String) (db : KeySpace) : Prop :=
  ∃ record, LeaseKept (db (store.key idempotencyKey)) record

theorem leaseStore_lawful (store : RedisIdempotencyStore V) (idempotencyKey : String)
    (executor : RedisExecutor) (toJson : V → Except String String) :
    (store.leaseStore idempotencyKey executor toJson).Lawful (Kept store idempotencyKey) where
  fresh db absent := by
    have kept : LeaseKept (db (store.key idempotencyKey)) .free := by
      rw [show db (store.key idempotencyKey) = none from absent]
      exact .free
    exact ⟨⟨.free, kept⟩, record_of_kept kept⟩
  reserve db nowMs config granted after := by
    rintro ⟨record, kept⟩ reserved
    obtain ⟨answer, left, ran, keptAfter⟩ := reserveWithLeaseOver_kept kept nowMs config
    have unfolded : (decide ((Except.ok answer : Except EventStoreError Bool).toOption = some true),
        left) = (granted, after) := by
      rw [← reserved]
      show _ = (decide ((store.reserveWithLeaseOver wasiRedisClient db .answered nowMs
        idempotencyKey config).1.toOption = some true), (store.reserveWithLeaseOver wasiRedisClient
          db .answered nowMs idempotencyKey config).2)
      rw [ran]
    obtain ⟨same, rfl⟩ := Prod.mk.inj unfolded
    have told : answer = granted := by
      rw [← same]
      cases answer <;> rfl
    subst told
    refine ⟨⟨_, keptAfter⟩, ?_⟩
    show store.record left idempotencyKey = if answer then _ else store.record db idempotencyKey
    rw [record_of_kept keptAfter, record_of_kept kept]
  heartbeat db nowMs owner := by
    rintro ⟨record, kept⟩
    show Kept store idempotencyKey (store.heartbeatOver executor.client db .answered nowMs
        idempotencyKey owner).2 ∧
      (store.record (store.heartbeatOver executor.client db .answered nowMs idempotencyKey owner).2
        idempotencyKey).owner = (store.record db idempotencyKey).owner ∧
      ∀ lease, store.record db idempotencyKey = .pending lease → lease.owner ≠ owner →
        store.heartbeatOver executor.client db .answered nowMs idempotencyKey owner =
          (.ok false, db)
    rw [record_of_kept kept]
    rcases heartbeatOver_kept kept nowMs owner with ⟨lease, after, rfl, named, ran, keptAfter⟩ |
      ⟨after, rfl, _, ran, keptAfter, _⟩ | ⟨_, _, ran⟩
    · rw [ran]
      refine ⟨⟨_, keptAfter⟩, ?_, ?_⟩
      · rw [record_of_kept keptAfter, KeyRecord.owner_pending, KeyRecord.owner_pending, named]
      · intro other pending apart
        cases pending
        exact absurd named apart
    · rw [ran]
      refine ⟨⟨_, keptAfter⟩, ?_, ?_⟩
      · rw [record_of_kept keptAfter]
      · intro lease pending
        cases pending
    · rw [ran]
      refine ⟨⟨record, kept⟩, ?_, fun _ _ _ => rfl⟩
      rw [record_of_kept kept]
  change db change := by
    rintro ⟨record, kept⟩
    obtain ⟨after, keptAfter, left⟩ := change_kept toJson kept change
    refine ⟨⟨after, keptAfter⟩, ?_⟩
    show store.record (store.change db idempotencyKey toJson change) idempotencyKey =
        store.record db idempotencyKey ∨
      (store.record (store.change db idempotencyKey toJson change) idempotencyKey).owner = none
    rw [record_of_kept keptAfter, record_of_kept kept]
    exact left

/-- The script compares owners without looking at the state, and the Spin host's reply is
never taken for a renewal. -/
theorem actsOnOwn_iff {db : KeySpace} (executor : RedisExecutor)
    (toJson : V → Except String String) (kept : Kept store idempotencyKey db) (nowMs : Nat)
    (owner : String) :
    (store.leaseStore idempotencyKey executor toJson).ActsOnOwn db nowMs owner ↔
      (store.leaseStore idempotencyKey executor toJson).Lengthens db nowMs owner ∧
      (store.record db idempotencyKey = .complete → owner = "" →
        executor = .spin ∧ store.Repeats db idempotencyKey nowMs) ∧
      (executor = .spin →
        ¬ (store.leaseStore idempotencyKey executor toJson).PendingUnder db owner) := by
  obtain ⟨record, kept⟩ := kept
  have recorded := record_of_kept kept
  have answer : ∀ result : Except EventStoreError Bool × KeySpace,
      store.heartbeatOver executor.client db .answered nowMs idempotencyKey owner = result →
      (store.leaseStore idempotencyKey executor toJson).heartbeat nowMs owner db = result :=
    fun _ ran => ran
  rcases heartbeatOver_kept kept nowMs owner with ⟨lease, after, rfl, rfl, ran, keptAfter⟩ |
      ⟨after, rfl, rfl, ran, _, repeats⟩ | ⟨other, named, ran⟩
  · have under : (store.leaseStore idempotencyKey executor toJson).PendingUnder db lease.owner :=
      ⟨lease, recorded, rfl⟩
    constructor
    · rintro ⟨own, _⟩
      obtain ⟨left, expiry, answered, renewed, extended⟩ := own lease recorded rfl
      rw [answer _ ran] at answered
      obtain ⟨told, rfl⟩ := Prod.mk.inj answered
      have raw : executor = .wasi := by simpa using told
      refine ⟨?_, ?_, ?_⟩
      · intro found pending _
        cases recorded.symm.trans pending
        have same : KeyRecord.pending ⟨lease.owner, expiry⟩ =
            .pending ⟨lease.owner, expiresAtMs nowMs defaultIdempotencyLease⟩ :=
          (show store.record after idempotencyKey = _ from renewed).symm.trans
            (record_of_kept keptAfter)
        rw [KeyRecord.pending.injEq, IdempotencyLease.mk.injEq] at same
        rw [← same.2]
        exact extended
      · intro complete
        cases recorded.symm.trans complete
      · intro spin
        rw [raw] at spin
        cases spin
    · rintro ⟨lengthens, _, host⟩
      have raw : executor = .wasi := by
        cases executor with
        | wasi => rfl
        | spin => exact absurd under (host rfl)
      refine ⟨?_, fun other => absurd under other⟩
      intro found pending _
      cases recorded.symm.trans pending
      refine ⟨after, _, (answer _ ran).trans (by simp [raw]), record_of_kept keptAfter, ?_⟩
      exact lengthens lease recorded rfl
  · have free : ¬ (store.leaseStore idempotencyKey executor toJson).PendingUnder db "" := by
      rintro ⟨lease, pending, _⟩
      cases recorded.symm.trans pending
    constructor
    · rintro ⟨_, others⟩
      obtain ⟨told, same⟩ := Prod.mk.inj ((answer _ ran).symm.trans (others free))
      refine ⟨?_, ?_, fun _ => free⟩
      · intro lease pending
        cases recorded.symm.trans pending
      · intro _ _
        refine ⟨?_, repeats.mp same⟩
        cases executor with
        | wasi => cases told
        | spin => rfl
    · rintro ⟨_, unnamed, _⟩
      obtain ⟨spin, again⟩ := unnamed recorded rfl
      refine ⟨?_, ?_⟩
      · intro lease pending
        cases recorded.symm.trans pending
      · intro _
        rw [answer _ ran, repeats.mpr again, spin]
        rfl
  · have free : ¬ (store.leaseStore idempotencyKey executor toJson).PendingUnder db owner := by
      rintro ⟨lease, pending, own⟩
      rw [← recorded, show store.record db idempotencyKey = _ from pending] at other
      exact other (congrArg some own)
    refine iff_of_true ⟨?_, fun _ => answer _ ran⟩ ⟨?_, ?_, fun _ => free⟩
    · intro lease pending own
      exact absurd ⟨lease, pending, own⟩ free
    · intro lease pending own
      exact absurd ⟨lease, pending, own⟩ free
    · intro complete empty
      exact absurd empty (named (recorded.symm.trans complete))

end RedisIdempotencyStore

/-- The own pending lease is renewed through an executor that hands integers on, and to no earlier
expiry. On a completed key the owner has a name, or the heartbeat repeats what is stored and its
answer is no integer. -/
def RedisIdempotencyStore.RenewsOwnOnly (store : RedisIdempotencyStore V) (key : String)
    (executor : RedisExecutor) (db : KeySpace) (nowMs : Nat) (owner : String) : Prop :=
  (∀ lease, store.record db key = .pending lease → lease.owner = owner →
    executor = .wasi ∧ lease.expiresAtMs ≤ expiresAtMs nowMs defaultIdempotencyLease) ∧
  (store.record db key = .complete → owner = "" → executor = .spin ∧ store.Repeats db key nowMs)

/-- A heartbeat acts on the caller's own pending reservation exactly when it lengthens that,
its Redis executor hands integers on, and no completed key is beaten in nobody's name. In runs
whose callers take owners of their own, no caller renews another's lease. -/
theorem leaseHeartbeats_exact {V Caller : Type} (key : String) (redis : RedisIdempotencyStore V)
    (toJson : V → Except String String) :
    (∀ s, ((InMemoryIdempotencyStore.leaseStore (V := V) key).leases Caller).Reachable s →
      ∀ nowMs owner, (InMemoryIdempotencyStore.leaseStore key).ActsOnOwn s.world nowMs owner ↔
        ∀ lease, s.world.record key = .pending lease → lease.owner = owner →
          lease.expiresAtMs ≤ expiresAtMs nowMs defaultIdempotencyLease) ∧
    (∀ executor s, ((redis.leaseStore key executor toJson).leases Caller).Reachable s →
      ∀ nowMs owner, (redis.leaseStore key executor toJson).ActsOnOwn s.world nowMs owner ↔
        redis.RenewsOwnOnly key executor s.world nowMs owner) ∧
    (∀ s, (((InMemoryIdempotencyStore.leaseStore (V := V) key).leases Caller).restrict
        LeaseStore.TakesOwnName).Reachable s →
      LeaseStore.OwnersDiffer s.granted ∧
        (InMemoryIdempotencyStore.leaseStore key).OwnLeaseOnly s) ∧
    ∀ executor s, (((redis.leaseStore key executor toJson).leases Caller).restrict
        LeaseStore.TakesOwnName).Reachable s →
      LeaseStore.OwnersDiffer s.granted ∧ (redis.leaseStore key executor toJson).OwnLeaseOnly s := by
  have separate : ∀ {σ Change : Type} {store : LeaseStore σ Change} {Kept : σ → Prop},
      store.Lawful Kept → ∀ s : LeaseState σ Caller,
      ((store.leases Caller).restrict LeaseStore.TakesOwnName).Reachable s →
      LeaseStore.OwnersDiffer s.granted ∧ store.OwnLeaseOnly s := by
    intro σ Change store Kept lawful s reached
    have differ := LeaseStore.Lawful.ownersDiffer_of_reachable reached
    obtain ⟨kept, held⟩ := lawful.held_of_reachable reached.unrestricted
    exact ⟨differ, lawful.ownLeaseOnly kept held differ⟩
  refine ⟨?_, ?_, ?_, ?_⟩
  · intro s _ nowMs owner
    exact InMemoryIdempotencyStore.actsOnOwn_iff s.world nowMs owner
  · intro executor s reached nowMs owner
    obtain ⟨kept, _⟩ := (redis.leaseStore_lawful key executor toJson).held_of_reachable reached
    rw [RedisIdempotencyStore.actsOnOwn_iff executor toJson kept]
    constructor
    · rintro ⟨lengthens, unnamed, host⟩
      refine ⟨?_, unnamed⟩
      intro lease pending own
      refine ⟨?_, lengthens lease pending own⟩
      cases executor with
      | wasi => rfl
      | spin => exact absurd ⟨lease, pending, own⟩ (host rfl)
    · rintro ⟨own, unnamed⟩
      refine ⟨fun lease pending named => (own lease pending named).2, unnamed, ?_⟩
      rintro spin ⟨lease, pending, named⟩
      exact absurd (spin.symm.trans (own lease pending named).1) (by decide)
  · exact separate InMemoryIdempotencyStore.leaseStore_lawful
  · exact fun executor => separate (redis.leaseStore_lawful key executor toJson)

/-- A Redis store of texts whose JSON is the text. -/
def textKeys : RedisIdempotencyStore String := ⟨defaultRedisPrefix, .ok⟩

def completedKey : LeaseState KeySpace Bool :=
  ((textKeys.leaseStore "k" .wasi .ok).step ⟨fun _ => none, []⟩
    (.change (.save .answered "done")))

theorem completedKey_reachable :
    ((textKeys.leaseStore "k" .wasi .ok).leases Bool).Reachable completedKey := by
  have begun : ((textKeys.leaseStore "k" .wasi .ok).leases Bool).Reachable ⟨fun _ => none, []⟩ :=
    .start ⟨rfl, rfl⟩
  exact begun.step rfl

theorem completedKey_record : textKeys.record completedKey.world "k" = .complete := by
  decide +kernel

/-- A key that a caller reserves and releases, and that another caller reserves then. -/
def reservedAgain (nowMs : Nat) : LeaseState (InMemoryIdempotencyStore String) Bool :=
  let store := InMemoryIdempotencyStore.leaseStore "k"
  let mine := store.step ⟨.new, []⟩ (.reserve ⟨true, .default, 5⟩)
  store.step (store.step mine (.change .remove)) (.reserve ⟨false, .default, nowMs⟩)

theorem reservedAgain_reachable (nowMs : Nat) :
    ((InMemoryIdempotencyStore.leaseStore "k").leases Bool).Reachable (reservedAgain nowMs) := by
  have begun : ((InMemoryIdempotencyStore.leaseStore (V := String) "k").leases Bool).Reachable
      ⟨.new, []⟩ := .start ⟨rfl, rfl⟩
  have mine := begun.step (a := .reserve ⟨true, .default, 5⟩) rfl
  have released := mine.step (a := .change .remove) rfl
  exact released.step (a := .reserve ⟨false, .default, nowMs⟩) rfl

/-- A heartbeat in nobody's name writes to a completed key and is answered with true. Two
callers that reserve a key in one millisecond renew each other's lease. -/
theorem foreignHeartbeats_renew :
    (∃ s, ((textKeys.leaseStore "k" .wasi .ok).leases Bool).Reachable s ∧
      textKeys.record s.world "k" = .complete ∧
      (textKeys.heartbeatOver wasiRedisClient s.world .answered 5 "k" "").1 = .ok true ∧
      (textKeys.heartbeatOver wasiRedisClient s.world .answered 5 "k" "").2 ≠ s.world ∧
      ¬ (textKeys.leaseStore "k" .wasi .ok).ActsOnOwn s.world 5 "") ∧
    ∃ s, ((InMemoryIdempotencyStore.leaseStore (V := String) "k").leases Bool).Reachable s ∧
      s.granted.map (fun reservation => (reservation.caller, reservation.owner)) =
        [(true, "owner-5"), (false, "owner-5")] ∧
      (s.world.heartbeat 7 "k" "owner-5").1 = true := by
  refine ⟨⟨completedKey, completedKey_reachable, completedKey_record, by decide +kernel, ?_, ?_⟩,
    reservedAgain 5, reservedAgain_reachable 5, by decide +kernel, by decide +kernel⟩
  · intro same
    have expiry := congrArg (fun db => (textKeys.hash db "k").lookup "expires_at_ms") same
    exact absurd expiry (by decide +kernel)
  · rintro ⟨_, others⟩
    have free : ¬ (textKeys.leaseStore "k" .wasi .ok).PendingUnder completedKey.world "" := by
      rintro ⟨lease, pending, _⟩
      cases completedKey_record.symm.trans pending
    have answered := congrArg Prod.fst (others free)
    exact absurd answered (by decide +kernel)

/-- In another millisecond each reservation has an owner of its own. -/
theorem reservedAgain_takesOwnName :
    (((InMemoryIdempotencyStore.leaseStore "k").leases Bool).restrict
      LeaseStore.TakesOwnName).Reachable (reservedAgain 6) := by
  have begun : (((InMemoryIdempotencyStore.leaseStore (V := String) "k").leases Bool).restrict
      LeaseStore.TakesOwnName).Reachable ⟨.new, []⟩ := .start ⟨rfl, rfl⟩
  have none : LeaseStore.TakesOwnName ⟨InMemoryIdempotencyStore.new (V := String), []⟩
      (.reserve ⟨true, .default, 5⟩ : LeaseAction (InMemoryChange String) Bool) :=
    fun _ earlier => absurd earlier List.not_mem_nil
  have mine := begun.step ((Machine.restrict_step_iff _ _ _ _).mpr ⟨none, rfl⟩)
  have releases : ∀ s : LeaseState (InMemoryIdempotencyStore String) Bool,
      LeaseStore.TakesOwnName s (.change .remove : LeaseAction (InMemoryChange String) Bool) :=
    fun _ => trivial
  have released := mine.step ((Machine.restrict_step_iff _ _ _ _).mpr ⟨releases _, rfl⟩)
  refine released.step (a := .reserve ⟨false, .default, 6⟩)
    ((Machine.restrict_step_iff _ _ _ _).mpr ⟨?_, rfl⟩)
  intro earlier member _ same
  cases member with
  | head => exact absurd (show 5 = 6 from same) (by decide)
  | tail _ later => cases later

/-- A heartbeat with an owner's name leaves a completed key alone. Of two callers who reserved a
key one after the other, the second one renews the lease and the first one does not. -/
theorem leaseHeartbeats_exact_reservedAgain :
    (textKeys.leaseStore "k" .wasi .ok).ActsOnOwn completedKey.world 5 "owner-5" ∧
      (InMemoryIdempotencyStore.leaseStore "k").ActsOnOwn (reservedAgain 6).world 7 "owner-6" ∧
      (reservedAgain 6).granted.map Reservation.caller = [true, false] ∧
      LeaseStore.OwnersDiffer (reservedAgain 6).granted ∧
      (InMemoryIdempotencyStore.leaseStore "k").OwnLeaseOnly (reservedAgain 6) := by
  obtain ⟨memory, redis, own, _⟩ := @leaseHeartbeats_exact String Bool "k" textKeys .ok
  refine ⟨(redis .wasi completedKey completedKey_reachable 5 "owner-5").mpr ⟨?_, ?_⟩,
    (memory (reservedAgain 6) (reservedAgain_reachable 6) 7 "owner-6").mpr ?_, by decide +kernel,
    own (reservedAgain 6) reservedAgain_takesOwnName⟩
  · intro lease pending
    cases completedKey_record.symm.trans pending
  · intro _ unnamed
    exact absurd unnamed (by decide)
  · intro lease pending _
    have held : (InMemoryIdempotencyStore.leaseStore "k").record (reservedAgain 6).world =
        .pending (newLease 6 .default) := by decide +kernel
    cases held.symm.trans pending
    decide

end DddCqrsEs
