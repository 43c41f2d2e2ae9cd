import DddCqrsEs.DecimalTexts
import DddCqrsEs.ReplyShape

/- Histories of saves of one aggregate's snapshots over the raw client. The script refuses an
older snapshot with the number it has compared, and the store expects a text there. -/
namespace DddCqrsEs

open RedisServer Transition

/-- What a save writes. -/
def snapshotHash (revision : Nat) (state metadata recordedAt aggregateType : String) : RedisHash :=
  [("revision", Nat.repr revision), ("state", state), ("metadata", metadata),
    ("recorded_at_ms", recordedAt), ("aggregate_type", aggregateType)]

/-- A hash as its `HGETALL` is answered. -/
def hashReply (fields : RedisHash) : RedisValue :=
  .array (fields.flatMap (fun field => [.bytes field.1, .bytes field.2]))

/-- What the key of an aggregate's snapshot holds after saves, and the revision in it. -/
inductive SnapshotKept : Option Object → Option Nat → Prop
  | absent : SnapshotKept none none
  | saved (revision : Nat) (state metadata recordedAt aggregateType : String) :
      SnapshotKept
        (some (.hash (snapshotHash revision state metadata recordedAt aggregateType)))
        (some revision)

theorem decimal_repr (number : Nat) : decimal (Nat.repr number) = some number := by
  have digits : (Nat.repr number).toList = Nat.toDigits 10 number := String.toList_ofList
  show Decimal.unsigned (Nat.repr number).toList = some number
  rw [digits, Decimal.unsigned_toDigits]

/-- Written over what was written before, the fields are the new ones. -/
theorem foldl_setField_snapshot (revision earlier : Nat)
    (state metadata recordedAt aggregateType state' metadata' recordedAt' aggregateType' : String) :
    (snapshotHash revision state metadata recordedAt aggregateType).foldl setField
        (snapshotHash earlier state' metadata' recordedAt' aggregateType') =
      snapshotHash revision state metadata recordedAt aggregateType := by
  simp [snapshotHash, setField]

namespace SnapshotKept

variable {key : String} {db : KeySpace} {stored : Option Nat}

theorem fields (kept : SnapshotKept (db key) stored) :
    ∃ held, asHash (db key) = some held ∧
      decimal ((held.lookup "revision").getD "0") = some (stored.getD 0) ∧
      ∀ revision state metadata recordedAt aggregateType,
        (snapshotHash revision state metadata recordedAt aggregateType).foldl setField held =
          snapshotHash revision state metadata recordedAt aggregateType := by
  generalize db key = object at kept
  cases kept with
  | absent =>
    refine ⟨[], rfl, by decide, ?_⟩
    intro revision state metadata recordedAt aggregateType
    simp [snapshotHash, setField]
  | saved earlier state metadata recordedAt aggregateType =>
    refine ⟨snapshotHash earlier state metadata recordedAt aggregateType, rfl,
      decimal_repr earlier, ?_⟩
    intro revision state metadata recordedAt aggregateType
    exact foldl_setField_snapshot _ _ _ _ _ _ _ _ _ _

/-- The script compares doubles, and refuses with the stored one. -/
theorem snapshotSaveLua (kept : SnapshotKept (db key) stored) (revision : Nat)
    (state metadata recordedAt aggregateType : String) :
    DddCqrsEs.snapshotSaveLua [key]
        [Nat.repr revision, state, metadata, recordedAt, aggregateType] db =
      if Binary64.round revision < Binary64.round (stored.getD 0) then
        .ok (.array [.bytes "ERR", .bytes "stale_revision",
          .int (Binary64.round (stored.getD 0))]) db
      else
        .ok (.bytes "OK") (Function.update db key
          (some (.hash (snapshotHash revision state metadata recordedAt aggregateType)))) := by
  have first (db : KeySpace) : argument [key] 1 db = .ok key db := rfl
  have offered (db : KeySpace) :
      argument [Nat.repr revision, state, metadata, recordedAt, aggregateType] 1 db =
        .ok (Nat.repr revision) db := rfl
  obtain ⟨held, read, current, written⟩ := kept.fields
  unfold DddCqrsEs.snapshotSaveLua
  rw [bind_ok (first db), bind_ok (hget_asHash read _), bind_ok (luaDouble_some current db),
    bind_ok (offered db), bind_ok (luaDouble_repr revision db)]
  by_cases stale : Binary64.round revision < Binary64.round (stored.getD 0)
  · rw [if_pos stale, if_pos ⟨by omega, stale⟩]
    rfl
  · rw [if_neg stale, if_neg (fun both => stale both.2), bind_ok (first db),
      bind_ok (offered db), bind_ok (by rfl), bind_ok (by rfl), bind_ok (by rfl),
      bind_ok (by rfl), bind_ok (hset_asHash read _)]
    have same := written revision state metadata recordedAt aggregateType
    rw [snapshotHash] at same
    rw [same]
    rfl

end SnapshotKept

namespace RedisSnapshotStore

variable {A : Aggregate} (store : RedisSnapshotStore A)

/-- The texts that are written of a snapshot. -/
structure Encodes (snapshot : Snapshot A) (aggregateId state metadata : String) (millis : Nat) :
    Prop where
  aggregateId : store.codec.serializeId snapshot.aggregateId = .ok aggregateId
  state : store.json.stateToString snapshot.state = .ok state
  metadata : store.json.metadataToString snapshot.metadata = .ok metadata
  millis : systemTimeToMillis snapshot.recordedAt = .ok millis

/-- A snapshot of which everything is read back from what is written of it. -/
def Legible (snapshot : Snapshot A) : Prop :=
  ∃ aggregateId state metadata millis,
    store.Encodes snapshot aggregateId state metadata millis ∧
      store.reader.deserializeId aggregateId = .ok snapshot.aggregateId ∧
      store.json.stateFromStr state = .ok snapshot.state ∧
      store.json.metadataFromStr metadata = .ok snapshot.metadata ∧
      RowReader.millisToSystemTime millis = snapshot.recordedAt

def snapshotKey (aggregateId : String) : String :=
  store.keyPrefix.snapshotKey A.aggregateType aggregateId

/-- The revision in what the key holds. -/
def storedRevision (db : KeySpace) (aggregateId : A.Id) : Option Nat :=
  match store.codec.serializeId aggregateId with
  | .error _ => none
  | .ok text => ((hashOf db (store.snapshotKey text)).lookup "revision").bind decimal

/-- No later snapshot is stored. -/
def Current (db : KeySpace) (snapshot : Snapshot A) : Prop :=
  ∀ current, store.storedRevision db snapshot.aggregateId = some current →
    current ≤ snapshot.revision

/-- A save that is refused as stale and changes nothing if a later snapshot is stored, and
else succeeds and is then loaded. -/
def SavesLatest (db : KeySpace) (snapshot : Snapshot A) : Prop :=
  (∀ current, store.storedRevision db snapshot.aggregateId = some current →
    snapshot.revision < current →
    store.saveSnapshotOver wasiRedisClient db .answered snapshot =
      (.error (.concurrency (.staleSnapshotRevision snapshot.revision current)), db)) ∧
  (store.Current db snapshot →
    (store.saveSnapshotOver wasiRedisClient db .answered snapshot).1 = .ok () ∧
    store.loadSnapshotOver wasiRedisClient
        (store.saveSnapshotOver wasiRedisClient db .answered snapshot).2 snapshot.aggregateId =
      .ok (some snapshot))

/-- Saves of snapshots of one aggregate, from the first one on. -/
def snapshotSaves [DecidableEq A.Id] (aggregateId : A.Id) : Machine KeySpace (Snapshot A) where
  start db := ∀ text, store.codec.serializeId aggregateId = .ok text →
    db (store.snapshotKey text) = none
  step db snapshot :=
    if snapshot.aggregateId = aggregateId ∧ snapshot.revision < 2 ^ 64 then
      some (store.saveSnapshotOver wasiRedisClient db .answered snapshot).2
    else none

variable {store} {snapshot : Snapshot A} {state metadata text : String} {millis : Nat}
  {db : KeySpace} {stored : Option Nat} {aggregateId : A.Id} {error : EventStoreError}

theorem Encodes.saveArguments {aggregateId : String}
    (encodes : store.Encodes snapshot aggregateId state metadata millis) :
    store.saveArguments snapshot = .ok (store.snapshotKey aggregateId,
      [Nat.repr snapshot.revision, state, metadata, Nat.repr millis, snapshot.aggregateType]) := by
  rw [RedisSnapshotStore.saveArguments, bind_of_ok encodes.aggregateId, encodes.state,
    encodes.metadata, encodes.millis]
  rfl

theorem encodes_of_saveArguments {command : String × List String}
    (encoded : store.saveArguments snapshot = .ok command) :
    ∃ aggregateId state metadata millis,
      store.Encodes snapshot aggregateId state metadata millis := by
  obtain ⟨aggregateId, named, encoded⟩ := ok_of_bind encoded
  obtain ⟨state, stateWritten, encoded⟩ := ok_of_bind encoded
  obtain ⟨metadata, metadataWritten, encoded⟩ := ok_of_bind encoded
  obtain ⟨millis, timed, _⟩ := ok_of_bind encoded
  exact ⟨aggregateId, state, metadata, millis, named, ok_of_mapError stateWritten,
    ok_of_mapError metadataWritten, timed⟩

theorem saveSnapshotOver_kept {aggregateId : String}
    (encodes : store.Encodes snapshot aggregateId state metadata millis)
    (kept : SnapshotKept (db (store.snapshotKey aggregateId)) stored) :
    store.saveSnapshotOver wasiRedisClient db .answered snapshot =
      if Binary64.round snapshot.revision < Binary64.round (stored.getD 0) then
        (.error (unexpectedReply (.array [.bytes "ERR", .bytes "stale_revision",
          .int (Binary64.round (stored.getD 0))])), db)
      else (.ok (), Function.update db (store.snapshotKey aggregateId)
        (some (.hash (snapshotHash snapshot.revision state metadata (Nat.repr millis)
          snapshot.aggregateType)))) := by
  have ran := kept.snapshotSaveLua snapshot.revision state metadata (Nat.repr millis)
    snapshot.aggregateType
  rw [saveSnapshotOver, encodes.saveArguments]
  show ((wasiRedisClient.execute (snapshotSaveLua _ _) db).bind (savedFromReply snapshot.revision),
    afterScript (snapshotSaveLua _ _) db) = _
  rw [wasi_execute]
  by_cases stale : Binary64.round snapshot.revision < Binary64.round (stored.getD 0)
  · rw [if_pos stale] at ran
    rw [if_pos stale, execute_ok ran, afterScript, ran]
    rfl
  · rw [if_neg stale] at ran
    rw [if_neg stale, execute_ok ran, afterScript, ran]
    rfl

/-- What is read of the fields of a save. -/
theorem snapshotFromReply_saved {revision : Nat} {aggregateType : String} (fits : revision < 2 ^ 64)
    (small : millis ≤ i64Max) :
    store.snapshotFromReply text
        (hashReply (snapshotHash revision state metadata (Nat.repr millis) aggregateType)) =
      .ok snapshot ↔
      store.json.stateFromStr state = .ok snapshot.state ∧
      store.json.metadataFromStr metadata = .ok snapshot.metadata ∧
      store.reader.deserializeId text = .ok snapshot.aggregateId ∧
      aggregateType = snapshot.aggregateType ∧ revision = snapshot.revision ∧
      RowReader.millisToSystemTime millis = snapshot.recordedAt := by
  generalize held : hashReply (snapshotHash revision state metadata (Nat.repr millis)
    aggregateType) = reply
  have revisionField : required reply "revision" = .ok (Nat.repr revision) := by
    rw [← held]
    rfl
  have stateField : required reply "state" = .ok state := by
    rw [← held]
    rfl
  have metadataField : required reply "metadata" = .ok metadata := by
    rw [← held]
    rfl
  have millisField : required reply "recorded_at_ms" = .ok (Nat.repr millis) := by
    rw [← held]
    rfl
  have typeField : fieldFromHash reply "aggregate_type" = some aggregateType := by
    rw [← held]
    rfl
  have revisionRead : (parseU64 (Nat.repr revision)).mapError
      (fun error => EventStoreError.deserialization ("redis snapshot revision: " ++ error) none) =
      .ok revision := by
    rw [parseU64_repr fits]
    rfl
  have millisRead : (parseSigned (Nat.repr millis)).mapError (fun error =>
      EventStoreError.deserialization ("redis snapshot recorded_at_ms: " ++ error) none) =
      .ok (millis : Int) := by
    rw [parseSigned_repr small]
    rfl
  have timed : millisToSystemTime (millis : Int) =
      .ok (RowReader.millisToSystemTime millis) := by
    rw [millisToSystemTime, if_neg (by omega), Int.toNat_natCast]
  rw [snapshotFromReply, bind_of_ok revisionField, bind_of_ok revisionRead,
    bind_of_ok stateField, bind_of_ok metadataField, bind_of_ok millisField,
    bind_of_ok millisRead, typeField]
  constructor
  · intro ran
    obtain ⟨readState, stateRead, ran⟩ := bind_ok_iff.mp ran
    obtain ⟨readMetadata, metadataRead, ran⟩ := bind_ok_iff.mp ran
    obtain ⟨recordedAt, timeRead, ran⟩ := bind_ok_iff.mp ran
    obtain ⟨readId, idRead, ran⟩ := bind_ok_iff.mp ran
    rw [timed] at timeRead
    cases timeRead
    cases ran
    exact ⟨ok_of_mapError stateRead, ok_of_mapError metadataRead, idRead, rfl, rfl, rfl⟩
  · rintro ⟨stateRead, metadataRead, idRead, sameType, sameRevision, sameTime⟩
    refine bind_ok_iff.mpr ⟨_, congrArg (Except.mapError _) stateRead, ?_⟩
    refine bind_ok_iff.mpr ⟨_, congrArg (Except.mapError _) metadataRead, ?_⟩
    rw [bind_of_ok timed, bind_of_ok idRead, sameTime, sameType, sameRevision]
    rfl

/-- What is loaded of a save. -/
theorem loadSnapshotOver_saved (named : store.codec.serializeId aggregateId = .ok text)
    {revision : Nat} {aggregateType : String} (held : db (store.snapshotKey text) =
      some (.hash (snapshotHash revision state metadata (Nat.repr millis) aggregateType)))
    (fits : revision < 2 ^ 64) (small : millis ≤ i64Max) :
    store.loadSnapshotOver wasiRedisClient db aggregateId = .ok (some snapshot) ↔
      store.json.stateFromStr state = .ok snapshot.state ∧
      store.json.metadataFromStr metadata = .ok snapshot.metadata ∧
      store.reader.deserializeId text = .ok snapshot.aggregateId ∧
      aggregateType = snapshot.aggregateType ∧ revision = snapshot.revision ∧
      RowReader.millisToSystemTime millis = snapshot.recordedAt := by
  have ran : hgetallReply (store.snapshotKey text) db =
      .ok (hashReply (snapshotHash revision state metadata (Nat.repr millis) aggregateType)) db := by
    rw [hgetallReply, bind_ok (hgetall_hash held)]
    rfl
  have executed := execute_ok ran
  rw [snapshotKey] at executed
  rw [← snapshotFromReply_saved fits small, loadSnapshotOver, bind_of_ok named, wasi_execute,
    bind_of_ok executed]
  constructor
  · intro loaded
    obtain ⟨read, ran, same⟩ := bind_ok_iff.mp loaded
    cases same
    exact ran
  · intro read
    exact bind_ok_iff.mpr ⟨snapshot, read, rfl⟩

theorem storedRevision_kept (named : store.codec.serializeId aggregateId = .ok text)
    (kept : SnapshotKept (db (store.snapshotKey text)) stored) :
    store.storedRevision db aggregateId = stored := by
  rw [storedRevision, named]
  dsimp only
  generalize held : db (store.snapshotKey text) = object at kept
  cases kept with
  | absent =>
    rw [hashOf, held]
    rfl
  | saved revision state metadata recordedAt aggregateType =>
    rw [hashOf_hash held]
    exact decimal_repr revision

/-- The key of the aggregate holds what saves leave. -/
def KeptAt (store : RedisSnapshotStore A) (aggregateId : A.Id) (db : KeySpace) : Prop :=
  ∀ text, store.codec.serializeId aggregateId = .ok text →
    ∃ stored, SnapshotKept (db (store.snapshotKey text)) stored

theorem saveSnapshotOver_error (failed : store.saveArguments snapshot = .error error)
    (db : KeySpace) :
    store.saveSnapshotOver wasiRedisClient db .answered snapshot = (.error error, db) := by
  rw [saveSnapshotOver, failed]

theorem KeptAt.save (held : KeptAt store aggregateId db)
    (own : snapshot.aggregateId = aggregateId) :
    KeptAt store aggregateId (store.saveSnapshotOver wasiRedisClient db .answered snapshot).2 := by
  cases encoded : store.saveArguments snapshot with
  | error error =>
    rw [saveSnapshotOver_error encoded]
    exact held
  | ok command =>
    obtain ⟨named, state, metadata, millis, encodes⟩ := encodes_of_saveArguments encoded
    intro text serialized
    have same : named = text := by
      have both := encodes.aggregateId
      rw [own, serialized] at both
      exact (Except.ok.inj both).symm
    subst same
    obtain ⟨stored, kept⟩ := held named serialized
    rw [saveSnapshotOver_kept encodes kept]
    split
    · exact ⟨stored, kept⟩
    · refine ⟨some snapshot.revision, ?_⟩
      dsimp only
      rw [Function.update_self]
      exact .saved _ _ _ _ _

theorem keptAt_of_reachable [DecidableEq A.Id]
    (reached : (store.snapshotSaves aggregateId).Reachable db) : KeptAt store aggregateId db := by
  refine Machine.invariant (I := KeptAt store aggregateId) ?_ ?_ reached
  · intro first fresh text serialized
    refine ⟨none, ?_⟩
    rw [fresh text serialized]
    exact .absent
  · intro before snapshot after _ held stepped
    simp only [snapshotSaves] at stepped
    split at stepped
    · rename_i own
      cases stepped
      exact held.save own.1
    · cases stepped

/-- What cannot be written is reported as such. -/
theorem saveArguments_error (named : store.codec.serializeId snapshot.aggregateId = .ok text)
    (failed : store.saveArguments snapshot = .error error) :
    ∃ message, error = .serialization message none := by
  rw [saveArguments, bind_of_ok named] at failed
  cases stateWritten : store.json.stateToString snapshot.state with
  | error message =>
    rw [stateWritten] at failed
    cases failed
    exact ⟨_, rfl⟩
  | ok state =>
    cases metadataWritten : store.json.metadataToString snapshot.metadata with
    | error message =>
      rw [stateWritten, metadataWritten] at failed
      cases failed
      exact ⟨_, rfl⟩
    | ok metadata =>
      rw [stateWritten, metadataWritten] at failed
      cases timed : systemTimeToMillis snapshot.recordedAt with
      | ok millis =>
        rw [timed] at failed
        cases failed
      | error late =>
        rw [timed] at failed
        cases failed
        rw [systemTimeToMillis] at timed
        split at timed
        · cases timed
          exact ⟨_, rfl⟩
        · dsimp only at timed
          split at timed
          · cases timed
          · cases timed
            exact ⟨_, rfl⟩

/-- A save under a later snapshot is never refused as stale. -/
theorem not_refused (held : KeptAt store snapshot.aggregateId db) {current : Nat}
    (later : store.storedRevision db snapshot.aggregateId = some current) (offered : Nat) :
    (store.saveSnapshotOver wasiRedisClient db .answered snapshot).1 ≠
      .error (.concurrency (.staleSnapshotRevision offered current)) := by
  cases named : store.codec.serializeId snapshot.aggregateId with
  | error error =>
    rw [storedRevision, named] at later
    cases later
  | ok text =>
    cases encoded : store.saveArguments snapshot with
    | error error =>
      obtain ⟨message, rfl⟩ := saveArguments_error named encoded
      rw [saveSnapshotOver_error encoded]
      exact fun same => by cases same
    | ok command =>
      obtain ⟨own, state, metadata, millis, encodes⟩ := encodes_of_saveArguments encoded
      obtain ⟨stored, kept⟩ := held own encodes.aggregateId
      rw [saveSnapshotOver_kept encodes kept]
      split
      · exact fun same => by cases same
      · exact fun same => by cases same

/-- A save of the latest snapshot yet is stored. -/
theorem saveSnapshotOver_current {aggregateId : String}
    (encodes : store.Encodes snapshot aggregateId state metadata millis)
    (held : KeptAt store snapshot.aggregateId db) (current : store.Current db snapshot) :
    store.saveSnapshotOver wasiRedisClient db .answered snapshot =
      (.ok (), Function.update db (store.snapshotKey aggregateId)
        (some (.hash (snapshotHash snapshot.revision state metadata (Nat.repr millis)
          snapshot.aggregateType)))) := by
  obtain ⟨stored, kept⟩ := held aggregateId encodes.aggregateId
  rw [saveSnapshotOver_kept encodes kept, if_neg]
  have known := storedRevision_kept encodes.aggregateId kept
  have least : stored.getD 0 ≤ snapshot.revision := by
    cases stored with
    | none => exact Nat.zero_le _
    | some revision => exact current revision known
  exact Nat.not_lt.mpr (Binary64.round_mono least)

/-- A save keeps the latest snapshot exactly when no later one is stored and the snapshot is read
back from its texts. -/
theorem savesLatest_iff (held : KeptAt store snapshot.aggregateId db)
    (fits : snapshot.revision < 2 ^ 64) :
    store.SavesLatest db snapshot ↔ store.Current db snapshot ∧ store.Legible snapshot := by
  have loads : ∀ {aggregateId state metadata : String} {millis : Nat},
      store.Encodes snapshot aggregateId state metadata millis → store.Current db snapshot →
      (store.loadSnapshotOver wasiRedisClient
          (store.saveSnapshotOver wasiRedisClient db .answered snapshot).2 snapshot.aggregateId =
        .ok (some snapshot) ↔
      store.json.stateFromStr state = .ok snapshot.state ∧
      store.json.metadataFromStr metadata = .ok snapshot.metadata ∧
      store.reader.deserializeId aggregateId = .ok snapshot.aggregateId ∧
      RowReader.millisToSystemTime millis = snapshot.recordedAt) := by
    intro aggregateId state metadata millis encodes current
    rw [saveSnapshotOver_current encodes held current,
      loadSnapshotOver_saved encodes.aggregateId (Function.update_self _ _ _) fits
        (systemTimeToMillis_le encodes.millis)]
    simp
  constructor
  · intro claimed
    have current : store.Current db snapshot := by
      intro revision stored
      by_contra older
      have refused := claimed.1 revision stored (Nat.lt_of_not_le older)
      exact not_refused held stored snapshot.revision (congrArg Prod.fst refused)
    refine ⟨current, ?_⟩
    obtain ⟨saved, loaded⟩ := claimed.2 current
    cases encoded : store.saveArguments snapshot with
    | error error =>
      rw [saveSnapshotOver_error encoded] at saved
      cases saved
    | ok command =>
      obtain ⟨aggregateId, state, metadata, millis, encodes⟩ := encodes_of_saveArguments encoded
      obtain ⟨stateRead, metadataRead, idRead, timeRead⟩ := (loads encodes current).mp loaded
      exact ⟨aggregateId, state, metadata, millis, encodes, idRead, stateRead, metadataRead,
        timeRead⟩
  · rintro ⟨current, aggregateId, state, metadata, millis, encodes, idRead, stateRead,
      metadataRead, timeRead⟩
    refine ⟨?_, ?_⟩
    · intro revision stored older
      exact absurd (current revision stored) (Nat.not_le.mpr older)
    · intro _
      refine ⟨?_, (loads encodes current).mpr ⟨stateRead, metadataRead, idRead, timeRead⟩⟩
      rw [saveSnapshotOver_current encodes held current]

/-- After a save that is stored the revision is its own. -/
theorem storedRevision_saved (held : KeptAt store snapshot.aggregateId db)
    (current : store.Current db snapshot) (legible : store.Legible snapshot) :
    store.storedRevision (store.saveSnapshotOver wasiRedisClient db .answered snapshot).2
      snapshot.aggregateId = some snapshot.revision := by
  obtain ⟨aggregateId, state, metadata, millis, encodes, _⟩ := legible
  rw [saveSnapshotOver_current encodes held current]
  apply storedRevision_kept encodes.aggregateId
  dsimp only
  rw [Function.update_self]
  exact .saved _ _ _ _ _

section Runs

variable [DecidableEq A.Id] {after : KeySpace} {history : List (Snapshot A)}
  {memory : InMemorySnapshotStore A}

theorem snapshotSaves_step
    (stepped : (store.snapshotSaves aggregateId).step db snapshot = some after) :
    snapshot.aggregateId = aggregateId ∧ snapshot.revision < 2 ^ 64 ∧
      after = (store.saveSnapshotOver wasiRedisClient db .answered snapshot).2 := by
  simp only [snapshotSaves] at stepped
  split at stepped
  · rename_i own
    exact ⟨own.1, own.2, (Option.some.inj stepped).symm⟩
  · cases stepped

theorem snapshotSaves_enabled (own : snapshot.aggregateId = aggregateId)
    (fits : snapshot.revision < 2 ^ 64) :
    (store.snapshotSaves aggregateId).step db snapshot =
      some (store.saveSnapshotOver wasiRedisClient db .answered snapshot).2 := by
  rw [snapshotSaves]
  exact if_pos ⟨own, fits⟩

/-- In a run of such saves the revisions ascend, from the stored one on. -/
theorem ascending_of_meets (held : KeptAt store aggregateId db)
    (ran : (store.snapshotSaves aggregateId).run db history = some after)
    (meets : (store.snapshotSaves aggregateId).Meets
      (fun db snapshot => store.Current db snapshot ∧ store.Legible snapshot) db history) :
    (∀ revision, store.storedRevision db aggregateId = some revision →
      ∀ snapshot ∈ history, revision ≤ snapshot.revision) ∧
    (history.map (·.revision)).Pairwise (· ≤ ·) := by
  induction history generalizing db with
  | nil => exact ⟨fun _ _ _ member => absurd member List.not_mem_nil, .nil⟩
  | cons snapshot rest ih =>
    obtain ⟨next, stepped, ran⟩ := Option.bind_eq_some_iff.mp ran
    obtain ⟨own, _, saved⟩ := snapshotSaves_step stepped
    subst own saved
    obtain ⟨current, legible⟩ := meets.1
    obtain ⟨above, ordered⟩ := ih (held.save rfl) ran (meets.2 _ stepped)
    have later := above snapshot.revision (storedRevision_saved held current legible)
    constructor
    · intro revision stored other member
      have least := current revision stored
      rcases List.mem_cons.mp member with rfl | listed
      · exact least
      · exact Nat.le_trans least (later other listed)
    · rw [List.map_cons, List.pairwise_cons]
      refine ⟨?_, ordered⟩
      intro revision listed
      obtain ⟨other, member, rfl⟩ := List.mem_map.mp listed
      exact later other member

/-- The in-memory store after the same saves. -/
def inMemory (history : List (Snapshot A)) (memory : InMemorySnapshotStore A) :
    InMemorySnapshotStore A :=
  history.foldl (fun memory snapshot => (memory.saveSnapshot snapshot).2) memory

theorem saveSnapshot_put
    (current : ∀ stored, memory.loadSnapshot snapshot.aggregateId = some stored →
      stored.revision ≤ snapshot.revision) :
    memory.saveSnapshot snapshot = (.ok (), memory.put snapshot) := by
  rw [InMemorySnapshotStore.saveSnapshot]
  cases held : memory.snapshots snapshot.aggregateId with
  | none => rfl
  | some stored => exact if_neg (Nat.not_lt.mpr (current stored held))

/-- Such a run leaves the last snapshot in both stores. -/
theorem last_of_meets (held : KeptAt store aggregateId db)
    (agree : store.storedRevision db aggregateId =
      (memory.loadSnapshot aggregateId).map (·.revision))
    (ran : (store.snapshotSaves aggregateId).run db history = some after)
    (meets : (store.snapshotSaves aggregateId).Meets
      (fun db snapshot => store.Current db snapshot ∧ store.Legible snapshot) db history)
    {last : Snapshot A} (ended : history.getLast? = some last) :
    store.loadSnapshotOver wasiRedisClient after aggregateId = .ok (some last) ∧
      (inMemory history memory).loadSnapshot aggregateId = some last := by
  induction history generalizing db memory with
  | nil => cases ended
  | cons snapshot rest ih =>
    obtain ⟨next, stepped, ran⟩ := Option.bind_eq_some_iff.mp ran
    obtain ⟨own, fits, saved⟩ := snapshotSaves_step stepped
    subst own saved
    obtain ⟨current, legible⟩ := meets.1
    have put : memory.saveSnapshot snapshot = (.ok (), memory.put snapshot) := by
      apply saveSnapshot_put
      intro stored found
      apply current
      rw [agree, found]
      rfl
    have kept : (memory.put snapshot).loadSnapshot snapshot.aggregateId = some snapshot :=
      Function.update_self _ _ _
    have folded : inMemory (snapshot :: rest) memory = inMemory rest (memory.put snapshot) := by
      rw [inMemory, List.foldl_cons, put]
      rfl
    rw [folded]
    cases rest with
    | nil =>
      cases ran
      cases ended
      exact ⟨(((savesLatest_iff held fits).mpr ⟨current, legible⟩).2 current).2, kept⟩
    | cons following rest =>
      refine ih (held.save rfl) ?_ ran (meets.2 _ stepped) (by simpa using ended)
      rw [storedRevision_saved held current legible, kept]
      rfl

end Runs

end RedisSnapshotStore

/-- In every history a save keeps the latest snapshot exactly when no later one is stored and the
snapshot is read back from its texts. A history of such saves never lowers the revision,
and leaves its last snapshot, as in the in-memory store. -/
theorem redisSnapshotSaves_iff {A : Aggregate} [DecidableEq A.Id] (store : RedisSnapshotStore A)
    (aggregateId : A.Id) :
    (∀ db, (store.snapshotSaves aggregateId).Reachable db → ∀ snapshot after,
      (store.snapshotSaves aggregateId).step db snapshot = some after →
      (store.SavesLatest db snapshot ↔ store.Current db snapshot ∧ store.Legible snapshot)) ∧
    ∀ db history after, (store.snapshotSaves aggregateId).start db →
      (store.snapshotSaves aggregateId).run db history = some after →
      ((store.snapshotSaves aggregateId).Meets store.SavesLatest db history ↔
        (store.snapshotSaves aggregateId).Meets
          (fun db snapshot => store.Current db snapshot ∧ store.Legible snapshot) db history) ∧
      ((store.snapshotSaves aggregateId).Meets
          (fun db snapshot => store.Current db snapshot ∧ store.Legible snapshot) db history →
        (history.map (·.revision)).Pairwise (· ≤ ·) ∧
        ∀ last, history.getLast? = some last →
          store.loadSnapshotOver wasiRedisClient after aggregateId = .ok (some last) ∧
          (RedisSnapshotStore.inMemory history .new).loadSnapshot aggregateId = some last) := by
  have decides : ∀ db snapshot after, (store.snapshotSaves aggregateId).Reachable db →
      (store.snapshotSaves aggregateId).step db snapshot = some after →
      (store.SavesLatest db snapshot ↔
        store.Current db snapshot ∧ store.Legible snapshot) := by
    intro db snapshot after reached stepped
    obtain ⟨rfl, fits, _⟩ := RedisSnapshotStore.snapshotSaves_step stepped
    exact RedisSnapshotStore.savesLatest_iff
      (RedisSnapshotStore.keptAt_of_reachable reached) fits
  refine ⟨fun db reached snapshot after stepped => decides db snapshot after reached stepped, ?_⟩
  intro db history after fresh ran
  have reached : (store.snapshotSaves aggregateId).Reachable db := .start fresh
  have held := RedisSnapshotStore.keptAt_of_reachable reached
  refine ⟨Machine.meets_congr decides reached ran, ?_⟩
  intro meets
  refine ⟨(RedisSnapshotStore.ascending_of_meets held ran meets).2, ?_⟩
  intro last ended
  refine RedisSnapshotStore.last_of_meets held ?_ ran meets ended
  cases named : store.codec.serializeId aggregateId with
  | error error =>
    rw [RedisSnapshotStore.storedRevision, named]
    rfl
  | ok text =>
    have nothing : SnapshotKept (db (store.snapshotKey text)) none := by
      rw [fresh text named]
      exact .absent
    rw [RedisSnapshotStore.storedRevision_kept named nothing]
    rfl

/-- A store of accounts whose JSON is read back. -/
def accountSnapshots : RedisSnapshotStore .account where
  keyPrefix := defaultRedisPrefix
  codec := accountCodec
  reader := accountReader
  json :=
    { stateToString := fun (opened : Bool) => .ok (if opened then "true" else "false")
      stateFromStr := fun text => .ok (decide (text = "true"))
      metadataToString := fun _ => .ok "\x7b\x7d"
      metadataFromStr := fun _ => .ok .empty }

def accountSnapshot (revision : Nat) : Snapshot .account :=
  .new (A := .account) "a" revision true .empty 0

theorem accountSnapshot_legible (revision : Nat) :
    accountSnapshots.Legible (accountSnapshot revision) :=
  ⟨"a", "true", "\x7b\x7d", 0, ⟨rfl, rfl, rfl, by simp [systemTimeToMillis, accountSnapshot,
    Snapshot.new]⟩, rfl, rfl, rfl, rfl⟩

def accountId : Aggregate.account.Id := ("a" : String)

/-- The key space after saves of these revisions. -/
def accountSaved (revisions : List Nat) : KeySpace :=
  revisions.foldl (fun db revision => (accountSnapshots.saveSnapshotOver wasiRedisClient db
    .answered (accountSnapshot revision)).2) (fun _ => none)

/-- Two saves of a new account, the second one later. -/
theorem redisSnapshotSaves_iff_account :
    (accountSnapshots.snapshotSaves accountId).Meets accountSnapshots.SavesLatest
        (fun _ => none) [accountSnapshot 1, accountSnapshot 2] ∧
      accountSnapshots.loadSnapshotOver wasiRedisClient (accountSaved [1, 2]) accountId =
        .ok (some (accountSnapshot 2)) := by
  have first : (accountSnapshots.snapshotSaves accountId).step (fun _ => none)
      (accountSnapshot 1) = some (accountSaved [1]) :=
    RedisSnapshotStore.snapshotSaves_enabled rfl (show 1 < 2 ^ 64 by decide)
  have second : (accountSnapshots.snapshotSaves accountId).step (accountSaved [1])
      (accountSnapshot 2) = some (accountSaved [1, 2]) :=
    RedisSnapshotStore.snapshotSaves_enabled rfl (show 2 < 2 ^ 64 by decide)
  have ran : (accountSnapshots.snapshotSaves accountId).run (fun _ => none)
      [accountSnapshot 1, accountSnapshot 2] = some (accountSaved [1, 2]) := by
    rw [Machine.run_cons, first, Option.bind_some, Machine.run_cons, second, Option.bind_some,
      Machine.run_nil]
  have fresh : accountSnapshots.storedRevision (fun _ => none) accountId = none := by
    decide +kernel
  have stored : accountSnapshots.storedRevision (accountSaved [1]) accountId = some 1 := by
    decide +kernel
  have meets : (accountSnapshots.snapshotSaves accountId).Meets (fun db snapshot =>
      accountSnapshots.Current db snapshot ∧ accountSnapshots.Legible snapshot)
      (fun _ => none) [accountSnapshot 1, accountSnapshot 2] := by
    refine ⟨⟨?_, accountSnapshot_legible 1⟩, ?_⟩
    · intro current found
      exact absurd (fresh.symm.trans found) (by simp)
    · intro next stepped
      have same := Option.some.inj (first.symm.trans stepped)
      subst same
      refine ⟨⟨?_, accountSnapshot_legible 2⟩, fun _ _ => trivial⟩
      intro current found
      rw [← Option.some.inj (stored.symm.trans found)]
      exact Nat.le_succ 1
  have exact := (redisSnapshotSaves_iff accountSnapshots accountId).2 (fun _ => none)
    [accountSnapshot 1, accountSnapshot 2] (accountSaved [1, 2]) (fun _ _ => rfl) ran
  exact ⟨exact.1.mpr meets, ((exact.2 meets).2 (accountSnapshot 2) rfl).1⟩

/-- An older snapshot is refused with an error that does not say so. Past the integers that a
double tells apart, it replaces the later one. -/
theorem olderSnapshot_unreported :
    (accountSnapshots.saveSnapshotOver wasiRedisClient (accountSaved [2]) .answered
        (accountSnapshot 1)).1 =
      .error (.deserialization ("unexpected redis snapshot save reply: " ++
        (RedisValue.array [.bytes "ERR", .bytes "stale_revision", .int 2]).debug) none) ∧
    accountSnapshots.storedRevision (accountSaved [2]) accountId = some 2 ∧
    ¬ accountSnapshots.SavesLatest (accountSaved [2]) (accountSnapshot 1) ∧
    accountSnapshots.storedRevision (accountSaved [2 ^ 53 + 1]) accountId = some (2 ^ 53 + 1) ∧
    accountSnapshots.storedRevision (accountSaved [2 ^ 53 + 1, 2 ^ 53]) accountId =
      some (2 ^ 53) := by
  have refused : (accountSnapshots.saveSnapshotOver wasiRedisClient (accountSaved [2]) .answered
      (accountSnapshot 1)).1 = .error (.deserialization ("unexpected redis snapshot save reply: " ++
        (RedisValue.array [.bytes "ERR", .bytes "stale_revision", .int 2]).debug) none) := by
    decide +kernel
  have stored : accountSnapshots.storedRevision (accountSaved [2]) accountId = some 2 := by
    decide +kernel
  refine ⟨refused, stored, ?_, by decide +kernel, by decide +kernel⟩
  intro claimed
  have same := congrArg Prod.fst (claimed.1 2 stored (by decide))
  cases refused.symm.trans same

end DddCqrsEs
