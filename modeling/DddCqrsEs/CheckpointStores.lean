import DddCqrsEs.JsonFile
import DddCqrsEs.RankedMaximum
import DddCqrsEs.RedisKeySpace
import DddCqrsEs.RedisKeyLease
import Mathlib.Data.List.AList

/- The stores of projection checkpoints in a JSON file, in SQLite and in Redis. A checkpoint
only moves up until it is reset. -/
namespace DddCqrsEs

open RedisServer
open RankedMaximum (kept keep)

inductive CheckpointOp where
  | save (projectionName : String) (sequence : UInt64)
  | reset (projectionName : String)
  deriving DecidableEq

/-- A store whose data is a value of `σ`. -/
structure CheckpointStore (σ : Type) where
  empty : σ
  loadCheckpoint : String → σ → Except EventStoreError (Option Nat)
  saveCheckpoint : String → UInt64 → σ → Except EventStoreError Unit × σ
  resetCheckpoint : String → σ → Except EventStoreError Unit × σ

namespace CheckpointStore

variable {σ : Type} (store : CheckpointStore σ)

def apply (state : σ) : CheckpointOp → σ
  | .save projectionName sequence => (store.saveCheckpoint projectionName sequence state).2
  | .reset projectionName => (store.resetCheckpoint projectionName state).2

/-- The data after a history of calls, of which any may be rejected. -/
def after (history : List CheckpointOp) : σ := history.foldl store.apply store.empty

end CheckpointStore

/-- The sequences saved under a name since its last reset, as far as they are accepted. -/
def savedSince (accepts : UInt64 → Bool) (projectionName : String) :
    List CheckpointOp → List Nat :=
  List.foldl (fun saved op =>
    match op with
    | .save other sequence =>
      if other = projectionName ∧ accepts sequence then saved ++ [sequence.toNat] else saved
    | .reset other => if other = projectionName then [] else saved) []

theorem savedSince_snoc_save (accepts : UInt64 → Bool) (projectionName other : String)
    (sequence : UInt64) (history : List CheckpointOp) :
    savedSince accepts projectionName (history ++ [.save other sequence]) =
      if other = projectionName ∧ accepts sequence then
        savedSince accepts projectionName history ++ [sequence.toNat]
      else savedSince accepts projectionName history := by
  simp [savedSince]

theorem savedSince_snoc_reset (accepts : UInt64 → Bool) (projectionName other : String)
    (history : List CheckpointOp) :
    savedSince accepts projectionName (history ++ [.reset other]) =
      if other = projectionName then [] else savedSince accepts projectionName history := by
  simp [savedSince]

/-- What a store is for: under every name it keeps the sequence of the highest rank, and
answers a load with it. `Holds` tells which data stands for which sequences. -/
structure CheckpointStore.Keeps {σ : Type} (store : CheckpointStore σ) (accepts : UInt64 → Bool)
    (rank : Nat → Nat) (answer : Nat → Option Nat)
    (Holds : σ → (String → Option Nat) → Prop) : Prop where
  empty : Holds store.empty (fun _ => none)
  saved : ∀ {state held} name sequence, Holds state held → accepts sequence = true →
    (store.saveCheckpoint name sequence state).1 = .ok () ∧
      Holds (store.saveCheckpoint name sequence state).2
        (Function.update held name (keep rank (held name) sequence.toNat))
  rejected : ∀ {state held} name sequence, Holds state held → accepts sequence = false →
    (store.saveCheckpoint name sequence state).1 ≠ .ok () ∧
      Holds (store.saveCheckpoint name sequence state).2 held
  reset : ∀ {state held} name, Holds state held →
    Holds (store.resetCheckpoint name state).2 (Function.update held name none)
  loaded : ∀ {state held} name, Holds state held →
    store.loadCheckpoint name state = .ok ((held name).bind answer)

namespace CheckpointStore.Keeps

variable {σ : Type} {store : CheckpointStore σ} {accepts : UInt64 → Bool} {rank : Nat → Nat}
  {answer : Nat → Option Nat} {Holds : σ → (String → Option Nat) → Prop}

/-- Over a whole history, names do not meet. -/
theorem after (keeps : store.Keeps accepts rank answer Holds) (history : List CheckpointOp) :
    Holds (store.after history) (fun name => kept rank (savedSince accepts name history)) := by
  induction history using List.reverseRecOn with
  | nil => exact keeps.empty
  | append_singleton history op ih =>
    rw [CheckpointStore.after, List.foldl_append, List.foldl_cons, List.foldl_nil]
    cases op with
    | save name sequence =>
      show Holds (store.saveCheckpoint name sequence (store.after history)).2 _
      cases verdict : accepts sequence with
      | true =>
        have moved : (fun other => kept rank
            (savedSince accepts other (history ++ [.save name sequence]))) =
            Function.update (fun other => kept rank (savedSince accepts other history)) name
              (keep rank (kept rank (savedSince accepts name history)) sequence.toNat) := by
          funext other
          rw [savedSince_snoc_save, Function.update_apply]
          by_cases same : name = other
          · rw [if_pos ⟨same, verdict⟩, if_pos same.symm, RankedMaximum.kept_snoc, same]
          · rw [if_neg (fun both => same both.1), if_neg (Ne.symm same)]
        rw [moved]
        exact (keeps.saved name sequence ih verdict).2
      | false =>
        have unmoved : (fun other => kept rank
            (savedSince accepts other (history ++ [.save name sequence]))) =
            fun other => kept rank (savedSince accepts other history) := by
          funext other
          rw [savedSince_snoc_save, if_neg (fun both => by simp [verdict] at both)]
        rw [unmoved]
        exact (keeps.rejected name sequence ih verdict).2
    | reset name =>
      show Holds (store.resetCheckpoint name (store.after history)).2 _
      have cleared : (fun other => kept rank
          (savedSince accepts other (history ++ [.reset name]))) =
          Function.update (fun other => kept rank (savedSince accepts other history)) name
            none := by
        funext other
        rw [savedSince_snoc_reset, Function.update_apply]
        by_cases same : name = other
        · rw [if_pos same, if_pos same.symm, RankedMaximum.kept_nil]
        · rw [if_neg same, if_neg (Ne.symm same)]
      rw [cleared]
      exact keeps.reset name ih

theorem accepts_iff (keeps : store.Keeps accepts rank answer Holds) (history : List CheckpointOp)
    (name : String) (sequence : UInt64) :
    (store.saveCheckpoint name sequence (store.after history)).1 = .ok () ↔
      accepts sequence = true := by
  cases verdict : accepts sequence with
  | true => exact iff_of_true (keeps.saved name sequence (keeps.after history) verdict).1 rfl
  | false =>
    exact iff_of_false (keeps.rejected name sequence (keeps.after history) verdict).1
      (by decide)

theorem load (keeps : store.Keeps accepts rank answer Holds) (history : List CheckpointOp)
    (name : String) :
    store.loadCheckpoint name (store.after history) =
      .ok ((kept rank (savedSince accepts name history)).bind answer) :=
  keeps.loaded name (keeps.after history)

end CheckpointStore.Keeps

abbrev CheckpointMap := AList (fun _ : String => UInt64)

/-- The JSON library on checkpoint maps. -/
structure CheckpointJson where
  fromStr : Text → Except String CheckpointMap
  toString : CheckpointMap → Except String Text

/-- Every map has a text, from which its entries are read back, in whatever order. -/
structure CheckpointJson.Faithful (json : CheckpointJson) : Prop where
  blank : ∃ map, json.fromStr "\x7b\x7d".toList = .ok map ∧ ∀ name, map.lookup name = none
  written : ∀ map, ∃ text read, json.toString map = .ok text ∧ json.fromStr text = .ok read ∧
    ∀ name, read.lookup name = map.lookup name

namespace JsonFileCheckpointStore

variable (json : CheckpointJson)

def readMap (content : Text) : Except EventStoreError CheckpointMap :=
  (json.fromStr content).mapError (fun error => .deserialization error none)

def loadCheckpoint (projectionName : String) :
    Option ByteArray → Except EventStoreError (Option Nat)
  | none => .ok none
  | some file => do
      let map ← readMap json (← readToString file)
      return (map.lookup projectionName).map UInt64.toNat

/-- What a call writes over the file. -/
def rewrite (map : CheckpointMap) : Except EventStoreError ByteArray :=
  ((json.toString map).mapError (fun error => EventStoreError.serialization error none)).map utf8

def savedMap (projectionName : String) (sequence : UInt64) (map : CheckpointMap) :
    CheckpointMap :=
  map.insert projectionName
    (((map.lookup projectionName).map (fun existing => max existing sequence)).getD sequence)

/-- The file a call leaves: the one written, and the one that was there if the call fails. -/
def leave (file : Option ByteArray) (written : Except EventStoreError ByteArray) :
    Except EventStoreError Unit × Option ByteArray :=
  match written with
  | .ok file => (.ok (), some file)
  | .error error => (.error error, file)

def saveCheckpoint (projectionName : String) (sequence : UInt64) (file : Option ByteArray) :
    Except EventStoreError Unit × Option ByteArray :=
  leave file (do
    let content ← (file.map readToString).getD (.ok "\x7b\x7d".toList)
    let map ← readMap json content
    rewrite json (savedMap projectionName sequence map))

def resetCheckpoint (projectionName : String) :
    Option ByteArray → Except EventStoreError Unit × Option ByteArray
  | none => (.ok (), none)
  | some file =>
    leave (some file) (do
      let map ← readMap json (← readToString file)
      rewrite json (map.erase projectionName))

end JsonFileCheckpointStore

def jsonFileCheckpoints (json : CheckpointJson) : CheckpointStore (Option ByteArray) where
  empty := none
  loadCheckpoint := JsonFileCheckpointStore.loadCheckpoint json
  saveCheckpoint := JsonFileCheckpointStore.saveCheckpoint json
  resetCheckpoint := JsonFileCheckpointStore.resetCheckpoint json

namespace JsonFileCheckpointStore

/-- The file is the text of a map with these sequences; a missing file has none. -/
def Holds (json : CheckpointJson) : Option ByteArray → (String → Option Nat) → Prop
  | none, held => ∀ name, held name = none
  | some file, held => ∃ text map, file = utf8 text ∧ json.fromStr text = .ok map ∧
      ∀ name, (map.lookup name).map UInt64.toNat = held name

variable {json : CheckpointJson}

theorem readMap_ok {content : Text} {map : CheckpointMap} (read : json.fromStr content = .ok map) :
    readMap json content = .ok map := by
  rw [readMap, read]
  rfl

/-- Whatever map a call arrives at is held by the file it leaves. -/
theorem leave_rewrite (faithful : json.Faithful) (file : Option ByteArray) (map : CheckpointMap) :
    (leave file (rewrite json map)).1 = .ok () ∧
      Holds json (leave file (rewrite json map)).2
        (fun name => (map.lookup name).map UInt64.toNat) := by
  obtain ⟨text, read, printed, parsed, same⟩ := faithful.written map
  have written : rewrite json map = .ok (utf8 text) := by
    rw [rewrite, printed]
    rfl
  rw [written]
  exact ⟨rfl, text, read, rfl, parsed, fun name => by rw [same name]⟩

theorem savedMap_lookup (projectionName name : String) (sequence : UInt64) (map : CheckpointMap) :
    ((savedMap projectionName sequence map).lookup name).map UInt64.toNat =
      Function.update (fun name => (map.lookup name).map UInt64.toNat) projectionName
        (keep id ((map.lookup projectionName).map UInt64.toNat) sequence.toNat) name := by
  rw [Function.update_apply, savedMap]
  by_cases same : name = projectionName
  · rw [if_pos same, same, AList.lookup_insert]
    cases map.lookup projectionName with
    | none => rfl
    | some existing =>
      simp only [Option.map_some, Option.getD_some, keep, id_eq]
      show some (if existing ≤ sequence then sequence else existing).toNat = _
      by_cases upto : existing ≤ sequence
      · have order := UInt64.le_iff_toNat_le.mp upto
        rw [if_pos upto]
        split
        · rfl
        · exact congrArg some (by omega)
      · have order : ¬ existing.toNat ≤ sequence.toNat :=
          fun order => upto (UInt64.le_iff_toNat_le.mpr order)
        rw [if_neg upto, if_neg (by omega)]
  · rw [if_neg same, AList.lookup_insert_ne same]

theorem readFile_ok {file : ByteArray} {held : String → Option Nat}
    (holds : Holds json (some file) held) :
    ∃ content map, readToString file = .ok content ∧ readMap json content = .ok map ∧
      held = fun name => (map.lookup name).map UInt64.toNat := by
  obtain ⟨text, map, rfl, parsed, same⟩ := holds
  exact ⟨text, map, readToString_utf8 text, readMap_ok parsed, funext fun name => (same name).symm⟩

theorem keeps (faithful : json.Faithful) :
    (jsonFileCheckpoints json).Keeps (fun _ => true) id some (Holds json) where
  empty _ := rfl
  saved := by
    intro state held name sequence holds _
    have opened : ∃ content map, (state.map readToString).getD (.ok "\x7b\x7d".toList) = .ok content ∧
        readMap json content = .ok map ∧ held = fun name => (map.lookup name).map UInt64.toNat := by
      cases state with
      | none =>
        obtain ⟨map, parsed, blank⟩ := faithful.blank
        refine ⟨_, map, rfl, readMap_ok parsed, ?_⟩
        funext name
        rw [blank name]
        exact holds name
      | some file => exact readFile_ok holds
    obtain ⟨content, map, found, read, rfl⟩ := opened
    have left := leave_rewrite faithful state (savedMap name sequence map)
    rw [funext (fun other => savedMap_lookup name other sequence map)] at left
    show (leave state _).1 = .ok () ∧ Holds json (leave state _).2 _
    rw [bind_of_ok found, bind_of_ok read]
    exact left
  rejected := by simp
  reset := by
    intro state held name holds
    cases state with
    | none =>
      show ∀ other, Function.update held name none other = none
      intro other
      rw [Function.update_apply]
      split
      · rfl
      · exact holds other
    | some file =>
      obtain ⟨content, map, found, read, rfl⟩ := readFile_ok holds
      have left := (leave_rewrite faithful (some file) (map.erase name)).2
      show Holds json (leave (some file) _).2 _
      rw [bind_of_ok found, bind_of_ok read]
      convert left using 1
      funext other
      rw [Function.update_apply]
      by_cases same : other = name
      · rw [if_pos same, same, AList.lookup_erase]
        rfl
      · rw [if_neg same, AList.lookup_erase_ne same]
  loaded := by
    intro state held name holds
    cases state with
    | none =>
      rw [holds name]
      rfl
    | some file =>
      obtain ⟨content, map, found, read, rfl⟩ := readFile_ok holds
      show (do
        let map ← readMap json (← readToString file)
        return (map.lookup name).map UInt64.toNat : Except EventStoreError (Option Nat)) = _
      rw [bind_of_ok found, bind_of_ok read, Option.bind_fun_some]
      rfl

end JsonFileCheckpointStore

abbrev CheckpointTable := String → Option Int

namespace SqliteCheckpointStore

def loadCheckpoint (projectionName : String) (table : CheckpointTable) :
    Except EventStoreError (Option Nat) :=
  match table projectionName with
  | none => .ok none
  | some sequence =>
    if sequence < 0 then
      .error (.deserialization "SQLite checkpoint cannot be negative" none)
    else .ok (some sequence.toNat)

/-- `INSERT … ON CONFLICT(projection_name) DO UPDATE SET sequence = CASE …`. -/
def upsert (projectionName : String) (excluded : Int) (table : CheckpointTable) :
    CheckpointTable :=
  Function.update table projectionName
    (match table projectionName with
    | none => some excluded
    | some sequence => if sequence < excluded then some excluded else some sequence)

def saveCheckpoint (projectionName : String) (sequence : UInt64) (table : CheckpointTable) :
    Except EventStoreError Unit × CheckpointTable :=
  if sequence.toNat ≤ i64Max then (.ok (), upsert projectionName sequence.toNat table)
  else (.error (.deserialization "checkpoint exceeds i64" none), table)

def resetCheckpoint (projectionName : String) (table : CheckpointTable) :
    Except EventStoreError Unit × CheckpointTable :=
  (.ok (), Function.update table projectionName none)

end SqliteCheckpointStore

def sqliteCheckpoints : CheckpointStore CheckpointTable where
  empty := fun _ => none
  loadCheckpoint := SqliteCheckpointStore.loadCheckpoint
  saveCheckpoint := SqliteCheckpointStore.saveCheckpoint
  resetCheckpoint := SqliteCheckpointStore.resetCheckpoint

namespace SqliteCheckpointStore

def Holds (table : CheckpointTable) (held : String → Option Nat) : Prop :=
  table = fun name => (held name).map Int.ofNat

theorem keeps : sqliteCheckpoints.Keeps (fun sequence => sequence.toNat ≤ i64Max) id some Holds where
  empty := rfl
  saved := by
    rintro _ held name sequence rfl accepted
    have fits : sequence.toNat ≤ i64Max := by simpa using accepted
    simp only [sqliteCheckpoints, saveCheckpoint, if_pos fits, Holds, true_and]
    funext other
    rw [upsert, Function.update_apply, Function.update_apply]
    by_cases same : other = name
    · rw [if_pos same, if_pos same]
      cases held name with
      | none => rfl
      | some existing =>
        by_cases below : existing < sequence.toNat
        · simp [keep, below]
        · simp [keep, below]
    · rw [if_neg same, if_neg same]
  rejected := by
    rintro _ held name sequence rfl refused
    have large : ¬ sequence.toNat ≤ i64Max := by simpa using refused
    simp [sqliteCheckpoints, saveCheckpoint, if_neg large, Holds]
  reset := by
    rintro _ held name rfl
    simp only [sqliteCheckpoints, resetCheckpoint, Holds]
    funext other
    rw [Function.update_apply, Function.update_apply]
    split <;> rfl
  loaded := by
    rintro _ held name rfl
    rw [Option.bind_fun_some]
    cases found : held name with
    | none => simp [sqliteCheckpoints, loadCheckpoint, found]
    | some sequence => simp [sqliteCheckpoints, loadCheckpoint, found]

end SqliteCheckpointStore

/-- `CHECKPOINT_SAVE_LUA`. -/
def checkpointSaveLua (keys arguments : List String) : Script RedisValue := do
  match ← get (← argument keys 1) with
  | none => set (← argument keys 1) (← argument arguments 1)
  | some current =>
    if (← luaDouble current) < (← luaDouble (← argument arguments 1)) then
      set (← argument keys 1) (← argument arguments 1)
  return .int 1

def delReply (key : String) : Script RedisValue := do
  return .int (← del key)

namespace RedisCheckpointStore

variable (keyPrefix : RedisPrefix)

def loadCheckpoint (projectionName : String) (db : KeySpace) :
    Except EventStoreError (Option Nat) := do
  let value ← execute (getReply (keyPrefix.checkpointKey projectionName)) db
  let sequence ← redisOptionalU64 "projection checkpoint" value
  return if sequence ≠ 0 then some sequence else none

def saveScript (projectionName : String) (sequence : UInt64) : Script RedisValue :=
  checkpointSaveLua [keyPrefix.checkpointKey projectionName] [Nat.repr sequence.toNat]

def saveCheckpoint (projectionName : String) (sequence : UInt64) (db : KeySpace) :
    Except EventStoreError Unit × KeySpace :=
  let script := saveScript keyPrefix projectionName sequence
  ((execute script db).map (fun _ => ()), afterScript script db)

def resetCheckpoint (projectionName : String) (db : KeySpace) :
    Except EventStoreError Unit × KeySpace :=
  let script := delReply (keyPrefix.checkpointKey projectionName)
  ((execute script db).map (fun _ => ()), afterScript script db)

end RedisCheckpointStore

def redisCheckpoints (keyPrefix : RedisPrefix) : CheckpointStore KeySpace where
  empty := fun _ => none
  loadCheckpoint := RedisCheckpointStore.loadCheckpoint keyPrefix
  saveCheckpoint := RedisCheckpointStore.saveCheckpoint keyPrefix
  resetCheckpoint := RedisCheckpointStore.resetCheckpoint keyPrefix

namespace RedisCheckpointStore

variable {keyPrefix : RedisPrefix}

/-- Every checkpoint key holds the sequence in digits. -/
def Holds (keyPrefix : RedisPrefix) (db : KeySpace) (held : String → Option Nat) : Prop :=
  ∀ name, db (keyPrefix.checkpointKey name) =
    (held name).map (fun sequence => .string (Nat.repr sequence)) ∧
    ∀ sequence, held name = some sequence → sequence < 2 ^ 64

theorem checkpointKey_injective {first second : String}
    (same : keyPrefix.checkpointKey first = keyPrefix.checkpointKey second) : first = second := by
  have keys : keyPrefix.entryKey (.checkpoint first) = keyPrefix.entryKey (.checkpoint second) :=
    same
  exact RedisEntry.checkpoint.inj (RedisPrefix.entryKey_inj keys).2

variable {db : KeySpace} {held : String → Option Nat}

theorem Holds.get (holds : Holds keyPrefix db held) (name : String) :
    get (keyPrefix.checkpointKey name) db = .ok ((held name).map Nat.repr) db := by
  rw [RedisServer.get, (holds name).1]
  cases held name with
  | none => rfl
  | some sequence => rfl

/-- A key that is written holds what is written, and the other names hold what they held. -/
theorem Holds.write (holds : Holds keyPrefix db held) (name : String) {sequence : Option Nat}
    (fits : ∀ number, sequence = some number → number < 2 ^ 64) :
    Holds keyPrefix (Function.update db (keyPrefix.checkpointKey name)
      (sequence.map (fun number => .string (Nat.repr number)))) (Function.update held name sequence) := by
  intro other
  rw [Function.update_apply, Function.update_apply]
  by_cases same : other = name
  · rw [if_pos same, if_pos (congrArg _ same)]
    exact ⟨rfl, fits⟩
  · rw [if_neg same, if_neg (fun keys => same (checkpointKey_injective keys))]
    exact holds other

theorem saveScript_ok (holds : Holds keyPrefix db held) (name : String) (sequence : UInt64) :
    ∃ after, saveScript keyPrefix name sequence db = .ok (.int 1) after ∧
      Holds keyPrefix after
        (Function.update held name (keep Binary64.round (held name) sequence.toNat)) := by
  have key (db : KeySpace) : argument [keyPrefix.checkpointKey name] 1 db =
      .ok (keyPrefix.checkpointKey name) db := rfl
  have given (db : KeySpace) : argument [Nat.repr sequence.toNat] 1 db =
      .ok (Nat.repr sequence.toNat) db := rfl
  have fits : ∀ number, some sequence.toNat = some number → number < 2 ^ 64 := by
    intro number same
    exact Option.some.inj same ▸ sequence.toNat_lt
  rw [saveScript, checkpointSaveLua, bind_ok (key db), bind_ok (holds.get name)]
  cases found : held name with
  | none =>
    exact ⟨_, rfl, holds.write name fits⟩
  | some current =>
    rw [Option.map_some]
    dsimp only
    rw [bind_ok (luaDouble_repr current db), bind_ok (given db),
      bind_ok (luaDouble_repr sequence.toNat db)]
    by_cases newer : Binary64.round current < Binary64.round sequence.toNat
    · rw [keep, if_pos newer, if_pos newer, bind_ok (key db), bind_ok (given db)]
      exact ⟨_, rfl, holds.write name fits⟩
    · rw [keep, if_neg newer, if_neg newer, ← found, Function.update_eq_self]
      exact ⟨db, rfl, holds⟩

theorem keeps : (redisCheckpoints keyPrefix).Keeps (fun _ => true) Binary64.round
    (fun sequence => if sequence ≠ 0 then some sequence else none) (Holds keyPrefix) where
  empty := by
    intro name
    exact ⟨rfl, by simp⟩
  saved := by
    intro state held name sequence holds _
    obtain ⟨after, ran, kept⟩ := saveScript_ok holds name sequence
    refine ⟨?_, ?_⟩
    · show (execute _ state).map _ = _
      rw [execute_ok ran]
      rfl
    · show Holds keyPrefix (afterScript _ state) _
      rw [afterScript, ran]
      exact kept
  rejected := by simp
  reset := by
    intro state held name holds
    have blank : ∀ number, none = some number → number < 2 ^ 64 := by simp
    exact holds.write name blank
  loaded := by
    intro state held name holds
    have reply : execute (getReply (keyPrefix.checkpointKey name)) state =
        .ok (((held name).map (fun sequence => .bytes (Nat.repr sequence))).getD .nil) := by
      apply execute_ok
      rw [getReply, bind_ok (holds.get name)]
      cases held name with
      | none => rfl
      | some sequence => rfl
    show loadCheckpoint keyPrefix name state = _
    rw [loadCheckpoint, bind_of_ok reply]
    cases found : held name with
    | none => rfl
    | some sequence =>
      have read : redisOptionalU64 "projection checkpoint" (.bytes (Nat.repr sequence)) =
          .ok sequence := by
        show (parseU64 (Nat.repr sequence)).mapError _ = _
        rw [parseU64_repr ((holds name).2 sequence found)]
        rfl
      rw [Option.map_some, Option.getD_some, bind_of_ok read]
      rfl

end RedisCheckpointStore

end DddCqrsEs
