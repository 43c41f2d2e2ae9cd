import DddCqrsEs.CheckpointStores
import DddCqrsEs.JsonObject

/- A checkpoint store is to answer with the largest sequence saved since the last reset. Two
stores always do. Redis compares 64-bit floating-point numbers, and reads zero as no
checkpoint. -/
namespace DddCqrsEs

open RankedMaximum (kept)

/-- After a history a load answers with the maximum of what the store accepted. -/
def CheckpointStore.AnswersMaximum {σ : Type} (store : CheckpointStore σ)
    (accepts : UInt64 → Bool) (history : List CheckpointOp) (name : String) : Prop :=
  store.loadCheckpoint name (store.after history) = .ok (savedSince accepts name history).max?

/-- Nothing was saved, or the largest sequence is not zero and every sequence saved before it
becomes a smaller floating-point number. -/
def ComparesAsDoubles (saved : List Nat) : Prop :=
  saved = [] ∨ ∃ before largest after, saved = before ++ largest :: after ∧
    saved.max? = some largest ∧ largest ≠ 0 ∧
    ∀ sequence ∈ before, Binary64.round sequence < Binary64.round largest

theorem CheckpointStore.Keeps.answersMaximum {σ : Type} {store : CheckpointStore σ}
    {accepts : UInt64 → Bool} {Holds : σ → (String → Option Nat) → Prop}
    (keeps : store.Keeps accepts id some Holds) (history : List CheckpointOp) (name : String) :
    store.AnswersMaximum accepts history name := by
  rw [AnswersMaximum, keeps.load, RankedMaximum.kept_id, Option.bind_fun_some]

theorem redis_answersMaximum_iff (keyPrefix : RedisPrefix) (history : List CheckpointOp)
    (name : String) :
    (redisCheckpoints keyPrefix).AnswersMaximum (fun _ => true) history name ↔
      ComparesAsDoubles (savedSince (fun _ => true) name history) := by
  rw [CheckpointStore.AnswersMaximum, RedisCheckpointStore.keeps.load, Except.ok.injEq]
  generalize savedSince (fun _ => true) name history = saved
  cases isMax : saved.max? with
  | none =>
    have empty := List.max?_eq_none_iff.mp isMax
    rw [empty]
    exact iff_of_true rfl (.inl rfl)
  | some largest =>
    have first := RankedMaximum.kept_eq_some_max?_iff (fun _ _ => Binary64.round_mono) isMax
    constructor
    · intro answered
      obtain ⟨sequence, held, same⟩ := Option.bind_eq_some_iff.mp answered
      by_cases zero : sequence = 0
      · simp [zero] at same
      · rw [if_pos zero] at same
        cases same
        obtain ⟨before, after, split, under⟩ := first.mp held
        exact .inr ⟨before, _, after, split, isMax, zero, under⟩
    · rintro (rfl | ⟨before, other, after, split, otherMax, nonzero, under⟩)
      · cases isMax
      · cases isMax.symm.trans otherMax
        rw [first.mpr ⟨before, after, split, under⟩, Option.bind_some, if_pos nonzero]

/-- What the stores accept, and when each of them answers with the maximum. -/
theorem checkpoints_answersMaximum_iff {json : CheckpointJson} (faithful : json.Faithful)
    (keyPrefix : RedisPrefix) (history : List CheckpointOp) (name : String) :
    (∀ other sequence, ((jsonFileCheckpoints json).saveCheckpoint other sequence
        ((jsonFileCheckpoints json).after history)).1 = .ok ()) ∧
    (∀ other sequence, (sqliteCheckpoints.saveCheckpoint other sequence
        (sqliteCheckpoints.after history)).1 = .ok () ↔ sequence.toNat ≤ i64Max) ∧
    (∀ other sequence, ((redisCheckpoints keyPrefix).saveCheckpoint other sequence
        ((redisCheckpoints keyPrefix).after history)).1 = .ok ()) ∧
    (jsonFileCheckpoints json).AnswersMaximum (fun _ => true) history name ∧
    sqliteCheckpoints.AnswersMaximum (fun sequence => sequence.toNat ≤ i64Max) history name ∧
    ((redisCheckpoints keyPrefix).AnswersMaximum (fun _ => true) history name ↔
      ComparesAsDoubles (savedSince (fun _ => true) name history)) := by
  have jsonKeeps := JsonFileCheckpointStore.keeps faithful
  have sqliteKeeps := SqliteCheckpointStore.keeps
  have redisKeeps : (redisCheckpoints keyPrefix).Keeps _ _ _ _ := RedisCheckpointStore.keeps
  refine ⟨?_, ?_, ?_, jsonKeeps.answersMaximum history name,
    sqliteKeeps.answersMaximum history name, redis_answersMaximum_iff keyPrefix history name⟩
  · intro other sequence
    exact (jsonKeeps.accepts_iff history other sequence).mpr rfl
  · intro other sequence
    rw [sqliteKeeps.accepts_iff history other sequence, decide_eq_true_iff]
  · intro other sequence
    exact (redisKeeps.accepts_iff history other sequence).mpr rfl

def compactJson : CheckpointJson where
  fromStr text :=
    match JsonObject.read text with
    | none => .error "invalid type"
    | some members =>
      if members.all (fun member => member.2 < 2 ^ 64) then
        .ok (members.foldl (fun map member =>
          map.insert (String.ofList member.1) (UInt64.ofNat member.2)) ∅)
      else .error "number out of range"
  toString map :=
    .ok (JsonObject.write (map.entries.map (fun entry => (entry.1.toList, entry.2.toNat))))

/-- Inserting the entries of a map one after the other. -/
theorem foldl_insert_lookup {entries : List (Sigma (fun _ : String => UInt64))}
    (distinct : entries.NodupKeys) (start : CheckpointMap) (name : String) :
    (entries.foldl (fun map entry => map.insert entry.1 entry.2) start).lookup name =
      (entries.dlookup name).or (start.lookup name) := by
  induction entries generalizing start with
  | nil => rfl
  | cons entry rest ih =>
    obtain ⟨absent, others⟩ := List.nodupKeys_cons.mp distinct
    rw [List.foldl_cons, ih others]
    by_cases same : name = entry.1
    · subst same
      rw [AList.lookup_insert, List.dlookup_eq_none.mpr absent, List.dlookup_cons_eq]
      rfl
    · rw [AList.lookup_insert_ne same, List.dlookup_cons_ne _ _ same]

theorem compactJson_faithful : compactJson.Faithful where
  blank := ⟨∅, rfl, fun _ => rfl⟩
  written := by
    intro map
    refine ⟨_, map.entries.foldl (fun map entry => map.insert entry.1 entry.2) ∅, rfl, ?_, ?_⟩
    · have small : (map.entries.map (fun entry => (entry.1.toList, entry.2.toNat))).all
          (fun member => decide (member.2 < 2 ^ 64)) = true := by
        simp only [List.all_map, List.all_eq_true, Function.comp_apply, decide_eq_true_eq]
        exact fun entry _ => entry.2.toNat_lt
      simp only [compactJson, JsonObject.read_write, if_pos small, List.foldl_map,
        String.ofList_toList, UInt64.ofNat_toNat]
    · intro name
      rw [foldl_insert_lookup map.nodupKeys]
      show (map.lookup name).or none = map.lookup name
      exact Option.or_none

/-- Zero and five are saved, and a reset of another projection changes nothing. -/
theorem checkpoints_answersMaximum_five :
    (jsonFileCheckpoints compactJson).AnswersMaximum (fun _ => true)
      [.save "orders" 0, .save "orders" 5, .reset "invoices"] "orders" ∧
    (redisCheckpoints defaultRedisPrefix).AnswersMaximum (fun _ => true)
      [.save "orders" 0, .save "orders" 5, .reset "invoices"] "orders" := by
  obtain ⟨_, _, _, json, _, redis⟩ :=
    checkpoints_answersMaximum_iff compactJson_faithful defaultRedisPrefix
      [.save "orders" 0, .save "orders" 5, .reset "invoices"] "orders"
  refine ⟨json, redis.mpr (.inr ⟨[0], 5, [], rfl, rfl, by decide, ?_⟩)⟩
  intro sequence listed
  rw [List.mem_singleton.mp listed]
  decide

/-- A saved zero reads as no checkpoint, and a step past 2^53 is not taken. -/
theorem redisCheckpoints_below_maximum :
    (redisCheckpoints defaultRedisPrefix).loadCheckpoint "orders"
        ((redisCheckpoints defaultRedisPrefix).after [.save "orders" 0]) = .ok none ∧
      savedSince (fun _ => true) "orders" [.save "orders" 0] = [0] ∧
      (redisCheckpoints defaultRedisPrefix).loadCheckpoint "orders"
        ((redisCheckpoints defaultRedisPrefix).after
          [.save "orders" 9007199254740992, .save "orders" 9007199254740993]) =
        .ok (some 9007199254740992) ∧
      (savedSince (fun _ => true) "orders"
        [.save "orders" 9007199254740992, .save "orders" 9007199254740993]).max? =
        some 9007199254740993 := by
  rw [RedisCheckpointStore.keeps.load, RedisCheckpointStore.keeps.load]
  decide +kernel

end DddCqrsEs
