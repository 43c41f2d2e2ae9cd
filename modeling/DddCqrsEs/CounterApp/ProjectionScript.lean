import DddCqrsEs.CounterApp.AtomicProjection

/- What one run of the projection script does to a read model that is built from the first
events of the feed. -/
namespace DddCqrsEs.CounterApp

open RedisServer

/-- The events of one counter, in feed order. -/
def eventsOf (aggregateId : String) (events : List (EventEnvelope CounterEvent String)) :
    List CounterEvent :=
  (events.filter (fun event => event.aggregateId = aggregateId)).map (·.payload)

/-- What the read model of a counter holds; nothing before its first event. -/
def readModel (aggregateId : String) (events : List (EventEnvelope CounterEvent String)) :
    Option Int :=
  if eventsOf aggregateId events = [] then none else some (total (eventsOf aggregateId events))

/-- The checkpoint of the script counts the events that the read models hold. -/
structure Held (db : KeySpace) (events : List (EventEnvelope CounterEvent String)) : Prop where
  checkpoint : db (redisCheckpointKey projectionName) = ofCount events.length
  models : ∀ aggregateId, db (redisReadModelKey (aggregateIdJson aggregateId)) =
    ofInteger (readModel aggregateId events)

theorem aggregateIdJson_inj {first second : String}
    (same : aggregateIdJson first = aggregateIdJson second) : first = second := by
  have texts := congrArg JsonString.read (String.ofList_injective same)
  rw [JsonString.read_write, JsonString.read_write] at texts
  exact String.toList_injective (Option.some.inj texts)

theorem redisReadModelKey_inj {first second : String}
    (same : redisReadModelKey first = redisReadModelKey second) : first = second := by
  unfold redisReadModelKey at same
  rw [String.append_right_inj] at same
  exact RedisEntry.hexEncode_asBytes_injective same

theorem readModelKey_ne_checkpointKey (json name : String) :
    redisReadModelKey json ≠ redisCheckpointKey name := by
  intro same
  unfold redisReadModelKey redisCheckpointKey at same
  have chars := congrArg String.toList same
  simp at chars

/-- The keys of the library's stores start with a brace. -/
theorem entryKey_ne_checkpointKey (keyPrefix : RedisPrefix) (entry : RedisEntry) (name : String) :
    keyPrefix.entryKey entry ≠ redisCheckpointKey name := by
  intro same
  rw [RedisEntry.entryKey_eq] at same
  unfold redisHashTaggedPrefix redisCheckpointKey at same
  have chars := congrArg String.toList same
  simp at chars

theorem entryKey_ne_readModelKey (keyPrefix : RedisPrefix) (entry : RedisEntry) (json : String) :
    keyPrefix.entryKey entry ≠ redisReadModelKey json := by
  intro same
  rw [RedisEntry.entryKey_eq] at same
  unfold redisHashTaggedPrefix redisReadModelKey at same
  have chars := congrArg String.toList same
  simp at chars

theorem amount_bound (amount : Int32) : -2 ^ 31 ≤ amount.toInt ∧ amount.toInt < 2 ^ 31 :=
  ⟨amount.minValue_le_toInt, Int.lt_of_le_of_lt amount.toInt_le (by decide)⟩

theorem operation_bound (event : CounterEvent) :
    -2 ^ 31 ≤ event.operation.2 ∧ event.operation.2 ≤ 2 ^ 31 := by
  cases event with
  | incremented amount | decremented amount | resetPerformed amount =>
    have bound := amount_bound amount
    simp only [CounterEvent.operation]
    omega

theorem luaSigned_writeInteger {number : Int} (small : number.natAbs < 2 ^ 53) :
    luaSigned (writeInteger number) = some number := by
  rw [luaSigned, writeInteger, String.toList_ofList, Decimal.signed_write, Option.map_some,
    Binary64.round_of_lt small, Int.sign_mul_natAbs]

/-- A counter moves by at most `2 ^ 31` with each event. -/
theorem total_bound (events : List CounterEvent) :
    -2 ^ 31 * (events.length : Int) ≤ total events ∧
      total events ≤ 2 ^ 31 * (events.length : Int) := by
  induction events using List.reverseRecOn with
  | nil => simp [total]
  | append_singleton events event ih =>
    rw [total_snoc, List.length_append, List.length_singleton]
    cases event with
    | incremented amount | decremented amount | resetPerformed amount =>
      have bound := amount_bound amount
      simp only [CounterEvent.exact]
      push_cast
      omega

theorem readModel_bound (aggregateId : String)
    (events : List (EventEnvelope CounterEvent String)) :
    -2 ^ 31 * (events.length : Int) ≤ (readModel aggregateId events).getD 0 ∧
      (readModel aggregateId events).getD 0 ≤ 2 ^ 31 * (events.length : Int) := by
  have bound := total_bound (eventsOf aggregateId events)
  have fewer : (eventsOf aggregateId events).length ≤ events.length := by
    rw [eventsOf, List.length_map]
    exact List.length_filter_le _ _
  rw [readModel]
  split
  · simp only [Option.getD_none]
    omega
  · simp only [Option.getD_some]
    omega

theorem eventsOf_concat (aggregateId : String) (events : List (EventEnvelope CounterEvent String))
    (event : EventEnvelope CounterEvent String) :
    eventsOf aggregateId (events ++ [event]) = eventsOf aggregateId events ++
      if event.aggregateId = aggregateId then [event.payload] else [] := by
  rw [eventsOf, List.filter_append, List.map_append, List.filter_singleton]
  by_cases own : event.aggregateId = aggregateId
  · simp [own, eventsOf]
  · simp [own, eventsOf]

theorem readModel_other {aggregateId : String} {events : List (EventEnvelope CounterEvent String)}
    {event : EventEnvelope CounterEvent String} (other : event.aggregateId ≠ aggregateId) :
    readModel aggregateId (events ++ [event]) = readModel aggregateId events := by
  rw [readModel, eventsOf_concat, if_neg other, List.append_nil, ← readModel]

theorem total_of_readModel (aggregateId : String)
    (events : List (EventEnvelope CounterEvent String)) :
    (readModel aggregateId events).getD 0 = total (eventsOf aggregateId events) := by
  rw [readModel]
  by_cases none_yet : eventsOf aggregateId events = []
  · simp [none_yet, total]
  · simp [none_yet]

theorem readModel_own (events : List (EventEnvelope CounterEvent String))
    (event : EventEnvelope CounterEvent String) :
    readModel event.aggregateId (events ++ [event]) =
      some (event.payload.exact ((readModel event.aggregateId events).getD 0)) := by
  rw [total_of_readModel, readModel, eventsOf_concat, if_pos rfl, if_neg (by simp), total_snoc]

variable {db : KeySpace} {events : List (EventEnvelope CounterEvent String)}
  {event : EventEnvelope CounterEvent String} {sequence : Nat}

theorem Held.current (held : Held db events) (small : events.length < 2 ^ 53) :
    get (redisCheckpointKey projectionName) db =
        .ok (if events.length = 0 then none else some (Nat.repr events.length)) db ∧
      luaDouble ((if events.length = 0 then none else some (Nat.repr events.length)).getD "0") db =
        .ok events.length db := by
  refine ⟨get_ofCount held.checkpoint, ?_⟩
  have read := luaDouble_repr events.length db
  rw [Binary64.round_of_lt small] at read
  by_cases zero : events.length = 0
  · rw [if_pos zero]
    rw [zero] at read ⊢
    exact read
  · rw [if_neg zero]
    exact read

/-- The keys of a run for an event. -/
def projectionKeys (aggregateId : String) : List String :=
  [redisReadModelKey (aggregateIdJson aggregateId), redisCheckpointKey projectionName]

/-- The script compares the sequence with the checkpoint. -/
theorem projectionScript_eq (held : Held db events) (small : events.length < 2 ^ 53 - 1)
    (within : sequence < 2 ^ 53) (event : EventEnvelope CounterEvent String) :
    projectionScript sequence event db =
      (if sequence ≤ events.length then
        .ok (.array [.bytes "SKIP", .int events.length]) db
      else if sequence ≠ events.length + 1 then
        .ok (.array [.bytes "ERR", .bytes "checkpoint_gap", .int events.length]) db
      else applyOperation (projectionKeys event.aggregateId) event.payload.operation.1
        (some event.payload.operation.2) sequence events.length db) := by
  obtain ⟨stored, current⟩ := held.current (by omega)
  have read := luaDouble_repr sequence db
  rw [Binary64.round_of_lt within] at read
  have given (index : Nat) (text : String)
      (found : [Nat.repr sequence, event.payload.operation.1,
        writeInteger event.payload.operation.2][index - 1]? = some text) :=
    argument_ok found db
  have key : argument (projectionKeys event.aggregateId) 2 db =
      .ok (redisCheckpointKey projectionName) db := argument_ok rfl db
  have bound := operation_bound event.payload
  have small : event.payload.operation.2.natAbs < 2 ^ 53 := by omega
  have amount := luaSigned_writeInteger small
  have next : Binary64.round (events.length + 1) = events.length + 1 :=
    Binary64.round_of_lt (by omega)
  show counterProjectionLua (projectionKeys event.aggregateId) _ db = _
  rw [counterProjectionLua, bind_ok (given 1 _ rfl), bind_ok read, bind_ok (given 2 _ rfl),
    bind_ok (given 3 _ rfl), bind_ok key, bind_ok stored, bind_ok current, amount, next]
  by_cases passed : sequence ≤ events.length
  · rw [if_pos passed, if_pos passed]
    rfl
  · rw [if_neg passed, if_neg passed]
    by_cases gap : sequence ≠ events.length + 1
    · rw [if_pos gap, if_pos gap]
      rfl
    · rw [if_neg gap, if_neg gap]

/-- Elsewhere a run changes nothing. -/
def Elsewhere (before after : KeySpace) : Prop :=
  ∀ key, key ≠ redisCheckpointKey projectionName →
    (∀ json, key ≠ redisReadModelKey json) → after key = before key

/-- The key space once the model of the event's counter and the checkpoint are written. -/
theorem Held.written (held : Held db events) (event : EventEnvelope CounterEvent String) :
    Held (Function.update
        (Function.update db (redisReadModelKey (aggregateIdJson event.aggregateId))
          (ofInteger (readModel event.aggregateId (events ++ [event]))))
        (redisCheckpointKey projectionName)
        (some (.string (Nat.repr (events.length + 1))))) (events ++ [event]) where
  checkpoint := by
    rw [Function.update_self, List.length_append, List.length_singleton,
      ofCount_pos (Nat.succ_pos _)]
    rfl
  models aggregateId := by
    rw [Function.update_of_ne (readModelKey_ne_checkpointKey _ _), Function.update_apply]
    by_cases own : aggregateId = event.aggregateId
    · rw [if_pos (by rw [own]), own]
    · rw [if_neg (fun same => own (aggregateIdJson_inj (redisReadModelKey_inj same))),
        held.models, readModel_other (Ne.symm own)]

theorem elsewhere_written (json : String) (model checkpoint : Option Object) :
    Elsewhere db (Function.update (Function.update db (redisReadModelKey json) model)
      (redisCheckpointKey projectionName) checkpoint) := by
  intro key notCheckpoint notModel
  rw [Function.update_of_ne notCheckpoint, Function.update_of_ne (notModel json)]

theorem applyOperation_incr {aggregateId : String} {amount value : Int} {moved : KeySpace}
    (current : Nat) (ran : incrby (redisReadModelKey (aggregateIdJson aggregateId))
      (writeInteger amount) db = .ok value moved) :
    applyOperation (projectionKeys aggregateId) "incr" (some amount) sequence current db =
      .ok (.array [.bytes "OK", .int sequence])
        (Function.update moved (redisCheckpointKey projectionName)
          (some (.string (Nat.repr sequence)))) := by
  have model : argument (projectionKeys aggregateId) 1 db =
      .ok (redisReadModelKey (aggregateIdJson aggregateId)) db := argument_ok rfl db
  have given : luaArgument (some amount) db = .ok (writeInteger amount) db := rfl
  rw [applyOperation, if_pos rfl, bind_ok model, bind_ok given, bind_ok ran]
  rfl

theorem applyOperation_set (aggregateId : String) (amount : Int) (sequence current : Nat) :
    applyOperation (projectionKeys aggregateId) "set" (some amount) sequence current db =
      .ok (.array [.bytes "OK", .int sequence])
        (Function.update
          (Function.update db (redisReadModelKey (aggregateIdJson aggregateId))
            (ofInteger (some amount)))
          (redisCheckpointKey projectionName) (some (.string (Nat.repr sequence)))) := by
  have model : argument (projectionKeys aggregateId) 1 db =
      .ok (redisReadModelKey (aggregateIdJson aggregateId)) db := argument_ok rfl db
  have given : luaArgument (some amount) db = .ok (writeInteger amount) db := rfl
  rw [applyOperation, if_neg (by decide), if_pos rfl, bind_ok model, bind_ok given]
  rfl

/-- The next event of the feed is taken in. -/
theorem applyOperation_next (held : Held db events) (small : events.length < 2 ^ 31)
    (event : EventEnvelope CounterEvent String) :
    applyOperation (projectionKeys event.aggregateId) event.payload.operation.1
        (some event.payload.operation.2) (events.length + 1) events.length db =
      .ok (.array [.bytes "OK", .int (events.length + 1 : Nat)])
        (Function.update
          (Function.update db (redisReadModelKey (aggregateIdJson event.aggregateId))
            (ofInteger (readModel event.aggregateId (events ++ [event]))))
          (redisCheckpointKey projectionName)
          (some (.string (Nat.repr (events.length + 1))))) := by
  have bound := readModel_bound event.aggregateId events
  have moved (amount : Int) (fits : -2 ^ 31 ≤ amount ∧ amount ≤ 2 ^ 31) :
      incrby (redisReadModelKey (aggregateIdJson event.aggregateId)) (writeInteger amount) db =
        .ok ((readModel event.aggregateId events).getD 0 + amount) (Function.update db _
          (ofInteger (some ((readModel event.aggregateId events).getD 0 + amount)))) :=
    incrby_ofInteger (held.models event.aggregateId)
      (by constructor <;> omega) (by constructor <;> omega) (by constructor <;> omega)
  have amounts := operation_bound event.payload
  rw [readModel_own]
  generalize (readModel event.aggregateId events).getD 0 = value at moved
  cases payload : event.payload with
  | incremented amount =>
    rw [payload] at amounts
    exact applyOperation_incr _ (moved amount.toInt amounts)
  | decremented amount =>
    rw [payload] at amounts
    have ran := moved (-amount.toInt) amounts
    rw [← Int.sub_eq_add_neg] at ran
    exact applyOperation_incr _ ran
  | resetPerformed amount => exact applyOperation_set _ _ _ _

/-- A run for an event at or below the checkpoint changes nothing, and one for the next event
takes it in. Both are told as done. -/
theorem projectionScript_done (held : Held db events) (small : events.length < 2 ^ 31)
    (event : EventEnvelope CounterEvent String) (next : sequence ≤ events.length + 1) :
    ∃ reply after, projectionScript sequence event db = .ok (.array reply) after ∧
      ensureRedisProjectionResult (.array reply) = .ok () ∧ Elsewhere db after ∧
      ((sequence ≤ events.length ∧ after = db) ∨
        (sequence = events.length + 1 ∧ Held after (events ++ [event]))) := by
  rw [projectionScript_eq held (by omega) (by omega)]
  by_cases passed : sequence ≤ events.length
  · rw [if_pos passed]
    exact ⟨_, db, rfl, rfl, fun _ _ _ => rfl, .inl ⟨passed, rfl⟩⟩
  · have exactly : sequence = events.length + 1 := by omega
    subst exactly
    rw [if_neg passed, if_neg (by simp), applyOperation_next held small]
    exact ⟨_, _, rfl, rfl, elsewhere_written _ _ _, .inr ⟨rfl, held.written event⟩⟩

end DddCqrsEs.CounterApp
