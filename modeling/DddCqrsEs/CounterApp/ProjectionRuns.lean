import DddCqrsEs.CounterApp.ProjectionScript
import DddCqrsEs.RedisFeed

/- Runs of the counter's read model in Redis: clients append events while any number of
runners go through their passes, call by call. -/
namespace DddCqrsEs.CounterApp

open RedisServer Transition

/-- The app's event store, under the library's default prefix. -/
def counterEventStore (codec : RowCodec counter) (reader : RowReader counter) :
    RedisEventStore counter :=
  ⟨defaultRedisPrefix, codec, reader⟩

/-- Where a pass stands: before it, behind the read of the checkpoint, or with events that are
still to be applied. -/
inductive RunnerStage where
  | idle
  | loaded (checkpoint : Option Nat)
  | applying (rest : List (EventEnvelope CounterEvent String))

structure CounterWorld where
  db : KeySpace
  runners : Nat → RunnerStage

inductive CounterStep where
  | append (delivery : Delivery) (aggregateId : String) (expectedRevision : ExpectedRevision)
      (events : List (NewEvent CounterEvent × Stamp))
  | loadCheckpoint (runner : Nat)
  | loadEvents (runner : Nat)
  | apply (runner : Nat) (delivery : Delivery)
  | stop (runner : Nat)

/-- A call that fails ends the pass. -/
def RunnerStage.afterCheckpoint : Except String (Option Nat) → RunnerStage
  | .ok checkpoint => .loaded checkpoint
  | .error _ => .idle

def RunnerStage.afterEvents :
    Except EventStoreError (List (EventEnvelope CounterEvent String)) → RunnerStage
  | .ok events => .applying events
  | .error _ => .idle

def RunnerStage.afterApply (rest : List (EventEnvelope CounterEvent String)) :
    Except String Unit → RunnerStage
  | .ok () => .applying rest
  | .error _ => .idle

def CounterWorld.enter (world : CounterWorld) (runner : Nat) (stage : RunnerStage) : CounterWorld :=
  { world with runners := Function.update world.runners runner stage }

/-- The server starts empty. An append keeps sequences below `10 ^ 14` and event versions
below `2 ^ 32`. -/
def counterProjections (client : RedisClient) (codec : RowCodec counter)
    (reader : RowReader counter) : Machine CounterWorld CounterStep where
  start world := world = ⟨fun _ => none, fun _ => .idle⟩
  step world
    | .append delivery aggregateId expectedRevision events =>
      let store := counterEventStore codec reader
      if (⟨counter, store, delivery, aggregateId, expectedRevision, events⟩ : RedisCall).Fits
          world.db then
        some { world with
          db := (store.appendOver client world.db delivery aggregateId expectedRevision events).2 }
      else none
    | .loadCheckpoint runner =>
      match world.runners runner with
      | .idle => some (world.enter runner (.afterCheckpoint (loadCheckpoint client world.db)))
      | _ => none
    | .loadEvents runner =>
      match world.runners runner with
      | .loaded checkpoint =>
        let ports := projectionPorts client (counterEventStore codec reader)
        some (world.enter runner (.afterEvents (ports.loadGlobalAfterLimited checkpoint
          counterProjectionBatchLimit.batchSize world.db).1))
      | _ => none
    | .apply runner delivery =>
      match world.runners runner with
      | .applying (event :: rest) =>
        let (result, db) :=
          applyRedisCounterProjectionAtomically client delivery event world.db
        some (CounterWorld.enter ⟨db, world.runners⟩ runner (.afterApply rest result))
      | _ => none
    | .stop runner => some (world.enter runner .idle)

variable (reader : RowReader counter)

def Decoded (rows : List StoredEventRow) (events : List (EventEnvelope CounterEvent String)) :
    Prop :=
  List.Forall₂ (fun row event => reader.envelopeFromStoredRow row = .ok event) rows events

/-- The read models hold the first events of the stored feed, a batch of them at most. -/
structure Projected (db : KeySpace) (table : EventsTable)
    (events : List (EventEnvelope CounterEvent String)) : Prop extends Held db events where
  stored : Represents defaultRedisPrefix db table
  bounded : Bounded table
  taken : Decoded reader (table.rows.take events.length) events
  few : events.length ≤ counterProjectionBatchSize
  unset : db (defaultRedisPrefix.checkpointKey projectionName) = none

/-- A runner has read no checkpoint, and it is never ahead of the checkpoint of the script. -/
def RunnerStage.Ready (table : EventsTable) (count : Nat) : RunnerStage → Prop
  | .idle => True
  | .loaded checkpoint => checkpoint = none
  | .applying rest => ∃ start size, start ≤ count ∧ size ≤ counterProjectionBatchSize ∧
      size ≤ table.rows.length ∧ Decoded reader ((table.rows.take size).drop start) rest

def CounterWorld.Sound (world : CounterWorld) : Prop :=
  ∃ table events, Projected reader world.db table events ∧
    ∀ runner, (world.runners runner).Ready reader table events.length

variable {reader} {client : RedisClient} {codec : RowCodec counter} {db after : KeySpace}
  {table : EventsTable} {events : List (EventEnvelope CounterEvent String)}

/-- A table that goes on leaves the pages read before as they are. -/
theorem RunnerStage.Ready.extend {later : EventsTable} {count more : Nat} {stage : RunnerStage}
    (ready : stage.Ready reader table count) (grown : table.rows <+: later.rows)
    (further : count ≤ more) : stage.Ready reader later more := by
  cases stage with
  | idle => trivial
  | loaded checkpoint => exact ready
  | applying rest =>
    obtain ⟨start, size, behind, limited, inside, decoded⟩ := ready
    obtain ⟨added, same⟩ := grown
    refine ⟨start, size, by omega, limited, ?_, ?_⟩
    · rw [← same, List.length_append]
      omega
    · rw [← same, List.take_append_of_le_length inside]
      exact decoded

theorem Projected.length_le (projected : Projected reader db table events) :
    events.length ≤ table.rows.length := by
  have same := projected.taken.length_eq
  rw [List.length_take] at same
  omega

theorem Projected.append (projected : Projected reader db table events)
    (delivery : Delivery) (aggregateId : String) (expectedRevision : ExpectedRevision)
    (added : List (NewEvent CounterEvent × Stamp))
    (fits : RedisCall.Fits ⟨counter, counterEventStore codec reader, delivery, aggregateId,
      expectedRevision, added⟩ db) :
    ∃ later, table.rows <+: later.rows ∧ Projected reader
      ((counterEventStore codec reader).append db delivery aggregateId expectedRevision added).2
      later events := by
  rcases (counterEventStore codec reader).append_cases projected.stored delivery aggregateId
    expectedRevision added with
    ⟨same, _⟩ | ⟨keys, prepared, _, readied, _, represented, frame, _⟩
  · rw [same]
    exact ⟨table, List.prefix_rfl, projected⟩
  · have room : table.lastSequence + added.length < 10 ^ 14 := by
      rw [← counterOf_ofCount projected.stored.sequence]
      exact fits.1
    have entry (entry : RedisEntry) (name : RedisKey)
        (other : entry ≠ .events name) : defaultRedisPrefix.entryKey entry ≠
          (counterEventStore codec reader).keyPrefix.key name := by
      intro same
      exact other (RedisPrefix.entryKey_inj (same : _ = defaultRedisPrefix.entryKey _)).2
    refine ⟨_, List.prefix_append _ _, ⟨?_, ?_⟩, represented,
      projected.bounded.extend readied room fits.2 _, ?_, projected.few, ?_⟩
    · rw [frame _ (fun name same => entryKey_ne_checkpointKey _ (.events name) _ same.symm)]
      exact projected.checkpoint
    · intro other
      rw [frame _ (fun name same => entryKey_ne_readModelKey _ (.events name) _ same.symm)]
      exact projected.models other
    · show Decoded reader ((table.rows ++ _).take _) _
      rw [List.take_append_of_le_length projected.length_le]
      exact projected.taken
    · exact (frame _ (entry (.checkpoint projectionName) · (by simp))).trans projected.unset

variable {event : EventEnvelope CounterEvent String} {start size : Nat}
  {rest : List (EventEnvelope CounterEvent String)} {world : CounterWorld}
  {rows : List StoredEventRow}

/-- A run of the script for the next event keeps the store as it is. -/
theorem Projected.next (projected : Projected reader db table events) {row : StoredEventRow}
    (listed : table.rows[events.length]? = some row)
    (decoded : reader.envelopeFromStoredRow row = .ok event)
    (room : events.length < counterProjectionBatchSize) (held : Held after (events ++ [event]))
    (elsewhere : Elsewhere db after) : Projected reader after table (events ++ [event]) where
  toHeld := held
  stored := projected.stored.congr fun name => elsewhere _
    (entryKey_ne_checkpointKey _ (.events name) _) (entryKey_ne_readModelKey _ (.events name))
  bounded := projected.bounded
  taken := by
    have front : table.rows.take (events ++ [event]).length =
        table.rows.take events.length ++ [row] := by
      rw [List.length_append, List.length_singleton, List.take_add_one, listed]
      rfl
    rw [front]
    exact List.rel_append projected.taken (.cons decoded .nil)
  few := by
    rw [List.length_append, List.length_singleton]
    exact room
  unset := (elsewhere _ (entryKey_ne_checkpointKey _ (.checkpoint projectionName) _)
    (entryKey_ne_readModelKey _ (.checkpoint projectionName))).trans projected.unset

/-- The library's checkpoint store reads under a key that nobody writes. -/
theorem Projected.loadCheckpoint (projected : Projected reader db table events)
    (shaped : client.Shaped) : loadCheckpoint client db = .ok none := by
  have reply : execute (getReply (defaultRedisPrefix.checkpointKey projectionName)) db =
      .ok .nil := by
    have nothing : get (defaultRedisPrefix.checkpointKey projectionName) db = .ok none db := by
      rw [RedisServer.get, projected.unset]
    apply execute_ok
    rw [getReply, bind_ok nothing]
    rfl
  rw [CounterApp.loadCheckpoint, shaped.loadCheckpoint_eq, RedisCheckpointStore.loadCheckpoint,
    bind_of_ok reply]
  rfl

/-- From no checkpoint, a load covers the first rows. -/
theorem Projected.loadEvents (projected : Projected reader db table events)
    (shaped : client.Shaped) (codec : RowCodec counter) :
    ((projectionPorts client (counterEventStore codec reader)).loadGlobalAfterLimited none
        counterProjectionBatchSize db).1 =
      (table.rows.take counterProjectionBatchSize).mapM reader.envelopeFromStoredRow := by
  have all : table.rows.filter (fun row => 0 < row.sequence) = table.rows := by
    rw [List.filter_eq_self]
    intro row member
    exact decide_eq_true (projected.stored.toIndexed.row_sequence member).1
  show (counterEventStore codec reader).loadGlobalOver client _ db none _ = _
  rw [shaped.loadGlobal_eq, (counterEventStore codec reader).loadGlobal_rows _ projected.stored
    projected.bounded]
  show (List.take _ (table.rows.filter (fun row => 0 < row.sequence))).mapM _ = _
  rw [all]
  rfl

theorem Projected.page (projected : Projected reader db table events) (shaped : client.Shaped)
    (codec : RowCodec counter) :
    (RunnerStage.afterEvents ((projectionPorts client
      (counterEventStore codec reader)).loadGlobalAfterLimited none counterProjectionBatchSize
        db).1).Ready reader table events.length := by
  rw [projected.loadEvents shaped codec]
  cases read : (table.rows.take counterProjectionBatchSize).mapM reader.envelopeFromStoredRow with
  | error error => trivial
  | ok page =>
    refine ⟨0, min counterProjectionBatchSize table.rows.length, Nat.zero_le _,
      Nat.min_le_left _ _, Nat.min_le_right _ _, ?_⟩
    rw [List.drop_zero, ← List.take_eq_take_min]
    exact forall₂_of_mapM_ok read

/-- A row's place is its sequence less one. -/
theorem Projected.place (projected : Projected reader db table events)
    (decoded : Decoded reader ((table.rows.take size).drop start) (event :: rest)) :
    ∃ row, table.rows[start]? = some row ∧ reader.envelopeFromStoredRow row = .ok event ∧
      event.sequence = some (start + 1) ∧ start < size ∧
      Decoded reader ((table.rows.take size).drop (start + 1)) rest := by
  obtain ⟨row, others, first, later, listed⟩ := List.forall₂_cons_right_iff.mp decoded
  have found : (table.rows.take size)[start]? = some row := by
    rw [← List.head?_drop, listed]
    rfl
  have inside := (List.getElem?_eq_some_iff.mp found).1
  rw [List.length_take] at inside
  have here : table.rows[start]? = some row := by
    rwa [List.getElem?_take_of_lt (by omega)] at found
  have number : (table.rows.map (·.sequence))[start]? = some row.sequence := by
    rw [List.getElem?_map, here]
    rfl
  rw [projected.stored.sequences, List.getElem?_range' (by
    rw [← projected.stored.toIndexed.length]
    omega)] at number
  have tail : others = (table.rows.take size).drop (start + 1) := by
    rw [← List.tail_drop, listed]
    rfl
  refine ⟨row, here, first, ?_, by omega, tail ▸ later⟩
  rw [(RowReader.envelopeFromStoredRow_ok first).2.2.2, ← Option.some.inj number]
  congr 1
  omega

/-- Applying the next event of a page is done, whatever the others have applied since. Where it
gets lost on its way or its answer does, the read models still hold a front of the feed. -/
theorem Projected.apply (projected : Projected reader db table events) (shaped : client.Shaped)
    (delivery : Delivery) (behind : start ≤ events.length)
    (limited : size ≤ counterProjectionBatchSize)
    (decoded : Decoded reader ((table.rows.take size).drop start) (event :: rest)) :
    ∃ result after held, applyRedisCounterProjectionAtomically client delivery event db =
        (result, after) ∧
      Projected reader after table held ∧ events <+: held ∧
      (result = .ok () → start + 1 ≤ held.length) ∧ (delivery = .answered → result = .ok ()) := by
  obtain ⟨row, here, first, number, inside, _⟩ := projected.place decoded
  have few := projected.few
  have batch : counterProjectionBatchSize = 128 := rfl
  obtain ⟨reply, ran, scripted, done, elsewhere, cases⟩ := projectionScript_done
    projected.toHeld (by omega) event (show start + 1 ≤ events.length + 1 by omega)
  have taken : ∃ held, Projected reader ran table held ∧ events <+: held ∧
      start + 1 ≤ held.length := by
    rcases cases with ⟨passed, same⟩ | ⟨exactly, held⟩
    · exact ⟨events, same ▸ projected, List.prefix_rfl, passed⟩
    · have place : start = events.length := by omega
      subst place
      refine ⟨events ++ [event], projected.next here first (by omega) held elsewhere,
        List.prefix_append _ _, ?_⟩
      rw [List.length_append, List.length_singleton]
  rw [applyRedisCounterProjectionAtomically, number]
  have after : afterScript (projectionScript (start + 1) event) db = ran := by
    rw [afterScript, scripted]
  obtain ⟨held, holds, onward, reached⟩ := taken
  cases delivery with
  | answered =>
    have answer : client.execute (projectionScript (start + 1) event) db =
        .ok (.array reply) := by
      rw [RedisClient.execute, execute_ok scripted]
      exact congrArg Except.ok (shaped.array reply)
    refine ⟨.ok (), ran, held, ?_, holds, onward, fun _ => reached, fun _ => rfl⟩
    simp only [RedisClient.write, answer, after]
    exact congrArg (·, ran) done
  | lost error =>
    refine ⟨_, db, events, rfl, projected, List.prefix_rfl, ?_, ?_⟩
    · intro succeeded
      cases succeeded
    · intro delivered
      cases delivered
  | unanswered error =>
    refine ⟨.error error.display, ran, held, ?_, holds, onward, ?_, ?_⟩
    · simp only [RedisClient.write, after]
      rfl
    · intro succeeded
      cases succeeded
    · intro delivered
      cases delivered

theorem CounterWorld.enter_self (world : CounterWorld) (runner : Nat) (stage : RunnerStage) :
    (world.enter runner stage).runners runner = stage := Function.update_self ..

theorem CounterWorld.enter_other (world : CounterWorld) {runner other : Nat} (stage : RunnerStage)
    (differ : other ≠ runner) : (world.enter runner stage).runners other = world.runners other :=
  Function.update_of_ne differ ..

theorem CounterWorld.Sound.enter (sound : world.Sound reader) (runner : Nat) (stage : RunnerStage)
    (ready : ∀ table events, Projected reader world.db table events →
      stage.Ready reader table events.length) : (world.enter runner stage).Sound reader := by
  obtain ⟨table, events, projected, others⟩ := sound
  refine ⟨table, events, projected, fun other => ?_⟩
  by_cases same : other = runner
  · subst same
    rw [CounterWorld.enter_self]
    exact ready table events projected
  · rw [CounterWorld.enter_other world stage same]
    exact others other

theorem CounterWorld.Sound.append (sound : world.Sound reader) (shaped : client.Shaped)
    (delivery : Delivery) (aggregateId : String) (expectedRevision : ExpectedRevision)
    (added : List (NewEvent CounterEvent × Stamp))
    (fits : RedisCall.Fits ⟨counter, counterEventStore codec reader, delivery, aggregateId,
      expectedRevision, added⟩ world.db) :
    CounterWorld.Sound reader { world with db := ((counterEventStore codec reader).appendOver client
      world.db delivery aggregateId expectedRevision added).2 } := by
  obtain ⟨table, events, projected, ready⟩ := sound
  obtain ⟨later, grown, extended⟩ :=
    projected.append delivery aggregateId expectedRevision added fits
  rw [shaped.append_eq]
  exact ⟨later, events, extended, fun runner => (ready runner).extend grown (Nat.le_refl _)⟩

theorem CounterWorld.Sound.apply (sound : world.Sound reader) (shaped : client.Shaped)
    (runner : Nat) (delivery : Delivery)
    (applying : world.runners runner = .applying (event :: rest)) {result : Except String Unit}
    {db : KeySpace}
    (ran : applyRedisCounterProjectionAtomically client delivery event world.db = (result, db)) :
    (CounterWorld.enter ⟨db, world.runners⟩ runner (.afterApply rest result)).Sound reader := by
  obtain ⟨table, events, projected, ready⟩ := sound
  have own := ready runner
  rw [applying] at own
  obtain ⟨start, size, behind, limited, inside, decoded⟩ := own
  obtain ⟨told, after, held, same, holds, onward, reached, _⟩ :=
    projected.apply shaped delivery behind limited decoded
  rw [ran] at same
  cases same
  refine ⟨table, held, holds, fun other => ?_⟩
  by_cases own : other = runner
  · subst own
    rw [CounterWorld.enter_self]
    cases result with
    | error error => trivial
    | ok done =>
      obtain ⟨_, _, _, _, _, later⟩ := projected.place decoded
      exact ⟨start + 1, size, reached rfl, limited, inside, later⟩
  · rw [CounterWorld.enter_other _ _ own]
    exact (ready other).extend List.prefix_rfl onward.length_le

theorem counterProjections_step (shaped : client.Shaped) {next : CounterWorld} {step : CounterStep}
    (sound : world.Sound reader)
    (stepped : (counterProjections client codec reader).step world step = some next) :
    next.Sound reader := by
  cases step with
  | append delivery aggregateId expectedRevision added =>
    simp only [counterProjections] at stepped
    split at stepped
    · rename_i fits
      cases stepped
      exact sound.append shaped delivery aggregateId expectedRevision added fits
    · cases stepped
  | loadCheckpoint runner =>
    simp only [counterProjections] at stepped
    split at stepped <;> cases stepped
    apply sound.enter runner
    intro table events projected
    rw [projected.loadCheckpoint shaped]
    rfl
  | loadEvents runner =>
    simp only [counterProjections] at stepped
    split at stepped <;> cases stepped
    rename_i checkpoint stage
    have unread : checkpoint = none := by
      obtain ⟨_, _, _, ready⟩ := sound
      have own := ready runner
      rwa [stage] at own
    subst unread
    apply sound.enter runner
    intro table events projected
    exact projected.page shaped codec
  | apply runner delivery =>
    simp only [counterProjections] at stepped
    split at stepped <;> cases stepped
    rename_i event rest applying
    exact sound.apply shaped runner delivery applying rfl
  | stop runner =>
    cases stepped
    exact sound.enter runner .idle fun _ _ _ => trivial

theorem counterProjections_sound (shaped : client.Shaped)
    (reached : (counterProjections client codec reader).Reachable world) : world.Sound reader := by
  refine Machine.invariant (I := CounterWorld.Sound reader) ?_ ?_ reached
  · rintro first rfl
    refine ⟨.empty, [], ⟨⟨rfl, fun _ => rfl⟩, empty_represents _, ⟨by decide, ?_, ?_⟩, .nil,
      Nat.zero_le _, rfl⟩, fun _ => trivial⟩
    · simp [EventsTable.empty]
    · simp [EventsTable.empty]
  · intro first step second _ sound stepped
    exact counterProjections_step shaped sound stepped

/-- However appends and passes interleave, and whatever gets lost or ends on the way: the read
model of every counter is the total of its events among the first `count` of the feed, each of
them applied once and in order, and no runner is ever told of a gap. But `count` stays at one
batch for good, as the passes read their checkpoint under the key with the hash tag, which the
script never writes: every pass starts from the first event again. -/
theorem atomicProjection_exact (client : RedisClient) (shaped : client.Shaped)
    (codec : RowCodec counter) (reader : RowReader counter) (world : CounterWorld)
    (reached : (counterProjections client codec reader).Reachable world) :
    ∃ table events, Represents defaultRedisPrefix world.db table ∧
      Decoded reader (table.rows.take events.length) events ∧ events.length ≤ 128 ∧
      world.db (redisCheckpointKey projectionName) = ofCount events.length ∧
      (∀ aggregateId, world.db (redisReadModelKey (aggregateIdJson aggregateId)) =
        ofInteger (readModel aggregateId events)) ∧
      loadCheckpoint client world.db = .ok none ∧
      ∀ runner event rest, world.runners runner = .applying (event :: rest) →
        (applyRedisCounterProjectionAtomically client .answered event world.db).1 = .ok () := by
  obtain ⟨table, events, projected, ready⟩ := counterProjections_sound shaped reached
  refine ⟨table, events, projected.stored, projected.taken, projected.few, projected.checkpoint,
    projected.models, projected.loadCheckpoint shaped, ?_⟩
  intro runner event rest applying
  have own := ready runner
  rw [applying] at own
  obtain ⟨start, size, behind, limited, _, decoded⟩ := own
  obtain ⟨result, after, _, ran, _, _, _, answered⟩ :=
    projected.apply shaped .answered behind limited decoded
  rw [ran]
  exact answered rfl

theorem Projected.applyBatch (projected : Projected reader db table events) (shaped : client.Shaped)
    (codec : RowCodec counter) (behind : start ≤ events.length)
    (limited : size ≤ counterProjectionBatchSize)
    (decoded : Decoded reader ((table.rows.take size).drop start) rest) :
    ∃ after held, (projectionPorts client (counterEventStore codec reader)).applyBatchAndCheckpoint
        rest db = (.ok (), after) ∧
      Projected reader after table held ∧ start + rest.length ≤ held.length := by
  induction rest generalizing start db events with
  | nil => exact ⟨db, events, rfl, projected, behind⟩
  | cons event rest ih =>
    obtain ⟨result, between, held, ran, holds, onward, reached, answered⟩ :=
      projected.apply shaped .answered behind limited decoded
    have done := answered rfl
    subst done
    obtain ⟨_, _, _, _, _, later⟩ := projected.place decoded
    obtain ⟨after, final, applied, finished, counted⟩ := ih holds (reached rfl) later
    refine ⟨after, final, ?_, finished, ?_⟩
    · have first : (projectionPorts client (counterEventStore codec reader)).applyAndCheckpoint
          event db = (.ok (), between) := ran
      rw [OwnedPorts.applyBatchAndCheckpoint, first]
      exact applied
    · rw [List.length_cons]
      omega

theorem decoded_unique {first second : List (EventEnvelope CounterEvent String)}
    (one : Decoded reader rows first) (other : Decoded reader rows second) : first = second := by
  induction one generalizing second with
  | nil =>
    cases other
    rfl
  | cons decoded _ ih =>
    cases other with
    | cons again rest =>
      rw [Except.ok.inj (decoded.symm.trans again), ih rest]

theorem mapM_of_decoded {page : List (EventEnvelope CounterEvent String)}
    (decoded : Decoded reader rows page) : rows.mapM reader.envelopeFromStoredRow = .ok page := by
  induction decoded with
  | nil => rfl
  | cons first _ ih =>
    rw [List.mapM_cons, bind_of_ok first, bind_of_ok ih]
    rfl

/-- A pass brings the read models to the end of the first page, and counts all its events. -/
theorem Projected.pass (projected : Projected reader db table events) (shaped : client.Shaped)
    (codec : RowCodec counter) {page : List (EventEnvelope CounterEvent String)}
    (decoded : Decoded reader (table.rows.take counterProjectionBatchSize) page) :
    ∃ after, runRedisCounterProjectionAtomic client (counterEventStore codec reader) db =
      (.ok page.length, after) ∧ Held after page := by
  have handed := projected.loadEvents shaped codec
  rw [mapM_of_decoded decoded] at handed
  obtain ⟨after, held, applied, finished, counted⟩ := projected.applyBatch shaped codec
    (Nat.zero_le _) (Nat.le_refl counterProjectionBatchSize) (show Decoded reader
      ((table.rows.take counterProjectionBatchSize).drop 0) page from decoded)
  have whole : held = page := by
    have few := finished.few
    have inside := finished.length_le
    have size := decoded.length_eq
    rw [List.length_take] at size
    have same : table.rows.take held.length = table.rows.take counterProjectionBatchSize := by
      rw [List.take_eq_take_iff]
      omega
    exact decoded_unique (same ▸ finished.taken) decoded
  refine ⟨after, ?_, whole ▸ finished.toHeld⟩
  have loaded : (projectionPorts client (counterEventStore codec reader)).loadCheckpoint db =
      (.ok none, db) := congrArg (·, db) (projected.loadCheckpoint shaped)
  have read : (projectionPorts client (counterEventStore codec reader)).loadGlobalAfterLimited
      none counterProjectionBatchLimit.batchSize db = (.ok page, db) := congrArg (·, db) handed
  have ran := OwnedPorts.runOwnedCheckpointProjectionBatch_ok loaded read applied
  rw [runRedisCounterProjectionAtomic, OwnedPorts.runBatchAsync_eq, ran]
  rfl

theorem inI64_of_bounds {number : Int} (lower : -2 ^ 63 ≤ number) (upper : number < 2 ^ 63) :
    inI64 number = true := by
  cases number with
  | ofNat number =>
    rw [Int.ofNat_eq_natCast] at upper
    apply decide_eq_true
    rw [i64Max]
    omega
  | negSucc number =>
    apply decide_eq_true
    rw [i64Max]
    omega

/-- The count of the page is the total of the counter's events; none is a zero. -/
theorem Held.getCountDb (held : Held db events) (shaped : client.Shaped)
    (small : events.length < 2 ^ 31) :
    getCountDb client db = .ok ((i32TryFrom (total (eventsOf "global" events))).getD 0) := by
  have read := get_ofInteger (held.models "global")
  have bound := readModel_bound "global" events
  have summed := total_of_readModel "global" events
  have value (text : RedisValue) (scalar : ∀ items, text ≠ .array items) :
      redisValueAsI64 (client.reply text) = redisValueAsI64 text := by
    rcases shaped.scalar text scalar with same | listed
    · rw [same]
    · rw [listed, redisValueAsI64]
  cases model : readModel "global" events with
  | none =>
    rw [model] at read summed
    have reply : execute (getReply (redisReadModelKey (aggregateIdJson "global"))) db =
        .ok .nil := by
      apply execute_ok
      rw [getReply, bind_ok read]
      rfl
    rw [CounterApp.getCountDb, RedisClient.execute, reply, ← summed]
    simp only [Except.map]
    rw [value .nil (by simp)]
    rfl
  | some number =>
    rw [model] at read summed bound
    have reply : execute (getReply (redisReadModelKey (aggregateIdJson "global"))) db =
        .ok (.bytes (writeInteger number)) := by
      apply execute_ok
      rw [getReply, bind_ok read]
      rfl
    have parsed : parseSigned (writeInteger number) = .ok number := by
      apply (parseSigned_integerText number number).mpr
      simp only [Option.getD_some] at bound
      exact ⟨rfl, inI64_of_bounds (by omega) (by omega)⟩
    rw [CounterApp.getCountDb, RedisClient.execute, reply, ← summed]
    simp only [Except.map]
    rw [value (.bytes _) (by simp), redisValueAsI64, parsed]
    rfl

/-- Whatever happened before, a pass that nothing disturbs brings the read models to the end of
the first page of the feed and no further, reports every event of that page as applied, and the
page shows the total of the counter's events in it. -/
theorem atomicProjection_pass (client : RedisClient) (shaped : client.Shaped)
    (codec : RowCodec counter) (reader : RowReader counter) (world : CounterWorld)
    (reached : (counterProjections client codec reader).Reachable world) :
    ∃ table, Represents defaultRedisPrefix world.db table ∧
      ∀ page, Decoded reader (table.rows.take 128) page → ∃ after,
        runRedisCounterProjectionAtomic client (counterEventStore codec reader) world.db =
          (.ok page.length, after) ∧
        after (redisCheckpointKey projectionName) = ofCount page.length ∧
        (∀ aggregateId, after (redisReadModelKey (aggregateIdJson aggregateId)) =
          ofInteger (readModel aggregateId page)) ∧
        getCountDb client after =
          .ok ((i32TryFrom (total (eventsOf "global" page))).getD 0) := by
  obtain ⟨table, events, projected, _⟩ := counterProjections_sound shaped reached
  refine ⟨table, projected.stored, fun page decoded => ?_⟩
  obtain ⟨after, ran, held⟩ := projected.pass shaped codec decoded
  have few := decoded.length_eq
  rw [List.length_take] at few
  exact ⟨after, ran, held.checkpoint, held.models, held.getCountDb shaped (by omega)⟩

def fiveCodec : RowCodec counter where
  idValue id := .ok (.string id)
  idJson := fun (id : String) => some (aggregateIdJson id)
  payloadJson _ := .ok "\x7b\"Incremented\":\x7b\"amount\":5\x7d\x7d"
  metadataJson _ := .ok "\x7b\x7d"
  envelopeFromStoredRow row :=
    .ok ⟨row.eventId, row.aggregateId, row.aggregateType, row.revision, some row.sequence,
      row.eventType, row.eventVersion, .incremented 5, .empty, row.recordedAtMs * 1000000⟩

def fiveReader : RowReader counter where
  Json := String
  fromStr text := .ok text
  deserializeId text := .ok text
  preparePayload _ version payload := .ok (version, payload)
  payloadFromValue _ := .ok (.incremented 5)
  metadataFromValue _ := .ok .empty

def fiveAppended : CounterStep :=
  .append .answered "global" .noStream [(⟨.incremented 5, "incremented", 1, .empty⟩, ⟨"e1", 0⟩)]

/-- A runner's command runs and its answer is lost; a second runner reads the event again. -/
def answerLost : List CounterStep :=
  [fiveAppended, .loadCheckpoint 0, .loadEvents 0,
    .apply 0 (.unanswered (.connection "connection reset" none)), .loadCheckpoint 1, .loadEvents 1]

def fiveProjections : Machine CounterWorld CounterStep :=
  counterProjections wasiRedisClient fiveCodec fiveReader

theorem atomicProjection_exact_answerLost :
    ∃ world events, fiveProjections.run ⟨fun _ => none, fun _ => .idle⟩ answerLost = some world ∧
      world.db (redisCheckpointKey projectionName) = ofCount events.length ∧
      ofInteger (readModel "global" events) = some (.string "5") := by
  have some_run : (fiveProjections.run ⟨fun _ => none, fun _ => .idle⟩ answerLost).isSome := rfl
  obtain ⟨world, ran⟩ := Option.isSome_iff_exists.mp some_run
  obtain ⟨table, events, _, _, _, checkpoint, models, _⟩ := atomicProjection_exact wasiRedisClient
    wasiRedisClient_shaped fiveCodec fiveReader world ((Machine.Reachable.start rfl).run ran)
  have five : (fiveProjections.run ⟨fun _ => none, fun _ => .idle⟩ answerLost).bind
      (fun world => world.db (redisReadModelKey (aggregateIdJson "global"))) =
        some (.string "5") := rfl
  rw [ran, Option.bind_some, models "global"] at five
  exact ⟨world, events, ran, checkpoint, five⟩

theorem atomicProjection_pass_five :
    ∃ world, fiveProjections.run ⟨fun _ => none, fun _ => .idle⟩ [fiveAppended] = some world ∧
      ∃ applied after, runRedisCounterProjectionAtomic wasiRedisClient
        (counterEventStore fiveCodec fiveReader) world.db = (.ok applied, after) ∧
        after (redisCheckpointKey projectionName) = ofCount applied := by
  have some_run :
      (fiveProjections.run ⟨fun _ => none, fun _ => .idle⟩ [fiveAppended]).isSome := rfl
  obtain ⟨world, ran⟩ := Option.isSome_iff_exists.mp some_run
  obtain ⟨table, _, passes⟩ := atomicProjection_pass wasiRedisClient wasiRedisClient_shaped
    fiveCodec fiveReader world ((Machine.Reachable.start rfl).run ran)
  have readable : ∀ row ∈ table.rows.take 128,
      ∃ event, fiveReader.envelopeFromStoredRow row = .ok event := fun _ _ => ⟨_, rfl⟩
  obtain ⟨page, _, decoded⟩ := decodes_of_forall readable
  obtain ⟨after, passed, checkpoint, _⟩ := passes page decoded
  exact ⟨world, ran, page.length, after, passed, checkpoint⟩

end DddCqrsEs.CounterApp
