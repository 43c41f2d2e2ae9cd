import DddCqrsEs.Paging
import DddCqrsEs.RedisInvariant

/- What the paged and chunked reads return on a consistent key space: the rows of the index
above the cursor, as far as the limit allows. -/
namespace DddCqrsEs

open RedisServer

variable {digits : List Char} {items : List (Nat × Nat)} {α : Type} {db : KeySpace}
  {indexKey : String} {hash : RedisHash}

theorem ofDigitChars_mono {value : Nat} : value ≤ Nat.ofDigitChars 10 digits value := by
  induction digits generalizing value with
  | nil => simp
  | cons c rest ih =>
    rw [Nat.ofDigitChars_cons]
    exact Nat.le_trans (by omega) ih

theorem parseU64Digits_ok {value : Nat} (all : ∀ c ∈ digits, c.isDigit = true)
    (fits : Nat.ofDigitChars 10 digits value < 2 ^ 64) :
    parseU64Digits value digits = .ok (Nat.ofDigitChars 10 digits value) := by
  induction digits generalizing value with
  | nil => simp [parseU64Digits]
  | cons c rest ih =>
    rw [Nat.ofDigitChars_cons, Nat.mul_comm] at fits ⊢
    have bound : value * 10 + (c.toNat - '0'.toNat) ≤
        Nat.ofDigitChars 10 rest (value * 10 + (c.toNat - '0'.toNat)) := ofDigitChars_mono
    rw [parseU64Digits, if_pos (all c List.mem_cons_self), if_pos (by omega)]
    exact ih (fun d member => all d (List.mem_cons_of_mem _ member)) fits

/-- A number is read back from its decimal text. -/
theorem parseU64_repr {number : Nat} (fits : number < 2 ^ 64) :
    parseU64 (Nat.repr number) = .ok number := by
  have all : ∀ c ∈ Nat.toDigits 10 number, c.isDigit = true :=
    fun c member => Nat.isDigit_of_mem_toDigits (by decide) (by decide) member
  have digits : (Nat.repr number).toList = Nat.toDigits 10 number := String.toList_ofList
  have read : parseU64Digits 0 (Nat.toDigits 10 number) = .ok _ :=
    parseU64Digits_ok all (by rwa [Nat.ofDigitChars_ten_toDigits])
  rw [Nat.ofDigitChars_ten_toDigits] at read
  rw [parseU64, digits]
  split
  · rename_i empty
    exact absurd empty Nat.toDigits_ne_nil
  · rename_i plus
    rw [plus] at all
    exact absurd (all '+' List.mem_cons_self) (by decide)
  · rename_i rest plus
    rw [plus] at all
    exact absurd (all '+' List.mem_cons_self) (by decide)
  · exact read

/-- An index over numbered items: each member is an item's sequence, scored by its place. -/
def indexOf (items : List (Nat × Nat)) : List (Nat × String) :=
  items.map (fun item => (item.1, luaTostring item.2))

structure Scored (items : List (Nat × Nat)) : Prop where
  ascending : (items.map Prod.fst).Pairwise (· < ·)
  fits : ∀ item ∈ items, item.1 < 2 ^ 64 ∧ item.2 < 2 ^ 64

theorem Scored.increasing (scored : Scored items) : Replay.Increasing Prod.fst items :=
  List.pairwise_map.mp scored.ascending

theorem redisScoredPairs_indexOf (fits : ∀ item ∈ items, item.1 < 2 ^ 64 ∧ item.2 < 2 ^ 64) :
    redisScoredPairs ((indexOf items).flatMap
        (fun member => [.bytes member.2, .bytes (Nat.repr member.1)])) =
      .ok (items.map Prod.swap) := by
  induction items with
  | nil => rfl
  | cons item rest ih =>
    have bounds := fits item List.mem_cons_self
    have later := ih (fun other member => fits other (List.mem_cons_of_mem _ member))
    have first : ∀ label, redisValueU64 label (.bytes (luaTostring item.2)) = .ok item.2 := by
      intro label
      rw [redisValueU64, luaTostring, parseU64_repr bounds.2]
      rfl
    have second : ∀ label, redisValueU64 label (.bytes (Nat.repr item.1)) = .ok item.1 := by
      intro label
      rw [redisValueU64, parseU64_repr bounds.1]
      rfl
    rw [indexOf, List.map_cons, List.flatMap_cons, List.cons_append, List.cons_append,
      List.nil_append, redisScoredPairs, first, second]
    show (redisScoredPairs ((indexOf rest).flatMap _) >>= _) = _
    rw [later]
    rfl

theorem pairs_length {β : Type} (first second : α → β) (items : List α) :
    (items.flatMap (fun item => [first item, second item])).length = 2 * items.length := by
  induction items with
  | nil => rfl
  | cons item rest ih =>
    rw [List.flatMap_cons, List.length_append, ih, List.length_cons]
    simp only [List.length_cons, List.length_nil]
    omega

/-- The page that `ZRANGEBYSCORE` answers with. -/
theorem zrange_page (held : db indexKey = ofSet (indexOf items)) (scored : Scored items)
    (cursor limit : Nat) :
    (execute (zrangeReply indexKey cursor limit) db >>= redisScoredSequencePage) =
      .ok (((items.filter (fun item => cursor < item.1)).take limit).map Prod.swap) := by
  have kept : (indexOf items).filter (fun member => cursor < member.1) =
      indexOf (items.filter (fun item => cursor < item.1)) := by
    rw [indexOf, List.filter_map]
    rfl
  have ascending : ((items.filter (fun item => cursor < item.1)).map Prod.fst).Pairwise (· < ·) :=
    List.Pairwise.sublist (List.filter_sublist.map _) scored.ascending
  have sorted : (indexOf (items.filter (fun item => cursor < item.1))).insertionSort Precedes =
      indexOf (items.filter (fun item => cursor < item.1)) := by
    apply insertionSort_ascending
    rw [indexOf, List.map_map]
    exact ascending
  let page := (items.filter (fun item => cursor < item.1)).take limit
  have listed : zrangeByScore indexKey cursor limit db = .ok (indexOf page) db := by
    rw [zrangeByScore_ofSet held, kept, sorted, indexOf, ← List.map_take]
    rfl
  have reply : execute (zrangeReply indexKey cursor limit) db =
      .ok (.array ((indexOf page).flatMap
        (fun member => [.bytes member.2, .bytes (Nat.repr member.1)]))) := by
    have ran : zrangeReply indexKey cursor limit db =
        .ok (.array ((indexOf page).flatMap
          (fun member => [.bytes member.2, .bytes (Nat.repr member.1)]))) db := by
      rw [zrangeReply, bind_ok listed]
      rfl
    exact execute_ok ran
  have fits : ∀ item ∈ page, item.1 < 2 ^ 64 ∧ item.2 < 2 ^ 64 :=
    fun item member => scored.fits item (List.mem_filter.mp (List.mem_of_mem_take member)).1
  rw [bind_of_ok reply, redisScoredSequencePage]
  have items : redisArrayItems (.array ((indexOf page).flatMap
      (fun member => [.bytes member.2, .bytes (Nat.repr member.1)]))) = .ok _ := rfl
  rw [bind_of_ok items, pairs_length, if_neg (by omega)]
  exact redisScoredPairs_indexOf fits

/-- As many items as a limit admits. -/
def capped {α : Type} (limit : Option Nat) (items : List α) : List α :=
  match limit with
  | none => items
  | some limit => items.take limit

section Capped

variable {limit : Option Nat} {taken : Nat} {items : List α}

theorem capped_of_full (full : pageLimit limit taken = 0) :
    capped (limit.map (· - taken)) items = [] := by
  cases limit with
  | none => exact absurd (show sequencePageSize = 0 from full) (by decide)
  | some limit =>
    have none : limit - taken = 0 := by
      simp only [pageLimit, sequencePageSize] at full
      omega
    simp [capped, none]

theorem capped_of_short (short : items.length < pageLimit limit taken) :
    capped (limit.map (· - taken)) items = items := by
  cases limit with
  | none => rfl
  | some limit =>
    have within : pageLimit (some limit) taken ≤ limit - taken := Nat.min_le_left _ _
    exact List.take_of_length_le (Nat.le_trans (Nat.le_of_lt short) within)

/-- A full page is the front of what is still to come. -/
theorem capped_of_page (page : pageLimit limit taken ≤ items.length) :
    capped (limit.map (· - taken)) items =
      items.take (pageLimit limit taken) ++
        capped (limit.map (· - (taken + pageLimit limit taken)))
          (items.drop (pageLimit limit taken)) := by
  cases limit with
  | none => exact (List.take_append_drop _ items).symm
  | some limit =>
    show items.take (limit - taken) = items.take (pageLimit (some limit) taken) ++
      (items.drop (pageLimit (some limit) taken)).take
        (limit - (taken + pageLimit (some limit) taken))
    have within : pageLimit (some limit) taken ≤ limit - taken := Nat.min_le_left _ _
    have rest : limit - (taken + pageLimit (some limit) taken) =
        limit - taken - pageLimit (some limit) taken := by omega
    rw [rest, ← List.take_add, Nat.add_sub_cancel' within]

end Capped

/-- The paging loop returns what it had, then every item above its cursor that the limit
leaves room for. -/
theorem pageSequences_ok (held : db indexKey = ofSet (indexOf items)) (scored : Scored items)
    (limit : Option Nat) {fuel cursor : Nat} {sequences : List Nat}
    (enough : (items.filter (fun item => cursor < item.1)).length < fuel) :
    pageSequences db indexKey limit fuel cursor sequences =
      .ok (sequences ++ capped (limit.map (· - sequences.length))
        ((items.filter (fun item => cursor < item.1)).map Prod.snd)) := by
  induction fuel generalizing cursor sequences with
  | zero => omega
  | succ fuel ih =>
    rw [pageSequences]
    dsimp only
    obtain ⟨value, executed, paged⟩ :=
      ok_of_bind (zrange_page held scored cursor (pageLimit limit sequences.length))
    generalize remains : items.filter (fun item => cursor < item.1) = remaining at *
    by_cases full : pageLimit limit sequences.length = 0
    · rw [if_pos full, capped_of_full full, List.append_nil]
      rfl
    · rw [if_neg full, bind_of_ok executed, bind_of_ok paged]
      by_cases short : remaining.length < pageLimit limit sequences.length
      · have page : (remaining.take (pageLimit limit sequences.length)) = remaining :=
          List.take_of_length_le (Nat.le_of_lt short)
        rw [page, List.length_map, if_pos short, capped_of_short (by simpa using short),
          List.map_map]
        rfl
      · have room : pageLimit limit sequences.length ≤ remaining.length := Nat.le_of_not_lt short
        have size : (remaining.take (pageLimit limit sequences.length)).length =
            pageLimit limit sequences.length := List.length_take_of_le room
        -- a full page ends above the cursor, and the rest is above its end
        obtain ⟨last, ended, forward, rest⟩ :
            ∃ last, (remaining.take (pageLimit limit sequences.length)).getLast? = some last ∧
              cursor < last.1 ∧ items.filter (fun item => last.1 < item.1) =
                remaining.drop (pageLimit limit sequences.length) := by
          subst remains
          obtain ⟨last, ended, forward, rest⟩ :=
            @Paging.full_page _ _ _ (some cursor) scored.increasing _
              (Nat.pos_of_ne_zero full) room
          exact ⟨last, ended, of_decide_eq_true forward, rest⟩
        have lastSwapped : ((remaining.take (pageLimit limit sequences.length)).map
            Prod.swap).getLast? = Option.some (last.2, last.1) := by
          rw [List.getLast?_map, ended]
          rfl
        have fewer : (remaining.drop (pageLimit limit sequences.length)).length < fuel := by
          rw [List.length_drop]
          omega
        have next : pageSequences db indexKey limit fuel last.1 (sequences ++
            (((remaining.take (pageLimit limit sequences.length)).map Prod.swap).map Prod.fst)) =
            .ok _ := ih (by rw [rest]; exact fewer)
        have grown : (sequences ++ (((remaining.take (pageLimit limit sequences.length)).map
            Prod.swap).map Prod.fst)).length = sequences.length + pageLimit limit sequences.length := by
          rw [List.length_append, List.length_map, List.length_map, size]
        rw [rest, grown] at next
        have whole : capped (limit.map (· - sequences.length)) (remaining.map Prod.snd) =
            (remaining.take (pageLimit limit sequences.length)).map Prod.snd ++
              capped (limit.map (· - (sequences.length + pageLimit limit sequences.length)))
                ((remaining.drop (pageLimit limit sequences.length)).map Prod.snd) := by
          refine (capped_of_page (by rw [List.length_map]; exact room)).trans ?_
          rw [← List.map_take, ← List.map_drop]
        rw [List.length_map, size, if_neg (Nat.lt_irrefl _), lastSwapped]
        dsimp only
        rw [if_pos forward, next, whole, List.map_map, List.append_assoc]
        rfl

/-- The loop has turns enough for the whole index. -/
theorem loadIndexedSequences_ok (held : db indexKey = ofSet (indexOf items)) (scored : Scored items)
    (afterScore : Nat) (limit : Option Nat) :
    loadIndexedSequences db indexKey afterScore limit =
      .ok (capped limit ((items.filter (fun item => afterScore < item.1)).map Prod.snd)) := by
  have size : indexSize db indexKey = items.length := by
    rw [indexSize, held, ofSet]
    by_cases empty : indexOf items = []
    · rw [if_pos empty]
      exact (List.length_eq_zero_iff.mpr (List.map_eq_nil_iff.mp empty)).symm
    · rw [if_neg empty]
      exact List.length_map _
  have enough : (items.filter (fun item => afterScore < item.1)).length < items.length + 1 :=
    Nat.lt_succ_of_le (List.length_filter_le _ _)
  rw [loadIndexedSequences, size, pageSequences_ok held scored limit enough]
  simp

theorem redisHashPairs_fields {fields : RedisHash} :
    redisHashPairs hash (fields.flatMap (fun field => [.bytes field.1, .bytes field.2])) =
      .ok (fields.foldl setField hash) := by
  induction fields generalizing hash with
  | nil => rfl
  | cons field rest ih => exact ih

/-- A hash holds something, and each field once. -/
structure HashHeld (hash : RedisHash) : Prop where
  filled : hash ≠ []
  distinct : (hash.map Prod.fst).Nodup

theorem rowHash_held (row : StoredEventRow) : HashHeld (rowHash row) where
  filled := by simp [rowHash]
  distinct := by simp [rowHash]

theorem redisHashFromItems_ok (held : HashHeld hash) :
    redisHashFromItems (hash.flatMap (fun field => [.bytes field.1, .bytes field.2])) =
      .ok hash := by
  rw [redisHashFromItems, pairs_length, if_neg (by omega), redisHashPairs_fields,
    foldl_setField (by simpa using held.distinct), List.nil_append]

section Batch

variable (sequence : α → Nat) {hash : α → RedisHash} {items : List α} {key : α → String}

/-- A batch of hash items is cut into the hashes it was built from. -/
theorem unpackFlatHashes_ok (total done : Nat) (held : ∀ item ∈ items, HashHeld (hash item)) :
    unpackFlatHashes total done (items.flatMap (fun item => hashItems (hash item)))
        (items.map sequence) = .ok (items.map hash) := by
  induction items generalizing done with
  | nil => rfl
  | cons item rest ih =>
    have own := held item List.mem_cons_self
    have later := ih (done + 1) (fun other member => held other (List.mem_cons_of_mem _ member))
    have length : ((hash item).flatMap
        (fun field => [RedisValue.bytes field.1, .bytes field.2])).length =
        (2 * (hash item).length : Nat) := pairs_length _ _ _
    rw [List.flatMap_cons, List.map_cons, hashItems, List.cons_append, unpackFlatHashes,
      if_neg (by omega), Int.toNat_natCast, if_neg (by rw [List.length_append, length]; omega),
      List.take_left' length, bind_of_ok (redisHashFromItems_ok own)]
    have some : (hash item).isEmpty = false := by simpa using own.filled
    rw [some, if_neg (by decide), List.drop_left' length, bind_of_ok later]
    rfl

theorem fetchHashes_ok (held : ∀ item ∈ items, db (key item) = some (.hash (hash item))) :
    fetchHashes (items.map key) db =
      .ok (items.flatMap (fun item => hashItems (hash item))) db := by
  induction items with
  | nil => rfl
  | cons item rest ih =>
    rw [List.map_cons, fetchHashes, bind_ok (hgetall_hash (held item List.mem_cons_self)),
      bind_ok (ih (fun other member => held other (List.mem_cons_of_mem _ member)))]
    rfl

/-- What the script answers for a batch, and what is read from its answer. -/
theorem fetchHashesLua_ok (stored : ∀ item ∈ items, db (key item) = some (.hash (hash item)))
    (held : ∀ item ∈ items, HashHeld (hash item)) :
    ∃ value, execute (fetchHashesLua (items.map key)) db = .ok value ∧
      unpackFlatHashBatch value (items.map sequence) = .ok (items.map hash) := by
  refine ⟨.array (items.flatMap (fun item => hashItems (hash item))), ?_,
    unpackFlatHashes_ok sequence _ 0 held⟩
  have ran : fetchHashesLua (items.map key) db =
      .ok (.array (items.flatMap (fun item => hashItems (hash item)))) db := by
    rw [fetchHashesLua, bind_ok (fetchHashes_ok stored)]
    rfl
  exact execute_ok ran

end Batch

namespace RedisEventStore

variable {A : Aggregate} (store : RedisEventStore A) {rows : List StoredEventRow}

theorem fetchChunks_rows {fuel : Nat} (held : ∀ row ∈ rows,
      db (store.keyPrefix.key (.event row.sequence)) = some (.hash (rowHash row)))
    (enough : rows.length ≤ fuel) :
    store.fetchChunks db fuel (rows.map (·.sequence)) = .ok (rows.map rowHash) := by
  induction fuel generalizing rows with
  | zero =>
    have none : rows = [] := List.length_eq_zero_iff.mp (Nat.le_zero.mp enough)
    rw [none]
    rfl
  | succ fuel ih =>
    by_cases empty : rows = []
    · rw [empty]
      rfl
    · have some : (rows.map (·.sequence)).isEmpty = false := by simpa using empty
      have member : ∀ row ∈ rows.take hashFetchChunkSize, row ∈ rows :=
        fun row taken => List.mem_of_mem_take taken
      obtain ⟨value, executed, unpacked⟩ := fetchHashesLua_ok (·.sequence)
        (fun row taken => held row (member row taken))
        (fun row taken => rowHash_held row)
      have keys : ((rows.map (·.sequence)).take hashFetchChunkSize).map
          (fun sequence => store.keyPrefix.key (.event sequence)) =
          (rows.take hashFetchChunkSize).map
            (fun row => store.keyPrefix.key (.event row.sequence)) := by
        rw [← List.map_take, List.map_map]
        rfl
      have shorter : (rows.drop hashFetchChunkSize).length ≤ fuel := by
        rw [List.length_drop, hashFetchChunkSize]
        omega
      have later : store.fetchChunks db fuel ((rows.map (·.sequence)).drop hashFetchChunkSize) =
          .ok ((rows.drop hashFetchChunkSize).map rowHash) := by
        rw [← List.map_drop]
        exact ih (fun row member => held row (List.mem_of_mem_drop member)) shorter
      rw [fetchChunks, some, if_neg (by decide)]
      dsimp only
      rw [keys, bind_of_ok executed, ← List.map_take, bind_of_ok unpacked, bind_of_ok later]
      show Except.ok ((rows.take hashFetchChunkSize).map rowHash ++
        (rows.drop hashFetchChunkSize).map rowHash) = _
      rw [← List.map_append, List.take_append_drop]

theorem loadSequenceHashes_rows (held : ∀ row ∈ rows,
      db (store.keyPrefix.key (.event row.sequence)) = some (.hash (rowHash row))) :
    store.loadSequenceHashes db (rows.map (·.sequence)) = .ok (rows.map rowHash) := by
  apply store.fetchChunks_rows held
  rw [List.length_map]

end RedisEventStore

/-- A row is read back from its hash. -/
theorem hashToRow_rowHash {row : StoredEventRow} (revision : row.revision < 2 ^ 64)
    (sequence : row.sequence < 2 ^ 64) (version : row.eventVersion < 2 ^ 32)
    (recordedAt : row.recordedAtMs ≤ i64Max) : hashToRow (rowHash row) = .ok row := by
  have number : ∀ field value, (rowHash row).lookup field = some (Nat.repr value) →
      value < 2 ^ 64 → hashFieldU64 (rowHash row) field = .ok value := by
    intro field value found fits
    have text : hashFieldString (rowHash row) field = .ok (Nat.repr value) := by
      rw [hashFieldString, found]
    rw [hashFieldU64, bind_of_ok text, parseU64_repr fits]
    rfl
  have versionRead : hashFieldU32 (rowHash row) "event_version" = .ok row.eventVersion := by
    rw [hashFieldU32, bind_of_ok (number "event_version" row.eventVersion rfl (by omega)),
      if_pos version]
  have recordedAtText : hashFieldString (rowHash row) "recorded_at_ms" =
      .ok (Nat.repr row.recordedAtMs) := rfl
  have recordedAtRead : hashFieldI64 (rowHash row) "recorded_at_ms" = .ok row.recordedAtMs := by
    have fits : row.recordedAtMs < 2 ^ 64 := by
      rw [i64Max] at recordedAt
      omega
    rw [hashFieldI64, bind_of_ok recordedAtText, parseU64_repr fits]
    exact if_pos recordedAt
  have eventId : hashFieldString (rowHash row) "event_id" = .ok row.eventId := rfl
  have aggregateId : hashFieldString (rowHash row) "aggregate_id" = .ok row.aggregateId := rfl
  have aggregateType : hashFieldString (rowHash row) "aggregate_type" = .ok row.aggregateType := rfl
  have eventType : hashFieldString (rowHash row) "event_type" = .ok row.eventType := rfl
  have payload : hashFieldString (rowHash row) "payload" = .ok row.payload := rfl
  have metadata : hashFieldString (rowHash row) "metadata" = .ok row.metadata := rfl
  rw [hashToRow, bind_of_ok eventId, bind_of_ok aggregateId, bind_of_ok aggregateType,
    bind_of_ok (number "revision" row.revision rfl revision),
    bind_of_ok (number "sequence" row.sequence rfl sequence), bind_of_ok eventType,
    bind_of_ok versionRead, bind_of_ok payload, bind_of_ok metadata, bind_of_ok recordedAtRead]
  rfl

theorem capped_map {β : Type} (limit : Option Nat) (f : α → β) (items : List α) :
    capped limit (items.map f) = (capped limit items).map f := by
  cases limit with
  | none => rfl
  | some limit => exact List.map_take.symm

theorem mem_of_capped {limit : Option Nat} {items : List α} {item : α}
    (member : item ∈ capped limit items) : item ∈ items := by
  cases limit with
  | none => exact member
  | some limit => exact List.mem_of_mem_take member

namespace Represents

variable {keyPrefix : RedisPrefix} {table : EventsTable} {row : StoredEventRow}

theorem row_revision (represents : Represents keyPrefix db table) (member : row ∈ table.rows) :
    row.revision ≤ table.lastSequence := by
  have own : row ∈ table.streamRows row.aggregateType row.aggregateId :=
    List.mem_filter.mpr ⟨member, by simp⟩
  have listed := List.mem_map_of_mem (f := (·.revision)) own
  rw [represents.revisions, List.mem_range'_1] at listed
  have within : (table.streamRows row.aggregateType row.aggregateId).length ≤ table.rows.length :=
    List.length_filter_le _ _
  rw [represents.toIndexed.length] at within
  omega

theorem hashToRow_ok (represents : Represents keyPrefix db table) (bounded : Bounded table)
    (member : row ∈ table.rows) : hashToRow (rowHash row) = .ok row := by
  have revision := represents.row_revision member
  have sequence := (represents.toIndexed.row_sequence member).2
  have bound := bounded.sequence
  exact hashToRow_rowHash (by omega) (by omega) (bounded.version row member)
    (bounded.recordedAt row member)

theorem scored (represents : Represents keyPrefix db table) (bounded : Bounded table)
    {rows : List StoredEventRow} (score : StoredEventRow → Nat)
    (within : ∀ row ∈ rows, row ∈ table.rows ∧ score row ≤ table.lastSequence) {count : Nat}
    (numbered : rows.map score = List.range' 1 count) :
    Scored (rows.map (fun row => (score row, row.sequence))) where
  ascending := by
    rw [List.map_map]
    show (rows.map score).Pairwise _
    rw [numbered]
    exact List.pairwise_lt_range'
  fits := by
    intro item member
    obtain ⟨row, listed, rfl⟩ := List.mem_map.mp member
    have bound := bounded.sequence
    have place := within row listed
    have sequence := (represents.toIndexed.row_sequence place.1).2
    exact ⟨by omega, by omega⟩

end Represents

/-- The rows a read of the global index covers. -/
def EventsTable.globalRows (table : EventsTable) (sequence limit : Option Nat) :
    List StoredEventRow :=
  capped limit (table.rows.filter (fun row => sequence.getD 0 < row.sequence))

namespace RedisEventStore

variable {A : Aggregate} (store : RedisEventStore A) {table : EventsTable}
  {rows : List StoredEventRow}

theorem mapM_rowHash {E : Type} (decode : StoredEventRow → Except EventStoreError E)
    (readable : ∀ row ∈ rows, hashToRow (rowHash row) = .ok row) :
    (rows.map rowHash).mapM (fun hash => do
      let row ← hashToRow hash
      decode row) = rows.mapM decode := by
  induction rows with
  | nil => rfl
  | cons row rest ih =>
    rw [List.map_cons, List.mapM_cons, List.mapM_cons,
      ih (fun other member => readable other (List.mem_cons_of_mem _ member)),
      bind_of_ok (readable row List.mem_cons_self)]

/-- A global load decodes every row above the cursor, whatever its aggregate type. -/
theorem loadGlobal_rows {E : Type} (decode : StoredEventRow → Except EventStoreError E)
    (represents : Represents store.keyPrefix db table) (bounded : Bounded table)
    (sequence limit : Option Nat) :
    store.loadGlobal decode db sequence limit =
      (table.globalRows sequence limit).mapM decode := by
  let items := table.rows.map (fun row => (row.sequence, row.sequence))
  have held : db (store.keyPrefix.key .global) = ofSet (indexOf items) := by
    rw [represents.global, indexOf, List.map_map]
    rfl
  have scored : Scored items := represents.scored bounded (·.sequence)
    (fun row member => ⟨member, (represents.toIndexed.row_sequence member).2⟩) represents.sequences
  have listed : capped limit ((items.filter (fun item => sequence.getD 0 < item.1)).map Prod.snd) =
      (table.globalRows sequence limit).map (·.sequence) := by
    rw [EventsTable.globalRows, ← capped_map, List.filter_map, List.map_map]
    rfl
  have within : ∀ row ∈ table.globalRows sequence limit, row ∈ table.rows :=
    fun row member => (List.mem_filter.mp (mem_of_capped member)).1
  have sequences := loadIndexedSequences_ok held scored (sequence.getD 0) limit
  rw [listed] at sequences
  have hashes := store.loadSequenceHashes_rows
    (fun row member => represents.event row (within row member))
  rw [loadGlobal, bind_of_ok sequences, bind_of_ok hashes]
  exact mapM_rowHash decode (fun row member => represents.hashToRow_ok bounded (within row member))

theorem ownEnvelopes_rows (own : ∀ row ∈ rows, row.aggregateType = A.aggregateType)
    (readable : ∀ row ∈ rows, hashToRow (rowHash row) = .ok row) :
    store.ownEnvelopes (rows.map rowHash) = rows.mapM store.reader.envelopeFromStoredRow := by
  induction rows with
  | nil => rfl
  | cons row rest ih =>
    have named : hashFieldString (rowHash row) "aggregate_type" = .ok row.aggregateType := rfl
    have decoded : store.hashToEnvelope (rowHash row) =
        store.reader.envelopeFromStoredRow row := by
      rw [hashToEnvelope, bind_of_ok (readable row List.mem_cons_self)]
    rw [List.map_cons, ownEnvelopes, bind_of_ok named, if_pos (own row List.mem_cons_self),
      List.mapM_cons, decoded, ih (fun other member => own other (List.mem_cons_of_mem _ member))
        (fun other member => readable other (List.mem_cons_of_mem _ member))]

/-- The load of one key decodes the rows of its stream above the revision. -/
theorem loadStream_rows (represents : Represents store.keyPrefix db table)
    (bounded : Bounded table) (aggregateIdKey : String) (revision : Nat) :
    store.loadStream db aggregateIdKey revision =
      ((table.streamRows A.aggregateType aggregateIdKey).filter
        (fun row => revision < row.revision)).mapM store.reader.envelopeFromStoredRow := by
  let rows := table.streamRows A.aggregateType aggregateIdKey
  let items := rows.map (fun row => (row.revision, row.sequence))
  have held : db (store.keyPrefix.key (.stream A.aggregateType aggregateIdKey)) =
      ofSet (indexOf items) := by
    rw [represents.stream, indexOf, List.map_map]
    rfl
  have member : ∀ row ∈ rows, row ∈ table.rows := fun row listed => (List.mem_filter.mp listed).1
  have named : ∀ row ∈ rows, row.aggregateType = A.aggregateType := by
    intro row listed
    have names := (List.mem_filter.mp listed).2
    rw [decide_eq_true_eq] at names
    exact names.1
  have scored : Scored items := represents.scored bounded (·.revision)
    (fun row listed => ⟨member row listed, represents.row_revision (member row listed)⟩)
    (represents.revisions A.aggregateType aggregateIdKey)
  let above := rows.filter (fun row => revision < row.revision)
  have listed : capped none ((items.filter (fun item => revision < item.1)).map Prod.snd) =
      above.map (·.sequence) := by
    show (items.filter (fun item => revision < item.1)).map Prod.snd = _
    rw [List.filter_map, List.map_map]
    rfl
  have within : ∀ row ∈ above, row ∈ rows := fun row chosen => (List.mem_filter.mp chosen).1
  have sequences := loadIndexedSequences_ok held scored revision none
  rw [listed] at sequences
  have hashes := store.loadSequenceHashes_rows
    (fun row chosen => represents.event row (member row (within row chosen)))
  rw [loadStream]
  dsimp only [RedisPrefix.streamKeysForStorageKey]
  rw [bind_of_ok sequences, bind_of_ok hashes]
  exact store.ownEnvelopes_rows (fun row chosen => named row (within row chosen))
    (fun row chosen => represents.hashToRow_ok bounded (member row (within row chosen)))

end RedisEventStore

end DddCqrsEs
