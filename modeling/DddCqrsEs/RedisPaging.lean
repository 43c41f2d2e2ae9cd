import DddCqrsEs.RedisReads
import DddCqrsEs.Binary64
import DddCqrsEs.Paging

/- The paged and chunked reads of a client while others write to the server: each of its
commands sees the key space of its own moment. -/
namespace DddCqrsEs

open RedisServer Paging Replay Transition

/-- The key space at each turn of a client, and the text the server writes for a score. -/
structure SharedServer where
  reads : Nat → KeySpace
  scoreText : Nat → String

/-- What a client does from the turn of its first command to the turn after its last. -/
abbrev Session := StateT Nat (Except EventStoreError)

section Session

variable {α β : Type} {next : α → Session β} {value : α} {turn after : Nat}

theorem Session.bind_ok {first : Session α} (ran : first turn = .ok (value, after)) :
    (first >>= next) turn = next value after := by
  show (first turn >>= fun outcome => next outcome.1 outcome.2) = _
  rw [ran]
  rfl

theorem Session.lift_ok {first : Except EventStoreError α} (ran : first = .ok value) :
    ((liftM first : Session α) >>= next) turn = next value turn := by
  rw [ran]
  rfl

end Session

namespace SharedServer

variable (server : SharedServer)

def command {α : Type} (script : Script α) : Session α := fun turn =>
  (execute script (server.reads turn)).map (fun value => (value, turn + 1))

/-- `ZRANGEBYSCORE key (cursor +inf WITHSCORES LIMIT 0 limit`. The server reads the cursor as
a double. -/
def zrangebyscore (indexKey : String) (cursor limit : Nat) : Script RedisValue := do
  let members ← zrangeByScore indexKey (Binary64.round cursor) limit
  return .array (members.flatMap
    (fun member => [.bytes member.2, .bytes (server.scoreText member.1)]))

/-- The turns of the paging loop. `fuel` bounds them. -/
def pageSequences (indexKey : String) (limit : Option Nat) :
    Nat → Nat → List Nat → Session (List Nat)
  | 0, _, _ => throw (.unknown "paging did not end" none)
  | fuel + 1, cursor, sequences => do
      let pageSize := pageLimit limit sequences.length
      if pageSize = 0 then return sequences
      let value ← server.command (server.zrangebyscore indexKey cursor pageSize)
      let page ← redisScoredSequencePage value
      let sequences := sequences ++ page.map Prod.fst
      if page.length < pageSize then return sequences
      match page.getLast? with
      | some (_, score) =>
        if cursor < score then pageSequences indexKey limit fuel score sequences
        else return sequences
      | none => return sequences

/-- Every further turn raises a cursor of 64 bits. -/
def loadIndexedSequences (indexKey : String) (afterScore : Nat) (limit : Option Nat) :
    Session (List Nat) :=
  server.pageSequences indexKey limit (2 ^ 64) afterScore []

/-- A score that the server tells from every other and writes in digits. -/
structure ExactScore (score : Nat) : Prop where
  positive : 0 < score
  held : score ≤ 2 ^ 53
  written : server.scoreText score = Nat.repr score

/-- An index while the client reads: its scores are distinct, and members join it above those
it has. -/
structure Index (indexKey : String) (items : Nat → List (Nat × Nat)) : Prop where
  stored : ∀ turn, server.reads turn indexKey = ofSet (indexOf (items turn))
  distinct : ∀ turn, ((items turn).map Prod.fst).Nodup
  scores : ∀ turn, ∀ item ∈ items turn, server.ExactScore item.1
  sequences : ∀ turn, ∀ item ∈ items turn, item.2 < 2 ^ 64
  grows : ∀ turn, Grows Prod.fst (items turn) (items (turn + 1))

end SharedServer

/-- Up to 2^53 the server compares a score with a bound as if it were exact. -/
theorem round_lt_iff {cursor score : Nat} (held : score ≤ 2 ^ 53) :
    Binary64.round cursor < score ↔ cursor < score := by
  constructor
  · intro less
    by_contra reached
    have mono : Binary64.round score ≤ Binary64.round cursor :=
      Binary64.round_mono (Nat.le_of_not_lt reached)
    have exact : Binary64.round score = score := by
      rcases Nat.lt_or_eq_of_le held with small | edge
      · exact Binary64.round_of_lt small
      · rw [edge]
        decide +kernel
    omega
  · intro less
    rw [Binary64.round_of_lt (by omega)]
    exact less

/-- The round trips that read so many elements, page by page, as far as the limit admits: the last
page is short or fills the limit. -/
def roundTrips (limit : Option Nat) (count : Nat) : Nat :=
  match limit with
  | none => count / sequencePageSize + 1
  | some limit =>
    min ((limit + sequencePageSize - 1) / sequencePageSize) (count / sequencePageSize + 1)

section RoundTrips

variable {limit : Option Nat} {taken count : Nat}

theorem roundTrips_of_full (full : pageLimit limit taken = 0) :
    roundTrips (limit.map (· - taken)) count = 0 := by
  cases limit with
  | none => exact absurd (show sequencePageSize = 0 from full) (by decide)
  | some limit =>
    simp only [pageLimit, sequencePageSize] at full
    simp only [roundTrips, sequencePageSize, Option.map_some]
    omega

theorem roundTrips_of_short (short : count < pageLimit limit taken) :
    roundTrips (limit.map (· - taken)) count = 1 := by
  cases limit with
  | none =>
    simp only [pageLimit, sequencePageSize] at short
    simp only [roundTrips, sequencePageSize, Option.map_none]
    omega
  | some limit =>
    simp only [pageLimit, sequencePageSize] at short
    simp only [roundTrips, sequencePageSize, Option.map_some]
    omega

/-- A full page is one round trip, and the rest takes its own. -/
theorem roundTrips_of_page (some_room : 0 < pageLimit limit taken)
    (page : pageLimit limit taken ≤ count) :
    roundTrips (limit.map (· - taken)) count =
      roundTrips (limit.map (· - (taken + pageLimit limit taken)))
        (count - pageLimit limit taken) + 1 := by
  cases limit with
  | none =>
    simp only [pageLimit, sequencePageSize] at page
    simp only [roundTrips, pageLimit, sequencePageSize, Option.map_none]
    omega
  | some limit =>
    simp only [pageLimit, sequencePageSize] at some_room page
    simp only [roundTrips, pageLimit, sequencePageSize, Option.map_some]
    omega

end RoundTrips

namespace SharedServer.Index

variable {server : SharedServer} {indexKey : String} {items : Nat → List (Nat × Nat)}

theorem ascending (index : server.Index indexKey items) (turn : Nat) :
    Increasing Prod.fst (ranked Prod.fst (items turn)) :=
  ranked_increasing (index.distinct turn)

theorem prefix_of_le (index : server.Index indexKey items) {turn later : Nat}
    (le : turn ≤ later) : ranked Prod.fst (items turn) <+: ranked Prod.fst (items later) := by
  induction later, le using Nat.le_induction with
  | base => exact List.prefix_refl _
  | succ later _ ih =>
    exact ih.trans ((index.grows later).ranked_front (index.distinct (later + 1))
      (index.distinct later))

/-- The page that the server answers with. -/
theorem page (index : server.Index indexKey items) (turn cursor limit : Nat) :
    (execute (server.zrangebyscore indexKey cursor limit) (server.reads turn) >>=
        redisScoredSequencePage) =
      .ok (((beyond Prod.fst (ranked Prod.fst (items turn)) (some cursor)).take limit).map
        Prod.swap) := by
  let remaining := beyond Prod.fst (ranked Prod.fst (items turn)) (some cursor)
  have kept : ((indexOf (items turn)).filter
      (fun member => Binary64.round cursor < member.1)).Perm (indexOf remaining) := by
    have above : (indexOf (items turn)).filter
        (fun member => Binary64.round cursor < member.1) =
        indexOf ((items turn).filter (fun item => cursor < item.1)) := by
      rw [indexOf, List.filter_map]
      apply congrArg (List.map _)
      apply List.filter_congr
      intro item member
      exact decide_eq_decide.mpr (round_lt_iff (index.scores turn item member).held)
    rw [above]
    exact (((ranked_perm (items turn)).symm.filter _).map _)
  have ordered : ((indexOf remaining).map Prod.fst).Pairwise (· < ·) := by
    rw [indexOf, List.map_map]
    exact List.pairwise_map.mpr (beyond_increasing (index.ascending turn))
  have listed : zrangeByScore indexKey (Binary64.round cursor) limit (server.reads turn) =
      .ok (indexOf (remaining.take limit)) (server.reads turn) := by
    rw [zrangeByScore_ofSet (index.stored turn), insertionSort_of_perm kept ordered, indexOf,
      ← List.map_take]
    rfl
  have chosen : ∀ item ∈ remaining.take limit, item ∈ items turn :=
    fun item member => mem_ranked.mp (mem_beyond.mp (List.mem_of_mem_take member)).1
  have written : (indexOf (remaining.take limit)).flatMap
      (fun member => [RedisValue.bytes member.2, .bytes (server.scoreText member.1)]) =
      (indexOf (remaining.take limit)).flatMap
        (fun member => [.bytes member.2, .bytes (Nat.repr member.1)]) := by
    apply List.flatMap_congr
    intro member named
    obtain ⟨item, taken, rfl⟩ := List.mem_map.mp named
    rw [(index.scores turn item (chosen item taken)).written]
  have ran : server.zrangebyscore indexKey cursor limit (server.reads turn) =
      .ok (.array ((indexOf (remaining.take limit)).flatMap
        (fun member => [.bytes member.2, .bytes (Nat.repr member.1)]))) (server.reads turn) := by
    rw [zrangebyscore, DddCqrsEs.bind_ok listed, written]
    rfl
  have fits : ∀ item ∈ remaining.take limit, item.1 < 2 ^ 64 ∧ item.2 < 2 ^ 64 := by
    intro item member
    have held := (index.scores turn item (chosen item member)).held
    exact ⟨by omega, index.sequences turn item (chosen item member)⟩
  have items : redisArrayItems (.array ((indexOf (remaining.take limit)).flatMap
      (fun member => [.bytes member.2, .bytes (Nat.repr member.1)]))) = .ok _ := rfl
  rw [bind_of_ok (execute_ok ran), redisScoredSequencePage, bind_of_ok items, pairs_length,
    if_neg (by omega)]
  exact redisScoredPairs_indexOf fits

/-- A turn of the loop reads the page that its limit asks for. -/
theorem command_page (index : server.Index indexKey items) (turn cursor limit : Nat) :
    ∃ value, server.command (server.zrangebyscore indexKey cursor limit) turn =
        .ok (value, turn + 1) ∧
      redisScoredSequencePage value = .ok (((beyond Prod.fst (ranked Prod.fst (items turn))
        (some cursor)).take limit).map Prod.swap) := by
  obtain ⟨value, executed, paged⟩ := ok_of_bind (index.page turn cursor limit)
  refine ⟨value, ?_, paged⟩
  rw [command, executed]
  rfl

/-- A full page is still the next page later on, and what followed it follows it. -/
theorem full_page_later (index : server.Index indexKey items) {turn later cursor size : Nat}
    (le : turn ≤ later) {page : List (Nat × Nat)} {last : Nat × Nat}
    (taken : (beyond Prod.fst (ranked Prod.fst (items turn)) (some cursor)).take size = page)
    (full : page.length = size) (ended : page.getLast? = some last) :
    ∃ rest, beyond Prod.fst (ranked Prod.fst (items later)) (some cursor) = page ++ rest ∧
      beyond Prod.fst (ranked Prod.fst (items later)) (some last.1) = rest := by
  have room : size ≤ (beyond Prod.fst (ranked Prod.fst (items turn)) (some cursor)).length := by
    rw [← full, ← taken, List.length_take]
    exact Nat.min_le_right _ _
  obtain ⟨added, grown⟩ : beyond Prod.fst (ranked Prod.fst (items turn)) (some cursor) <+:
      beyond Prod.fst (ranked Prod.fst (items later)) (some cursor) :=
    (index.prefix_of_le le).filter _
  have front : (beyond Prod.fst (ranked Prod.fst (items later)) (some cursor)).take size =
      page := by
    rw [← grown, List.take_append_of_le_length room, taken]
  refine ⟨_, ?_, after_page (index.ascending later) (by rw [front]; exact ended)⟩
  rw [← front, List.take_append_drop]

/-- The loop returns what it had, then what lies beyond its cursor at the moment of its last
page, as far as the limit leaves room, after the round trips that so many elements take. -/
theorem pageSequences_ok (index : server.Index indexKey items) (limit : Option Nat)
    {fuel cursor turn : Nat} {sequences : List Nat} (enough : 2 ^ 53 - cursor < fuel) :
    ∃ last stop, turn ≤ last ∧ last ≤ stop ∧
      stop = turn + roundTrips (limit.map (· - sequences.length))
        (beyond Prod.fst (ranked Prod.fst (items last)) (some cursor)).length ∧
      server.pageSequences indexKey limit fuel cursor sequences turn =
        .ok (sequences ++ capped (limit.map (· - sequences.length))
          ((beyond Prod.fst (ranked Prod.fst (items last)) (some cursor)).map Prod.snd), stop) := by
  induction fuel generalizing cursor turn sequences with
  | zero => omega
  | succ fuel ih =>
    rw [pageSequences]
    dsimp only
    obtain ⟨value, executed, paged⟩ :=
      index.command_page turn cursor (pageLimit limit sequences.length)
    generalize sized : pageLimit limit sequences.length = size at *
    by_cases none : size = 0
    · refine ⟨turn, turn, Nat.le_refl _, Nat.le_refl _, ?_, ?_⟩
      · rw [roundTrips_of_full (sized.trans none), Nat.add_zero]
      · rw [if_pos none, capped_of_full (sized.trans none), List.append_nil]
        rfl
    rw [if_neg none, Session.bind_ok executed, Session.lift_ok paged]
    generalize remains : beyond Prod.fst (ranked Prod.fst (items turn)) (some cursor) =
      remaining at *
    by_cases short : remaining.length < size
    · refine ⟨turn, turn + 1, Nat.le_refl _, Nat.le_succ _, ?_, ?_⟩
      · rw [remains, roundTrips_of_short (by rw [sized]; exact short)]
      · have page : remaining.take size = remaining := List.take_of_length_le (Nat.le_of_lt short)
        rw [page, List.length_map, if_pos short, remains,
          capped_of_short (by rw [List.length_map, sized]; exact short), List.map_map]
        rfl
    · have room : size ≤ remaining.length := Nat.le_of_not_lt short
      have full : size ≤ (beyond Prod.fst (ranked Prod.fst (items turn))
          (some cursor)).length := by rwa [remains]
      obtain ⟨item, ended, forward, _⟩ :=
        full_page (index.ascending turn) (Nat.pos_of_ne_zero none) full
      have above : cursor < item.1 := of_decide_eq_true forward
      have member := mem_beyond.mp (List.mem_of_mem_take (List.mem_of_getLast? ended))
      have held := (index.scores turn item (mem_ranked.mp member.1)).held
      have length : (remaining.take size).length = size := List.length_take_of_le room
      rw [remains] at ended
      have last : ((remaining.take size).map Prod.swap).getLast? = some (item.2, item.1) := by
        rw [List.getLast?_map, ended]
        rfl
      have closer : 2 ^ 53 - item.1 < fuel := by omega
      obtain ⟨final, stop, later, within, ended_at, next⟩ :=
        @ih item.1 (turn + 1)
          (sequences ++ ((remaining.take size).map Prod.swap).map Prod.fst) closer
      obtain ⟨rest, whole, following⟩ := index.full_page_later (Nat.le_of_succ_le later)
        (congrArg (List.take size) remains) length ended
      refine ⟨final, stop, by omega, within, ?_, ?_⟩
      · have trips : roundTrips (limit.map (· - sequences.length)) (size + rest.length) =
            roundTrips (limit.map (· - (sequences.length + size))) rest.length + 1 := by
          rw [← sized]
          refine (roundTrips_of_page ?_ (Nat.le_add_right _ _)).trans ?_
          · rw [sized]
            exact Nat.pos_of_ne_zero none
          · rw [Nat.add_sub_cancel_left]
        rw [ended_at, following, List.length_append, List.length_map, List.length_map, length,
          whole, List.length_append, length, trips]
        omega
      rw [List.length_map, length, if_neg (Nat.lt_irrefl _), last]
      dsimp only
      rw [if_pos above, next]
      have listed : ((remaining.take size).map Prod.swap).map Prod.fst =
          (remaining.take size).map Prod.snd := by
        rw [List.map_map]
        rfl
      have taken : ((remaining.take size).map Prod.snd).length = size := by
        rw [List.length_map, length]
      have room : pageLimit limit sequences.length ≤
          ((remaining.take size ++ rest).map Prod.snd).length := by
        rw [sized, List.length_map, List.length_append, length]
        exact Nat.le_add_right _ _
      have split := capped_of_page room
      rw [sized, List.map_append, List.take_left' taken, List.drop_left' taken] at split
      rw [whole, following, listed, List.map_append, split, List.length_append, taken,
        List.append_assoc]

theorem loadIndexedSequences_turns (index : server.Index indexKey items) (afterScore : Nat)
    (limit : Option Nat) (turn : Nat) :
    ∃ last stop, turn ≤ last ∧ last ≤ stop ∧
      stop = turn + roundTrips limit
        (beyond Prod.fst (ranked Prod.fst (items last)) (some afterScore)).length ∧
      server.loadIndexedSequences indexKey afterScore limit turn =
        .ok (capped limit ((beyond Prod.fst (ranked Prod.fst (items last))
          (some afterScore)).map Prod.snd), stop) := by
  obtain ⟨last, stop, later, within, ended, ran⟩ :=
    @pageSequences_ok _ _ _ index limit _ _ turn []
      (show 2 ^ 53 - afterScore < 2 ^ 64 by omega)
  refine ⟨last, stop, later, within, by simpa using ended, ?_⟩
  rw [loadIndexedSequences, ran]
  simp

theorem loadIndexedSequences_ok (index : server.Index indexKey items) (afterScore : Nat)
    (limit : Option Nat) (turn : Nat) :
    ∃ last stop, turn ≤ last ∧ last ≤ stop ∧
      server.loadIndexedSequences indexKey afterScore limit turn =
        .ok (capped limit ((beyond Prod.fst (ranked Prod.fst (items last))
          (some afterScore)).map Prod.snd), stop) := by
  obtain ⟨last, stop, later, within, _, ran⟩ :=
    index.loadIndexedSequences_turns afterScore limit turn
  exact ⟨last, stop, later, within, ran⟩

end SharedServer.Index

/-- On a server that nobody writes to, a read of an index gives the members above the score, in
the order of their scores and as far as the limit admits, in as many round trips as so many
members take. -/
theorem loadIndexedSequences_quiet {db : KeySpace} {indexKey : String}
    {items : List (Nat × Nat)} (held : db indexKey = ofSet (indexOf items))
    (distinct : (items.map Prod.fst).Nodup)
    (fits : ∀ item ∈ items, 0 < item.1 ∧ item.1 ≤ 2 ^ 53 ∧ item.2 < 2 ^ 64)
    (afterScore : Nat) (limit : Option Nat) (turn : Nat) :
    let above := (ranked Prod.fst items).filter (fun item => afterScore < item.1)
    SharedServer.loadIndexedSequences ⟨fun _ => db, Nat.repr⟩ indexKey afterScore limit turn =
      .ok (capped limit (above.map Prod.snd), turn + roundTrips limit above.length) := by
  intro above
  have index : SharedServer.Index ⟨fun _ => db, Nat.repr⟩ indexKey (fun _ => items) := by
    constructor
    · exact fun _ => held
    · exact fun _ => distinct
    · exact fun _ item member => ⟨(fits item member).1, (fits item member).2.1, rfl⟩
    · exact fun _ item member => (fits item member).2.2
    · exact fun _ => ⟨List.Subset.refl _, fun _ listed new => absurd listed new⟩
  obtain ⟨_, stop, _, _, ended, ran⟩ := index.loadIndexedSequences_turns afterScore limit turn
  rw [ran, ended]
  rfl

/-- Of 620 members, 550 above a score are read in a full page and a part of one. -/
theorem loadIndexedSequences_quiet_shelf :
    let items : List (Nat × Nat) := (List.range 620).map (fun i => (i + 1, i + 10))
    let db : KeySpace := fun key => if key = "shelf" then ofSet (indexOf items) else none
    SharedServer.loadIndexedSequences ⟨fun _ => db, Nat.repr⟩ "shelf" 20 (some 550) 3 =
      .ok (List.range' 30 550, 5) := by
  intro items db
  have held : db "shelf" = ofSet (indexOf items) := if_pos rfl
  have increasing : Increasing Prod.fst items := by
    rw [Increasing, List.pairwise_map]
    exact List.pairwise_lt_range.imp Nat.succ_lt_succ
  have distinct : (items.map Prod.fst).Nodup :=
    List.pairwise_map.mpr (increasing.imp Nat.ne_of_lt)
  have fits : ∀ item ∈ items, 0 < item.1 ∧ item.1 ≤ 2 ^ 53 ∧ item.2 < 2 ^ 64 := by
    intro item member
    obtain ⟨i, listed, rfl⟩ := List.mem_map.mp member
    have bound := List.mem_range.mp listed
    dsimp only
    omega
  have above : (items.filter (fun item => 20 < item.1)).map Prod.snd = List.range' 30 600 := by
    decide +kernel
  have counted := congrArg List.length above
  rw [List.length_map, List.length_range'] at counted
  have read := loadIndexedSequences_quiet held distinct fits 20 (some 550) 3
  dsimp only at read
  have cut : capped (some 550) (List.range' 30 600) = List.range' 30 550 := by decide +kernel
  have trips : roundTrips (some 550) 600 = 2 := by decide
  rw [ranked_of_increasing increasing, above, counted, cut, trips] at read
  exact read

namespace SharedServer

variable {A : Aggregate} (server : SharedServer) (store : RedisEventStore A)

/-- The hashes of the sequences, chunk by chunk. `fuel` bounds the chunks. -/
def fetchChunks : Nat → List Nat → Session (List RedisHash)
  | 0, _ => return []
  | fuel + 1, sequences => do
      if sequences.isEmpty then return []
      let chunk := sequences.take hashFetchChunkSize
      let value ← server.command
        (fetchHashesLua (chunk.map (fun sequence => store.keyPrefix.key (.event sequence))))
      let hashes ← unpackFlatHashBatch value chunk
      let later ← fetchChunks fuel (sequences.drop hashFetchChunkSize)
      return hashes ++ later

def loadSequenceHashes (sequences : List Nat) : Session (List RedisHash) :=
  server.fetchChunks store sequences.length sequences

/-- The events of one stream index above a revision. -/
def loadStream (aggregateIdKey : String) (revision : Nat) : Session (EventStream A) := do
  let keys := store.keyPrefix.streamKeysForStorageKey A.aggregateType aggregateIdKey
  let sequences ← server.loadIndexedSequences keys.streamKey revision none
  let hashes ← server.loadSequenceHashes store sequences
  store.ownEnvelopes hashes

/-- The first key that has events. -/
def loadKeys (revision : Nat) : List String → Session (EventStream A)
  | [] => return []
  | key :: rest => do
      let events ← server.loadStream store key revision
      if events.isEmpty then loadKeys revision rest else return events

def load (aggregateId : A.Id) : Session (EventStream A) := do
  let keys ← store.codec.aggregateIdLookupKeys aggregateId
  server.loadKeys store 0 keys

def loadAfterRevision (aggregateId : A.Id) (revision : Nat) : Session (EventStream A) := do
  let keys ← store.codec.aggregateIdLookupKeys aggregateId
  server.loadKeys store revision keys

/-- Each chunk is fetched whole, and the chunks make up the list. -/
theorem fetchChunks_ok {α : Type} (sequence : α → Nat) {hash : α → RedisHash} {items : List α}
    (held : ∀ item ∈ items, HashHeld (hash item)) {turn fuel : Nat}
    (stored : ∀ item ∈ items, ∀ later ≥ turn,
      server.reads later (store.keyPrefix.key (.event (sequence item))) =
        some (.hash (hash item)))
    (enough : items.length ≤ fuel) :
    ∃ stop, turn ≤ stop ∧ server.fetchChunks store fuel (items.map sequence) turn =
      .ok (items.map hash, stop) := by
  induction fuel generalizing items turn with
  | zero =>
    have none : items = [] := List.length_eq_zero_iff.mp (Nat.le_zero.mp enough)
    rw [none]
    exact ⟨turn, Nat.le_refl _, rfl⟩
  | succ fuel ih =>
    by_cases empty : items = []
    · rw [empty]
      exact ⟨turn, Nat.le_refl _, rfl⟩
    · have some : (items.map sequence).isEmpty = false := by simpa using empty
      have taken : ∀ item ∈ items.take hashFetchChunkSize, item ∈ items :=
        fun item member => List.mem_of_mem_take member
      have left : ∀ item ∈ items.drop hashFetchChunkSize, item ∈ items :=
        fun item member => List.mem_of_mem_drop member
      obtain ⟨value, executed, unpacked⟩ := fetchHashesLua_ok sequence
        (fun item member => stored item (taken item member) turn (Nat.le_refl _))
        (fun item member => held item (taken item member))
      have ran : server.command (fetchHashesLua ((items.take hashFetchChunkSize).map
          (fun item => store.keyPrefix.key (.event (sequence item))))) turn =
          .ok (value, turn + 1) := by
        rw [command, executed]
        rfl
      have shorter : (items.drop hashFetchChunkSize).length ≤ fuel := by
        rw [List.length_drop, hashFetchChunkSize]
        omega
      obtain ⟨stop, later, rest⟩ := ih (fun item member => held item (left item member))
        (fun item member later beyond =>
          stored item (left item member) later (Nat.le_of_succ_le beyond)) shorter
      have keys : ((items.map sequence).take hashFetchChunkSize).map
          (fun sequence => store.keyPrefix.key (.event sequence)) =
          (items.take hashFetchChunkSize).map
            (fun item => store.keyPrefix.key (.event (sequence item))) := by
        rw [← List.map_take, List.map_map]
        rfl
      refine ⟨stop, Nat.le_of_succ_le later, ?_⟩
      rw [fetchChunks, some, if_neg (by decide), keys, Session.bind_ok ran, ← List.map_take,
        Session.lift_ok unpacked, ← List.map_drop, Session.bind_ok rest]
      show Except.ok ((items.take hashFetchChunkSize).map hash ++
        (items.drop hashFetchChunkSize).map hash, stop) = _
      rw [← List.map_append, List.take_append_drop]

theorem loadSequenceHashes_ok {α : Type} (sequence : α → Nat) {hash : α → RedisHash}
    {items : List α} (held : ∀ item ∈ items, HashHeld (hash item)) {turn : Nat}
    (stored : ∀ item ∈ items, ∀ later ≥ turn,
      server.reads later (store.keyPrefix.key (.event (sequence item))) =
        some (.hash (hash item))) :
    ∃ stop, turn ≤ stop ∧ server.loadSequenceHashes store (items.map sequence) turn =
      .ok (items.map hash, stop) := by
  apply server.fetchChunks_ok store sequence held stored
  rw [List.length_map]

/-- What a prefix stands for at each turn, and only grows at its end. -/
structure Tables (keyPrefix : RedisPrefix) (tables : Nat → EventsTable) : Prop where
  represents : ∀ turn, Represents keyPrefix (server.reads turn) (tables turn)
  bounded : ∀ turn, Bounded (tables turn)
  grows : ∀ turn, (tables turn).rows <+: (tables (turn + 1)).rows

/-- Others only append while the client reads. -/
structure Appending : Prop where
  start : redisMachine.Reachable (server.reads 0)
  runs : ∀ turn, ∃ calls,
    redisMachine.run (server.reads turn) calls = some (server.reads (turn + 1))

end SharedServer

theorem tables_run {keyPrefix : RedisPrefix} {db after : KeySpace} {calls : List RedisCall}
    {table : EventsTable} (reached : redisMachine.Reachable db)
    (ran : redisMachine.run db calls = some after) (represents : Represents keyPrefix db table)
    (bounded : Bounded table) :
    ∃ later, Represents keyPrefix after later ∧ Bounded later ∧ table.rows <+: later.rows := by
  induction calls generalizing db table with
  | nil =>
    cases ran
    exact ⟨table, represents, bounded, List.prefix_refl _⟩
  | cons call rest ih =>
    obtain ⟨between, stepped, ran⟩ := Option.bind_eq_some_iff.mp ran
    have further := reached.step stepped
    simp only [redisMachine] at stepped
    split at stepped
    · rename_i fits
      cases stepped
      obtain ⟨next, represented, within, grown⟩ :=
        call.extends (redisMachine_grounded reached) fits represents bounded
      obtain ⟨later, final, last, whole⟩ := ih further ran represented within
      exact ⟨later, final, last, grown.trans whole⟩
    · cases stepped

namespace SharedServer

variable {A : Aggregate} {server : SharedServer} {keyPrefix : RedisPrefix}

theorem Appending.reachable (appending : server.Appending) (turn : Nat) :
    redisMachine.Reachable (server.reads turn) := by
  induction turn with
  | zero => exact appending.start
  | succ turn ih =>
    obtain ⟨calls, ran⟩ := appending.runs turn
    exact ih.run ran

theorem Appending.exists_tables (appending : server.Appending) (keyPrefix : RedisPrefix) :
    ∃ tables, server.Tables keyPrefix tables := by
  have step : ∀ turn (table : { table : EventsTable //
        Represents keyPrefix (server.reads turn) table ∧ Bounded table }),
      ∃ later : { later : EventsTable //
        Represents keyPrefix (server.reads (turn + 1)) later ∧ Bounded later },
        table.1.rows <+: later.1.rows := by
    intro turn table
    obtain ⟨calls, ran⟩ := appending.runs turn
    obtain ⟨later, represented, within, grown⟩ :=
      tables_run (appending.reachable turn) ran table.2.1 table.2.2
    exact ⟨⟨later, represented, within⟩, grown⟩
  choose next grown using step
  obtain ⟨first, represents, bounded⟩ := redisMachine_grounded appending.start keyPrefix
  let tables : ∀ turn, { table : EventsTable //
      Represents keyPrefix (server.reads turn) table ∧ Bounded table } :=
    fun turn => Nat.rec ⟨first, represents, bounded⟩ next turn
  exact ⟨fun turn => (tables turn).1, fun turn => (tables turn).2.1,
    fun turn => (tables turn).2.2, fun turn => grown turn (tables turn)⟩

/-- When a client read each of its keys. -/
structure Moments (keys : List String) (turn stop : Nat) (moments : List (String × Nat)) :
    Prop where
  keys : moments.map Prod.fst = keys
  ordered : (moments.map Prod.snd).Pairwise (· ≤ ·)
  within : ∀ moment ∈ moments, turn ≤ moment.2 ∧ moment.2 ≤ stop

/-- The rows of the first key that shows any, each key seen at its own moment. -/
def firstRows (view : Nat → String → List StoredEventRow) :
    List (String × Nat) → List StoredEventRow
  | [] => []
  | (key, moment) :: rest =>
    if (view moment key).isEmpty then firstRows view rest else view moment key

/-- The rows of a stream above a revision at one moment. -/
def rowsAbove (tables : Nat → EventsTable) (aggregateType : String) (revision moment : Nat)
    (key : String) : List StoredEventRow :=
  ((tables moment).streamRows aggregateType key).filter (fun row => revision < row.revision)

theorem Moments.cons {key : String} {keys : List String} {turn between stop moment : Nat}
    {moments : List (String × Nat)} (later : Moments keys between stop moments)
    (after : turn ≤ moment) (before : moment ≤ between) (ended : between ≤ stop) :
    Moments (key :: keys) turn stop ((key, moment) :: moments) where
  keys := by rw [List.map_cons, later.keys]
  ordered := by
    rw [List.map_cons, List.pairwise_cons]
    refine ⟨?_, later.ordered⟩
    intro other listed
    obtain ⟨entry, member, rfl⟩ := List.mem_map.mp listed
    exact Nat.le_trans before (later.within entry member).1
  within := by
    intro entry member
    rcases List.mem_cons.mp member with rfl | rest
    · exact ⟨after, Nat.le_trans before ended⟩
    · have bounds := later.within entry rest
      exact ⟨by omega, bounds.2⟩

/-- Keys that are not read any more may be given the last moment. -/
theorem Moments.still (keys : List String) (stop : Nat) :
    Moments keys stop stop (keys.map (fun key => (key, stop))) where
  keys := by
    rw [List.map_map]
    exact List.map_id _
  ordered := by
    rw [List.map_map]
    exact List.pairwise_of_forall (fun _ _ => Nat.le_refl _) |> List.pairwise_map.mpr
  within := by
    intro entry member
    obtain ⟨key, _, rfl⟩ := List.mem_map.mp member
    exact ⟨Nat.le_refl _, Nat.le_refl _⟩

namespace Tables

variable {tables : Nat → EventsTable} {store : RedisEventStore A}

theorem prefix_of_le (held : server.Tables keyPrefix tables) {turn later : Nat}
    (le : turn ≤ later) : (tables turn).rows <+: (tables later).rows := by
  induction later, le using Nat.le_induction with
  | base => exact List.prefix_refl _
  | succ later _ ih => exact ih.trans (held.grows later)

/-- A stream is listed by revision. -/
theorem ascending (held : server.Tables keyPrefix tables) (aggregateType key : String)
    (turn : Nat) :
    Increasing Prod.fst (((tables turn).streamRows aggregateType key).map
      (fun row => (row.revision, row.sequence))) := by
  apply List.pairwise_map.mp
  rw [List.map_map]
  show (((tables turn).streamRows aggregateType key).map (·.revision)).Pairwise _
  rw [(held.represents turn).revisions]
  exact List.pairwise_lt_range'

/-- The index of a stream, as the scores and members it is written with. -/
theorem streamIndex (held : server.Tables keyPrefix tables)
    (written : ∀ score < 2 ^ 52, server.scoreText score = Nat.repr score)
    (aggregateType key : String) :
    server.Index (keyPrefix.key (.stream aggregateType key))
      (fun turn => ((tables turn).streamRows aggregateType key).map
        (fun row => (row.revision, row.sequence))) := by
  have ascending := held.ascending aggregateType key
  have bounds : ∀ turn, ∀ row ∈ (tables turn).streamRows aggregateType key,
      0 < row.revision ∧ row.revision < 10 ^ 14 ∧ row.sequence < 10 ^ 14 := by
    intro turn row listed
    have member := (List.mem_filter.mp listed).1
    have named := List.mem_map_of_mem (f := (·.revision)) listed
    rw [(held.represents turn).revisions, List.mem_range'_1] at named
    have revision := (held.represents turn).row_revision member
    have sequence := ((held.represents turn).toIndexed.row_sequence member).2
    have last := (held.bounded turn).sequence
    exact ⟨by omega, by omega, by omega⟩
  constructor
  · intro turn
    rw [(held.represents turn).stream, indexOf, List.map_map]
    rfl
  · intro turn
    exact (List.pairwise_map.mpr (ascending turn)).imp Nat.ne_of_lt
  · intro turn item member
    obtain ⟨row, listed, rfl⟩ := List.mem_map.mp member
    have bound := bounds turn row listed
    exact ⟨bound.1, by omega, written row.revision (by omega)⟩
  · intro turn item member
    obtain ⟨row, listed, rfl⟩ := List.mem_map.mp member
    have bound := bounds turn row listed
    omega
  · intro turn
    apply Grows.of_prefix (ascending (turn + 1))
    exact ((held.grows turn).filter _).map _

/-- A read of one stream decodes its rows above the revision at one moment. -/
theorem loadStream_ok (held : server.Tables store.keyPrefix tables)
    (written : ∀ score < 2 ^ 52, server.scoreText score = Nat.repr score)
    (aggregateIdKey : String) (revision turn : Nat) :
    ∃ moment stop, turn ≤ moment ∧ moment ≤ stop ∧
      server.loadStream store aggregateIdKey revision turn =
        ((rowsAbove tables A.aggregateType revision moment aggregateIdKey).mapM
          store.reader.envelopeFromStoredRow).map (fun events => (events, stop)) := by
  let items := fun turn => ((tables turn).streamRows A.aggregateType aggregateIdKey).map
    (fun row => (row.revision, row.sequence))
  have index : server.Index (store.keyPrefix.key (.stream A.aggregateType aggregateIdKey)) items :=
    held.streamIndex written A.aggregateType aggregateIdKey
  obtain ⟨moment, between, later, within, sequences⟩ :=
    index.loadIndexedSequences_ok revision none turn
  let rows := rowsAbove tables A.aggregateType revision moment aggregateIdKey
  have member : ∀ row ∈ rows, row ∈ (tables moment).rows ∧ row.aggregateType = A.aggregateType := by
    intro row chosen
    obtain ⟨stored, named⟩ := List.mem_filter.mp (List.mem_filter.mp chosen).1
    rw [decide_eq_true_eq] at named
    exact ⟨stored, named.1⟩
  have listed : capped none ((beyond Prod.fst (ranked Prod.fst (items moment))
      (some revision)).map Prod.snd) = rows.map (·.sequence) := by
    rw [ranked_of_increasing (held.ascending A.aggregateType aggregateIdKey moment), beyond]
    show ((items moment).filter _).map Prod.snd = _
    rw [List.filter_map, List.map_map]
    rfl
  have stored : ∀ row ∈ rows, ∀ later ≥ between, server.reads later
      (store.keyPrefix.key (.event row.sequence)) = some (.hash (rowHash row)) := by
    intro row chosen later beyond
    apply (held.represents later).event row
    exact (held.prefix_of_le (Nat.le_trans within beyond)).subset (member row chosen).1
  have fetched := server.loadSequenceHashes_ok store (fun row : StoredEventRow => row.sequence)
    (fun row _ => rowHash_held row) stored
  obtain ⟨stop, ended, hashes⟩ := fetched
  refine ⟨moment, stop, later, Nat.le_trans within ended, ?_⟩
  rw [listed] at sequences
  have decoded : store.ownEnvelopes (rows.map rowHash) =
      rows.mapM store.reader.envelopeFromStoredRow :=
    store.ownEnvelopes_rows (fun row chosen => (member row chosen).2)
      (fun row chosen => (held.represents moment).hashToRow_ok (held.bounded moment)
        (member row chosen).1)
  rw [loadStream]
  dsimp only [RedisPrefix.streamKeysForStorageKey]
  rw [Session.bind_ok sequences, Session.bind_ok hashes, decoded]
  show _ = (rows.mapM store.reader.envelopeFromStoredRow).map _
  cases rows.mapM store.reader.envelopeFromStoredRow with
  | error error => rfl
  | ok events => rfl

/-- The keys are read one after the other until one has events. -/
theorem loadKeys_ok (held : server.Tables store.keyPrefix tables)
    (written : ∀ score < 2 ^ 52, server.scoreText score = Nat.repr score)
    (keys : List String) (revision turn : Nat) :
    ∃ moments stop, turn ≤ stop ∧ Moments keys turn stop moments ∧
      server.loadKeys store revision keys turn =
        ((firstRows (rowsAbove tables A.aggregateType revision) moments).mapM
          store.reader.envelopeFromStoredRow).map (fun events => (events, stop)) := by
  induction keys generalizing turn with
  | nil => exact ⟨[], turn, Nat.le_refl _, ⟨rfl, .nil, by simp⟩, rfl⟩
  | cons key rest ih =>
    obtain ⟨moment, between, after, before, loaded⟩ :=
      held.loadStream_ok written key revision turn
    generalize listed : rowsAbove tables A.aggregateType revision moment key = rows at loaded
    by_cases empty : rows = []
    · have nothing : server.loadStream store key revision turn = .ok ([], between) := by
        rw [loaded, empty]
        rfl
      obtain ⟨moments, stop, later, seen, ran⟩ := ih between
      refine ⟨(key, moment) :: moments, stop, by omega, seen.cons after before later, ?_⟩
      have skipped : firstRows (rowsAbove tables A.aggregateType revision)
          ((key, moment) :: moments) =
          firstRows (rowsAbove tables A.aggregateType revision) moments := by
        rw [firstRows, listed, if_pos (List.isEmpty_iff.mpr empty)]
      rw [loadKeys, Session.bind_ok nothing, skipped]
      exact ran
    · refine ⟨(key, moment) :: rest.map (fun key => (key, between)), between, by omega,
        (Moments.still rest between).cons after before (Nat.le_refl _), ?_⟩
      have found : firstRows (rowsAbove tables A.aggregateType revision)
          ((key, moment) :: rest.map (fun key => (key, between))) = rows := by
        rw [firstRows, listed, if_neg (by simpa using empty)]
      rw [found, loadKeys]
      cases decoded : rows.mapM store.reader.envelopeFromStoredRow with
      | error error =>
        have failed : server.loadStream store key revision turn = .error error := by
          rw [loaded, decoded]
          rfl
        show (server.loadStream store key revision turn >>= _) = _
        rw [failed]
        rfl
      | ok events =>
        have succeeded : server.loadStream store key revision turn = .ok (events, between) := by
          rw [loaded, decoded]
          rfl
        have some : events.isEmpty = false := by
          have lengths := (forall₂_of_mapM_ok decoded).length_eq
          cases events with
          | nil => exact absurd (List.length_eq_zero_iff.mp lengths) empty
          | cons event events => rfl
        rw [Session.bind_ok succeeded, some, if_neg (by decide)]
        rfl

/-- Revisions count from one. -/
theorem rowsAbove_zero (held : server.Tables keyPrefix tables) (aggregateType : String) :
    rowsAbove tables aggregateType 0 =
      fun moment key => (tables moment).streamRows aggregateType key := by
  funext moment key
  apply List.filter_eq_self.mpr
  intro row listed
  have named := List.mem_map_of_mem (f := (·.revision)) listed
  rw [(held.represents moment).revisions, List.mem_range'_1] at named
  exact decide_eq_true named.1

end Tables

end SharedServer

/-- What a client reads while others append: an index whose scores a double holds, as it was
at one moment of the read and as far as the limit admits; the hash of every sequence it asks
for; and of the keys of an aggregate the rows of the first that has any, each key as it was at
one moment. -/
theorem redisIndexReads_exact (server : SharedServer) :
    (∀ (indexKey : String) (items : Nat → List (Nat × Nat)), server.Index indexKey items →
      ∀ (afterScore : Nat) (limit : Option Nat) (turn : Nat),
        ∃ last stop, turn ≤ last ∧ last ≤ stop ∧
          server.loadIndexedSequences indexKey afterScore limit turn =
            .ok (capped limit (((ranked Prod.fst (items last)).filter
              (fun item => afterScore < item.1)).map Prod.snd), stop)) ∧
    (∀ {A : Aggregate} (store : RedisEventStore A) (sequences : List Nat) (hash : Nat → RedisHash)
      (turn : Nat),
      (∀ sequence ∈ sequences, HashHeld (hash sequence) ∧ ∀ later ≥ turn,
        server.reads later (store.keyPrefix.key (.event sequence)) =
          some (.hash (hash sequence))) →
      ∃ stop, turn ≤ stop ∧
        server.loadSequenceHashes store sequences turn = .ok (sequences.map hash, stop)) ∧
    ∀ {A : Aggregate} (store : RedisEventStore A), server.Appending →
      (∀ score < 2 ^ 52, server.scoreText score = Nat.repr score) →
      ∃ tables, server.Tables store.keyPrefix tables ∧
        ∀ (aggregateId : A.Id) (keys : List String),
          store.codec.aggregateIdLookupKeys aggregateId = .ok keys → ∀ turn : Nat,
          (∃ moments stop, SharedServer.Moments keys turn stop moments ∧
            server.load store aggregateId turn =
              ((SharedServer.firstRows
                  (fun moment key => (tables moment).streamRows A.aggregateType key)
                  moments).mapM store.reader.envelopeFromStoredRow).map
                (fun events => (events, stop))) ∧
          ∀ revision : Nat, ∃ moments stop, SharedServer.Moments keys turn stop moments ∧
            server.loadAfterRevision store aggregateId revision turn =
              ((SharedServer.firstRows
                  (SharedServer.rowsAbove tables A.aggregateType revision)
                  moments).mapM store.reader.envelopeFromStoredRow).map
                (fun events => (events, stop)) := by
  refine ⟨fun indexKey items index => index.loadIndexedSequences_ok, ?_, ?_⟩
  · intro A store sequences hash turn kept
    have fetched := server.loadSequenceHashes_ok store (fun sequence : Nat => sequence)
      (fun sequence member => (kept sequence member).1)
      (fun sequence member => (kept sequence member).2)
    rwa [List.map_id'] at fetched
  · intro A store appending written
    obtain ⟨tables, held⟩ := appending.exists_tables store.keyPrefix
    refine ⟨tables, held, ?_⟩
    intro aggregateId keys lookup turn
    constructor
    · obtain ⟨moments, stop, _, seen, ran⟩ := held.loadKeys_ok written keys 0 turn
      refine ⟨moments, stop, seen, ?_⟩
      rw [SharedServer.load, Session.lift_ok lookup, ran, held.rowsAbove_zero]
    · intro revision
      obtain ⟨moments, stop, _, seen, ran⟩ := held.loadKeys_ok written keys revision turn
      refine ⟨moments, stop, seen, ?_⟩
      rw [SharedServer.loadAfterRevision, Session.lift_ok lookup, ran]

/-- A server on which a second event joins the stream of an account after its first turn. -/
def growingServer : SharedServer where
  reads turn :=
    let opened := ((accountCall "e1" .noStream).outcome (fun _ => none)).2
    if turn = 0 then opened else ((accountCall "e2" (.exact 1)).outcome opened).2
  scoreText := Nat.repr

/-- An index that is not kept in order, and that a member joins after the first turn. -/
def shelfItems (turn : Nat) : List (Nat × Nat) :=
  if turn = 0 then [(2, 7), (1, 9)] else [(2, 7), (5, 8), (1, 9)]

def shelfServer : SharedServer where
  reads turn key := if key = "shelf" then ofSet (indexOf (shelfItems turn)) else none
  scoreText := Nat.repr

theorem shelfServer_index : shelfServer.Index "shelf" shelfItems := by
  have cases : ∀ turn, shelfItems turn = shelfItems 0 ∨ shelfItems turn = shelfItems 1 := by
    intro turn
    by_cases first : turn = 0
    · exact .inl (by rw [first])
    · exact .inr (by rw [shelfItems, if_neg first]; rfl)
  constructor
  · intro turn
    rfl
  · intro turn
    rcases cases turn with same | same <;> rw [same] <;> decide
  · intro turn item member
    have bounds : ∀ item ∈ shelfItems turn, 0 < item.1 ∧ item.1 ≤ 2 ^ 53 := by
      rcases cases turn with same | same <;> rw [same] <;> decide
    exact ⟨(bounds item member).1, (bounds item member).2, rfl⟩
  · intro turn
    rcases cases turn with same | same <;> rw [same] <;> decide
  · intro turn
    rw [show shelfItems (turn + 1) = shelfItems 1 from rfl]
    rcases cases turn with same | same <;> rw [same] <;> unfold Grows <;> decide

theorem growingServer_appending : growingServer.Appending := by
  have opened := redisMachine_step (accountCall "e1" .noStream) (fun _ => none) (by decide)
  constructor
  · exact .step (.start rfl) opened
  · intro turn
    by_cases first : turn = 0
    · refine ⟨[accountCall "e2" (.exact 1)], ?_⟩
      rw [first, Machine.run_cons, redisMachine_step _ _ (by decide +kernel)]
      rfl
    · refine ⟨[], ?_⟩
      rw [growingServer]
      dsimp only
      rw [if_neg first]
      rfl

theorem growingServer_event (turn : Nat) :
    growingServer.reads turn (defaultRedisPrefix.key (.event 1)) =
      some (.hash (hashOf (growingServer.reads 0) (defaultRedisPrefix.key (.event 1)))) := by
  by_cases first : turn = 0
  · rw [first]
    decide +kernel
  · have later : growingServer.reads turn = growingServer.reads 1 := by
      rw [growingServer]
      dsimp only
      rw [if_neg first, if_neg (by decide)]
    rw [later]
    decide +kernel

theorem redisIndexReads_exact_growing :
    (∃ last stop, 0 ≤ last ∧ last ≤ stop ∧
      shelfServer.loadIndexedSequences "shelf" 1 (some 2) 0 =
        .ok (capped (some 2) (((ranked Prod.fst (shelfItems last)).filter
          (fun item => 1 < item.1)).map Prod.snd), stop)) ∧
    (∃ stop, 0 ≤ stop ∧ growingServer.loadSequenceHashes accountRedis [1, 1] 0 =
      .ok ([1, 1].map (fun _ =>
        hashOf (growingServer.reads 0) (defaultRedisPrefix.key (.event 1))), stop)) ∧
    ∃ tables, growingServer.Tables defaultRedisPrefix tables ∧
      ∃ moments stop, SharedServer.Moments ["a", "\"a\""] 0 stop moments ∧
        growingServer.load accountRedis "a" 0 =
          ((SharedServer.firstRows (fun moment key => (tables moment).streamRows "account" key)
            moments).mapM accountReader.envelopeFromStoredRow).map
              (fun events => (events, stop)) := by
  refine ⟨(redisIndexReads_exact shelfServer).1 _ _ shelfServer_index 1 (some 2) 0, ?_, ?_⟩
  · apply (redisIndexReads_exact growingServer).2.1 accountRedis [1, 1]
    intro sequence member
    have only : sequence = 1 := by simpa using member
    rw [only]
    exact ⟨⟨by decide +kernel, by decide +kernel⟩, fun later _ => growingServer_event later⟩
  · obtain ⟨tables, held, loads⟩ :=
      (redisIndexReads_exact growingServer).2.2 accountRedis growingServer_appending
        (fun _ _ => rfl)
    exact ⟨tables, held, (loads "a" ["a", "\"a\""] rfl 0).1⟩

/-- The server rounds the bound up to the score of the only member, which is above it. -/
theorem roundedBound_omits :
    let server : SharedServer := ⟨fun _ => Function.update (fun _ => none) "index"
      (ofSet (indexOf [(2 ^ 53 + 4, 7)])), Nat.repr⟩
    server.loadIndexedSequences "index" (2 ^ 53 + 3) none 0 = .ok ([], 1) ∧
      Binary64.round (2 ^ 53 + 4) = 2 ^ 53 + 4 ∧
      [(2 ^ 53 + 4, 7)].filter (fun item => 2 ^ 53 + 3 < item.1) = [(2 ^ 53 + 4, 7)] := by
  decide +kernel

end DddCqrsEs
