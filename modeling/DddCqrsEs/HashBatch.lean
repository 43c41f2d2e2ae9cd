import DddCqrsEs.Blocks
import DddCqrsEs.RedisReads
import DddCqrsEs.RedisSubscription

/- The batch of event hashes on the wire: what the script answers for a list of keys, and what
is unpacked from any answer, byte by byte. -/
namespace DddCqrsEs

open Resp Blocks

abbrev RawHash := List (String × Bytes)

namespace RawReply

/-- What `HGETALL` lists of a hash. -/
def hgetallItems (hash : RawHash) : List Bytes :=
  hash.flatMap (fun field => [textBytes field.1, field.2])

/-- The table that the script's loop fills. -/
def fetchHashes (hgetall : String → List Bytes) : List String → List Value
  | [] => []
  | key :: rest =>
    .integer (hgetall key).length :: (hgetall key).map .bulk ++ fetchHashes hgetall rest

/-- `FETCH_HASHES_LUA`. -/
def fetchHashesLua (hgetall : String → List Bytes) (keys : List String) : Value :=
  .array (fetchHashes hgetall keys)

variable (utf8Error : Bytes → String)

def redisArrayItems : Value → Except EventStoreError (List Value)
  | .array items => .ok items
  | .nil => .ok []
  | value => .error (.deserialization ("expected Redis array, got " ++ valueDebug value) none)

def redisValueBytes (label : String) : Value → Except EventStoreError Bytes
  | .bulk held => .ok held
  | .status text => .ok (textBytes text)
  | .integer value => .ok (textBytes (numberText value))
  | value => .error (.deserialization
      (label ++ ": expected Redis scalar, got " ++ valueDebug value) none)

def redisValueString (label : String) (value : Value) : Except EventStoreError String := do
  let held ← redisValueBytes label value
  match fromUtf8 held with
  | some text => .ok text
  | none => .error (.deserialization (label ++ " is not valid UTF-8: " ++ utf8Error held) none)

/-- `BTreeMap::insert`. -/
def insert (hash : RawHash) (field : String × Bytes) : RawHash :=
  hash.filter (fun other => other.1 ≠ field.1) ++ [field]

def redisHashPairs (hash : RawHash) : List Value → Except EventStoreError RawHash
  | field :: value :: rest => do
      let name ← redisValueString utf8Error "Redis hash field" field
      let held ← redisValueBytes "Redis hash value" value
      redisHashPairs (insert hash (name, held)) rest
  | _ => .ok hash

def redisHashFromItems (items : List Value) : Except EventStoreError RawHash :=
  if items.length % 2 ≠ 0 then
    .error (.deserialization "Redis hash reply has odd field count" none)
  else redisHashPairs utf8Error [] items

/-- The items from the cursor on, cut into one hash for each sequence. `done` counts the hashes
already read. A `usize` has 64 bits here, so that it holds every count but the negative ones. -/
@[grind =] def unpackFlatHashes (total done : Nat) (items : List Value) :
    List Nat → Except EventStoreError (List RawHash)
  | [] =>
    if items.length = 0 then .ok []
    else .error (.deserialization ("Redis hash batch has " ++ toString items.length ++
      " trailing items after " ++ toString total ++ " events") none)
  | sequence :: rest =>
    match items with
    | [] => .error (.deserialization ("Redis hash batch ended after " ++ toString done ++
        " of " ++ toString total ++ " events") none)
    | .integer count :: entries =>
      if count < 0 then
        .error (.deserialization "Redis hash batch length prefix is negative" none)
      else if entries.length < count.toNat then
        .error (.deserialization ("Redis hash batch is truncated at event sequence " ++
          toString sequence) none)
      else do
        let hash ← redisHashFromItems utf8Error (entries.take count.toNat)
        if hash.isEmpty then
          .error (.deserialization ("Redis event sequence " ++ toString sequence ++
            " is indexed but missing") none)
        else
          let later ← unpackFlatHashes total (done + 1) (entries.drop count.toNat) rest
          return hash :: later
    | _ :: _ =>
      .error (.deserialization "Redis hash batch length prefix is not an integer" none)

def unpackFlatHashBatch (value : Value) (sequences : List Nat) :
    Except EventStoreError (List RawHash) := do
  let items ← redisArrayItems value
  unpackFlatHashes utf8Error sequences.length 0 items sequences

/-- A scalar and the bytes it is read as. -/
inductive Spells : Value → Bytes → Prop
  | bulk (held : Bytes) : Spells (.bulk held) held
  | status (text : String) : Spells (.status text) (textBytes text)
  | integer (value : Int) : Spells (.integer value) (textBytes (numberText value))

/-- Fields and values by turns. -/
inductive Entries : List Value → RawHash → Prop
  | nil : Entries [] []
  | cons {field value : Value} {name : String} {held : Bytes}
      {items : List Value} {entries : RawHash} : Spells field (textBytes name) →
      Spells value held → Entries items entries →
      Entries (field :: value :: items) ((name, held) :: entries)

/-- A block and the map it is read as: the last value of every field. -/
def BlockOf (block : List Value) (hash : RawHash) : Prop :=
  ∃ entries, Entries block entries ∧ entries ≠ [] ∧ entries.foldl insert [] = hash

def lengthItem (length : Nat) : Value := .integer length

/-- The items of a reply that is read as a list. -/
def Listed (reply : Value) (items : List Value) : Prop :=
  reply = .array items ∨ (reply = .nil ∧ items = [])

theorem lengthItem_injective : Function.Injective lengthItem := by
  intro first second same
  exact Int.ofNat.inj (Value.integer.inj same)

variable {items : List Value} {entries hash : RawHash} {hashes : List RawHash}
  {sequences : List Nat} {hgetall : String → List Bytes} {keys : List String}

theorem redisArrayItems_iff {reply : Value} :
    redisArrayItems reply = .ok items ↔ Listed reply items := by
  cases reply <;> simp [redisArrayItems, Listed, eq_comm]

theorem redisValueBytes_iff {label : String} {value : Value} {held : Bytes} :
    redisValueBytes label value = .ok held ↔ Spells value held := by
  constructor
  · intro read
    cases value with
    | bulk | status | integer =>
      cases read
      constructor
    | nil | error | array => cases read
  · intro spells
    cases spells <;> rfl

variable {utf8Error : Bytes → String}

theorem redisValueString_iff {label : String} {value : Value} {text : String} :
    redisValueString utf8Error label value = .ok text ↔ Spells value (textBytes text) := by
  rw [redisValueString, bind_ok_iff]
  constructor
  · rintro ⟨held, read, decoded⟩
    cases found : fromUtf8 held with
    | none =>
      rw [found] at decoded
      cases decoded
    | some named =>
      rw [found] at decoded
      cases decoded
      rw [fromUtf8_iff] at found
      rw [← found]
      exact (redisValueBytes_iff).mp read
  · intro spells
    refine ⟨textBytes text, (redisValueBytes_iff).mpr spells, ?_⟩
    rw [fromUtf8_iff.mpr rfl]

theorem Entries.length (spelled : Entries items entries) : items.length = 2 * entries.length := by
  induction spelled with
  | nil => rfl
  | cons _ _ _ ih =>
    simp only [List.length_cons, ih]
    omega

theorem redisHashPairs_iff {result : RawHash} (even : items.length % 2 = 0) :
    redisHashPairs utf8Error hash items = .ok result ↔
      ∃ entries, Entries items entries ∧ entries.foldl insert hash = result := by
  induction items using List.twoStepInduction generalizing hash with
  | nil =>
    constructor
    · intro read
      cases read
      exact ⟨[], .nil, rfl⟩
    · rintro ⟨entries, spelled, rfl⟩
      cases spelled
      rfl
  | singleton item => cases even
  | cons_cons field value items ih _ =>
    have rest : items.length % 2 = 0 := by
      simp only [List.length_cons] at even
      omega
    rw [redisHashPairs, bind_ok_iff]
    constructor
    · rintro ⟨name, named, read⟩
      obtain ⟨held, valued, read⟩ := bind_ok_iff.mp read
      obtain ⟨entries, spelled, collected⟩ := (ih rest).mp read
      exact ⟨(name, held) :: entries, .cons ((redisValueString_iff).mp named)
        ((redisValueBytes_iff).mp valued) spelled, collected⟩
    · rintro ⟨entries, spelled, collected⟩
      cases spelled with
      | cons named valued spelled =>
        refine ⟨_, (redisValueString_iff).mpr named, ?_⟩
        rw [bind_of_ok ((redisValueBytes_iff).mpr valued)]
        exact (ih rest).mpr ⟨_, spelled, collected⟩

theorem redisHashFromItems_iff :
    redisHashFromItems utf8Error items = .ok hash ↔
      ∃ entries, Entries items entries ∧ entries.foldl insert [] = hash := by
  rw [redisHashFromItems]
  by_cases even : items.length % 2 = 0
  · rw [if_neg (by omega)]
    exact redisHashPairs_iff even
  · rw [if_pos even]
    constructor
    · intro read
      cases read
    · rintro ⟨entries, spelled, _⟩
      have length := spelled.length
      omega

theorem foldl_insert_filled (some : entries ≠ [] ∨ hash ≠ []) : entries.foldl insert hash ≠ [] := by
  induction entries generalizing hash with
  | nil => exact some.resolve_left (by simp)
  | cons field rest ih => exact ih (.inr (by simp [insert]))

/-- A block of items is read as a hash that holds something. -/
theorem blockOf_iff {block : List Value} :
    BlockOf block hash ↔ redisHashFromItems utf8Error block = .ok hash ∧ hash.isEmpty = false := by
  rw [redisHashFromItems_iff]
  constructor
  · rintro ⟨entries, spelled, some, rfl⟩
    refine ⟨⟨entries, spelled, rfl⟩, ?_⟩
    rw [List.isEmpty_eq_false_iff]
    exact foldl_insert_filled (.inl some)
  · rintro ⟨⟨entries, spelled, rfl⟩, some⟩
    refine ⟨entries, spelled, ?_, rfl⟩
    rintro rfl
    exact absurd some (by decide)

/-- One round: a length, its items, which are a hash, and what the other rounds read. -/
theorem unpackFlatHashes_cons {total done sequence : Nat} {rest : List Nat} :
    unpackFlatHashes utf8Error total done items (sequence :: rest) = .ok hashes ↔
      ∃ block remaining hash later, items = lengthItem block.length :: (block ++ remaining) ∧
        BlockOf block hash ∧
        unpackFlatHashes utf8Error total (done + 1) remaining rest = .ok later ∧
        hashes = hash :: later := by
  constructor
  · intro read
    rw [unpackFlatHashes.eq_def] at read
    dsimp only at read
    split at read
    · cases read
    · rename_i count entries
      by_cases negative : count < 0
      · rw [if_pos negative] at read
        cases read
      rw [if_neg negative] at read
      by_cases truncated : entries.length < count.toNat
      · rw [if_pos truncated] at read
        cases read
      rw [if_neg truncated] at read
      obtain ⟨hash, own, read⟩ := bind_ok_iff.mp read
      cases empty : hash.isEmpty with
      | true =>
        rw [empty, if_pos rfl] at read
        cases read
      | false =>
        rw [empty, if_neg (by decide)] at read
        obtain ⟨later, unpacked, read⟩ := bind_ok_iff.mp read
        cases read
        have length : (entries.take count.toNat).length = count.toNat :=
          List.length_take_of_le (Nat.le_of_not_lt truncated)
        refine ⟨entries.take count.toNat, entries.drop count.toNat, hash, later, ?_,
          (blockOf_iff).mpr ⟨own, empty⟩, unpacked, rfl⟩
        rw [List.take_append_drop, length, lengthItem,
          Int.toNat_of_nonneg (Int.not_lt.mp negative)]
    · cases read
  · rintro ⟨block, remaining, hash, later, rfl, first, unpacked, rfl⟩
    have read : redisHashFromItems utf8Error block = .ok hash ∧ hash.isEmpty = false :=
      (blockOf_iff).mp first
    rw [lengthItem, unpackFlatHashes, if_neg (by omega), Int.toNat_natCast,
      if_neg (by rw [List.length_append]; omega), List.take_left' rfl,
      List.drop_left' rfl, bind_of_ok read.1, read.2, if_neg (by decide), bind_of_ok unpacked]
    rfl

/-- The cursor moves from block to block, and ends behind the last one. -/
theorem unpackFlatHashes_iff {total done : Nat} :
    unpackFlatHashes utf8Error total done items sequences = .ok hashes ↔
      ∃ blocks, items = flat lengthItem blocks ∧ blocks.length = sequences.length ∧
        List.Forall₂ BlockOf blocks hashes := by
  induction sequences generalizing done items hashes with
  | nil =>
    rw [unpackFlatHashes]
    constructor
    · intro read
      by_cases ended : items.length = 0
      · rw [if_pos ended] at read
        cases read
        exact ⟨[], List.length_eq_zero_iff.mp ended, rfl, .nil⟩
      · rw [if_neg ended] at read
        cases read
    · rintro ⟨blocks, rfl, count, decoded⟩
      have none : blocks = [] := List.length_eq_zero_iff.mp count
      subst none
      cases decoded
      rfl
  | cons sequence rest ih =>
    rw [unpackFlatHashes_cons]
    constructor
    · rintro ⟨block, remaining, hash, later, rfl, first, unpacked, rfl⟩
      obtain ⟨blocks, rfl, count, decoded⟩ := ih.mp unpacked
      exact ⟨block :: blocks, (flat_cons _ _).symm, congrArg Nat.succ count,
        .cons first decoded⟩
    · rintro ⟨blocks, rfl, count, decoded⟩
      cases decoded with
      | nil => cases count
      | cons first decoded =>
        rename_i block hash blocks hashes
        exact ⟨block, flat lengthItem blocks, hash, hashes, flat_cons _ _, first,
          ih.mpr ⟨blocks, rfl, Nat.succ.inj count, decoded⟩, rfl⟩

theorem unpackFlatHashBatch_iff {reply : Value} :
    unpackFlatHashBatch utf8Error reply sequences = .ok hashes ↔
      ∃ blocks, Listed reply (flat lengthItem blocks) ∧ blocks.length = sequences.length ∧
        List.Forall₂ BlockOf blocks hashes := by
  rw [unpackFlatHashBatch, bind_ok_iff]
  constructor
  · rintro ⟨items, listed, unpacked⟩
    obtain ⟨blocks, rfl, lengths, decoded⟩ := (unpackFlatHashes_iff).mp unpacked
    exact ⟨blocks, (redisArrayItems_iff).mp listed, lengths, decoded⟩
  · rintro ⟨blocks, listed, lengths, decoded⟩
    exact ⟨_, (redisArrayItems_iff).mpr listed,
      (unpackFlatHashes_iff).mpr ⟨blocks, rfl, lengths, decoded⟩⟩

/-- Fields with different names are all kept. -/
theorem foldl_insert (distinct : ((hash ++ entries).map Prod.fst).Nodup) :
    entries.foldl insert hash = hash ++ entries := by
  induction entries generalizing hash with
  | nil => simp
  | cons field rest ih =>
    have kept : hash.filter (fun other => other.1 ≠ field.1) = hash := by
      rw [List.map_append, List.map_cons, List.nodup_append] at distinct
      apply List.filter_eq_self.mpr
      intro other listed
      exact decide_eq_true (fun same => distinct.2.2 other.1 (List.mem_map_of_mem listed)
        field.1 List.mem_cons_self same)
    rw [List.foldl_cons, insert, kept, ih (by simpa using distinct)]
    simp

theorem entries_hgetallItems (hash : RawHash) :
    Entries ((hgetallItems hash).map .bulk) hash := by
  induction hash with
  | nil => exact .nil
  | cons field rest ih => exact .cons (.bulk _) (.bulk _) ih

/-- The keys hold these hashes: each has some fields, with different names. -/
def Holds (hgetall : String → List Bytes) (keys : List String) (hashes : List RawHash) : Prop :=
  List.Forall₂ (fun key hash => hgetall key = hgetallItems hash ∧ hash ≠ [] ∧
    (hash.map Prod.fst).Nodup) keys hashes

theorem fetchHashes_flat (hgetall : String → List Bytes) (keys : List String) :
    fetchHashes hgetall keys =
      flat lengthItem (keys.map (fun key => (hgetall key).map .bulk)) := by
  induction keys with
  | nil => rfl
  | cons key rest ih =>
    rw [fetchHashes, ih, List.map_cons, flat_cons, List.length_map, lengthItem]
    rfl

theorem Holds.blocks (holds : Holds hgetall keys hashes) :
    List.Forall₂ BlockOf (keys.map (fun key => (hgetall key).map .bulk)) hashes := by
  induction holds with
  | nil => exact .nil
  | cons first _ ih =>
    refine .cons ⟨_, ?_, first.2.1, foldl_insert (by simpa using first.2.2)⟩ ih
    dsimp only
    rw [first.1]
    exact entries_hgetallItems _

/-- An answer of the script is cut into the hashes it was built from. -/
theorem Holds.unpacked (holds : Holds hgetall keys hashes)
    (asked : sequences.length = keys.length) :
    unpackFlatHashBatch utf8Error (fetchHashesLua hgetall keys) sequences = .ok hashes := by
  apply (unpackFlatHashBatch_iff).mpr
  refine ⟨_, .inl ?_, ?_, holds.blocks⟩
  · rw [fetchHashesLua, fetchHashes_flat]
  · rw [List.length_map, asked]

theorem error_of_not_ok {α : Type} {outcome : Except EventStoreError α}
    (never : ∀ value, outcome ≠ .ok value) : ∃ error, outcome = .error error := by
  cases outcome with
  | error error => exact ⟨error, rfl⟩
  | ok value => exact absurd rfl (never value)

theorem listed_array {others : List Value} (listed : Listed (.array items) others) :
    items = others := by
  rcases listed with same | ⟨same, _⟩
  · exact Value.array.inj same
  · cases same

/-- Two replies that are accepted for the same sequences: one is not longer than the other. -/
theorem accepted_alone {extra : List Value} {others : List RawHash}
    (first : unpackFlatHashBatch utf8Error (.array items) sequences = .ok hashes)
    (second : unpackFlatHashBatch utf8Error (.array (items ++ extra)) sequences = .ok others) :
    extra = [] := by
  obtain ⟨blocks, listed, count, _⟩ := (unpackFlatHashBatch_iff).mp first
  obtain ⟨longer, whole, same, _⟩ := (unpackFlatHashBatch_iff).mp second
  have split : flat lengthItem blocks ++ extra = flat lengthItem longer ++ [] := by
    rw [← listed_array listed, listed_array whole, List.append_nil]
  exact (flat_unique lengthItem_injective (count.trans same.symm) split).2

mutual

def ofText : RedisValue → Value
  | .nil => .nil
  | .status text => .status text
  | .int value => .integer value
  | .bytes text => .bulk (textBytes text)
  | .array items => .array (ofTexts items)

def ofTexts : List RedisValue → List Value
  | [] => []
  | value :: rest => ofText value :: ofTexts rest

end

def hashOfText (hash : RedisHash) : RawHash :=
  hash.map (fun field => (field.1, textBytes field.2))

mutual

theorem debug_ofText (value : RedisValue) : valueDebug (ofText value) = value.debug := by
  cases value with
  | nil | status | int | bytes => rfl
  | array items => rw [ofText, valueDebug, debugAll_ofTexts items, RedisValue.debug]

theorem debugAll_ofTexts (items : List RedisValue) :
    valuesDebug (ofTexts items) = RedisValue.debugAll items := by
  cases items with
  | nil => rfl
  | cons value rest =>
    rw [ofTexts, valuesDebug, debug_ofText value, debugAll_ofTexts rest, RedisValue.debugAll]

end

theorem ofTexts_eq_map (items : List RedisValue) : ofTexts items = items.map ofText := by
  induction items with
  | nil => rfl
  | cons value rest ih => rw [ofTexts, ih, List.map_cons]

theorem redisValueBytes_ofText (label : String) (value : RedisValue) :
    redisValueBytes label (ofText value) =
      (DddCqrsEs.redisValueBytes label value).map textBytes := by
  cases value with
  | int value =>
    rw [ofText, redisValueBytes, numberText_eq_toString]
    rfl
  | nil | status | bytes => rfl
  | array items =>
    have shown := debug_ofText (.array items)
    rw [ofText] at shown
    rw [ofText, redisValueBytes, shown]
    · rfl
    all_goals simp

theorem redisValueString_ofText (label : String) (value : RedisValue) :
    redisValueString utf8Error label (ofText value) =
      DddCqrsEs.redisValueString label value := by
  rw [redisValueString, redisValueBytes_ofText, DddCqrsEs.redisValueString]
  cases DddCqrsEs.redisValueBytes label value with
  | error error => rfl
  | ok text =>
    show (match fromUtf8 (textBytes text) with
      | some named => Except.ok named
      | none => _) = _
    rw [fromUtf8_iff.mpr rfl]

theorem hashOfText_setField (hash : RedisHash) (field : String × String) :
    hashOfText (RedisServer.setField hash field) =
      insert (hashOfText hash) (field.1, textBytes field.2) := by
  rw [RedisServer.setField, hashOfText, insert, hashOfText, List.map_append, List.filter_map]
  rfl

theorem redisHashPairs_ofText (hash : RedisHash) (items : List RedisValue) :
    redisHashPairs utf8Error (hashOfText hash) (items.map ofText) =
      (DddCqrsEs.redisHashPairs hash items).map hashOfText := by
  induction items using List.twoStepInduction generalizing hash with
  | nil => rfl
  | singleton item => rfl
  | cons_cons field value items ih _ =>
    rw [List.map_cons, List.map_cons, redisHashPairs, redisValueString_ofText,
      redisValueBytes_ofText, DddCqrsEs.redisHashPairs]
    cases DddCqrsEs.redisValueString "Redis hash field" field with
    | error error => rfl
    | ok name =>
      cases DddCqrsEs.redisValueBytes "Redis hash value" value with
      | error error => rfl
      | ok text =>
        have later := ih (RedisServer.setField hash (name, text))
        rw [hashOfText_setField] at later
        exact later

theorem redisHashFromItems_ofText (items : List RedisValue) :
    redisHashFromItems utf8Error (items.map ofText) =
      (DddCqrsEs.redisHashFromItems items).map hashOfText := by
  rw [redisHashFromItems, DddCqrsEs.redisHashFromItems, List.length_map]
  by_cases odd : items.length % 2 ≠ 0
  · rw [if_pos odd, if_pos odd]
    rfl
  · rw [if_neg odd, if_neg odd]
    exact redisHashPairs_ofText [] items

theorem unpackFlatHashes_ofText (total done : Nat) (items : List RedisValue)
    (sequences : List Nat) :
    unpackFlatHashes utf8Error total done (items.map ofText) sequences =
      (DddCqrsEs.unpackFlatHashes total done items sequences).map (List.map hashOfText) := by
  induction sequences generalizing done items with
  | nil =>
    rw [unpackFlatHashes, DddCqrsEs.unpackFlatHashes, List.length_map]
    by_cases ended : items.length = 0
    · rw [if_pos ended, if_pos ended]
      rfl
    · rw [if_neg ended, if_neg ended]
      rfl
  | cons sequence rest ih =>
    cases items with
    | nil => rfl
    | cons item entries =>
      cases item with
      | nil | status | bytes | array => rfl
      | int count =>
        rw [List.map_cons, ofText, unpackFlatHashes, DddCqrsEs.unpackFlatHashes,
          List.length_map]
        by_cases negative : count < 0
        · rw [if_pos negative, if_pos negative]
          rfl
        rw [if_neg negative, if_neg negative]
        by_cases truncated : entries.length < count.toNat
        · rw [if_pos truncated, if_pos truncated]
          rfl
        rw [if_neg truncated, if_neg truncated, ← List.map_take,
          redisHashFromItems_ofText, ← List.map_drop, ih]
        cases DddCqrsEs.redisHashFromItems (entries.take count.toNat) with
        | error error => rfl
        | ok hash =>
          have same : (hashOfText hash).isEmpty = hash.isEmpty := List.isEmpty_map
          show (if (hashOfText hash).isEmpty then _ else _) = Except.map _ (ite _ _ _)
          rw [same]
          cases hash.isEmpty with
          | true => rfl
          | false =>
            cases DddCqrsEs.unpackFlatHashes total (done + 1)
                (entries.drop count.toNat) rest with
            | error error => rfl
            | ok later => rfl

/-- On such a reply the batch is unpacked as the store unpacks it. -/
theorem unpackFlatHashBatch_ofText (value : RedisValue) (sequences : List Nat) :
    unpackFlatHashBatch utf8Error (ofText value) sequences =
      (DddCqrsEs.unpackFlatHashBatch value sequences).map (List.map hashOfText) := by
  have listed : redisArrayItems (ofText value) =
      (DddCqrsEs.redisArrayItems value).map (List.map ofText) := by
    cases value with
    | array items =>
      rw [ofText, ofTexts_eq_map]
      rfl
    | nil => rfl
    | status | int | bytes => rfl
  rw [unpackFlatHashBatch, listed, DddCqrsEs.unpackFlatHashBatch]
  cases DddCqrsEs.redisArrayItems value with
  | error error => rfl
  | ok items => exact unpackFlatHashes_ofText sequences.length 0 items sequences

/-- What the script answers is unpacked into the hashes it was built from. What is unpacked at
all is a list of blocks, one for each sequence and nothing else: an integer tells how many items
follow, and these are scalars, names and values by turns, and some. So no part and no longer
list is unpacked as well, nor is an answer of the script that has lost its first items. -/
theorem hashBatch_exact (utf8Error : Bytes → String) :
    (∀ hgetall keys hashes sequences, Holds hgetall keys hashes →
      sequences.length = keys.length →
      unpackFlatHashBatch utf8Error (fetchHashesLua hgetall keys) sequences = .ok hashes ∧
      ∀ count, 0 < count → count ≤ (fetchHashes hgetall keys).length →
        ∃ error, unpackFlatHashBatch utf8Error (.array ((fetchHashes hgetall keys).drop count))
          sequences = .error error) ∧
    (∀ reply sequences hashes,
      unpackFlatHashBatch utf8Error reply sequences = .ok hashes ↔
        ∃ blocks, Listed reply (flat lengthItem blocks) ∧ blocks.length = sequences.length ∧
          List.Forall₂ BlockOf blocks hashes) ∧
    ∀ items sequences hashes,
      unpackFlatHashBatch utf8Error (.array items) sequences = .ok hashes →
      (∀ count, count < items.length → ∃ error,
        unpackFlatHashBatch utf8Error (.array (items.take count)) sequences = .error error) ∧
      ∀ extra, extra ≠ [] → ∃ error,
        unpackFlatHashBatch utf8Error (.array (items ++ extra)) sequences = .error error := by
  refine ⟨?_, fun reply sequences hashes => unpackFlatHashBatch_iff, ?_⟩
  · intro hgetall keys hashes sequences holds asked
    refine ⟨holds.unpacked asked, ?_⟩
    intro count positive within
    apply error_of_not_ok
    intro others accepted
    obtain ⟨blocks, listed, lengths, _⟩ := (unpackFlatHashBatch_iff).mp accepted
    have left := listed_array listed
    rw [fetchHashes_flat] at left within
    have plain : ∀ block ∈ keys.map (fun key => (hgetall key).map Value.bulk),
        ∀ item ∈ block, ∀ length, item ≠ lengthItem length := by
      intro block member item listed length
      obtain ⟨key, _, rfl⟩ := List.mem_map.mp member
      obtain ⟨held, _, rfl⟩ := List.mem_map.mp listed
      simp [lengthItem]
    have fewer := fewer_of_drop lengthItem_injective plain positive within left
    rw [List.length_map] at fewer
    omega
  · intro items sequences hashes accepted
    constructor
    · intro count short
      apply error_of_not_ok
      intro others part
      have whole : unpackFlatHashBatch utf8Error
          (.array (items.take count ++ items.drop count)) sequences = .ok hashes := by
        rwa [List.take_append_drop]
      have none := congrArg List.length (accepted_alone part whole)
      rw [List.length_drop, List.length_nil] at none
      omega
    · intro extra some
      apply error_of_not_ok
      intro others longer
      exact some (accepted_alone accepted longer)

def accountHash : RawHash := [("event_id", textBytes "e1"), ("payload", [0, 255])]

/-- A hash whose values look like a length. -/
def countedHash : RawHash :=
  [("event_id", textBytes "2"), ("revision", textBytes "2"), ("payload", [])]

def accountHashes (key : String) : List Bytes :=
  if key = "event:1" ∨ key = "event:3" then hgetallItems accountHash
  else if key = "event:2" then hgetallItems countedHash else []

def accountKeys : List String := ["event:1", "event:2", "event:3"]

/-- Three hashes of two lengths. Without its first length, without its last value and with one
more length the answer is rejected. -/
theorem hashBatch_exact_accounts :
    let answer := fetchHashes accountHashes accountKeys
    unpackFlatHashBatch (fun _ => "invalid") (fetchHashesLua accountHashes accountKeys) [1, 2, 3] =
        .ok [accountHash, countedHash, accountHash] ∧
      (∃ blocks, Listed (fetchHashesLua accountHashes accountKeys) (flat lengthItem blocks) ∧
        blocks.length = 3 ∧
        List.Forall₂ BlockOf blocks [accountHash, countedHash, accountHash]) ∧
      (∃ error, unpackFlatHashBatch (fun _ => "invalid") (.array (answer.drop 1)) [1, 2, 3] =
        .error error) ∧
      (∃ error, unpackFlatHashBatch (fun _ => "invalid") (.array (answer.take 16)) [1, 2, 3] =
        .error error) ∧
      ∃ error, unpackFlatHashBatch (fun _ => "invalid") (.array (answer ++ [lengthItem 0]))
        [1, 2, 3] = .error error := by
  intro answer
  have holds : Holds accountHashes accountKeys [accountHash, countedHash, accountHash] :=
    .cons ⟨rfl, by decide, by decide⟩ (.cons ⟨rfl, by decide, by decide⟩
      (.cons ⟨rfl, by decide, by decide⟩ .nil))
  obtain ⟨answered, readable, whole⟩ := hashBatch_exact (fun _ => "invalid")
  obtain ⟨unpacked, dropped⟩ := answered accountHashes accountKeys _ [1, 2, 3] holds rfl
  obtain ⟨taken, longer⟩ := whole _ [1, 2, 3] _ unpacked
  exact ⟨unpacked, (readable _ [1, 2, 3] _).mp unpacked, dropped 1 (by decide) (by decide),
    taken 16 (by decide), longer [lengthItem 0] (List.cons_ne_nil _ _)⟩

/-- An answer of the script behind two more items, which is read as one hash of two fields. The
announced length of the hash has become a value. -/
theorem shiftedBatch_accepted :
    let answer := fetchHashes (fun _ => hgetallItems [("event_id", [49])]) ["event"]
    let shifted : Value := .array (.integer 4 :: .bulk (textBytes "count") :: answer)
    unpackFlatHashBatch (fun _ => "invalid") shifted [1] =
        .ok [[("count", textBytes "2"), ("event_id", [49])]] ∧
      ∀ hgetall keys hashes, Holds hgetall keys hashes →
        fetchHashesLua hgetall keys ≠ shifted := by
  refine ⟨by decide +kernel, ?_⟩
  intro hgetall keys hashes _ same
  have items := Value.array.inj same
  rw [fetchHashes_flat] at items
  let block : List Value :=
    [.bulk (textBytes "count"), .integer 2, .bulk (textBytes "event_id"), .bulk [49]]
  have cut : keys.map (fun key => (hgetall key).map Value.bulk) = [block] :=
    flat_injective lengthItem_injective items
  have member : block ∈ keys.map (fun key => (hgetall key).map Value.bulk) := by
    rw [cut]
    exact List.mem_singleton_self _
  obtain ⟨key, _, listed⟩ := List.mem_map.mp member
  have count : Value.integer 2 ∈ (hgetall key).map Value.bulk := by
    rw [listed]
    exact List.mem_cons_of_mem _ List.mem_cons_self
  obtain ⟨_, _, wrong⟩ := List.mem_map.mp count
  cases wrong

end RawReply

end DddCqrsEs
