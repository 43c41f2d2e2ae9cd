import DddCqrsEs.JsonString
import DddCqrsEs.LegacyKeys

/- Ids that serialize to a JSON string. New rows hold such an id as its plain text, rows of
older versions as the quoted text, and a stored text is read as JSON before it is taken as it
stands. -/
namespace DddCqrsEs

variable {A : Aggregate}

/-- The JSON text of a string and its reader, which fails with a message. -/
structure JsonText where
  write : String → String
  read : String → Except String String
  read_write : ∀ value, read (write value) = .ok value
  shorter : ∀ text value, read text = .ok value → value.length < text.length

/-- Strings as the JSON library writes and reads them. -/
def serdeJson : JsonText where
  write value := String.ofList (JsonString.write value.toList)
  read text :=
    match JsonString.read text.toList with
    | some value => .ok (String.ofList value)
    | none => .error "expected value at line 1 column 1"
  read_write value := by
    simp [JsonString.read_write]
  shorter text value found := by
    split at found
    · rename_i inner read
      cases found
      rw [String.length_ofList, ← String.length_toList]
      exact JsonString.read_length read
    · cases found

/-- `fromStr` is the id type's own reader. -/
def deserializeId {Id : Type} (json : JsonText) (fromStr : String → Except String Id)
    (value : String) : Except EventStoreError Id :=
  match fromStr value with
  | .ok id => .ok id
  | .error first =>
    match fromStr (json.write value) with
    | .ok id => .ok id
    | .error error =>
      .error (.deserialization
        ("aggregate_id: " ++ error ++ " (also tried legacy quoted form after " ++ first ++ ")")
        none)

/-- Every string is an id, and an id is a JSON string. -/
structure StringIds (codec : RowCodec A) (json : JsonText) where
  text : A.Id ≃ String
  idValue_text : ∀ id, codec.idValue id = .ok (.string (text id))
  idJson_text : ∀ id, codec.idJson id = some (json.write (text id))

namespace JsonText

variable (json : JsonText)

theorem write_injective {first second : String} (same : json.write first = json.write second) :
    first = second := by
  have read := json.read_write first
  rw [same, json.read_write second] at read
  exact (Except.ok.inj read).symm

theorem write_ne (value : String) : json.write value ≠ value := by
  intro same
  have longer := json.shorter (json.write value) value (json.read_write value)
  rw [same] at longer
  exact absurd longer (Nat.lt_irrefl _)

end JsonText

namespace StringIds

variable {codec : RowCodec A} {json : JsonText} (ids : StringIds codec json)

/-- The id type's reader: the string of a JSON text. -/
def fromStr (value : String) : Except String A.Id := (json.read value).map ids.text.symm

/-- The id that a stored column text stands for. -/
def deserialize (value : String) : Except EventStoreError A.Id :=
  deserializeId json ids.fromStr value

theorem serializeId (id : A.Id) : codec.serializeId id = .ok (ids.text id) := by
  rw [RowCodec.serializeId, ids.idValue_text]

theorem aggregateIdLookupKeys (id : A.Id) :
    codec.aggregateIdLookupKeys id = .ok [ids.text id, json.write (ids.text id)] := by
  rw [RowCodec.aggregateIdLookupKeys, ids.serializeId, ids.idJson_text]
  dsimp only
  rw [if_pos (json.write_ne (ids.text id))]

/-- A text that is no JSON string is taken as it stands. -/
theorem deserialize_plain {value error : String} (plain : json.read value = .error error) :
    ids.deserialize value = .ok (ids.text.symm value) := by
  rw [deserialize, deserializeId, fromStr, plain]
  dsimp only [Except.map]
  rw [fromStr, json.read_write]
  rfl

theorem deserialize_quoted {value inner : String} (quoted : json.read value = .ok inner) :
    ids.deserialize value = .ok (ids.text.symm inner) := by
  rw [deserialize, deserializeId, fromStr, quoted]
  rfl

/-- Reading a stored id gives it back unless the id is itself the text of a JSON string. -/
theorem deserialize_text_iff (id : A.Id) :
    ids.deserialize (ids.text id) = .ok id ↔ ∀ inner, json.read (ids.text id) ≠ .ok inner := by
  constructor
  · intro back inner quoted
    rw [ids.deserialize_quoted quoted, Except.ok.injEq, Equiv.symm_apply_eq] at back
    have longer := json.shorter _ _ quoted
    rw [back] at longer
    exact absurd longer (Nat.lt_irrefl _)
  · intro plain
    cases read : json.read (ids.text id) with
    | ok inner => exact absurd read (plain inner)
    | error error =>
      rw [ids.deserialize_plain read, Equiv.symm_apply_apply]

/-- Neither id is the quoted form of the other. -/
def Apart (x y : A.Id) : Prop :=
  ids.text x ≠ json.write (ids.text y) ∧ ids.text y ≠ json.write (ids.text x)

theorem disjoint_iff {x y : A.Id} (differ : x ≠ y) :
    [ids.text x, json.write (ids.text x)].Disjoint [ids.text y, json.write (ids.text y)] ↔
      ids.Apart x y := by
  have texts : ids.text x ≠ ids.text y := fun same => differ (ids.text.injective same)
  have quoted : json.write (ids.text x) ≠ json.write (ids.text y) :=
    fun same => texts (json.write_injective same)
  constructor
  · intro disjoint
    exact ⟨fun same => disjoint (a := ids.text x) (by simp) (by simp [same]),
      fun same => disjoint (a := ids.text y) (by simp [same]) (by simp)⟩
  · rintro ⟨first, second⟩ key mine theirs
    simp only [List.mem_cons, List.not_mem_nil, or_false] at mine theirs
    rcases mine with rfl | rfl <;> rcases theirs with same | same
    · exact texts same
    · exact first same
    · exact second same.symm
    · exact quoted same

end StringIds

variable {table after : EventsTable} {keys : List String}

/-- An append leaves what other ids look at as it was: their rows, and so their load and
their highest revision. -/
theorem SqlEventStore.append_elsewhere (store : SqlEventStore A)
    {fault : Nat → Option EventStoreError} {writer : A.Id} {expectedRevision : ExpectedRevision}
    {events : List (NewEvent A.Event × Stamp)} {committed : EventStream A} {written : List String}
    (lookup : store.codec.aggregateIdLookupKeys writer = .ok written)
    (apart : written.Disjoint keys)
    (appended : store.append table fault writer expectedRevision events = .ok (committed, after)) :
    ∀ key ∈ keys, after.streamRows A.aggregateType key = table.streamRows A.aggregateType key := by
  intro key member
  obtain ⟨_, added, grown, _, _, keyed, _⟩ := SqlEventStore.append_ok lookup appended
  have first : written.headD "" ∈ written := by
    obtain ⟨current, rfl | ⟨legacy, _, rfl⟩⟩ := aggregateIdLookupKeys_shape lookup <;> simp
  rw [EventsTable.streamRows_added grown, List.filter_eq_nil_iff.mpr, List.append_nil]
  intro row new
  have own := (keyed row new).2
  simp only [own, decide_eq_true_eq, not_and]
  rintro _ rfl
  exact apart first member

/-- What two tables show an id is the same where its keys have the same rows. -/
theorem SqlEventStore.loadRows_congr (store : SqlEventStore A) {aggregateId : A.Id}
    (lookup : store.codec.aggregateIdLookupKeys aggregateId = .ok keys) (same : ∀ key ∈ keys,
      after.streamRows A.aggregateType key = table.streamRows A.aggregateType key) :
    store.loadRows after aggregateId = store.loadRows table aggregateId := by
  have shape := aggregateIdLookupKeys_shape lookup
  have selected : ∀ key ∈ keys,
      after.selectStream A.aggregateType key = table.selectStream A.aggregateType key := by
    intro key member
    rw [EventsTable.selectStream, same key member, EventsTable.selectStream]
  rw [loadRows, loadRows, lookup]
  obtain ⟨current, rfl | ⟨legacy, _, rfl⟩⟩ := shape
  · simp only [Except.map, queryLookupKeys, selected current (by simp)]
  · simp only [Except.map, queryLookupKeys, selected current (by simp), selected legacy (by simp)]

theorem maxRevisionForLookupKeys_congr (same : ∀ key ∈ keys,
      after.streamRows A.aggregateType key = table.streamRows A.aggregateType key) :
    maxRevisionForLookupKeys keys (after.currentRevision A.aggregateType) =
      maxRevisionForLookupKeys keys (table.currentRevision A.aggregateType) := by
  have each : ∀ key ∈ keys,
      after.currentRevision A.aggregateType key = table.currentRevision A.aggregateType key := by
    intro key member
    rw [EventsTable.currentRevision, same key member, EventsTable.currentRevision]
  exact List.foldl_ext _ _ _ (fun highest key member => by rw [each key member])

/-- What string ids share. Two of them share a storage key exactly when one is the quoted form
of the other; otherwise an append to one leaves the load and the revision check of the other
as they were, in the databases that compare text columns byte for byte. A stored id reads back
as itself exactly when it is not itself the text of a JSON string. -/
theorem stringIds_isolated {codec : RowCodec A} {json : JsonText} (ids : StringIds codec json) :
    (∀ x y : A.Id, x ≠ y → ∃ mine theirs,
      codec.aggregateIdLookupKeys x = .ok mine ∧ codec.aggregateIdLookupKeys y = .ok theirs ∧
      (mine.Disjoint theirs ↔ ids.Apart x y) ∧
      (ids.Apart x y →
        ∀ dialect ≠ SqlDialect.mysql, ∀ (table after : EventsTable)
          (fault : Nat → Option EventStoreError) (expectedRevision : ExpectedRevision)
          (events : List (NewEvent A.Event × Stamp)) (committed : EventStream A),
          SqlEventStore.append ⟨dialect, codec⟩ table fault y expectedRevision events =
            .ok (committed, after) →
          SqlEventStore.loadRows ⟨dialect, codec⟩ after x =
            SqlEventStore.loadRows ⟨dialect, codec⟩ table x ∧
          maxRevisionForLookupKeys mine (after.currentRevision A.aggregateType) =
            maxRevisionForLookupKeys mine (table.currentRevision A.aggregateType))) ∧
      ∀ x : A.Id, ∃ key, codec.serializeId x = .ok key ∧
        (ids.deserialize key = .ok x ↔ ∀ inner, json.read (ids.text x) ≠ .ok inner) := by
  constructor
  · intro x y differ
    have mine := ids.aggregateIdLookupKeys x
    have theirs := ids.aggregateIdLookupKeys y
    refine ⟨_, _, mine, theirs, ids.disjoint_iff differ, ?_⟩
    intro apart dialect _ table after fault expectedRevision events committed appended
    have disjoint : [ids.text y, json.write (ids.text y)].Disjoint
        [ids.text x, json.write (ids.text x)] :=
      fun _ written read => (ids.disjoint_iff differ).mpr apart read written
    let store : SqlEventStore A := ⟨dialect, codec⟩
    have same := store.append_elsewhere theirs disjoint appended
    exact ⟨store.loadRows_congr mine same, maxRevisionForLookupKeys_congr same⟩
  · intro x
    exact ⟨ids.text x, ids.serializeId x, ids.deserialize_text_iff x⟩

/-- Account ids with the JSON library's quoted form. -/
def jsonAccountCodec : RowCodec .account :=
  { accountCodec with idJson := fun (id : String) => some (serdeJson.write id) }

def accountIds : StringIds jsonAccountCodec serdeJson where
  text := Equiv.refl String
  idValue_text _ := rfl
  idJson_text _ := rfl

/-- The ids `a` and `"a"` share a storage key, and the second reads back as the first. -/
theorem quotedId_shares_key :
    let x : Aggregate.account.Id := "a"
    let y : Aggregate.account.Id := "\"a\""
    x ≠ y ∧ (∃ mine theirs, jsonAccountCodec.aggregateIdLookupKeys x = .ok mine ∧
        jsonAccountCodec.aggregateIdLookupKeys y = .ok theirs ∧ ¬ mine.Disjoint theirs) ∧
      jsonAccountCodec.serializeId y = .ok "\"a\"" ∧
      accountIds.deserialize "\"a\"" = .ok x := by
  have differ : ("a" : String) ≠ "\"a\"" := by decide
  refine ⟨differ, ⟨_, _, rfl, rfl, ?_⟩, rfl, rfl⟩
  intro disjoint
  exact disjoint (a := "\"a\"") (by decide) (by decide)

end DddCqrsEs
