import DddCqrsEs.RedisReads

/- The global feeds of stores that share a key prefix. The index is one for all aggregate
types, and the typed loads decode whatever it lists. -/
namespace DddCqrsEs

open RedisServer

variable {A : Aggregate}

/-- A load that succeeds with exactly these rows, in this order. -/
def Decodes {E : Type} (decode : StoredEventRow → Except EventStoreError E)
    (rows : List StoredEventRow) (loaded : Except EventStoreError (List E)) : Prop :=
  ∃ events, loaded = .ok events ∧ List.Forall₂ (fun row event => decode row = .ok event) rows events

/-- The rows of one aggregate type above a cursor, as far as a limit admits. -/
def EventsTable.typedRows (table : EventsTable) (aggregateType : String)
    (sequence limit : Option Nat) : List StoredEventRow :=
  capped limit (table.rows.filter
    (fun row => row.aggregateType = aggregateType ∧ sequence.getD 0 < row.sequence))

/-- The store decodes the rows of its own type, and every row for the raw feed. -/
structure Readable (reader : RowReader A) (table : EventsTable) : Prop where
  typed : ∀ row ∈ table.rows, row.aggregateType = A.aggregateType →
    ∃ event, reader.envelopeFromStoredRow row = .ok event
  raw : ∀ row ∈ table.rows, ∃ event, reader.rawEnvelopeFromStoredRow row = .ok event

/-- The rows a global load covers, all of the store's own type. -/
def OwnFeed (A : Aggregate) (table : EventsTable) (sequence limit : Option Nat) : Prop :=
  ∀ row ∈ table.globalRows sequence limit, row.aggregateType = A.aggregateType

variable {rows : List StoredEventRow}

theorem decodes_of_forall {E : Type} {decode : StoredEventRow → Except EventStoreError E}
    (readable : ∀ row ∈ rows, ∃ event, decode row = .ok event) :
    Decodes decode rows (rows.mapM decode) := by
  induction rows with
  | nil => exact ⟨[], rfl, .nil⟩
  | cons row rest ih =>
    obtain ⟨event, first⟩ := readable row List.mem_cons_self
    obtain ⟨events, later, pointwise⟩ :=
      ih (fun other member => readable other (List.mem_cons_of_mem _ member))
    refine ⟨event :: events, ?_, .cons first pointwise⟩
    rw [List.mapM_cons, bind_of_ok first, bind_of_ok later]
    rfl

/-- A filter that drops nothing up to a limit. -/
theorem capped_filter {α : Type} {limit : Option Nat} {kept : α → Bool} {items : List α}
    (all : ∀ item ∈ capped limit items, kept item = true) :
    capped limit (items.filter kept) = capped limit items := by
  cases limit with
  | none => exact List.filter_eq_self.mpr all
  | some limit =>
    have front : (items.take limit).filter kept = items.take limit := List.filter_eq_self.mpr all
    have split : items.filter kept = items.take limit ++ (items.drop limit).filter kept := by
      conv => lhs; rw [← List.take_append_drop limit items]
      rw [List.filter_append, front]
    show (items.filter kept).take limit = items.take limit
    rw [split]
    by_cases short : items.length ≤ limit
    · rw [List.drop_of_length_le short, List.filter_nil, List.append_nil, List.take_take,
        Nat.min_self]
    · exact List.take_left' (by rw [List.length_take]; omega)

namespace EventsTable

variable {table : EventsTable} {sequence limit : Option Nat}

theorem typedRows_of_own (own : OwnFeed A table sequence limit) :
    table.typedRows A.aggregateType sequence limit = table.globalRows sequence limit := by
  have split : table.rows.filter (fun row =>
      row.aggregateType = A.aggregateType ∧ sequence.getD 0 < row.sequence) =
      (table.rows.filter (fun row => sequence.getD 0 < row.sequence)).filter
        (fun row => row.aggregateType = A.aggregateType) := by
    rw [List.filter_filter]
    simp
  rw [typedRows, split]
  apply capped_filter
  intro row member
  exact decide_eq_true (own row member)

theorem typedRows_type {aggregateType : String} {row : StoredEventRow}
    (member : row ∈ table.typedRows aggregateType sequence limit) :
    row ∈ table.rows ∧ row.aggregateType = aggregateType := by
  obtain ⟨stored, admitted⟩ := List.mem_filter.mp (mem_of_capped member)
  rw [decide_eq_true_eq] at admitted
  exact ⟨stored, admitted.1⟩

end EventsTable

/-- The raw feed serves every row with its own type. -/
theorem Decodes.types {reader : RowReader A}
    {loaded : Except EventStoreError (List (EventEnvelope reader.Json String))}
    {events : List (EventEnvelope reader.Json String)}
    (decodes : Decodes reader.rawEnvelopeFromStoredRow rows loaded) (served : loaded = .ok events) :
    rows.map (·.aggregateType) = events.map (·.aggregateType) := by
  obtain ⟨_, same, pointwise⟩ := decodes
  cases served.symm.trans same
  clear same served
  induction pointwise with
  | nil => rfl
  | cons decoded _ ih =>
    rw [List.map_cons, List.map_cons, ih, RowReader.rawEnvelopeFromStoredRow_type decoded]

/-- A typed load returns its own type's rows exactly when no other rows are in its way. -/
theorem RedisEventStore.loadGlobal_typed_iff (store : RedisEventStore A) {db : KeySpace}
    {table : EventsTable} (represents : Represents store.keyPrefix db table)
    (bounded : Bounded table) (readable : Readable store.reader table)
    (sequence limit : Option Nat) :
    Decodes store.reader.envelopeFromStoredRow (table.typedRows A.aggregateType sequence limit)
        (store.loadGlobal store.reader.envelopeFromStoredRow db sequence limit) ↔
      OwnFeed A table sequence limit := by
  rw [store.loadGlobal_rows _ represents bounded]
  constructor
  · rintro ⟨events, loaded, typed⟩ row member
    -- the same events were decoded from the typed rows and from all rows
    have all := forall₂_of_mapM_ok loaded
    obtain ⟨event, listed, decoded⟩ := exists_of_forall₂ all.flip member
    obtain ⟨own, chosen, same⟩ := exists_of_forall₂ typed listed
    calc row.aggregateType
        = event.aggregateType := (RowReader.envelopeFromStoredRow_ok decoded).2.1.symm
      _ = own.aggregateType := (RowReader.envelopeFromStoredRow_ok same).2.1
      _ = A.aggregateType := (EventsTable.typedRows_type chosen).2
  · intro own
    rw [EventsTable.typedRows_of_own own]
    apply decodes_of_forall
    intro row member
    exact readable.typed row (List.mem_filter.mp (mem_of_capped member)).1 (own row member)

/-- The feeds of a store on any reachable key space. The typed loads are scoped to the store's
type exactly when the index lists no other type where they read; the raw feed serves every
row. -/
theorem redisFeed_scoped_iff (store : RedisEventStore A) (db : KeySpace)
    (reached : redisMachine.Reachable db) :
    ∃ table, Represents store.keyPrefix db table ∧
      (Readable store.reader table → ∀ (sequence : Option Nat) (limit : Nat),
        (Decodes store.reader.envelopeFromStoredRow
            (table.typedRows A.aggregateType sequence none)
            (store.loadGlobalAfter db sequence) ↔ OwnFeed A table sequence none) ∧
        (Decodes store.reader.envelopeFromStoredRow
            (table.typedRows A.aggregateType sequence (some limit))
            (store.loadGlobalAfterLimited db sequence limit) ↔
          OwnFeed A table sequence (some limit)) ∧
        Decodes store.reader.rawEnvelopeFromStoredRow (table.globalRows sequence (some limit))
          (store.loadRawGlobalAfterLimited db sequence limit)) := by
  obtain ⟨table, represents, bounded⟩ := redisMachine_grounded reached store.keyPrefix
  refine ⟨table, represents, ?_⟩
  intro readable sequence limit
  refine ⟨store.loadGlobal_typed_iff represents bounded readable sequence none,
    store.loadGlobal_typed_iff represents bounded readable sequence (some limit), ?_⟩
  rw [RedisEventStore.loadRawGlobalAfterLimited, store.loadGlobal_rows _ represents bounded]
  apply decodes_of_forall
  intro row member
  exact readable.raw row (List.mem_filter.mp (mem_of_capped member)).1

def ledgerCodec : RowCodec .ledger where
  idValue id := .ok (.string id)
  idJson := fun (id : String) => some ("\"" ++ id ++ "\"")
  payloadJson _ := .ok "null"
  metadataJson _ := .ok "\x7b\x7d"
  envelopeFromStoredRow row :=
    .ok ⟨row.eventId, unquoted row.aggregateId, row.aggregateType, row.revision,
      some row.sequence, row.eventType, row.eventVersion, (), .empty, row.recordedAtMs * 1000000⟩

def ledgerReader : RowReader .ledger where
  Json := String
  fromStr text := .ok text
  deserializeId text := .ok (unquoted text)
  preparePayload _ version payload := .ok (version, payload)
  payloadFromValue _ := .ok ()
  metadataFromValue _ := .ok .empty

/-- A ledger entry appended under the prefix that account events use as well. -/
def ledgerCall : RedisCall :=
  ⟨.ledger, ⟨defaultRedisPrefix, ledgerCodec, ledgerReader⟩, .answered, "l", .noStream,
    [(⟨(), "entry_posted", 1, .empty⟩, ⟨"e1", 0⟩)]⟩

theorem ledgerCall_reachable :
    redisMachine.Reachable (ledgerCall.outcome (fun _ => none)).2 :=
  .step (.start rfl) (redisMachine_step ledgerCall (fun _ => none) (by decide))

/-- An account is opened before the ledger entry is written. -/
def openedBoth : KeySpace :=
  (ledgerCall.outcome ((accountCall "e0" .noStream).outcome (fun _ => none)).2).2

theorem openedBoth_reachable : redisMachine.Reachable openedBoth := by
  have opened := redisMachine_step (accountCall "e0" .noStream) (fun _ => none) (by decide)
  exact .step (.step (.start rfl) opened) (redisMachine_step ledgerCall _ (by decide +kernel))

/-- The typed feed of accounts is scoped as far as the account's own event, and no longer where
it reaches the ledger entry. -/
theorem redisFeed_scoped_iff_account :
    ∃ table, Represents defaultRedisPrefix openedBoth table ∧
      Decodes accountReader.envelopeFromStoredRow (table.typedRows "account" none (some 1))
        (accountRedis.loadGlobalAfterLimited openedBoth none 1) ∧
      ¬ Decodes accountReader.envelopeFromStoredRow (table.typedRows "account" none none)
        (accountRedis.loadGlobalAfter openedBoth none) := by
  obtain ⟨table, represents, feeds⟩ := redisFeed_scoped_iff accountRedis _ openedBoth_reachable
  have readable : Readable accountReader table :=
    ⟨fun _ _ _ => ⟨_, rfl⟩, fun _ _ => ⟨_, rfl⟩⟩
  have first := feeds readable none 1
  have both := feeds readable none 2
  have own : (table.globalRows none (some 1)).map (·.aggregateType) = ["account"] :=
    (first.2.2.types rfl).trans rfl
  have mixed : (table.globalRows none (some 2)).map (·.aggregateType) = ["account", "ledger"] :=
    (both.2.2.types rfl).trans rfl
  refine ⟨table, represents, first.2.1.mpr ?_, ?_⟩
  · intro row member
    have listed := List.mem_map_of_mem (f := (·.aggregateType)) member
    rw [own] at listed
    exact List.mem_singleton.mp listed
  · intro served
    have reached : "ledger" ∈ (table.globalRows none (some 2)).map (·.aggregateType) := by
      rw [mixed]
      exact .tail _ (.head _)
    obtain ⟨row, member, ledger⟩ := List.mem_map.mp reached
    have typed : row.aggregateType = "account" := first.1.mp served row (mem_of_capped member)
    exact absurd (typed.symm.trans ledger) (by decide)

/-- The typed feed of accounts serves a ledger entry. -/
theorem accountFeed_serves_ledger :
    redisMachine.Reachable (ledgerCall.outcome (fun _ => none)).2 ∧
      (accountRedis.loadGlobalAfter (ledgerCall.outcome (fun _ => none)).2 none).map
          (fun events => events.map (·.aggregateType)) = .ok ["ledger"] ∧
      (accountRedis.loadGlobalAfterLimited (ledgerCall.outcome (fun _ => none)).2 none 1).map
          (fun events => events.map (·.aggregateType)) = .ok ["ledger"] :=
  ⟨ledgerCall_reachable, rfl, rfl⟩

end DddCqrsEs
