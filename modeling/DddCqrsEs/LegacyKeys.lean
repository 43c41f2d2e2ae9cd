import DddCqrsEs.SqlStore
import DddCqrsEs.Transition

/- One aggregate id whose rows may sit under its current key and under the quoted key of
older versions. Loads stop at the first key that has rows, appends number from the
highest revision under either key and write under the first. -/
namespace DddCqrsEs

open Transition

variable {A : Aggregate}

/-- The rows of an id under its first key. -/
def currentRows (A : Aggregate) (keys : List String) (table : EventsTable) :
    List StoredEventRow :=
  table.streamRows A.aggregateType (keys.headD "")

/-- The rows of an id under its other keys. -/
def legacyRows (A : Aggregate) (keys : List String) (table : EventsTable) :
    List StoredEventRow :=
  keys.tail.flatMap (table.streamRows A.aggregateType)

/-- The rows of an id that are in view: the current ones, or the legacy ones while there
are none. -/
def historyRows (A : Aggregate) (keys : List String) (table : EventsTable) :
    List StoredEventRow :=
  if currentRows A keys table = [] then legacyRows A keys table else currentRows A keys table

/-- What can happen to the table of one id: an append through the store, whatever errors
its attempts run into, or an insert under a key that is not the id's. -/
inductive HistoryAction (A : Aggregate) where
  | append (fault : Nat → Option EventStoreError) (expectedRevision : ExpectedRevision)
      (events : List (NewEvent A.Event × Stamp))
  | foreign (row : StoredEventRow)

/-- Runs that start from rows written only under the legacy key. Failed appends change
nothing and are not steps. -/
def historyMachine (store : SqlEventStore A) (aggregateId : A.Id) (keys : List String) :
    Machine EventsTable (HistoryAction A) where
  start table :=
    currentRows A keys table = [] ∧
      (legacyRows A keys table).map (·.revision) =
        List.range' 1 (legacyRows A keys table).length
  step table
    | .append fault expectedRevision events =>
      (store.append table fault aggregateId expectedRevision events).toOption.map Prod.snd
    | .foreign row =>
      if row.aggregateType = A.aggregateType ∧ row.aggregateId ∈ keys then none
      else (table.insert row).toOption

/-- A load after an append returns the old load followed by the committed rows, numbered
from one without a gap, and a load after `revision` returns its part above it. -/
def HistoryKept (store : SqlEventStore A) (aggregateId : A.Id) (before after : EventsTable)
    (committed : EventStream A) (revision : Nat) : Prop :=
  ∃ old added,
    store.loadRows before aggregateId = .ok old ∧
    List.Forall₂ (StoredAs store.codec) added committed ∧
    store.loadRows after aggregateId = .ok (old ++ added) ∧
    (old ++ added).map (·.revision) = List.range' 1 (old ++ added).length ∧
    store.loadRowsAfterRevision after aggregateId revision =
      .ok ((old ++ added).filter (fun row => revision < row.revision))

/-- The legacy rows come first and the current rows continue their numbering. -/
structure Continued (A : Aggregate) (keys : List String) (table : EventsTable) : Prop where
  legacy : (legacyRows A keys table).map (·.revision) =
    List.range' 1 (legacyRows A keys table).length
  current : (currentRows A keys table).map (·.revision) =
    List.range' ((legacyRows A keys table).length + 1) (currentRows A keys table).length

variable {keys : List String}

/-- The lookup reads the legacy key only while the first one has nothing to show. -/
theorem queryLookupKeys_eq {α : Type} (shape : KeyShape keys) (query : String → List α) :
    queryLookupKeys query keys =
      if query (keys.headD "") = [] then keys.tail.flatMap query else query (keys.headD "") := by
  obtain ⟨current, rfl | ⟨legacy, _, rfl⟩⟩ := shape
  · cases found : query current <;> simp [queryLookupKeys, found]
  · cases found : query current <;> cases older : query legacy <;>
      simp [queryLookupKeys, found, older]

theorem insertionSort_of_revisions {rows : List StoredEventRow} {first : Nat}
    (numbered : rows.map (·.revision) = List.range' first rows.length)
    (kept : StoredEventRow → Bool) :
    (rows.filter kept).insertionSort (fun a b => a.revision ≤ b.revision) = rows.filter kept := by
  have ascending : (rows.map (·.revision)).Pairwise (· ≤ ·) := by
    rw [numbered]
    exact List.pairwise_le_range'
  exact ((List.pairwise_map.mp ascending).filter kept).insertionSort_eq

theorem foldl_max_range' (start first count : Nat) :
    (List.range' first count).foldl max start =
      if count = 0 then start else max start (first + count - 1) := by
  induction count generalizing start first with
  | zero => rfl
  | succ count ih =>
    rw [List.range'_succ, List.foldl_cons, ih]
    split
    · rename_i none
      simp [none]
    · simp only [Nat.add_eq_zero_iff, Nat.one_ne_zero, and_false, if_false]
      omega

namespace Continued

variable {table : EventsTable}

theorem currentRevision_legacy (continued : Continued A keys table) (shape : KeyShape keys) :
    maxRevisionForLookupKeys keys (table.currentRevision A.aggregateType) =
      (legacyRows A keys table).length + (currentRows A keys table).length := by
  have legacy := continued.legacy
  have current := continued.current
  obtain ⟨key, rfl | ⟨older, _, rfl⟩⟩ := shape
  · simp only [legacyRows, currentRows, List.headD_cons, List.tail_cons, List.flatMap_nil,
      List.length_nil] at current ⊢
    simp only [maxRevisionForLookupKeys, List.foldl_cons, List.foldl_nil,
      EventsTable.currentRevision, current, foldl_max_range']
    split <;> omega
  · simp only [legacyRows, currentRows, List.headD_cons, List.tail_cons, List.flatMap_cons,
      List.flatMap_nil, List.append_nil] at legacy current ⊢
    simp only [maxRevisionForLookupKeys, List.foldl_cons, List.foldl_nil,
      EventsTable.currentRevision, legacy, current, foldl_max_range']
    split <;> split <;> omega

variable {store : SqlEventStore A} {aggregateId : A.Id} {after : EventsTable}

theorem loadRows (continued : Continued A keys table)
    (lookup : store.codec.aggregateIdLookupKeys aggregateId = .ok keys) :
    store.loadRows table aggregateId = .ok (historyRows A keys table) := by
  have shape := aggregateIdLookupKeys_shape lookup
  have sorted : ∀ rows : List StoredEventRow, ∀ first,
      rows.map (·.revision) = List.range' first rows.length →
      rows.insertionSort (fun a b => a.revision ≤ b.revision) = rows := by
    intro rows first numbered
    simpa using insertionSort_of_revisions numbered (fun _ => true)
  have current := sorted _ _ continued.current
  have legacy := continued.legacy
  rw [SqlEventStore.loadRows, lookup, Except.map, queryLookupKeys_eq shape]
  have first : table.selectStream A.aggregateType (keys.headD "") = currentRows A keys table :=
    current
  have rest : keys.tail.flatMap (table.selectStream A.aggregateType) =
      legacyRows A keys table := by
    obtain ⟨key, rfl | ⟨older, _, rfl⟩⟩ := shape
    · rfl
    · simp only [legacyRows, List.tail_cons, List.flatMap_cons, List.flatMap_nil,
        List.append_nil] at legacy ⊢
      exact sorted _ _ legacy
  rw [first, rest]
  rfl

/-- What `load_after_revision` reads, by the same rule on the rows above the revision. -/
theorem loadRowsAfterRevision (continued : Continued A keys table)
    (lookup : store.codec.aggregateIdLookupKeys aggregateId = .ok keys) {revision : Nat}
    (fits : revision ≤ i64Max) :
    store.loadRowsAfterRevision table aggregateId revision =
      .ok (if (currentRows A keys table).filter (fun row => revision < row.revision) = [] then
          (legacyRows A keys table).filter (fun row => revision < row.revision)
        else (currentRows A keys table).filter (fun row => revision < row.revision)) := by
  have shape := aggregateIdLookupKeys_shape lookup
  have current := insertionSort_of_revisions continued.current
    (fun row => decide (revision < row.revision))
  have legacy := continued.legacy
  rw [SqlEventStore.loadRowsAfterRevision, if_neg (Nat.not_lt.mpr fits), lookup, Except.map,
    queryLookupKeys_eq shape]
  have first : table.selectStreamAfter A.aggregateType (keys.headD "") revision =
      (currentRows A keys table).filter (fun row => revision < row.revision) := current
  have rest : keys.tail.flatMap
      (fun key => table.selectStreamAfter A.aggregateType key revision) =
      (legacyRows A keys table).filter (fun row => revision < row.revision) := by
    obtain ⟨key, rfl | ⟨older, _, rfl⟩⟩ := shape
    · rfl
    · simp only [legacyRows, List.tail_cons, List.flatMap_cons, List.flatMap_nil,
        List.append_nil] at legacy ⊢
      exact insertionSort_of_revisions legacy _
  rw [first, rest]

/-- Both loads agree: the second one is the part of the first above the revision. -/
theorem loadRows_filter (continued : Continued A keys table)
    (lookup : store.codec.aggregateIdLookupKeys aggregateId = .ok keys) {rows : List StoredEventRow}
    (loaded : store.loadRows table aggregateId = .ok rows) {revision : Nat}
    (fits : revision ≤ i64Max) :
    store.loadRowsAfterRevision table aggregateId revision =
      .ok (rows.filter (fun row => revision < row.revision)) := by
  rw [continued.loadRows lookup, historyRows] at loaded
  cases loaded
  rw [continued.loadRowsAfterRevision lookup fits]
  by_cases none : currentRows A keys table = []
  · simp [none]
  · rw [if_neg none]
    split
    · rename_i below
      rw [below]
      -- every current revision is at most `revision`, and the legacy ones lie below these
      obtain ⟨row, member⟩ := List.exists_mem_of_ne_nil _ none
      have bound : ¬ revision < row.revision := by
        have gone := List.filter_eq_nil_iff.mp below row member
        simpa using gone
      have above : (legacyRows A keys table).length < row.revision := by
        have listed := List.mem_map_of_mem (f := (·.revision)) member
        rw [continued.current, List.mem_range'_1] at listed
        omega
      congr 1
      rw [List.filter_eq_nil_iff]
      intro older member
      have listed := List.mem_map_of_mem (f := (·.revision)) member
      rw [continued.legacy, List.mem_range'_1] at listed
      simp only [decide_eq_true_eq]
      omega
    · rfl

/-- An append continues the current rows and leaves the legacy rows alone. -/
theorem append {fault : Nat → Option EventStoreError} {expectedRevision : ExpectedRevision}
    {events : List (NewEvent A.Event × Stamp)} {committed : EventStream A}
    (continued : Continued A keys table)
    (lookup : store.codec.aggregateIdLookupKeys aggregateId = .ok keys)
    (appended : store.append table fault aggregateId expectedRevision events =
      .ok (committed, after)) :
    Continued A keys after ∧
      ∃ added, currentRows A keys after = currentRows A keys table ++ added ∧
        legacyRows A keys after = legacyRows A keys table ∧
        added.length = events.length ∧ List.Forall₂ (StoredAs store.codec) added committed := by
  have shape := aggregateIdLookupKeys_shape lookup
  obtain ⟨_, added, rows, _, numbered, keyed, stored⟩ := SqlEventStore.append_ok lookup appended
  rw [continued.currentRevision_legacy shape] at numbered
  have length : added.length = events.length := by simpa using congrArg List.length numbered
  have current : currentRows A keys after = currentRows A keys table ++ added := by
    rw [currentRows, EventsTable.streamRows_added rows, List.filter_eq_self.mpr]
    · rfl
    · intro row member
      simpa using keyed row member
  have legacy : legacyRows A keys after = legacyRows A keys table := by
    obtain ⟨key, rfl | ⟨older, differ, rfl⟩⟩ := shape
    · rfl
    · simp only [legacyRows, List.tail_cons, List.flatMap_cons, List.flatMap_nil]
      rw [EventsTable.streamRows_added rows, List.filter_eq_nil_iff.mpr, List.append_nil]
      intro row member
      have own := (keyed row member).2
      rw [List.headD_cons] at own
      simp only [own, decide_eq_true_eq, not_and]
      exact fun _ => Ne.symm differ
  refine ⟨⟨by rw [legacy]; exact continued.legacy, ?_⟩, added, current, legacy, length, stored⟩
  rw [current, legacy, List.map_append, numbered, continued.current, ← length,
    List.length_append, ← List.range'_append_1]
  congr 2
  omega

theorem foreign {row : StoredEventRow} (continued : Continued A keys table) (shape : KeyShape keys)
    (apart : ¬ (row.aggregateType = A.aggregateType ∧ row.aggregateId ∈ keys))
    (inserted : table.insert row = .ok after) : Continued A keys after := by
  have grown := EventsTable.insert_ok inserted
  have untouched : ∀ key ∈ keys,
      after.streamRows A.aggregateType key = table.streamRows A.aggregateType key := by
    intro key member
    rw [grown, EventsTable.streamRows_added rfl, List.filter_eq_nil_iff.mpr, List.append_nil]
    rintro added only
    rw [List.mem_singleton] at only
    subst only
    simp only [decide_eq_true_eq]
    rintro ⟨sameType, rfl⟩
    exact apart ⟨sameType, member⟩
  have same : currentRows A keys after = currentRows A keys table ∧
      legacyRows A keys after = legacyRows A keys table := by
    obtain ⟨key, rfl | ⟨older, _, rfl⟩⟩ := shape
    · exact ⟨untouched key List.mem_cons_self, rfl⟩
    · refine ⟨untouched key List.mem_cons_self, ?_⟩
      simp only [legacyRows, List.tail_cons, List.flatMap_cons, List.flatMap_nil]
      rw [untouched older (List.mem_cons_of_mem _ List.mem_cons_self)]
  constructor
  · rw [same.2]
    exact continued.legacy
  · rw [same.1, same.2]
    exact continued.current

end Continued

theorem historyMachine_continued {store : SqlEventStore A} {aggregateId : A.Id}
    {table : EventsTable} (lookup : store.codec.aggregateIdLookupKeys aggregateId = .ok keys)
    (reached : (historyMachine store aggregateId keys).Reachable table) :
    Continued A keys table := by
  refine Machine.invariant (I := Continued A keys) ?_ ?_ reached
  · rintro first ⟨none, legacy⟩
    exact ⟨legacy, by rw [none]; rfl⟩
  · intro first action second _ continued stepped
    cases action with
    | append fault expectedRevision events =>
      obtain ⟨⟨committed, after⟩, success, same⟩ := Option.map_eq_some_iff.mp stepped
      cases same
      cases appended : store.append first fault aggregateId expectedRevision events with
      | error error =>
        rw [appended] at success
        cases success
      | ok done =>
        rw [appended] at success
        cases success
        exact (continued.append lookup appended).1
    | foreign row =>
      simp only [historyMachine] at stepped
      split at stepped
      · cases stepped
      · rename_i apart
        cases inserted : first.insert row with
        | error violation =>
          rw [inserted] at stepped
          cases stepped
        | ok next =>
          rw [inserted] at stepped
          cases stepped
          exact continued.foreign (aggregateIdLookupKeys_shape lookup) apart inserted

/-- When an append keeps the history of an id, in any table the store can reach: exactly
while no legacy rows exist or nothing was ever appended over them, and for revisions that
fit the column. -/
theorem historyKept_iff (store : SqlEventStore A) (aggregateId : A.Id) (keys : List String)
    (lookup : store.codec.aggregateIdLookupKeys aggregateId = .ok keys)
    (before after : EventsTable)
    (reached : (historyMachine store aggregateId keys).Reachable before)
    (fault : Nat → Option EventStoreError) (expectedRevision : ExpectedRevision)
    (events : List (NewEvent A.Event × Stamp)) (committed : EventStream A)
    (appended : store.append before fault aggregateId expectedRevision events =
      .ok (committed, after)) (revision : Nat) :
    HistoryKept store aggregateId before after committed revision ↔
      (legacyRows A keys before = [] ∨ (currentRows A keys before = [] ∧ events = [])) ∧
        revision ≤ i64Max := by
  have continued := historyMachine_continued lookup reached
  obtain ⟨grown, added, current, legacy, length, stored⟩ := continued.append lookup appended
  have loadedAfter := grown.loadRows lookup
  constructor
  · rintro ⟨old, extra, _, _, loaded, numbered, loadedTail⟩
    constructor
    · by_cases none : legacyRows A keys before = []
      · exact Or.inl none
      · right
        -- a current row would be loaded first and carry a revision above one
        have empty : currentRows A keys after = [] := by
          by_contra some
          rw [loadedAfter, historyRows, if_neg some] at loaded
          rw [← Except.ok.inj loaded, grown.current, legacy] at numbered
          have heads := congrArg List.head? numbered
          have positive : 0 < (currentRows A keys after).length := List.length_pos_of_ne_nil some
          obtain ⟨count, counted⟩ := Nat.exists_eq_succ_of_ne_zero (Nat.ne_of_gt positive)
          rw [counted] at heads
          simp only [List.range'_succ, List.head?_cons, Option.some.injEq] at heads
          have nonempty : 0 < (legacyRows A keys before).length := List.length_pos_of_ne_nil none
          omega
        rw [current] at empty
        obtain ⟨noneCurrent, noneAdded⟩ := List.append_eq_nil_iff.mp empty
        rw [noneAdded] at length
        exact ⟨noneCurrent, List.length_eq_zero_iff.mp length.symm⟩
    · by_contra large
      rw [SqlEventStore.loadRowsAfterRevision, if_pos (Nat.lt_of_not_le large)] at loadedTail
      cases loadedTail
  · rintro ⟨untouched, fits⟩
    have kept : historyRows A keys after = historyRows A keys before ++ added ∧
        (historyRows A keys after).map (·.revision) =
          List.range' 1 (historyRows A keys after).length := by
      rcases untouched with none | ⟨none, rfl⟩
      · have whole : ∀ table, legacyRows A keys table = [] →
            historyRows A keys table = currentRows A keys table := by
          intro table none
          rw [historyRows]
          split
          · rename_i empty
            rw [none, empty]
          · rfl
        have numbered := grown.current
        rw [legacy, none, List.length_nil, Nat.zero_add] at numbered
        rw [whole after (legacy.trans none), whole before none]
        exact ⟨current, numbered⟩
      · rw [List.length_nil, List.length_eq_zero_iff] at length
        subst length
        have empty : currentRows A keys after = [] := by rw [current, none]; rfl
        rw [historyRows, if_pos empty, historyRows, if_pos none, List.append_nil]
        exact ⟨legacy, grown.legacy⟩
    rw [kept.1] at loadedAfter kept
    exact ⟨_, added, continued.loadRows lookup, stored, loadedAfter, kept.2,
      grown.loadRows_filter lookup loadedAfter fits⟩

/-- Two events are appended to an account behind its first one and another account's. -/
theorem historyKept_iff_accounts :
    let store : SqlEventStore .account := ⟨.sqlite, accountCodec⟩
    let actions : List (HistoryAction .account) :=
      [.append (fun _ => none) .noStream [accountEvent "e1"], .foreign (accountRowAt "f1" "b" 1 0)]
    ∃ before committed after,
      (historyMachine store "a" ["a", "\"a\""]).run .empty actions = some before ∧
      store.append before (fun _ => none) "a" (.exact 1) [accountEvent "e2", accountEvent "e3"] =
        .ok (committed, after) ∧
      committed.map (·.revision) = [2, 3] ∧
      HistoryKept store "a" before after committed 1 := by
  intro store actions
  have ran : (historyMachine store "a" ["a", "\"a\""]).run .empty actions = some _ := rfl
  refine ⟨_, _, _, ran, rfl, rfl, ?_⟩
  have reached := (Machine.Reachable.start (M := historyMachine store "a" ["a", "\"a\""])
    ⟨rfl, rfl⟩).run ran
  exact (historyKept_iff store "a" _ rfl _ _ reached (fun _ => none) (.exact 1)
    [accountEvent "e2", accountEvent "e3"] _ rfl 1).mpr ⟨.inl rfl, by decide⟩

def legacyAccountRow : StoredEventRow :=
  ⟨"e1", "\"a\"", "account", 1, 1, "account_opened", 1, "null", "\x7b\x7d", 0⟩

/-- One append over one legacy row: the next load no longer returns that row. -/
theorem append_hides_legacyRow :
    let store : SqlEventStore .account := ⟨.sqlite, accountCodec⟩
    let before : EventsTable := ⟨[legacyAccountRow], 1⟩
    (historyMachine store "a" ["a", "\"a\""]).Reachable before ∧
      ∃ committed after,
        store.append before (fun _ => none) "a" (.exact 1) [accountEvent "e2"] =
          .ok (committed, after) ∧
        (store.loadRows after "a").map (fun rows => rows.map (·.revision)) = .ok [2] ∧
        ¬ HistoryKept store "a" before after committed 0 := by
  refine ⟨.start ⟨rfl, rfl⟩, _, _, rfl, rfl, ?_⟩
  rintro ⟨old, added, loaded, _, loadedAfter, _⟩
  have first : old = [legacyAccountRow] := (Except.ok.inj loaded).symm
  subst first
  have heads : some "e2" = some "e1" :=
    congrArg (fun rows => (rows.map (·.eventId)).head?) (Except.ok.inj loadedAfter)
  exact absurd heads (by decide)

end DddCqrsEs
