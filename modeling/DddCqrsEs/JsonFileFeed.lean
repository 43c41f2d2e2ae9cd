import DddCqrsEs.Numbering
import DddCqrsEs.ProjectionReplay
import DddCqrsEs.StoredLines

/- The global feed of a JSON-file event store: it reads the whole file, sorts what is of its
type and above the cursor, and decodes no more than the limit. -/
namespace DddCqrsEs

open Numbering (Continues inOrder map_inOrder)

section Store

variable {J : Json} {A : Aggregate} (codec : JsonCodec J A)

/-- A value of this aggregate type above the cursor, with its sequence. -/
def selectAfter (J : Json) (A : Aggregate) (cursor : Nat) (value : J.Value) :
    Option (Nat × J.Value) :=
  if (J.get value "aggregate_type").bind J.asStr = some A.aggregateType then
    let eventSequence := ((J.get value "sequence").bind J.asU64).getD 0
    if cursor < eventSequence then some (eventSequence, value) else none
  else none

def truncate {α : Type} (limit : Option Nat) (items : List α) : List α :=
  match limit with
  | some limit => items.take limit
  | none => items

theorem map_truncate {α β : Type} (f : α → β) (limit : Option Nat) (items : List α) :
    (truncate limit items).map f = truncate limit (items.map f) := by
  cases limit with
  | none => rfl
  | some limit => exact List.map_take

def JsonCodec.loadGlobalRange (file : Option ByteArray) (sequence limit : Option Nat) :
    Except EventStoreError (EventStream A) := do
  let values ← readEventValues J file
  let selected := inOrder Prod.fst (values.filterMap (selectAfter J A (sequence.getD 0)))
  (truncate limit selected).mapM (fun selected =>
    (codec.envelopeFromValue selected.2).mapError (fun error =>
      .deserialization ("failed to deserialize event envelope: " ++ error) none))

def JsonCodec.loadGlobalAfter (file : Option ByteArray) (sequence : Option Nat) :
    Except EventStoreError (EventStream A) :=
  codec.loadGlobalRange file sequence none

def JsonCodec.loadGlobalAfterLimited (file : Option ByteArray) (sequence : Option Nat)
    (limit : Nat) : Except EventStoreError (EventStream A) :=
  codec.loadGlobalRange file sequence (some limit)

end Store

variable {J : Json} {ι : Type} {types : AggregateTypes ι}

/-- The numbers of an envelope are number fields of a value that holds it. -/
structure NumberFields (codec : ∀ i, JsonCodec J (types.aggregate i)) : Prop where
  revision : ∀ i value envelope, Holds (codec i) value envelope →
    (J.get value "revision").bind J.asU64 = some envelope.revision
  sequence : ∀ i value envelope, Holds (codec i) value envelope →
    (J.get value "sequence").bind J.asU64 = envelope.sequence

variable {codec : ∀ i, JsonCodec J (types.aggregate i)} {entry : types.Entry}
  {entries : List types.Entry}

theorem HoldsEntry.selectAfter_other {value : J.Value} {i : ι} (held : HoldsEntry codec value entry)
    (other : entry.1 ≠ i) (cursor : Nat) :
    selectAfter J (types.aggregate i) cursor value = none := by
  have differs : (types.aggregate entry.1).aggregateType ≠ (types.aggregate i).aggregateType :=
    fun same => other (types.distinct _ _ same)
  rw [selectAfter, held.aggregateType, if_neg (fun same => differs (Option.some.inj same))]

/-- The events stand in the file in the order of their sequences. -/
def InFileOrder (entries : List types.Entry) : Prop :=
  Continues (fun entry : types.Entry => sequenceOf entry.2) 0 entries

variable [DecidableEq ι]

def AggregateTypes.eventsAfter (types : AggregateTypes ι) (i : ι) (cursor : Nat)
    (entries : List types.Entry) : EventStream (types.aggregate i) :=
  (entries.filterMap (types.ofType i)).filter (fun envelope => cursor < sequenceOf envelope)

theorem eventsAfter_cons_own (i : ι) (cursor : Nat)
    (envelope : EventEnvelope (types.aggregate i).Event (types.aggregate i).Id)
    (entries : List types.Entry) :
    types.eventsAfter i cursor (⟨i, envelope⟩ :: entries) =
      if cursor < sequenceOf envelope then envelope :: types.eventsAfter i cursor entries
      else types.eventsAfter i cursor entries := by
  have own : types.ofType i ⟨i, envelope⟩ = some envelope := dif_pos rfl
  rw [AggregateTypes.eventsAfter, List.filterMap_cons_some own, List.filter_cons]
  simp only [decide_eq_true_eq]
  rfl

theorem eventsAfter_cons_other {i : ι} (other : entry.1 ≠ i) (cursor : Nat)
    (entries : List types.Entry) :
    types.eventsAfter i cursor (entry :: entries) = types.eventsAfter i cursor entries := by
  have none : types.ofType i entry = none := dif_neg other
  rw [AggregateTypes.eventsAfter, List.filterMap_cons_none none]
  rfl

theorem eventsAfter_sublist (i : ι) (cursor : Nat) (entries : List types.Entry) :
    ((types.eventsAfter i cursor entries).map sequenceOf).Sublist
      (entries.map (fun entry => sequenceOf entry.2)) := by
  induction entries with
  | nil => exact List.Sublist.refl _
  | cons entry entries ih =>
    by_cases same : entry.1 = i
    · obtain ⟨j, envelope⟩ := entry
      have same : j = i := same
      subst same
      rw [eventsAfter_cons_own]
      split
      · exact ih.cons_cons _
      · exact ih.cons _
    · rw [eventsAfter_cons_other same]
      exact ih.cons _

theorem InFileOrder.eventsAfter (ordered : InFileOrder entries) (i : ι) (cursor : Nat) :
    inOrder sequenceOf (types.eventsAfter i cursor entries) = types.eventsAfter i cursor entries :=
  Numbering.inOrder_of_pairwise
    ((Numbering.Continues.pairwise ordered).sublist (eventsAfter_sublist i cursor entries))

theorem Holds.selectAfter {A : Aggregate} {codec : JsonCodec J A} {value : J.Value}
    {envelope : EventEnvelope A.Event A.Id} (held : Holds codec value envelope)
    (numbers : (J.get value "sequence").bind J.asU64 = envelope.sequence) (cursor : Nat) :
    selectAfter J A cursor value =
      if cursor < sequenceOf envelope then some (sequenceOf envelope, value) else none := by
  rw [DddCqrsEs.selectAfter, if_pos held.aggregateType, numbers]
  rfl

/-- What is selected decodes to the events of the type above the cursor, in file order. -/
theorem selected_eventsAfter (numbers : NumberFields codec) {values : List J.Value}
    (held : List.Forall₂ (HoldsEntry codec) values entries) (i : ι) (cursor : Nat) :
    (values.filterMap (selectAfter J (types.aggregate i) cursor)).map
        (fun selected => (selected.1, (codec i).envelopeFromValue selected.2)) =
      (types.eventsAfter i cursor entries).map
        (fun envelope => (sequenceOf envelope, Except.ok envelope)) := by
  induction held with
  | nil => rfl
  | @cons value entry values entries head _ ih =>
    by_cases same : entry.1 = i
    · obtain ⟨j, envelope⟩ := entry
      have same : j = i := same
      subst same
      have head : Holds (codec j) value envelope := head
      have selected := head.selectAfter (numbers.sequence _ _ _ head) cursor
      rw [eventsAfter_cons_own]
      by_cases later : cursor < sequenceOf envelope
      · rw [if_pos later] at selected
        rw [List.filterMap_cons_some selected, if_pos later, List.map_cons, List.map_cons, ih]
        dsimp only
        rw [head.envelope]
      · rw [if_neg later] at selected
        rw [List.filterMap_cons_none selected, if_neg later, ih]
    · rw [List.filterMap_cons_none (head.selectAfter_other same cursor),
        eventsAfter_cons_other same, ih]

theorem mapM_decoded {α β : Type} {decode : α → Except String β} {error : String → EventStoreError}
    {items : List α} {decoded : List β} (same : items.map decode = decoded.map Except.ok) :
    items.mapM (fun item => (decode item).mapError error) = .ok decoded := by
  induction items generalizing decoded with
  | nil =>
    cases decoded with
    | nil => rfl
    | cons => cases same
  | cons item items ih =>
    cases decoded with
    | nil => cases same
    | cons value decoded =>
      obtain ⟨head, rest⟩ := List.cons.inj same
      have first : (decode item).mapError error = .ok value := by
        rw [head]
        rfl
      rw [List.mapM_cons, bind_of_ok first, bind_of_ok (ih rest)]
      rfl

/-- The feed of a stored file: the events of the type above the cursor, by sequence, as far as
the limit admits. -/
theorem Stored.loadGlobalRange (serializes : Serializes codec) (numbers : NumberFields codec)
    {file : Option ByteArray} (stored : Stored codec file entries) (i : ι)
    (sequence limit : Option Nat) :
    (codec i).loadGlobalRange file sequence limit =
      .ok (truncate limit (inOrder sequenceOf
        (types.eventsAfter i (sequence.getD 0) entries))) := by
  obtain ⟨values, read, held⟩ := stored.read serializes
  let selected := values.filterMap (selectAfter J (types.aggregate i) (sequence.getD 0))
  let events := types.eventsAfter i (sequence.getD 0) entries
  let decoded (selected : Nat × J.Value) := (selected.1, (codec i).envelopeFromValue selected.2)
  let expected (envelope : EventEnvelope (types.aggregate i).Event (types.aggregate i).Id) :=
    (sequenceOf envelope, (Except.ok envelope : Except String _))
  -- both lists are sorted by the sequence they share
  have sorted : (inOrder Prod.fst selected).map decoded = (inOrder sequenceOf events).map expected :=
    calc (inOrder Prod.fst selected).map decoded
        = inOrder Prod.fst (selected.map decoded) := map_inOrder (fun _ => rfl)
      _ = inOrder Prod.fst (events.map expected) := by
          rw [selected_eventsAfter numbers held i (sequence.getD 0)]
      _ = (inOrder sequenceOf events).map expected := (map_inOrder (fun _ => rfl)).symm
  have window : (truncate limit (inOrder Prod.fst selected)).map
        (fun selected => (codec i).envelopeFromValue selected.2) =
      (truncate limit (inOrder sequenceOf events)).map Except.ok := by
    have paired := congrArg (List.map Prod.snd) (congrArg (truncate limit) sorted)
    rw [← map_truncate, ← map_truncate, List.map_map, List.map_map] at paired
    exact paired
  rw [JsonCodec.loadGlobalRange, bind_of_ok read]
  exact mapM_decoded window

end DddCqrsEs
