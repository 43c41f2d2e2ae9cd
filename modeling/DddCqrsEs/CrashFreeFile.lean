import DddCqrsEs.JsonFileFeed
import DddCqrsEs.TornTail

/- Runs of appends to one file by the stores of several aggregate types, without a crash. The
streams and the file are numbered from 1 on, whatever file the run starts from. -/
namespace DddCqrsEs

open Numbering (Numbered Continues highest inOrder)

variable {J : Json} {ι : Type} {types : AggregateTypes ι}
  {codec : ∀ i, JsonCodec J (types.aggregate i)}

/-- A file that holds the entries, on ended lines or in a legacy array. -/
structure Whole (codec : ∀ i, JsonCodec J (types.aggregate i)) (file : Option ByteArray)
    (entries : List types.Entry) : Prop where
  stored : Stored codec file entries
  ended : Ended file ∨ fileIsLegacyArray file = .ok true

theorem ended_unlines (records : List Text) : Ended (some (utf8 (LineLog.unlines records))) := by
  intro content same
  have sameText := utf8_injective (Option.some.inj same)
  rw [← sameText]
  rcases List.eq_nil_or_concat' records with rfl | ⟨rest, record, rfl⟩
  · exact Or.inl rfl
  · right
    rw [LineLog.unlines_append, LineLog.unlines_cons]
    simp [LineLog.unlines]

variable {records : List Text} {entries : List types.Entry} {i : ι} {file : Option ByteArray}
  {aggregateId : (types.aggregate i).Id} {expectedRevision : ExpectedRevision}
  {events : List (NewEvent (types.aggregate i).Event × Stamp)}
  {envelopes : EventStream (types.aggregate i)} {write : FileWrite} {A : Aggregate}
  {state : JsonFileState types}

theorem whole_unlines (hold : List.Forall₂ (EntryLine codec) records entries) :
    Whole codec (some (utf8 (LineLog.unlines records))) entries :=
  ⟨stored_unlines hold, Or.inl (ended_unlines records)⟩

theorem notLegacy_unlines (hold : List.Forall₂ (EntryLine codec) records entries) :
    fileIsLegacyArray (some (utf8 (LineLog.unlines records))) = .ok false := by
  have lines := lines_notArray hold .clean
  rw [List.append_nil] at lines
  rw [fileIsLegacyArray, readToString_utf8, ← lines]
  rfl

variable [∀ i, DecidableEq (types.aggregate i).Id]

theorem append_nothing
    (appended : (codec i).append file aggregateId expectedRevision events = .ok (envelopes, none)) :
    envelopes = [] := by
  rw [JsonCodec.append] at appended
  obtain ⟨existing, _, appended⟩ := ok_of_bind appended
  obtain ⟨scan, _, appended⟩ := ok_of_bind appended
  obtain ⟨_, _, appended⟩ := ok_of_bind appended
  split at appended
  · cases appended
    rfl
  · obtain ⟨newLines, _, appended⟩ := ok_of_bind appended
    obtain ⟨planned, _, same⟩ := ok_of_bind appended
    cases same

theorem append_extend {buffer : Text}
    (appended : (codec i).append file aggregateId expectedRevision events =
      .ok (envelopes, some (.extend buffer))) : fileIsLegacyArray file = .ok false := by
  rw [JsonCodec.append] at appended
  obtain ⟨existing, _, appended⟩ := ok_of_bind appended
  obtain ⟨scan, _, appended⟩ := ok_of_bind appended
  obtain ⟨_, _, appended⟩ := ok_of_bind appended
  split at appended
  · cases appended
  · obtain ⟨newLines, _, appended⟩ := ok_of_bind appended
    obtain ⟨planned, plans, same⟩ := ok_of_bind appended
    cases same
    rw [appendEventLines] at plans
    obtain ⟨legacy, read, plans⟩ := ok_of_bind plans
    cases legacy with
    | false => exact read
    | true =>
      obtain ⟨added, _, plans⟩ := ok_of_bind plans
      obtain ⟨content, _, plans⟩ := ok_of_bind plans
      cases plans

/-- What the appended lines are for: they are ended lines with the old entries, in their order,
and then the new ones. -/
theorem append_lines (serializes : Serializes codec) (whole : Whole codec file entries)
    (appended : (codec i).append file aggregateId expectedRevision events =
      .ok (envelopes, some write)) :
    ∃ records, write.complete file = some (utf8 (LineLog.unlines records)) ∧
      List.Forall₂ (EntryLine codec) records (entries ++ types.tagged i envelopes) := by
  apply (append_writes serializes whole.stored appended).lines
  rintro buffer rfl
  rcases whole.ended with ended | legacy
  · exact ended
  · cases legacy.symm.trans (append_extend appended)

theorem Scan.push_own [DecidableEq A.Id] {codec : JsonCodec J A} {value : J.Value}
    {envelope : EventEnvelope A.Event A.Id} (held : Holds codec value envelope)
    (revision : (J.get value "revision").bind J.asU64 = some envelope.revision)
    (sequence : (J.get value "sequence").bind J.asU64 = envelope.sequence) (aggregateId : A.Id)
    (scan : Scan) :
    Scan.push codec aggregateId scan value =
      .ok ⟨if envelope.aggregateId = aggregateId then max scan.currentRevision envelope.revision
        else scan.currentRevision, max scan.maxSequence (sequenceOf envelope)⟩ := by
  obtain ⟨stored, found, number⟩ := Option.bind_eq_some_iff.mp revision
  rw [Scan.push, held.ownId, sequence]
  show (if some envelope.aggregateId = some aggregateId then _ else _) = _
  by_cases here : envelope.aggregateId = aggregateId
  · rw [if_pos (congrArg some here), if_pos here, found]
    dsimp only
    rw [number]
    rfl
  · rw [if_neg (fun same => here (Option.some.inj same)), if_neg here]
    rfl

theorem Scan.push_other {value : J.Value} {entry : types.Entry}
    (held : HoldsEntry codec value entry) (other : entry.1 ≠ i)
    (sequence : (J.get value "sequence").bind J.asU64 = entry.2.sequence)
    (aggregateId : (types.aggregate i).Id) (scan : Scan) :
    Scan.push (codec i) aggregateId scan value =
      .ok ⟨scan.currentRevision, max scan.maxSequence (sequenceOf entry.2)⟩ := by
  rw [Scan.push, held.foreignId other, sequence]
  rfl

variable [DecidableEq ι]

/-- The scan finds the highest revision of the stream and the highest sequence of the file. -/
theorem scan_ok (numbers : NumberFields codec) {values : List J.Value}
    (held : List.Forall₂ (HoldsEntry codec) values entries) (i : ι)
    (aggregateId : (types.aggregate i).Id) (scan : Scan) :
    values.foldlM (Scan.push (codec i) aggregateId) scan =
      .ok ⟨highest EventEnvelope.revision scan.currentRevision (types.stream i aggregateId entries),
        highest (fun entry : types.Entry => sequenceOf entry.2) scan.maxSequence entries⟩ := by
  induction held generalizing scan with
  | nil => rfl
  | @cons value entry values entries head _ ih =>
    rw [List.foldlM_cons]
    by_cases same : entry.1 = i
    · obtain ⟨j, envelope⟩ := entry
      have same : j = i := same
      subst same
      have head : Holds (codec j) value envelope := head
      rw [bind_of_ok (Scan.push_own head (numbers.revision _ _ _ head)
        (numbers.sequence _ _ _ head) aggregateId scan), ih, stream_cons_own]
      by_cases here : envelope.aggregateId = aggregateId
      · rw [if_pos here, if_pos here]
        rfl
      · rw [if_neg here, if_neg here]
        rfl
    · rw [bind_of_ok (Scan.push_other head same (numbers.sequence _ _ _ head) aggregateId scan),
        ih, stream_cons_other same]
      rfl

/-- Numbers given by the place in the batch. -/
theorem newEnvelopes_continues (aggregateId : A.Id) (scan : Scan)
    (events : List (NewEvent A.Event × Stamp)) (number : EventEnvelope A.Event A.Id → Nat)
    (last : Nat) (numbers : ∀ (event : NewEvent A.Event × Stamp) index,
      number (EventEnvelope.commit aggregateId (scan.currentRevision + index + 1)
        (some (scan.maxSequence + index + 1)) event.1 event.2) = last + 1 + index) :
    Continues number last (newEnvelopes aggregateId scan events) := by
  have places : (newEnvelopes aggregateId scan events).map number =
      (events.zipIdx.map Prod.snd).map (fun index => last + 1 + index) := by
    rw [newEnvelopes, List.map_map, List.map_map]
    apply List.map_congr_left
    rintro ⟨event, index⟩ _
    exact numbers event index
  have length : (newEnvelopes aggregateId scan events).length = events.length := by
    rw [newEnvelopes, List.length_map, List.length_zipIdx]
  rw [Continues, places, length, List.zipIdx_map_snd, List.map_add_range']

theorem newEnvelopes_aggregateId (aggregateId : A.Id) (scan : Scan)
    (events : List (NewEvent A.Event × Stamp)) :
    ∀ envelope ∈ newEnvelopes aggregateId scan events, envelope.aggregateId = aggregateId := by
  intro envelope member
  obtain ⟨indexed, _, rfl⟩ := List.mem_map.mp member
  rfl

theorem stream_append (i : ι) (aggregateId : (types.aggregate i).Id)
    (first second : List types.Entry) :
    types.stream i aggregateId (first ++ second) =
      types.stream i aggregateId first ++ types.stream i aggregateId second := by
  rw [AggregateTypes.stream, List.filterMap_append, List.filter_append]
  rfl

theorem stream_tagged_own (own : ∀ envelope ∈ envelopes, envelope.aggregateId = aggregateId) :
    types.stream i aggregateId (types.tagged i envelopes) = envelopes := by
  induction envelopes with
  | nil => rfl
  | cons envelope rest ih =>
    rw [List.forall_mem_cons] at own
    show types.stream i aggregateId (⟨i, envelope⟩ :: types.tagged i rest) = _
    rw [stream_cons_own, if_pos own.1, ih own.2]

theorem stream_tagged_other {other : (types.aggregate i).Id}
    (own : ∀ envelope ∈ envelopes, envelope.aggregateId = aggregateId)
    (apart : aggregateId ≠ other) : types.stream i other (types.tagged i envelopes) = [] := by
  induction envelopes with
  | nil => rfl
  | cons envelope rest ih =>
    rw [List.forall_mem_cons] at own
    show types.stream i other (⟨i, envelope⟩ :: types.tagged i rest) = _
    rw [stream_cons_own, if_neg (fun same => apart (own.1.symm.trans same)), ih own.2]

theorem stream_tagged_otherType {j : ι} (apart : i ≠ j) (aggregateId : (types.aggregate j).Id)
    (envelopes : EventStream (types.aggregate i)) :
    types.stream j aggregateId (types.tagged i envelopes) = [] := by
  induction envelopes with
  | nil => rfl
  | cons envelope rest ih =>
    show types.stream j aggregateId (⟨i, envelope⟩ :: types.tagged i rest) = _
    rw [stream_cons_other apart, ih]

/-- The revisions of every stream and the sequences of the file count from 1. -/
structure WellNumbered (types : AggregateTypes ι) [∀ i, DecidableEq (types.aggregate i).Id]
    (entries : List types.Entry) : Prop where
  revisions : ∀ i aggregateId,
    Numbered EventEnvelope.revision (types.stream i aggregateId entries)
  sequences : Numbered (fun entry : types.Entry => sequenceOf entry.2) entries

/-- The scan of a numbered file counts its stream and its entries. -/
def scanOf (types : AggregateTypes ι) [∀ i, DecidableEq (types.aggregate i).Id] (i : ι)
    (aggregateId : (types.aggregate i).Id) (entries : List types.Entry) : Scan :=
  ⟨(types.stream i aggregateId entries).length, entries.length⟩

theorem tagged_continues (i : ι) (aggregateId : (types.aggregate i).Id)
    (entries : List types.Entry) (events : List (NewEvent (types.aggregate i).Event × Stamp)) :
    Continues (fun entry : types.Entry => sequenceOf entry.2) entries.length (types.tagged i
      (newEnvelopes aggregateId (scanOf types i aggregateId entries) events)) := by
  have continues : Continues sequenceOf entries.length
      (newEnvelopes aggregateId (scanOf types i aggregateId entries) events) := by
    apply newEnvelopes_continues
    intro event index
    show entries.length + index + 1 = _
    omega
  rw [Continues, AggregateTypes.tagged, List.map_map, List.length_map]
  exact continues

theorem InFileOrder.append (ordered : InFileOrder entries) (i : ι)
    (aggregateId : (types.aggregate i).Id)
    (events : List (NewEvent (types.aggregate i).Event × Stamp)) :
    InFileOrder (entries ++ types.tagged i
      (newEnvelopes aggregateId (scanOf types i aggregateId entries) events)) := by
  apply Numbering.Continues.append ordered
  rw [Nat.zero_add]
  exact tagged_continues i aggregateId entries events

/-- The next batch of a stream keeps the numbers. -/
theorem WellNumbered.append (numbered : WellNumbered types entries) (i : ι)
    (aggregateId : (types.aggregate i).Id)
    (events : List (NewEvent (types.aggregate i).Event × Stamp)) :
    WellNumbered types (entries ++ types.tagged i
      (newEnvelopes aggregateId (scanOf types i aggregateId entries) events)) where
  revisions := by
    intro j other
    have own := newEnvelopes_aggregateId aggregateId (scanOf types i aggregateId entries) events
    rw [stream_append]
    by_cases sameType : i = j
    · subst sameType
      by_cases same : aggregateId = other
      · subst same
        rw [stream_tagged_own own]
        apply (numbered.revisions i aggregateId).append
        apply newEnvelopes_continues
        intro event index
        show (types.stream i aggregateId entries).length + index + 1 = _
        omega
      · rw [stream_tagged_other own same, List.append_nil]
        exact numbered.revisions i other
    · rw [stream_tagged_otherType sameType, List.append_nil]
      exact numbered.revisions j other
  sequences := by
    exact numbered.sequences.append (tagged_continues i aggregateId entries events)

/-- Every entry has a sequence, and it is one of the numbers. -/
theorem WellNumbered.placed (numbered : WellNumbered types entries) :
    (entries.map (fun entry => entry.2.sequence)).Perm
      ((List.range' 1 entries.length).map some) := by
  have counted : (entries.map (fun entry => sequenceOf entry.2)).Perm
      (List.range' 1 entries.length) := numbered.sequences
  have placed : ∀ entry ∈ entries, entry.2.sequence = some (sequenceOf entry.2) := by
    intro entry member
    have listed := counted.subset (List.mem_map_of_mem member)
    have positive : 1 ≤ sequenceOf entry.2 := (List.mem_range'_1.mp listed).1
    cases found : entry.2.sequence with
    | none =>
      rw [sequenceOf, found] at positive
      cases positive
    | some sequence =>
      rw [sequenceOf, found]
      rfl
  have mapped := counted.map some
  rw [List.map_map] at mapped
  rw [List.map_congr_left placed]
  exact mapped

/-- An append numbers its batch on. -/
theorem append_numbers (serializes : Serializes codec) (numbers : NumberFields codec)
    (stored : Stored codec file entries) (numbered : WellNumbered types entries)
    (appended : (codec i).append file aggregateId expectedRevision events =
      .ok (envelopes, some write)) :
    envelopes = newEnvelopes aggregateId (scanOf types i aggregateId entries) events := by
  obtain ⟨values, read, held⟩ := stored.read serializes
  have scanned : values.foldlM (Scan.push (codec i) aggregateId) ⟨0, 0⟩ =
      .ok (scanOf types i aggregateId entries) := by
    rw [scan_ok numbers held, (numbered.revisions i aggregateId).highest, numbered.sequences.highest]
    rfl
  rw [JsonCodec.append, bind_of_ok read, bind_of_ok scanned] at appended
  obtain ⟨_, _, appended⟩ := ok_of_bind appended
  split at appended
  · cases appended
  · obtain ⟨newLines, _, appended⟩ := ok_of_bind appended
    obtain ⟨planned, _, same⟩ := ok_of_bind appended
    cases same
    rfl

/-- A file starts out missing, or with entries that are numbered as a run leaves them. Only
appends that run to their end are taken. -/
def crashFreeStore (codec : ∀ i, JsonCodec J (types.aggregate i)) :
    Transition.Machine (JsonFileState types) (JsonFileAction types) where
  start state := Whole codec state.file state.acknowledged ∧ WellNumbered types state.acknowledged
  step state action :=
    match action with
    | .append .. => some (state.step codec action)
    | .crash .. => none

theorem crashFree_invariant (serializes : Serializes codec) (numbers : NumberFields codec)
    (reached : (crashFreeStore codec).Reachable state) :
    Whole codec state.file state.acknowledged ∧ WellNumbered types state.acknowledged := by
  refine Transition.Machine.invariant (fun _ begun => begun) ?_ reached
  rintro before action after _ ⟨whole, numbered⟩ stepped
  cases action with
  | crash => cases stepped
  | append i aggregateId expectedRevision events =>
    cases stepped
    rw [JsonFileState.step]
    split
    · exact ⟨whole, numbered⟩
    · exact ⟨whole, numbered⟩
    · rename_i envelopes write appended
      obtain ⟨records, completed, hold⟩ := append_lines serializes whole appended
      refine ⟨?_, ?_⟩
      · rw [completed]
        exact whole_unlines hold
      · rw [append_numbers serializes numbers whole.stored numbered appended]
        exact numbered.append i aggregateId events

/-- What the stores find in the file they share. -/
structure JsonFileState.Consistent (codec : ∀ i, JsonCodec J (types.aggregate i))
    (state : JsonFileState types) : Prop where
  /-- The file is read as the acknowledged events, in their order. -/
  read : ∃ values, readEventValues J state.file = .ok values ∧
    List.Forall₂ (HoldsEntry codec) values state.acknowledged
  sequences : (state.acknowledged.map (fun entry => entry.2.sequence)).Perm
    ((List.range' 1 state.acknowledged.length).map some)
  load : ∀ i aggregateId, ∃ stream, (codec i).load state.file aggregateId = .ok stream ∧
    stream.Perm (types.stream i aggregateId state.acknowledged) ∧
    stream.map EventEnvelope.revision = List.range' 1 stream.length
  loadGlobalAfter : ∀ i sequence, (codec i).loadGlobalAfter state.file sequence =
    .ok (inOrder sequenceOf (types.eventsAfter i (sequence.getD 0) state.acknowledged))
  loadGlobalAfterLimited : ∀ i sequence limit,
    (codec i).loadGlobalAfterLimited state.file sequence limit =
      .ok ((inOrder sequenceOf
        (types.eventsAfter i (sequence.getD 0) state.acknowledged)).take limit)
  /-- The feed is in file order unless the run began with a file that was not. -/
  inFileOrder : InFileOrder state.acknowledged → ∀ i cursor,
    inOrder sequenceOf (types.eventsAfter i cursor state.acknowledged) =
      types.eventsAfter i cursor state.acknowledged

theorem crashFree_consistent (serializes : Serializes codec) (numbers : NumberFields codec)
    (reached : (crashFreeStore codec).Reachable state) : state.Consistent codec := by
  obtain ⟨⟨stored, _⟩, numbered⟩ := crashFree_invariant serializes numbers reached
  refine ⟨stored.read serializes, numbered.placed, ?_, ?_, ?_, InFileOrder.eventsAfter⟩
  · intro i aggregateId
    have ordered := (numbered.revisions i aggregateId).inOrder
    refine ⟨_, stored.load serializes i aggregateId, List.perm_insertionSort _ _, ?_⟩
    rw [List.length_insertionSort]
    exact ordered
  · intro i sequence
    exact stored.loadGlobalRange serializes numbers i sequence none
  · intro i sequence limit
    exact stored.loadGlobalRange serializes numbers i sequence (some limit)

/-- In every run of appends the file holds what was there at the start and then what the
appends returned, numbered from 1 on, and every load finds it. A rejected append changes
nothing, and an accepted one turns a legacy array into lines. -/
theorem crashFree_history (serializes : Serializes codec) (numbers : NumberFields codec)
    {state : JsonFileState types} (reached : (crashFreeStore codec).Reachable state) :
    state.Consistent codec ∧
    ∀ i aggregateId expectedRevision events,
      let after := state.step codec (.append i aggregateId expectedRevision events)
      (∀ error, (codec i).append state.file aggregateId expectedRevision events = .error error →
        after = state) ∧
      (∀ envelopes, (codec i).append state.file aggregateId expectedRevision events =
        .ok (envelopes, none) → after = state ∧ envelopes = []) ∧
      (∀ envelopes write, (codec i).append state.file aggregateId expectedRevision events =
        .ok (envelopes, some write) →
          after.acknowledged = state.acknowledged ++ types.tagged i envelopes ∧
          (InFileOrder state.acknowledged → InFileOrder after.acknowledged) ∧
          after.Consistent codec ∧ fileIsLegacyArray after.file = .ok false) := by
  refine ⟨crashFree_consistent serializes numbers reached, ?_⟩
  intro i aggregateId expectedRevision events
  refine ⟨?_, ?_, ?_⟩
  · intro error rejected
    show state.step codec (.append i aggregateId expectedRevision events) = state
    rw [JsonFileState.step, rejected]
  · intro envelopes appended
    refine ⟨?_, append_nothing appended⟩
    show state.step codec (.append i aggregateId expectedRevision events) = state
    rw [JsonFileState.step, appended]
  · intro envelopes write appended
    have stepped := JsonFileState.step_append state appended
    have next : (crashFreeStore codec).Reachable
        (state.step codec (.append i aggregateId expectedRevision events)) := by
      have ran : (crashFreeStore codec).step state
          (.append i aggregateId expectedRevision events) = some _ := rfl
      exact reached.step ran
    obtain ⟨whole, numbered⟩ := crashFree_invariant serializes numbers reached
    refine ⟨congrArg JsonFileState.acknowledged stepped, ?_,
      crashFree_consistent serializes numbers next, ?_⟩
    · intro ordered
      show InFileOrder (state.step codec _).acknowledged
      rw [stepped, append_numbers serializes numbers whole.stored numbered appended]
      exact ordered.append i aggregateId events
    · obtain ⟨records, completed, hold⟩ := append_lines serializes whole appended
      show fileIsLegacyArray (state.step codec _).file = _
      rw [stepped, completed]
      exact notLegacy_unlines hold

theorem accountCodecs_numberFields : NumberFields accountCodecs where
  revision i value envelope held := by
    cases value with
    | envelope stored =>
      cases held.envelope
      rfl
    | text | number => cases held.envelope
  sequence i value envelope held := by
    cases value with
    | envelope stored =>
      cases held.envelope
      show (envelope.sequence.map AccountValue.number).bind accountJson.asU64 = envelope.sequence
      cases envelope.sequence <;> rfl
    | text | number => cases held.envelope

def newAccounts (eventIds : List String) : List (NewEvent Aggregate.account.Event × Stamp) :=
  eventIds.map (fun eventId => (newAccount, ⟨eventId, 0⟩))

/-- A file from before: one array with an account and a savings account of the same id. -/
def legacyFile : JsonFileState accounts :=
  ⟨some (utf8 legacyArray), [⟨.current, accountOpened .current "e1" "a" 1 1⟩,
    ⟨.savings, accountOpened .savings "e2" "a" 1 2⟩]⟩

def rewrittenLines : Text :=
  LineLog.unlines (List.map rewrittenLine [accountOpened .current "e1" "a" 1 1,
    accountOpened .savings "e2" "a" 1 2, accountOpened .current "e3" "a" 2 3])

def savingsLines : Text :=
  LineLog.unlines (List.map accountLine [accountOpened .savings "e4" "b" 1 4,
    accountOpened .savings "e5" "b" 2 5])

/-- The account has a second event, and the array is lines now. -/
def rewrittenFile : JsonFileState accounts :=
  ⟨some (utf8 rewrittenLines),
    legacyFile.acknowledged ++ [⟨.current, accountOpened .current "e3" "a" 2 3⟩]⟩

/-- Another savings account with two events, behind the lines. -/
def extendedFile : JsonFileState accounts :=
  ⟨some (utf8 (rewrittenLines ++ savingsLines)),
    rewrittenFile.acknowledged ++ [⟨.savings, accountOpened .savings "e4" "b" 1 4⟩,
      ⟨.savings, accountOpened .savings "e5" "b" 2 5⟩]⟩

/-- What the appends return, in one computation that prints each line once. -/
theorem legacyFile_answers :
    (accountCodecs .current).append legacyFile.file "a" (.exact 1) (newAccounts ["e3"]) =
        .ok ([accountOpened .current "e3" "a" 2 3], some (.replace rewrittenLines)) ∧
      (accountCodecs .savings).append rewrittenFile.file "b" .noStream (newAccounts ["e4", "e5"]) =
        .ok ([accountOpened .savings "e4" "b" 1 4, accountOpened .savings "e5" "b" 2 5],
          some (.extend savingsLines)) ∧
      (accountCodecs .savings).append extendedFile.file "b" (.exact 1) (newAccounts ["e6"]) =
        .error (.concurrency (.wrongExpectedRevision (.exact 1) 2)) := by
  simp only [legacyFile, rewrittenFile, extendedFile, JsonCodec.append, readEventValues,
    readToString_utf8, appendEventLines, fileIsLegacyArray]
  decide +kernel

theorem legacyFile_start : (crashFreeStore accountCodecs).start legacyFile := by
  have isArray : startsWithArray legacyArray = true := by decide +kernel
  have parsed (text : Text) (same : text = legacyArray) :
      accountJson.arrayFromStr text = .ok (legacyEvents.map .envelope) := if_pos same
  have held : List.Forall₂ (HoldsEntry accountCodecs) (legacyEvents.map .envelope)
      legacyFile.acknowledged :=
    .cons ⟨rfl, ⟨_, rfl, rfl⟩, rfl⟩ (.cons ⟨rfl, ⟨_, rfl, rfl⟩, rfl⟩ .nil)
  refine ⟨⟨.legacy isArray (parsed legacyArray rfl) held, Or.inr ?_⟩, ?_⟩
  · show (readToString (utf8 legacyArray)).map startsWithArray = _
    rw [readToString_utf8]
    exact congrArg Except.ok isArray
  · have none : WellNumbered accounts [] := ⟨fun _ _ => .nil, .nil⟩
    exact (none.append .current "a" (newAccounts ["e1"])).append .savings "a" (newAccounts ["e2"])

/-- A legacy file of two aggregate types, appended to by the stores of both. -/
theorem crashFree_history_legacyFile :
    rewrittenFile.Consistent accountCodecs ∧
      fileIsLegacyArray rewrittenFile.file = .ok false ∧
      InFileOrder extendedFile.acknowledged ∧ extendedFile.Consistent accountCodecs ∧
      extendedFile.step accountCodecs (.append .savings "b" (.exact 1) (newAccounts ["e6"])) =
        extendedFile := by
  obtain ⟨rewritten, extended, rejected⟩ := legacyFile_answers
  have step_rewritten : legacyFile.step accountCodecs
      (.append .current "a" (.exact 1) (newAccounts ["e3"])) = rewrittenFile :=
    JsonFileState.step_append legacyFile rewritten
  have step_extended : rewrittenFile.step accountCodecs
      (.append .savings "b" .noStream (newAccounts ["e4", "e5"])) = extendedFile := by
    rw [JsonFileState.step_append rewrittenFile extended]
    show JsonFileState.mk (some (utf8 rewrittenLines ++ utf8 savingsLines)) _ = _
    rw [← utf8_append]
    rfl
  have reached : (crashFreeStore accountCodecs).Reachable legacyFile := .start legacyFile_start
  have ran : (crashFreeStore accountCodecs).run legacyFile
      [.append .current "a" (.exact 1) (newAccounts ["e3"])] = some rewrittenFile :=
    congrArg some step_rewritten
  have reachedLines := reached.run ran
  have ranOn : (crashFreeStore accountCodecs).run rewrittenFile
      [.append .savings "b" .noStream (newAccounts ["e4", "e5"])] = some extendedFile :=
    congrArg some step_extended
  have reachedSavings := reachedLines.run ranOn
  have atStart := (crashFree_history accountCodecs_serializes accountCodecs_numberFields reached).2
    .current "a" (.exact 1) (newAccounts ["e3"])
  have atLines := (crashFree_history accountCodecs_serializes accountCodecs_numberFields
    reachedLines).2 .savings "b" .noStream (newAccounts ["e4", "e5"])
  have atEnd := (crashFree_history accountCodecs_serializes accountCodecs_numberFields
    reachedSavings).2 .savings "b" (.exact 1) (newAccounts ["e6"])
  dsimp only at atStart atLines
  rw [step_rewritten] at atStart
  rw [step_extended] at atLines
  obtain ⟨_, ordered, consistent, isLines⟩ := atStart.2.2 _ _ rewritten
  obtain ⟨_, orderedAgain, consistentAgain, _⟩ := atLines.2.2 _ _ extended
  have inOrder : InFileOrder legacyFile.acknowledged := rfl
  exact ⟨consistent, isLines, orderedAgain (ordered inOrder), consistentAgain,
    atEnd.1 _ rejected⟩

end DddCqrsEs
