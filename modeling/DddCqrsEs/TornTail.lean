import DddCqrsEs.StoredLines

/- What a crash leaves of a JSON-file event store: all acknowledged events are loaded as long
as no append adds bytes to an unfinished line and no crash cuts a character in two. -/
namespace DddCqrsEs

variable {J : Json} {ι : Type} {types : AggregateTypes ι}
  {codec : ∀ i, JsonCodec J (types.aggregate i)}

/-- A write of lines that hold new entries, to a file that holds the old ones: it rewrites the
file with both or adds the new lines at its end. -/
inductive Writes (codec : ∀ i, JsonCodec J (types.aggregate i)) :
    Option ByteArray → List types.Entry → List types.Entry → FileWrite → Prop
  | replace {file : Option ByteArray} {entries new : List types.Entry} {records : List Text} :
      List.Forall₂ (EntryLine codec) records (entries ++ new) →
      Writes codec file entries new (.replace (LineLog.unlines records))
  | extend {records newLines : List Text} {tail : Text} {entries extra new : List types.Entry} :
      List.Forall₂ (EntryLine codec) records entries → Tail codec tail extra →
      List.Forall₂ (EntryLine codec) newLines new →
      Writes codec (some (utf8 (LineLog.unlines records ++ tail))) (entries ++ extra) new
        (.extend (LineLog.unlines newLines))

variable {file : Option ByteArray} {entries new extra : List types.Entry} {write : FileWrite}
  {records : List Text}

theorem appendEventLines_writes (serializes : Serializes codec) {existing : List J.Value}
    {newLines : List Text} (stored : Stored codec file entries)
    (held : List.Forall₂ (HoldsEntry codec) existing entries)
    (hold : List.Forall₂ (EntryLine codec) newLines new)
    (planned : appendEventLines J file existing newLines = .ok write) :
    Writes codec file entries new write := by
  have replaced : ((newLines.mapM J.fromStr).mapError
        (fun error => EventStoreError.serialization error none) >>= fun added =>
          jsonLinesFromValues J (existing ++ added) >>= fun content =>
            .ok (FileWrite.replace content)) = .ok write →
      Writes codec file entries new write := by
    intro rewrites
    obtain ⟨added, parsed, rewrites⟩ := ok_of_bind rewrites
    obtain ⟨content, printed, same⟩ := ok_of_bind rewrites
    have heldAdded := added_hold hold (forall₂_of_mapM_ok (ok_of_mapError parsed))
    obtain ⟨records, rfl, holdAll⟩ :=
      jsonLinesFromValues_hold serializes (List.rel_append held heldAdded) printed
    rw [← Except.ok.inj same]
    exact .replace holdAll
  rw [appendEventLines] at planned
  cases stored with
  | missing => exact replaced planned
  | @legacy content values entries isArray parsed heldValues =>
    have legacy : fileIsLegacyArray (some (utf8 content)) = .ok true := by
      rw [fileIsLegacyArray, readToString_utf8, ← isArray]
      rfl
    rw [legacy] at planned
    exact replaced planned
  | @lines records tail kept extra holdKept keptTail =>
    have notLegacy : fileIsLegacyArray (some (utf8 (LineLog.unlines records ++ tail))) =
        .ok false := by
      rw [fileIsLegacyArray, readToString_utf8, ← lines_notArray holdKept keptTail]
      rfl
    rw [notLegacy] at planned
    rw [← Except.ok.inj planned]
    exact .extend holdKept keptTail hold

/-- Every line of the file is ended, so a line added at the end is a line of its own. -/
def Ended (file : Option ByteArray) : Prop :=
  ∀ content, file = some (utf8 content) → content = [] ∨ content.getLast? = some '\n'

theorem Ended.clean {tail : Text} (ended : Ended (some (utf8 (LineLog.unlines records ++ tail))))
    (kept : Tail codec tail extra) : tail = [] ∧ extra = [] := by
  have empty : tail = [] := by
    by_contra some_text
    have newline : tail.getLast? = some '\n' := by
      rcases ended _ rfl with nothing | last
      · exact absurd (List.append_eq_nil_iff.mp nothing).2 some_text
      · rw [List.getLast?_append_of_ne_nil _ some_text] at last
        exact last
    exact kept.noNewline (List.mem_of_getLast? newline)
  refine ⟨empty, ?_⟩
  cases kept with
  | clean => rfl
  | unended holds =>
    have opens := holds.opens
    rw [empty] at opens
    cases opens
  | torn => rfl

/-- Lines added after ended lines, with what a tail makes of the last of them. -/
theorem stored_extend {more : List Text} {tail : Text}
    (hold : List.Forall₂ (EntryLine codec) records entries)
    (holdMore : List.Forall₂ (EntryLine codec) more new) (kept : Tail codec tail extra) :
    Stored codec (some (utf8 (LineLog.unlines records) ++ utf8 (LineLog.unlines more ++ tail)))
      (entries ++ (new ++ extra)) := by
  rw [← utf8_append, ← List.append_assoc, ← LineLog.unlines_append, ← List.append_assoc]
  exact .lines (List.rel_append hold holdMore) kept

theorem stored_unlines (hold : List.Forall₂ (EntryLine codec) records entries) :
    Stored codec (some (utf8 (LineLog.unlines records))) entries := by
  have stored : Stored codec (some (utf8 (LineLog.unlines records ++ []))) (entries ++ []) :=
    .lines hold .clean
  rw [List.append_nil, List.append_nil] at stored
  exact stored

/-- A write to ended lines leaves ended lines that hold the old entries and then the new ones. -/
theorem Writes.lines (writes : Writes codec file entries new write)
    (ended : ∀ buffer, write = .extend buffer → Ended file) :
    ∃ records, write.complete file = some (utf8 (LineLog.unlines records)) ∧
      List.Forall₂ (EntryLine codec) records (entries ++ new) := by
  cases writes with
  | replace holdAll => exact ⟨_, rfl, holdAll⟩
  | @extend records newLines tail entries extra new hold kept holdNew =>
    obtain ⟨rfl, rfl⟩ := (ended _ rfl).clean kept
    refine ⟨records ++ newLines, ?_, ?_⟩
    · rw [List.append_nil, LineLog.unlines_append, utf8_append]
      rfl
    · rw [List.append_nil]
      exact List.rel_append hold holdNew

theorem Writes.complete (writes : Writes codec file entries new write)
    (ended : ∀ buffer, write = .extend buffer → Ended file) :
    Stored codec (write.complete file) (entries ++ new) := by
  obtain ⟨records, completed, hold⟩ := writes.lines ended
  rw [completed]
  exact stored_unlines hold

/-- A prefix of a record is nothing, a torn line or an unended one. -/
theorem tail_of_prefix {record fragment : Text} {entry : types.Entry}
    (holds : EntryLine codec record entry) (cut : fragment <+: record) :
    ∃ extra, Tail codec fragment extra := by
  by_cases empty : fragment = []
  · rw [empty]
    exact ⟨[], .clean⟩
  · by_cases whole : fragment = record
    · rw [whole]
      exact ⟨[entry], .unended holds⟩
    · exact ⟨[], .torn holds cut whole empty⟩

theorem exists_entry (hold : List.Forall₂ (EntryLine codec) records entries) {record : Text}
    (member : record ∈ records) : ∃ entry, EntryLine codec record entry := by
  induction hold with
  | nil => cases member
  | @cons first entry records entries holds _ ih =>
    rcases List.mem_cons.mp member with rfl | later
    · exact ⟨entry, holds⟩
    · exact ih later

/-- A crash keeps what the file held. -/
theorem Writes.interrupted (writes : Writes codec file entries new write)
    (stored : Stored codec file entries) {cut : Nat} (renamed : Bool)
    (whole : ∀ buffer, write = .extend buffer →
      (Ended file ∨ cut = 0) ∧ ((utf8 buffer).extract 0 cut).IsValidUTF8) :
    ∃ more, Stored codec (write.interrupted file cut renamed) (entries ++ more) := by
  cases writes with
  | replace holdAll =>
    cases renamed with
    | false => exact ⟨[], by rw [List.append_nil]; exact stored⟩
    | true => exact ⟨new, stored_unlines holdAll⟩
  | @extend records newLines tail entries extra new hold kept holdNew =>
    obtain ⟨ended | none, characters⟩ := whole _ rfl
    · obtain ⟨rfl, rfl⟩ := ended.clean kept
      obtain ⟨text, cutText, same⟩ := utf8_cut characters
      obtain ⟨written, rest, fragment, rfl, rfl, ends⟩ := LineLog.prefix_unlines cutText
      have holdWritten := List.forall₂_take written.length holdNew
      rw [List.take_left] at holdWritten
      have tail : ∃ extra, Tail codec fragment extra := by
        rcases ends with rfl | ⟨record, member, cutRecord⟩
        · exact ⟨[], .clean⟩
        · obtain ⟨entry, holds⟩ := exists_entry holdNew (List.mem_append_right written member)
          exact tail_of_prefix holds cutRecord
      obtain ⟨extra, kept⟩ := tail
      refine ⟨new.take written.length ++ extra, ?_⟩
      rw [FileWrite.interrupted, same, List.append_nil, List.append_nil]
      exact stored_extend hold holdWritten kept
    · refine ⟨[], ?_⟩
      rw [none, FileWrite.interrupted, List.append_nil]
      have nothing : (utf8 (LineLog.unlines newLines)).extract 0 0 = ByteArray.empty :=
        ByteArray.extract_same
      rw [nothing, ByteArray.append_empty]
      exact stored

section Machine

variable [∀ i, DecidableEq (types.aggregate i).Id]

theorem append_writes (serializes : Serializes codec) {file : Option ByteArray}
    {entries : List types.Entry} (stored : Stored codec file entries) {i : ι}
    {aggregateId : (types.aggregate i).Id} {expectedRevision : ExpectedRevision}
    {events : List (NewEvent (types.aggregate i).Event × Stamp)}
    {envelopes : EventStream (types.aggregate i)} {write : FileWrite}
    (appended : (codec i).append file aggregateId expectedRevision events =
      .ok (envelopes, some write)) :
    Writes codec file entries (types.tagged i envelopes) write := by
  obtain ⟨values, read, held⟩ := stored.read serializes
  rw [JsonCodec.append] at appended
  obtain ⟨existing, readExisting, appended⟩ := ok_of_bind appended
  cases read.symm.trans readExisting
  obtain ⟨scan, _, appended⟩ := ok_of_bind appended
  obtain ⟨_, _, appended⟩ := ok_of_bind appended
  split at appended
  · cases appended
  · obtain ⟨newLines, printed, appended⟩ := ok_of_bind appended
    obtain ⟨planned, plans, same⟩ := ok_of_bind appended
    cases same
    have hold := envelopes_hold serializes (newEnvelopes_aggregateType i aggregateId scan events)
      (forall₂_of_mapM_ok (ok_of_mapError printed))
    exact appendEventLines_writes serializes stored held hold plans

/-- An append that adds bytes at the end of the file finds its lines ended, and a crash keeps
whole characters of what it adds. -/
def OnWholeLines (codec : ∀ i, JsonCodec J (types.aggregate i)) (state : JsonFileState types) :
    JsonFileAction types → Prop
  | .append i aggregateId expectedRevision events =>
    ∀ envelopes buffer,
      (codec i).append state.file aggregateId expectedRevision events =
        .ok (envelopes, some (.extend buffer)) → Ended state.file
  | .crash i aggregateId expectedRevision events cut _ =>
    ∀ envelopes buffer,
      (codec i).append state.file aggregateId expectedRevision events =
        .ok (envelopes, some (.extend buffer)) →
      (Ended state.file ∨ cut = 0) ∧ ((utf8 buffer).extract 0 cut).IsValidUTF8

/-- The file holds every acknowledged entry. -/
def Kept (codec : ∀ i, JsonCodec J (types.aggregate i)) (state : JsonFileState types) : Prop :=
  ∃ entries, Stored codec state.file entries ∧ List.Sublist state.acknowledged entries

variable {state : JsonFileState types}

theorem Kept.step (serializes : Serializes codec) {action : JsonFileAction types}
    (kept : Kept codec state) (whole : OnWholeLines codec state action) :
    Kept codec (state.step codec action) := by
  obtain ⟨entries, stored, acknowledged⟩ := kept
  cases action with
  | append i aggregateId expectedRevision events =>
    rw [JsonFileState.step]
    split
    · exact ⟨entries, stored, acknowledged⟩
    · exact ⟨entries, stored, acknowledged⟩
    · rename_i envelopes write appended
      have writes := append_writes serializes stored appended
      refine ⟨entries ++ types.tagged i envelopes, ?_, acknowledged.append_right _⟩
      apply writes.complete
      rintro buffer rfl
      exact whole envelopes buffer appended
  | crash i aggregateId expectedRevision events cut renamed =>
    rw [JsonFileState.step]
    split
    · exact ⟨entries, stored, acknowledged⟩
    · exact ⟨entries, stored, acknowledged⟩
    · rename_i envelopes write appended
      have writes := append_writes serializes stored appended
      have after : ∃ more,
          Stored codec (write.interrupted state.file cut renamed) (entries ++ more) := by
        apply writes.interrupted stored
        rintro buffer rfl
        exact whole envelopes buffer appended
      obtain ⟨more, storedMore⟩ := after
      exact ⟨entries ++ more, storedMore, acknowledged.trans (List.sublist_append_left ..)⟩

/-- A store file in use. The events it holds at the start count as acknowledged. -/
def jsonFileStore (codec : ∀ i, JsonCodec J (types.aggregate i)) :
    Transition.Machine (JsonFileState types) (JsonFileAction types) where
  start state := Stored codec state.file state.acknowledged
  step state action := some (state.step codec action)

/-- Every stream loads, with all of its acknowledged events. -/
def JsonFileState.AllLoaded [DecidableEq ι] (codec : ∀ i, JsonCodec J (types.aggregate i))
    (state : JsonFileState types) : Prop :=
  ∀ i aggregateId, ∃ envelopes, (codec i).load state.file aggregateId = .ok envelopes ∧
    List.Subperm (types.stream i aggregateId state.acknowledged) envelopes

theorem Kept.allLoaded [DecidableEq ι] (serializes : Serializes codec) (kept : Kept codec state) :
    state.AllLoaded codec := by
  obtain ⟨entries, stored, acknowledged⟩ := kept
  intro i aggregateId
  refine ⟨_, stored.load serializes i aggregateId, ?_⟩
  have among := (acknowledged.filterMap (types.ofType i)).filter
    (fun envelope => envelope.aggregateId = aggregateId)
  exact among.subperm.trans (List.perm_insertionSort _ _).symm.subperm

/-- In every run that adds lines to ended lines only and cuts no character, everything
acknowledged is loaded at all times. -/
theorem acknowledged_loaded [DecidableEq ι] (serializes : Serializes codec)
    {state : JsonFileState types}
    (reached : ((jsonFileStore codec).restrict (OnWholeLines codec)).Reachable state) :
    state.AllLoaded codec := by
  suffices kept : Kept codec state from kept.allLoaded serializes
  refine Transition.Machine.invariant ?_ ?_ reached
  · intro start begun
    exact ⟨start.acknowledged, begun, List.Sublist.refl _⟩
  · intro before action after _ kept stepped
    obtain ⟨whole, ran⟩ := (Transition.Machine.restrict_step_iff _ _ _ _).mp stepped
    cases ran
    exact kept.step serializes whole

end Machine

def appendAccount (eventId aggregateId : String) : JsonFileAction accounts :=
  .append .current aggregateId .noStream [(newAccount, ⟨eventId, 0⟩)]

/-- The process dies in the middle of the line of a second account. -/
def tearAccount : JsonFileAction accounts :=
  .crash .current "b" .noStream [(newAccount, ⟨"e2", 0⟩)] 13 false

/-- The new file, which prints the line that was read once more. -/
def firstLine : Text := LineLog.unlines [rewrittenLine (accountOpened .current "e1" "a" 1 1)]

def tornLine : Text := (accountLine (accountOpened .current "e2" "b" 1 2)).take 13

def noFile : JsonFileState accounts := ⟨none, []⟩

def afterFirst : JsonFileState accounts :=
  ⟨some (utf8 firstLine), [⟨.current, accountOpened .current "e1" "a" 1 1⟩]⟩

def afterTear : JsonFileState accounts :=
  ⟨some (utf8 (firstLine ++ tornLine)), [⟨.current, accountOpened .current "e1" "a" 1 1⟩]⟩

def secondLine : Text := LineLog.unlines [accountLine (accountOpened .current "e2" "b" 1 2)]

def thirdLine : Text := LineLog.unlines [accountLine (accountOpened .current "e3" "c" 1 2)]

def afterMerge : JsonFileState accounts :=
  ⟨some (utf8 (firstLine ++ tornLine ++ thirdLine)),
    [⟨.current, accountOpened .current "e1" "a" 1 1⟩,
      ⟨.current, accountOpened .current "e3" "c" 1 2⟩]⟩

/-- What the appends and the load return, in one computation that prints each line once. -/
theorem answers :
    ((accountCodecs .current).append none "a" .noStream [(newAccount, ⟨"e1", 0⟩)] =
        .ok ([accountOpened .current "e1" "a" 1 1], some (.replace firstLine)) ∧
      (accountCodecs .current).append afterFirst.file "b" .noStream [(newAccount, ⟨"e2", 0⟩)] =
        .ok ([accountOpened .current "e2" "b" 1 2], some (.extend secondLine))) ∧
    (accountCodecs .current).append afterTear.file "c" .noStream [(newAccount, ⟨"e3", 0⟩)] =
      .ok ([accountOpened .current "e3" "c" 1 2], some (.extend thirdLine)) ∧
    (accountCodecs .current).load afterMerge.file "c" = .ok [] := by
  simp only [afterFirst, afterTear, afterMerge, JsonCodec.append, JsonCodec.load, readEventValues,
    readToString_utf8, appendEventLines, fileIsLegacyArray]
  decide +kernel

theorem append_first :
    (accountCodecs .current).append none "a" .noStream [(newAccount, ⟨"e1", 0⟩)] =
      .ok ([accountOpened .current "e1" "a" 1 1], some (.replace firstLine)) := answers.1.1

theorem append_second :
    (accountCodecs .current).append afterFirst.file "b" .noStream [(newAccount, ⟨"e2", 0⟩)] =
      .ok ([accountOpened .current "e2" "b" 1 2], some (.extend secondLine)) := answers.1.2

theorem cut_second : (utf8 secondLine).extract 0 13 = utf8 tornLine := by
  have split : secondLine = tornLine ++ secondLine.drop 13 := by decide +kernel
  have size : 13 = (utf8 tornLine).size := by decide +kernel
  rw [split, utf8_append]
  exact ByteArray.extract_append_eq_left size

theorem step_first : noFile.step accountCodecs (appendAccount "e1" "a") = afterFirst := by
  have appended : (accountCodecs .current).append noFile.file "a" .noStream
      [(newAccount, ⟨"e1", 0⟩)] = _ := append_first
  rw [appendAccount, JsonFileState.step_append noFile appended]
  rfl

theorem step_tear : afterFirst.step accountCodecs tearAccount = afterTear := by
  have appended : (accountCodecs .current).append afterFirst.file "b" .noStream
      [(newAccount, ⟨"e2", 0⟩)] = _ := append_second
  rw [tearAccount, JsonFileState.step_crash afterFirst 13 false appended]
  show JsonFileState.mk (some (utf8 firstLine ++ (utf8 secondLine).extract 0 13)) _ = _
  rw [cut_second, ← utf8_append]
  rfl

theorem ended_first : Ended afterFirst.file := by
  intro content same
  right
  have sameText := utf8_injective (Option.some.inj same)
  rw [← sameText]
  simp [firstLine, LineLog.unlines]

/-- The torn line is skipped, and the account opened before it is loaded. -/
theorem acknowledged_loaded_afterTear : afterTear.AllLoaded accountCodecs := by
  apply acknowledged_loaded accountCodecs_serializes
  have started : ((jsonFileStore accountCodecs).restrict (OnWholeLines accountCodecs)).Reachable
      noFile := .start .missing
  have opened : ((jsonFileStore accountCodecs).restrict (OnWholeLines accountCodecs)).Reachable
      afterFirst := by
    apply started.step
    rw [Transition.Machine.restrict_step_iff]
    refine ⟨?_, congrArg some step_first⟩
    intro envelopes buffer appended
    cases (append_first).symm.trans appended
  apply opened.step
  rw [Transition.Machine.restrict_step_iff]
  refine ⟨?_, congrArg some step_tear⟩
  intro envelopes buffer appended
  cases (append_second).symm.trans appended
  refine ⟨.inl ended_first, ?_⟩
  rw [cut_second, utf8_eq]
  exact ByteArray.isValidUTF8_utf8Encode

theorem append_third :
    (accountCodecs .current).append afterTear.file "c" .noStream [(newAccount, ⟨"e3", 0⟩)] =
      .ok ([accountOpened .current "e3" "c" 1 2], some (.extend thirdLine)) := answers.2.1

theorem step_merge : afterTear.step accountCodecs (appendAccount "e3" "c") = afterMerge := by
  have appended : (accountCodecs .current).append afterTear.file "c" .noStream
      [(newAccount, ⟨"e3", 0⟩)] = _ := append_third
  rw [appendAccount, JsonFileState.step_append afterTear appended]
  show JsonFileState.mk (some (utf8 (firstLine ++ tornLine) ++ utf8 thirdLine)) _ = _
  rw [← utf8_append]
  rfl

/-- The next line is added to the torn one: its append returns, and its event is never
loaded. -/
theorem tornTail_hides :
    (jsonFileStore accountCodecs).run noFile
        [appendAccount "e1" "a", tearAccount, appendAccount "e3" "c"] = some afterMerge ∧
      ⟨.current, accountOpened .current "e3" "c" 1 2⟩ ∈ afterMerge.acknowledged ∧
      (accountCodecs .current).load afterMerge.file "c" = .ok [] ∧
      ¬ ∀ state, (jsonFileStore accountCodecs).Reachable state → state.AllLoaded accountCodecs := by
  have ran : (jsonFileStore accountCodecs).run noFile
      [appendAccount "e1" "a", tearAccount, appendAccount "e3" "c"] = some afterMerge := by
    show some (((noFile.step accountCodecs (appendAccount "e1" "a")).step accountCodecs
      tearAccount).step accountCodecs (appendAccount "e3" "c")) = _
    rw [step_first, step_tear, step_merge]
  have loaded : (accountCodecs .current).load afterMerge.file "c" = .ok [] := answers.2.2
  refine ⟨ran, by simp [afterMerge], loaded, ?_⟩
  intro always
  have started : (jsonFileStore accountCodecs).Reachable noFile := .start .missing
  obtain ⟨envelopes, loadedAgain, among⟩ := always afterMerge (started.run ran) .current "c"
  cases loaded.symm.trans loadedAgain
  have acknowledged : accounts.stream .current "c" afterMerge.acknowledged =
      [accountOpened .current "e3" "c" 1 2] := rfl
  rw [acknowledged] at among
  exact absurd among.length_le (by decide)

end DddCqrsEs
