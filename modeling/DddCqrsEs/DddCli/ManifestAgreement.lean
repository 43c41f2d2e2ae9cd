import DddCqrsEs.DddCli.AggregateReading
import DddCqrsEs.DddCli.DomainRegistry
import DddCqrsEs.Transition

/- The records of `ddd.toml` beside the files of their aggregates, over every run of
`ddd add aggregate`, `ddd add event` and `ddd add command`. -/
namespace DddCqrsEs.DddCli

open LineLog

/-- A record lists what the file of its module declares: each variant of the two enums once, each
with one arm in every match of its enum, and no two event types with one text. -/
structure DomainAgrees (domain : DomainRecord) (content : Text) : Prop where
  commands : (enumVariants domain.commandTypeName content).Perm domain.commands
  events : (enumVariants domain.eventTypeName content).Perm domain.events
  types : ((eventTypeArms content).map Prod.fst).Perm domain.events
  applies : (applyArms domain.eventTypeName content).Perm domain.events
  handles : (handleArms domain.commandTypeName content).Perm domain.commands
  commandsOnce : domain.commands.Nodup
  eventsOnce : domain.events.Nodup
  typesApart : ((eventTypeArms content).map Prod.snd).Nodup

def Agrees (project : Project) : Prop :=
  ∀ domain ∈ project.domains, ∃ content, project.modules domain.module = some content ∧
    DomainAgrees domain content

structure CommandAdded where
  variant : Text
  fields : List (Text × Text)

structure EventAdded where
  variant : Text
  fields : List (Text × Text)
  eventType : Text

section Files

variable (heck : Heck) (names : NameParts) (commands : List CommandAdded)
  (events : List EventAdded)

def addedLines : Added where
  commands := commands.map fun command => eventVariantLine heck command.variant command.fields
  events := events.map fun event => eventVariantLine heck event.variant event.fields
  types := events.map fun event => eventTypeArmLine heck event.eventType event.variant
  applies := events.map fun event => applyArmLine names.eventType event.variant
  handles := commands.map fun command =>
    commandHandleArmLine heck names.commandType command.variant

/-- The file of an aggregate with these additions. -/
def fileOf : Text := unlines (fileLines names (addedLines heck names commands events))

theorem renderAggregate_fileOf : renderAggregate names = fileOf heck names [] [] := rfl

end Files

/-- A variant that its conversion leaves as it is. -/
structure IsVariant (heck : Heck) (variant : Text) : Prop where
  word : IsIdentifier variant
  kept : heck.upperCamel variant = variant

structure IsCommandAdded (heck : Heck) (command : CommandAdded) : Prop where
  variant : IsVariant heck command.variant
  fields : ∀ field ∈ command.fields, IsField field

structure IsEventAdded (heck : Heck) (event : EventAdded) : Prop where
  variant : IsVariant heck event.variant
  fields : ∀ field ∈ event.fields, IsField field
  eventType : IsEventType event.eventType

section Words

variable {heck : Heck} {names : NameParts}

theorem IsVariant.converted {variant : Text} (isVariant : IsVariant heck variant) :
    IsIdentifier (heck.upperCamel variant) := by
  rw [isVariant.kept]
  exact isVariant.word

theorem IsIdentifier.append {front back : Text} (word : IsIdentifier front)
    (letters : ∀ c ∈ back, isIdentifierChar c = true) : IsIdentifier (front ++ back) := by
  refine ⟨fun empty => word.1 (List.append_eq_nil_iff.mp empty).1, ?_⟩
  rw [List.forall_mem_append]
  exact ⟨word.2, letters⟩

theorem IsNames.isCode (valid : IsNames heck names) : names.IsCode := by
  obtain ⟨⟨name, rfl⟩, aggregate, module⟩ := valid
  refine ⟨aggregate, module, aggregate.append (by decide), aggregate.append (by decide),
    aggregate.append (by decide), ?_, aggregate.append (by decide), module.append (by decide)⟩
  refine ⟨by simp [NameParts.new, code], ?_⟩
  rw [NameParts.new, List.forall_mem_append]
  exact ⟨by decide, aggregate.2⟩

theorem IsNames.types_apart (valid : IsNames heck names) :
    names.commandType ≠ names.eventType := by
  obtain ⟨⟨name, rfl⟩, -⟩ := valid
  intro same
  exact absurd (List.append_cancel_left same) (by decide)

variable {commands : List CommandAdded} {events : List EventAdded}

theorem addedLines_isCode (valid : IsNames heck names)
    (allCommands : ∀ command ∈ commands, IsCommandAdded heck command)
    (allEvents : ∀ event ∈ events, IsEventAdded heck event) :
    (addedLines heck names commands events).IsCode := by
  have words := valid.isCode
  constructor
  · exact List.forall_mem_map.mpr fun command member =>
      eventVariantLine_isCode (allCommands command member).variant.converted
        (allCommands command member).fields
  · exact List.forall_mem_map.mpr fun event member =>
      eventVariantLine_isCode (allEvents event member).variant.converted
        (allEvents event member).fields
  · exact List.forall_mem_map.mpr fun event member =>
      eventTypeArmLine_isCode (allEvents event member).variant.converted
        (allEvents event member).eventType
  · exact List.forall_mem_map.mpr fun event member =>
      applyArmLine_isCode words.eventType (allEvents event member).variant.word
  · exact List.forall_mem_map.mpr fun command member =>
      commandHandleArmLine_isCode words.commandType (allCommands command member).variant.converted

theorem addedLines_indented (valid : IsNames heck names)
    (allCommands : ∀ command ∈ commands, IsCommandAdded heck command)
    (allEvents : ∀ event ∈ events, IsEventAdded heck event) :
    (addedLines heck names commands events).Indented := by
  have words := valid.isCode
  constructor
  · exact List.forall_mem_map.mpr fun command member =>
      indent_eventVariantLine (allCommands command member).variant.converted
  · exact List.forall_mem_map.mpr fun event member =>
      indent_eventVariantLine (allEvents event member).variant.converted
  · exact List.forall_mem_map.mpr fun event _ => indent_eventTypeArmLine
  · exact List.forall_mem_map.mpr fun event _ => indent_applyArmLine words.eventType
  · exact List.forall_mem_map.mpr fun command _ =>
      indent_commandHandleArmLine words.commandType

theorem filterMap_lines {α β : Type} {items : List α} {line : α → Text} {read : Text → Option β}
    {value : α → β} (reads : ∀ item ∈ items, read (line item) = some (value item)) :
    (items.map line).filterMap read = items.map value := by
  rw [List.filterMap_map, ← List.filterMap_eq_map]
  exact List.filterMap_congr reads

end Words

structure Tracks (heck : Heck) (names : NameParts) (commands : List CommandAdded)
    (events : List EventAdded) (domain : DomainRecord) : Prop where
  isNames : IsNames heck names
  module : domain.module = names.module
  aggregate : domain.aggregate = names.aggregate
  hasCommands : domain.commands.Perm (names.createCommand :: commands.map CommandAdded.variant)
  hasEvents : domain.events.Perm (names.createdEvent :: events.map EventAdded.variant)
  commandsOnce : domain.commands.Nodup
  eventsOnce : domain.events.Nodup
  typesApart : (names.createdEventName :: events.map EventAdded.eventType).Nodup
  allCommands : ∀ command ∈ commands, IsCommandAdded heck command
  allEvents : ∀ event ∈ events, IsEventAdded heck event

section Tracks

variable {heck : Heck} {names : NameParts} {commands : List CommandAdded}
  {events : List EventAdded} {domain : DomainRecord}

theorem Tracks.commandType (tracks : Tracks heck names commands events domain) :
    domain.commandTypeName = names.commandType := by
  obtain ⟨⟨name, rfl⟩, -⟩ := tracks.isNames
  rw [DomainRecord.commandTypeName, tracks.aggregate]
  rfl

theorem Tracks.eventType (tracks : Tracks heck names commands events domain) :
    domain.eventTypeName = names.eventType := by
  obtain ⟨⟨name, rfl⟩, -⟩ := tracks.isNames
  rw [DomainRecord.eventTypeName, tracks.aggregate]
  rfl

theorem Tracks.eventTypes (tracks : Tracks heck names commands events domain) :
    eventTypeArms (fileOf heck names commands events) =
      (names.createdEvent, names.createdEventName) ::
        events.map fun event => (event.variant, event.eventType) := by
  have code := addedLines_isCode tracks.isNames tracks.allCommands tracks.allEvents
  have indented := addedLines_indented tracks.isNames tracks.allCommands tracks.allEvents
  rw [fileOf, eventTypeArms_file tracks.isNames.isCode code indented]
  congr 1
  apply filterMap_lines
  intro event member
  have valid := tracks.allEvents event member
  rw [readTypeArm_eventTypeArmLine valid.variant.converted valid.eventType, valid.variant.kept]

/-- A record agrees with the file that has its additions. -/
theorem Tracks.agrees (tracks : Tracks heck names commands events domain) :
    DomainAgrees domain (fileOf heck names commands events) := by
  have words := tracks.isNames.isCode
  have code := addedLines_isCode tracks.isNames tracks.allCommands tracks.allEvents
  have indented := addedLines_indented tracks.isNames tracks.allCommands tracks.allEvents
  have commandVariants : enumVariants names.commandType (fileOf heck names commands events) =
      names.createCommand :: commands.map CommandAdded.variant := by
    rw [fileOf, enumVariants_commands words code indented]
    congr 1
    apply filterMap_lines
    intro command member
    have valid := (tracks.allCommands command member).variant
    rw [readVariant_eventVariantLine valid.converted, valid.kept]
  have eventVariants : enumVariants names.eventType (fileOf heck names commands events) =
      names.createdEvent :: events.map EventAdded.variant := by
    rw [fileOf, enumVariants_events words code indented tracks.isNames.types_apart]
    congr 1
    apply filterMap_lines
    intro event member
    have valid := (tracks.allEvents event member).variant
    rw [readVariant_eventVariantLine valid.converted, valid.kept]
  have applies : applyArms names.eventType (fileOf heck names commands events) =
      names.createdEvent :: events.map EventAdded.variant := by
    rw [fileOf, applyArms_file words code indented]
    congr 1
    apply filterMap_lines
    intro event member
    exact readArm_applyArmLine words.eventType (tracks.allEvents event member).variant.word
  have handles : handleArms names.commandType (fileOf heck names commands events) =
      names.createCommand :: commands.map CommandAdded.variant := by
    rw [fileOf, handleArms_file words code indented]
    congr 1
    apply filterMap_lines
    intro command member
    have valid := (tracks.allCommands command member).variant
    rw [readArm_commandHandleArmLine words.commandType valid.converted, valid.kept]
  refine ⟨?_, ?_, ?_, ?_, ?_, tracks.commandsOnce, tracks.eventsOnce, ?_⟩
  · rw [tracks.commandType, commandVariants]
    exact tracks.hasCommands.symm
  · rw [tracks.eventType, eventVariants]
    exact tracks.hasEvents.symm
  · rw [tracks.eventTypes, List.map_cons, List.map_map]
    exact tracks.hasEvents.symm
  · rw [tracks.eventType, applies]
    exact tracks.hasEvents.symm
  · rw [tracks.commandType, handles]
    exact tracks.hasCommands.symm
  · rw [tracks.eventTypes, List.map_cons, List.map_map]
    exact tracks.typesApart

end Tracks

/-- A reader of lines that does not count blanks before a line. -/
structure ReadsCode {β : Type} (read : Text → Option β) : Prop where
  unindents : ∀ line other, unindent line = unindent other → read line = read other
  blank : read [] = none

theorem readVariant_code : ReadsCode readVariant := by
  refine ⟨fun line other same => ?_, rfl⟩
  rw [readVariant, readVariant, same]

theorem readArm_code (type : Text) : ReadsCode (readArm type) := by
  refine ⟨fun line other same => ?_, ?_⟩
  · rw [readArm, readArm, same]
  · rw [readArm]
    exact ite_self _

theorem readTypeArm_code : ReadsCode readTypeArm := by
  refine ⟨fun line other same => ?_, rfl⟩
  rw [readTypeArm, readTypeArm, (readArm_code (code "Self")).unindents line other same, same]

variable {β : Type} {read : Text → Option β} {module : Text} {change : DomainRecord → DomainRecord}
  {domains : List DomainRecord} {domain new : DomainRecord} {items : List Text}

theorem ReadsCode.map {γ : Type} (looks : ReadsCode read) (part : β → γ) :
    ReadsCode fun line => (read line).map part := by
  refine ⟨fun line other same => ?_, ?_⟩
  · rw [looks.unindents line other same]
  · rw [looks.blank]
    rfl

theorem ReadsCode.nonblank (looks : ReadsCode read) {line : Text} {value : β} (flush : Flush line)
    (reads : read line = some value) : trim line ≠ [] := by
  intro blank
  have empty : unindent line = unindent [] :=
    (show trim line = unindent line from flush).symm.trans blank
  rw [looks.unindents _ _ empty, looks.blank] at reads
  cases reads

/-- A line that reads like none of the others is added. -/
theorem ReadsCode.addRecord {α : Type} {line : α → Text} {value : α → β} (looks : ReadsCode read)
    (flush : ∀ one : α, Flush (line one)) {items : List α} {item : α}
    (reads : ∀ one ∈ items ++ [item], read (line one) = some (value one))
    (new : value item ∉ items.map value) :
    addRecord (items.map line) (line item) = (items ++ [item]).map line := by
  rw [List.forall_mem_append, List.forall_mem_singleton] at reads
  rw [DddCli.addRecord, if_neg, List.map_append, List.map_singleton]
  rw [List.any_map, List.any_eq_true]
  rintro ⟨other, member, same⟩
  have equal : trim (line other) = trim (line item) := beq_iff_eq.mp same
  rw [show trim (line other) = _ from flush other, show trim (line item) = _ from flush item]
    at equal
  have values := looks.unindents _ _ equal
  rw [reads.1 other member, reads.2, Option.some_inj] at values
  exact new (List.mem_map.mpr ⟨other, member, values⟩)

section Edit

variable {heck : Heck} {names : NameParts} {commands : List CommandAdded}
  {events : List EventAdded}

theorem addRecord_isCode {inside : List Text} {record : Text}
    (all : ∀ line ∈ inside, IsCode line) (new : IsCode record) :
    ∀ line ∈ addRecord inside record, IsCode line := by
  rw [addRecord]
  split
  · exact all
  · exact List.forall_mem_append.mpr ⟨all, List.forall_mem_singleton.mpr new⟩

variable (valid : IsNames heck names)
  (allCommands : ∀ command ∈ commands, IsCommandAdded heck command)
  (allEvents : ∀ event ∈ events, IsEventAdded heck event)

include valid allCommands allEvents

/-- The three edits of `ddd add event`. -/
theorem insert_event {event : EventAdded} (new : IsEventAdded heck event)
    (fresh : event.variant ∉ events.map EventAdded.variant) : ∃ first second,
    insertBeforeMarker (fileOf heck names commands events) (code "    // ddd:events:end")
        (renderEventVariant heck event.variant event.fields) = .ok first ∧
      insertBeforeMarker first (code "            // ddd:event-types:end")
        (eventTypeArmLine heck event.eventType event.variant ++ ['\n']) = .ok second ∧
      insertBeforeMarker second (code "            // ddd:apply-events:end")
        (applyArmLine names.eventType event.variant ++ ['\n']) =
      .ok (fileOf heck names commands (events ++ [event])) := by
  have words := valid.isCode
  have old := addedLines_isCode valid allCommands allEvents
  have everyone : ∀ one ∈ events ++ [event], IsEventAdded heck one :=
    List.forall_mem_append.mpr ⟨allEvents, List.forall_mem_singleton.mpr new⟩
  have variants : ∀ one ∈ events ++ [event],
      readVariant (eventVariantLine heck one.variant one.fields) = some one.variant := by
    intro one member
    rw [readVariant_eventVariantLine (everyone one member).variant.converted,
      (everyone one member).variant.kept]
  have types : ∀ one ∈ events ++ [event],
      (readTypeArm (eventTypeArmLine heck one.eventType one.variant)).map Prod.fst =
        some one.variant := by
    intro one member
    have isEvent := everyone one member
    rw [readTypeArm_eventTypeArmLine isEvent.variant.converted isEvent.eventType,
      isEvent.variant.kept]
    rfl
  have applies : ∀ one ∈ events ++ [event],
      readArm names.eventType (applyArmLine names.eventType one.variant) = some one.variant :=
    fun one member => readArm_applyArmLine words.eventType (everyone one member).variant.word
  have line := eventVariantLine_isCode new.variant.converted new.fields
  have arm := eventTypeArmLine_isCode new.variant.converted new.eventType
  have apply := applyArmLine_isCode words.eventType new.variant.word
  have last : event ∈ events ++ [event] := by simp
  have lines := readVariant_code.addRecord (fun _ => eventVariantLine_flush) variants fresh
  have arms := (readTypeArm_code.map Prod.fst).addRecord (fun _ => eventTypeArmLine_flush) types
    fresh
  have allApplies := (readArm_code names.eventType).addRecord (fun _ => applyArmLine_flush) applies
    fresh
  have first := insertBeforeMarker_events words old line
    (readVariant_code.nonblank eventVariantLine_flush (variants event last))
  have oneLine : Added.IsCode { addedLines heck names commands events with
      events := (events ++ [event]).map fun one => eventVariantLine heck one.variant one.fields } := by
    rw [← lines]
    exact ⟨old.commands, addRecord_isCode old.events line, old.types, old.applies, old.handles⟩
  have second := insertBeforeMarker_types words oneLine arm
    ((readTypeArm_code.map Prod.fst).nonblank eventTypeArmLine_flush (types event last))
  have oneArm : Added.IsCode { addedLines heck names commands events with
      events := (events ++ [event]).map fun one => eventVariantLine heck one.variant one.fields
      types := (events ++ [event]).map fun one =>
        eventTypeArmLine heck one.eventType one.variant } := by
    rw [← arms]
    exact ⟨oneLine.commands, oneLine.events, addRecord_isCode oneLine.types arm, oneLine.applies,
      oneLine.handles⟩
  have third := insertBeforeMarker_applies words oneArm apply
    ((readArm_code names.eventType).nonblank applyArmLine_flush (applies event last))
  dsimp only [addedLines] at first second third
  rw [lines] at first
  rw [arms] at second
  rw [allApplies] at third
  exact ⟨_, _, first, second, third⟩

/-- The two edits of `ddd add command`. -/
theorem insert_command {command : CommandAdded} (new : IsCommandAdded heck command)
    (fresh : command.variant ∉ commands.map CommandAdded.variant) : ∃ first,
    insertBeforeMarker (fileOf heck names commands events) (code "    // ddd:commands:end")
        (renderCommandVariant heck command.variant command.fields) = .ok first ∧
      insertBeforeMarker first (code "            // ddd:handle-commands:end")
        (renderCommandHandleArm heck names.commandType command.variant) =
      .ok (fileOf heck names (commands ++ [command]) events) := by
  have words := valid.isCode
  have old := addedLines_isCode valid allCommands allEvents
  have everyone : ∀ one ∈ commands ++ [command], IsCommandAdded heck one :=
    List.forall_mem_append.mpr ⟨allCommands, List.forall_mem_singleton.mpr new⟩
  have variants : ∀ one ∈ commands ++ [command],
      readVariant (eventVariantLine heck one.variant one.fields) = some one.variant := by
    intro one member
    rw [readVariant_eventVariantLine (everyone one member).variant.converted,
      (everyone one member).variant.kept]
  have handles : ∀ one ∈ commands ++ [command],
      readArm names.commandType (commandHandleArmLine heck names.commandType one.variant) =
        some one.variant := by
    intro one member
    rw [readArm_commandHandleArmLine words.commandType (everyone one member).variant.converted,
      (everyone one member).variant.kept]
  have line := eventVariantLine_isCode new.variant.converted new.fields
  have arm := commandHandleArmLine_isCode words.commandType new.variant.converted
  have last : command ∈ commands ++ [command] := by simp
  have lines := readVariant_code.addRecord (fun _ => eventVariantLine_flush) variants fresh
  have arms := (readArm_code names.commandType).addRecord (fun _ => commandHandleArmLine_flush)
    handles fresh
  have first := insertBeforeMarker_commands words old line
    (readVariant_code.nonblank eventVariantLine_flush (variants command last))
  have oneLine : Added.IsCode { addedLines heck names commands events with
      commands := (commands ++ [command]).map fun one =>
        eventVariantLine heck one.variant one.fields } := by
    rw [← lines]
    exact ⟨addRecord_isCode old.commands line, old.events, old.types, old.applies, old.handles⟩
  have second := insertBeforeMarker_handles words oneLine arm
    ((readArm_code names.commandType).nonblank commandHandleArmLine_flush
      (handles command last))
  dsimp only [addedLines] at first second
  rw [lines] at first
  rw [arms] at second
  exact ⟨_, first, second⟩

end Edit

theorem mem_updateDomain {found : DomainRecord} (apart : (domains.map DomainRecord.module).Nodup)
    (listed : found ∈ domains) (named : found.module = module)
    (member : domain ∈ updateDomain module change domains) :
    domain = change found ∨ domain ∈ domains ∧ domain.module ≠ module := by
  induction domains with
  | nil => cases member
  | cons first domains ih =>
    rw [List.map_cons, List.nodup_cons] at apart
    rw [updateDomain] at member
    split at member
    · rename_i here
      have same : found = first := by
        rcases List.mem_cons.mp listed with same | later
        · exact same
        · exact absurd (List.mem_map.mpr ⟨found, later, named.trans here.symm⟩) apart.1
      rcases List.mem_cons.mp member with changed | later
      · exact Or.inl (by rw [same, changed])
      · refine Or.inr ⟨List.mem_cons_of_mem _ later, fun again => ?_⟩
        exact apart.1 (List.mem_map.mpr ⟨domain, later, again.trans here.symm⟩)
    · rename_i elsewhere
      rcases List.mem_cons.mp member with rfl | later
      · exact Or.inr ⟨List.mem_cons_self, elsewhere⟩
      · have behind : found ∈ domains := by
          rcases List.mem_cons.mp listed with rfl | later
          · exact absurd named elsewhere
          · exact later
        rcases ih apart.2 behind later with changed | ⟨kept, other⟩
        · exact Or.inl changed
        · exact Or.inr ⟨List.mem_cons_of_mem _ kept, other⟩

theorem updateDomain_modules (kept : ∀ domain, (change domain).module = domain.module)
    (domains : List DomainRecord) :
    (updateDomain module change domains).map DomainRecord.module =
      domains.map DomainRecord.module := by
  induction domains with
  | nil => rfl
  | cons first domains ih =>
    rw [updateDomain]
    split
    · rw [List.map_cons, List.map_cons, kept]
    · rw [List.map_cons, List.map_cons, ih]

theorem mem_addDomain (member : domain ∈ addDomain domains new) :
    domain ∈ domains ∨ domain = new := by
  rw [addDomain] at member
  split at member
  · exact Or.inl member
  · have among := (List.mergeSort_perm _ _).mem_iff.mp member
    rwa [List.mem_append, List.mem_singleton] at among

theorem addDomain_apart (apart : (domains.map DomainRecord.module).Nodup) :
    ((addDomain domains new).map DomainRecord.module).Nodup := by
  rw [addDomain]
  split
  · exact apart
  · rename_i absent
    rw [((List.mergeSort_perm _ _).map _).nodup_iff, List.map_append, List.map_singleton]
    refine List.nodup_append'.mpr ⟨apart, List.nodup_singleton _, ?_⟩
    intro module inside same
    obtain ⟨existing, member, named⟩ := List.mem_map.mp inside
    rw [List.mem_singleton.mp same] at named
    exact absent (List.any_eq_true.mpr ⟨existing, member, beq_iff_eq.mpr named⟩)

theorem nodup_concat {item : Text} (once : items.Nodup) (new : item ∉ items) :
    (items ++ [item]).Nodup :=
  List.nodup_append'.mpr ⟨once, List.nodup_singleton _, List.disjoint_singleton.mpr new⟩

theorem pushUnique_perm {value : Text} (new : value ∉ items) :
    (pushUnique items value).Perm (items ++ [value]) := by
  rw [pushUnique, if_neg (by rwa [List.contains_iff_mem])]
  exact List.mergeSort_perm _ _

theorem findDomain_ok (found : findDomain domains module = .ok domain) :
    domain ∈ domains ∧ domain.module = module := by
  rw [findDomain] at found
  split at found
  · rename_i listed
    cases found
    have same : (domain.module == module) = true := by
      simpa using List.find?_some listed
    exact ⟨List.mem_of_find?_eq_some listed, beq_iff_eq.mp same⟩
  · cases found

theorem readModule_ok {project : Project} {content : Text}
    (read : readModule project module = .ok content) : project.modules module = some content := by
  rw [readModule] at read
  split at read
  · rename_i stored
    rw [stored, ← Except.ok.inj read]
  · cases read

section Calls

variable {heck : Heck} {call : Call} {aggregate name : Text} {fields : List Text}
  {project after : Project}

/-- What a successful `ddd add event` has checked and done. -/
theorem addEventTo_ok {eventType : Option Text}
    (ran : addEventTo heck call aggregate name fields eventType project = .ok after) :
    ∃ module domain parsed content first second last,
      resolveDomainModule heck project.domains aggregate = .ok module ∧
      (domain ∈ project.domains ∧ domain.module = module) ∧
      (∀ field ∈ parsed, IsField field) ∧
      IsIdentifier (heck.upperCamel name) ∧
      heck.upperCamel name ∉ domain.events ∧
      IsEventType (eventType.getD (heck.snake (heck.upperCamel name))) ∧
      project.modules module = some content ∧
      insertBeforeMarker content (code "    // ddd:events:end")
        (renderEventVariant heck (heck.upperCamel name) parsed) = .ok first ∧
      insertBeforeMarker first (code "            // ddd:event-types:end")
        (eventTypeArmLine heck (eventType.getD (heck.snake (heck.upperCamel name)))
          (heck.upperCamel name) ++ ['\n']) = .ok second ∧
      insertBeforeMarker second (code "            // ddd:apply-events:end")
        (applyArmLine domain.eventTypeName (heck.upperCamel name) ++ ['\n']) = .ok last ∧
      after = if call.dryRun then project else
        { project with
          domains := addEvent project.domains module (heck.upperCamel name)
          modules := Function.update project.modules module (some last) } := by
  rw [addEventTo] at ran
  obtain ⟨-, -, ran⟩ := ok_of_bind ran
  obtain ⟨-, -, ran⟩ := ok_of_bind ran
  obtain ⟨module, resolved, ran⟩ := ok_of_bind ran
  obtain ⟨domain, found, ran⟩ := ok_of_bind ran
  obtain ⟨parsed, read, ran⟩ := ok_of_bind ran
  obtain ⟨_, word, ran⟩ := ok_of_bind ran
  obtain ⟨_, unlisted, ran⟩ := ok_of_bind ran
  obtain ⟨_, typed, ran⟩ := ok_of_bind ran
  obtain ⟨content, stored, ran⟩ := ok_of_bind ran
  obtain ⟨first, one, ran⟩ := ok_of_bind ran
  obtain ⟨arm, rendered, ran⟩ := ok_of_bind ran
  obtain ⟨second, two, ran⟩ := ok_of_bind ran
  obtain ⟨last, three, ran⟩ := ok_of_bind ran
  rw [renderEventTypeArm, typed, Except.ok.injEq] at rendered
  rw [← rendered] at two
  exact ⟨module, domain, parsed, content, first, second, last, resolved, findDomain_ok found,
    isField_of_parsed read, isIdentifier_of_rust word, refuseIf_ok.mp unlisted,
    isEventType_of_ensured typed, readModule_ok stored, one, two, three, Call.finish_ok ran⟩

/-- How `ddd add event` goes through when its checks pass. -/
theorem addEventTo_eq {eventType : Option Text} {module type arm content first second last : Text}
    {domain : DomainRecord} {parsed : List (Text × Text)}
    (isAggregate : ensureSnakeIdentifier (heck.snake aggregate) "aggregate name" = .ok ())
    (isName : ensureSnakeIdentifier (heck.snake name) "event name" = .ok ())
    (resolved : resolveDomainModule heck project.domains aggregate = .ok module)
    (found : findDomain project.domains module = .ok domain)
    (read : parseFieldSpecs heck fields = .ok parsed)
    (word : ensureRustIdentifier (heck.upperCamel name) "event name" = .ok ())
    (unlisted : refuseIf (heck.upperCamel name ∈ domain.events)
      (alreadyListed "event" (heck.upperCamel name) domain) = .ok ())
    (type_eq : eventType.getD (heck.snake (heck.upperCamel name)) = type)
    (typed : ensureEventTypeName type "event type" = .ok ())
    (stored : readModule project module = .ok content)
    (one : insertBeforeMarker content (code "    // ddd:events:end")
      (renderEventVariant heck (heck.upperCamel name) parsed) = .ok first)
    (rendered : renderEventTypeArm heck type (heck.upperCamel name) = .ok arm)
    (two : insertBeforeMarker first (code "            // ddd:event-types:end") arm = .ok second)
    (three : insertBeforeMarker second (code "            // ddd:apply-events:end")
      (applyArmLine domain.eventTypeName (heck.upperCamel name) ++ ['\n']) = .ok last) :
    addEventTo heck call aggregate name fields eventType project = call.finish project
      { project with
        domains := addEvent project.domains module (heck.upperCamel name)
        modules := Function.update project.modules module (some last) } := by
  rw [addEventTo, bind_of_ok isAggregate, bind_of_ok isName, bind_of_ok resolved,
    bind_of_ok found, bind_of_ok read]
  dsimp only
  rw [bind_of_ok word, bind_of_ok unlisted, type_eq, bind_of_ok typed, bind_of_ok stored,
    bind_of_ok one, bind_of_ok rendered, bind_of_ok two, bind_of_ok three]

/-- What a successful `ddd add command` has checked and done. -/
theorem addCommandTo_ok (ran : addCommandTo heck call aggregate name fields project = .ok after) :
    ∃ module domain parsed content first last,
      (domain ∈ project.domains ∧ domain.module = module) ∧
      (∀ field ∈ parsed, IsField field) ∧
      IsIdentifier (heck.upperCamel name) ∧
      heck.upperCamel name ∉ domain.commands ∧
      project.modules module = some content ∧
      insertBeforeMarker content (code "    // ddd:commands:end")
        (renderCommandVariant heck (heck.upperCamel name) parsed) = .ok first ∧
      insertBeforeMarker first (code "            // ddd:handle-commands:end")
        (renderCommandHandleArm heck domain.commandTypeName (heck.upperCamel name)) = .ok last ∧
      after = if call.dryRun then project else
        { project with
          domains := addCommand project.domains module (heck.upperCamel name)
          modules := Function.update project.modules module (some last) } := by
  rw [addCommandTo] at ran
  obtain ⟨-, -, ran⟩ := ok_of_bind ran
  obtain ⟨-, -, ran⟩ := ok_of_bind ran
  obtain ⟨module, resolved, ran⟩ := ok_of_bind ran
  obtain ⟨domain, found, ran⟩ := ok_of_bind ran
  obtain ⟨parsed, read, ran⟩ := ok_of_bind ran
  obtain ⟨_, word, ran⟩ := ok_of_bind ran
  obtain ⟨_, unlisted, ran⟩ := ok_of_bind ran
  obtain ⟨content, stored, ran⟩ := ok_of_bind ran
  obtain ⟨first, one, ran⟩ := ok_of_bind ran
  obtain ⟨last, two, ran⟩ := ok_of_bind ran
  exact ⟨module, domain, parsed, content, first, last, findDomain_ok found,
    isField_of_parsed read, isIdentifier_of_rust word, refuseIf_ok.mp unlisted,
    readModule_ok stored, one, two, Call.finish_ok ran⟩

end Calls

/-- A project as it is before anything is added: without a domain, or with one whose file is the
template. -/
def IsInitial (heck : Heck) (project : Project) : Prop :=
  project.domains = [] ∨ ∃ names, IsNames heck names ∧ project.domains = [names.domainRecord] ∧
    project.modules names.module = some (renderAggregate names)

/-- A project under successful calls. -/
def additions (heck : Heck) : Transition.Machine Project (Call × AddCommand) where
  start := IsInitial heck
  step project action := (addToProject heck action.1 action.2 project).toOption

/-- A call after which the manifest still agrees with the files: an aggregate is new or has only
what its template has, a variant is left as it is by the conversion of variants, and the type of
an event is not one that the aggregate has. -/
def KeepsAgreement (heck : Heck) (project : Project) (action : Call × AddCommand) : Prop :=
  action.1.dryRun = false →
    match action.2 with
    | .aggregate name =>
      ∀ domain ∈ project.domains, domain.module = (NameParts.new heck name).module →
        domain = (NameParts.new heck name).domainRecord
    | .event aggregate name _ eventType =>
      heck.upperCamel (heck.upperCamel name) = heck.upperCamel name ∧
        ∀ module content, resolveDomainModule heck project.domains aggregate = .ok module →
          project.modules module = some content →
            eventType.getD (heck.snake (heck.upperCamel name)) ∉
              (eventTypeArms content).map Prod.snd
    | .command _ name _ => heck.upperCamel (heck.upperCamel name) = heck.upperCamel name

/-- Each record has a file with just its additions. -/
structure Kept (heck : Heck) (project : Project) : Prop where
  apart : (project.domains.map DomainRecord.module).Nodup
  tracked : ∀ domain ∈ project.domains, ∃ names commands events,
    Tracks heck names commands events domain ∧
      project.modules domain.module = some (fileOf heck names commands events)

section Runs

variable {heck : Heck} {project after : Project}

theorem Kept.agrees (kept : Kept heck project) : Agrees project := by
  intro domain member
  obtain ⟨names, commands, events, tracks, stored⟩ := kept.tracked domain member
  exact ⟨_, stored, tracks.agrees⟩

variable {names : NameParts} {commands : List CommandAdded} {events : List EventAdded} {call : Call}
  {name : Text} {fields : List Text}

theorem tracks_fresh (valid : IsNames heck names) : Tracks heck names [] [] names.domainRecord :=
  ⟨valid, rfl, rfl, List.Perm.refl _, List.Perm.refl _, List.nodup_singleton _,
    List.nodup_singleton _, List.nodup_singleton _, by simp, by simp⟩

theorem kept_of_initial (initial : IsInitial heck project) : Kept heck project := by
  rcases initial with none | ⟨names, valid, one, stored⟩
  · exact ⟨by simp [none], by simp [none]⟩
  · refine ⟨by simp [one], ?_⟩
    rw [one, List.forall_mem_singleton]
    exact ⟨names, [], [], tracks_fresh valid, stored⟩

theorem Tracks.addEvent (tracks : Tracks heck names commands events domain) {event : EventAdded}
    (new : IsEventAdded heck event) (unlisted : event.variant ∉ domain.events)
    (fresh : event.eventType ∉ names.createdEventName :: events.map EventAdded.eventType) :
    Tracks heck names commands (events ++ [event])
      { domain with events := pushUnique domain.events event.variant } := by
  have pushed := pushUnique_perm unlisted
  refine ⟨tracks.isNames, tracks.module, tracks.aggregate, tracks.hasCommands, ?_,
    tracks.commandsOnce, ?_, ?_, tracks.allCommands, ?_⟩
  · rw [List.map_append, List.map_singleton, ← List.cons_append]
    exact pushed.trans (tracks.hasEvents.append_right _)
  · exact pushed.nodup_iff.mpr (nodup_concat tracks.eventsOnce unlisted)
  · rw [List.map_append, List.map_singleton, ← List.cons_append]
    exact nodup_concat tracks.typesApart fresh
  · exact List.forall_mem_append.mpr ⟨tracks.allEvents, List.forall_mem_singleton.mpr new⟩

theorem Tracks.addCommand (tracks : Tracks heck names commands events domain)
    {command : CommandAdded} (new : IsCommandAdded heck command)
    (unlisted : command.variant ∉ domain.commands) :
    Tracks heck names (commands ++ [command]) events
      { domain with commands := pushUnique domain.commands command.variant } := by
  have pushed := pushUnique_perm unlisted
  refine ⟨tracks.isNames, tracks.module, tracks.aggregate, ?_, tracks.hasEvents, ?_,
    tracks.eventsOnce, tracks.typesApart, ?_, tracks.allEvents⟩
  · rw [List.map_append, List.map_singleton, ← List.cons_append]
    exact pushed.trans (tracks.hasCommands.append_right _)
  · exact pushed.nodup_iff.mpr (nodup_concat tracks.commandsOnce unlisted)
  · exact List.forall_mem_append.mpr ⟨tracks.allCommands, List.forall_mem_singleton.mpr new⟩

/-- One record and its file change together. -/
theorem Kept.replace {module : Text} {change : DomainRecord → DomainRecord}
    (kept : Kept heck project) (listed : domain ∈ project.domains) (named : domain.module = module)
    (still : ∀ domain, (change domain).module = domain.module)
    (grown : Tracks heck names commands events (change domain)) :
    Kept heck { project with
      domains := updateDomain module change project.domains
      modules := Function.update project.modules module
        (some (fileOf heck names commands events)) } := by
  constructor
  · show ((updateDomain module change project.domains).map DomainRecord.module).Nodup
    rw [updateDomain_modules still]
    exact kept.apart
  · intro other member
    rcases mem_updateDomain kept.apart listed named member with rfl | ⟨old, elsewhere⟩
    · refine ⟨names, commands, events, grown, ?_⟩
      rw [still, named]
      exact Function.update_self _ _ _
    · obtain ⟨names, commands, events, tracks, stored⟩ := kept.tracked other old
      exact ⟨names, commands, events, tracks, (Function.update_of_ne elsewhere _ _).trans stored⟩

theorem Kept.addAggregate (kept : Kept heck project)
    (agreeable : KeepsAgreement heck project (call, .aggregate name))
    (ran : addAggregate heck call name project = .ok after) : Kept heck after := by
  obtain ⟨aggregate, module, content, -, rfl⟩ := addAggregate_ok heck ran
  have valid : IsNames heck (NameParts.new heck name) := ⟨⟨name, rfl⟩, aggregate, module⟩
  split
  · exact kept
  · rename_i real
    have same := agreeable (Bool.eq_false_iff.mpr real)
    refine ⟨addDomain_apart kept.apart, fun domain member => ?_⟩
    by_cases own : domain.module = (NameParts.new heck name).module
    · have record : domain = (NameParts.new heck name).domainRecord := by
        rcases mem_addDomain member with old | new
        · exact same domain old own
        · exact new
      refine ⟨NameParts.new heck name, [], [], ?_, ?_⟩
      · rw [record]
        exact tracks_fresh valid
      · rw [own, ← renderAggregate_fileOf heck]
        exact Function.update_self _ _ _
    · have old : domain ∈ project.domains := by
        rcases mem_addDomain member with old | rfl
        · exact old
        · exact absurd rfl own
      obtain ⟨names, commands, events, tracks, stored⟩ := kept.tracked domain old
      exact ⟨names, commands, events, tracks, (Function.update_of_ne own _ _).trans stored⟩

theorem Kept.addEventTo {aggregate : Text} {eventType : Option Text} (kept : Kept heck project)
    (agreeable : KeepsAgreement heck project (call, .event aggregate name fields eventType))
    (ran : addEventTo heck call aggregate name fields eventType project = .ok after) :
    Kept heck after := by
  obtain ⟨module, domain, parsed, content, first, second, last, resolved, ⟨listed, named⟩, valid,
    word, unlisted, typed, stored, one, two, three, rfl⟩ := addEventTo_ok ran
  split
  · exact kept
  · rename_i real
    obtain ⟨stable, distinct⟩ := agreeable (Bool.eq_false_iff.mpr real)
    obtain ⟨names, commands, events, tracks, file⟩ := kept.tracked domain listed
    rw [named, stored, Option.some_inj] at file
    subst file
    have fresh := distinct module _ resolved stored
    rw [tracks.eventTypes, List.map_cons, List.map_map] at fresh
    have new : IsEventAdded heck ⟨heck.upperCamel name, parsed,
      eventType.getD (heck.snake (heck.upperCamel name))⟩ := ⟨⟨word, stable⟩, valid, typed⟩
    have unused : heck.upperCamel name ∉ names.createdEvent :: events.map EventAdded.variant :=
      fun inside => unlisted (tracks.hasEvents.mem_iff.mpr inside)
    have grown := tracks.addEvent new unlisted fresh
    obtain ⟨one', two', begun, between, ended⟩ := insert_event tracks.isNames tracks.allCommands
      tracks.allEvents new (fun inside => unused (List.mem_cons_of_mem _ inside))
    rw [begun, Except.ok.injEq] at one
    subst one
    rw [between, Except.ok.injEq] at two
    subst two
    rw [tracks.eventType, ended, Except.ok.injEq] at three
    subst three
    exact kept.replace listed named (fun _ => rfl) grown

theorem Kept.addCommandTo {aggregate : Text} (kept : Kept heck project)
    (agreeable : KeepsAgreement heck project (call, .command aggregate name fields))
    (ran : addCommandTo heck call aggregate name fields project = .ok after) : Kept heck after := by
  obtain ⟨module, domain, parsed, content, first, last, ⟨listed, named⟩, valid, word, unlisted,
    stored, one, two, rfl⟩ := addCommandTo_ok ran
  split
  · exact kept
  · rename_i real
    have stable := agreeable (Bool.eq_false_iff.mpr real)
    obtain ⟨names, commands, events, tracks, file⟩ := kept.tracked domain listed
    rw [named, stored, Option.some_inj] at file
    subst file
    have new : IsCommandAdded heck ⟨heck.upperCamel name, parsed⟩ := ⟨⟨word, stable⟩, valid⟩
    have unused : heck.upperCamel name ∉ names.createCommand :: commands.map CommandAdded.variant :=
      fun inside => unlisted (tracks.hasCommands.mem_iff.mpr inside)
    have grown := tracks.addCommand new unlisted
    obtain ⟨between, begun, ended⟩ := insert_command tracks.isNames tracks.allCommands
      tracks.allEvents new (fun inside => unused (List.mem_cons_of_mem _ inside))
    rw [begun, Except.ok.injEq] at one
    subst one
    rw [tracks.commandType, ended, Except.ok.injEq] at two
    subst two
    exact kept.replace listed named (fun _ => rfl) grown

theorem Kept.step {action : Call × AddCommand} (kept : Kept heck project)
    (agreeable : KeepsAgreement heck project action)
    (stepped : (additions heck).step project action = some after) : Kept heck after := by
  obtain ⟨call, command⟩ := action
  have ran : addToProject heck call command project = .ok after := by
    rw [additions] at stepped
    cases result : addToProject heck call command project with
    | error error => simp [result, Except.toOption] at stepped
    | ok value =>
      simp only [result, Except.toOption, Option.some_inj] at stepped
      rw [stepped]
  cases command with
  | aggregate name => exact kept.addAggregate agreeable ran
  | event aggregate name fields eventType => exact kept.addEventTo agreeable ran
  | command aggregate name fields => exact kept.addCommandTo agreeable ran

end Runs

/-- In every run whose calls keep the agreement, the manifest agrees with the files in every state
reached. -/
theorem agrees_of_reachable (heck : Heck) (project : Project)
    (reached : ((additions heck).restrict (KeepsAgreement heck)).Reachable project) :
    Agrees project := by
  apply @Kept.agrees heck
  refine Transition.Machine.invariant (fun _ => kept_of_initial) ?_ reached
  intro before action after _ kept stepped
  obtain ⟨agreeable, ran⟩ :=
    (Transition.Machine.restrict_step_iff (additions heck) before after action).mp stepped
  exact kept.step agreeable ran

/-- The names of one aggregate. -/
def order : NameParts := NameParts.new oneWord (code "Order")

/-- The project that has this aggregate, without additions. -/
def withOrder : Project where
  domains := [order.domainRecord]
  domainMod := some (renderDomainMod order)
  modules := Function.update emptyProject.modules order.module (some (renderAggregate order))
  tests := Function.update emptyProject.tests order.module true

def shipped : EventAdded := ⟨code "Shipped", [], code "shipped"⟩

/-- The same project behind `ddd add event Order Shipped`. -/
def withShipped : Project :=
  { withOrder with
    domains := addEvent withOrder.domains order.module (code "Shipped")
    modules := Function.update withOrder.modules order.module
      (some (fileOf oneWord order [] [shipped])) }

/-- A call without flags that goes through. -/
def plainCall : Call := ⟨false, false, .ok ()⟩

theorem order_added :
    addAggregate oneWord plainCall (code "Order") emptyProject = .ok withOrder := by
  have one : addDomain [] order.domainRecord = [order.domainRecord] := by simp [addDomain]
  have added : addAggregate oneWord plainCall (code "Order") emptyProject =
      .ok { domains := addDomain emptyProject.domains order.domainRecord
            domainMod := some (renderDomainMod order)
            modules := Function.update emptyProject.modules order.module
              (some (renderAggregate order))
            tests := Function.update emptyProject.tests order.module true } := rfl
  rw [added, show emptyProject.domains = [] from rfl, one]
  rfl

theorem order_isNames : IsNames oneWord order := by
  refine ⟨⟨_, rfl⟩, ?_, ?_⟩
  · constructor <;> decide
  · constructor <;> decide

theorem shipped_isEventAdded : IsEventAdded oneWord shipped := by
  have checked : ∀ c ∈ code "shipped",
      (c.isLower || c.isDigit || c == '_' || c == '.') = true := by decide
  refine ⟨⟨?_, rfl⟩, by simp [shipped], checked⟩
  constructor <;> decide

theorem shipped_added :
    addEventTo oneWord plainCall (code "Order") (code "Shipped") [] none withOrder =
      .ok withShipped := by
  obtain ⟨first, second, one, two, three⟩ := @insert_event oneWord order [] [] order_isNames
    (by simp) (by simp) shipped shipped_isEventAdded (by simp)
  have aggregate : ensureSnakeIdentifier (oneWord.snake (code "Order")) "aggregate name" = .ok () :=
    rfl
  have name : ensureSnakeIdentifier (oneWord.snake (code "Shipped")) "event name" = .ok () := rfl
  have resolved : resolveDomainModule oneWord withOrder.domains (code "Order") =
      .ok order.module := rfl
  have found : findDomain withOrder.domains order.module = .ok order.domainRecord := rfl
  have word : ensureRustIdentifier (oneWord.upperCamel (code "Shipped")) "event name" = .ok () :=
    rfl
  have unlisted : refuseIf (oneWord.upperCamel (code "Shipped") ∈ order.domainRecord.events)
      (alreadyListed "event" (oneWord.upperCamel (code "Shipped")) order.domainRecord) = .ok () :=
    rfl
  have typed : (none : Option Text).getD (oneWord.snake (oneWord.upperCamel (code "Shipped"))) =
      code "shipped" := by decide
  have isType : ensureEventTypeName (code "shipped") "event type" = .ok () := rfl
  have stored : readModule withOrder order.module = .ok (fileOf oneWord order [] []) := rfl
  have arm : renderEventTypeArm oneWord (code "shipped") (code "Shipped") =
      .ok (eventTypeArmLine oneWord (code "shipped") (code "Shipped") ++ ['\n']) := rfl
  have ran := @addEventTo_eq oneWord plainCall (code "Order") (code "Shipped") [] withOrder none
    order.module (code "shipped") _ _ _ _ _ order.domainRecord [] aggregate name resolved found rfl
    word unlisted typed isType stored one arm two three
  rw [show oneWord.upperCamel (code "Shipped") = code "Shipped" from rfl] at ran
  exact ran

theorem order_forced : ∃ content,
    addAggregate oneWord ⟨true, false, .ok ()⟩ (code "Order") withShipped = .ok
      { domains := addDomain withShipped.domains order.domainRecord
        domainMod := some content
        modules := Function.update withShipped.modules order.module (some (renderAggregate order))
        tests := Function.update withShipped.tests order.module true } :=
  ⟨_, rfl⟩

theorem additions_step {heck : Heck} {project after : Project} {action : Call × AddCommand}
    (ran : addToProject heck action.1 action.2 project = .ok after) :
    (additions heck).step project action = some after := by
  show (addToProject heck action.1 action.2 project).toOption = some after
  rw [ran]
  rfl

theorem order_step : (additions oneWord).step emptyProject (plainCall, .aggregate (code "Order")) =
    some withOrder :=
  additions_step order_added

theorem shipped_step : (additions oneWord).step withOrder
    (plainCall, .event (code "Order") (code "Shipped") [] none) = some withShipped :=
  additions_step shipped_added

theorem forced_step : ∃ project, (additions oneWord).step withShipped
      (⟨true, false, .ok ()⟩, .aggregate (code "Order")) = some project ∧
    project.domains = addDomain withShipped.domains order.domainRecord ∧
    project.modules order.module = some (renderAggregate order) := by
  obtain ⟨content, forced⟩ := order_forced
  exact ⟨_, additions_step forced, rfl,
    @Function.update_self Text (fun _ => Option Text) _ order.module _ withShipped.modules⟩

theorem withOrder_types : (eventTypeArms (fileOf oneWord order [] [])).map Prod.snd =
    [order.createdEventName] := by
  rw [(tracks_fresh order_isNames).eventTypes]
  rfl

/-- After `ddd add aggregate Order` and `ddd add event Order Shipped`. -/
theorem agrees_of_reachable_event :
    (additions oneWord).run emptyProject [(plainCall, .aggregate (code "Order")),
      (plainCall, .event (code "Order") (code "Shipped") [] none)] = some withShipped ∧
    Agrees withShipped := by
  have fresh : KeepsAgreement oneWord emptyProject (plainCall, .aggregate (code "Order")) := by
    intro _ domain member
    cases member
  have unused : KeepsAgreement oneWord withOrder
      (plainCall, .event (code "Order") (code "Shipped") [] none) := by
    intro _
    refine ⟨rfl, fun module content resolved stored => ?_⟩
    have own : resolveDomainModule oneWord withOrder.domains (code "Order") =
        .ok order.module := rfl
    have file : withOrder.modules order.module = some (fileOf oneWord order [] []) := by
      rw [← renderAggregate_fileOf]
      exact @Function.update_self Text (fun _ => Option Text) _ order.module _ emptyProject.modules
    rw [own, Except.ok.injEq] at resolved
    rw [← resolved, file, Option.some_inj] at stored
    rw [← stored, withOrder_types]
    decide
  refine ⟨?_, agrees_of_reachable oneWord withShipped ?_⟩
  · rw [Transition.Machine.run_cons, order_step, Option.bind_some,
      Transition.Machine.run_cons, shipped_step]
    rfl
  · have start : ((additions oneWord).restrict (KeepsAgreement oneWord)).Reachable emptyProject :=
      .start (Or.inl rfl)
    have one := start.step ((Transition.Machine.restrict_step_iff _ _ _ _).mpr ⟨fresh, order_step⟩)
    exact one.step ((Transition.Machine.restrict_step_iff _ _ _ _).mpr ⟨unused, shipped_step⟩)

/-- `ddd add aggregate Order --force` resets the file, and the record keeps the event. -/
theorem additions_forced : ∃ project,
    (additions oneWord).run emptyProject [(plainCall, .aggregate (code "Order")),
      (plainCall, .event (code "Order") (code "Shipped") [] none),
      (⟨true, false, .ok ()⟩, .aggregate (code "Order"))] = some project ∧
    ¬ Agrees project := by
  obtain ⟨project, forced, domains, file⟩ := forced_step
  refine ⟨project, ?_, fun agrees => ?_⟩
  · rw [Transition.Machine.run_cons, order_step, Option.bind_some, Transition.Machine.run_cons,
      shipped_step, Option.bind_some, Transition.Machine.run_cons, forced]
    rfl
  · have record : withShipped.domains = [⟨order.module, order.aggregate, [order.createCommand],
        pushUnique [order.createdEvent] (code "Shipped")⟩] := rfl
    have listed : addDomain withShipped.domains order.domainRecord = withShipped.domains := rfl
    rw [listed, record] at domains
    obtain ⟨found, stored, agreed⟩ := agrees _ (by rw [domains]; exact List.mem_singleton_self _)
    rw [file, Option.some_inj] at stored
    subst stored
    have fresh := (tracks_fresh order_isNames).agrees.events
    have pushed := pushUnique_perm (by decide : code "Shipped" ∉ [order.createdEvent])
    have same := fresh.symm.trans (agreed.events.trans pushed)
    exact absurd same.length_eq (by decide)

end DddCqrsEs.DddCli
