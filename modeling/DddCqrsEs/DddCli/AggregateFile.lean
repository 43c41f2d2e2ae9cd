import DddCqrsEs.DddCli.FieldSpecs
import DddCqrsEs.DddCli.Regions

/- The source file of an aggregate: its template, with the lines that were added to it between
its markers. -/
namespace DddCqrsEs.DddCli

open LineLog

section Template

variable (names : NameParts)

def commandsHead : List Text :=
  [code "use ddd_cqrs_es::{Aggregate, DomainEvent};",
    code "use serde::{Deserialize, Serialize};",
    code "use std::fmt;",
    [],
    code "#[derive(Clone, Debug, Default, PartialEq, Eq, PartialOrd, Ord, Hash, Serialize, " ++
      code "Deserialize)]",
    code "#[serde(transparent)]",
    code "pub struct " ++ names.idType ++ code "(pub String);",
    [],
    code "impl fmt::Display for " ++ names.idType ++ code " \x7b",
    code "    fn fmt(&self, f: &mut fmt::Formatter<'_>) -> fmt::Result \x7b",
    code "        f.write_str(&self.0)",
    code "    \x7d",
    code "\x7d",
    [],
    code "impl From<String> for " ++ names.idType ++ code " \x7b",
    code "    fn from(value: String) -> Self \x7b",
    code "        Self(value)",
    code "    \x7d",
    code "\x7d",
    [],
    code "impl From<&str> for " ++ names.idType ++ code " \x7b",
    code "    fn from(value: &str) -> Self \x7b",
    code "        Self(value.to_string())",
    code "    \x7d",
    code "\x7d",
    [],
    code "#[derive(Clone, Debug, PartialEq, Eq, Serialize, Deserialize)]",
    code "pub enum " ++ names.commandType ++ code " \x7b",
    code "    " ++ names.createCommand ++ code " { name: String },"]

def eventsHead : List Text :=
  [code "\x7d",
    [],
    code "#[derive(Clone, Debug, PartialEq, Eq, Serialize, Deserialize)]",
    code "pub enum " ++ names.eventType ++ code " \x7b",
    code "    " ++ names.createdEvent ++ code " { name: String },"]

def typesHead : List Text :=
  [code "\x7d",
    [],
    code "impl DomainEvent for " ++ names.eventType ++ code " \x7b",
    code "    fn event_type(&self) -> &'static str \x7b",
    code "        match self \x7b",
    code "            Self::" ++ names.createdEvent ++ code " { .. } => \"" ++
      names.createdEventName ++ code "\","]

def appliesHead : List Text :=
  [code "        \x7d",
    code "    \x7d",
    code "\x7d",
    [],
    code "#[derive(Clone, Debug, PartialEq, Eq)]",
    code "pub struct " ++ names.aggregate ++ code " \x7b",
    code "    pub id: " ++ names.idType ++ code ",",
    code "    pub name: Option<String>,",
    code "\x7d",
    [],
    code "impl Aggregate for " ++ names.aggregate ++ code " \x7b",
    code "    type Id = " ++ names.idType ++ code ";",
    code "    type Command = " ++ names.commandType ++ code ";",
    code "    type Event = " ++ names.eventType ++ code ";",
    code "    type Error = String;",
    [],
    code "    fn aggregate_type() -> &'static str \x7b",
    code "        \"" ++ names.module ++ code "\"",
    code "    \x7d",
    [],
    code "    fn new() -> Self \x7b",
    code "        Self \x7b",
    code "            id: " ++ names.idType ++ code "(String::new()),",
    code "            name: None,",
    code "        \x7d",
    code "    \x7d",
    [],
    code "    fn apply(&mut self, event: &Self::Event) \x7b",
    code "        match event \x7b",
    code "            " ++ names.eventType ++ code "::" ++ names.createdEvent ++
      code " { name } => self.name = Some(name.clone()),"]

def handlesHead : List Text :=
  [code "        \x7d",
    code "    \x7d",
    [],
    code "    fn handle(&self, command: Self::Command) -> Result<Vec<Self::Event>, Self::Error> \x7b",
    code "        match command \x7b",
    code "            " ++ names.commandType ++ code "::" ++ names.createCommand ++
      code " \x7b name \x7d => \x7b",
    code "                if name.trim().is_empty() \x7b",
    code "                    return Err(\"name must not be empty\".to_string());",
    code "                \x7d",
    code "                Ok(vec![" ++ names.eventType ++ code "::" ++ names.createdEvent ++
      code " { name }])",
    code "            \x7d"]

def fileTail : List Text := [code "        \x7d", code "    \x7d", code "\x7d"]

/-- The lines that were added. -/
structure Added where
  commands : List Text
  events : List Text
  types : List Text
  applies : List Text
  handles : List Text

def fileLines (added : Added) : List Text :=
  commandsHead names ++ code "    // ddd:commands" :: (added.commands ++
    code "    // ddd:commands:end" :: (eventsHead names ++
    code "    // ddd:events" :: (added.events ++
    code "    // ddd:events:end" :: (typesHead names ++
    code "            // ddd:event-types" :: (added.types ++
    code "            // ddd:event-types:end" :: (appliesHead names ++
    code "            // ddd:apply-events" :: (added.applies ++
    code "            // ddd:apply-events:end" :: (handlesHead names ++
    code "            // ddd:handle-commands" :: (added.handles ++
    code "            // ddd:handle-commands:end" :: fileTail)))))))))

/-- `render_aggregate`: the template before anything was added. -/
def renderAggregate : Text := unlines (fileLines names ⟨[], [], [], [], []⟩)

end Template

structure FileSection where
  head : List Text
  opening : Text
  inside : List Text
  closing : Text

def FileSection.lines (part : FileSection) : List Text :=
  part.head ++ part.opening :: (part.inside ++ [part.closing])

def sectionLines (parts : List FileSection) (tail : List Text) : List Text :=
  parts.flatMap FileSection.lines ++ tail

/-- The sections of an aggregate's file. -/
def fileSections (names : NameParts) (added : Added) : List FileSection :=
  [⟨commandsHead names, code "    // ddd:commands", added.commands,
      code "    // ddd:commands:end"⟩,
    ⟨eventsHead names, code "    // ddd:events", added.events, code "    // ddd:events:end"⟩,
    ⟨typesHead names, code "            // ddd:event-types", added.types,
      code "            // ddd:event-types:end"⟩,
    ⟨appliesHead names, code "            // ddd:apply-events", added.applies,
      code "            // ddd:apply-events:end"⟩,
    ⟨handlesHead names, code "            // ddd:handle-commands", added.handles,
      code "            // ddd:handle-commands:end"⟩]

theorem fileLines_sections (names : NameParts) (added : Added) :
    fileLines names added = sectionLines (fileSections names added) fileTail := by
  simp only [fileLines, sectionLines, fileSections, FileSection.lines, List.flatMap_cons,
    List.flatMap_nil, List.append_assoc, List.cons_append, List.nil_append]

/-- A character of generated code: not one that ends a line or starts a comment. -/
def isCodeChar (c : Char) : Bool := c != '\n' && c != '\r' && c != '/'

/-- A line of generated code. -/
def IsCode (line : Text) : Prop := line.all isCodeChar = true

theorem IsCode.record {line : Text} (isCode : IsCode line) : IsRecord line := by
  have free {c : Char} (other : isCodeChar c = false) : c ∉ line := by
    intro member
    rw [List.all_eq_true.mp isCode c member] at other
    cases other
  exact ⟨free (by decide), free (by decide)⟩

theorem IsCode.append {first second : Text} (one : IsCode first) (two : IsCode second) :
    IsCode (first ++ second) := by
  rw [IsCode, List.all_append, one, two]
  rfl

/-- Code carries no marker that is a comment. -/
theorem IsCode.not_carries {marker line : Text} (isCode : IsCode line)
    (comment : (trim marker).head? = some '/') : ¬ Carries marker line := by
  intro carries
  rw [← show trim line = trim marker from carries] at comment
  have member : '/' ∈ line := Cuts.mem_of_mem_trim (List.mem_of_head? comment)
  exact absurd (List.all_eq_true.mp isCode '/' member) (by decide)

/-- Characters are code when a test lets them through that refuses the others. -/
theorem isCode_of_all {value : Text} {allowed : Char → Bool} (all : ∀ c ∈ value, allowed c = true)
    (newline : allowed '\n' = false) (carriage : allowed '\r' = false)
    (slash : allowed '/' = false) : IsCode value := by
  rw [IsCode, List.all_eq_true]
  intro c member
  have passed := all c member
  rw [isCodeChar, Bool.and_eq_true, Bool.and_eq_true, bne_iff_ne, bne_iff_ne, bne_iff_ne]
  refine ⟨⟨?_, ?_⟩, ?_⟩
  · rintro rfl
    rw [newline] at passed
    cases passed
  · rintro rfl
    rw [carriage] at passed
    cases passed
  · rintro rfl
    rw [slash] at passed
    cases passed

theorem IsIdentifier.isCode {value : Text} (word : IsIdentifier value) : IsCode value :=
  isCode_of_all word.2 rfl rfl rfl

/-- A section of lines: code, and a region of code between its markers. -/
structure FileSection.IsCode (part : FileSection) : Prop where
  head : ∀ line ∈ part.head, DddCli.IsCode line
  opening : IsRecord part.opening
  inside : ∀ line ∈ part.inside, DddCli.IsCode line
  closing : IsRecord part.closing

/-- A section's marker lines do not carry a marker. -/
def FileSection.Silent (marker : Text) (part : FileSection) : Prop :=
  ¬ Carries marker part.opening ∧ ¬ Carries marker part.closing

theorem FileSection.not_carries {marker : Text} {part : FileSection} (isCode : part.IsCode)
    (comment : (trim marker).head? = some '/') (silent : part.Silent marker) :
    ∀ line ∈ part.lines, ¬ Carries marker line := by
  simp only [FileSection.lines, List.forall_mem_append, List.forall_mem_cons, List.not_mem_nil,
    false_implies, implies_true, and_true]
  exact ⟨fun line member => (isCode.head line member).not_carries comment, silent.1,
    fun line member => (isCode.inside line member).not_carries comment, silent.2⟩

variable {marker record : Text} {front back : List FileSection} {part : FileSection}
  {tail : List Text}

/-- The region of one section in the whole file. -/
theorem region_of_section (comment : (trim marker).head? = some '/')
    (named : startMarker marker = some (trim part.opening))
    (opens : (trim part.opening).head? = some '/') (closes : Carries marker part.closing)
    (apart : ¬ Carries marker part.opening)
    (isCode : ∀ other ∈ front ++ part :: back, other.IsCode)
    (ends : ∀ line ∈ tail, IsCode line)
    (silent : ∀ other ∈ front ++ back, other.Silent marker) :
    Region marker (front.flatMap FileSection.lines ++ part.head) part.opening part.inside
      part.closing (sectionLines back tail) := by
  simp only [List.forall_mem_append, List.forall_mem_cons] at isCode silent
  obtain ⟨before, own, behind⟩ := isCode
  refine ⟨named, closes, ?_, ?_, apart, ?_⟩
  · intro line member
    have plain := own.inside line member
    refine ⟨plain.not_carries comment, plain.not_carries opens⟩
  · simp only [List.forall_mem_append, List.mem_flatMap, forall_exists_index, and_imp]
    exact ⟨fun line other member inside =>
      FileSection.not_carries (before other member) comment (silent.1 other member) line inside,
      fun line member => (own.head line member).not_carries comment⟩
  · simp only [sectionLines, List.forall_mem_append, List.mem_flatMap, forall_exists_index,
      and_imp]
    exact ⟨fun line other member inside =>
      FileSection.not_carries (behind other member) comment (silent.2 other member) line inside,
      fun line member => (ends line member).not_carries comment⟩

theorem sectionLines_cut (front : List FileSection) (part : FileSection)
    (back : List FileSection) (tail : List Text) :
    sectionLines (front ++ part :: back) tail =
      (front.flatMap FileSection.lines ++ part.head) ++
        part.opening :: (part.inside ++ part.closing :: sectionLines back tail) := by
  simp only [sectionLines, FileSection.lines, List.flatMap_append, List.flatMap_cons,
    List.append_assoc, List.cons_append, List.nil_append]

theorem sectionLines_records {parts : List FileSection} (isCode : ∀ part ∈ parts, part.IsCode)
    (ends : ∀ line ∈ tail, IsCode line) : ∀ line ∈ sectionLines parts tail, IsRecord line := by
  simp only [sectionLines, List.forall_mem_append, List.mem_flatMap, forall_exists_index,
    and_imp]
  refine ⟨fun line part member inside => ?_, fun line member => (ends line member).record⟩
  have code := isCode part member
  revert line
  simp only [FileSection.lines, List.forall_mem_append, List.forall_mem_cons, List.not_mem_nil,
    false_implies, implies_true, and_true]
  exact ⟨fun line inside => (code.head line inside).record, code.opening,
    fun line inside => (code.inside line inside).record, code.closing⟩

/-- An edit adds its line to one section. -/
theorem insertBeforeMarker_section (comment : (trim marker).head? = some '/')
    (named : startMarker marker = some (trim part.opening))
    (opens : (trim part.opening).head? = some '/') (closes : Carries marker part.closing)
    (apart : ¬ Carries marker part.opening)
    (isCode : ∀ other ∈ front ++ part :: back, other.IsCode)
    (ends : ∀ line ∈ tail, IsCode line)
    (silent : ∀ other ∈ front ++ back, other.Silent marker) (new : IsCode record)
    (nonblank : trim record ≠ []) :
    insertBeforeMarker (unlines (sectionLines (front ++ part :: back) tail)) marker
        (record ++ ['\n']) =
      .ok (unlines (sectionLines
        (front ++ { part with inside := addRecord part.inside record } :: back) tail)) := by
  have region := region_of_section comment named opens closes apart isCode ends silent
  have plain := sectionLines_records isCode ends
  rw [sectionLines_cut] at plain ⊢
  rw [sectionLines_cut]
  exact insertBeforeMarker_region region (fun line member => (plain line member).newline)
    new.record.newline nonblank (fun same => new.not_carries opens same.symm)

/-- The lines that were added are code. -/
structure Added.IsCode (added : Added) : Prop where
  commands : ∀ line ∈ added.commands, DddCli.IsCode line
  events : ∀ line ∈ added.events, DddCli.IsCode line
  types : ∀ line ∈ added.types, DddCli.IsCode line
  applies : ∀ line ∈ added.applies, DddCli.IsCode line
  handles : ∀ line ∈ added.handles, DddCli.IsCode line

/-- The names in a file are words. -/
structure NameParts.IsCode (names : NameParts) : Prop where
  aggregate : IsIdentifier names.aggregate
  module : IsIdentifier names.module
  idType : IsIdentifier names.idType
  commandType : IsIdentifier names.commandType
  eventType : IsIdentifier names.eventType
  createCommand : IsIdentifier names.createCommand
  createdEvent : IsIdentifier names.createdEvent
  createdEventName : IsIdentifier names.createdEventName

section Sections

variable {names : NameParts} {added : Added}

/-- A literal is looked at by its characters. -/
theorem isCode_literal {letters : List Char} (isCode : letters.all isCodeChar = true) :
    IsCode (code (String.ofList letters)) := by
  rw [code_literal]
  exact isCode

theorem head_isCode (words : names.IsCode) :
    ∀ head ∈ [commandsHead names, eventsHead names, typesHead names, appliesHead names,
      handlesHead names, fileTail], ∀ line ∈ head, IsCode line := by
  have aggregate := words.aggregate.isCode
  have module := words.module.isCode
  have idType := words.idType.isCode
  have commandType := words.commandType.isCode
  have eventType := words.eventType.isCode
  have createCommand := words.createCommand.isCode
  have createdEvent := words.createdEvent.isCode
  have createdEventName := words.createdEventName.isCode
  simp only [commandsHead, eventsHead, typesHead, appliesHead, handlesHead, fileTail,
    List.forall_mem_cons, List.not_mem_nil, false_implies, implies_true, and_true]
  repeat' apply And.intro
  all_goals repeat' with_reducible apply IsCode.append
  all_goals first
    | with_reducible assumption
    | apply isCode_literal; decide
    | exact (rfl : IsCode [])

/-- The marker lines of a file's sections. -/
def fileMarks : List (Text × Text) :=
  [(code "    // ddd:commands", code "    // ddd:commands:end"),
    (code "    // ddd:events", code "    // ddd:events:end"),
    (code "            // ddd:event-types", code "            // ddd:event-types:end"),
    (code "            // ddd:apply-events", code "            // ddd:apply-events:end"),
    (code "            // ddd:handle-commands", code "            // ddd:handle-commands:end")]

def FileSection.marks (part : FileSection) : Text × Text := (part.opening, part.closing)

theorem fileSections_marks : (fileSections names added).map FileSection.marks = fileMarks := rfl

theorem fileMarks_records : ∀ marks ∈ fileMarks, IsRecord marks.1 ∧ IsRecord marks.2 := by
  have checked : ∀ marks ∈ fileMarks,
      ('\n' ∉ marks.1 ∧ '\r' ∉ marks.1) ∧ '\n' ∉ marks.2 ∧ '\r' ∉ marks.2 := by
    rw [fileMarks]
    repeat rw [code_literal]
    decide
  exact fun marks member =>
    ⟨⟨(checked marks member).1.1, (checked marks member).1.2⟩,
      ⟨(checked marks member).2.1, (checked marks member).2.2⟩⟩

theorem fileSections_isCode (words : names.IsCode) (code : added.IsCode) :
    ∀ part ∈ fileSections names added, part.IsCode := by
  have heads := head_isCode words
  have marks := fileMarks_records
  simp only [fileMarks, List.forall_mem_cons, List.not_mem_nil, false_implies, implies_true,
    and_true] at heads marks
  obtain ⟨commands, events, types, applies, handles, -⟩ := heads
  obtain ⟨ofCommands, ofEvents, ofTypes, ofApplies, ofHandles⟩ := marks
  simp only [fileSections, List.forall_mem_cons, List.not_mem_nil, false_implies, implies_true,
    and_true]
  exact ⟨⟨commands, ofCommands.1, code.commands, ofCommands.2⟩,
    ⟨events, ofEvents.1, code.events, ofEvents.2⟩, ⟨types, ofTypes.1, code.types, ofTypes.2⟩,
    ⟨applies, ofApplies.1, code.applies, ofApplies.2⟩,
    ⟨handles, ofHandles.1, code.handles, ofHandles.2⟩⟩

end Sections

end DddCqrsEs.DddCli
