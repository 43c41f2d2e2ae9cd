import DddCqrsEs.DddCli.Additions

/- The registry `src/domain/mod.rs` over all runs of `ddd add aggregate`: what it declares and
exports, and when that is each aggregate once. -/
namespace DddCqrsEs.DddCli

open LineLog

def codeLines (content : Text) : List Text := (lines content).map trim

/-- The module that a line declares. -/
def readMod (line : Text) : Option Text :=
  (Cuts.strip (code "pub mod ") line).bind (stripSuffix (code ";"))

def declaredModules (content : Text) : List Text := (codeLines content).filterMap readMod

/-- The names that a line exports, each with its module. -/
def readUse (line : Text) : List (Text × Text) :=
  match (Cuts.strip (code "pub use ") line).bind (Cuts.cutWord (code "::\x7b")) with
  | some (module, names) =>
    match stripSuffix (code "\x7d;") names with
    | some names => (names.splitOn ',').map fun name => (module, trim name)
    | none => []
  | none => []

def exportedNames (content : Text) : List (Text × Text) := (codeLines content).flatMap readUse

/-- Each of the aggregates is declared once and exported once with its types, and no name is
exported from two modules. -/
structure Registers (content : Text) (added : List NameParts) : Prop where
  declares : ∀ names ∈ added, (declaredModules content).count names.module = 1
  exports : ∀ names ∈ added, ∀ type ∈ names.types,
    (exportedNames content).count (names.module, type) = 1
  apart : ∀ first second : Text, ∀ type,
    (first, type) ∈ exportedNames content → (second, type) ∈ exportedNames content →
      first = second

/-- The first module is not added again, and the types of two aggregates have different names. -/
def Distinct : List NameParts → Prop
  | [] => True
  | first :: later => (∀ names ∈ later, names.module ≠ first.module) ∧
      ∀ names ∈ first :: later, ∀ others ∈ first :: later, names.aggregate ≠ others.aggregate →
        ∀ type ∈ names.types, type ∉ others.types

instance : DecidablePred Distinct
  | [] => isTrue trivial
  | _ :: _ => inferInstanceAs (Decidable (_ ∧ _))

/-- The names of an aggregate, as a call that succeeds derives them. -/
structure IsNames (heck : Heck) (names : NameParts) : Prop where
  derived : ∃ name, names = NameParts.new heck name
  aggregate : IsIdentifier names.aggregate
  module : IsIdentifier names.module

/-- The records that are added to an empty region. -/
def addAll (records : List Text) : List Text := records.foldl addRecord []

theorem addAll_concat (records : List Text) (record : Text) :
    addAll (records ++ [record]) = addRecord (addAll records) record := by
  rw [addAll, List.foldl_append]
  rfl

def registryLines (first : NameParts) (mods uses : List Text) : List Text :=
  [modLine first] ++ code "// ddd:domain-modules" :: (mods ++
    code "// ddd:domain-modules:end" :: ([[], useLine first] ++
    code "// ddd:domain-exports" :: (uses ++ code "// ddd:domain-exports:end" :: [])))

/-- The content of a registry, after the calls for these aggregates. -/
def registry (first : NameParts) (later : List NameParts) : Text :=
  unlines (registryLines first (addAll (later.map modLine)) (addAll (later.map useLine)))

theorem renderDomainMod_lines (first : NameParts) : renderDomainMod first = registry first [] :=
  rfl

variable {records : List Text} {heck : Heck} {first names : NameParts} {line : NameParts → Text}
  {later : List NameParts}

theorem addAll_subset : ∀ record ∈ addAll records, record ∈ records := by
  induction records using List.reverseRecOn with
  | nil => simp [addAll]
  | append_singleton records last ih =>
    rw [addAll_concat, addRecord]
    intro record member
    split at member
    · exact List.mem_append_left _ (ih record member)
    · rcases List.mem_append.mp member with was | new
      · exact List.mem_append_left _ (ih record was)
      · exact List.mem_append_right _ new

/-- What is added are lines of some of the items, one for each text that a line has. -/
theorem addAll_map {α : Type} (line : α → Text) (items : List α) :
    ∃ kept : List α, addAll (items.map line) = kept.map line ∧ (∀ item ∈ kept, item ∈ items) ∧
      kept.Pairwise (fun one other => trim (line one) ≠ trim (line other)) ∧
      ∀ item ∈ items, ∃ same ∈ kept, trim (line same) = trim (line item) := by
  induction items using List.reverseRecOn with
  | nil => exact ⟨[], rfl, by simp, List.Pairwise.nil, by simp⟩
  | append_singleton items last ih =>
    obtain ⟨kept, lines, among, apart, covers⟩ := ih
    rw [List.map_append, List.map_singleton, addAll_concat, lines, addRecord]
    split
    · rename_i has
      rw [List.any_map, List.any_eq_true] at has
      obtain ⟨same, member, equal⟩ := has
      refine ⟨kept, rfl, fun item inside => List.mem_append_left _ (among item inside), apart, ?_⟩
      simp only [List.forall_mem_append, List.forall_mem_singleton]
      exact ⟨covers, same, member, beq_iff_eq.mp equal⟩
    · rename_i lacks
      rw [List.any_map, List.any_eq_true] at lacks
      refine ⟨kept ++ [last], by simp, ?_, ?_, ?_⟩
      · simp only [List.forall_mem_append, List.forall_mem_singleton]
        exact ⟨fun item inside => List.mem_append_left _ (among item inside), by simp⟩
      · rw [List.pairwise_append]
        refine ⟨apart, List.pairwise_singleton _ _, fun item inside other only same => ?_⟩
        rw [List.mem_singleton.mp only] at same
        exact lacks ⟨item, inside, beq_iff_eq.mpr same⟩
      · simp only [List.forall_mem_append, List.forall_mem_singleton]
        refine ⟨fun item inside => ?_, last, by simp, rfl⟩
        obtain ⟨same, member, equal⟩ := covers item inside
        exact ⟨same, List.mem_append_left _ member, equal⟩

section Lines

theorem IsNames.types (valid : IsNames heck names) :
    ∀ type ∈ names.types, IsIdentifier type := by
  obtain ⟨name, rfl⟩ := valid.derived
  have grown (suffix : Text) (letters : ∀ c ∈ suffix, isIdentifierChar c = true) :
      IsIdentifier ((NameParts.new heck name).aggregate ++ suffix) := by
    refine ⟨fun empty => valid.aggregate.1 (List.append_eq_nil_iff.mp empty).1, ?_⟩
    rw [List.forall_mem_append]
    exact ⟨valid.aggregate.2, letters⟩
  simp only [NameParts.types, List.forall_mem_cons, List.not_mem_nil, false_implies,
    implies_true, and_true]
  exact ⟨valid.aggregate, grown _ (by decide), grown _ (by decide), grown _ (by decide)⟩

/-- The aggregate's name decides all others. -/
theorem IsNames.eq (valid : IsNames heck names) {others : NameParts}
    (other : IsNames heck others) (same : names.aggregate = others.aggregate) :
    names = others := by
  obtain ⟨name, rfl⟩ := valid.derived
  obtain ⟨another, rfl⟩ := other.derived
  have root : heck.upperCamel name = heck.upperCamel another := same
  rw [NameParts.new, NameParts.new, root]

theorem modLine_solid (names : NameParts) : trim (modLine names) = modLine names :=
  trim_solid (by rfl : (modLine names).head? = some 'p') (by
    rw [modLine, code, code, List.getLast?_append]
    rfl) (by decide) (by decide)

theorem useLine_solid (names : NameParts) : trim (useLine names) = useLine names :=
  trim_solid (by rfl : (useLine names).head? = some 'p') (by
    rw [useLine, code, code, code, List.getLast?_append]
    rfl) (by decide) (by decide)

theorem IsNames.modLine_record (valid : IsNames heck names) : IsRecord (modLine names) := by
  have free {c : Char} (other : isIdentifierChar c = false)
      (outside : c ∉ code "pub mod " ++ code ";") : c ∉ modLine names := by
    simp only [modLine, List.mem_append, not_or] at outside ⊢
    exact ⟨⟨outside.1, valid.module.free other⟩, outside.2⟩
  exact ⟨free (by decide) (by decide), free (by decide) (by decide)⟩

theorem IsNames.useLine_record (valid : IsNames heck names) : IsRecord (useLine names) := by
  have words := valid.types
  simp only [NameParts.types, List.forall_mem_cons, List.not_mem_nil, false_implies,
    implies_true, and_true] at words
  obtain ⟨aggregate, command, event, id⟩ := words
  have free {c : Char} (other : isIdentifierChar c = false)
      (outside : c ∉ code "pub use " ++ code "::\x7b" ++ code ", " ++ code "\x7d;") :
      c ∉ useLine names := by
    simp only [useLine, List.mem_append, not_or] at outside ⊢
    obtain ⟨⟨⟨opening, path⟩, comma⟩, closing⟩ := outside
    exact ⟨⟨⟨⟨⟨⟨⟨⟨⟨⟨opening, valid.module.free other⟩, path⟩, aggregate.free other⟩, comma⟩,
      command.free other⟩, comma⟩, event.free other⟩, comma⟩, id.free other⟩, closing⟩
  exact ⟨free (by decide) (by decide), free (by decide) (by decide)⟩

theorem readMod_modLine (names : NameParts) : readMod (modLine names) = some names.module := by
  have stripped : Cuts.strip (code "pub mod ") (modLine names) =
      some (names.module ++ code ";") := by
    rw [Cuts.strip_eq_some, modLine, List.append_assoc]
  have ended : (code ";").isSuffixOf (names.module ++ code ";") = true := by
    rw [List.isSuffixOf_iff_suffix]
    exact List.suffix_append _ _
  rw [readMod, stripped, Option.bind_some, stripSuffix, if_pos ended]
  simp

/-- A list of words behind commas. -/
theorem splitOn_words {first : Text} (word : IsIdentifier first) (rest : Text) :
    (first ++ code ", " ++ rest).splitOn ',' = first :: (' ' :: rest).splitOn ',' := by
  rw [List.append_assoc]
  exact List.splitOn_append_cons_self_of_not_mem (word.free (by decide)) (' ' :: rest)

theorem splitOn_spaced {first : Text} (word : IsIdentifier first) (rest : Text) :
    (' ' :: (first ++ code ", " ++ rest)).splitOn ',' =
      (' ' :: first) :: (' ' :: rest).splitOn ',' := by
  have free : ',' ∉ ' ' :: first := by
    rw [List.mem_cons, not_or]
    exact ⟨by decide, word.free (by decide)⟩
  rw [List.append_assoc]
  exact List.splitOn_append_cons_self_of_not_mem free (' ' :: rest)

theorem splitOn_last {last : Text} (word : IsIdentifier last) :
    (' ' :: last).splitOn ',' = [' ' :: last] := by
  apply List.splitOn_eq_singleton
  rw [List.mem_cons, not_or]
  exact ⟨by decide, word.free (by decide)⟩

theorem IsNames.readUse_useLine (valid : IsNames heck names) :
    readUse (useLine names) = names.types.map fun type => (names.module, type) := by
  have words := valid.types
  simp only [NameParts.types, List.forall_mem_cons, List.not_mem_nil, false_implies,
    implies_true, and_true] at words
  obtain ⟨aggregate, command, event, id⟩ := words
  have body : useLine names = code "pub use " ++ (names.module ++ code "::\x7b" ++
      (names.aggregate ++ code ", " ++ (names.commandType ++ code ", " ++
        (names.eventType ++ code ", " ++ names.idType)) ++ code "\x7d;")) := by
    simp only [useLine, List.append_assoc]
  have path : Cuts.cutWord (code "::\x7b") (names.module ++ code "::\x7b" ++ _) = _ :=
    Cuts.cutWord_append (valid.module.free (c := ':') (by decide))
      (names.aggregate ++ code ", " ++ (names.commandType ++ code ", " ++
        (names.eventType ++ code ", " ++ names.idType)) ++ code "\x7d;")
  have closed {text : Text} : stripSuffix (code "\x7d;") (text ++ code "\x7d;") = some text := by
    rw [stripSuffix, if_pos]
    · simp
    · rw [List.isSuffixOf_iff_suffix]
      exact List.suffix_append _ _
  rw [readUse, body, Cuts.strip_eq_some.mpr rfl, Option.bind_some, path]
  dsimp only
  rw [closed]
  dsimp only
  rw [splitOn_words aggregate, splitOn_spaced command, splitOn_spaced event, splitOn_last id]
  simp only [List.map_cons, List.map_nil, NameParts.types, trim_spaced, aggregate.solid,
    command.solid, event.solid, id.solid]

end Lines

/-- The records of a registry are lines. -/
theorem registry_records {mods uses : List Text} (begins : IsNames heck first)
    (declared : ∀ record ∈ mods, IsRecord record) (exported : ∀ record ∈ uses, IsRecord record) :
    ∀ record ∈ registryLines first mods uses, IsRecord record := by
  have fixed {text : Text} (newline : '\n' ∉ text) (carriage : '\r' ∉ text) : IsRecord text :=
    ⟨newline, carriage⟩
  simp only [registryLines, List.forall_mem_append, List.forall_mem_cons, List.not_mem_nil,
    false_implies, implies_true, and_true]
  exact ⟨begins.modLine_record, fixed (by decide) (by decide), declared,
    fixed (by decide) (by decide), ⟨fixed (by decide) (by decide), begins.useLine_record⟩,
    fixed (by decide) (by decide), exported, fixed (by decide) (by decide)⟩

theorem added_records (records : ∀ names ∈ later, IsRecord (line names)) :
    ∀ record ∈ addAll (later.map line), IsRecord record := by
  intro record member
  obtain ⟨names, among, rfl⟩ := List.mem_map.mp (addAll_subset record member)
  exact records names among

/-- A line of code carries no marker. -/
theorem not_carries_code {marker line : Text} (comment : (trim marker).head? = some '/')
    (starts : (trim line).head? = some 'p') : ¬ Carries marker line := by
  intro carries
  rw [show trim line = trim marker from carries, comment] at starts
  cases starts

theorem modLine_head (names : NameParts) : (trim (modLine names)).head? = some 'p' := by
  rw [modLine_solid]
  rfl

theorem useLine_head (names : NameParts) : (trim (useLine names)).head? = some 'p' := by
  rw [useLine_solid]
  rfl

theorem added_not_carries {marker : Text} (comment : (trim marker).head? = some '/')
    (head : ∀ names, (trim (line names)).head? = some 'p') :
    ∀ record ∈ addAll (later.map line), ¬ Carries marker record := by
  intro record member
  obtain ⟨names, among, rfl⟩ := List.mem_map.mp (addAll_subset record member)
  exact not_carries_code comment (head names)

theorem modules_region (first : NameParts) (later : List NameParts) (uses : List Text)
    (plain : ∀ record ∈ uses, (trim record).head? = some 'p') :
    Region (code "// ddd:domain-modules:end") [modLine first] (code "// ddd:domain-modules")
      (addAll (later.map modLine)) (code "// ddd:domain-modules:end")
      ([[], useLine first] ++ code "// ddd:domain-exports" :: (uses ++
        code "// ddd:domain-exports:end" :: [])) := by
  refine ⟨by decide, by decide, ?_, ?_, by decide, ?_⟩
  · intro record member
    exact ⟨added_not_carries (by decide) modLine_head record member,
      added_not_carries (by decide) modLine_head record member⟩
  · simp only [List.forall_mem_singleton]
    exact not_carries_code (by decide) (modLine_head first)
  · simp only [List.forall_mem_append, List.forall_mem_cons, List.not_mem_nil, false_implies,
      implies_true, and_true]
    exact ⟨⟨by decide, not_carries_code (by decide) (useLine_head first)⟩, by decide,
      fun record member => not_carries_code (by decide) (plain record member), by decide⟩

theorem exports_region (first : NameParts) (mods : List Text) (later : List NameParts)
    (plain : ∀ record ∈ mods, (trim record).head? = some 'p') :
    Region (code "// ddd:domain-exports:end")
      ([modLine first] ++ code "// ddd:domain-modules" :: (mods ++
        code "// ddd:domain-modules:end" :: [[], useLine first]))
      (code "// ddd:domain-exports") (addAll (later.map useLine))
      (code "// ddd:domain-exports:end") [] := by
  refine ⟨by decide, by decide, ?_, ?_, by decide, by simp⟩
  · intro record member
    exact ⟨added_not_carries (by decide) useLine_head record member,
      added_not_carries (by decide) useLine_head record member⟩
  · simp only [List.forall_mem_append, List.forall_mem_cons, List.not_mem_nil, false_implies,
      implies_true, and_true]
    exact ⟨not_carries_code (by decide) (modLine_head first), by decide,
      fun record member => not_carries_code (by decide) (plain record member), by decide,
      by decide, not_carries_code (by decide) (useLine_head first)⟩

theorem added_head (head : ∀ names, (trim (line names)).head? = some 'p') :
    ∀ record ∈ addAll (later.map line), (trim record).head? = some 'p' := by
  intro record member
  obtain ⟨names, among, rfl⟩ := List.mem_map.mp (addAll_subset record member)
  exact head names

/-- The lines of a registry, cut at its second region. -/
theorem registryLines_exports (first : NameParts) (mods uses : List Text) :
    registryLines first mods uses =
      ([modLine first] ++ code "// ddd:domain-modules" :: (mods ++
        code "// ddd:domain-modules:end" :: [[], useLine first])) ++
        code "// ddd:domain-exports" :: (uses ++ code "// ddd:domain-exports:end" :: []) := by
  simp [registryLines]

/-- One call more. -/
theorem ensureDomainModContent_registry (begins : IsNames heck first)
    (valid : ∀ others ∈ later, IsNames heck others) (added : IsNames heck names) :
    ensureDomainModContent (some (registry first later)) names =
      .ok (registry first (later ++ [names])) := by
  have grown : ∀ others ∈ later ++ [names], IsNames heck others := by
    simp only [List.forall_mem_append, List.forall_mem_singleton]
    exact ⟨valid, added⟩
  have uses := added_records fun others member => (valid others member).useLine_record
  have before := registry_records begins
    (added_records fun others member => (valid others member).modLine_record) uses
  have between := registry_records begins
    (added_records fun others member => (grown others member).modLine_record) uses
  have nonblank {line : Text} (head : (trim line).head? = some 'p') : trim line ≠ [] := by
    intro empty
    rw [empty] at head
    cases head
  have apart {opening line : Text} (comment : (trim opening).head? = some '/')
      (head : (trim line).head? = some 'p') : trim opening ≠ trim line :=
    fun same => not_carries_code comment head same.symm
  have mods := insertBeforeMarker_region
    (modules_region first later (addAll (later.map useLine)) (added_head useLine_head))
    (fun line member => (before line member).newline) added.modLine_record.newline
    (nonblank (modLine_head names)) (apart (by decide) (modLine_head names))
  rw [registryLines_exports] at between
  have exports := insertBeforeMarker_region
    (exports_region first (addAll ((later ++ [names]).map modLine)) later
      (added_head modLine_head))
    (fun line member => (between line member).newline) added.useLine_record.newline
    (nonblank (useLine_head names)) (apart (by decide) (useLine_head names))
  have modules_after : addAll ((later ++ [names]).map modLine) =
      addRecord (addAll (later.map modLine)) (modLine names) := by
    rw [List.map_append, List.map_singleton, addAll_concat]
  have exports_after : addAll ((later ++ [names]).map useLine) =
      addRecord (addAll (later.map useLine)) (useLine names) := by
    rw [List.map_append, List.map_singleton, addAll_concat]
  rw [← registryLines_exports, ← registryLines_exports, ← exports_after] at exports
  rw [ensureDomainModContent, registry, registryLines, mods, ← modules_after]
  exact exports

def NameParts.exports (names : NameParts) : List (Text × Text) :=
  names.types.map fun type => (names.module, type)

theorem readMod_useLine (names : NameParts) : readMod (useLine names) = none := rfl

theorem readUse_modLine (names : NameParts) : readUse (modLine names) = [] := rfl

theorem codeLines_unlines (areRecords : ∀ record ∈ records, IsRecord record) :
    codeLines (unlines records) = records.map trim := by
  have whole := lines_unlines areRecords (List.not_mem_nil : '\n' ∉ [])
  rw [List.append_nil, if_pos rfl, List.append_nil] at whole
  rw [codeLines, whole]

section Registry

variable (begins : IsNames heck first) (valid : ∀ names ∈ later, IsNames heck names)

include begins

variable {declared exported : List NameParts}

/-- The trimmed lines of a registry with these declarations and exports. -/
theorem codeLines_registry (mods : ∀ names ∈ declared, IsNames heck names)
    (uses : ∀ names ∈ exported, IsNames heck names) :
    codeLines (unlines (registryLines first (declared.map modLine) (exported.map useLine))) =
      registryLines first (declared.map modLine) (exported.map useLine) := by
  have records := registry_records begins
    (List.forall_mem_map.mpr fun names member => (mods names member).modLine_record)
    (List.forall_mem_map.mpr fun names member => (uses names member).useLine_record)
  have fixed : ∀ text ∈ [code "// ddd:domain-modules", code "// ddd:domain-modules:end", [],
      code "// ddd:domain-exports", code "// ddd:domain-exports:end"], trim text = text := by
    decide
  simp only [List.forall_mem_cons] at fixed
  obtain ⟨start, ending, blank, opens, closes, -⟩ := fixed
  rw [codeLines_unlines records, registryLines]
  simp only [List.map_append, List.map_cons, List.map_nil, List.map_map, start, ending, blank,
    opens, closes, modLine_solid, useLine_solid, Function.comp_def]

theorem declared_lines (mods : ∀ names ∈ declared, IsNames heck names)
    (uses : ∀ names ∈ exported, IsNames heck names) :
    declaredModules (unlines
      (registryLines first (declared.map modLine) (exported.map useLine))) =
      (first :: declared).map (·.module) := by
  have silent : (exported.map useLine).filterMap readMod = [] := by
    simp only [List.filterMap_map, Function.comp_def, readMod_useLine, List.filterMap_none]
  have spoken : (declared.map modLine).filterMap readMod = declared.map (·.module) := by
    simp only [List.filterMap_map, Function.comp_def, readMod_modLine, List.filterMap_eq_map']
  have fixed : ∀ text ∈ [code "// ddd:domain-modules", code "// ddd:domain-modules:end", [],
      code "// ddd:domain-exports", code "// ddd:domain-exports:end"], readMod text = none := by
    decide
  simp only [List.forall_mem_cons] at fixed
  obtain ⟨start, ending, blank, opens, closes, -⟩ := fixed
  rw [declaredModules, codeLines_registry begins mods uses, registryLines]
  simp only [List.filterMap_append, List.filterMap_cons, List.filterMap_nil, List.map_cons,
    readMod_modLine, readMod_useLine, silent, spoken, start, ending, blank, opens, closes,
    List.append_nil, List.singleton_append]

theorem exported_lines (mods : ∀ names ∈ declared, IsNames heck names)
    (uses : ∀ names ∈ exported, IsNames heck names) :
    exportedNames (unlines
      (registryLines first (declared.map modLine) (exported.map useLine))) =
      (first :: exported).flatMap NameParts.exports := by
  have silent : (declared.map modLine).flatMap readUse = [] := by
    simp [List.flatMap_map, readUse_modLine]
  have spoken : (exported.map useLine).flatMap readUse = exported.flatMap NameParts.exports := by
    rw [List.flatMap_map]
    exact List.flatMap_congr fun names member => (uses names member).readUse_useLine
  have fixed : ∀ text ∈ [code "// ddd:domain-modules", code "// ddd:domain-modules:end", [],
      code "// ddd:domain-exports", code "// ddd:domain-exports:end"], readUse text = [] := by
    decide
  simp only [List.forall_mem_cons] at fixed
  obtain ⟨start, ending, blank, opens, closes, -⟩ := fixed
  have one : readUse (useLine first) = first.exports := begins.readUse_useLine
  rw [exportedNames, codeLines_registry begins mods uses, registryLines]
  simp [readUse_modLine, one, silent, spoken, start, ending, blank, opens, closes]

include valid

/-- The first module is declared, and each later one once. -/
theorem declaredModules_registry : ∃ kept : List NameParts,
    declaredModules (registry first later) = (first :: kept).map (·.module) ∧
      (∀ names ∈ kept, names ∈ later) ∧ (kept.map (·.module)).Nodup ∧
      ∀ names ∈ later, names.module ∈ kept.map (·.module) := by
  obtain ⟨kept, mods, among, apart, covers⟩ := addAll_map modLine later
  obtain ⟨others, uses, amongOthers, -⟩ := addAll_map useLine later
  refine ⟨kept, ?_, among, ?_, ?_⟩
  · rw [registry, mods, uses]
    exact declared_lines begins (fun names member => valid names (among names member))
      (fun names member => valid names (amongOthers names member))
  · rw [List.Nodup, List.pairwise_map]
    refine apart.imp ?_
    intro one other different same
    rw [modLine, modLine, same] at different
    exact different rfl
  · intro names member
    obtain ⟨same, inside, equal⟩ := covers names member
    rw [modLine_solid, modLine_solid] at equal
    have modules := congrArg readMod equal
    rw [readMod_modLine, readMod_modLine, Option.some_inj] at modules
    exact List.mem_map.mpr ⟨same, inside, modules⟩

/-- The first aggregate is exported, and each later one once. -/
theorem exportedNames_registry : ∃ kept : List NameParts,
    exportedNames (registry first later) = (first :: kept).flatMap NameParts.exports ∧
      kept.Nodup ∧ ∀ names, names ∈ kept ↔ names ∈ later := by
  obtain ⟨others, mods, amongOthers, -⟩ := addAll_map modLine later
  obtain ⟨kept, uses, among, apart, covers⟩ := addAll_map useLine later
  refine ⟨kept, ?_, ?_, fun names => ⟨among names, fun member => ?_⟩⟩
  · rw [registry, mods, uses]
    exact exported_lines begins (fun names member => valid names (amongOthers names member))
      (fun names member => valid names (among names member))
  · refine apart.imp ?_
    rintro one other different rfl
    exact different rfl
  · obtain ⟨same, inside, equal⟩ := covers names member
    rw [useLine_solid, useLine_solid] at equal
    have old := valid same (among same inside)
    have exported := congrArg readUse equal
    rw [old.readUse_useLine, (valid names member).readUse_useLine] at exported
    have heads := congrArg List.head? exported
    simp only [NameParts.types, List.map_cons, List.head?_cons, Option.some_inj,
      Prod.mk.injEq] at heads
    rw [← old.eq (valid names member) heads.2]
    exact inside

end Registry

theorem NameParts.types_nodup (valid : IsNames heck names) : names.types.Nodup := by
  obtain ⟨name, rfl⟩ := valid.derived
  have own (suffix : Text) (nonempty : suffix ≠ []) :
      heck.upperCamel name ≠ heck.upperCamel name ++ suffix := by
    intro same
    exact nonempty (List.self_eq_append_right.mp same)
  have apart {one other : Text} (different : one ≠ other) :
      heck.upperCamel name ++ one ≠ heck.upperCamel name ++ other :=
    fun same => different (List.append_cancel_left same)
  simp only [NameParts.types, NameParts.new, List.nodup_cons, List.mem_cons, List.not_mem_nil,
    not_or, or_false, List.nodup_nil, and_true, not_false_eq_true]
  exact ⟨⟨own _ (by decide), own _ (by decide), own _ (by decide)⟩,
    ⟨apart (by decide), apart (by decide)⟩, apart (by decide)⟩

theorem mem_exports {module type : Text} :
    (module, type) ∈ names.exports ↔ names.module = module ∧ type ∈ names.types := by
  simp [NameParts.exports, and_comm, eq_comm]

/-- Two aggregates that export one name from one module export it twice. -/
theorem two_le_count {all : List NameParts} {one other : NameParts} {name : Text × Text}
    (different : one ≠ other) (first : one ∈ all) (second : other ∈ all)
    (exported : name ∈ one.exports) (again : name ∈ other.exports) :
    2 ≤ (all.flatMap NameParts.exports).count name := by
  obtain ⟨before, behind, rfl⟩ := List.append_of_mem first
  have elsewhere : other ∈ before ∨ other ∈ behind := by
    rw [List.mem_append, List.mem_cons] at second
    rcases second with inside | same | inside
    · exact Or.inl inside
    · exact absurd same.symm different
    · exact Or.inr inside
  have here : 1 ≤ one.exports.count name := List.count_pos_iff.mpr exported
  have there {part : List NameParts} (inside : other ∈ part) :
      1 ≤ (part.flatMap NameParts.exports).count name :=
    List.count_pos_iff.mpr (List.mem_flatMap.mpr ⟨other, inside, again⟩)
  rw [List.flatMap_append, List.flatMap_cons, List.count_append, List.count_append]
  rcases elsewhere with inside | inside
  · have more := there inside
    omega
  · have more := there inside
    omega

/-- The registry after the calls registers each aggregate once just where they are distinct. -/
theorem registers_iff (begins : IsNames heck first) (valid : ∀ names ∈ later, IsNames heck names) :
    Registers (registry first later) (first :: later) ↔ Distinct (first :: later) := by
  obtain ⟨mods, declared, fromLater, once, covers⟩ := declaredModules_registry begins valid
  obtain ⟨kept, exported, unique, same⟩ := exportedNames_registry begins valid
  have everyone : ∀ names ∈ first :: later, IsNames heck names :=
    List.forall_mem_cons.mpr ⟨begins, valid⟩
  have all : ∀ names, names ∈ first :: kept ↔ names ∈ first :: later := by
    intro names
    rw [List.mem_cons, List.mem_cons, same]
  constructor
  · intro registers
    constructor
    · intro names member equal
      have twice := registers.declares first List.mem_cons_self
      have more := List.count_pos_iff.mpr (covers names member)
      rw [declared, List.map_cons, List.count_cons_self, ← equal] at twice
      omega
    · intro names member others among different type shared again
      have apart : names ≠ others := fun equal => different (by rw [equal])
      have one := (all names).mpr member
      have two := (all others).mpr among
      have mine : (names.module, type) ∈ exportedNames (registry first later) := by
        rw [exported]
        exact List.mem_flatMap.mpr ⟨names, one, (mem_exports).mpr ⟨rfl, shared⟩⟩
      have theirs : (others.module, type) ∈ exportedNames (registry first later) := by
        rw [exported]
        exact List.mem_flatMap.mpr ⟨others, two, (mem_exports).mpr ⟨rfl, again⟩⟩
      have modules := registers.apart _ _ type mine theirs
      have single := registers.exports names member type shared
      have double := two_le_count apart one two ((mem_exports).mpr ⟨rfl, shared⟩)
        ((mem_exports).mpr ⟨modules.symm, again⟩)
      rw [← exported] at double
      omega
  · rintro ⟨fresh, disjoint⟩
    have absent : first ∉ kept := fun member => fresh first ((same first).mp member) rfl
    have only {one other : NameParts} (left : one ∈ first :: kept) (right : other ∈ first :: kept)
        {type : Text} (shared : type ∈ one.types) (again : type ∈ other.types) : one = other := by
      have one' := (all one).mp left
      have other' := (all other).mp right
      apply (everyone one one').eq (everyone other other')
      by_contra different
      exact disjoint one one' other other' different type shared again
    have nodup : (exportedNames (registry first later)).Nodup := by
      rw [exported, List.nodup_flatMap]
      constructor
      · intro names member
        exact (NameParts.types_nodup (everyone names ((all names).mp member))).map
          fun one other equal => (Prod.mk.inj equal).2
      · refine (List.nodup_cons.mpr ⟨absent, unique⟩).imp_of_mem ?_
        rintro one other left right different ⟨module, type⟩ shared again
        exact different (only left right ((mem_exports).mp shared).2 ((mem_exports).mp again).2)
    constructor
    · intro names member
      rw [declared]
      apply List.count_eq_one_of_mem
      · rw [List.map_cons, List.nodup_cons]
        refine ⟨fun inside => ?_, once⟩
        obtain ⟨other, among, equal⟩ := List.mem_map.mp inside
        exact fresh other (fromLater other among) equal
      · rw [List.map_cons, List.mem_cons]
        rcases List.mem_cons.mp member with rfl | inside
        · exact Or.inl rfl
        · exact Or.inr (covers names inside)
    · intro names member type shared
      apply List.count_eq_one_of_mem nodup
      rw [exported]
      exact List.mem_flatMap.mpr
        ⟨names, (all names).mpr member, (mem_exports).mpr ⟨rfl, shared⟩⟩
    · intro one other type left right
      rw [exported, List.mem_flatMap] at left right
      obtain ⟨names, member, shared⟩ := left
      obtain ⟨others, among, again⟩ := right
      rw [mem_exports] at shared again
      rw [← shared.1, ← again.1, only member among shared.2 again.2]

/-- The calls in turn. -/
def addAggregates (heck : Heck) : List (Call × Text) → Project → Except String Project
  | [], project => .ok project
  | (call, name) :: calls, project =>
    match addAggregate heck call name project with
    | .error error => .error error
    | .ok project => addAggregates heck calls project

/-- The aggregates of the calls that were not dry runs. -/
def addedBy (heck : Heck) (calls : List (Call × Text)) : List NameParts :=
  (calls.filter fun called => !called.1.dryRun).map fun called => NameParts.new heck called.2

/-- The registry is the one that these calls make. -/
def MadeBy : List NameParts → Option Text → Prop
  | [], content => content = none
  | first :: later, content => content = some (registry first later)

theorem addAggregate_made {call : Call} {name : Text} {project after : Project}
    {added : List NameParts} (valid : ∀ names ∈ added, IsNames heck names)
    (made : MadeBy added project.domainMod)
    (ran : addAggregate heck call name project = .ok after) :
    (∀ names ∈ added ++ addedBy heck [(call, name)], IsNames heck names) ∧
      MadeBy (added ++ addedBy heck [(call, name)]) after.domainMod := by
  obtain ⟨aggregate, module, content, ensured, changed⟩ := addAggregate_ok heck ran
  have names : IsNames heck (NameParts.new heck name) := ⟨⟨name, rfl⟩, aggregate, module⟩
  cases dry : call.dryRun with
  | true =>
    have nothing : addedBy heck [(call, name)] = [] := by simp [addedBy, dry]
    rw [dry, if_pos rfl] at changed
    rw [nothing, List.append_nil, changed]
    exact ⟨valid, made⟩
  | false =>
    have one : addedBy heck [(call, name)] = [NameParts.new heck name] := by
      simp [addedBy, dry]
    rw [dry, if_neg (by decide)] at changed
    rw [one, changed]
    constructor
    · simp only [List.forall_mem_append, List.forall_mem_singleton]
      exact ⟨valid, names⟩
    · cases added with
      | nil =>
        rw [show project.domainMod = none from made, ensureDomainModContent,
          Except.ok.injEq] at ensured
        rw [List.nil_append, MadeBy, ← ensured, renderDomainMod_lines]
      | cons first later =>
        rw [List.forall_mem_cons] at valid
        rw [show project.domainMod = some (registry first later) from made,
          ensureDomainModContent_registry valid.1 valid.2 names, Except.ok.injEq] at ensured
        rw [List.cons_append, MadeBy, ensured]

theorem addAggregates_made {heck : Heck} {calls : List (Call × Text)} {project after : Project}
    {added : List NameParts} (valid : ∀ names ∈ added, IsNames heck names)
    (made : MadeBy added project.domainMod)
    (ran : addAggregates heck calls project = .ok after) :
    (∀ names ∈ added ++ addedBy heck calls, IsNames heck names) ∧
      MadeBy (added ++ addedBy heck calls) after.domainMod := by
  induction calls generalizing project added with
  | nil =>
    cases ran
    rw [addedBy, List.filter_nil, List.map_nil, List.append_nil]
    exact ⟨valid, made⟩
  | cons called calls ih =>
    obtain ⟨call, name⟩ := called
    rw [addAggregates] at ran
    cases first : addAggregate heck call name project with
    | error error =>
      rw [first] at ran
      cases ran
    | ok between =>
      rw [first] at ran
      obtain ⟨valid, made⟩ := addAggregate_made valid made first
      have parts : addedBy heck ((call, name) :: calls) =
          addedBy heck [(call, name)] ++ addedBy heck calls := by
        rw [addedBy, addedBy, addedBy, ← List.map_append, ← List.filter_append]
        rfl
      rw [parts, ← List.append_assoc]
      exact ih valid made ran

/-- The registry has the aggregates that were added. -/
def Registered (domainMod : Option Text) (added : List NameParts) : Prop :=
  match domainMod with
  | none => added = []
  | some content => Registers content added

/-- After any run of successful calls, the registry has each aggregate once just where the
aggregates are distinct. -/
theorem addAggregates_registered_iff (heck : Heck) (project after : Project)
    (calls : List (Call × Text)) (missing : project.domainMod = none)
    (ran : addAggregates heck calls project = .ok after) :
    Registered after.domainMod (addedBy heck calls) ↔ Distinct (addedBy heck calls) := by
  obtain ⟨valid, made⟩ := @addAggregates_made heck calls project after [] (by simp) missing ran
  rw [List.nil_append] at valid made
  cases added : addedBy heck calls with
  | nil =>
    rw [added] at made
    rw [show after.domainMod = none from made]
    exact iff_of_true rfl trivial
  | cons first later =>
    rw [added] at made valid
    rw [List.forall_mem_cons] at valid
    rw [show after.domainMod = some (registry first later) from made]
    exact registers_iff valid.1 valid.2

/-- The conversions of names that are one capitalized word. -/
def oneWord : Heck := ⟨id, List.map Char.toLower⟩

/-- A project without domains. -/
def emptyProject : Project := ⟨[], none, fun _ => none, fun _ => false⟩

theorem addAggregates_registered_two : ∃ after,
    addAggregates oneWord [(⟨false, false, .ok ()⟩, code "Order"),
      (⟨false, false, .ok ()⟩, code "Invoice")] emptyProject = .ok after ∧
    Registered after.domainMod (addedBy oneWord [(⟨false, false, .ok ()⟩, code "Order"),
      (⟨false, false, .ok ()⟩, code "Invoice")]) := by
  refine ⟨_, rfl, (addAggregates_registered_iff oneWord emptyProject _ _ rfl rfl).mpr ?_⟩
  decide

/-- The first aggregate, added again, is declared again. -/
theorem addAggregates_again : ∃ after content,
    addAggregates oneWord [(⟨true, false, .ok ()⟩, code "Order"),
      (⟨true, false, .ok ()⟩, code "Order")] emptyProject = .ok after ∧
    after.domainMod = some content ∧
    declaredModules content = [code "order", code "order"] ∧
    ¬ Registers content (addedBy oneWord [(⟨true, false, .ok ()⟩, code "Order"),
      (⟨true, false, .ok ()⟩, code "Order")]) := by
  refine ⟨_, _, rfl, rfl, by decide, fun registers => ?_⟩
  have once := registers.declares (NameParts.new oneWord (code "Order")) (by simp [addedBy])
  revert once
  decide

end DddCqrsEs.DddCli
