import DddCqrsEs.Changes
import DddCqrsEs.Cuts

/- The writes of the `ddd` command line: a list of file operations that is taken back when one of
them fails. -/
namespace DddCqrsEs

open Changes

/-- `std::path::Component`; a `Prefix` is a drive. -/
inductive Component
  | normal (name : String)
  | curDir
  | parentDir
  | rootDir
  | drive (name : String)

def Component.text : Component → String
  | .normal name => name
  | .curDir => "."
  | .parentDir => ".."
  | .rootDir => ""
  | .drive name => name

abbrev RelativePath := List Component

def displayPath (path : RelativePath) : String :=
  String.intercalate "/" (path.map Component.text)

/-- A path below the project's root, as it is displayed. -/
def displayBelow (root : String) (path : RelativePath) : String :=
  if path = [] then root
  else if root.endsWith "/" then root ++ displayPath path
  else root ++ "/" ++ displayPath path

/-- The names of a file's directories below the project's root, and its own. -/
abbrev FilePath := List String

def Component.name? : Component → Option String
  | .normal name => some name
  | _ => none

/-- The components are looked at in turn. -/
def checkComponents (relative : RelativePath) : RelativePath → Except String Unit
  | [] => .ok ()
  | .normal _ :: rest => checkComponents relative rest
  | .curDir :: rest => checkComponents relative rest
  | .parentDir :: _ =>
    .error ("generated path " ++ displayPath relative ++ " escapes the project root via `..`")
  | _ :: _ =>
    .error ("generated path " ++ displayPath relative ++
      " must be relative to the project root")

def containedJoin (relative : RelativePath) : Except String FilePath :=
  if relative = [] then .error "generated path is empty"
  else (checkComponents relative relative).map (fun _ => relative.filterMap Component.name?)

abbrev FileContent := List UInt8

structure Disk where
  files : FilePath → Option FileContent
  directories : FilePath → Bool

namespace Disk

def exists? (disk : Disk) (path : FilePath) : Bool :=
  (disk.files path).isSome || disk.directories path

/-- Changes to files: a file written, or removed. -/
def change (disk : Disk) (changes : List (FilePath × Option FileContent)) : Disk :=
  { disk with files := applied disk.files changes }

end Disk

/-- How a failing `fs::write` leaves the file: as it was, or with so many bytes of the content. -/
inductive Leftover
  | untouched
  | written (bytes : Nat)

/-- The system's answers to the calls of one operation: which of them fail. Of the directories
from the root down, a failing `create_dir_all` leaves so many. -/
structure Answers where
  readFails : Bool
  createFails : Option Nat
  writeFails : Option Leftover
  renameFails : Bool

def fsWrite (path : FilePath) (content : FileContent) :
    Option Leftover → Bool × List (FilePath × Option FileContent)
  | none => (true, [(path, some content)])
  | some .untouched => (false, [])
  | some (.written bytes) => (false, [(path, some (content.take bytes))])

/-- The directories above a path, from the root down. -/
def createDirAll (path : FilePath) (fails : Option Nat) (disk : Disk) : Bool × Disk :=
  let parent := path.dropLast
  let created := fails.getD (parent.length + 1)
  (fails.isNone,
    { disk with
      directories := fun directory =>
        disk.directories directory ||
          decide (directory <+: parent ∧ directory.length < created) })

structure FileOperation where
  path : RelativePath
  content : FileContent
  overwrite : Bool
  description : String

structure FileOperationReport where
  action : String
  path : String
  bytes : Nat
  description : String

/-- A file that was written, and what it held. -/
abbrev AppliedWrite := FilePath × Option FileContent

/-- What is written back or removed; the errors of it are passed over. -/
def rollbackApplied (appliedWrites : List AppliedWrite) :
    List (FilePath × Option FileContent) :=
  undo appliedWrites

def isManifestPath (path : RelativePath) : Bool :=
  match path.getLast? with
  | some (.normal name) => name == "ddd.toml"
  | _ => false

/-- `Path::with_extension`: the name before its last dot, unless that is its first character. -/
def withExtension (path : FilePath) (extension : String) : FilePath :=
  match path.getLast? with
  | none => path
  | some name =>
    let stem :=
      match Cuts.cutLast '.' name.toList with
      | some (c :: front, _) => String.ofList (c :: front)
      | _ => name
    path.dropLast ++ [stem ++ "." ++ extension]

/-- How a call ends, with the changes to files it has made and the disk behind it. -/
structure Outcome where
  result : Except String Unit
  changes : List (FilePath × Option FileContent)
  disk : Disk

variable (root : String)

def writeManifestAtomically (operation : FileOperation) (path : FilePath) (answers : Answers)
    (disk : Disk) : Outcome :=
  let (created, disk) := createDirAll path answers.createFails disk
  if ¬ created then
    ⟨.error ("failed to create " ++ displayBelow root operation.path.dropLast), [], disk⟩
  else
    let tempPath := withExtension path "toml.tmp"
    let (written, changes) := fsWrite tempPath operation.content answers.writeFails
    if ¬ written then
      ⟨.error ("failed to write " ++ displayBelow root operation.path ++ ".tmp"), changes,
        disk.change changes⟩
    else if answers.renameFails then
      ⟨.error ("failed to replace " ++ displayBelow root operation.path ++ " with " ++
        displayBelow root operation.path ++ ".tmp"), changes, disk.change changes⟩
    else
      let changes := changes ++ [(path, some operation.content), (tempPath, none)]
      ⟨.ok (), changes, disk.change changes⟩

def writeFile (operation : FileOperation) (path : FilePath) (answers : Answers) (disk : Disk) :
    Outcome :=
  let (created, disk) := createDirAll path answers.createFails disk
  if ¬ created then
    ⟨.error ("failed to create " ++ displayBelow root operation.path.dropLast), [], disk⟩
  else
    let (written, changes) := fsWrite path operation.content answers.writeFails
    if ¬ written then
      ⟨.error ("failed to write " ++ displayBelow root operation.path), changes,
        disk.change changes⟩
    else ⟨.ok (), changes, disk.change changes⟩

def performWrite (operation : FileOperation) (path : FilePath) (answers : Answers)
    (disk : Disk) : Outcome :=
  if isManifestPath operation.path then
    writeManifestAtomically root operation path answers disk
  else writeFile root operation path answers disk

/-- What the file holds, where something exists at the path: a directory cannot be read. -/
def readPrevious (operation : FileOperation) (path : FilePath) (answers : Answers)
    (disk : Disk) : Except String (Option FileContent) :=
  if disk.exists? path then
    match disk.files path, answers.readFails with
    | some content, false => .ok (some content)
    | _, _ => .error ("failed to read " ++ displayBelow root operation.path)
  else .ok none

def validateOperations (force : Bool) (disk : Disk) : List FileOperation → Except String Unit
  | [] => .ok ()
  | operation :: operations =>
    match containedJoin operation.path with
    | .error error => .error error
    | .ok path =>
      if disk.exists? path ∧ ¬ operation.overwrite ∧ ¬ force then
        .error (displayBelow root operation.path ++
          " already exists; rerun with --force to overwrite")
      else validateOperations force disk operations

def report (operation : FileOperation) (existed : Bool) : FileOperationReport where
  action := if existed then "update" else "create"
  path := displayPath operation.path
  bytes := operation.content.length
  description := operation.description

/-- The loop, with the changes it makes. Each operation stands with the system's answers to it. -/
@[grind =]
def applyLoop (dryRun : Bool) :
    List (FileOperation × Answers) → Disk → List AppliedWrite → List FileOperationReport →
      Except String (List FileOperationReport) × List (FilePath × Option FileContent)
  | [], _, _, reports => (.ok reports, [])
  | (operation, answers) :: calls, disk, appliedWrites, reports =>
    match containedJoin operation.path with
    | .error error => (.error error, [])
    | .ok path =>
      match readPrevious root operation path answers disk with
      | .error error => (.error error, rollbackApplied appliedWrites)
      | .ok previous =>
        let reports := reports ++ [report operation (disk.exists? path)]
        if dryRun then applyLoop dryRun calls disk appliedWrites reports
        else
          let outcome := performWrite root operation path answers disk
          match outcome.result with
          | .error error =>
            (.error error, outcome.changes ++ rollbackApplied appliedWrites)
          | .ok () =>
            let rest := applyLoop dryRun calls outcome.disk
              (appliedWrites ++ [(path, previous)]) reports
            (rest.1, outcome.changes ++ rest.2)

def applyOperations (calls : List (FileOperation × Answers)) (dryRun force : Bool)
    (disk : Disk) :
    Except String (List FileOperationReport) × List (FilePath × Option FileContent) :=
  match validateOperations root force disk (calls.map Prod.fst) with
  | .error error => (.error error, [])
  | .ok () => applyLoop root dryRun calls disk [] []

def readable (path : FilePath) (answers : Answers) (disk : Disk) : Bool :=
  !disk.exists? path || (disk.files path).isSome && !answers.readFails

/-- No call of the operation's write fails. -/
def goesThrough (operation : FileOperation) (answers : Answers) : Bool :=
  answers.createFails.isNone && answers.writeFails.isNone &&
    (!isManifestPath operation.path || !answers.renameFails)

/-- The changes that are not recorded: those of a manifest's temporary file, and what a failing
write leaves. -/
def unrecorded (operation : FileOperation) (path : FilePath) (answers : Answers) :
    List (FilePath × Option FileContent) :=
  if answers.createFails.isSome then []
  else if isManifestPath operation.path then
    let tempPath := withExtension path "toml.tmp"
    match answers.writeFails with
    | some .untouched => []
    | some (.written bytes) => [(tempPath, some (operation.content.take bytes))]
    | none =>
      if answers.renameFails then [(tempPath, some operation.content)]
      else [(tempPath, some operation.content), (tempPath, none)]
  else
    match answers.writeFails with
    | some (.written bytes) => [(path, some (operation.content.take bytes))]
    | _ => []

variable {operation : FileOperation} {path : FilePath} {disk : Disk}
  {calls : List (FileOperation × Answers)}

theorem readPrevious_ok {answers : Answers} (reads : readable path answers disk = true) :
    readPrevious root operation path answers disk = .ok (disk.files path) := by
  rw [readable, Bool.or_eq_true] at reads
  rw [readPrevious]
  by_cases present : disk.exists? path = true
  · rw [if_pos present]
    rw [present] at reads
    have held := reads.resolve_left (by decide)
    rw [Bool.and_eq_true, Option.isSome_iff_exists, Bool.not_eq_true'] at held
    obtain ⟨⟨content, file⟩, answer⟩ := held
    rw [file, answer]
  · rw [if_neg present]
    rw [Disk.exists?, Bool.or_eq_true, not_or, Bool.not_eq_true, Option.isSome_eq_false_iff,
      Option.isNone_iff_eq_none] at present
    rw [present.1]

theorem readPrevious_error {answers : Answers} (unread : readable path answers disk = false) :
    readPrevious root operation path answers disk =
      .error ("failed to read " ++ displayBelow root operation.path) := by
  rw [readable, Bool.or_eq_false_iff, Bool.not_eq_false'] at unread
  rw [readPrevious, if_pos unread.1]
  split
  · rename_i file answer
    rw [file, answer] at unread
    exact absurd unread.2 (by simp)
  · rfl

/-- What one operation's write does: it ends well exactly when none of its calls fails, and then
taking back its recorded change leaves the unrecorded ones; a failing one makes only those. -/
structure WriteSpec (operation : FileOperation) (path : FilePath) (answers : Answers)
    (disk : Disk) (outcome : Outcome) : Prop where
  files : outcome.disk.files = applied disk.files outcome.changes
  ends : outcome.result = .ok () ↔ goesThrough operation answers = true
  through : goesThrough operation answers = true →
    Function.update (applied disk.files outcome.changes) path (disk.files path) =
      applied disk.files (unrecorded operation path answers)
  failed : goesThrough operation answers = false →
    outcome.changes = unrecorded operation path answers
  elsewhere : ∀ change, change.1 ≠ path →
    (change ∈ outcome.changes ↔ change ∈ unrecorded operation path answers)

theorem manifest_name {path : RelativePath} (manifest : isManifestPath path = true) :
    path.getLast? = some (.normal "ddd.toml") := by
  rw [isManifestPath] at manifest
  split at manifest
  · rename_i name last
    rw [last, beq_iff_eq.mp manifest]
  · cases manifest

/-- The temporary file lies beside the manifest. -/
theorem tempPath_ne (joined : containedJoin operation.path = .ok path)
    (manifest : isManifestPath operation.path = true) : withExtension path "toml.tmp" ≠ path := by
  have last := manifest_name manifest
  have nonempty : operation.path ≠ [] := by
    intro empty
    rw [empty] at last
    cases last
  rw [containedJoin, if_neg nonempty] at joined
  obtain ⟨front, whole⟩ : ∃ front, operation.path = front ++ [.normal "ddd.toml"] := by
    refine ⟨operation.path.dropLast, ?_⟩
    rw [List.getLast?_eq_some_getLast nonempty, Option.some_inj] at last
    rw [← last, List.dropLast_append_getLast]
  have names : path = front.filterMap Component.name? ++ ["ddd.toml"] := by
    cases checked : checkComponents operation.path operation.path with
    | error error =>
      rw [checked] at joined
      cases joined
    | ok passed =>
      rw [checked] at joined
      rw [← Except.ok.inj joined, whole, List.filterMap_append]
      rfl
  rw [names, withExtension, List.getLast?_concat]
  intro same
  have tail := congrArg List.getLast? same
  rw [List.getLast?_concat, List.getLast?_concat] at tail
  exact absurd tail (by decide)

section Write

variable {root} {operation : FileOperation} {path : FilePath} {answers : Answers} {disk : Disk}

theorem WriteSpec.of_failed {error : String} {changes : List (FilePath × Option FileContent)}
    {after : Disk} (stops : goesThrough operation answers = false)
    (stray : changes = unrecorded operation path answers)
    (files : after.files = applied disk.files changes) :
    WriteSpec operation path answers disk ⟨.error error, changes, after⟩ where
  files := files
  ends := iff_of_false (by simp) (by simp [stops])
  through := fun goes => absurd (stops.symm.trans goes) (by decide)
  failed := fun _ => stray
  elsewhere := fun change _ => by rw [stray]

theorem writeFile_spec (plain : isManifestPath operation.path = false) :
    WriteSpec operation path answers disk (writeFile root operation path answers disk) := by
  obtain ⟨readFails, createFails, writeFails, renameFails⟩ := answers
  cases createFails with
  | some count => exact .of_failed rfl rfl rfl
  | none =>
    cases writeFails with
    | some leftover =>
      cases leftover with
      | untouched => exact .of_failed rfl (by simp [unrecorded, plain]) rfl
      | written bytes => exact .of_failed rfl (by simp [unrecorded, plain]) rfl
    | none =>
      have goes : goesThrough operation ⟨readFails, none, none, renameFails⟩ = true := by
        simp [goesThrough, plain]
      have stray : unrecorded operation path ⟨readFails, none, none, renameFails⟩ = [] := by
        simp [unrecorded, plain]
      constructor
      · rfl
      · exact iff_of_true rfl goes
      · intro _
        rw [stray]
        show Function.update (Function.update disk.files path _) path _ = disk.files
        rw [Function.update_idem, Function.update_eq_self]
      · exact fun stops => absurd (stops.symm.trans goes) (by decide)
      · intro change other
        rw [stray]
        show change ∈ [(path, some operation.content)] ↔ change ∈ []
        rw [List.mem_singleton]
        exact iff_of_false (fun same => other (congrArg Prod.fst same)) List.not_mem_nil

theorem writeManifestAtomically_spec (manifest : isManifestPath operation.path = true)
    (beside : withExtension path "toml.tmp" ≠ path) :
    WriteSpec operation path answers disk
      (writeManifestAtomically root operation path answers disk) := by
  obtain ⟨readFails, createFails, writeFails, renameFails⟩ := answers
  cases createFails with
  | some count => exact .of_failed rfl rfl rfl
  | none =>
    cases writeFails with
    | some leftover =>
      cases leftover with
      | untouched => exact .of_failed rfl (by simp [unrecorded, manifest]) rfl
      | written bytes => exact .of_failed rfl (by simp [unrecorded, manifest]) rfl
    | none =>
      cases renameFails with
      | true =>
        exact .of_failed (by simp [goesThrough, manifest])
          (by simp [unrecorded, manifest]) rfl
      | false =>
        have stray : unrecorded operation path ⟨readFails, none, none, false⟩ =
            [(withExtension path "toml.tmp", some operation.content),
              (withExtension path "toml.tmp", none)] := by
          simp [unrecorded, manifest]
        constructor
        · rfl
        · exact iff_of_true rfl (by simp [goesThrough])
        · intro _
          rw [stray]
          show Function.update (Function.update (Function.update (Function.update disk.files
            (withExtension path "toml.tmp") _) path _) (withExtension path "toml.tmp") none)
            path _ = Function.update (Function.update disk.files
            (withExtension path "toml.tmp") _) (withExtension path "toml.tmp") none
          rw [Function.update_comm beside.symm, Function.update_idem, Function.update_idem,
            Function.update_comm beside, Function.update_eq_self]
        · exact fun stops => absurd stops (by simp [goesThrough])
        · intro change other
          rw [stray]
          show change ∈ [(withExtension path "toml.tmp", some operation.content),
            (path, some operation.content), (withExtension path "toml.tmp", none)] ↔ _
          simp only [List.mem_cons, List.not_mem_nil, or_false]
          have apart : change ≠ (path, some operation.content) :=
            fun same => other (congrArg Prod.fst same)
          simp only [apart, false_or]

theorem performWrite_spec (joined : containedJoin operation.path = .ok path) :
    WriteSpec operation path answers disk (performWrite root operation path answers disk) := by
  rw [performWrite]
  split
  · rename_i manifest
    exact writeManifestAtomically_spec manifest (tempPath_ne joined manifest)
  · rename_i plain
    exact writeFile_spec (by simpa using plain)

end Write

/-- No call of the run fails. -/
@[grind =]
def completes : List (FileOperation × Answers) → Disk → Bool
  | [], _ => true
  | (operation, answers) :: calls, disk =>
    match containedJoin operation.path with
    | .error _ => false
    | .ok path =>
      readable path answers disk && goesThrough operation answers &&
        completes calls (performWrite root operation path answers disk).disk

/-- The unrecorded changes that a run makes to files which none of its earlier operations wrote. -/
@[grind =]
def strays : List (FileOperation × Answers) → Disk → List FilePath →
    List (FilePath × Option FileContent)
  | [], _, _ => []
  | (operation, answers) :: calls, disk, recorded =>
    match containedJoin operation.path with
    | .error _ => []
    | .ok path =>
      if readable path answers disk then
        (unrecorded operation path answers).filter (fun change => change.1 ∉ recorded) ++
          if goesThrough operation answers then
            strays calls (performWrite root operation path answers disk).disk
              (recorded ++ [path])
          else []
      else []

/-- Every path stays below the root. -/
def Contained (calls : List (FileOperation × Answers)) : Prop :=
  ∀ call ∈ calls, ∃ path, containedJoin call.1.path = .ok path

section Run

variable {calls : List (FileOperation × Answers)} {disk : Disk}
  {appliedWrites : List AppliedWrite} {reports : List FileOperationReport}

theorem applyLoop_ends (contained : Contained calls) :
    (∃ error, (applyLoop root false calls disk appliedWrites reports).1 = .error error) ↔
      completes root calls disk = false := by
  induction calls generalizing disk appliedWrites reports with
  | nil => exact iff_of_false (by simp [applyLoop]) (by simp [completes])
  | cons call calls ih =>
    obtain ⟨operation, answers⟩ := call
    rw [Contained, List.forall_mem_cons] at contained
    obtain ⟨⟨path, joined⟩, later⟩ := contained
    rw [applyLoop, completes]
    simp only [joined]
    cases reads : readable path answers disk with
    | false =>
      rw [readPrevious_error root reads]
      exact iff_of_true ⟨_, rfl⟩ rfl
    | true =>
      have spec : WriteSpec operation path answers disk
        (performWrite root operation path answers disk) := performWrite_spec joined
      rw [readPrevious_ok root reads]
      simp only [Bool.false_eq_true, if_false, Bool.true_and]
      cases ended : (performWrite root operation path answers disk).result with
      | ok done =>
        rw [spec.ends.mp ended, Bool.true_and]
        exact ih later
      | error error =>
        have stops : goesThrough operation answers = false := by
          rw [Bool.eq_false_iff]
          intro goes
          rw [spec.ends.mpr goes] at ended
          cases ended
        rw [stops]
        exact iff_of_true ⟨error, rfl⟩ rfl

/-- A failing run leaves its stray changes, and nothing else. -/
theorem applyLoop_files (contained : Contained calls)
    (stops : completes root calls disk = false) :
    applied disk.files (applyLoop root false calls disk appliedWrites reports).2 =
      applied (applied disk.files (undo appliedWrites))
        (strays root calls disk (appliedWrites.map Prod.fst)) := by
  induction calls generalizing disk appliedWrites reports with
  | nil => cases stops
  | cons call calls ih =>
    obtain ⟨operation, answers⟩ := call
    rw [Contained, List.forall_mem_cons] at contained
    obtain ⟨⟨path, joined⟩, later⟩ := contained
    rw [completes] at stops
    rw [applyLoop, strays]
    simp only [joined] at stops ⊢
    cases reads : readable path answers disk with
    | false =>
      rw [readPrevious_error root reads]
      rfl
    | true =>
      have spec : WriteSpec operation path answers disk
        (performWrite root operation path answers disk) := performWrite_spec joined
      have taken : applied (applied disk.files (unrecorded operation path answers))
            (undo appliedWrites) =
          applied (applied disk.files (undo appliedWrites))
            ((unrecorded operation path answers).filter
              (fun change => change.1 ∉ appliedWrites.map Prod.fst)) := by
        rw [applied_applied]
        congr 1
        refine List.filter_congr ?_
        intro change _
        simp only [mem_undo]
      rw [readPrevious_ok root reads]
      simp only [Bool.false_eq_true, if_false, if_true]
      cases goes : goesThrough operation answers with
      | true =>
        rw [reads, goes, Bool.true_and, Bool.true_and] at stops
        rw [spec.ends.mpr goes]
        show applied disk.files (_ ++ (applyLoop root false calls _ _ _).2) = _
        rw [applied_append, ← spec.files, ih later stops, applied_undo_snoc, spec.files,
          spec.through goes, taken, if_pos rfl, applied_append, List.map_append]
        rfl
      | false =>
        cases ended : (performWrite root operation path answers disk).result with
        | ok done =>
          rw [spec.ends.mp ended] at goes
          cases goes
        | error error =>
          show applied disk.files (_ ++ rollbackApplied appliedWrites) = _
          rw [applied_append, spec.failed goes, rollbackApplied, taken]
          simp

/-- At a file that no operation names, a run makes its stray changes and no others. -/
theorem applyLoop_elsewhere {change : FilePath × Option FileContent}
    (contained : Contained calls)
    (unnamed : ∀ call ∈ calls, containedJoin call.1.path ≠ .ok change.1)
    (unwritten : change.1 ∉ appliedWrites.map Prod.fst) :
    change ∈ (applyLoop root false calls disk appliedWrites reports).2 ↔
      change ∈ strays root calls disk (appliedWrites.map Prod.fst) := by
  have rolled : change ∉ rollbackApplied appliedWrites := by
    intro member
    exact unwritten (mem_undo.mp (List.mem_map_of_mem member))
  induction calls generalizing disk appliedWrites reports with
  | nil => exact iff_of_false (by simp [applyLoop]) (by simp [strays])
  | cons call calls ih =>
    obtain ⟨operation, answers⟩ := call
    rw [Contained, List.forall_mem_cons] at contained
    obtain ⟨⟨path, joined⟩, later⟩ := contained
    rw [List.forall_mem_cons] at unnamed
    rw [applyLoop, strays]
    simp only [joined]
    cases reads : readable path answers disk with
    | false =>
      rw [readPrevious_error root reads]
      exact iff_of_false rolled (by simp)
    | true =>
      have spec : WriteSpec operation path answers disk
        (performWrite root operation path answers disk) := performWrite_spec joined
      have other : change.1 ≠ path := by
        intro same
        exact unnamed.1 (joined.trans (congrArg Except.ok same.symm))
      have stray : change ∈ (unrecorded operation path answers).filter
            (fun change => change.1 ∉ appliedWrites.map Prod.fst) ↔
          change ∈ (performWrite root operation path answers disk).changes := by
        rw [spec.elsewhere change other, List.mem_filter]
        simp [unwritten]
      rw [readPrevious_ok root reads]
      simp only [Bool.false_eq_true, if_false, if_true]
      rw [List.mem_append, stray]
      cases ended : (performWrite root operation path answers disk).result with
      | ok done =>
        have grown : change.1 ∉ (appliedWrites ++ [(path, disk.files path)]).map Prod.fst := by
          rw [List.map_append, List.mem_append, not_or]
          exact ⟨unwritten, by simpa using other⟩
        have rest := @ih (performWrite root operation path answers disk).disk
          (appliedWrites ++ [(path, disk.files path)])
          (reports ++ [report operation (disk.exists? path)]) later unnamed.2 grown
          (fun member => grown (mem_undo.mp (List.mem_map_of_mem member)))
        rw [List.map_append] at rest
        rw [spec.ends.mp ended, if_pos rfl]
        show change ∈ _ ++ (applyLoop root false calls _ _ _).2 ↔ _
        rw [List.mem_append]
        exact or_congr Iff.rfl rest
      | error error =>
        have stops : goesThrough operation answers = false := by
          rw [Bool.eq_false_iff]
          intro goes
          rw [spec.ends.mpr goes] at ended
          cases ended
        rw [stops]
        show change ∈ _ ++ rollbackApplied appliedWrites ↔ _
        rw [List.mem_append]
        simp [rolled]

end Run

section Whole

variable (calls : List (FileOperation × Answers)) (dryRun force : Bool) (disk : Disk)

/-- After an error every file is as before. -/
def AllOrNothing : Prop :=
  ∀ error, (applyOperations root calls dryRun force disk).1 = .error error →
    (disk.change (applyOperations root calls dryRun force disk).2).files = disk.files

/-- No operation on the path is marked to overwrite. -/
def Unmarked (path : FilePath) : Prop :=
  ∀ call ∈ calls, containedJoin call.1.path = .ok path → call.1.overwrite = false

/-- Without `--force`, a file that was there and is not marked holds its content throughout. -/
def KeepsUnmarked : Prop :=
  force = false → ∀ path content, disk.files path = some content → Unmarked calls path →
    ∀ early, early <+: (applyOperations root calls dryRun force disk).2 →
      (disk.change early).files path = some content

/-- The operations are refused before anything is written, or nothing is to be written. -/
def WritesNothing : Prop :=
  dryRun = true ∨ validateOperations root force disk (calls.map Prod.fst) ≠ .ok ()

end Whole

theorem validateOperations_ok {force : Bool} {operations : List FileOperation} :
    validateOperations root force disk operations = .ok () ↔
      ∀ operation ∈ operations, ∃ path, containedJoin operation.path = .ok path ∧
        (disk.exists? path = true → operation.overwrite = true ∨ force = true) := by
  induction operations with
  | nil => exact iff_of_true rfl (by simp)
  | cons operation operations ih =>
    rw [validateOperations, List.forall_mem_cons]
    cases joined : containedJoin operation.path with
    | error error => exact iff_of_false (by simp) (by simp)
    | ok path =>
      simp only [Except.ok.injEq, exists_eq_left']
      split
      · rename_i refused
        exact iff_of_false (by simp) (by simp [refused])
      · rename_i passed
        rw [ih, iff_and_self]
        intro _ present
        by_contra neither
        rw [not_or] at neither
        exact passed ⟨present, neither.1, neither.2⟩

theorem applyLoop_dryRun {reports : List FileOperationReport} :
    (applyLoop root true calls disk [] reports).2 = [] := by
  induction calls generalizing reports with
  | nil => rfl
  | cons call calls ih =>
    obtain ⟨operation, answers⟩ := call
    rw [applyLoop]
    cases containedJoin operation.path with
    | error error => rfl
    | ok path =>
      simp only
      cases readPrevious root operation path answers disk with
      | error error => rfl
      | ok previous => exact ih

theorem applyOperations_nothing {dryRun force : Bool}
    (nothing : WritesNothing root calls dryRun force disk) :
    (applyOperations root calls dryRun force disk).2 = [] := by
  rw [applyOperations]
  rcases nothing with dry | refused
  · rw [dry]
    cases validateOperations root force disk (calls.map Prod.fst) with
    | error error => rfl
    | ok passed => exact applyLoop_dryRun root
  · cases validated : validateOperations root force disk (calls.map Prod.fst) with
    | error error => rfl
    | ok passed => exact absurd validated refused

section Whole

variable {calls : List (FileOperation × Answers)} {dryRun force : Bool} {disk : Disk}

theorem applyOperations_writing (writing : ¬ WritesNothing root calls dryRun force disk) :
    applyOperations root calls dryRun force disk = applyLoop root false calls disk [] [] ∧
      Contained calls ∧
      ∀ call ∈ calls, ∀ path, containedJoin call.1.path = .ok path → disk.exists? path = true →
        call.1.overwrite = true ∨ force = true := by
  rw [WritesNothing, not_or, not_not, Bool.not_eq_true] at writing
  obtain ⟨wet, validated⟩ := writing
  refine ⟨?_, ?_, ?_⟩
  · rw [applyOperations, validated, wet]
  · intro call member
    obtain ⟨path, joined, -⟩ :=
      (validateOperations_ok root).mp validated call.1 (List.mem_map_of_mem member)
    exact ⟨path, joined⟩
  · intro call member path joined
    obtain ⟨other, same, allowed⟩ :=
      (validateOperations_ok root).mp validated call.1 (List.mem_map_of_mem member)
    rw [joined] at same
    rw [Except.ok.inj same]
    exact allowed

theorem allOrNothing_iff :
    AllOrNothing root calls dryRun force disk ↔
      WritesNothing root calls dryRun force disk ∨ completes root calls disk = true ∨
        applied disk.files (strays root calls disk []) = disk.files := by
  by_cases nothing : WritesNothing root calls dryRun force disk
  · refine iff_of_true ?_ (Or.inl nothing)
    intro error _
    rw [applyOperations_nothing root nothing]
    rfl
  · obtain ⟨run, contained, -⟩ := applyOperations_writing root nothing
    have ends := @applyLoop_ends root calls disk [] [] contained
    rw [AllOrNothing, run]
    simp only [nothing, false_or]
    cases completed : completes root calls disk with
    | true =>
      refine iff_of_true ?_ (Or.inl rfl)
      intro error failed
      have stops := ends.mp ⟨error, failed⟩
      rw [completed] at stops
      cases stops
    | false =>
      obtain ⟨error, failed⟩ := ends.mpr completed
      have files := @applyLoop_files root calls disk [] [] contained completed
      rw [Disk.change]
      simp only [Bool.false_eq_true, false_or]
      rw [files]
      exact ⟨fun kept => kept error failed, fun kept _ _ => kept⟩

theorem keepsUnmarked_iff :
    KeepsUnmarked root calls dryRun force disk ↔
      force = true ∨ WritesNothing root calls dryRun force disk ∨
        ∀ change ∈ strays root calls disk [], ∀ content, disk.files change.1 = some content →
          Unmarked calls change.1 → change.2 = some content := by
  cases forced : force with
  | true => exact iff_of_true (fun unforced => absurd unforced (by decide)) (Or.inl rfl)
  | false =>
    by_cases nothing : WritesNothing root calls dryRun false disk
    · refine iff_of_true ?_ (Or.inr (Or.inl nothing))
      intro _ path content held _ early opens
      rw [applyOperations_nothing root nothing, List.prefix_nil] at opens
      rw [opens]
      exact held
    · obtain ⟨run, contained, allowed⟩ := applyOperations_writing root nothing
      rw [KeepsUnmarked, run]
      simp only [nothing, Bool.false_eq_true, false_or, true_implies]
      have same : ∀ change content, disk.files change.1 = some content →
          Unmarked calls change.1 →
          (change ∈ (applyLoop root false calls disk [] []).2 ↔
            change ∈ strays root calls disk []) := by
        intro change content held unmarked
        refine applyLoop_elsewhere root contained ?_ List.not_mem_nil
        intro call member joined
        have present : disk.exists? change.1 = true := by rw [Disk.exists?, held]; rfl
        have marked := allowed call member change.1 joined present
        rw [unmarked call member joined] at marked
        exact absurd marked (by decide)
      constructor
      · intro kept change stray content held unmarked
        have whole := kept change.1 content held unmarked
        simp only [Disk.change, ← held] at whole
        rw [← held]
        exact unchanged_iff.mp whole change ((same change content held unmarked).mpr stray) rfl
      · intro kept path content held unmarked
        simp only [Disk.change, ← held]
        refine unchanged_iff.mpr ?_
        intro change member at_path
        subst at_path
        rw [held]
        exact kept change ((same change content held unmarked).mp member) content held unmarked

end Whole

/-- When the writes are all or nothing, and when no unmarked file is ever changed: on the changes
that are not recorded. -/
theorem applyOperations_exact (calls : List (FileOperation × Answers)) (dryRun force : Bool)
    (disk : Disk) :
    (AllOrNothing root calls dryRun force disk ↔
      WritesNothing root calls dryRun force disk ∨ completes root calls disk = true ∨
        applied disk.files (strays root calls disk []) = disk.files) ∧
    (KeepsUnmarked root calls dryRun force disk ↔
      force = true ∨ WritesNothing root calls dryRun force disk ∨
        ∀ change ∈ strays root calls disk [], ∀ content, disk.files change.1 = some content →
          Unmarked calls change.1 → change.2 = some content) :=
  ⟨allOrNothing_iff root, keepsUnmarked_iff root⟩

/-- A failing write leaves its file behind, and the manifest's temporary file replaces one that no
operation names. -/
theorem failedWrite_stays :
    ¬ AllOrNothing "project"
        [(⟨[.normal "lib.rs"], [0x61, 0x62], false, "new module"⟩,
          ⟨false, none, some (.written 1), false⟩)]
        false false ⟨fun _ => none, fun path => path == []⟩ ∧
    ¬ KeepsUnmarked "project"
        [(⟨[.normal "ddd.toml"], [0x61], true, "update project manifest"⟩,
          ⟨false, none, none, false⟩)]
        false false
        ⟨fun path => if path = ["ddd.toml.tmp"] then some [0x62] else none,
          fun path => path == []⟩ := by
  constructor
  · intro kept
    have files := kept ("failed to write " ++ displayBelow "project" [.normal "lib.rs"]) (by rfl)
    have leftover := congrFun files ["lib.rs"]
    exact absurd leftover (by decide)
  · intro kept
    have unmarked : Unmarked
        [(⟨[.normal "ddd.toml"], [0x61], true, "update project manifest"⟩,
          ⟨false, none, none, false⟩)] ["ddd.toml.tmp"] := by
      intro call member joined
      rw [List.mem_singleton] at member
      rw [member] at joined
      exact absurd (Except.ok.inj joined) (by decide)
    have held := kept rfl ["ddd.toml.tmp"] [0x62] (by decide) unmarked _ List.prefix_rfl
    exact absurd held (by decide)

end DddCqrsEs
