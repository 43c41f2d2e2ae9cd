import DddCqrsEs.FileOperations
import DddCqrsEs.FileTree

/- The writes of the `ddd` command line in a tree that has symbolic links, and the places that
they touch. -/
namespace DddCqrsEs.DddCli.LinkedFiles

open FileTree

structure AppliedWrite where
  path : FilePath
  previous : Option FileContent

/-- How a part of the call ends, with the tree behind it and the places it has touched. -/
structure Outcome (α : Type) where
  result : Except String α
  tree : Tree
  touched : List Location

def fileName (path : FilePath) : String := path.getLast?.getD ""

section Calls

variable (shown : String) (root : Location)

def readPrevious (operation : FileOperation) (path : FilePath) (tree : Tree) :
    Outcome (Option FileContent) :=
  if tree.exists? root path then
    let previous := FileTree.read root tree path
    match previous.result with
    | some content => ⟨.ok (some content), tree, previous.touched⟩
    | none =>
      ⟨.error ("failed to read " ++ displayBelow shown operation.path), tree, previous.touched⟩
  else ⟨.ok none, tree, []⟩

def writeManifestAtomically (operation : FileOperation) (path : FilePath) (tree : Tree) :
    Outcome Unit :=
  let created := FileTree.createDirAll root tree path.dropLast.reverse
  match created.result with
  | none =>
    ⟨.error ("failed to create " ++ displayBelow shown operation.path.dropLast), created.tree,
      created.touched⟩
  | some () =>
    let tempPath := withExtension path "toml.tmp"
    let written := write root created.tree tempPath operation.content
    match written.result with
    | none =>
      ⟨.error ("failed to write " ++ displayBelow shown operation.path ++ ".tmp"),
        written.tree, created.touched ++ written.touched⟩
    | some () =>
      let renamed := rename root written.tree path.dropLast (fileName tempPath) (fileName path)
      ⟨match renamed.result with
        | some () => .ok ()
        | none => .error ("failed to replace " ++ displayBelow shown operation.path ++
            " with " ++ displayBelow shown operation.path ++ ".tmp"),
        renamed.tree, created.touched ++ written.touched ++ renamed.touched⟩

def writeFile (operation : FileOperation) (path : FilePath) (tree : Tree) : Outcome Unit :=
  let created := FileTree.createDirAll root tree path.dropLast.reverse
  match created.result with
  | none =>
    ⟨.error ("failed to create " ++ displayBelow shown operation.path.dropLast), created.tree,
      created.touched⟩
  | some () =>
    let written := write root created.tree path operation.content
    ⟨match written.result with
      | some () => .ok ()
      | none => .error ("failed to write " ++ displayBelow shown operation.path),
      written.tree, created.touched ++ written.touched⟩

/-- One operation: its answer is what the file held before. -/
def perform (dryRun : Bool) (operation : FileOperation) (path : FilePath) (tree : Tree) :
    Outcome (Option FileContent) :=
  let previous := readPrevious shown root operation path tree
  match previous.result with
  | .error error => ⟨.error error, tree, previous.touched⟩
  | .ok content =>
    if dryRun then ⟨.ok content, tree, previous.touched⟩
    else
      let outcome :=
        if isManifestPath operation.path then
          writeManifestAtomically shown root operation path tree
        else writeFile shown root operation path tree
      ⟨outcome.result.map fun _ => content, outcome.tree, previous.touched ++ outcome.touched⟩

/-- What was there is written back, or the file removed; errors are passed over. -/
def takeBack (applied : AppliedWrite) (tree : Tree) : Done Unit :=
  match applied.previous with
  | some content => write root tree applied.path content
  | none => removeFile root tree applied.path.dropLast (fileName applied.path)

inductive Move
  | perform (operation : FileOperation) (path : FilePath)
  | takeBack (applied : AppliedWrite)

/-- A move of the run, with the tree before it. -/
structure Turn where
  tree : Tree
  move : Move

/-- The writes are taken back in this order. -/
def rollbackApplied : List AppliedWrite → Tree → List Turn
  | [], _ => []
  | applied :: rest, tree =>
    ⟨tree, .takeBack applied⟩ :: rollbackApplied rest (takeBack root applied tree).tree

def validateOperations (force : Bool) (tree : Tree) : List FileOperation → Except String Unit
  | [] => .ok ()
  | operation :: operations =>
    match containedJoin operation.path with
    | .error error => .error error
    | .ok path =>
      if tree.exists? root path ∧ ¬ operation.overwrite ∧ ¬ force then
        .error (displayBelow shown operation.path ++
          " already exists; rerun with --force to overwrite")
      else validateOperations force tree operations

/-- The loop, with the moves it makes. -/
def applyLoop (dryRun : Bool) :
    List FileOperation → Tree → List AppliedWrite → List FileOperationReport →
      Except String (List FileOperationReport) × List Turn
  | [], _, _, reports => (.ok reports, [])
  | operation :: operations, tree, appliedWrites, reports =>
    match containedJoin operation.path with
    | .error error => (.error error, [])
    | .ok path =>
      let outcome := perform shown root dryRun operation path tree
      match outcome.result with
      | .error error =>
        (.error error, ⟨tree, .perform operation path⟩ ::
          rollbackApplied root appliedWrites.reverse outcome.tree)
      | .ok previous =>
        let appliedWrites :=
          if dryRun then appliedWrites else appliedWrites ++ [⟨path, previous⟩]
        let rest := applyLoop dryRun operations outcome.tree appliedWrites
          (reports ++ [report operation (tree.exists? root path)])
        (rest.1, ⟨tree, .perform operation path⟩ :: rest.2)

def applyOperations (operations : List FileOperation) (dryRun force : Bool) (tree : Tree) :
    Except String (List FileOperationReport) × List Turn :=
  match validateOperations shown root force tree operations with
  | .error error => (.error error, [])
  | .ok () => applyLoop shown root dryRun operations tree [] []

/-- The places at which a move creates, changes or reads something. -/
def Turn.touched (dryRun : Bool) (turn : Turn) : List Location :=
  match turn.move with
  | .perform operation path => (perform shown root dryRun operation path turn.tree).touched
  | .takeBack applied => (takeBack root applied turn.tree).touched

/-- Nothing outside the root is created, changed or read. -/
def StaysInside (dryRun : Bool) (run : Except String (List FileOperationReport) × List Turn) :
    Prop :=
  ∀ turn ∈ run.2, ∀ place ∈ turn.touched shown root dryRun, root <+: place

end Calls

section Leads

variable (root : Location)

/-- The places that the writes of an operation come to: those of the file, or of the manifest's
temporary file and of the two entries of its directory. -/
def lands (operation : FileOperation) (path : FilePath) (tree : Tree) : List Location :=
  if isManifestPath operation.path then
    let tempName := fileName (withExtension path "toml.tmp")
    match tree.landing root path.dropLast tempName, tree.home root path.dropLast.reverse with
    | some place, some (parent, missing) =>
      [place, parent ++ missing ++ [tempName], parent ++ missing ++ [fileName path]]
    | _, _ => []
  else (tree.landing root path.dropLast (fileName path)).toList

/-- What the path leads to is a file, or is not there. -/
def readable (path : FilePath) (tree : Tree) : Bool :=
  ! tree.exists? root path || (FileTree.read root tree path).result.isSome

/-- Links followed, the paths of the move lead to places under the root. -/
def Turn.Inside (dryRun : Bool) (turn : Turn) : Prop :=
  match turn.move with
  | .perform operation path =>
    (∀ place, turn.tree.follow root path = some place → turn.tree.nodes place ≠ none →
      root <+: place) ∧
    (dryRun = false → readable root path turn.tree = true →
      ∀ place ∈ lands root operation path turn.tree, root <+: place)
  | .takeBack ⟨path, some _⟩ =>
    ∀ place, turn.tree.target root path = some place → root <+: place
  | .takeBack ⟨path, none⟩ =>
    ∀ parent, turn.tree.follow root path.dropLast = some parent →
      turn.tree.nodes (parent ++ [fileName path]) ≠ none →
      turn.tree.nodes (parent ++ [fileName path]) ≠ some .directory →
      root <+: parent ++ [fileName path]

end Leads

variable {path : FilePath}

theorem path_split (nonempty : path ≠ []) : path.dropLast ++ [fileName path] = path := by
  rw [fileName, List.getLast?_eq_some_getLast nonempty, Option.getD_some,
    List.dropLast_append_getLast]

theorem withExtension_split (nonempty : path ≠ []) (extension : String) :
    withExtension path extension = path.dropLast ++ [fileName (withExtension path extension)] := by
  have named : ∃ name, withExtension path extension = path.dropLast ++ [name] := by
    rw [withExtension, List.getLast?_eq_some_getLast nonempty]
    exact ⟨_, rfl⟩
  obtain ⟨name, whole⟩ := named
  rw [whole, fileName, List.getLast?_concat, Option.getD_some]

section Moves

variable {shown : String} {root : Location} {operation : FileOperation} {path : FilePath}
  {tree : Tree}

theorem exists?_eq : tree.exists? root path = true ↔
    ∃ place, tree.follow root path = some place ∧ tree.nodes place ≠ none := by
  rw [Tree.exists?]
  cases tree.follow root path with
  | none => simp
  | some place => simp [Option.isSome_iff_ne_none]

theorem mem_readPrevious_touched {entry : Location} :
    entry ∈ (readPrevious shown root operation path tree).touched ↔
      tree.follow root path = some entry ∧ tree.nodes entry ≠ none := by
  rw [readPrevious]
  split
  · rename_i present
    obtain ⟨place, leads, held⟩ := exists?_eq.mp present
    have opened : (FileTree.read root tree path).touched = [place] := by
      rw [FileTree.read, leads]
      simp only
      split
      · rename_i none
        exact absurd none held
      · rfl
      · rfl
    have same : entry ∈ [place] ↔ tree.follow root path = some entry ∧ tree.nodes entry ≠ none := by
      rw [List.mem_singleton, leads, Option.some_inj]
      constructor
      · rintro rfl
        exact ⟨rfl, held⟩
      · exact fun both => both.1.symm
    simp only
    split
    · rw [opened, same]
    · rw [opened, same]
  · rename_i absent
    refine iff_of_false List.not_mem_nil ?_
    rintro ⟨leads, held⟩
    exact absent (exists?_eq.mpr ⟨entry, leads, held⟩)

theorem readPrevious_result :
    (∃ content, (readPrevious shown root operation path tree).result = .ok content) ↔
      readable root path tree = true := by
  rw [readPrevious, readable]
  cases present : tree.exists? root path with
  | false => simp
  | true =>
    cases held : (FileTree.read root tree path).result with
    | none => simp [held]
    | some content => simp [held]

variable {place : Location} {dryRun : Bool} {applied : AppliedWrite}
  {operations : List FileOperation}

/-- A directory cannot be read. -/
theorem not_directory_of_readable (reads : readable root path tree = true)
    (leads : tree.follow root path = some place) : tree.nodes place ≠ some .directory := by
  intro directory
  have present : tree.exists? root path = true :=
    exists?_eq.mpr ⟨place, leads, by simp [directory]⟩
  rw [readable, present, FileTree.read, leads] at reads
  simp [directory] at reads

theorem ne_nil_of_readable (directory : tree.nodes root = some .directory)
    (reads : readable root path tree = true) : path ≠ [] := by
  rintro rfl
  exact not_directory_of_readable reads (Tree.walk_nil _ root) directory

theorem writeFile_under (directory : tree.nodes root = some .directory)
    (reads : readable root path tree = true) :
    (∀ entry ∈ (writeFile shown root operation path tree).touched, root <+: entry) ↔
      ∀ entry ∈ (tree.landing root path.dropLast (fileName path)).toList, root <+: entry := by
  have split := path_split (ne_nil_of_readable directory reads)
  rw [writeFile]
  cases lands : tree.landing root path.dropLast (fileName path) with
  | none =>
    rcases landing_none directory lands with failed | ⟨created, touched, same, target⟩
    · simp [failed]
    · rw [split] at target
      simp [created, touched, same, write_none target]
  | some place =>
    obtain ⟨parent, missing, -, prepared, target, under⟩ := landing_some directory lands
    rw [split] at target
    have landed := write_landed operation.content (prepared.grown.directory directory) target
    simp only [prepared.result, landed.touched, prepared.touched, Option.toList_some,
      List.mem_append, List.mem_singleton, or_imp, forall_and, forall_eq]
    exact ⟨And.right, fun inside => ⟨under inside, inside⟩⟩

/-- The temporary file is there for the rename, and the manifest is no directory. -/
theorem rename_after_write {above missing : List String} {tempName name : String}
    {parent : Location} {content : FileContent} {created : Done Unit}
    (reads : readable root (above ++ [name]) tree = true) (names : tempName ≠ name)
    (prepared : Prepared root tree above.reverse parent missing created)
    (target : created.tree.target root (above ++ [tempName]) = some place)
    (landed : Landed created.tree content place
      (write root created.tree (above ++ [tempName]) content)) :
    (rename root (write root created.tree (above ++ [tempName]) content).tree above tempName
      name).touched = [parent ++ missing ++ [tempName], parent ++ missing ++ [name]] := by
  have leads := prepared.leads
  rw [List.reverse_reverse] at leads
  have follows := landed.grown.follow leads (by simp [prepared.directory])
  obtain ⟨reached, leaf⟩ := Tree.target_eq_some.mp target
  have held : ∃ node, (write root created.tree (above ++ [tempName]) content).tree.nodes
      (parent ++ missing ++ [tempName]) = some node ∧ node ≠ .directory := by
    rw [landed.nodes]
    by_cases same : parent ++ missing ++ [tempName] = place
    · rw [same, Function.update_self]
      exact ⟨_, rfl, by simp⟩
    · -- The write has followed a link, which is still there.
      rw [Function.update_of_ne same]
      have entry : ¬ (created.tree.nodes (parent ++ missing ++ [tempName]) = none ∨
          created.tree.nodes (parent ++ missing ++ [tempName]) = some .directory) := by
        intro plain
        have direct := Tree.follow_concat leads prepared.directory plain
        rw [reached, Option.some_inj] at direct
        exact same direct.symm
      rw [not_or] at entry
      obtain ⟨node, held⟩ := Option.ne_none_iff_exists'.mp entry.1
      refine ⟨node, held, ?_⟩
      rintro rfl
      exact entry.2 held
  have free : (write root created.tree (above ++ [tempName]) content).tree.nodes
      (parent ++ missing ++ [name]) ≠ some .directory := by
    rw [landed.nodes]
    by_cases same : parent ++ missing ++ [name] = place
    · rw [same, Function.update_self]
      simp
    · rw [Function.update_of_ne same]
      by_cases stood : missing = []
      · have untouched := prepared.same stood
        rw [untouched] at leads ⊢
        have directory := prepared.directory
        rw [untouched] at directory
        intro occupied
        exact not_directory_of_readable reads
          (Tree.follow_concat leads directory (Or.inr occupied)) occupied
      · exact Tree.ne_directory (prepared.fresh stood name)
  obtain ⟨node, entry, file⟩ := held
  exact rename_touched follows (landed.grown.directory prepared.directory) entry file free names

theorem writeManifest_under (directory : tree.nodes root = some .directory)
    (reads : readable root path tree = true) (manifest : isManifestPath operation.path = true)
    (other : withExtension path "toml.tmp" ≠ path) :
    (∀ entry ∈ (writeManifestAtomically shown root operation path tree).touched,
      root <+: entry) ↔ ∀ entry ∈ lands root operation path tree, root <+: entry := by
  have nonempty := ne_nil_of_readable directory reads
  have split := path_split nonempty
  have tempSplit := withExtension_split nonempty "toml.tmp"
  rw [writeManifestAtomically, lands, if_pos manifest]
  generalize tempNamed : fileName (withExtension path "toml.tmp") = tempName at tempSplit
  rw [tempSplit] at other ⊢
  generalize named : fileName path = name at split
  generalize path.dropLast = above at *
  have names : tempName ≠ name := by
    rintro rfl
    exact other split
  have tempFile : fileName (above ++ [tempName]) = tempName := by
    rw [fileName, List.getLast?_concat, Option.getD_some]
  simp only [tempFile]
  cases lands : tree.landing root above tempName with
  | none =>
    rcases landing_none directory lands with failed | ⟨created, touched, same, target⟩
    · simp [failed]
    · simp [created, touched, same, write_none target]
  | some place =>
    obtain ⟨parent, missing, home, prepared, target, under⟩ := landing_some directory lands
    have landed := write_landed operation.content (prepared.grown.directory directory) target
    have renamed : (rename root (write root (FileTree.createDirAll root tree above.reverse).tree
        (above ++ [tempName]) operation.content).tree above tempName name).touched =
        [parent ++ missing ++ [tempName], parent ++ missing ++ [name]] :=
      rename_after_write (split ▸ reads) names prepared target landed
    rw [home]
    simp only [prepared.result, landed.result, landed.touched, prepared.touched, renamed,
      List.mem_append, List.mem_cons, List.not_mem_nil, or_false, or_imp, forall_and, forall_eq]
    constructor
    · rintro ⟨⟨-, inside⟩, entries⟩
      exact ⟨inside, entries⟩
    · rintro ⟨inside, entries⟩
      exact ⟨⟨under inside, inside⟩, entries⟩

theorem perform_under (directory : tree.nodes root = some .directory)
    (joined : containedJoin operation.path = .ok path) :
    (∀ entry ∈ (perform shown root dryRun operation path tree).touched, root <+: entry) ↔
      (⟨tree, .perform operation path⟩ : Turn).Inside root dryRun := by
  have opened : (∀ entry ∈ (readPrevious shown root operation path tree).touched,
      root <+: entry) ↔ ∀ place, tree.follow root path = some place →
        tree.nodes place ≠ none → root <+: place := by
    simp only [mem_readPrevious_touched, and_imp]
  have reads := @readPrevious_result shown root operation path tree
  rw [Turn.Inside, perform]
  simp only
  rw [← opened]
  cases result : (readPrevious shown root operation path tree).result with
  | error error =>
    rw [result] at reads
    have unreadable : ¬ readable root path tree = true := by
      rw [← reads]
      simp
    simp [unreadable]
  | ok content =>
    rw [result] at reads
    have readable : readable root path tree = true := reads.mp ⟨content, rfl⟩
    cases dryRun with
    | true => simp
    | false =>
      simp only [Bool.false_eq_true, if_false, true_implies, readable, List.forall_mem_append]
      refine and_congr_right fun _ => ?_
      by_cases manifest : isManifestPath operation.path = true
      · rw [if_pos manifest]
        exact writeManifest_under directory readable manifest (tempPath_ne joined manifest)
      · rw [if_neg manifest, lands, if_neg manifest]
        exact writeFile_under directory readable

theorem takeBack_under (directory : tree.nodes root = some .directory) :
    (∀ entry ∈ (takeBack root applied tree).touched, root <+: entry) ↔
      (⟨tree, .takeBack applied⟩ : Turn).Inside root dryRun := by
  obtain ⟨path, previous⟩ := applied
  rw [takeBack]
  cases previous with
  | none =>
    simp only [Turn.Inside, mem_removeFile_touched]
    constructor
    · intro inside parent leads present leaf
      exact inside _ ⟨parent, leads, rfl, present, leaf⟩
    · rintro inside _ ⟨parent, leads, rfl, present, leaf⟩
      exact inside parent leads present leaf
  | some content =>
    simp only [Turn.Inside]
    cases target : tree.target root path with
    | none => simp [write_none target]
    | some place => simp [(write_landed content directory target).touched]

theorem writeFile_edited : tree.Edited (writeFile shown root operation path tree).tree := by
  rw [writeFile]
  simp only
  split
  · exact createDirAll_edited _
  · exact (createDirAll_edited _).trans (write_edited _ _)

theorem writeManifest_edited :
    tree.Edited (writeManifestAtomically shown root operation path tree).tree := by
  rw [writeManifestAtomically]
  simp only
  split
  · exact createDirAll_edited _
  · split
    · exact (createDirAll_edited _).trans (write_edited _ _)
    · exact ((createDirAll_edited _).trans (write_edited _ _)).trans (rename_edited _ _)

theorem perform_edited : tree.Edited (perform shown root dryRun operation path tree).tree := by
  rw [perform]
  simp only
  split
  · exact .refl
  · split
    · exact .refl
    · split
      · exact writeManifest_edited
      · exact writeFile_edited

theorem takeBack_edited : tree.Edited (takeBack root applied tree).tree := by
  rw [takeBack]
  split
  · exact write_edited _ _
  · exact removeFile_edited

/-- The trees of a run are made from the first one, and its paths are joined ones. -/
def Turn.Sound (first : Tree) (turn : Turn) : Prop :=
  first.Edited turn.tree ∧ ∀ operation path, turn.move = .perform operation path →
    containedJoin operation.path = .ok path

theorem Turn.touched_under {turn : Turn} (sound : turn.Sound tree)
    (directory : tree.nodes root = some .directory) :
    (∀ place ∈ turn.touched shown root dryRun, root <+: place) ↔ turn.Inside root dryRun := by
  have held := sound.1.directory directory
  obtain ⟨after, move⟩ := turn
  cases move with
  | perform operation path => exact perform_under held (sound.2 operation path rfl)
  | takeBack applied => exact takeBack_under held

theorem rollbackApplied_sound {applied : List AppliedWrite} {first : Tree}
    (edited : first.Edited tree) :
    ∀ turn ∈ rollbackApplied root applied tree, turn.Sound first := by
  induction applied generalizing tree with
  | nil => simp [rollbackApplied]
  | cons write applied ih =>
    rw [rollbackApplied, List.forall_mem_cons]
    refine ⟨⟨edited, ?_⟩, ih (edited.trans takeBack_edited)⟩
    intro operation path impossible
    cases impossible

theorem applyLoop_sound {applied : List AppliedWrite} {reports : List FileOperationReport}
    {first : Tree} (edited : first.Edited tree) :
    ∀ turn ∈ (applyLoop shown root dryRun operations tree applied reports).2, turn.Sound first := by
  induction operations generalizing tree applied reports with
  | nil => simp [applyLoop]
  | cons operation operations ih =>
    rw [applyLoop]
    cases joined : containedJoin operation.path with
    | error error => simp
    | ok path =>
      have after : first.Edited (perform shown root dryRun operation path tree).tree :=
        edited.trans perform_edited
      have here : (⟨tree, .perform operation path⟩ : Turn).Sound first := by
        refine ⟨edited, fun other otherPath same => ?_⟩
        cases same
        exact joined
      simp only
      split
      · rw [List.forall_mem_cons]
        exact ⟨here, rollbackApplied_sound after⟩
      · rw [List.forall_mem_cons]
        exact ⟨here, ih after⟩

theorem applyOperations_sound {force : Bool} :
    ∀ turn ∈ (applyOperations shown root operations dryRun force tree).2, turn.Sound tree := by
  rw [applyOperations]
  split
  · simp
  · exact applyLoop_sound .refl

/-- Where nothing under the root is a link, no path leads out of it. -/
theorem Turn.inside_of_unlinked {turn : Turn} (sound : turn.Sound tree)
    (directory : tree.nodes root = some .directory) (unlinked : tree.Unlinked root) :
    turn.Inside root dryRun := by
  have still := sound.1.unlinked directory unlinked
  obtain ⟨after, move⟩ := turn
  cases move with
  | perform operation path =>
    refine ⟨fun place leads _ => still.follow leads, fun _ _ place member => ?_⟩
    simp only [lands] at member
    split at member
    · split at member
      · rename_i lead home
        have parent := still.home home
        simp only [List.mem_cons, List.not_mem_nil, or_false] at member
        rcases member with rfl | rfl | rfl
        · exact still.landing lead
        · rw [List.append_assoc]
          exact parent.trans (List.prefix_append _ _)
        · rw [List.append_assoc]
          exact parent.trans (List.prefix_append _ _)
      · cases member
    · rw [Option.mem_toList] at member
      exact still.landing member
  | takeBack applied =>
    obtain ⟨path, previous⟩ := applied
    cases previous with
    | none =>
      exact fun parent leads _ _ => (still.follow leads).trans (List.prefix_append _ _)
    | some content => exact fun place target => still.follow (Tree.target_eq_some.mp target).1

end Moves

/-- The check of the components is enough for trees without links. -/
theorem staysInside_of_unlinked (shown : String) {root : Location}
    (operations : List FileOperation) (dryRun force : Bool) {tree : Tree}
    (directory : tree.nodes root = some .directory) (unlinked : tree.Unlinked root) :
    StaysInside shown root dryRun (applyOperations shown root operations dryRun force tree) :=
  fun turn member => by
    have sound := applyOperations_sound turn member
    exact (Turn.touched_under sound directory).mpr
      (Turn.inside_of_unlinked sound directory unlinked)

/-- A run touches nothing outside the root exactly when, before each of its moves, the paths of the
move lead under the root with links followed. -/
theorem applyOperations_staysInside (shown : String) {root : Location}
    (operations : List FileOperation) (dryRun force : Bool) (tree : Tree)
    (directory : tree.nodes root = some .directory) :
    StaysInside shown root dryRun (applyOperations shown root operations dryRun force tree) ↔
      ∀ turn ∈ (applyOperations shown root operations dryRun force tree).2,
        turn.Inside root dryRun :=
  forall₂_congr fun turn member => Turn.touched_under (applyOperations_sound turn member) directory

def project : Location := ["project"]

def orderOperation : FileOperation :=
  ⟨[.normal "src", .normal "domain", .normal "order.rs"], [0x2f], false, "order"⟩

def plainTree : Tree := empty.set [] "project" (some .directory) (by decide) (by decide)

theorem plainTree_unlinked : plainTree.Unlinked project := by
  intro place target _
  rw [plainTree, Tree.set_nodes]
  by_cases same : place = [] ++ ["project"]
  · rw [same, Function.update_self]
    simp
  · rw [Function.update_of_ne same, empty]
    simp only
    split <;> simp

theorem staysInside_of_unlinked_plain : StaysInside "project" project false
    (applyOperations "project" project [orderOperation] false true plainTree) := by
  have directory : plainTree.nodes project = some .directory := by decide
  exact staysInside_of_unlinked "project" [orderOperation] false true directory plainTree_unlinked

theorem applyOperations_staysInside_plain : StaysInside "project" project false
    (applyOperations "project" project [orderOperation] false false plainTree) := by
  have directory : plainTree.nodes project = some .directory := by decide
  refine (applyOperations_staysInside "project" [orderOperation] false false plainTree
    directory).mpr fun turn member => ?_
  exact Turn.inside_of_unlinked (applyOperations_sound turn member) directory plainTree_unlinked

/-- The directory of the domain is a link out of the project. -/
def linkedTree : Tree :=
  (((empty.set [] "project" (some .directory) (by decide) (by decide)).set ["project"] "src"
    (some .directory) (by decide) (by decide)).set ["project", "src"] "domain"
    (some (.link ⟨true, [.down "outside"]⟩)) (by decide) (by decide)).set [] "outside"
    (some .directory) (by decide) (by decide)

/-- The file is created where the link leads. -/
theorem linkedDomain_leaves :
    ((applyOperations "project" project [orderOperation] false false linkedTree).2.map
      (Turn.touched "project" project false)) = [[["outside", "order.rs"]]] ∧
    ¬ StaysInside "project" project false
      (applyOperations "project" project [orderOperation] false false linkedTree) := by
  have touched : ((applyOperations "project" project [orderOperation] false false
      linkedTree).2.map (Turn.touched "project" project false)) = [[["outside", "order.rs"]]] := by
    decide +kernel
  refine ⟨touched, fun stays => ?_⟩
  have inside : ∀ places ∈ (applyOperations "project" project [orderOperation] false false
      linkedTree).2.map (Turn.touched "project" project false),
      ∀ place ∈ places, project <+: place := by
    rw [List.forall_mem_map]
    exact stays
  rw [touched] at inside
  have leads := inside [["outside", "order.rs"]] (by decide) ["outside", "order.rs"] (by decide)
  revert leads
  decide

end DddCqrsEs.DddCli.LinkedFiles
