import Mathlib.Data.List.Infix
import Mathlib.Tactic.TypeStar

/- Trees of files, directories and symbolic links, and the calls of a file system on them. Nothing
here names an application. -/
namespace FileTree

/-- The names from the top of the tree down, with no links left to follow. -/
abbrev Location := List String

inductive Step
  | up
  | down (name : String)
  deriving DecidableEq

structure Target where
  absolute : Bool
  steps : List Step
  deriving DecidableEq

inductive Node
  | file (content : List UInt8)
  | directory
  | link (target : Target)
  deriving DecidableEq

structure Tree where
  nodes : Location → Option Node
  top : nodes [] = some .directory
  within : ∀ place name, nodes (place ++ [name]) ≠ none → nodes place = some .directory

def empty : Tree where
  nodes := fun place => if place = [] then some .directory else none
  top := rfl
  within := fun place name present => absurd (if_neg (by simp)) present

namespace Tree

variable (tree : Tree)

/-- The steps are taken one by one; what is left of them after a link is for `follow`. The last
name need not exist. -/
@[grind =] def walkWith (follow : Location → List Step → Option Location) :
    Location → List Step → Option Location
  | place, [] => some place
  | place, .up :: steps => walkWith follow place.dropLast steps
  | place, .down name :: steps =>
    match tree.nodes (place ++ [name]) with
    | some .directory => walkWith follow (place ++ [name]) steps
    | some (.link target) =>
      follow (if target.absolute then [] else place) (target.steps ++ steps)
    | _ => if steps = [] then some (place ++ [name]) else none

@[grind =] def walk : Nat → Location → List Step → Option Location
  | 0 => tree.walkWith fun _ _ => none
  | links + 1 => tree.walkWith (walk links)

def maxLinks : Nat := 40

/-- Where the names below a place lead, links followed. -/
def follow (place : Location) (names : List String) : Option Location :=
  tree.walk maxLinks place (names.map .down)

def isDirectory (place : Location) : Bool := tree.nodes place = some .directory

/-- `Path::exists` -/
def exists? (place : Location) (names : List String) : Bool :=
  match tree.follow place names with
  | some reached => (tree.nodes reached).isSome
  | none => false

/-- `Path::is_dir` -/
def isDir (place : Location) (names : List String) : Bool :=
  match tree.follow place names with
  | some reached => tree.isDirectory reached
  | none => false

theorem children_none {place : Location} (leaf : tree.nodes place ≠ some .directory)
    (name : String) : tree.nodes (place ++ [name]) = none := by
  by_contra present
  exact leaf (tree.within place name present)

/-- The entry of a directory is replaced or removed, unless it is a directory itself. -/
def set (place : Location) (name : String) (node : Option Node)
    (parent : tree.nodes place = some .directory)
    (leaf : tree.nodes (place ++ [name]) ≠ some .directory) : Tree where
  nodes := Function.update tree.nodes (place ++ [name]) node
  top := by
    rw [Function.update_of_ne (by simp)]
    exact tree.top
  within := by
    intro other child present
    by_cases same : other ++ [child] = place ++ [name]
    · rw [(List.append_inj' same rfl).1, Function.update_of_ne (by simp)]
      exact parent
    · rw [Function.update_of_ne same] at present
      have directory := tree.within other child present
      rw [Function.update_of_ne]
      · exact directory
      · intro entry
        rw [entry] at directory
        exact leaf directory

/-- As `set`, where it is allowed. -/
def put (place : Location) (name : String) (node : Option Node) : Option Tree :=
  if allowed : tree.nodes place = some .directory ∧
      tree.nodes (place ++ [name]) ≠ some .directory then
    some (tree.set place name node allowed.1 allowed.2)
  else none

end Tree

structure Done (α : Type) where
  result : Option α
  tree : Tree
  touched : List Location

section

variable (root : Location)

/-- `fs::read` of what the names below the root lead to. -/
def read (tree : Tree) (names : List String) : Done (List UInt8) :=
  match tree.follow root names with
  | none => ⟨none, tree, []⟩
  | some place =>
    match tree.nodes place with
    | none => ⟨none, tree, []⟩
    | some (.file content) => ⟨some content, tree, [place]⟩
    | some _ => ⟨none, tree, [place]⟩

/-- `fs::write`: the file is created or truncated. -/
def write (tree : Tree) (names : List String) (content : List UInt8) : Done Unit :=
  match (tree.follow root names).bind fun place => place.getLast?.map (place, ·) with
  | none => ⟨none, tree, []⟩
  | some (place, name) =>
    match tree.put place.dropLast name (some (.file content)) with
    | none => ⟨none, tree, []⟩
    | some after => ⟨some (), after, [place]⟩

inductive Made
  | made (tree : Tree) (place : Location)
  | present
  | unresolved

/-- `mkdir`: the last name is not followed. -/
def mkdir (tree : Tree) (above : List String) (name : String) : Made :=
  match tree.follow root above with
  | none => .unresolved
  | some place =>
    if tree.nodes (place ++ [name]) = none then
      match tree.put place name (some .directory) with
      | some after => .made after (place ++ [name])
      | none => .unresolved
    else .present

/-- `fs::create_dir_all` of the names, given from the last one up. -/
def createDirAll (tree : Tree) : List String → Done Unit
  | [] => ⟨some (), tree, []⟩
  | name :: above =>
    let whole := above.reverse ++ [name]
    match mkdir root tree above.reverse name with
    | .made after place => ⟨some (), after, [place]⟩
    | .present => ⟨if tree.isDir root whole then some () else none, tree, []⟩
    | .unresolved =>
      let parents := createDirAll tree above
      match parents.result with
      | none => parents
      | some () =>
        match mkdir root parents.tree above.reverse name with
        | .made after place => ⟨some (), after, parents.touched ++ [place]⟩
        | _ =>
          ⟨if parents.tree.isDir root whole then some () else none, parents.tree,
            parents.touched⟩

/-- `fs::rename` within a directory; links are renamed themselves. -/
def rename (tree : Tree) (above : List String) (old new : String) : Done Unit :=
  match tree.follow root above with
  | none => ⟨none, tree, []⟩
  | some place =>
    match tree.nodes (place ++ [old]) with
    | none => ⟨none, tree, []⟩
    | some node =>
      match (tree.put place new (some node)).bind (·.put place old none) with
      | none => ⟨none, tree, []⟩
      | some after => ⟨some (), after, [place ++ [old], place ++ [new]]⟩

/-- `fs::remove_file`: a link is removed itself. -/
def removeFile (tree : Tree) (above : List String) (name : String) : Done Unit :=
  match tree.follow root above with
  | none => ⟨none, tree, []⟩
  | some place =>
    match tree.nodes (place ++ [name]), tree.put place name none with
    | some _, some after => ⟨some (), after, [place ++ [name]]⟩
    | _, _ => ⟨none, tree, []⟩

end

namespace Tree

variable {tree : Tree} {place reached : Location} {links : Nat} {steps : List Step}

theorem prefix_present (more : List String) (present : tree.nodes (place ++ more) ≠ none) :
    tree.nodes place ≠ none := by
  induction more using List.reverseRecOn with
  | nil => rwa [List.append_nil] at present
  | append_singleton more name ih =>
    rw [← List.append_assoc] at present
    apply ih
    rw [tree.within _ _ present]
    simp

theorem dropLast_directory (directory : tree.nodes place = some .directory) :
    tree.nodes place.dropLast = some .directory := by
  rcases List.eq_nil_or_concat place with rfl | ⟨above, name, rfl⟩
  · exact tree.top
  · rw [List.concat_eq_append] at directory ⊢
    rw [List.dropLast_concat]
    exact tree.within above name (by rw [directory]; simp)

/-- Where a link starts from. -/
theorem origin_directory (directory : tree.nodes place = some .directory) (absolute : Bool) :
    tree.nodes (if absolute then [] else place) = some .directory := by
  split
  · exact tree.top
  · exact directory

/-- Facts about a walk, from facts about one with fewer links to follow. -/
theorem walk_induction (tree : Tree) {motive : Nat → Location → List Step → Prop}
    (done : ∀ links place, motive links place [])
    (up : ∀ links place steps, motive links place.dropLast steps →
      motive links place (.up :: steps))
    (directory : ∀ links place name steps, tree.nodes (place ++ [name]) = some .directory →
      motive links (place ++ [name]) steps → motive links place (.down name :: steps))
    (link : ∀ links place name steps target, tree.nodes (place ++ [name]) = some (.link target) →
      (∀ fewer, links = fewer + 1 →
        motive fewer (if target.absolute then [] else place) (target.steps ++ steps)) →
      motive links place (.down name :: steps))
    (other : ∀ links place name steps, tree.nodes (place ++ [name]) ≠ some .directory →
      (∀ target, tree.nodes (place ++ [name]) ≠ some (.link target)) →
      motive links place (.down name :: steps))
    (links : Nat) (place : Location) (steps : List Step) : motive links place steps := by
  induction links generalizing place steps with
  | zero =>
    induction steps generalizing place with
    | nil => exact done 0 place
    | cons step steps ih =>
      cases step with
      | up => exact up 0 place steps (ih _)
      | down name =>
        cases node : tree.nodes (place ++ [name]) with
        | none => exact other 0 place name steps (by simp [node]) (by simp [node])
        | some held =>
          cases held with
          | file content => exact other 0 place name steps (by simp [node]) (by simp [node])
          | directory => exact directory 0 place name steps node (ih _)
          | link target => exact link 0 place name steps target node (by omega)
  | succ links fewer =>
    induction steps generalizing place with
    | nil => exact done (links + 1) place
    | cons step steps ih =>
      cases step with
      | up => exact up (links + 1) place steps (ih _)
      | down name =>
        cases node : tree.nodes (place ++ [name]) with
        | none => exact other _ place name steps (by simp [node]) (by simp [node])
        | some held =>
          cases held with
          | file content => exact other _ place name steps (by simp [node]) (by simp [node])
          | directory => exact directory _ place name steps node (ih _)
          | link target =>
            refine link _ place name steps target node fun less same => ?_
            rw [← Nat.succ_inj.mp same]
            exact fewer _ _

section Walk

variable (links : Nat) (place : Location) (steps : List Step)

theorem walk_nil : tree.walk links place [] = some place := by
  cases links <;> rfl

theorem walk_up : tree.walk links place (.up :: steps) = tree.walk links place.dropLast steps := by
  cases links <;> rfl

variable {place} {name : String}

theorem walk_directory (directory : tree.nodes (place ++ [name]) = some .directory) :
    tree.walk links place (.down name :: steps) = tree.walk links (place ++ [name]) steps := by
  cases links with
  | zero =>
    rw [walk, walkWith, directory]
  | succ links =>
    rw [walk, walkWith, directory]

theorem walk_link {target : Target} (link : tree.nodes (place ++ [name]) = some (.link target)) :
    tree.walk (links + 1) place (.down name :: steps) =
      tree.walk links (if target.absolute then [] else place) (target.steps ++ steps) := by
  rw [walk, walkWith, link]

theorem walk_link_none {target : Target}
    (link : tree.nodes (place ++ [name]) = some (.link target)) :
    tree.walk 0 place (.down name :: steps) = none := by
  rw [walk, walkWith, link]

theorem walk_other (directory : tree.nodes (place ++ [name]) ≠ some .directory)
    (link : ∀ target, tree.nodes (place ++ [name]) ≠ some (.link target)) :
    tree.walk links place (.down name :: steps) =
      if steps = [] then some (place ++ [name]) else none := by
  cases links with
  | zero =>
    rw [walk, walkWith]
    split
    · rename_i found
      exact absurd found directory
    · rename_i target found
      exact absurd found (link target)
    · rfl
  | succ links =>
    rw [walk, walkWith]
    split
    · rename_i found
      exact absurd found directory
    · rename_i target found
      exact absurd found (link target)
    · rfl

end Walk

/-- A walk starts at a directory and ends at one, or at an entry of one. -/
theorem walk_parent (start : tree.nodes place = some .directory)
    (walked : tree.walk links place steps = some reached) :
    tree.nodes reached = some .directory ∨
      ∃ above name, reached = above ++ [name] ∧ tree.nodes above = some .directory := by
  induction links, place, steps using walk_induction tree with
  | done links place =>
    rw [walk_nil, Option.some_inj] at walked
    exact Or.inl (walked ▸ start)
  | up links place steps ih =>
    rw [walk_up] at walked
    exact ih (dropLast_directory start) walked
  | directory links place name steps directory ih =>
    rw [walk_directory links steps directory] at walked
    exact ih directory walked
  | link links place name steps target link ih =>
    cases links with
    | zero =>
      rw [walk_link_none steps link] at walked
      cases walked
    | succ links =>
      rw [walk_link links steps link] at walked
      exact ih links rfl (origin_directory start _) walked
  | other links place name steps directory link =>
    rw [walk_other links steps directory link] at walked
    split at walked
    · exact Or.inr ⟨place, name, (Option.some_inj.mp walked).symm, start⟩
    · cases walked

/-- A walk goes on from the directory that its first steps lead to. -/
theorem walk_append (walked : tree.walk links place steps = some reached)
    (directory : tree.nodes reached = some .directory) :
    ∃ left, ∀ rest, tree.walk links place (steps ++ rest) = tree.walk left reached rest := by
  induction links, place, steps using walk_induction tree with
  | done links place =>
    rw [walk_nil, Option.some_inj] at walked
    exact ⟨links, fun rest => by rw [walked, List.nil_append]⟩
  | up links place steps ih =>
    rw [walk_up] at walked
    obtain ⟨left, goes⟩ := ih walked
    exact ⟨left, fun rest => by rw [List.cons_append, walk_up, goes]⟩
  | directory links place name steps node ih =>
    rw [walk_directory links steps node] at walked
    obtain ⟨left, goes⟩ := ih walked
    exact ⟨left, fun rest => by rw [List.cons_append, walk_directory _ _ node, goes]⟩
  | link links place name steps target link ih =>
    cases links with
    | zero =>
      rw [walk_link_none steps link] at walked
      cases walked
    | succ links =>
      rw [walk_link links steps link] at walked
      obtain ⟨left, goes⟩ := ih links rfl walked
      refine ⟨left, fun rest => ?_⟩
      rw [List.cons_append, walk_link links _ link, ← List.append_assoc, goes]
  | other links place name steps node link =>
    rw [walk_other links steps node link] at walked
    split at walked
    · rw [Option.some_inj] at walked
      exact absurd (walked ▸ directory) node
    · cases walked

/-- What is reached by more steps is reached through a directory. -/
theorem walk_through {rest : List Step} (more : rest ≠ [])
    (start : tree.nodes place = some .directory)
    (walked : tree.walk links place (steps ++ rest) = some reached) :
    ∃ between, tree.walk links place steps = some between ∧
      tree.nodes between = some .directory := by
  generalize whole : steps ++ rest = all at walked
  induction links, place, all using walk_induction tree generalizing steps with
  | done links place =>
    rw [List.append_eq_nil_iff] at whole
    exact absurd whole.2 more
  | up links place all ih =>
    cases steps with
    | nil => exact ⟨place, walk_nil links place, start⟩
    | cons step steps =>
      obtain ⟨rfl, tail⟩ := List.cons.inj whole
      rw [walk_up] at walked ⊢
      exact ih (dropLast_directory start) tail walked
  | directory links place name all node ih =>
    cases steps with
    | nil => exact ⟨place, walk_nil links place, start⟩
    | cons step steps =>
      obtain ⟨rfl, tail⟩ := List.cons.inj whole
      rw [walk_directory _ _ node] at walked ⊢
      exact ih node tail walked
  | link links place name all target link ih =>
    cases steps with
    | nil => exact ⟨place, walk_nil links place, start⟩
    | cons step steps =>
      obtain ⟨rfl, tail⟩ := List.cons.inj whole
      cases links with
      | zero =>
        rw [walk_link_none all link] at walked
        cases walked
      | succ links =>
        rw [walk_link links _ link] at walked ⊢
        refine ih links rfl (origin_directory start _) ?_ walked
        rw [List.append_assoc]
        exact congrArg _ tail
  | other links place name all node link =>
    cases steps with
    | nil => exact ⟨place, walk_nil links place, start⟩
    | cons step steps =>
      obtain ⟨rfl, tail⟩ := List.cons.inj whole
      rw [walk_other links all node link] at walked
      split at walked
      · rename_i none
        rw [none] at tail
        exact absurd (List.append_eq_nil_iff.mp tail).2 more
      · cases walked

/-- What was there stays, but for the contents of files. -/
def Extends (tree after : Tree) : Prop :=
  ∀ place, tree.nodes place ≠ none → after.nodes place = tree.nodes place ∨
    ∃ before content, tree.nodes place = some (.file before) ∧
      after.nodes place = some (.file content)

namespace Extends

variable {after : Tree}

theorem refl (tree : Tree) : Extends tree tree := fun _ _ => Or.inl rfl

theorem directory (grown : Extends tree after) (directory : tree.nodes place = some .directory) :
    after.nodes place = some .directory := by
  rcases grown place (by simp [directory]) with same | ⟨before, content, file, -⟩
  · rw [same, directory]
  · rw [directory] at file
    cases file

theorem link (grown : Extends tree after) {target : Target}
    (link : tree.nodes place = some (.link target)) : after.nodes place = some (.link target) := by
  rcases grown place (by simp [link]) with same | ⟨before, content, file, -⟩
  · rw [same, link]
  · rw [link] at file
    cases file

/-- What a walk reaches is still reached. -/
theorem walk (grown : Extends tree after) {links : Nat} {steps : List Step}
    (walked : tree.walk links place steps = some reached) (present : tree.nodes reached ≠ none) :
    after.walk links place steps = some reached := by
  induction links, place, steps using walk_induction tree with
  | done links place =>
    rw [walk_nil] at walked ⊢
    exact walked
  | up links place steps ih =>
    rw [walk_up] at walked ⊢
    exact ih walked
  | directory links place name steps node ih =>
    rw [walk_directory _ _ node] at walked
    rw [walk_directory _ _ (grown.directory node)]
    exact ih walked
  | link links place name steps target link ih =>
    cases links with
    | zero =>
      rw [walk_link_none steps link] at walked
      cases walked
    | succ links =>
      rw [walk_link links steps link] at walked
      rw [walk_link links steps (grown.link link)]
      exact ih links rfl walked
  | other links place name steps node link =>
    rw [walk_other links steps node link] at walked
    split at walked
    · rename_i none
      rw [Option.some_inj] at walked
      rw [← walked] at present
      have kept : after.nodes (place ++ [name]) ≠ some .directory ∧
          ∀ target, after.nodes (place ++ [name]) ≠ some (.link target) := by
        rcases grown _ present with same | ⟨before, content, -, file⟩
        · rw [same]
          exact ⟨node, link⟩
        · simp [file]
      rw [walk_other links steps kept.1 kept.2, if_pos none, walked]
    · cases walked

theorem follow (grown : Extends tree after) {names : List String}
    (walked : tree.follow place names = some reached) (present : tree.nodes reached ≠ none) :
    after.follow place names = some reached := grown.walk walked present

end Extends

end Tree

namespace Tree

variable (tree : Tree) (root : Location)

/-- The directory that the names, given from the last one up, lead to: one that there is, and the
names that are missing below it. -/
@[grind =] def home : List String → Option (Location × List String)
  | [] => some (root, [])
  | name :: above =>
    match (tree.follow root (above.reverse ++ [name])).filter tree.isDirectory with
    | some place => some (place, [])
    | none =>
      match home above with
      | some (place, []) =>
        if tree.nodes (place ++ [name]) = none then some (place, [name]) else none
      | some (place, first :: missing) => some (place, first :: missing ++ [name])
      | none => none

/-- The directories on the way to the missing names. -/
def below (place : Location) : List String → List Location
  | [] => []
  | name :: names => (place ++ [name]) :: below (place ++ [name]) names

theorem below_concat (place : Location) (names : List String) (name : String) :
    below place (names ++ [name]) = below place names ++ [place ++ names ++ [name]] := by
  induction names generalizing place with
  | nil => simp [below]
  | cons first names ih => simp [below, ih]

variable {tree root} {above : List String} {place : Location} {name : String}

theorem isDirectory_iff : tree.isDirectory place = true ↔ tree.nodes place = some .directory := by
  rw [isDirectory, decide_eq_true_eq]

theorem home_present (directory : tree.nodes root = some .directory) {names : List String} :
    tree.home root names = some (place, []) ↔
      tree.follow root names.reverse = some place ∧ tree.nodes place = some .directory := by
  cases names with
  | nil =>
    rw [home, follow, List.reverse_nil, List.map_nil, walk_nil, Option.some_inj,
      Option.some_inj, Prod.mk.injEq]
    constructor
    · rintro ⟨rfl, -⟩
      exact ⟨rfl, directory⟩
    · rintro ⟨rfl, -⟩
      exact ⟨rfl, rfl⟩
  | cons name above =>
    rw [home, List.reverse_cons]
    split
    · rename_i found leads
      rw [Option.filter_eq_some_iff, isDirectory_iff] at leads
      rw [leads.1, Option.some_inj, Option.some_inj, Prod.mk.injEq]
      constructor
      · rintro ⟨rfl, -⟩
        exact ⟨rfl, leads.2⟩
      · rintro ⟨rfl, -⟩
        exact ⟨rfl, rfl⟩
    · rename_i none
      refine iff_of_false ?_ ?_
      · split
        · split <;> simp
        · simp
        · simp
      · rintro ⟨leads, node⟩
        rw [Option.filter_eq_none_iff] at none
        exact none place leads (isDirectory_iff.mpr node)

/-- One more name below a directory that a path leads to. -/
theorem follow_concat (leads : tree.follow root above = some place)
    (directory : tree.nodes place = some .directory)
    (entry : tree.nodes (place ++ [name]) = none ∨
      tree.nodes (place ++ [name]) = some .directory) :
    tree.follow root (above ++ [name]) = some (place ++ [name]) := by
  obtain ⟨left, goes⟩ := walk_append leads directory
  rw [follow, List.map_append, goes]
  rcases entry with none | node
  · exact (walk_other left [] (by simp [none]) (by simp [none])).trans (if_pos rfl)
  · exact (walk_directory left [] node).trans (walk_nil left _)

theorem follow_through (directory : tree.nodes root = some .directory)
    (leads : tree.follow root (above ++ [name]) = some place) :
    ∃ between, tree.follow root above = some between ∧
      tree.nodes between = some .directory := by
  rw [follow, List.map_append] at leads
  exact walk_through (by simp) directory leads

theorem ne_directory (none : tree.nodes place = none) : tree.nodes place ≠ some .directory := by
  rw [none]
  simp

theorem put_eq (parent : tree.nodes place = some .directory)
    (leaf : tree.nodes (place ++ [name]) ≠ some .directory) (node : Option Node) :
    tree.put place name node = some (tree.set place name node parent leaf) :=
  dif_pos ⟨parent, leaf⟩

theorem set_nodes (node : Option Node) (parent : tree.nodes place = some .directory)
    (leaf : tree.nodes (place ++ [name]) ≠ some .directory) :
    (tree.set place name node parent leaf).nodes =
      Function.update tree.nodes (place ++ [name]) node := rfl

theorem set_extends (node : Option Node) (parent : tree.nodes place = some .directory)
    (none : tree.nodes (place ++ [name]) = none) :
    Extends tree (tree.set place name node parent (by simp [none])) := by
  intro other present
  refine Or.inl ?_
  rw [set_nodes, Function.update_of_ne]
  rintro rfl
  exact present none

end Tree

section

variable {root : Location} {tree : Tree} {above : List String} {name : String}

/-- What `mkdir` finds, by where the names above lead. -/
theorem mkdir_unresolved
    (unled : ∀ place, tree.follow root above = some place → tree.nodes place ≠ some .directory) :
    mkdir root tree above name = .unresolved := by
  rw [mkdir]
  cases leads : tree.follow root above with
  | none => rfl
  | some place =>
    have leaf := unled place leads
    have none : tree.put place name (some .directory) = none :=
      dif_neg fun allowed => leaf allowed.1
    simp only [tree.children_none leaf, if_true, none]

variable {place entry : Location} {names missing : List String} {after : Tree}

theorem mkdir_made (leads : tree.follow root above = some place)
    (directory : tree.nodes place = some .directory) (none : tree.nodes (place ++ [name]) = none) :
    mkdir root tree above name =
      .made (tree.set place name (some .directory) directory (by simp [none]))
        (place ++ [name]) := by
  rw [mkdir, leads]
  simp only [none, if_true]
  rw [Tree.put_eq directory (by simp [none])]

theorem mkdir_present (leads : tree.follow root above = some place)
    (some : tree.nodes (place ++ [name]) ≠ none) : mkdir root tree above name = .present := by
  rw [mkdir, leads]
  exact if_neg some

/-- How `create_dir_all` ends where the names lead to a directory and missing ones below it. -/
structure Prepared (root : Location) (tree : Tree) (names : List String) (place : Location)
    (missing : List String) (done : Done Unit) : Prop where
  result : done.result = some ()
  touched : done.touched = Tree.below place missing
  grown : Tree.Extends tree done.tree
  leads : done.tree.follow root names.reverse = some (place ++ missing)
  directory : done.tree.nodes (place ++ missing) = some .directory
  fresh : missing ≠ [] → ∀ child, done.tree.nodes (place ++ missing ++ [child]) = none
  same : missing = [] → done.tree = tree

/-- One more missing name. -/
theorem Prepared.extend {done : Done Unit} (prepared : Prepared root tree names place missing done)
    (name : String) (none : done.tree.nodes (place ++ missing ++ [name]) = none) :
    Prepared root tree (name :: names) place (missing ++ [name])
      ⟨some (), done.tree.set (place ++ missing) name (some .directory) prepared.directory
        (Tree.ne_directory none), done.touched ++ [place ++ missing ++ [name]]⟩ where
  result := rfl
  touched := by rw [Tree.below_concat, prepared.touched]
  grown := by
    intro other present
    rcases prepared.grown other present with same | ⟨before, content, was, is⟩
    · rw [← same] at present ⊢
      exact Or.imp_right (fun ⟨before, content, was, is⟩ => ⟨before, content, same ▸ was, is⟩)
        (Tree.set_extends (some .directory) prepared.directory none other present)
    · refine Or.inr ⟨before, content, was, ?_⟩
      rw [Tree.set_nodes, Function.update_of_ne]
      · exact is
      · rintro rfl
        rw [none] at is
        cases is
  leads := by
    rw [List.reverse_cons, ← List.append_assoc]
    have grown := Tree.set_extends (some .directory) prepared.directory none
    refine Tree.follow_concat (grown.follow prepared.leads (by simp [prepared.directory]))
      (grown.directory prepared.directory) (Or.inr ?_)
    rw [Tree.set_nodes, Function.update_self]
  directory := by rw [← List.append_assoc, Tree.set_nodes, Function.update_self]
  fresh := by
    intro _ child
    rw [← List.append_assoc, Tree.set_nodes, Function.update_of_ne (by simp)]
    exact done.tree.children_none (Tree.ne_directory none) child
  same := fun empty => absurd empty (by simp)

theorem createDirAll_spec (directory : tree.nodes root = some .directory) (names : List String) :
    match tree.home root names with
    | some (place, missing) =>
      Prepared root tree names place missing (createDirAll root tree names)
    | none => createDirAll root tree names = ⟨none, tree, []⟩ := by
  have stays {names : List String} {place : Location}
      (leads : tree.follow root names.reverse = some place)
      (directory : tree.nodes place = some .directory) :
      Prepared root tree names place [] ⟨some (), tree, []⟩ :=
    ⟨rfl, rfl, Tree.Extends.refl tree, by rw [List.append_nil, leads],
      by rw [List.append_nil, directory], fun empty => absurd rfl empty, fun _ => rfl⟩
  induction names with
  | nil => exact stays (Tree.walk_nil _ root) directory
  | cons name above ih =>
    -- Where the names above lead to no directory, neither do they with one more name.
    have beyond (unled : ∀ place, tree.follow root above.reverse = some place →
        tree.nodes place ≠ some .directory) :
        (tree.follow root (above.reverse ++ [name])).filter tree.isDirectory = none := by
      rw [Option.filter_eq_none_iff]
      intro place leads _
      obtain ⟨between, above, node⟩ := Tree.follow_through directory leads
      exact unled between above node
    rw [Tree.home, createDirAll]
    cases lead : tree.home root above with
    | none =>
      have unled : ∀ place, tree.follow root above.reverse = some place →
          tree.nodes place ≠ some .directory := by
        intro place leads node
        rw [(Tree.home_present directory).mpr ⟨leads, node⟩] at lead
        cases lead
      rw [lead] at ih
      rw [beyond unled, mkdir_unresolved unled]
      simp only [ih]
    | some found =>
      obtain ⟨place, missing⟩ := found
      rw [lead] at ih
      cases missing with
      | nil =>
        obtain ⟨leads, node⟩ := (Tree.home_present directory).mp lead
        by_cases none : tree.nodes (place ++ [name]) = none
        · have absent : (tree.follow root (above.reverse ++ [name])).filter
              tree.isDirectory = Option.none := by
            rw [Tree.follow_concat leads node (Or.inl none), Option.filter_eq_none_iff]
            intro other same
            rw [← Option.some_inj.mp same, Tree.isDirectory_iff]
            exact Tree.ne_directory none
          have prepared := (stays leads node).extend name
            (by rw [List.append_nil]; exact none)
          rw [absent, mkdir_made leads node none]
          simp only [none, if_true]
          simpa using prepared
        · rw [mkdir_present leads none]
          simp only [none, if_false]
          have isDir : tree.isDir root (above.reverse ++ [name]) =
              ((tree.follow root (above.reverse ++ [name])).filter
                tree.isDirectory).isSome := by
            rw [Tree.isDir]
            cases tree.follow root (above.reverse ++ [name]) with
            | none => rfl
            | some reached =>
              cases held : tree.isDirectory reached <;> simp [Option.filter, held]
          rw [isDir]
          cases reached : (tree.follow root (above.reverse ++ [name])).filter
              tree.isDirectory with
          | none => rfl
          | some place =>
            rw [Option.filter_eq_some_iff, Tree.isDirectory_iff] at reached
            refine stays ?_ reached.2
            rw [List.reverse_cons]
            exact reached.1
      | cons first missing =>
        have unled : ∀ place, tree.follow root above.reverse = some place →
            tree.nodes place ≠ some .directory := by
          intro other leads node
          rw [(Tree.home_present directory).mpr ⟨leads, node⟩] at lead
          cases lead
        have prepared := ih
        have fresh := prepared.fresh (by simp) name
        rw [beyond unled, mkdir_unresolved unled]
        simp only [prepared.result]
        rw [mkdir_made prepared.leads prepared.directory fresh]
        exact prepared.extend name fresh

/-- What the names lead to, unless that is a directory. -/
def Tree.target (tree : Tree) (root : Location) (names : List String) : Option Location :=
  (tree.follow root names).filter (! tree.isDirectory ·)

theorem Tree.target_eq_some :
    tree.target root names = some place ↔
      tree.follow root names = some place ∧ tree.nodes place ≠ some .directory := by
  rw [Tree.target, Option.filter_eq_some_iff, Bool.not_eq_true', Bool.eq_false_iff, ne_eq,
    Tree.isDirectory_iff]

/-- A walk does not end at a link. -/
theorem Tree.walk_not_link {links : Nat} {reached : Location} {steps : List Step}
    (start : tree.nodes place = some .directory)
    (walked : tree.walk links place steps = some reached) (target : Target) :
    tree.nodes reached ≠ some (.link target) := by
  induction links, place, steps using Tree.walk_induction tree with
  | done links place =>
    rw [Tree.walk_nil, Option.some_inj] at walked
    rw [← walked, start]
    simp
  | up links place steps ih =>
    rw [Tree.walk_up] at walked
    exact ih (Tree.dropLast_directory start) walked
  | directory links place name steps node ih =>
    rw [Tree.walk_directory _ _ node] at walked
    exact ih node walked
  | link links place name steps target link ih =>
    cases links with
    | zero =>
      rw [Tree.walk_link_none steps link] at walked
      cases walked
    | succ links =>
      rw [Tree.walk_link links steps link] at walked
      exact ih links rfl (Tree.origin_directory start _) walked
  | other links place name steps node link =>
    rw [Tree.walk_other links steps node link] at walked
    split at walked
    · rw [← Option.some_inj.mp walked]
      exact link target
    · cases walked

/-- How a write ends that lands at a place. -/
structure Landed (tree : Tree) (content : List UInt8) (place : Location) (done : Done Unit) :
    Prop where
  result : done.result = some ()
  touched : done.touched = [place]
  nodes : done.tree.nodes = Function.update tree.nodes place (some (.file content))
  grown : Tree.Extends tree done.tree

theorem write_none {content : List UInt8} (none : tree.target root names = none) :
    write root tree names content = ⟨Option.none, tree, []⟩ := by
  rw [write]
  cases leads : tree.follow root names with
  | none => rfl
  | some place =>
    rw [Tree.target, leads, Option.filter_eq_none_iff] at none
    have directory : tree.nodes place = some .directory := by
      simpa [Tree.isDirectory_iff] using none place rfl
    rcases List.eq_nil_or_concat place with rfl | ⟨above, name, rfl⟩
    · rfl
    · rw [List.concat_eq_append] at directory ⊢
      have refused : tree.put above name (some (.file content)) = Option.none :=
        dif_neg fun allowed => allowed.2 directory
      simp [refused]

theorem write_landed (content : List UInt8) (directory : tree.nodes root = some .directory)
    (lands : tree.target root names = some place) :
    Landed tree content place (write root tree names content) := by
  obtain ⟨leads, leaf⟩ := Tree.target_eq_some.mp lands
  rcases Tree.walk_parent directory leads with node | ⟨above, name, rfl, parent⟩
  · exact absurd node leaf
  · have put := Tree.put_eq parent leaf (some (.file content))
    have written : write root tree names content =
        ⟨some (), tree.set above name (some (.file content)) parent leaf, [above ++ [name]]⟩ := by
      rw [write, leads]
      simp [put]
    rw [written]
    refine ⟨rfl, rfl, rfl, fun other present => ?_⟩
    by_cases same : other = above ++ [name]
    · subst same
      cases held : tree.nodes (above ++ [name]) with
      | none => exact absurd held present
      | some node =>
        cases node with
        | file before => exact Or.inr ⟨before, content, rfl, by simp [Tree.set_nodes]⟩
        | directory => exact absurd held leaf
        | link target => exact absurd held (Tree.walk_not_link directory leads target)
    · refine Or.inl ?_
      rw [Tree.set_nodes, Function.update_of_ne same]

/-- Where a file of that name goes, once the directories above it are there. -/
def Tree.landing (tree : Tree) (root : Location) (above : List String) (name : String) :
    Option Location :=
  match tree.home root above.reverse with
  | none => none
  | some (_, []) => tree.target root (above ++ [name])
  | some (place, first :: missing) => some (place ++ first :: missing ++ [name])

theorem Tree.home_missing (directory : tree.nodes root = some .directory)
    (lead : tree.home root names = some (place, missing)) :
    tree.nodes place = some .directory ∧
      ∀ first ∈ missing.head?, tree.nodes (place ++ [first]) = none := by
  induction names generalizing missing with
  | nil =>
    rw [Tree.home, Option.some_inj, Prod.mk.injEq] at lead
    obtain ⟨rfl, rfl⟩ := lead
    exact ⟨directory, by simp⟩
  | cons name above ih =>
    rw [Tree.home] at lead
    split at lead
    · rename_i found leads
      rw [Option.some_inj, Prod.mk.injEq] at lead
      obtain ⟨rfl, rfl⟩ := lead
      rw [Option.filter_eq_some_iff, Tree.isDirectory_iff] at leads
      exact ⟨leads.2, by simp⟩
    · split at lead
      · rename_i parent
        split at lead
        · rename_i none
          rw [Option.some_inj, Prod.mk.injEq] at lead
          obtain ⟨rfl, rfl⟩ := lead
          refine ⟨(ih parent).1, fun first member => ?_⟩
          rw [List.head?_cons, Option.mem_some_iff] at member
          rw [← member]
          exact none
        · cases lead
      · rename_i parent
        rw [Option.some_inj, Prod.mk.injEq] at lead
        obtain ⟨rfl, rfl⟩ := lead
        exact ⟨(ih parent).1, (ih parent).2⟩
      · cases lead

/-- A directory that there is, is under the root where a place below it is that passes through
nothing that there is. -/
theorem under_of_missing (directory : tree.nodes root = some .directory)
    (absent : ∀ first ∈ missing.head?, tree.nodes (place ++ [first]) = none)
    (under : root <+: place ++ missing) : root <+: place := by
  rcases List.prefix_or_prefix_of_prefix under (List.prefix_append place missing) with
    above | ⟨rest, whole⟩
  · exact above
  · cases rest with
    | nil =>
      rw [List.append_nil] at whole
      rw [whole]
    | cons first rest =>
      rw [← whole, List.prefix_append_right_inj] at under
      obtain ⟨back, split⟩ := under
      have none := absent first (by rw [← split]; rfl)
      rw [← whole, ← List.singleton_append, ← List.append_assoc] at directory
      exact absurd none (Tree.prefix_present rest (by rw [directory]; simp))

theorem under_below (member : entry ∈ Tree.below place names) : place <+: entry := by
  induction names generalizing place with
  | nil => exact absurd member List.not_mem_nil
  | cons name names ih =>
    rw [Tree.below, List.mem_cons] at member
    rcases member with rfl | later
    · exact List.prefix_append place [name]
    · exact (List.prefix_append place [name]).trans (ih later)

theorem landing_none (directory : tree.nodes root = some .directory)
    (none : tree.landing root above name = none) :
    createDirAll root tree above.reverse = ⟨Option.none, tree, []⟩ ∨
      (createDirAll root tree above.reverse).result = some () ∧
        (createDirAll root tree above.reverse).touched = [] ∧
        (createDirAll root tree above.reverse).tree = tree ∧
        tree.target root (above ++ [name]) = Option.none := by
  have spec := createDirAll_spec directory above.reverse
  rw [Tree.landing] at none
  split at none
  · rename_i lead
    rw [lead] at spec
    exact Or.inl spec
  · rename_i place lead
    rw [lead] at spec
    exact Or.inr ⟨spec.result, spec.touched, spec.same rfl, none⟩
  · cases none

theorem landing_some (directory : tree.nodes root = some .directory)
    (lands : tree.landing root above name = some place) :
    ∃ parent missing,
      tree.home root above.reverse = some (parent, missing) ∧
      Prepared root tree above.reverse parent missing (createDirAll root tree above.reverse) ∧
      (createDirAll root tree above.reverse).tree.target root (above ++ [name]) = some place ∧
      (root <+: place → ∀ entry ∈ Tree.below parent missing, root <+: entry) := by
  have spec := createDirAll_spec directory above.reverse
  rw [Tree.landing] at lands
  split at lands
  · cases lands
  · rename_i parent lead
    rw [lead] at spec
    refine ⟨parent, [], lead, spec, ?_, fun _ entry member => absurd member List.not_mem_nil⟩
    rw [spec.same rfl]
    exact lands
  · rename_i parent first missing lead
    rw [lead] at spec
    have fresh := spec.fresh (by simp) name
    have leads := spec.leads
    rw [List.reverse_reverse] at leads
    refine ⟨parent, first :: missing, lead, spec, ?_, fun under entry member => ?_⟩
    · rw [← Option.some_inj.mp lands, Tree.target_eq_some]
      exact ⟨Tree.follow_concat leads spec.directory (Or.inl fresh), Tree.ne_directory fresh⟩
    · rw [← Option.some_inj.mp lands, List.append_assoc] at under
      have absent : ∀ other ∈ (first :: missing ++ [name]).head?,
          tree.nodes (parent ++ [other]) = none := (Tree.home_missing directory lead).2
      have above := under_of_missing directory absent under
      exact above.trans (under_below member)

/-- The entries of a directory change places. -/
theorem rename_touched {node : Node} {old new : String}
    (leads : tree.follow root above = some place) (directory : tree.nodes place = some .directory)
    (held : tree.nodes (place ++ [old]) = some node) (leaf : node ≠ .directory)
    (free : tree.nodes (place ++ [new]) ≠ some .directory) (other : old ≠ new) :
    (rename root tree above old new).touched = [place ++ [old], place ++ [new]] := by
  have moved := Tree.put_eq directory free (some node)
  have stays : (tree.set place new (some node) directory free).nodes place =
      some .directory := by
    rw [Tree.set_nodes, Function.update_of_ne (by simp), directory]
  have still : (tree.set place new (some node) directory free).nodes (place ++ [old]) ≠
      some .directory := by
    rw [Tree.set_nodes, Function.update_of_ne (by simpa using other), held]
    simpa using leaf
  rw [rename, leads]
  simp only [held, moved, Option.bind_some]
  rw [Tree.put_eq stays still]

theorem mem_removeFile_touched :
    entry ∈ (removeFile root tree above name).touched ↔
      ∃ place, tree.follow root above = some place ∧ entry = place ++ [name] ∧
        tree.nodes (place ++ [name]) ≠ none ∧
        tree.nodes (place ++ [name]) ≠ some .directory := by
  rw [removeFile]
  cases tree.follow root above with
  | none => simp
  | some place =>
    simp only [Option.some_inj, exists_eq_left']
    cases held : tree.nodes (place ++ [name]) with
    | none => simp
    | some node =>
      have parent := tree.within place name (by simp [held])
      by_cases leaf : node = .directory
      · subst leaf
        have refused : tree.put place name none = none :=
          dif_neg fun allowed => allowed.2 held
        simp [refused]
      · have removed := Tree.put_eq parent (by rw [held]; simpa using leaf) none
        simp [removed, leaf]

/-- Entries of directories that are no directories were replaced, one after the other: removed, or
by a file, a directory or what another entry of the directory held. -/
inductive Tree.Edited (tree : Tree) : Tree → Prop
  | refl : Edited tree tree
  | put {between after : Tree} {place : Location} {name : String} {node : Option Node}
      (earlier : Edited tree between) (done : between.put place name node = some after)
      (plain : (∀ target, node ≠ some (.link target)) ∨
        ∃ old, between.nodes (place ++ [old]) = node) : Edited tree after

theorem Tree.put_nodes {node : Option Node} (done : tree.put place name node = some after) :
    tree.nodes (place ++ [name]) ≠ some .directory ∧
      after.nodes = Function.update tree.nodes (place ++ [name]) node := by
  rw [Tree.put] at done
  split at done
  · rename_i allowed
    rw [← Option.some_inj.mp done]
    exact ⟨allowed.2, rfl⟩
  · cases done

namespace Tree.Edited

variable {later : Tree}

theorem trans (first : tree.Edited after) (second : after.Edited later) : tree.Edited later := by
  induction second with
  | refl => exact first
  | put _ done plain ih => exact ih.put done plain

/-- What is a directory stays one. -/
theorem directory (edited : tree.Edited after) {place : Location}
    (held : tree.nodes place = some .directory) : after.nodes place = some .directory := by
  induction edited with
  | refl => exact held
  | put _ done _ ih =>
    obtain ⟨leaf, nodes⟩ := Tree.put_nodes done
    rw [nodes, Function.update_of_ne]
    · exact ih
    · rintro rfl
      exact leaf ih

end Tree.Edited

theorem write_edited (names : List String) (content : List UInt8) :
    tree.Edited (write root tree names content).tree := by
  rw [write]
  split
  · exact .refl
  · split
    · exact .refl
    · rename_i put
      exact Tree.Edited.refl.put put (Or.inl (by simp))

theorem mkdir_edited (made : mkdir root tree above name = .made after place) :
    tree.Edited after := by
  rw [mkdir] at made
  split at made
  · cases made
  · split at made
    · split at made
      · rename_i put
        cases made
        exact Tree.Edited.refl.put put (Or.inl (by simp))
      · cases made
    · cases made

theorem createDirAll_edited (names : List String) :
    tree.Edited (createDirAll root tree names).tree := by
  induction names with
  | nil => exact .refl
  | cons name above ih =>
    rw [createDirAll]
    simp only
    split
    · rename_i made
      exact mkdir_edited made
    · exact .refl
    · split
      · exact ih
      · split
        · rename_i made
          exact ih.trans (mkdir_edited made)
        · exact ih

theorem rename_edited (old new : String) : tree.Edited (rename root tree above old new).tree := by
  rw [rename]
  split
  · exact .refl
  · split
    · exact .refl
    · rename_i held
      split
      · exact .refl
      · rename_i moved
        obtain ⟨between, first, second⟩ := Option.bind_eq_some_iff.mp moved
        exact (Tree.Edited.refl.put first (Or.inr ⟨old, held⟩)).put second (Or.inl (by simp))

theorem removeFile_edited : tree.Edited (removeFile root tree above name).tree := by
  rw [removeFile]
  split
  · exact .refl
  · split
    · rename_i removed
      exact Tree.Edited.refl.put removed (Or.inl (by simp))
    · exact .refl

/-- Nothing under the root is a link. -/
def Tree.Unlinked (tree : Tree) (root : Location) : Prop :=
  ∀ place target, root <+: place → tree.nodes place ≠ some (.link target)

theorem Tree.Edited.unlinked (edited : tree.Edited after)
    (directory : tree.nodes root = some .directory) (unlinked : tree.Unlinked root) :
    after.Unlinked root := by
  induction edited with
  | refl => exact unlinked
  | @put between after place name node earlier done plain ih =>
    obtain ⟨leaf, nodes⟩ := Tree.put_nodes done
    intro entry target under
    rw [nodes]
    by_cases same : entry = place ++ [name]
    · subst same
      rw [Function.update_self]
      rcases plain with other | ⟨old, held⟩
      · exact other target
      · -- The root is a directory and the entry is none, so its directory is under the root.
        rw [← held]
        apply ih
        rcases List.prefix_concat_iff.mp under with whole | above
        · exact absurd (whole ▸ earlier.directory directory) leaf
        · exact above.trans (List.prefix_append place [old])
    · rw [Function.update_of_ne same]
      exact ih entry target under

namespace Tree.Unlinked

variable {reached : Location}

theorem walk {links : Nat} (unlinked : tree.Unlinked root) (under : root <+: place)
    (walked : tree.walk links place (names.map .down) = some reached) : root <+: reached := by
  induction names generalizing place with
  | nil =>
    rw [List.map_nil, walk_nil, Option.some_inj] at walked
    exact walked ▸ under
  | cons name names ih =>
    have below : root <+: place ++ [name] := under.trans (List.prefix_append place [name])
    rw [List.map_cons] at walked
    by_cases directory : tree.nodes (place ++ [name]) = some .directory
    · rw [walk_directory _ _ directory] at walked
      exact ih below walked
    · rw [walk_other _ _ directory fun target => unlinked _ target below] at walked
      split at walked
      · rw [← Option.some_inj.mp walked]
        exact below
      · cases walked

theorem follow (unlinked : tree.Unlinked root) (leads : tree.follow root names = some reached) :
    root <+: reached :=
  unlinked.walk List.prefix_rfl leads

theorem home {missing : List String} (unlinked : tree.Unlinked root)
    (lead : tree.home root names = some (place, missing)) : root <+: place := by
  induction names generalizing place missing with
  | nil =>
    rw [Tree.home, Option.some_inj, Prod.mk.injEq] at lead
    rw [lead.1]
  | cons name above ih =>
    rw [Tree.home] at lead
    split at lead
    · rename_i leads
      rw [Option.some_inj, Prod.mk.injEq] at lead
      rw [← lead.1]
      exact unlinked.follow (Option.filter_eq_some_iff.mp leads).1
    · split at lead
      · rename_i parent
        split at lead
        · rw [Option.some_inj, Prod.mk.injEq] at lead
          rw [← lead.1]
          exact ih parent
        · cases lead
      · rename_i parent
        rw [Option.some_inj, Prod.mk.injEq] at lead
        rw [← lead.1]
        exact ih parent
      · cases lead

theorem landing (unlinked : tree.Unlinked root)
    (lands : tree.landing root above name = some place) : root <+: place := by
  rw [Tree.landing] at lands
  split at lands
  · cases lands
  · exact unlinked.follow (Tree.target_eq_some.mp lands).1
  · rename_i lead
    rw [← Option.some_inj.mp lands, List.append_assoc]
    exact (unlinked.home lead).trans (List.prefix_append _ _)

end Tree.Unlinked

end

end FileTree
