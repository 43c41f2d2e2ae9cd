import DddCqrsEs.Decimal
import DddCqrsEs.FullstackApp.BoardTree
import DddCqrsEs.Transition
import Mathlib.Data.List.Perm.Subperm

/- The helpers that edit the layout tree in the dashboard: nodes are placed, removed, reordered,
moved and resized. -/
namespace DddCqrsEs.FullstackApp

section Functions

mutual

def BoardNode.existsId (id : String) : BoardNode → Bool
  | .widget fields => fields.id == id
  | .container own _ _ children => own == id || idExists children id

def idExists : List BoardNode → String → Bool
  | [], _ => false
  | node :: rest, id => node.existsId id || idExists rest id

end

/-- The loop, for so many rounds. A layout has far fewer than `usize::MAX / 2` nodes, so its
counter, which stays below their double, does not run over. -/
def nextNodeIdFrom (stem : String) (nodes : List BoardNode) : Nat → Nat → Option String
  | 0, _ => none
  | rounds + 1, n =>
    let candidate := stem ++ "-" ++ toString n
    if idExists nodes candidate then nextNodeIdFrom stem nodes rounds (n + 1)
    else some candidate

def nextNodeId (stem : String) (nodes : List BoardNode) (rounds : Nat) : Option String :=
  nextNodeIdFrom stem nodes rounds (totalNodes nodes + 1)

/-- One level without the node of this id, and what is answered for that node. -/
def leaveLevel {α : Type} (answer : BoardNode → α) (id : String) (level : List BoardNode) :
    Option (α × List BoardNode) :=
  (level.findIdx? (·.id == id)).bind fun index =>
    level[index]?.map fun node => (answer node, level.eraseIdx index)

def removeNode (nodes : List BoardNode) (id : String) : Bool × List BoardNode :=
  let result := editLevel (leaveLevel (fun _ => ()) id) nodes
  (result.1.isSome, result.2)

/-- The nodes of one level with `fromId` moved to the place of `toId`. -/
def reorderLevel (fromId toId : String) (level : List BoardNode) :
    Option (Unit × List BoardNode) :=
  match level.findIdx? (·.id == fromId), level.findIdx? (·.id == toId) with
  | some fromIndex, some toIndex =>
    level[fromIndex]?.map fun item =>
      let rest := level.eraseIdx fromIndex
      let target := if fromIndex < toIndex then toIndex - 1 else toIndex
      ((), rest.insertIdx (min target rest.length) item)
  | _, _ => none

def reorderSiblings (nodes : List BoardNode) (fromId toId : String) : Bool × List BoardNode :=
  if fromId == toId then (false, nodes)
  else
    let result := editLevel (reorderLevel fromId toId) nodes
    (result.1.isSome, result.2)

def BoardNode.setColSpan (span : UInt8) : BoardNode → BoardNode
  | .widget fields => .widget { fields with colSpan := max 1 (min span 12) }
  | .container id kind _ children => .container id kind (max 1 (min span 12)) children

def setSpanById (nodes : List BoardNode) (id : String) (span : UInt8) : Bool × List BoardNode :=
  editFirstOf (fun node => if node.id == id then some (node.setColSpan span) else none) nodes

mutual

def BoardNode.find (id : String) : BoardNode → Option BoardNode
  | .widget fields => if fields.id == id then some (.widget fields) else none
  | .container own kind colSpan children =>
    if own == id then some (.container own kind colSpan children) else findNode children id

def findNode : List BoardNode → String → Option BoardNode
  | [], _ => none
  | node :: rest, id =>
    match node.find id with
    | some found => some found
    | none => findNode rest id

end

def extractNode (nodes : List BoardNode) (id : String) : Option BoardNode × List BoardNode :=
  editLevel (leaveLevel (fun node => node) id) nodes

/-- The container of this id with one more child. -/
def BoardNode.takeChild (parentId : String) (child : BoardNode) : BoardNode → Option BoardNode
  | .widget _ => none
  | .container id kind colSpan children =>
    if id == parentId then some (.container id kind colSpan (children ++ [child])) else none

def appendChild (nodes : List BoardNode) (parentId : String) (child : BoardNode) :
    Bool × List BoardNode :=
  editFirstOf (BoardNode.takeChild parentId child) nodes

def isAncestorOf (nodes : List BoardNode) (ancestorId nodeId : String) : Bool :=
  if ancestorId == nodeId then true
  else
    match findNode nodes ancestorId with
    | some (.container _ _ _ children) => idExists children nodeId
    | _ => false

def moveIntoContainer (nodes : List BoardNode) (nodeId containerId : String) :
    Bool × List BoardNode :=
  if nodeId == containerId then (false, nodes)
  else
    match findNode nodes containerId with
    | some (.container _ _ _ _) =>
      if isAncestorOf nodes nodeId containerId then (false, nodes)
      else
        match extractNode nodes nodeId with
        | (none, left) => (false, left)
        | (some node, left) => appendChild left containerId node
    | _ => (false, nodes)

def placeNewNode (nodes : List BoardNode) (child : BoardNode) (parentId : Option String) :
    Bool × List BoardNode :=
  match parentId with
  | none => (true, nodes ++ [child])
  | some parent => if parent == "" then (true, nodes ++ [child]) else appendChild nodes parent child

end Functions

/-- A node that the picker adds, before it has an id. -/
inductive NewNode where
  | widget (fields : BoardWidget)
  | container (kind : BoardContainerKind) (colSpan : UInt8)

def NewNode.build (id : String) : NewNode → BoardNode
  | .widget fields => .widget { fields with id := id }
  | .container kind colSpan => .container id kind colSpan []

inductive LayoutEdit where
  | place (stem : String) (node : NewNode) (parentId : Option String)
  | remove (id : String)
  | reorder (fromId toId : String)
  | move (nodeId containerId : String)
  | setSpan (id : String) (span : UInt8)

/-- What the board does on an action: the answer of the helper, and the tree it leaves. -/
def LayoutEdit.perform (nodes : List BoardNode) : LayoutEdit → Bool × List BoardNode
  | .place stem node parentId =>
    match nextNodeId stem nodes (totalNodes nodes + 1) with
    | none => (false, nodes)
    | some id => placeNewNode nodes (node.build id) parentId
  | .remove id => removeNode nodes id
  | .reorder fromId toId => reorderSiblings nodes fromId toId
  | .move nodeId containerId => moveIntoContainer nodes nodeId containerId
  | .setSpan id span => setSpanById nodes id span

/-- Any sequence of actions on a board whose ids are distinct. -/
def boardEditing : Transition.Machine (List BoardNode) LayoutEdit where
  start nodes := (collectNodeIds nodes).Nodup
  step nodes action := some (action.perform nodes).2

def Placement.resized (id : String) (span : UInt8) : Placement → Placement
  | (parent, .widget fields) =>
    if fields.id = id then (parent, .widget { fields with colSpan := max 1 (min span 12) })
    else (parent, .widget fields)
  | (parent, .container own kind colSpan) =>
    if own = id then (parent, .container own kind (max 1 (min span 12)))
    else (parent, .container own kind colSpan)

/-- A container of the board has this id. -/
def ContainerOf (nodes : List BoardNode) (id : String) : Prop :=
  ∃ kind colSpan children, BoardNode.container id kind colSpan children ∈ subtreesOf nodes

/-- What an action that goes through does to the tiles of the board. -/
def LayoutEdit.Conserves (before after : List BoardNode) : LayoutEdit → Prop
  | .place stem node parentId =>
    ∃ id, id ∉ collectNodeIds before ∧ (∃ n : Nat, id = stem ++ "-" ++ toString n) ∧
      (placedIn none after).Perm
        ((parentId.filter (· ≠ ""), BoardNode.tile (node.build id)) :: placedIn none before)
  | .remove id =>
    ∃ node ∈ subtreesOf before, node.id = id ∧
      ∃ parent, (placedIn none before).Perm (node.placed parent ++ placedIn none after)
  | .reorder fromId toId =>
    (placedIn none after).Perm (placedIn none before) ∧
      ∀ node ∈ subtreesOf before, node.id = fromId ∨ node.id = toId → node ∈ subtreesOf after
  | .move nodeId containerId =>
    ∃ node ∈ subtreesOf before, node.id = nodeId ∧ node ∈ subtreesOf after ∧
      ∃ parent others, (placedIn none before).Perm (node.placed parent ++ others) ∧
        (placedIn none after).Perm (node.placed (some containerId) ++ others)
  | .setSpan id span => (placedIn none after).Perm ((placedIn none before).map (·.resized id span))

/-- When the helper of an action answers that it changed the board. -/
def LayoutEdit.Applies (nodes : List BoardNode) : LayoutEdit → Prop
  | .place _ _ none => True
  | .place _ _ (some parent) => parent = "" ∨ ContainerOf nodes parent
  | .remove id => id ∈ collectNodeIds nodes
  | .reorder fromId toId => fromId ≠ toId ∧
      ∃ parent, (∃ tile : BoardTile, (parent, tile) ∈ placedIn none nodes ∧ tile.id = fromId) ∧
        ∃ tile : BoardTile, (parent, tile) ∈ placedIn none nodes ∧ tile.id = toId
  | .move nodeId containerId => ContainerOf nodes containerId ∧
      ∃ node ∈ subtreesOf nodes, node.id = nodeId ∧ containerId ∉ node.nodeIds
  | .setSpan id _ => id ∈ collectNodeIds nodes

/-- An answer with the tree that is left: the action conserved the tree, or did not apply. -/
def LayoutEdit.Answers (nodes : List BoardNode) (action : LayoutEdit) :
    Bool × List BoardNode → Prop
  | (true, after) => action.Conserves nodes after ∧ action.Applies nodes
  | (false, after) => after = nodes ∧ ¬ action.Applies nodes

section Levels

variable {level : List BoardNode} {id : String} {index : Nat}

/-- A found node leaves its level with the others. -/
theorem found_perm (found : level.findIdx? (·.id == id) = some index) :
    ∃ node, level[index]? = some node ∧ node.id = id ∧
      level.Perm (node :: level.eraseIdx index) := by
  obtain ⟨within, own, _⟩ := List.findIdx?_eq_some_iff_getElem.mp found
  refine ⟨level[index], List.getElem?_eq_getElem within, by simpa using own, ?_⟩
  exact (List.getElem_cons_eraseIdx_perm within).symm

theorem not_found (missing : level.findIdx? (·.id == id) = none) :
    ∀ node ∈ level, node.id ≠ id := by
  intro node member same
  have other := List.findIdx?_eq_none_iff.mp missing node member
  simp [same] at other

theorem leaveLevel_none {α : Type} {answer : BoardNode → α}
    (stays : leaveLevel answer id level = none) : ∀ node ∈ level, node.id ≠ id := by
  cases found : level.findIdx? (·.id == id) with
  | none => exact not_found found
  | some index =>
    obtain ⟨node, item, _⟩ := found_perm found
    simp [leaveLevel, found, item] at stays

theorem leaveLevel_some {α : Type} {answer : BoardNode → α} {found : α} {edited : List BoardNode}
    (left : leaveLevel answer id level = some (found, edited)) :
    ∃ node ∈ level, node.id = id ∧ answer node = found ∧ level.Perm (node :: edited) := by
  obtain ⟨index, position, taken⟩ := Option.bind_eq_some_iff.mp left
  obtain ⟨node, item, own, same⟩ := found_perm position
  rw [item] at taken
  cases taken
  exact ⟨node, List.mem_of_getElem? item, own, rfl, same⟩

theorem reorderLevel_none {fromId toId : String} (kept : reorderLevel fromId toId level = none)
    {moved target : BoardNode} (movedIn : moved ∈ level) (targetIn : target ∈ level)
    (movedId : moved.id = fromId) : target.id ≠ toId := by
  rw [reorderLevel] at kept
  split at kept
  · rename_i fromIndex toIndex found _
    obtain ⟨node, item, _⟩ := found_perm found
    simp [item] at kept
  · rename_i apart
    cases first : level.findIdx? (·.id == fromId) with
    | none => exact absurd movedId (not_found first moved movedIn)
    | some fromIndex =>
      cases second : level.findIdx? (·.id == toId) with
      | none => exact not_found second target targetIn
      | some toIndex => exact (apart fromIndex toIndex first second).elim

theorem reorderLevel_spec {fromId toId : String} {edited : List BoardNode}
    (reordered : reorderLevel fromId toId level = some ((), edited)) : edited.Perm level ∧
      (∃ node ∈ level, node.id = fromId) ∧ ∃ node ∈ level, node.id = toId := by
  rw [reorderLevel] at reordered
  split at reordered
  · rename_i fromIndex toIndex found target
    obtain ⟨node, item, own, same⟩ := found_perm found
    obtain ⟨other, otherItem, otherOwn, _⟩ := found_perm target
    rw [item] at reordered
    have written := congrArg Prod.snd (Option.some.inj reordered)
    simp only at written
    refine ⟨?_, ⟨node, List.mem_of_getElem? item, own⟩, ⟨other, List.mem_of_getElem? otherItem,
      otherOwn⟩⟩
    rw [← written]
    exact (List.perm_insertIdx _ _ (Nat.min_le_right _ _)).trans same.symm
  · cases reordered

end Levels

section Reading

variable (id : String) (nodes : List BoardNode)

theorem idExists_iff : idExists nodes id = true ↔ id ∈ collectNodeIds nodes := by
  induction nodes using BoardNode.level_induction with
  | nil => simp [idExists]
  | widget fields rest ih => simp [idExists, BoardNode.existsId, ih, @eq_comm _ id fields.id]
  | container own kind colSpan children rest inside ih =>
    simp [idExists, BoardNode.existsId, inside, ih, @eq_comm _ id own, or_assoc]

theorem findNode_eq : findNode nodes id = (subtreesOf nodes).find? (·.id == id) := by
  induction nodes using BoardNode.level_induction with
  | nil => rfl
  | widget fields rest ih =>
    rw [findNode, BoardNode.find, ih]
    rw [subtreesOf_cons, BoardNode.subtrees, List.cons_append]
    cases named : fields.id == id with
    | true => exact (List.find?_cons_of_pos (a := BoardNode.widget fields) named).symm
    | false =>
      exact (List.find?_cons_of_neg (a := BoardNode.widget fields)
        (Bool.eq_false_iff.mp named)).symm
  | container own kind colSpan children rest inside ih =>
    rw [findNode, BoardNode.find, ih, inside]
    rw [subtreesOf_cons, BoardNode.subtrees, List.cons_append]
    cases named : own == id with
    | true =>
      exact (List.find?_cons_of_pos (a := BoardNode.container own kind colSpan children)
        named).symm
    | false =>
      rw [List.find?_cons_of_neg (p := (BoardNode.id · == id))
        (a := BoardNode.container own kind colSpan children) (Bool.eq_false_iff.mp named),
        List.find?_append]
      cases (subtreesOf children).find? (·.id == id) with
      | none => rfl
      | some found => rfl

theorem totalNodes_eq : totalNodes nodes = (collectNodeIds nodes).length := by
  induction nodes using BoardNode.level_induction with
  | nil => rfl
  | widget fields rest ih => simp [totalNodes, BoardNode.countNodes, ih]; omega
  | container own kind colSpan children rest inside ih =>
    simp [totalNodes, BoardNode.countNodes, inside, ih]
    omega

variable {id nodes}

theorem mem_collectNodeIds_iff_subtree :
    id ∈ collectNodeIds nodes ↔ ∃ node ∈ subtreesOf nodes, node.id = id := by
  rw [← ids_subtreesOf, List.mem_map]

/-- Two nodes of a board with one id are one node. -/
theorem subtree_unique (distinct : (collectNodeIds nodes).Nodup) {node other : BoardNode}
    (member : node ∈ subtreesOf nodes) (otherMember : other ∈ subtreesOf nodes)
    (same : node.id = other.id) : node = other := by
  rw [← ids_subtreesOf] at distinct
  exact List.inj_on_of_nodup_map distinct member otherMember same

end Reading

section NextId

variable (stem : String) {nodes : List BoardNode}

/-- Of so many candidates one is no id of the board: each that is one uses up an id. -/
theorem nextNodeIdFrom_spec {rounds n : Nat} {used : List String}
    (later : ∀ m, n ≤ m → stem ++ "-" ++ toString m ∈ collectNodeIds nodes →
      stem ++ "-" ++ toString m ∈ used) (enough : used.length < rounds) :
    ∃ m, n ≤ m ∧ m ≤ n + used.length ∧
      nextNodeIdFrom stem nodes rounds n = some (stem ++ "-" ++ toString m) ∧
      stem ++ "-" ++ toString m ∉ collectNodeIds nodes := by
  induction rounds generalizing n used with
  | zero => omega
  | succ rounds ih =>
    rw [nextNodeIdFrom]
    by_cases taken : stem ++ "-" ++ toString n ∈ collectNodeIds nodes
    · have member := later n (Nat.le_refl n) taken
      have positive := List.length_pos_of_mem member
      have shorter := List.length_erase_of_mem member
      obtain ⟨m, above, below, found, free⟩ :=
        @ih (n + 1) (used.erase (stem ++ "-" ++ toString n)) (fun m above inside => by
          have other : stem ++ "-" ++ toString m ≠ stem ++ "-" ++ toString n := by
            intro same
            have numbers := Decimal.repr_injective ((String.append_right_inj _).mp same)
            omega
          exact (List.mem_erase_of_ne other).mpr (later m (by omega) inside)) (by omega)
      refine ⟨m, by omega, by omega, ?_, free⟩
      rw [if_pos ((idExists_iff _ _).mpr taken)]
      exact found
    · refine ⟨n, Nat.le_refl n, by omega, ?_, taken⟩
      rw [if_neg (fun exists_ => taken ((idExists_iff _ _).mp exists_))]

/-- More rounds do not change an id that was found. -/
theorem nextNodeIdFrom_more {few many n : Nat} {id : String} (more : few ≤ many)
    (found : nextNodeIdFrom stem nodes few n = some id) :
    nextNodeIdFrom stem nodes many n = some id := by
  induction few generalizing many n with
  | zero => cases found
  | succ few ih =>
    cases many with
    | zero => omega
    | succ many =>
      rw [nextNodeIdFrom] at found ⊢
      split
      · rename_i taken
        rw [if_pos taken] at found
        exact ih (by omega) found
      · rename_i free
        rwa [if_neg free] at found

/-- The loop ends after at most as many rounds as there are nodes, and one. -/
theorem nextNodeId_spec (nodes : List BoardNode) :
    ∃ n, n ≤ 2 * totalNodes nodes + 1 ∧ stem ++ "-" ++ toString n ∉ collectNodeIds nodes ∧
      ∀ rounds, totalNodes nodes < rounds →
        nextNodeId stem nodes rounds = some (stem ++ "-" ++ toString n) := by
  have size := totalNodes_eq nodes
  obtain ⟨m, above, within, found, free⟩ :=
    @nextNodeIdFrom_spec stem nodes (totalNodes nodes + 1) (totalNodes nodes + 1)
      (collectNodeIds nodes) (fun m above taken => taken) (by omega)
  refine ⟨m, by omega, free, ?_⟩
  intro rounds enough
  exact nextNodeIdFrom_more stem enough found

end NextId

end DddCqrsEs.FullstackApp
