import DddCqrsEs.FullstackApp.BoardForest

/- The board as a tree: where its nodes are placed, and edits of the first level or of the first
node that an edit applies to. -/
namespace DddCqrsEs.FullstackApp

/-- What a node holds besides its children. -/
inductive BoardTile where
  | widget (fields : BoardWidget)
  | container (id : String) (kind : BoardContainerKind) (colSpan : UInt8)
  deriving DecidableEq

namespace BoardTile

def id : BoardTile → String
  | widget fields => fields.id
  | container id _ _ => id

end BoardTile

namespace BoardNode

def tile : BoardNode → BoardTile
  | widget fields => .widget fields
  | container id kind colSpan _ => .container id kind colSpan

@[grind =]
def children : BoardNode → List BoardNode
  | widget _ => []
  | container _ _ _ children => children

end BoardNode

/-- A tile, with the container that it lies in. -/
abbrev Placement := Option String × BoardTile

mutual

def BoardNode.placed (parent : Option String) : BoardNode → List Placement
  | .widget fields => [(parent, .widget fields)]
  | .container id kind colSpan children =>
    (parent, .container id kind colSpan) :: placedIn (some id) children

/-- The tiles of a level and of those below it. -/
def placedIn (parent : Option String) : List BoardNode → List Placement
  | [] => []
  | node :: rest => node.placed parent ++ placedIn parent rest

end

mutual

def BoardNode.subtrees : BoardNode → List BoardNode
  | .widget fields => [.widget fields]
  | .container id kind colSpan children =>
    .container id kind colSpan children :: subtreesOf children

/-- The nodes of a level, each before those below it. -/
def subtreesOf : List BoardNode → List BoardNode
  | [] => []
  | node :: rest => node.subtrees ++ subtreesOf rest

end

section Levels

variable (parent : Option String) (node : BoardNode) (first second rest : List BoardNode)

@[simp] theorem placedIn_nil : placedIn parent [] = [] := rfl

@[simp] theorem placedIn_cons :
    placedIn parent (node :: rest) = node.placed parent ++ placedIn parent rest := rfl

@[simp] theorem placedIn_append :
    placedIn parent (first ++ second) = placedIn parent first ++ placedIn parent second := by
  induction first with
  | nil => rfl
  | cons node first ih => simp [ih]

@[simp] theorem subtreesOf_nil : subtreesOf [] = [] := rfl

@[simp] theorem subtreesOf_cons :
    subtreesOf (node :: rest) = node.subtrees ++ subtreesOf rest := rfl

@[simp] theorem subtreesOf_append :
    subtreesOf (first ++ second) = subtreesOf first ++ subtreesOf second := by
  induction first with
  | nil => rfl
  | cons node first ih => simp [ih]

theorem placed_eq :
    node.placed parent = (parent, node.tile) :: placedIn (some node.id) node.children := by
  cases node with
  | widget fields => rfl
  | container id kind colSpan children => rfl

theorem subtrees_eq : node.subtrees = node :: subtreesOf node.children := by
  cases node with
  | widget fields => rfl
  | container id kind colSpan children => rfl

theorem tile_id : node.tile.id = node.id := by
  cases node with
  | widget fields => rfl
  | container id kind colSpan children => rfl

theorem nodeIds_eq : node.nodeIds = node.id :: collectNodeIds node.children := by
  cases node with
  | widget fields => rfl
  | container id kind colSpan children => rfl

theorem placedIn_perm {first second : List BoardNode} (same : first.Perm second) :
    (placedIn parent first).Perm (placedIn parent second) := by
  induction same with
  | nil => exact List.Perm.refl _
  | cons node same ih => exact ih.append_left _
  | swap node other rest =>
    simp only [placedIn_cons, ← List.append_assoc]
    exact List.perm_append_comm.append_right _
  | trans before after ihBefore ihAfter => exact ihBefore.trans ihAfter

end Levels

/-- The tiles are those of the nodes, in their order. -/
theorem tiles_placedIn (parent : Option String) (nodes : List BoardNode) :
    (placedIn parent nodes).map Prod.snd = (subtreesOf nodes).map BoardNode.tile := by
  induction nodes using BoardNode.level_induction generalizing parent with
  | nil => rfl
  | widget fields rest ih => simp [BoardNode.placed, BoardNode.subtrees, BoardNode.tile, ih]
  | container id kind colSpan children rest inside ih =>
    simp [BoardNode.placed, BoardNode.subtrees, BoardNode.tile, ih, inside]

theorem ids_subtreesOf (nodes : List BoardNode) :
    (subtreesOf nodes).map BoardNode.id = collectNodeIds nodes := by
  induction nodes using BoardNode.level_induction with
  | nil => rfl
  | widget fields rest ih => simp [BoardNode.subtrees, BoardNode.id, ih]
  | container id kind colSpan children rest inside ih =>
    simp [BoardNode.subtrees, BoardNode.id, ih, inside]

theorem ids_placedIn (parent : Option String) (nodes : List BoardNode) :
    (placedIn parent nodes).map (·.2.id) = collectNodeIds nodes := by
  have tiles := congrArg (List.map BoardTile.id) (tiles_placedIn parent nodes)
  rw [List.map_map, List.map_map] at tiles
  rw [← ids_subtreesOf]
  calc (placedIn parent nodes).map (·.2.id)
      = (subtreesOf nodes).map (BoardTile.id ∘ BoardNode.tile) := tiles
    _ = (subtreesOf nodes).map BoardNode.id := List.map_congr_left (fun node _ => tile_id node)

theorem ids_placed (parent : Option String) (node : BoardNode) :
    (node.placed parent).map (·.2.id) = node.nodeIds := by
  rw [placed_eq, List.map_cons, ids_placedIn, tile_id, nodeIds_eq]

/-- The end of one level before and after an edit, in the board before and after it. -/
inductive Edited (parent : Option String) (level edited : List BoardNode) :
    Option String → List BoardNode → List BoardNode → Prop where
  | here : Edited parent level edited parent level edited
  | later {own : Option String} {before after : List BoardNode} (node : BoardNode)
      (changed : Edited parent level edited own before after) :
      Edited parent level edited own (node :: before) (node :: after)
  | inside (own : Option String) (id : String) (kind : BoardContainerKind) (colSpan : UInt8)
      (rest : List BoardNode) {children inner : List BoardNode}
      (changed : Edited parent level edited (some id) children inner) :
      Edited parent level edited own (.container id kind colSpan children :: rest)
        (.container id kind colSpan inner :: rest)

section Edits

variable {own parent : Option String} {before after level edited : List BoardNode}

/-- An edit of a level leaves the rest of the board as it was. -/
theorem Edited.placed (changed : Edited parent level edited own before after) :
    ∃ others, (placedIn own before).Perm (placedIn parent level ++ others) ∧
      (placedIn own after).Perm (placedIn parent edited ++ others) := by
  induction changed with
  | here => exact ⟨[], by simp, by simp⟩
  | @later own before after node changed ih =>
    obtain ⟨others, old, new⟩ := ih
    rw [List.perm_iff_count] at old new
    refine ⟨node.placed own ++ others, ?_, ?_⟩
    · rw [List.perm_iff_count]
      intro placement
      have counts := old placement
      simp only [placedIn_cons, List.count_append] at counts ⊢
      omega
    · rw [List.perm_iff_count]
      intro placement
      have counts := new placement
      simp only [placedIn_cons, List.count_append] at counts ⊢
      omega
  | inside own id kind colSpan rest changed ih =>
    obtain ⟨others, old, new⟩ := ih
    rw [List.perm_iff_count] at old new
    refine ⟨(own, .container id kind colSpan) :: placedIn own rest ++ others, ?_, ?_⟩
    · rw [List.perm_iff_count]
      intro placement
      have counts := old placement
      simp only [placedIn_cons, BoardNode.placed, List.count_append, List.count_cons] at counts ⊢
      omega
    · rw [List.perm_iff_count]
      intro placement
      have counts := new placement
      simp only [placedIn_cons, BoardNode.placed, List.count_append, List.count_cons] at counts ⊢
      omega

theorem Edited.subtrees_before (changed : Edited parent level edited own before after) :
    subtreesOf level ⊆ subtreesOf before := by
  induction changed with
  | here => exact List.Subset.refl _
  | later node changed ih =>
    intro found member
    simp [ih member]
  | inside own id kind colSpan rest changed ih =>
    intro found member
    simp [BoardNode.subtrees, ih member]

theorem Edited.subtrees_after (changed : Edited parent level edited own before after) :
    subtreesOf edited ⊆ subtreesOf after := by
  induction changed with
  | here => exact List.Subset.refl _
  | later node changed ih =>
    intro found member
    simp [ih member]
  | inside own id kind colSpan rest changed ih =>
    intro found member
    simp [BoardNode.subtrees, ih member]

end Edits

variable {nodes : List BoardNode} {node : BoardNode}

theorem mem_subtreesOf_of_mem (member : node ∈ nodes) : node ∈ subtreesOf nodes := by
  induction nodes with
  | nil => cases member
  | cons first rest ih =>
    rw [subtreesOf_cons, subtrees_eq]
    rcases List.mem_cons.mp member with same | later
    · simp [same]
    · simp [ih later]

/-- What lies under a parent: the first level under the parent it is given, and the children of
a node under its id. -/
theorem mem_placedIn_iff {own parent : Option String} {tile : BoardTile} :
    (parent, tile) ∈ placedIn own nodes ↔
      (parent = own ∧ ∃ node ∈ nodes, node.tile = tile) ∨
        ∃ above ∈ subtreesOf nodes, parent = some above.id ∧
          ∃ node ∈ above.children, node.tile = tile := by
  induction nodes using BoardNode.level_induction generalizing own with
  | nil => simp
  | widget fields rest ih =>
    simp only [placedIn_cons, placed_eq, List.cons_append, List.mem_cons, List.mem_append,
      subtreesOf_cons, subtrees_eq, BoardNode.children, placedIn_nil, subtreesOf_nil, ih,
      Prod.mk.injEq]
    grind [BoardNode.children]
  | container id kind colSpan children rest inside ih =>
    simp only [placedIn_cons, placed_eq, List.cons_append, List.mem_cons, List.mem_append,
      subtreesOf_cons, subtrees_eq, BoardNode.children, inside, ih, Prod.mk.injEq]
    grind [BoardNode.children]

/-- Every node lies on the first level or among the children of another. -/
theorem mem_level_of_mem_subtreesOf (member : node ∈ subtreesOf nodes) :
    node ∈ nodes ∨ ∃ above ∈ subtreesOf nodes, node ∈ above.children := by
  induction nodes using BoardNode.level_induction with
  | nil => cases member
  | widget fields rest ih =>
    rw [subtreesOf_cons, List.mem_append] at member
    rcases member with own | later
    · simp [BoardNode.subtrees] at own
      simp [own]
    · rcases ih later with level | ⟨above, inside, child⟩
      · simp [level]
      · exact Or.inr ⟨above, by simp [inside], child⟩
  | container id kind colSpan children rest inner ih =>
    rw [subtreesOf_cons, List.mem_append, BoardNode.subtrees, List.mem_cons] at member
    rcases member with (own | below) | later
    · simp [own]
    · rcases inner below with level | ⟨above, inside, child⟩
      · exact Or.inr ⟨.container id kind colSpan children, by simp [BoardNode.subtrees], level⟩
      · exact Or.inr ⟨above, by simp [BoardNode.subtrees, inside], child⟩
    · rcases ih later with level | ⟨above, inside, child⟩
      · simp [level]
      · exact Or.inr ⟨above, by simp [inside], child⟩

section FirstLevel

variable {α : Type} (edit : List BoardNode → Option (α × List BoardNode))

mutual

/-- The recursive call for one node: its children are edited, or those below them. -/
def BoardNode.editBelow : BoardNode → Option α × BoardNode
  | .widget fields => (none, .widget fields)
  | .container id kind colSpan children =>
    match edit children with
    | some (found, changed) => (some found, .container id kind colSpan changed)
    | none =>
      let below := editBelowFirst children
      (below.1, .container id kind colSpan below.2)

/-- The loop over the nodes of a level, up to the first whose call succeeds. -/
def editBelowFirst : List BoardNode → Option α × List BoardNode
  | [] => (none, [])
  | node :: rest =>
    match node.editBelow with
    | (some found, changed) => (some found, changed :: rest)
    | (none, same) =>
      let later := editBelowFirst rest
      (later.1, same :: later.2)

end

/-- An edit of the first level that it applies to: of this one, or of one below it. -/
def editLevel (nodes : List BoardNode) : Option α × List BoardNode :=
  match edit nodes with
  | some (found, changed) => (some found, changed)
  | none => editBelowFirst edit nodes

/-- What an edit of the first level does: nothing where it applies to no level, and otherwise
the edit of one level. -/
def EditsLevel (own : Option String) (nodes : List BoardNode) :
    Option α × List BoardNode → Prop
  | (none, same) => same = nodes ∧ ∀ node ∈ subtreesOf nodes, edit node.children = none
  | (some found, changed) => ∃ parent level edited,
      edit level = some (found, edited) ∧ Edited parent level edited own nodes changed

variable {edit} (childless : edit [] = none)

include childless

theorem editBelowFirst_spec (own : Option String) (nodes : List BoardNode) :
    EditsLevel edit own nodes (editBelowFirst edit nodes) := by
  induction nodes using BoardNode.level_induction generalizing own with
  | nil => exact ⟨rfl, fun _ member => by cases member⟩
  | widget fields rest ih =>
    have later := ih own
    rw [editBelowFirst, BoardNode.editBelow]
    rcases result : editBelowFirst edit rest with ⟨found | found, changed⟩
    · rw [result] at later
      obtain ⟨same, nowhere⟩ := later
      refine ⟨by rw [same], ?_⟩
      intro node member
      rw [subtreesOf_cons, List.mem_append] at member
      rcases member with first | other
      · rw [List.mem_singleton.mp first]
        exact childless
      · exact nowhere node other
    · rw [result] at later
      obtain ⟨parent, level, edited, applies, change⟩ := later
      exact ⟨parent, level, edited, applies, .later _ change⟩
  | container id kind colSpan children rest inside ih =>
    have below := inside (some id)
    have later := ih own
    rw [editBelowFirst, BoardNode.editBelow]
    cases applies : edit children with
    | some result =>
      obtain ⟨found, changed⟩ := result
      exact ⟨some id, children, changed, applies, .inside own id kind colSpan rest .here⟩
    | none =>
      rcases inner : editBelowFirst edit children with ⟨found | found, changed⟩
      · rw [inner] at below
        obtain ⟨same, nowhere⟩ := below
        rcases result : editBelowFirst edit rest with ⟨other | other, written⟩
        · rw [result] at later
          obtain ⟨rests, nowhereLater⟩ := later
          refine ⟨by rw [same, rests], ?_⟩
          intro node member
          rw [subtreesOf_cons, List.mem_append, BoardNode.subtrees, List.mem_cons] at member
          rcases member with (first | inner) | other
          · rw [first]
            exact applies
          · exact nowhere node inner
          · exact nowhereLater node other
        · rw [result] at later
          obtain ⟨parent, level, edited, changes, change⟩ := later
          refine ⟨parent, level, edited, changes, ?_⟩
          rw [same]
          exact .later _ change
      · rw [inner] at below
        obtain ⟨parent, level, edited, changes, change⟩ := below
        exact ⟨parent, level, edited, changes, .inside own id kind colSpan rest change⟩

theorem editLevel_spec (own : Option String) (nodes : List BoardNode) :
    match editLevel edit nodes with
    | (none, same) => same = nodes ∧ edit nodes = none ∧
        ∀ node ∈ subtreesOf nodes, edit node.children = none
    | (some found, changed) => ∃ parent level edited,
        edit level = some (found, edited) ∧ Edited parent level edited own nodes changed := by
  have below := editBelowFirst_spec childless own nodes
  rw [editLevel]
  cases applies : edit nodes with
  | some result =>
    obtain ⟨found, changed⟩ := result
    exact ⟨own, nodes, changed, applies, .here⟩
  | none =>
    rcases result : editBelowFirst edit nodes with ⟨found | found, changed⟩
    · rw [result] at below
      exact ⟨below.1, rfl, below.2⟩
    · rw [result] at below
      exact below

end FirstLevel

section FirstNode

variable (edit : BoardNode → Option BoardNode)

mutual

/-- A node is edited, or the first of those below it that the edit applies to. -/
def BoardNode.editFirst : BoardNode → Bool × BoardNode
  | .widget fields =>
    match edit (.widget fields) with
    | some changed => (true, changed)
    | none => (false, .widget fields)
  | .container id kind colSpan children =>
    match edit (.container id kind colSpan children) with
    | some changed => (true, changed)
    | none =>
      let below := editFirstOf children
      (below.1, .container id kind colSpan below.2)

/-- The loop over the nodes of a level, up to the first whose call succeeds. -/
def editFirstOf : List BoardNode → Bool × List BoardNode
  | [] => (false, [])
  | node :: rest =>
    match node.editFirst with
    | (true, changed) => (true, changed :: rest)
    | (false, same) =>
      let later := editFirstOf rest
      (later.1, same :: later.2)

end

/-- What an edit of the first node does: nothing where it applies to no node, and otherwise the
edit of one node. -/
def EditsNode (own : Option String) (nodes : List BoardNode) : Bool × List BoardNode → Prop
  | (false, same) => same = nodes ∧ ∀ node ∈ subtreesOf nodes, edit node = none
  | (true, changed) => ∃ parent node edited rest,
      edit node = some edited ∧
        Edited parent (node :: rest) (edited :: rest) own nodes changed

theorem editFirstOf_spec (own : Option String) (nodes : List BoardNode) :
    EditsNode edit own nodes (editFirstOf edit nodes) := by
  induction nodes using BoardNode.level_induction generalizing own with
  | nil => exact ⟨rfl, fun _ member => by cases member⟩
  | widget fields rest ih =>
    have later := ih own
    rw [editFirstOf, BoardNode.editFirst]
    cases applies : edit (.widget fields) with
    | some changed => exact ⟨own, _, changed, rest, applies, .here⟩
    | none =>
      rcases result : editFirstOf edit rest with ⟨found | found, written⟩
      · rw [result] at later
        obtain ⟨same, nowhere⟩ := later
        refine ⟨by rw [same], ?_⟩
        intro node member
        rw [subtreesOf_cons, List.mem_append] at member
        rcases member with first | other
        · rw [List.mem_singleton.mp first]
          exact applies
        · exact nowhere node other
      · rw [result] at later
        obtain ⟨parent, node, edited, behind, changes, change⟩ := later
        exact ⟨parent, node, edited, behind, changes, .later _ change⟩
  | container id kind colSpan children rest inside ih =>
    have below := inside (some id)
    have later := ih own
    rw [editFirstOf, BoardNode.editFirst]
    cases applies : edit (.container id kind colSpan children) with
    | some changed => exact ⟨own, _, changed, rest, applies, .here⟩
    | none =>
      rcases inner : editFirstOf edit children with ⟨found | found, changed⟩
      · rw [inner] at below
        obtain ⟨same, nowhere⟩ := below
        rcases result : editFirstOf edit rest with ⟨other | other, written⟩
        · rw [result] at later
          obtain ⟨rests, nowhereLater⟩ := later
          refine ⟨by rw [same, rests], ?_⟩
          intro node member
          rw [subtreesOf_cons, List.mem_append, BoardNode.subtrees, List.mem_cons] at member
          rcases member with (first | inner) | other
          · rw [first]
            exact applies
          · exact nowhere node inner
          · exact nowhereLater node other
        · rw [result] at later
          obtain ⟨parent, node, edited, behind, changes, change⟩ := later
          refine ⟨parent, node, edited, behind, changes, ?_⟩
          rw [same]
          exact .later _ change
      · rw [inner] at below
        obtain ⟨parent, node, edited, behind, changes, change⟩ := below
        exact ⟨parent, node, edited, behind, changes, .inside own id kind colSpan rest change⟩

end FirstNode

end DddCqrsEs.FullstackApp
