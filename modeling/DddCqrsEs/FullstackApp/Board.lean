import DddCqrsEs.FullstackApp.Access
import Mathlib.Data.List.Basic

/- The dashboard board: a forest of widgets and containers, and what a viewer is shown of it. -/
namespace DddCqrsEs.FullstackApp

inductive BoardContainerKind where
  | row
  | stack
  deriving DecidableEq

inductive HttpDisplayMode where
  | metric
  | list
  | table
  deriving DecidableEq

structure WidgetBind where
  itemsPath : Option String := none
  valuePath : Option String := none
  labelPath : Option String := none
  titlePath : Option String := none
  subtitlePath : Option String := none
  metaPath : Option String := none
  columns : List (String × String) := []
  deriving DecidableEq

/-- The fields of `BoardNode::Widget`. -/
structure BoardWidget where
  id : String
  kind : DashboardWidgetKind
  colSpan : UInt8
  noteText : Option String := none
  sourceId : Option String := none
  bind : WidgetBind := {}
  httpMode : HttpDisplayMode := .list
  deriving DecidableEq

inductive BoardNode where
  | widget (fields : BoardWidget)
  | container (id : String) (kind : BoardContainerKind) (colSpan : UInt8)
      (children : List BoardNode)

namespace BoardNode

def id : BoardNode → String
  | widget fields => fields.id
  | container id _ _ _ => id

def colSpan : BoardNode → UInt8
  | widget fields => fields.colSpan
  | container _ _ colSpan _ => colSpan

/-- Induction on a level of the board: a widget or a container comes first, and a container
has a level of its own. -/
theorem level_induction {motive : List BoardNode → Prop} (nil : motive [])
    (widget : ∀ fields rest, motive rest → motive (.widget fields :: rest))
    (container : ∀ id kind colSpan children rest, motive children → motive rest →
      motive (.container id kind colSpan children :: rest)) (nodes : List BoardNode) :
    motive nodes := by
  refine @BoardNode.rec_1 (fun node => ∀ rest, motive rest → motive (node :: rest)) motive
    widget ?_ nil ?_ nodes
  · intro id kind colSpan children inside rest
    exact container id kind colSpan children rest inside
  · intro node rest first later
    exact first rest later

end BoardNode

mutual

/-- `count_nodes` -/
def BoardNode.countNodes : BoardNode → Nat
  | .widget _ => 1
  | .container _ _ _ children => 1 + totalNodes children

def totalNodes : List BoardNode → Nat
  | [] => 0
  | node :: rest => node.countNodes + totalNodes rest

end

def isHiddenFrom (ctx : AccessContext) (fields : BoardWidget) : Bool :=
  !(widgetViewRequirement fields.kind).isSatisfiedBy ctx

mutual

/-- The closure of `filter_board_nodes`. -/
def filterBoardNode (ctx : AccessContext) : BoardNode → Option BoardNode
  | .container id kind colSpan children =>
    match filterBoardNodes ctx children with
    | [] => none
    | first :: more => some (.container id kind colSpan (first :: more))
  | .widget fields => if isHiddenFrom ctx fields then none else some (.widget fields)

/-- Drop widgets (and empty containers) the viewer cannot see. -/
def filterBoardNodes (ctx : AccessContext) : List BoardNode → List BoardNode
  | [] => []
  | node :: rest =>
    match filterBoardNode ctx node with
    | none => filterBoardNodes ctx rest
    | some kept => kept :: filterBoardNodes ctx rest

end

mutual

def BoardNode.nodeIds : BoardNode → List String
  | .widget fields => [fields.id]
  | .container id _ _ children => id :: collectNodeIds children

/-- The ids that `collect_node_ids` inserts into its set. -/
def collectNodeIds : List BoardNode → List String
  | [] => []
  | node :: rest => node.nodeIds ++ collectNodeIds rest

end

mutual

def BoardNode.collectHidden (ctx : AccessContext) (present : List String) :
    BoardNode → List BoardWidget
  | .widget fields =>
    if fields.id ∈ present then [] else if isHiddenFrom ctx fields then [fields] else []
  | .container id _ _ children =>
    if id ∈ present then [] else collectHiddenNodes ctx present children

/-- The nodes that `collect_hidden_nodes` pushes. Only widgets are ever hidden. -/
def collectHiddenNodes (ctx : AccessContext) (present : List String) :
    List BoardNode → List BoardWidget
  | [] => []
  | node :: rest => node.collectHidden ctx present ++ collectHiddenNodes ctx present rest

end

mutual

def BoardNode.storedChildren (containerId : String) : BoardNode → Option (List BoardNode)
  | .widget _ => none
  | .container id _ _ children =>
    if id = containerId then some children
    else storedChildrenOf containerId children

/-- `stored_children` -/
def storedChildrenOf (containerId : String) : List BoardNode → Option (List BoardNode)
  | [] => none
  | node :: rest =>
    match node.storedChildren containerId with
    | some children => some children
    | none => storedChildrenOf containerId rest

end

/-- The second loop of `merge_hidden_level`, from an index of the stored level on. It inserts
hidden widgets into the merged level, and sends those inside removed containers to the root. -/
def restoreHidden (ctx : AccessContext) (present : List String) :
    Nat → List BoardNode → List BoardNode → List BoardWidget → List BoardNode × List BoardWidget
  | _, [], merged, orphans => (merged, orphans)
  | index, .widget fields :: rest, merged, orphans =>
    if fields.id ∈ present then restoreHidden ctx present (index + 1) rest merged orphans
    else if isHiddenFrom ctx fields then
      restoreHidden ctx present (index + 1) rest
        (merged.insertIdx (min index merged.length) (.widget fields)) orphans
    else restoreHidden ctx present (index + 1) rest merged orphans
  | index, .container id _ _ children :: rest, merged, orphans =>
    if id ∈ present then restoreHidden ctx present (index + 1) rest merged orphans
    else
      restoreHidden ctx present (index + 1) rest merged
        (orphans ++ collectHiddenNodes ctx present children)

mutual

/-- The closure that `merge_hidden_level` maps over the incoming nodes. -/
def mergeHiddenNode (ctx : AccessContext) (present : List String) (storedRoot : List BoardNode) :
    BoardNode → List BoardWidget → BoardNode × List BoardWidget
  | .widget fields, orphans => (.widget fields, orphans)
  | .container id kind colSpan children, orphans =>
    match storedChildrenOf id storedRoot with
    | some storedLevel =>
      let (merged, orphans) := mergeHiddenNodes ctx present storedRoot children orphans
      let (merged, orphans) := restoreHidden ctx present 0 storedLevel merged orphans
      (.container id kind colSpan merged, orphans)
    | none => (.container id kind colSpan children, orphans)

/-- The map over the incoming nodes at the head of `merge_hidden_level`. -/
def mergeHiddenNodes (ctx : AccessContext) (present : List String) (storedRoot : List BoardNode) :
    List BoardNode → List BoardWidget → List BoardNode × List BoardWidget
  | [], orphans => ([], orphans)
  | node :: rest, orphans =>
    let (node, orphans) := mergeHiddenNode ctx present storedRoot node orphans
    let (rest, orphans) := mergeHiddenNodes ctx present storedRoot rest orphans
    (node :: rest, orphans)

end

def mergeHiddenLevel (ctx : AccessContext) (present : List String)
    (storedRoot storedLevel incoming : List BoardNode) (orphans : List BoardWidget) :
    List BoardNode × List BoardWidget :=
  let (merged, orphans) := mergeHiddenNodes ctx present storedRoot incoming orphans
  restoreHidden ctx present 0 storedLevel merged orphans

/-- Restore board nodes the caller was never allowed to see into an incoming tree. -/
def mergeHiddenBoardNodes (ctx : AccessContext) (stored incoming : List BoardNode) :
    List BoardNode :=
  let present := collectNodeIds incoming
  let (merged, orphans) := mergeHiddenLevel ctx present stored stored incoming []
  merged ++ orphans.map .widget

end DddCqrsEs.FullstackApp
