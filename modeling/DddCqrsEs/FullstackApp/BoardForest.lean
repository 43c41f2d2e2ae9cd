import DddCqrsEs.FullstackApp.Board
import Mathlib.Data.List.Nodup
import Mathlib.Data.List.Perm.Basic

/- The nodes of a board level by level: what the traversals do at a widget and at a container,
the widgets and containers that they meet, and trees that differ by one node. -/
namespace DddCqrsEs.FullstackApp

section Traversals

variable (ctx : AccessContext) (present : List String) (fields : BoardWidget) (id : String)
  (kind : BoardContainerKind) (colSpan : UInt8) (children rest : List BoardNode)

@[simp] theorem filterBoardNodes_nil : filterBoardNodes ctx [] = [] := rfl

@[simp] theorem filterBoardNodes_widget :
    filterBoardNodes ctx (.widget fields :: rest) =
      if isHiddenFrom ctx fields then filterBoardNodes ctx rest
      else .widget fields :: filterBoardNodes ctx rest := by
  rw [filterBoardNodes, filterBoardNode]
  cases isHiddenFrom ctx fields <;> rfl

@[simp] theorem filterBoardNodes_container :
    filterBoardNodes ctx (.container id kind colSpan children :: rest) =
      if (filterBoardNodes ctx children).isEmpty then filterBoardNodes ctx rest
      else .container id kind colSpan (filterBoardNodes ctx children) ::
        filterBoardNodes ctx rest := by
  rw [filterBoardNodes, filterBoardNode]
  cases filterBoardNodes ctx children <;> rfl

@[simp] theorem collectNodeIds_nil : collectNodeIds [] = [] := rfl

@[simp] theorem collectNodeIds_widget :
    collectNodeIds (.widget fields :: rest) = fields.id :: collectNodeIds rest := rfl

@[simp] theorem collectNodeIds_container :
    collectNodeIds (.container id kind colSpan children :: rest) =
      id :: (collectNodeIds children ++ collectNodeIds rest) := rfl

@[simp] theorem collectHiddenNodes_nil : collectHiddenNodes ctx present [] = [] := rfl

@[simp] theorem collectHiddenNodes_widget :
    collectHiddenNodes ctx present (.widget fields :: rest) =
      (if fields.id ∈ present then [] else if isHiddenFrom ctx fields then [fields] else []) ++
        collectHiddenNodes ctx present rest := rfl

@[simp] theorem collectHiddenNodes_container :
    collectHiddenNodes ctx present (.container id kind colSpan children :: rest) =
      (if id ∈ present then [] else collectHiddenNodes ctx present children) ++
        collectHiddenNodes ctx present rest := rfl

end Traversals

mutual

def BoardNode.leaves : BoardNode → List BoardWidget
  | .widget fields => [fields]
  | .container _ _ _ children => widgetsOf children

/-- The widgets of a level and of all the levels below it. -/
def widgetsOf : List BoardNode → List BoardWidget
  | [] => []
  | node :: rest => node.leaves ++ widgetsOf rest

end

mutual

def BoardNode.levels : BoardNode → List (String × List BoardNode)
  | .widget _ => []
  | .container id _ _ children => (id, children) :: containersOf children

/-- The containers of a level and of all the levels below it, with their children. -/
def containersOf : List BoardNode → List (String × List BoardNode)
  | [] => []
  | node :: rest => node.levels ++ containersOf rest

end

def containerIds (nodes : List BoardNode) : List String := (containersOf nodes).map Prod.fst

def widgetIds (nodes : List BoardNode) : List String := (widgetsOf nodes).map BoardWidget.id

def hiddenWidgets (ctx : AccessContext) (nodes : List BoardNode) : List BoardWidget :=
  (widgetsOf nodes).filter (isHiddenFrom ctx)

section Members

variable (fields : BoardWidget) (id : String) (kind : BoardContainerKind) (colSpan : UInt8)
  (children rest : List BoardNode)

@[simp] theorem widgetsOf_nil : widgetsOf [] = [] := rfl

@[simp] theorem widgetsOf_widget :
    widgetsOf (.widget fields :: rest) = fields :: widgetsOf rest := rfl

@[simp] theorem widgetsOf_container :
    widgetsOf (.container id kind colSpan children :: rest) =
      widgetsOf children ++ widgetsOf rest := rfl

@[simp] theorem containersOf_nil : containersOf [] = [] := rfl

@[simp] theorem containersOf_widget :
    containersOf (.widget fields :: rest) = containersOf rest := rfl

@[simp] theorem containersOf_container :
    containersOf (.container id kind colSpan children :: rest) =
      (id, children) :: (containersOf children ++ containersOf rest) := rfl

theorem widgetsOf_eq_flatMap (nodes : List BoardNode) :
    widgetsOf nodes = nodes.flatMap BoardNode.leaves := by
  induction nodes with
  | nil => rfl
  | cons node nodes ih => rw [widgetsOf, ih, List.flatMap_cons]

theorem widgetsOf_append (first second : List BoardNode) :
    widgetsOf (first ++ second) = widgetsOf first ++ widgetsOf second := by
  simp only [widgetsOf_eq_flatMap, List.flatMap_append]

theorem widgetsOf_map_widget (widgets : List BoardWidget) :
    widgetsOf (widgets.map .widget) = widgets := by
  induction widgets with
  | nil => rfl
  | cons fields widgets ih => rw [List.map_cons, widgetsOf_widget, ih]

end Members

/-- Every node is a widget or a container. -/
theorem collectNodeIds_perm (nodes : List BoardNode) :
    (collectNodeIds nodes).Perm (widgetIds nodes ++ containerIds nodes) := by
  rw [List.perm_iff_count]
  intro id
  induction nodes using BoardNode.level_induction with
  | nil => rfl
  | widget fields rest ih =>
    simp only [widgetIds, containerIds, collectNodeIds_widget, widgetsOf_widget,
      containersOf_widget, List.map_cons, List.cons_append, List.count_cons,
      List.count_append] at ih ⊢
    omega
  | container own kind colSpan children rest inside ih =>
    simp only [widgetIds, containerIds, collectNodeIds_container, widgetsOf_container,
      containersOf_container, List.map_cons, List.map_append, List.count_cons,
      List.count_append] at inside ih ⊢
    omega

variable {nodes : List BoardNode} {containerId : String}

/-- The ids of the widgets, and those of the containers, are distinct and no id is both. -/
theorem ids_nodup (distinct : (collectNodeIds nodes).Nodup) :
    (widgetIds nodes).Nodup ∧ (containerIds nodes).Nodup ∧
      ∀ id ∈ widgetIds nodes, id ∉ containerIds nodes := by
  have both := (collectNodeIds_perm nodes).nodup_iff.mp distinct
  obtain ⟨widgets, containers, apart⟩ := List.nodup_append.mp both
  exact ⟨widgets, containers, fun id member other => apart id member id other rfl⟩

theorem mem_collectNodeIds_iff {id : String} :
    id ∈ collectNodeIds nodes ↔ id ∈ widgetIds nodes ∨ id ∈ containerIds nodes := by
  rw [(collectNodeIds_perm nodes).mem_iff, List.mem_append]

/-- Two widgets of a board with one id are one widget. -/
theorem widget_unique (distinct : (collectNodeIds nodes).Nodup) {fields other : BoardWidget}
    (member : fields ∈ widgetsOf nodes) (otherMember : other ∈ widgetsOf nodes)
    (same : fields.id = other.id) : fields = other :=
  List.inj_on_of_nodup_map (ids_nodup distinct).1 member otherMember same

/-- The viewer is shown exactly the widgets that are not hidden. -/
theorem widgetsOf_filterBoardNodes (ctx : AccessContext) (nodes : List BoardNode) :
    widgetsOf (filterBoardNodes ctx nodes) =
      (widgetsOf nodes).filter fun fields => !isHiddenFrom ctx fields := by
  induction nodes using BoardNode.level_induction with
  | nil => rfl
  | widget fields rest ih =>
    rw [filterBoardNodes_widget, widgetsOf_widget, List.filter_cons]
    cases isHiddenFrom ctx fields with
    | false => simp [ih]
    | true => simp [ih]
  | container own kind colSpan children rest inside ih =>
    rw [filterBoardNodes_container, widgetsOf_container, List.filter_append, ← ih, ← inside]
    split
    · rename_i empty
      rw [List.isEmpty_iff.mp empty, widgetsOf_nil, List.nil_append]
    · rw [widgetsOf_container]

/-- The viewer is shown no container that is not on the board. -/
theorem containerIds_filterBoardNodes (ctx : AccessContext) (nodes : List BoardNode) :
    (containerIds (filterBoardNodes ctx nodes)).Sublist (containerIds nodes) := by
  induction nodes using BoardNode.level_induction with
  | nil => exact List.Sublist.refl _
  | widget fields rest ih =>
    rw [filterBoardNodes_widget]
    split
    · exact ih
    · exact ih
  | container own kind colSpan children rest inside ih =>
    rw [filterBoardNodes_container]
    simp only [containerIds, containersOf_container, List.map_cons, List.map_append] at *
    split
    · exact ((List.nil_sublist _).append ih).cons own
    · simp only [containersOf_container, List.map_cons, List.map_append]
      exact (inside.append ih).cons_cons own

/-- The lookup of a container finds the first one with its id. -/
theorem storedChildrenOf_eq (containerId : String) (nodes : List BoardNode) :
    storedChildrenOf containerId nodes =
      ((containersOf nodes).find? fun container => container.1 == containerId).map Prod.snd := by
  induction nodes using BoardNode.level_induction with
  | nil => rfl
  | widget fields rest ih =>
    rw [storedChildrenOf, BoardNode.storedChildren, ih, containersOf_widget]
  | container own kind colSpan children rest inside ih =>
    rw [storedChildrenOf, BoardNode.storedChildren, inside, ih, containersOf_container,
      List.find?_cons, List.find?_append]
    by_cases same : own = containerId
    · simp [same]
    · have apart : (own == containerId) = false := by simp [same]
      simp only [same, apart, ↓reduceIte, Option.map_or]
      cases (containersOf children).find? _ <;> rfl

theorem mem_containersOf_of_storedChildrenOf {found : List BoardNode}
    (looked : storedChildrenOf containerId nodes = some found) :
    (containerId, found) ∈ containersOf nodes := by
  rw [storedChildrenOf_eq, Option.map_eq_some_iff] at looked
  obtain ⟨⟨own, children⟩, first, rfl⟩ := looked
  have same : own = containerId := by simpa using List.find?_some first
  exact same ▸ List.mem_of_find?_eq_some first

theorem storedChildrenOf_eq_none_iff :
    storedChildrenOf containerId nodes = none ↔ containerId ∉ containerIds nodes := by
  rw [storedChildrenOf_eq, Option.map_eq_none_iff, List.find?_eq_none, containerIds,
    List.mem_map]
  simp only [beq_iff_eq, Prod.forall, Prod.exists, exists_and_right, exists_eq_right, not_exists]
  constructor
  · intro all found member
    exact all containerId found member rfl
  · rintro none own found member rfl
    exact none found member

/-- Where ids are distinct, the lookup finds the children of that very container. -/
theorem storedChildrenOf_of_mem (distinct : (collectNodeIds nodes).Nodup)
    {children : List BoardNode} (member : (containerId, children) ∈ containersOf nodes) :
    storedChildrenOf containerId nodes = some children := by
  cases looked : storedChildrenOf containerId nodes with
  | none =>
    exact absurd (List.mem_map_of_mem member) (storedChildrenOf_eq_none_iff.mp looked)
  | some found =>
    have other := mem_containersOf_of_storedChildrenOf looked
    have same := List.inj_on_of_nodup_map (ids_nodup distinct).2.1 other member rfl
    cases same
    rfl

end DddCqrsEs.FullstackApp
