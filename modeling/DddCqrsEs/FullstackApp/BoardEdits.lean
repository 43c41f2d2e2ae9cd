import DddCqrsEs.FullstackApp.BoardMerge
import Mathlib.Logic.Relation

/- The edits that a viewer makes on the board they were shown, and which of them make a save
lose a hidden widget. -/
namespace DddCqrsEs.FullstackApp

/-- The second board is the first one with a node put in somewhere, at any level. -/
inductive InsertedIn (node : BoardNode) : List BoardNode → List BoardNode → Prop where
  | here (rest : List BoardNode) : InsertedIn node rest (node :: rest)
  | after (first : BoardNode) {rest longer : List BoardNode}
      (later : InsertedIn node rest longer) : InsertedIn node (first :: rest) (first :: longer)
  | inside (id : String) (kind : BoardContainerKind) (colSpan : UInt8) (rest : List BoardNode)
      {children longer : List BoardNode} (below : InsertedIn node children longer) :
      InsertedIn node (.container id kind colSpan children :: rest)
        (.container id kind colSpan longer :: rest)

/-- One node before and after its fields change: its id stays, and a container's children do. -/
inductive SameNode : BoardNode → BoardNode → Prop where
  | widget {fields other : BoardWidget} (same : fields.id = other.id) :
      SameNode (.widget fields) (.widget other)
  | container (id : String) (kind otherKind : BoardContainerKind) (colSpan otherSpan : UInt8)
      (children : List BoardNode) :
      SameNode (.container id kind colSpan children) (.container id otherKind otherSpan children)

/-- One edit of a board that was loaded from a stored one. A move takes a node with all that is
below it to another place, and may change its fields. -/
inductive BoardEdit (stored : List BoardNode) : List BoardNode → List BoardNode → Prop where
  | add {node : BoardNode} {nodes edited : List BoardNode} (distinct : node.nodeIds.Nodup)
      (fresh : ∀ id ∈ node.nodeIds, id ∉ collectNodeIds stored ∧ id ∉ collectNodeIds nodes)
      (inserted : InsertedIn node nodes edited) : BoardEdit stored nodes edited
  | delete {node : BoardNode} {nodes edited : List BoardNode}
      (removed : InsertedIn node edited nodes) : BoardEdit stored nodes edited
  | move {node moved : BoardNode} {nodes between edited : List BoardNode}
      (same : SameNode node moved) (removed : InsertedIn node between nodes)
      (inserted : InsertedIn moved between edited) : BoardEdit stored nodes edited

variable {node moved : BoardNode} {nodes longer : List BoardNode} {ctx : AccessContext}
  {fields : BoardWidget}

theorem InsertedIn.widgetIds (inserted : InsertedIn node nodes longer) :
    (widgetIds longer).Perm (widgetIds [node] ++ widgetIds nodes) := by
  rw [List.perm_iff_count]
  intro id
  simp only [FullstackApp.widgetIds]
  induction inserted with
  | here rest => simp [widgetsOf]
  | after first later ih =>
    simp only [widgetsOf, List.map_append, List.count_append] at *
    omega
  | inside own kind colSpan rest below ih =>
    simp only [widgetsOf, BoardNode.leaves, List.map_append, List.count_append] at *
    omega

theorem InsertedIn.containerIds (inserted : InsertedIn node nodes longer) :
    (containerIds longer).Perm (containerIds [node] ++ containerIds nodes) := by
  rw [List.perm_iff_count]
  intro id
  simp only [FullstackApp.containerIds]
  induction inserted with
  | here rest => simp [containersOf]
  | after first later ih =>
    simp only [containersOf, List.map_append, List.count_append] at *
    omega
  | inside own kind colSpan rest below ih =>
    simp only [containersOf, BoardNode.levels, List.map_append, List.map_cons,
      List.count_append, List.count_cons] at *
    omega

theorem InsertedIn.nodeIds (inserted : InsertedIn node nodes longer) :
    (collectNodeIds longer).Perm (collectNodeIds [node] ++ collectNodeIds nodes) := by
  have widgets := inserted.widgetIds
  have containers := inserted.containerIds
  have whole := collectNodeIds_perm longer
  have one := collectNodeIds_perm [node]
  have before := collectNodeIds_perm nodes
  rw [List.perm_iff_count] at *
  intro id
  have := widgets id
  have := containers id
  have := whole id
  have := one id
  have := before id
  simp only [List.count_append] at *
  omega

theorem SameNode.ids (same : SameNode node moved) :
    widgetIds [node] = widgetIds [moved] ∧ containerIds [node] = containerIds [moved] := by
  cases same with
  | widget same => simp [widgetIds, containerIds, same]
  | container id kind otherKind colSpan otherSpan children => exact ⟨rfl, rfl⟩

theorem SameNode.nodeIds (same : SameNode node moved) :
    collectNodeIds [node] = collectNodeIds [moved] := by
  cases same with
  | widget same => simp [same]
  | container id kind otherKind colSpan otherSpan children => rfl

section Edits

variable {stored : List BoardNode}

theorem filterBoardNodes_edited (distinct : (collectNodeIds stored).Nodup) :
    EditedFrom ctx stored (filterBoardNodes ctx stored) := by
  have shown := containerIds_filterBoardNodes ctx stored
  refine ⟨?_, fun id member known => member, fun id member known => shown.subset member⟩
  have widgets : (widgetIds (filterBoardNodes ctx stored)).Sublist (widgetIds stored) := by
    rw [widgetIds, widgetsOf_filterBoardNodes]
    exact List.filter_sublist.map _
  rw [(collectNodeIds_perm _).nodup_iff]
  exact ((collectNodeIds_perm stored).nodup_iff.mp distinct).sublist (widgets.append shown)

variable {edited : List BoardNode}

/-- A removed or a moved node leaves ids that were there before. -/
theorem EditedFrom.of_ids (before : EditedFrom ctx stored nodes)
    (distinct : (collectNodeIds edited).Nodup)
    (widgets : ∀ id ∈ widgetIds edited, id ∈ widgetIds nodes)
    (containers : ∀ id ∈ containerIds edited, id ∈ containerIds nodes) :
    EditedFrom ctx stored edited :=
  ⟨distinct, fun id member => before.widgets id (widgets id member),
    fun id member => before.containers id (containers id member)⟩

theorem EditedFrom.delete (before : EditedFrom ctx stored nodes)
    (removed : InsertedIn node edited nodes) : EditedFrom ctx stored edited := by
  refine before.of_ids ?_ (fun id member => ?_) (fun id member => ?_)
  · exact (List.nodup_append.mp (removed.nodeIds.nodup_iff.mp before.distinct)).2.1
  · exact removed.widgetIds.mem_iff.mpr (List.mem_append_right _ member)
  · exact removed.containerIds.mem_iff.mpr (List.mem_append_right _ member)

theorem EditedFrom.move {moved : BoardNode} {between : List BoardNode}
    (before : EditedFrom ctx stored nodes) (same : SameNode node moved)
    (removed : InsertedIn node between nodes) (inserted : InsertedIn moved between edited) :
    EditedFrom ctx stored edited := by
  have ids : (collectNodeIds edited).Perm (collectNodeIds nodes) :=
    inserted.nodeIds.trans (same.nodeIds ▸ removed.nodeIds.symm)
  have widgets : (widgetIds edited).Perm (widgetIds nodes) :=
    inserted.widgetIds.trans (same.ids.1 ▸ removed.widgetIds.symm)
  have containers : (containerIds edited).Perm (containerIds nodes) :=
    inserted.containerIds.trans (same.ids.2 ▸ removed.containerIds.symm)
  exact before.of_ids (ids.nodup_iff.mpr before.distinct) (fun id => widgets.mem_iff.mp)
    fun id => containers.mem_iff.mp

theorem EditedFrom.add (before : EditedFrom ctx stored nodes) (distinct : node.nodeIds.Nodup)
    (fresh : ∀ id ∈ node.nodeIds, id ∉ collectNodeIds stored ∧ id ∉ collectNodeIds nodes)
    (inserted : InsertedIn node nodes edited) : EditedFrom ctx stored edited := by
  have own : collectNodeIds [node] = node.nodeIds := List.append_nil _
  refine ⟨?_, fun id member known => ?_, fun id member known => ?_⟩
  · rw [inserted.nodeIds.nodup_iff, own, List.nodup_append]
    refine ⟨distinct, before.distinct, ?_⟩
    rintro id new _ old rfl
    exact (fresh id new).2 old
  · rcases List.mem_append.mp (inserted.widgetIds.mem_iff.mp member) with new | old
    · have listed : id ∈ node.nodeIds := own ▸ mem_collectNodeIds_iff.mpr (.inl new)
      exact absurd known (fresh id listed).1
    · exact before.widgets id old known
  · rcases List.mem_append.mp (inserted.containerIds.mem_iff.mp member) with new | old
    · have listed : id ∈ node.nodeIds := own ▸ mem_collectNodeIds_iff.mpr (.inr new)
      exact absurd known (fresh id listed).1
    · exact before.containers id old known

theorem EditedFrom.step (before : EditedFrom ctx stored nodes)
    (edit : BoardEdit stored nodes edited) : EditedFrom ctx stored edited := by
  cases edit with
  | add distinct fresh inserted => exact before.add distinct fresh inserted
  | delete removed => exact before.delete removed
  | move same removed inserted => exact before.move same removed inserted

theorem EditedFrom.run {incoming : List BoardNode} (distinct : (collectNodeIds stored).Nodup)
    (edits : Relation.ReflTransGen (BoardEdit stored) (filterBoardNodes ctx stored) incoming) :
    EditedFrom ctx stored incoming := by
  induction edits with
  | refl => exact filterBoardNodes_edited distinct
  | tail _ edit ih => exact ih.step edit

end Edits

/-- A widget that is hidden from the viewer lies on some level, and no container between the two
was kept. -/
inductive HiddenBelow (ctx : AccessContext) (kept : String → Prop) (fields : BoardWidget) :
    List BoardNode → Prop where
  | here (hidden : isHiddenFrom ctx fields = true) (rest : List BoardNode) :
      HiddenBelow ctx kept fields (.widget fields :: rest)
  | after (first : BoardNode) {rest : List BoardNode}
      (later : HiddenBelow ctx kept fields rest) : HiddenBelow ctx kept fields (first :: rest)
  | inside {id : String} (removed : ¬ kept id) (kind : BoardContainerKind) (colSpan : UInt8)
      (rest : List BoardNode) {children : List BoardNode}
      (below : HiddenBelow ctx kept fields children) :
      HiddenBelow ctx kept fields (.container id kind colSpan children :: rest)

theorem HiddenBelow.mem {kept : String → Prop} (below : HiddenBelow ctx kept fields nodes) :
    fields ∈ hiddenWidgets ctx nodes := by
  induction below with
  | here hidden rest =>
    rw [hiddenWidgets, widgetsOf_widget, List.filter_cons, if_pos hidden]
    exact List.mem_cons_self
  | after first later ih =>
    rw [hiddenWidgets, widgetsOf, List.filter_append]
    exact List.mem_append_right _ ih
  | inside removed kind colSpan rest below ih =>
    rw [hiddenWidgets, widgetsOf_container, List.filter_append]
    exact List.mem_append_left _ ih

/-- What a sweep meets. -/
theorem mem_collectHiddenNodes_iff {present : List String} (absent : fields.id ∉ present) :
    fields ∈ collectHiddenNodes ctx present nodes ↔ HiddenBelow ctx (· ∈ present) fields nodes := by
  constructor
  · intro met
    induction nodes using BoardNode.level_induction with
    | nil => cases met
    | widget own rest ih =>
      rw [collectHiddenNodes_widget, List.mem_append] at met
      rcases met with first | later
      · split at first
        · cases first
        · split at first
          · rename_i hidden
            cases List.mem_singleton.mp first
            exact .here hidden rest
          · cases first
      · exact .after _ (ih later)
    | container id kind colSpan children rest inside ih =>
      rw [collectHiddenNodes_container, List.mem_append] at met
      rcases met with below | later
      · split at below
        · cases below
        · rename_i removed
          exact .inside removed kind colSpan rest (inside below)
      · exact .after _ (ih later)
  · intro below
    induction below with
    | here hidden rest => simp [absent, hidden]
    | after first later ih =>
      rw [collectHiddenNodes]
      exact List.mem_append_right _ ih
    | inside removed kind colSpan rest below ih =>
      rw [collectHiddenNodes_container, if_neg removed]
      exact List.mem_append_left _ ih

/-- A stored container was moved beneath a new one, and a hidden widget was stored in it or in a
container inside it that is gone. -/
def LeftBehind (ctx : AccessContext) (stored incoming : List BoardNode) : Prop :=
  ∃ id ∈ containersBeneathNew (containerIds stored) false incoming,
    ∃ children, (id, children) ∈ containersOf stored ∧
      ∃ fields, HiddenBelow ctx (· ∈ collectNodeIds incoming) fields children

/-- A save loses nobody's widgets exactly if no stored container with hidden widgets was moved
beneath a new container. -/
theorem mergeHiddenBoardNodes_restores_iff {ctx : AccessContext}
    {stored incoming : List BoardNode} (distinct : (collectNodeIds stored).Nodup)
    (edits : Relation.ReflTransGen (BoardEdit stored) (filterBoardNodes ctx stored) incoming) :
    Restores ctx stored incoming (mergeHiddenBoardNodes ctx stored incoming) ↔
      ¬ LeftBehind ctx stored incoming := by
  have edited := EditedFrom.run distinct edits
  rw [edited.restores_iff distinct, List.flatMap_eq_nil_iff, LeftBehind]
  have swept : ∀ id children fields, (id, children) ∈ containersOf stored →
      (fields ∈ sweepOf ctx (collectNodeIds incoming) stored id ↔
        HiddenBelow ctx (· ∈ collectNodeIds incoming) fields children) := by
    intro id children fields listed
    rw [sweepOf, storedChildrenOf_of_mem distinct listed, Option.getD_some]
    have part := (widgetsOf_sublist_of_mem listed).filter (isHiddenFrom ctx)
    refine ⟨fun met => ?_, fun below => ?_⟩
    · have hidden := part.subset ((collectHiddenNodes_sublist ctx _ _).subset met)
      exact (mem_collectHiddenNodes_iff (edited.hidden_absent distinct hidden)).mp met
    · have hidden := part.subset below.mem
      exact (mem_collectHiddenNodes_iff (edited.hidden_absent distinct hidden)).mpr below
  constructor
  · rintro nothing ⟨id, moved, children, listed, fields, below⟩
    have met := (swept id children fields listed).mpr below
    rw [nothing id moved] at met
    cases met
  · intro apart id moved
    rw [List.eq_nil_iff_forall_not_mem]
    intro fields met
    cases looked : storedChildrenOf id stored with
    | none => simp [sweepOf, looked] at met
    | some children =>
      have listed := mem_containersOf_of_storedChildrenOf looked
      exact apart ⟨id, moved, children, listed, fields, (swept id children fields listed).mp met⟩

/-- A member who may see the dashboard, and neither queries nor the audit log. -/
def dashboardViewer : AccessContext :=
  ⟨true, ⟨["dashboard.view"]⟩, .aal1, false⟩

def boundWidget : BoardWidget := ⟨"w-bound", .boundMetric, 3, none, some "q1", {}, .metric⟩

def notesWidget : BoardWidget := ⟨"w-notes", .notes, 6, none, none, {}, .list⟩

/-- A row with a widget that the viewer is not shown and one that they are. -/
def mixedBoard : List BoardNode :=
  [.container "c-row" .row 12 [.widget boundWidget, .widget notesWidget]]

theorem filterBoardNodes_mixedBoard :
    filterBoardNodes dashboardViewer mixedBoard =
      [.container "c-row" .row 12 [.widget notesWidget]] := rfl

theorem mergeHiddenBoardNodes_restores_mixedBoard :
    (collectNodeIds mixedBoard).Nodup ∧
      ¬ LeftBehind dashboardViewer mixedBoard (filterBoardNodes dashboardViewer mixedBoard) ∧
      Restores dashboardViewer mixedBoard (filterBoardNodes dashboardViewer mixedBoard)
        (mergeHiddenBoardNodes dashboardViewer mixedBoard
          (filterBoardNodes dashboardViewer mixedBoard)) := by
  have distinct : (collectNodeIds mixedBoard).Nodup := by decide
  have apart : ¬ LeftBehind dashboardViewer mixedBoard
      (filterBoardNodes dashboardViewer mixedBoard) := by
    rintro ⟨id, moved, -⟩
    cases moved
  exact ⟨distinct, apart, (mergeHiddenBoardNodes_restores_iff distinct .refl).mpr apart⟩

/-- The viewer adds a stack and moves the row into it. The row's hidden widget is gone. -/
theorem mergeHiddenBoardNodes_loses :
    (collectNodeIds mixedBoard).Nodup ∧
      Relation.ReflTransGen (BoardEdit mixedBoard)
        (filterBoardNodes dashboardViewer mixedBoard)
        [.container "c-new" .stack 12 [.container "c-row" .row 12 [.widget notesWidget]]] ∧
      ¬ Restores dashboardViewer mixedBoard
        [.container "c-new" .stack 12 [.container "c-row" .row 12 [.widget notesWidget]]]
        (mergeHiddenBoardNodes dashboardViewer mixedBoard
          [.container "c-new" .stack 12 [.container "c-row" .row 12 [.widget notesWidget]]]) := by
  refine ⟨by decide, ?_, fun restores => absurd restores.1 (by decide)⟩
  rw [filterBoardNodes_mixedBoard]
  refine .tail (.single (.add ?_ ?_ (.here _)))
    (.move (.container "c-row" .row .row 12 12 [.widget notesWidget]) (.after _ (.here []))
      (.inside "c-new" .stack 12 [] (.here [])))
  · decide
  · decide

end DddCqrsEs.FullstackApp
