import DddCqrsEs.FullstackApp.BoardEdits

/- The save of a board that was not edited: it gives the stored board again unless the filter
dropped a container. -/
namespace DddCqrsEs.FullstackApp

/-- The viewer is shown some widget in every container of a board. -/
def ShownInEach (ctx : AccessContext) (nodes : List BoardNode) : Prop :=
  ∀ container ∈ containersOf nodes, ∃ fields ∈ widgetsOf container.2,
    isHiddenFrom ctx fields = false

variable {ctx : AccessContext} {nodes : List BoardNode}

theorem filterBoardNodes_ne_nil_iff :
    filterBoardNodes ctx nodes ≠ [] ↔
      ∃ fields ∈ widgetsOf nodes, isHiddenFrom ctx fields = false := by
  induction nodes using BoardNode.level_induction with
  | nil => simp
  | widget own rest ih =>
    rw [filterBoardNodes_widget, widgetsOf_widget]
    cases hidden : isHiddenFrom ctx own with
    | false => simp [hidden]
    | true => simp [hidden, ih]
  | container id kind colSpan children rest inside ih =>
    rw [filterBoardNodes_container, widgetsOf_container]
    simp only [List.mem_append, or_and_right, exists_or, ← inside, ← ih]
    by_cases empty : filterBoardNodes ctx children = []
    · simp [empty]
    · simp [empty]

theorem shownInEach_iff :
    ShownInEach ctx nodes ↔
      ∀ container ∈ containersOf nodes, filterBoardNodes ctx container.2 ≠ [] := by
  simp only [ShownInEach, filterBoardNodes_ne_nil_iff]

/-- The filter keeps as many containers as there are exactly if it drops none. -/
theorem containerIds_length_iff :
    (containerIds (filterBoardNodes ctx nodes)).length = (containerIds nodes).length ↔
      ShownInEach ctx nodes := by
  rw [shownInEach_iff]
  induction nodes using BoardNode.level_induction with
  | nil => simp
  | widget own rest ih =>
    rw [filterBoardNodes_widget, containersOf_widget]
    cases isHiddenFrom ctx own with
    | false => exact ih
    | true => exact ih
  | container id kind colSpan children rest inside ih =>
    have below := (containerIds_filterBoardNodes ctx children).length_le
    have later := (containerIds_filterBoardNodes ctx rest).length_le
    rw [filterBoardNodes_container, containersOf_container]
    simp only [List.forall_mem_cons, List.forall_mem_append, ← inside, ← ih]
    by_cases empty : filterBoardNodes ctx children = []
    · simp only [empty, List.isEmpty_nil, ↓reduceIte, ne_eq, not_true_eq_false, false_and,
        iff_false]
      simp only [containerIds, containersOf_container, List.map_cons, List.map_append,
        List.length_cons, List.length_append, List.length_map] at *
      omega
    · simp only [empty, List.isEmpty_iff, ↓reduceIte, ne_eq, not_false_eq_true, true_and]
      simp only [containerIds, containersOf_container, List.map_cons, List.map_append,
        List.length_cons, List.length_append, List.length_map] at *
      omega

/-- A level as the viewer is shown it, with its containers as they are stored. -/
@[grind =]
def shownLevel (ctx : AccessContext) : List BoardNode → List BoardNode
  | [] => []
  | .widget fields :: rest =>
    if isHiddenFrom ctx fields then shownLevel ctx rest
    else .widget fields :: shownLevel ctx rest
  | .container id kind colSpan children :: rest =>
    .container id kind colSpan children :: shownLevel ctx rest

theorem insertIdx_length_append {α : Type} (done rest : List α) (item : α) :
    (done ++ rest).insertIdx done.length item = done ++ item :: rest := by
  induction done with
  | nil => rfl
  | cons first done ih => rw [List.cons_append, List.length_cons, List.insertIdx_succ_cons, ih,
      List.cons_append]

section RoundTrip

variable {present : List String}

/-- Hidden widgets go back to the index they had, as everything before them is back already. -/
theorem restoreHidden_shownLevel (done level : List BoardNode) (orphans : List BoardWidget)
    (absent : ∀ fields ∈ hiddenWidgets ctx level, fields.id ∉ present)
    (kept : ∀ id ∈ containerIds level, id ∈ present) :
    restoreHidden ctx present done.length level (done ++ shownLevel ctx level) orphans =
      (done ++ level, orphans) := by
  induction level generalizing done with
  | nil => simp [restoreHidden, shownLevel]
  | cons node level ih =>
    have advance := ih (done ++ [node])
    simp only [List.length_append, List.length_singleton, List.append_assoc,
      List.singleton_append] at advance
    cases node with
    | widget own =>
      rw [hiddenWidgets, widgetsOf_widget, List.filter_cons] at absent
      rw [restoreHidden, shownLevel]
      by_cases hidden : isHiddenFrom ctx own
      · rw [if_pos hidden, List.forall_mem_cons] at absent
        have room : min done.length (done ++ shownLevel ctx level).length = done.length := by
          rw [List.length_append]
          omega
        rw [if_neg absent.1, if_pos hidden, if_pos hidden, room, insertIdx_length_append]
        exact advance absent.2 kept
      · rw [if_neg hidden] at absent
        rw [if_neg hidden, if_neg hidden, ite_self]
        exact advance absent kept
    | container id kind colSpan children =>
      rw [hiddenWidgets, widgetsOf_container, List.filter_append,
        List.forall_mem_append] at absent
      rw [containerIds, containersOf_container, List.map_cons, List.map_append,
        List.forall_mem_cons, List.forall_mem_append] at kept
      rw [restoreHidden, if_pos kept.1, shownLevel]
      exact advance absent.2 kept.2.2

/-- On a level that was not edited the map gives every container its stored children back. -/
theorem mergeHiddenNodes_filterBoardNodes {stored : List BoardNode} (level : List BoardNode)
    (orphans : List BoardWidget)
    (absent : ∀ fields ∈ hiddenWidgets ctx level, fields.id ∉ present)
    (kept : ∀ id ∈ containerIds level, id ∈ present)
    (found : ∀ container ∈ containersOf level,
      storedChildrenOf container.1 stored = some container.2)
    (shown : ∀ container ∈ containersOf level, filterBoardNodes ctx container.2 ≠ []) :
    mergeHiddenNodes ctx present stored (filterBoardNodes ctx level) orphans =
      (shownLevel ctx level, orphans) := by
  induction level using BoardNode.level_induction generalizing orphans with
  | nil => rfl
  | widget own rest ih =>
    rw [hiddenWidgets, widgetsOf_widget, List.filter_cons] at absent
    rw [filterBoardNodes_widget, shownLevel]
    by_cases hidden : isHiddenFrom ctx own
    · rw [if_pos hidden, List.forall_mem_cons] at absent
      rw [if_pos hidden, if_pos hidden]
      exact ih orphans absent.2 kept found shown
    · rw [if_neg hidden] at absent
      rw [if_neg hidden, if_neg hidden, mergeHiddenNodes_widget,
        ih orphans absent kept found shown]
  | container id kind colSpan children rest inside ih =>
    rw [hiddenWidgets, widgetsOf_container, List.filter_append,
      List.forall_mem_append] at absent
    rw [containerIds, containersOf_container, List.map_cons, List.map_append,
      List.forall_mem_cons, List.forall_mem_append] at kept
    rw [containersOf_container, List.forall_mem_cons, List.forall_mem_append] at found shown
    have mapped := inside orphans absent.1 kept.2.1 found.2.1 shown.2.1
    have restored := restoreHidden_shownLevel [] children orphans absent.1 kept.2.1
    have nonempty : ¬ (filterBoardNodes ctx children).isEmpty := by
      rw [List.isEmpty_iff]
      exact shown.1
    rw [filterBoardNodes_container, if_neg nonempty, shownLevel,
      mergeHiddenNodes_kept ctx present stored found.1]
    simp only [List.nil_append, List.length_nil] at restored
    simp only [mergeHiddenLevel, mapped, restored,
      ih orphans absent.2 kept.2.2 found.2.2 shown.2.2]

end RoundTrip

theorem containerIds_withoutWidgets (dropped : List String) (nodes : List BoardNode) :
    containerIds (withoutWidgets dropped nodes) = containerIds nodes := by
  induction nodes using BoardNode.level_induction with
  | nil => rfl
  | widget own rest ih =>
    rw [withoutWidgets_widget]
    split
    · exact ih
    · exact ih
  | container id kind colSpan children rest inside ih =>
    simp only [containerIds, withoutWidgets_container, containersOf_container, List.map_cons,
      List.map_append] at *
    rw [inside, ih]

/-- An unedited save gives the stored board again exactly if every container holds a widget that
the viewer is shown. -/
theorem mergeHiddenBoardNodes_unedited_iff {ctx : AccessContext} {stored : List BoardNode}
    (distinct : (collectNodeIds stored).Nodup) :
    mergeHiddenBoardNodes ctx stored (filterBoardNodes ctx stored) = stored ↔
      ShownInEach ctx stored := by
  have edited : EditedFrom ctx stored (filterBoardNodes ctx stored) :=
    filterBoardNodes_edited distinct
  constructor
  · intro same
    have without := edited.without_merge distinct
    rw [same] at without
    have containers := congrArg containerIds without
    rw [containerIds_withoutWidgets] at containers
    exact containerIds_length_iff.mp (congrArg List.length containers.symm)
  · intro shown
    have every : containerIds (filterBoardNodes ctx stored) = containerIds stored :=
      (containerIds_filterBoardNodes ctx stored).eq_of_length (containerIds_length_iff.mpr shown)
    have absent : ∀ fields ∈ hiddenWidgets ctx stored,
        fields.id ∉ collectNodeIds (filterBoardNodes ctx stored) :=
      fun fields hidden => edited.hidden_absent distinct hidden
    have kept : ∀ id ∈ containerIds stored,
        id ∈ collectNodeIds (filterBoardNodes ctx stored) := by
      intro id member
      rw [mem_collectNodeIds_iff, every]
      exact .inr member
    have found : ∀ container ∈ containersOf stored,
        storedChildrenOf container.1 stored = some container.2 :=
      fun container member => storedChildrenOf_of_mem distinct member
    have mapped := mergeHiddenNodes_filterBoardNodes stored [] absent kept found
      (shownInEach_iff.mp shown)
    have restored := restoreHidden_shownLevel [] stored [] absent kept
    simp only [List.nil_append, List.length_nil] at restored
    simp only [mergeHiddenBoardNodes, mergeHiddenLevel, mapped, restored, List.map_nil,
      List.append_nil]

/-- The row keeps a widget, so the unedited save gives the stored board again. -/
theorem mergeHiddenBoardNodes_unedited_mixedBoard :
    mergeHiddenBoardNodes dashboardViewer mixedBoard
      (filterBoardNodes dashboardViewer mixedBoard) = mixedBoard := by
  have distinct : (collectNodeIds mixedBoard).Nodup := by decide
  have shown : ShownInEach dashboardViewer mixedBoard := by
    intro container member
    obtain rfl : container = ("c-row", [.widget boundWidget, .widget notesWidget]) :=
      List.mem_singleton.mp member
    exact ⟨notesWidget, .tail _ (.head _), rfl⟩
  exact (mergeHiddenBoardNodes_unedited_iff distinct).mpr shown

/-- A row with hidden widgets only. -/
def hiddenRow : List BoardNode := [.container "c-row" .row 12 [.widget boundWidget]]

/-- Saved unedited, the row is gone and its widget is at the root. -/
theorem mergeHiddenBoardNodes_dropsContainer :
    (collectNodeIds hiddenRow).Nodup ∧
      mergeHiddenBoardNodes dashboardViewer hiddenRow
        (filterBoardNodes dashboardViewer hiddenRow) = [.widget boundWidget] ∧
      mergeHiddenBoardNodes dashboardViewer hiddenRow
        (filterBoardNodes dashboardViewer hiddenRow) ≠ hiddenRow := by
  have saved : mergeHiddenBoardNodes dashboardViewer hiddenRow
      (filterBoardNodes dashboardViewer hiddenRow) = [.widget boundWidget] := rfl
  refine ⟨by decide, saved, fun same => ?_⟩
  rw [saved] at same
  cases same

end DddCqrsEs.FullstackApp
