import DddCqrsEs.FullstackApp.Base
import DddCqrsEs.FullstackApp.BoardForest

/- The stored board of an organization: loading it, the checks before a write, and the guarded
write itself. -/
namespace DddCqrsEs.FullstackApp

structure LegacyDashboardWidget where
  id : String
  kind : DashboardWidgetKind
  colSpan : UInt8
  noteText : Option String

structure DashboardLayout where
  version : UInt8
  revision : Int
  nodes : List BoardNode
  widgets : List LegacyDashboardWidget

namespace LegacyDashboardWidget

def span (widget : LegacyDashboardWidget) : UInt8 :=
  if widget.colSpan = 1 then 3
  else if widget.colSpan = 2 then 6
  else if widget.colSpan = 3 then 9
  else if widget.colSpan = 4 then 12
  else if 1 ≤ widget.colSpan ∧ widget.colSpan ≤ 12 then widget.colSpan
  else widget.kind.defaultSpan

def migrated (widget : LegacyDashboardWidget) : BoardNode :=
  .widget ⟨widget.id, widget.kind, widget.span, widget.noteText, none, {}, .list⟩

end LegacyDashboardWidget

def DashboardLayout.migrateIfNeeded (layout : DashboardLayout) : DashboardLayout :=
  let layout :=
    if !layout.widgets.isEmpty && layout.nodes.isEmpty then
      { layout with
        nodes := layout.widgets.map LegacyDashboardWidget.migrated
        widgets := []
        version := 2 }
    else layout
  if layout.version < 2 then { layout with version := 2 } else layout

/-- A row of `dashboard_layouts`. The payload is what the JSON library reads from it; the column
checks that the revision is positive. -/
structure BoardRow where
  payload : Except String DashboardLayout
  revision : Int
  positive : 0 < revision

def defaultWidget (index : Nat) (kind : DashboardWidgetKind) : BoardNode :=
  .widget ⟨s!"w{index}", kind, kind.defaultSpan, if kind = .notes then some "" else none,
    none, {}, .list⟩

def defaultDashboardLayout : DashboardLayout where
  version := 2
  revision := 0
  nodes :=
    [.container "c-metrics" .row 12
      [defaultWidget 0 .metricSession, defaultWidget 1 .metricDevices,
        defaultWidget 2 .metricOrgs, defaultWidget 3 .metricSecurity],
    .container "c-main" .row 12 [defaultWidget 4 .activity, defaultWidget 5 .notifications],
    defaultWidget 6 .sessions, defaultWidget 7 .organizations,
    defaultWidget 8 .securityPosture, defaultWidget 9 .checklist]
  widgets := []

def loadDashboardLayout : Option BoardRow → Except AuthStackError DashboardLayout
  | none => .ok { defaultDashboardLayout with revision := 0 }
  | some row =>
    match row.payload with
    | .error error => .error (.store s!"dashboard layout payload is corrupt: {error}")
    | .ok stored =>
      let layout := ({ stored with revision := row.revision } : DashboardLayout).migrateIfNeeded
      if layout.nodes.isEmpty then .error (.store "dashboard layout payload has no nodes")
      else .ok { layout with widgets := [], version := 2 }

def maxBoardNodes : Nat := 48

/-- The checks of `validate_board_nodes` on one node. -/
def validateNode (id : String) (colSpan : UInt8) : Except AuthStackError Unit :=
  if trim id = "" ∨ 64 < id.utf8ByteSize then .error (.validation "node id is invalid")
  else if ¬ (1 ≤ colSpan ∧ colSpan ≤ 12) then .error (.validation "col_span must be 1–12")
  else .ok ()

mutual

def BoardNode.validate (depth : Nat) : BoardNode → Except AuthStackError Unit
  | .widget fields => validateNode fields.id fields.colSpan
  | .container id _ colSpan children =>
    match validateNode id colSpan with
    | .error error => .error error
    | .ok () => validateBoardNodes (depth + 1) children

def validateBoardNodes (depth : Nat) : List BoardNode → Except AuthStackError Unit
  | [] =>
    if 4 < depth then
      .error (.validation "dashboard containers can nest at most 4 levels")
    else .ok ()
  | node :: rest =>
    if 4 < depth then
      .error (.validation "dashboard containers can nest at most 4 levels")
    else
      match node.validate depth with
      | .error error => .error error
      | .ok () => validateBoardNodes depth rest

end

/-- What a write stores of a layout: the current version, no legacy widgets and no copy of the
revision. -/
def DashboardLayout.normalized (layout : DashboardLayout) : DashboardLayout :=
  { layout.migrateIfNeeded with widgets := [], version := 2, revision := 0 }

/-- The checks of `save_dashboard_layout` before the statement. -/
def DashboardLayout.check (layout : DashboardLayout) : Except AuthStackError Unit :=
  if maxBoardNodes < totalNodes layout.normalized.nodes then
    .error (.validation s!"dashboard supports at most {maxBoardNodes} nodes")
  else if layout.normalized.nodes.isEmpty then
    .error (.validation "dashboard must have at least one node")
  else validateBoardNodes 0 layout.normalized.nodes

/-- The upsert with its `RETURNING revision`, on the organization's row. With an expected
revision the conflict clause updates that revision only. -/
def upsertLayout (row : Option BoardRow) (layout : DashboardLayout) (expected : Option Int) :
    Option Int × Option BoardRow :=
  match row with
  | none => (some 1, some ⟨.ok layout, 1, by decide⟩)
  | some stored =>
    if expected.all (· = stored.revision) then
      (some (stored.revision + 1),
        some ⟨.ok layout, stored.revision + 1, Int.add_pos stored.positive (by decide)⟩)
    else (none, some stored)

/-- `store::save_dashboard_layout` -/
def saveDashboardLayout (row : Option BoardRow) (layout : DashboardLayout)
    (expectedRevision : Option Int) : Except AuthStackError Int × Option BoardRow :=
  match layout.check with
  | .error error => (.error error, row)
  | .ok () =>
    let expected := expectedRevision.filter (0 < ·)
    match upsertLayout row layout.normalized expected with
    | (some revision, row) => (.ok revision, row)
    | (none, row) =>
      if expected.isSome then
        (.error (.conflict
          "the board changed in another session; reload it and reapply your edit"), row)
      else (.error (.store "dashboard layout write returned no revision"), row)

/-- The merge of `application::save_dashboard_layout`: the layout to write and the revision that
it has to replace. -/
def mergeLayout (access : AccessContext) (request stored : DashboardLayout) :
    Except AuthStackError (DashboardLayout × Option Int) :=
  let layout := request.migrateIfNeeded
  let merged : DashboardLayout :=
    ⟨2, layout.revision, mergeHiddenBoardNodes access stored.nodes layout.nodes, []⟩
  if layout.revision = 0 ∧ stored.revision = 0 then .ok (merged, none)
  else if layout.revision ≤ 0 then
    .error (.conflict "the board revision is missing; reload the board and reapply your edit")
  else .ok (merged, some layout.revision)

mutual

def BoardNode.findWidget (id : String) (edit : BoardNode → Except AuthStackError BoardNode) :
    BoardNode → Option (Except AuthStackError BoardNode)
  | .widget fields => if fields.id = id then some (edit (.widget fields)) else none
  | .container own kind colSpan children =>
    if own = id then some (edit (.container own kind colSpan children))
    else
      (findWidgetMut id edit children).map fun result =>
        result.map fun edited => .container own kind colSpan edited

/-- `find_widget_mut`, with what the caller does to the node that is found. -/
def findWidgetMut (id : String) (edit : BoardNode → Except AuthStackError BoardNode) :
    List BoardNode → Option (Except AuthStackError (List BoardNode))
  | [] => none
  | node :: rest =>
    match node.findWidget id edit with
    | some result => some (result.map fun edited => edited :: rest)
    | none =>
      (findWidgetMut id edit rest).map fun result => result.map fun edited => node :: edited

end

def setNoteText (text : String) : BoardNode → Except AuthStackError BoardNode
  | .widget fields =>
    if fields.kind = .notes then .ok (.widget { fields with noteText := some text })
    else .error (.validation "widget is not a notes tile")
  | .container _ _ _ _ => .error (.validation "widget is not a notes tile")

/-- The edit of `update_dashboard_note`: the layout to write and the revision to replace. -/
def editNote (widgetId text : String) (stored : DashboardLayout) :
    Except AuthStackError (DashboardLayout × Option Int) :=
  match findWidgetMut (trim widgetId) (setNoteText text) stored.nodes with
  | none => .error (.notFound "widget not found")
  | some (.error error) => .error error
  | some (.ok nodes) =>
    .ok ({ stored with nodes := nodes },
      if stored.revision ≤ 0 then none else some stored.revision)

theorem migrateIfNeeded_revision (layout : DashboardLayout) :
    layout.migrateIfNeeded.revision = layout.revision := by
  rw [DashboardLayout.migrateIfNeeded]
  split <;> split <;> rfl

/-- The revision of the stored layout, zero where there is none. -/
def storedRevision (row : Option BoardRow) : Int := (row.map BoardRow.revision).getD 0

theorem storedRevision_nonneg (row : Option BoardRow) : 0 ≤ storedRevision row := by
  cases row with
  | none => exact Int.le_refl 0
  | some row => exact Int.le_of_lt row.positive

theorem loadDashboardLayout_revision {row : Option BoardRow} {layout : DashboardLayout}
    (loaded : loadDashboardLayout row = .ok layout) : layout.revision = storedRevision row := by
  cases row with
  | none =>
    cases loaded
    rfl
  | some row =>
    rw [loadDashboardLayout] at loaded
    split at loaded
    · cases loaded
    · dsimp only at loaded
      split at loaded
      · cases loaded
      · cases loaded
        exact migrateIfNeeded_revision _

/-- A note is only put on a notes tile. -/
theorem findWidgetMut_notes {id text : String} {nodes edited : List BoardNode}
    (found : findWidgetMut id (setNoteText text) nodes = some (.ok edited)) :
    ∃ fields ∈ widgetsOf nodes, fields.kind = .notes := by
  induction nodes using BoardNode.level_induction generalizing edited with
  | nil => cases found
  | widget own rest ih =>
    rw [findWidgetMut, BoardNode.findWidget] at found
    by_cases here : own.id = id
    · by_cases notes : own.kind = .notes
      · exact ⟨own, List.mem_cons_self, notes⟩
      · simp [here, setNoteText, notes, Except.map] at found
    · rw [if_neg here] at found
      cases later : findWidgetMut id (setNoteText text) rest with
      | none => simp [later] at found
      | some result =>
        cases result with
        | error error => simp [later, Except.map] at found
        | ok below =>
          obtain ⟨fields, member, notes⟩ := ih later
          exact ⟨fields, List.mem_cons_of_mem _ member, notes⟩
  | container own kind colSpan children rest inside ih =>
    rw [findWidgetMut, BoardNode.findWidget] at found
    by_cases here : own = id
    · simp [here, setNoteText, Except.map] at found
    · rw [if_neg here] at found
      cases below : findWidgetMut id (setNoteText text) children with
      | none =>
        cases later : findWidgetMut id (setNoteText text) rest with
        | none => simp [below, later] at found
        | some result =>
          cases result with
          | error error => simp [below, later, Except.map] at found
          | ok after =>
            obtain ⟨fields, member, notes⟩ := ih later
            exact ⟨fields, List.mem_append_right _ member, notes⟩
      | some result =>
        cases result with
        | error error => simp [below, Except.map] at found
        | ok within =>
          obtain ⟨fields, member, notes⟩ := inside below
          exact ⟨fields, List.mem_append_left _ member, notes⟩

/-- The default board has no notes tile, so that a note is always written over a stored
revision. -/
theorem editNote_guarded {row : Option BoardRow} {stored layout : DashboardLayout}
    {widgetId text : String} {expected : Option Int}
    (loaded : loadDashboardLayout row = .ok stored)
    (edited : editNote widgetId text stored = .ok (layout, expected)) :
    row ≠ none ∧ expected = some (storedRevision row) := by
  rw [editNote] at edited
  split at edited
  · cases edited
  · cases edited
  · rename_i nodes found
    cases edited
    cases row with
    | none =>
      cases loaded
      obtain ⟨fields, member, notes⟩ := findWidgetMut_notes found
      have none : ∀ fields ∈ widgetsOf defaultDashboardLayout.nodes, fields.kind ≠ .notes := by
        decide
      exact absurd notes (none fields member)
    | some row =>
      have same := loadDashboardLayout_revision loaded
      have positive := row.positive
      refine ⟨by simp, ?_⟩
      rw [same, if_neg]
      exact Int.not_le.mpr positive

theorem editNote_guarded_milk :
    let notes : BoardNode := .widget ⟨"n1", .notes, 4, some "", none, {}, .list⟩
    let written : BoardNode := .widget ⟨"n1", .notes, 4, some "milk", none, {}, .list⟩
    let stored : DashboardLayout :=
      { defaultDashboardLayout with nodes := [notes], revision := 3, widgets := [], version := 2 }
    let row : BoardRow := ⟨.ok stored, 3, by decide⟩
    loadDashboardLayout (some row) = .ok stored ∧
      editNote "n1" "milk" stored = .ok ({ stored with nodes := [written] }, some 3) ∧
      some row ≠ none ∧ some 3 = some (storedRevision (some row)) := by
  intro notes written stored row
  have loaded : loadDashboardLayout (some row) = .ok stored := rfl
  have edited : editNote "n1" "milk" stored =
      .ok ({ stored with nodes := [written] }, some 3) := rfl
  exact ⟨loaded, edited, editNote_guarded loaded edited⟩

/-- What a write does. It fails without a change, or it puts the layout at the next revision. -/
theorem saveDashboardLayout_spec (row : Option BoardRow) (layout : DashboardLayout)
    (expectedRevision : Option Int) :
    (∃ error, layout.check = .error error ∧
      saveDashboardLayout row layout expectedRevision = (.error error, row)) ∨
    (layout.check = .ok () ∧ ∃ stored, row = some stored ∧
      (expectedRevision.filter (0 < ·)).all (· = stored.revision) = false ∧
      saveDashboardLayout row layout expectedRevision = (.error (.conflict
        "the board changed in another session; reload it and reapply your edit"), row)) ∨
    (layout.check = .ok () ∧
      (∀ stored, row = some stored →
        (expectedRevision.filter (0 < ·)).all (· = stored.revision) = true) ∧
      ∃ written : BoardRow, written.payload = .ok layout.normalized ∧
        written.revision = storedRevision row + 1 ∧
        saveDashboardLayout row layout expectedRevision =
          (.ok written.revision, some written)) := by
  cases checked : layout.check with
  | error error =>
    refine .inl ⟨error, rfl, ?_⟩
    rw [saveDashboardLayout, checked]
  | ok done =>
    cases row with
    | none =>
      refine .inr (.inr ⟨rfl, fun stored same => (by cases same),
        ⟨.ok layout.normalized, 1, by decide⟩, rfl, rfl, ?_⟩)
      rw [saveDashboardLayout, checked]
      rfl
    | some stored =>
      by_cases current :
          (expectedRevision.filter (0 < ·)).all (· = stored.revision) = true
      · refine .inr (.inr ⟨rfl, fun other same => ?_, ⟨.ok layout.normalized,
          stored.revision + 1, Int.add_pos stored.positive (by decide)⟩, rfl, rfl, ?_⟩)
        · cases same
          exact current
        · simp only [saveDashboardLayout, checked, upsertLayout, current, ↓reduceIte]
      · refine .inr (.inl ⟨rfl, stored, rfl, by simpa using current, ?_⟩)
        have guarded : (expectedRevision.filter (0 < ·)).isSome = true := by
          cases held : expectedRevision.filter (0 < ·) with
          | none => simp [held] at current
          | some expected => rfl
        simp only [saveDashboardLayout, checked, upsertLayout, current, guarded, ↓reduceIte,
          Bool.false_eq_true]

end DddCqrsEs.FullstackApp
