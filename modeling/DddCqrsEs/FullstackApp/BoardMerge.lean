import DddCqrsEs.FullstackApp.BoardForest

/- What a save of a permission-filtered board restores: which hidden widgets come back, at which
level, and when an unedited save gives the stored board again. -/
namespace DddCqrsEs.FullstackApp

mutual

def BoardNode.without (dropped : List String) : BoardNode → List BoardNode
  | .widget fields => if fields.id ∈ dropped then [] else [.widget fields]
  | .container id kind colSpan children =>
    [.container id kind colSpan (withoutWidgets dropped children)]

/-- A board less the widgets with some ids, at every level. -/
@[grind =]
def withoutWidgets (dropped : List String) : List BoardNode → List BoardNode
  | [] => []
  | node :: rest => node.without dropped ++ withoutWidgets dropped rest

end

section Without

variable (dropped : List String)

@[simp] theorem withoutWidgets_nil : withoutWidgets dropped [] = [] := rfl

@[simp] theorem withoutWidgets_widget (fields : BoardWidget) (rest : List BoardNode) :
    withoutWidgets dropped (.widget fields :: rest) =
      if fields.id ∈ dropped then withoutWidgets dropped rest
      else .widget fields :: withoutWidgets dropped rest := by
  rw [withoutWidgets, BoardNode.without]
  split <;> rfl

@[simp] theorem withoutWidgets_container (id : String) (kind : BoardContainerKind)
    (colSpan : UInt8) (children rest : List BoardNode) :
    withoutWidgets dropped (.container id kind colSpan children :: rest) =
      .container id kind colSpan (withoutWidgets dropped children) ::
        withoutWidgets dropped rest := rfl

theorem withoutWidgets_append (first second : List BoardNode) :
    withoutWidgets dropped (first ++ second) =
      withoutWidgets dropped first ++ withoutWidgets dropped second := by
  induction first with
  | nil => rfl
  | cons node first ih => simp only [List.cons_append, withoutWidgets, ih, List.append_assoc]

variable {dropped}

theorem withoutWidgets_eq_self {nodes : List BoardNode}
    (kept : ∀ fields ∈ widgetsOf nodes, fields.id ∉ dropped) :
    withoutWidgets dropped nodes = nodes := by
  induction nodes using BoardNode.level_induction with
  | nil => rfl
  | widget fields rest ih =>
    rw [widgetsOf_widget, List.forall_mem_cons] at kept
    rw [withoutWidgets_widget, if_neg kept.1, ih kept.2]
  | container id kind colSpan children rest inside ih =>
    rw [widgetsOf_container, List.forall_mem_append] at kept
    rw [withoutWidgets_container, inside kept.1, ih kept.2]

theorem withoutWidgets_map_widget {widgets : List BoardWidget}
    (gone : ∀ fields ∈ widgets, fields.id ∈ dropped) :
    withoutWidgets dropped (widgets.map .widget) = [] := by
  induction widgets with
  | nil => rfl
  | cons fields widgets ih =>
    rw [List.forall_mem_cons] at gone
    rw [List.map_cons, withoutWidgets_widget, if_pos gone.1, ih gone.2]

end Without

theorem withoutWidgets_insertIdx {dropped : List String} {fields : BoardWidget}
    (gone : fields.id ∈ dropped) (index : Nat) (nodes : List BoardNode) :
    withoutWidgets dropped (nodes.insertIdx index (.widget fields)) =
      withoutWidgets dropped nodes := by
  induction nodes generalizing index with
  | nil =>
    cases index with
    | zero => simp [gone]
    | succ index => rfl
  | cons node nodes ih =>
    cases index with
    | zero => simp [gone]
    | succ index => rw [List.insertIdx_succ_cons, withoutWidgets, withoutWidgets, ih]

theorem widgetsOf_insertIdx (fields : BoardWidget) (index : Nat) (nodes : List BoardNode) :
    (widgetsOf (nodes.insertIdx (min index nodes.length) (.widget fields))).Perm
      (fields :: widgetsOf nodes) := by
  have inserted := List.perm_insertIdx (BoardNode.widget fields) nodes
    (Nat.min_le_right index nodes.length)
  rw [widgetsOf_eq_flatMap, widgetsOf_eq_flatMap]
  exact inserted.flatMap_right BoardNode.leaves

section Restore

variable (ctx : AccessContext) (present : List String)

theorem collectHiddenNodes_sublist (nodes : List BoardNode) :
    (collectHiddenNodes ctx present nodes).Sublist (hiddenWidgets ctx nodes) := by
  induction nodes using BoardNode.level_induction with
  | nil => exact List.Sublist.refl _
  | widget fields rest ih =>
    rw [collectHiddenNodes_widget, hiddenWidgets, widgetsOf_widget, List.filter_cons]
    by_cases hidden : isHiddenFrom ctx fields
    · rw [if_pos hidden, if_pos hidden]
      split
      · exact ih.cons fields
      · exact ih.cons_cons fields
    · rw [if_neg hidden, if_neg hidden, ite_self, List.nil_append]
      exact ih
  | container id kind colSpan children rest inside ih =>
    rw [collectHiddenNodes_container, hiddenWidgets, widgetsOf_container, List.filter_append]
    split
    · exact (List.nil_sublist _).append ih
    · exact inside.append ih

/-- The second loop adds the widgets that the sweep of the stored level meets, at the level or
among the orphans. -/
theorem restoreHidden_perm (index : Nat) (level merged : List BoardNode)
    (orphans : List BoardWidget) :
    (widgetsOf (restoreHidden ctx present index level merged orphans).1 ++
      (restoreHidden ctx present index level merged orphans).2).Perm
      (widgetsOf merged ++ orphans ++ collectHiddenNodes ctx present level) := by
  rw [List.perm_iff_count]
  intro fields
  induction level generalizing index merged orphans with
  | nil => simp [restoreHidden]
  | cons node level ih =>
    cases node with
    | widget own =>
      have inserted := (widgetsOf_insertIdx own index merged).count_eq fields
      simp only [List.count_append, List.count_cons] at ih inserted ⊢
      rw [restoreHidden, collectHiddenNodes_widget]
      by_cases shown : own.id ∈ present
      · simp only [shown, ↓reduceIte, List.nil_append, ih]
      · by_cases hidden : isHiddenFrom ctx own
        · simp only [shown, hidden, ↓reduceIte, List.count_append, List.count_cons,
            List.count_nil, ih]
          omega
        · simp only [shown, hidden, ↓reduceIte, Bool.false_eq_true, List.nil_append, ih]
    | container id kind colSpan children =>
      simp only [List.count_append] at ih ⊢
      rw [restoreHidden, collectHiddenNodes_container]
      by_cases shown : id ∈ present
      · simp only [shown, ↓reduceIte, List.nil_append, ih]
      · simp only [shown, ↓reduceIte, List.count_append, ih]
        omega

theorem restoreHidden_without {dropped : List String} (index : Nat)
    (level merged : List BoardNode) (orphans : List BoardWidget)
    (gone : ∀ fields ∈ hiddenWidgets ctx level, fields.id ∈ dropped) :
    withoutWidgets dropped (restoreHidden ctx present index level merged orphans).1 =
      withoutWidgets dropped merged := by
  induction level generalizing index merged orphans with
  | nil => rfl
  | cons node level ih =>
    cases node with
    | widget own =>
      rw [hiddenWidgets, widgetsOf_widget, List.filter_cons] at gone
      rw [restoreHidden]
      by_cases hidden : isHiddenFrom ctx own
      · rw [if_pos hidden, List.forall_mem_cons] at gone
        split
        · exact ih _ _ _ gone.2
        · rw [ih _ _ _ gone.2, withoutWidgets_insertIdx gone.1]
      · rw [if_neg hidden] at gone
        rw [if_neg hidden, ite_self]
        exact ih _ _ _ gone
    | container id kind colSpan children =>
      rw [hiddenWidgets, widgetsOf_container, List.filter_append,
        List.forall_mem_append] at gone
      rw [restoreHidden]
      split
      · exact ih _ _ _ gone.2
      · exact ih _ _ _ gone.2

theorem restoreHidden_orphans (index : Nat) (level merged : List BoardNode)
    (orphans : List BoardWidget) :
    ∀ fields ∈ (restoreHidden ctx present index level merged orphans).2,
      fields ∈ orphans ∨ fields ∈ hiddenWidgets ctx level := by
  induction level generalizing index merged orphans with
  | nil => exact fun fields member => .inl member
  | cons node level ih =>
    have later : ∀ fields, fields ∈ hiddenWidgets ctx level →
        fields ∈ hiddenWidgets ctx (node :: level) := by
      intro fields member
      rw [hiddenWidgets, widgetsOf, List.filter_append]
      exact List.mem_append_right _ member
    intro fields member
    cases node with
    | widget own =>
      rw [restoreHidden] at member
      split at member
      · exact (ih _ _ _ fields member).imp_right (later fields)
      · split at member
        · exact (ih _ _ _ fields member).imp_right (later fields)
        · exact (ih _ _ _ fields member).imp_right (later fields)
    | container id kind colSpan children =>
      rw [restoreHidden] at member
      split at member
      · exact (ih _ _ _ fields member).imp_right (later fields)
      · rcases ih _ _ _ fields member with earlier | below
        · refine (List.mem_append.mp earlier).imp_right fun swept => ?_
          rw [hiddenWidgets, widgetsOf_container, List.filter_append]
          exact List.mem_append_left _ ((collectHiddenNodes_sublist ctx present _).subset swept)
        · exact .inr (later fields below)

end Restore

mutual

def BoardNode.reached (storedIds : List String) : BoardNode → List String
  | .widget _ => []
  | .container id _ _ children =>
    if id ∈ storedIds then id :: reachedContainers storedIds children else []

/-- The stored containers of an incoming board that lie below stored containers only. -/
@[grind =]
def reachedContainers (storedIds : List String) : List BoardNode → List String
  | [] => []
  | node :: rest => node.reached storedIds ++ reachedContainers storedIds rest

end

mutual

def BoardNode.beneathNew (storedIds : List String) (under : Bool) : BoardNode → List String
  | .widget _ => []
  | .container id _ _ children =>
    if id ∈ storedIds then
      (if under then [id] else []) ++ containersBeneathNew storedIds under children
    else containersBeneathNew storedIds true children

/-- The stored containers of an incoming board with a new container somewhere above them. The
flag says whether there is one above this level. -/
def containersBeneathNew (storedIds : List String) (under : Bool) : List BoardNode → List String
  | [] => []
  | node :: rest =>
    node.beneathNew storedIds under ++ containersBeneathNew storedIds under rest

end

section Reach

variable (storedIds : List String)

theorem containersBeneathNew_true (nodes : List BoardNode) :
    containersBeneathNew storedIds true nodes =
      (containerIds nodes).filter (· ∈ storedIds) := by
  induction nodes using BoardNode.level_induction with
  | nil => rfl
  | widget fields rest ih => exact ih
  | container id kind colSpan children rest inside ih =>
    rw [containersBeneathNew, BoardNode.beneathNew, inside, ih]
    simp only [containerIds, containersOf_container, List.map_cons, List.map_append,
      List.filter_cons, List.filter_append, decide_eq_true_eq]
    split
    · rfl
    · rfl

/-- Every stored container of an incoming board lies below a new one or is reached. -/
theorem reachedContainers_perm (nodes : List BoardNode) :
    ((containerIds nodes).filter (· ∈ storedIds)).Perm
      (reachedContainers storedIds nodes ++ containersBeneathNew storedIds false nodes) := by
  rw [List.perm_iff_count]
  intro tested
  induction nodes using BoardNode.level_induction with
  | nil => rfl
  | widget fields rest ih => exact ih
  | container id kind colSpan children rest inside ih =>
    have below := containersBeneathNew_true storedIds children
    rw [reachedContainers, BoardNode.reached, containersBeneathNew, BoardNode.beneathNew]
    simp only [containerIds, containersOf_container, List.map_cons, List.map_append,
      List.filter_cons, List.filter_append, decide_eq_true_eq, List.count_append] at *
    split
    · simp only [List.count_cons, List.count_append, Bool.false_eq_true, ↓reduceIte,
        List.count_nil]
      omega
    · rw [below]
      simp only [List.count_append, List.count_nil]
      omega

end Reach

/-- What the sweep of a stored container's children meets. -/
def sweepOf (ctx : AccessContext) (present : List String) (stored : List BoardNode)
    (containerId : String) : List BoardWidget :=
  collectHiddenNodes ctx present ((storedChildrenOf containerId stored).getD [])

section MergeNodes

variable (ctx : AccessContext) (present : List String) (stored : List BoardNode)

theorem mergeHiddenNodes_widget (fields : BoardWidget) (rest : List BoardNode)
    (orphans : List BoardWidget) :
    mergeHiddenNodes ctx present stored (.widget fields :: rest) orphans =
      (.widget fields :: (mergeHiddenNodes ctx present stored rest orphans).1,
        (mergeHiddenNodes ctx present stored rest orphans).2) := rfl

variable {id : String} {nodes : List BoardNode}

theorem mergeHiddenNodes_new (new : storedChildrenOf id stored = none) (kind : BoardContainerKind)
    (colSpan : UInt8) (children rest : List BoardNode) (orphans : List BoardWidget) :
    mergeHiddenNodes ctx present stored (.container id kind colSpan children :: rest) orphans =
      (.container id kind colSpan children ::
          (mergeHiddenNodes ctx present stored rest orphans).1,
        (mergeHiddenNodes ctx present stored rest orphans).2) := by
  rw [mergeHiddenNodes, mergeHiddenNode, new]

theorem mergeHiddenNodes_kept {level : List BoardNode}
    (kept : storedChildrenOf id stored = some level) (kind : BoardContainerKind) (colSpan : UInt8)
    (children rest : List BoardNode) (orphans : List BoardWidget) :
    mergeHiddenNodes ctx present stored (.container id kind colSpan children :: rest) orphans =
      let merged := mergeHiddenLevel ctx present stored level children orphans
      let later := mergeHiddenNodes ctx present stored rest merged.2
      (.container id kind colSpan merged.1 :: later.1, later.2) := by
  rw [mergeHiddenNodes, mergeHiddenNode, kept]
  rfl

/-- The map adds what the sweeps of the reached containers meet. -/
theorem mergeHiddenNodes_perm (nodes : List BoardNode) (orphans : List BoardWidget) :
    (widgetsOf (mergeHiddenNodes ctx present stored nodes orphans).1 ++
      (mergeHiddenNodes ctx present stored nodes orphans).2).Perm
      (widgetsOf nodes ++ orphans ++
        (reachedContainers (containerIds stored) nodes).flatMap (sweepOf ctx present stored)) := by
  rw [List.perm_iff_count]
  intro fields
  induction nodes using BoardNode.level_induction generalizing orphans with
  | nil => simp [mergeHiddenNodes, reachedContainers]
  | widget own rest ih =>
    have later := ih orphans
    rw [mergeHiddenNodes_widget, reachedContainers, BoardNode.reached]
    simp only [widgetsOf_widget, List.count_append, List.count_cons, List.nil_append] at *
    omega
  | container id kind colSpan children rest inside ih =>
    rw [reachedContainers, BoardNode.reached]
    cases found : storedChildrenOf id stored with
    | none =>
      have new := storedChildrenOf_eq_none_iff.mp found
      have later := ih orphans
      rw [mergeHiddenNodes_new ctx present stored found, if_neg new]
      simp only [widgetsOf_container, List.count_append, List.nil_append] at *
      omega
    | some level =>
      have old : id ∈ containerIds stored := by
        by_contra new
        rw [storedChildrenOf_eq_none_iff.mpr new] at found
        cases found
      have swept : sweepOf ctx present stored id =
          collectHiddenNodes ctx present level := by rw [sweepOf, found, Option.getD_some]
      have mapped := inside orphans
      have restored := (restoreHidden_perm ctx present 0 level
        (mergeHiddenNodes ctx present stored children orphans).1
        (mergeHiddenNodes ctx present stored children orphans).2).count_eq fields
      have later := ih (mergeHiddenLevel ctx present stored level children orphans).2
      rw [mergeHiddenNodes_kept ctx present stored found, if_pos old]
      simp only [mergeHiddenLevel, widgetsOf_container, List.count_append, List.cons_append,
        List.flatMap_cons, List.flatMap_append, swept] at *
      omega

theorem widgetsOf_sublist_of_mem {children : List BoardNode}
    (member : (id, children) ∈ containersOf nodes) :
    (widgetsOf children).Sublist (widgetsOf nodes) := by
  induction nodes using BoardNode.level_induction with
  | nil => cases member
  | widget own rest ih => exact (ih member).cons own
  | container own kind colSpan inner rest inside ih =>
    rw [containersOf_container, List.mem_cons, List.mem_append] at member
    rw [widgetsOf_container]
    rcases member with here | below | later
    · cases here
      exact List.sublist_append_left _ _
    · exact (inside below).trans (List.sublist_append_left _ _)
    · exact (ih later).trans (List.sublist_append_right _ _)

variable {stored}

theorem mergeHiddenNodes_without {dropped : List String}
    (gone : ∀ fields ∈ hiddenWidgets ctx stored, fields.id ∈ dropped) (nodes : List BoardNode)
    (orphans : List BoardWidget) :
    withoutWidgets dropped (mergeHiddenNodes ctx present stored nodes orphans).1 =
      withoutWidgets dropped nodes := by
  induction nodes using BoardNode.level_induction generalizing orphans with
  | nil => rfl
  | widget own rest ih =>
    rw [mergeHiddenNodes_widget, withoutWidgets_widget, withoutWidgets_widget, ih]
  | container id kind colSpan children rest inside ih =>
    cases found : storedChildrenOf id stored with
    | none =>
      rw [mergeHiddenNodes_new ctx present stored found, withoutWidgets_container,
        withoutWidgets_container, ih]
    | some level =>
      have part := widgetsOf_sublist_of_mem (mem_containersOf_of_storedChildrenOf found)
      have inner : ∀ fields ∈ hiddenWidgets ctx level, fields.id ∈ dropped :=
        fun fields member => gone fields ((part.filter _).subset member)
      rw [mergeHiddenNodes_kept ctx present stored found, withoutWidgets_container,
        withoutWidgets_container, ih, mergeHiddenLevel, restoreHidden_without _ _ _ _ _ _ inner,
        inside]

theorem mergeHiddenNodes_orphans (nodes : List BoardNode) (orphans : List BoardWidget) :
    ∀ fields ∈ (mergeHiddenNodes ctx present stored nodes orphans).2,
      fields ∈ orphans ∨ fields ∈ hiddenWidgets ctx stored := by
  induction nodes using BoardNode.level_induction generalizing orphans with
  | nil => exact fun fields member => .inl member
  | widget own rest ih => exact ih orphans
  | container id kind colSpan children rest inside ih =>
    intro fields member
    cases found : storedChildrenOf id stored with
    | none =>
      rw [mergeHiddenNodes_new ctx present stored found] at member
      exact ih orphans fields member
    | some level =>
      have part := widgetsOf_sublist_of_mem (mem_containersOf_of_storedChildrenOf found)
      rw [mergeHiddenNodes_kept ctx present stored found] at member
      rcases ih _ fields member with earlier | swept
      · rcases restoreHidden_orphans _ _ _ _ _ _ fields earlier with mapped | below
        · exact inside orphans fields mapped
        · exact .inr ((part.filter _).subset below)
      · exact .inr swept

/-- Each hidden widget is met by the sweep of the root or of the nearest container above it that
is still present. -/
theorem hiddenWidgets_perm (absent : ∀ fields ∈ hiddenWidgets ctx nodes, fields.id ∉ present) :
    (hiddenWidgets ctx nodes).Perm
      (collectHiddenNodes ctx present nodes ++
        ((containersOf nodes).filter fun container => container.1 ∈ present).flatMap
          fun container => collectHiddenNodes ctx present container.2) := by
  rw [List.perm_iff_count]
  intro fields
  induction nodes using BoardNode.level_induction with
  | nil => rfl
  | widget own rest ih =>
    rw [hiddenWidgets, widgetsOf_widget, List.filter_cons] at absent ⊢
    rw [collectHiddenNodes_widget, containersOf_widget]
    by_cases hidden : isHiddenFrom ctx own
    · rw [if_pos hidden, List.forall_mem_cons] at absent
      have later := ih absent.2
      simp only [hiddenWidgets, hidden, absent.1, ↓reduceIte, List.count_append,
        List.count_cons, List.count_nil] at *
      omega
    · rw [if_neg hidden] at absent ⊢
      rw [if_neg hidden, ite_self, List.nil_append]
      exact ih absent
  | container id kind colSpan children rest inside ih =>
    rw [hiddenWidgets, widgetsOf_container, List.filter_append] at absent ⊢
    rw [List.forall_mem_append] at absent
    have below := inside absent.1
    have later := ih absent.2
    rw [collectHiddenNodes_container, containersOf_container, List.filter_cons]
    by_cases shown : id ∈ present
    · simp only [hiddenWidgets, shown, decide_true, ↓reduceIte, List.count_append,
        List.flatMap_cons, List.flatMap_append, List.filter_append, List.nil_append] at *
      omega
    · simp only [hiddenWidgets, shown, decide_false, Bool.false_eq_true, ↓reduceIte,
        List.count_append, List.flatMap_append, List.filter_append] at *
      omega

end MergeNodes

/-- What a save may carry: distinct ids, and under the id of a stored node only a node that the
viewer was shown, a widget as a widget and a container as a container. -/
structure EditedFrom (ctx : AccessContext) (stored incoming : List BoardNode) : Prop where
  distinct : (collectNodeIds incoming).Nodup
  widgets : ∀ id ∈ widgetIds incoming, id ∈ collectNodeIds stored →
    id ∈ widgetIds (filterBoardNodes ctx stored)
  containers : ∀ id ∈ containerIds incoming, id ∈ collectNodeIds stored → id ∈ containerIds stored

/-- Every hidden stored widget is in the merged board once, and but for them it is the incoming
board, level by level. -/
def Restores (ctx : AccessContext) (stored incoming merged : List BoardNode) : Prop :=
  ((widgetsOf merged).filter fun fields =>
      fields.id ∈ (hiddenWidgets ctx stored).map BoardWidget.id).Perm (hiddenWidgets ctx stored) ∧
    withoutWidgets ((hiddenWidgets ctx stored).map BoardWidget.id) merged = incoming

section Merge

variable {ctx : AccessContext} {stored incoming : List BoardNode}

/-- A viewer holds no node under the id of a widget that is hidden from them. -/
theorem EditedFrom.hidden_absent (edited : EditedFrom ctx stored incoming)
    (distinct : (collectNodeIds stored).Nodup) {fields : BoardWidget}
    (hidden : fields ∈ hiddenWidgets ctx stored) : fields.id ∉ collectNodeIds incoming := by
  intro shown
  obtain ⟨member, isHidden⟩ := List.mem_filter.mp hidden
  have listed : fields.id ∈ widgetIds stored := List.mem_map_of_mem member
  have known : fields.id ∈ collectNodeIds stored := mem_collectNodeIds_iff.mpr (.inl listed)
  rcases mem_collectNodeIds_iff.mp shown with asWidget | asContainer
  · obtain ⟨other, visible, same⟩ := List.mem_map.mp (edited.widgets _ asWidget known)
    rw [widgetsOf_filterBoardNodes, List.mem_filter] at visible
    rw [widget_unique distinct visible.1 member same, isHidden] at visible
    cases visible.2
  · exact (ids_nodup distinct).2.2 _ listed (edited.containers _ asContainer known)

theorem EditedFrom.own_visible (edited : EditedFrom ctx stored incoming)
    (distinct : (collectNodeIds stored).Nodup) :
    ∀ fields ∈ widgetsOf incoming,
      fields.id ∉ (hiddenWidgets ctx stored).map BoardWidget.id := by
  intro fields member taken
  obtain ⟨hidden, listed, same⟩ := List.mem_map.mp taken
  refine edited.hidden_absent distinct listed ?_
  rw [same]
  exact mem_collectNodeIds_iff.mpr (.inl (List.mem_map_of_mem member))

/-- A stored container whose id is among the incoming ones is an incoming container. -/
theorem EditedFrom.container_kept (edited : EditedFrom ctx stored incoming)
    (distinct : (collectNodeIds stored).Nodup) {id : String} (kept : id ∈ containerIds stored) :
    id ∈ collectNodeIds incoming ↔ id ∈ containerIds incoming := by
  refine ⟨fun shown => ?_, fun shown => mem_collectNodeIds_iff.mpr (.inr shown)⟩
  refine (mem_collectNodeIds_iff.mp shown).resolve_left fun asWidget => ?_
  have known := mem_collectNodeIds_iff.mpr (.inr kept)
  have visible := edited.widgets _ asWidget known
  have listed : id ∈ widgetIds stored := by
    rw [widgetIds, widgetsOf_filterBoardNodes] at visible
    exact (List.filter_sublist.map _).subset visible
  exact (ids_nodup distinct).2.2 id listed kept

/-- The stored containers that are still present are the incoming ones that were stored. -/
theorem EditedFrom.present_perm (edited : EditedFrom ctx stored incoming)
    (distinct : (collectNodeIds stored).Nodup) :
    ((containerIds stored).filter (· ∈ collectNodeIds incoming)).Perm
      ((containerIds incoming).filter (· ∈ containerIds stored)) := by
  refine (List.perm_ext_iff_of_nodup ((ids_nodup distinct).2.1.filter _)
    ((ids_nodup edited.distinct).2.1.filter _)).mpr fun id => ?_
  simp only [List.mem_filter, decide_eq_true_eq]
  constructor
  · rintro ⟨kept, shown⟩
    exact ⟨(edited.container_kept distinct kept).mp shown, kept⟩
  · rintro ⟨shown, kept⟩
    exact ⟨kept, (edited.container_kept distinct kept).mpr shown⟩

/-- All hidden widgets, by the sweep that meets them: that of the root, those of the reached
containers, and those that are left out because their container is beneath a new one. -/
theorem EditedFrom.hidden_perm (edited : EditedFrom ctx stored incoming)
    (distinct : (collectNodeIds stored).Nodup) :
    (hiddenWidgets ctx stored).Perm
      (collectHiddenNodes ctx (collectNodeIds incoming) stored ++
        ((reachedContainers (containerIds stored) incoming).flatMap
            (sweepOf ctx (collectNodeIds incoming) stored) ++
          (containersBeneathNew (containerIds stored) false incoming).flatMap
            (sweepOf ctx (collectNodeIds incoming) stored))) := by
  have met := hiddenWidgets_perm ctx (collectNodeIds incoming)
    fun fields hidden => edited.hidden_absent distinct hidden
  have sweeps : ((containersOf stored).filter fun container =>
        container.1 ∈ collectNodeIds incoming).flatMap (fun container =>
          collectHiddenNodes ctx (collectNodeIds incoming) container.2) =
      ((containerIds stored).filter (· ∈ collectNodeIds incoming)).flatMap
        (sweepOf ctx (collectNodeIds incoming) stored) := by
    rw [containerIds, List.filter_map, List.flatMap_map]
    refine List.flatMap_congr fun container member => ?_
    have listed := (List.mem_filter.mp member).1
    rw [sweepOf, storedChildrenOf_of_mem distinct listed, Option.getD_some]
  have split := (edited.present_perm distinct).trans
    (reachedContainers_perm (containerIds stored) incoming)
  rw [sweeps] at met
  rw [← List.flatMap_append]
  exact met.trans ((split.flatMap_right _).append_left _)

theorem widgetsOf_merge (ctx : AccessContext) (stored incoming : List BoardNode) :
    (widgetsOf (mergeHiddenBoardNodes ctx stored incoming)).Perm
      (widgetsOf incoming ++ (collectHiddenNodes ctx (collectNodeIds incoming) stored ++
        (reachedContainers (containerIds stored) incoming).flatMap
          (sweepOf ctx (collectNodeIds incoming) stored))) := by
  have mapped := mergeHiddenNodes_perm ctx (collectNodeIds incoming) stored incoming []
  have restored := restoreHidden_perm ctx (collectNodeIds incoming) 0 stored
    (mergeHiddenNodes ctx (collectNodeIds incoming) stored incoming []).1
    (mergeHiddenNodes ctx (collectNodeIds incoming) stored incoming []).2
  rw [mergeHiddenBoardNodes, mergeHiddenLevel, widgetsOf_append, widgetsOf_map_widget]
  rw [List.perm_iff_count] at *
  intro fields
  have first := mapped fields
  have second := restored fields
  simp only [List.count_append, List.count_nil] at *
  omega

theorem EditedFrom.without_merge (edited : EditedFrom ctx stored incoming)
    (distinct : (collectNodeIds stored).Nodup) :
    withoutWidgets ((hiddenWidgets ctx stored).map BoardWidget.id)
      (mergeHiddenBoardNodes ctx stored incoming) = incoming := by
  have gone : ∀ fields ∈ hiddenWidgets ctx stored,
      fields.id ∈ (hiddenWidgets ctx stored).map BoardWidget.id :=
    fun fields hidden => List.mem_map_of_mem hidden
  have orphans : ∀ fields ∈
      (mergeHiddenNodes ctx (collectNodeIds incoming) stored incoming []).2,
      fields ∈ [] ∨ fields ∈ hiddenWidgets ctx stored :=
    mergeHiddenNodes_orphans ctx (collectNodeIds incoming) incoming []
  have rescued := restoreHidden_orphans ctx (collectNodeIds incoming) 0 stored
    (mergeHiddenNodes ctx (collectNodeIds incoming) stored incoming []).1
    (mergeHiddenNodes ctx (collectNodeIds incoming) stored incoming []).2
  have own := edited.own_visible distinct
  rw [mergeHiddenBoardNodes, mergeHiddenLevel, withoutWidgets_append,
    restoreHidden_without _ _ _ _ _ _ gone, mergeHiddenNodes_without _ _ gone,
    withoutWidgets_eq_self own, withoutWidgets_map_widget, List.append_nil]
  intro fields member
  rcases rescued fields member with earlier | swept
  · exact gone fields ((orphans fields earlier).resolve_left List.not_mem_nil)
  · exact gone fields swept

/-- A save restores the hidden widgets exactly if no sweep that is left out meets one. -/
theorem EditedFrom.restores_iff (edited : EditedFrom ctx stored incoming)
    (distinct : (collectNodeIds stored).Nodup) :
    Restores ctx stored incoming (mergeHiddenBoardNodes ctx stored incoming) ↔
      (containersBeneathNew (containerIds stored) false incoming).flatMap
        (sweepOf ctx (collectNodeIds incoming) stored) = [] := by
  have all := edited.hidden_perm distinct
  have found : ((widgetsOf (mergeHiddenBoardNodes ctx stored incoming)).filter fun fields =>
        fields.id ∈ (hiddenWidgets ctx stored).map BoardWidget.id).Perm
      (collectHiddenNodes ctx (collectNodeIds incoming) stored ++
        (reachedContainers (containerIds stored) incoming).flatMap
          (sweepOf ctx (collectNodeIds incoming) stored)) := by
    have kept := (widgetsOf_merge ctx stored incoming).filter fun fields =>
      fields.id ∈ (hiddenWidgets ctx stored).map BoardWidget.id
    have none : (widgetsOf incoming).filter (fun fields =>
        fields.id ∈ (hiddenWidgets ctx stored).map BoardWidget.id) = [] := by
      rw [List.filter_eq_nil_iff]
      intro fields member
      rw [decide_eq_true_eq]
      exact edited.own_visible distinct fields member
    have every : ∀ fields ∈ collectHiddenNodes ctx (collectNodeIds incoming) stored ++
        (reachedContainers (containerIds stored) incoming).flatMap
          (sweepOf ctx (collectNodeIds incoming) stored),
        decide (fields.id ∈ (hiddenWidgets ctx stored).map BoardWidget.id) = true := by
      intro fields member
      rw [decide_eq_true_eq]
      refine List.mem_map_of_mem (all.mem_iff.mpr ?_)
      rw [← List.append_assoc]
      exact List.mem_append_left _ member
    rwa [List.filter_append, none, List.nil_append, List.filter_eq_self.mpr every] at kept
  constructor
  · intro restores
    have lengths := (found.symm.trans (restores.1.trans all)).length_eq
    simp only [List.length_append] at lengths
    exact List.length_eq_zero_iff.mp (by omega)
  · intro nothing
    refine ⟨?_, edited.without_merge distinct⟩
    rw [nothing, List.append_nil] at all
    exact found.trans all.symm

end Merge

end DddCqrsEs.FullstackApp
