import DddCqrsEs.FullstackApp.BoardLayout

/- Editing a board conserves it: what each helper does to the tiles, when it answers that it
changed the board, and that the ids stay distinct. -/
namespace DddCqrsEs.FullstackApp

section Placements

variable {before after level edited : List BoardNode} {parent : Option String}

/-- Of a level that loses a node the board loses what the node holds. -/
theorem Edited.lost {node : BoardNode} (changed : Edited parent level edited none before after)
    (lost : level.Perm (node :: edited)) :
    (placedIn none before).Perm (node.placed parent ++ placedIn none after) := by
  obtain ⟨others, old, new⟩ := changed.placed
  have inLevel := placedIn_perm parent lost
  rw [List.perm_iff_count] at old new inLevel ⊢
  intro placement
  have beforeCount := old placement
  have afterCount := new placement
  have levelCount := inLevel placement
  simp only [placedIn_cons, List.count_append] at *
  omega

theorem Edited.rearranged (changed : Edited parent level edited none before after)
    (same : edited.Perm level) : (placedIn none after).Perm (placedIn none before) := by
  obtain ⟨others, old, new⟩ := changed.placed
  exact new.trans (((placedIn_perm parent same).append_right others).trans old.symm)

theorem Edited.placed_subset (changed : Edited parent level edited none before after) :
    placedIn parent level ⊆ placedIn none before := by
  obtain ⟨others, old, new⟩ := changed.placed
  intro placement member
  exact old.mem_iff.mpr (List.mem_append_left others member)

theorem containerOf_iff {id : String} {nodes : List BoardNode} : ContainerOf nodes id ↔
    ∃ parent kind colSpan, (parent, BoardTile.container id kind colSpan) ∈ placedIn none nodes := by
  have tiles := tiles_placedIn none nodes
  constructor
  · rintro ⟨kind, colSpan, children, member⟩
    have tile := List.mem_map_of_mem (f := BoardNode.tile) member
    rw [← tiles, List.mem_map] at tile
    obtain ⟨⟨parent, placed⟩, inside, same⟩ := tile
    have equal : placed = .container id kind colSpan := same
    subst equal
    exact ⟨parent, kind, colSpan, inside⟩
  · rintro ⟨parent, kind, colSpan, member⟩
    have tile := List.mem_map_of_mem (f := Prod.snd) member
    rw [tiles, List.mem_map] at tile
    obtain ⟨node, inside, same⟩ := tile
    cases node with
    | widget fields => cases same
    | container own ownKind ownSpan children =>
      cases same
      exact ⟨kind, colSpan, children, inside⟩

end Placements

section Levels

variable {nodes : List BoardNode} {id : String}

/-- An edit of the level that holds a node with this id, where no level holds one. -/
theorem missing_of_no_level (first : ∀ node ∈ nodes, node.id ≠ id)
    (nowhere : ∀ node ∈ subtreesOf nodes, ∀ child ∈ node.children, child.id ≠ id) :
    id ∉ collectNodeIds nodes := by
  intro member
  obtain ⟨node, inside, same⟩ := mem_collectNodeIds_iff_subtree.mp member
  rcases mem_level_of_mem_subtreesOf inside with level | ⟨above, within, child⟩
  · exact first node level same
  · exact nowhere above within node child same

variable {after : List BoardNode}

theorem leave_missing {α : Type} {answer : BoardNode → α}
    (left : editLevel (leaveLevel answer id) nodes = (none, after)) :
    after = nodes ∧ id ∉ collectNodeIds nodes := by
  have edits := @editLevel_spec _ (leaveLevel answer id) rfl none nodes
  rw [left] at edits
  obtain ⟨same, first, nowhere⟩ := edits
  refine ⟨same, missing_of_no_level (leaveLevel_none first) ?_⟩
  intro node inside
  exact leaveLevel_none (nowhere node inside)

/-- A node that leaves the board takes its subtree along, and nothing else. -/
theorem leave_found {α : Type} {answer : BoardNode → α} {found : α}
    (left : editLevel (leaveLevel answer id) nodes = (some found, after)) :
    ∃ node ∈ subtreesOf nodes, node.id = id ∧ answer node = found ∧ ∃ parent,
      (placedIn none nodes).Perm (node.placed parent ++ placedIn none after) := by
  have edits := @editLevel_spec _ (leaveLevel answer id) rfl none nodes
  rw [left] at edits
  obtain ⟨parent, level, edited, applies, change⟩ := edits
  obtain ⟨node, inLevel, own, answered, lost⟩ := leaveLevel_some applies
  exact ⟨node, change.subtrees_before (mem_subtreesOf_of_mem inLevel), own, answered, parent,
    change.lost lost⟩

theorem removeNode_answers (nodes : List BoardNode) (id : String) :
    LayoutEdit.Answers nodes (.remove id) (removeNode nodes id) := by
  rw [removeNode]
  cases result : editLevel (leaveLevel (fun _ => ()) id) nodes with
  | mk found after =>
    cases found with
    | none => exact leave_missing result
    | some answer =>
      obtain ⟨node, inside, own, _, parent, lost⟩ := leave_found result
      refine ⟨⟨node, inside, own, parent, lost⟩, ?_⟩
      exact mem_collectNodeIds_iff_subtree.mpr ⟨node, inside, own⟩

/-- The nodes that lie under one parent are one level. -/
theorem one_level (distinct : (collectNodeIds nodes).Nodup) {parent : Option String}
    {tile other : BoardTile} (placed : (parent, tile) ∈ placedIn none nodes)
    (otherPlaced : (parent, other) ∈ placedIn none nodes) :
    ∃ level, (level = nodes ∨ ∃ above ∈ subtreesOf nodes, level = above.children) ∧
      (∃ node ∈ level, node.tile = tile) ∧ ∃ node ∈ level, node.tile = other := by
  rcases mem_placedIn_iff.mp placed with ⟨own, first⟩ | ⟨above, inside, own, below⟩
  · rcases mem_placedIn_iff.mp otherPlaced with ⟨_, second⟩ | ⟨_, _, wrong, _⟩
    · exact ⟨nodes, Or.inl rfl, first, second⟩
    · rw [own] at wrong
      cases wrong
  · rcases mem_placedIn_iff.mp otherPlaced with ⟨wrong, _⟩ | ⟨same, within, own', below'⟩
    · rw [own] at wrong
      cases wrong
    · have one : above = same := by
        apply subtree_unique distinct inside within
        rw [own] at own'
        exact Option.some.inj own'
      subst one
      exact ⟨above.children, Or.inr ⟨above, inside, rfl⟩, below, below'⟩

theorem reorderSiblings_answers (distinct : (collectNodeIds nodes).Nodup)
    (fromId toId : String) :
    LayoutEdit.Answers nodes (.reorder fromId toId) (reorderSiblings nodes fromId toId) := by
  rw [reorderSiblings]
  by_cases equal : fromId = toId
  · rw [if_pos (by simpa using equal)]
    exact ⟨rfl, fun applies => applies.1 equal⟩
  rw [if_neg (by simpa using equal)]
  have edits := @editLevel_spec _ (reorderLevel fromId toId) rfl none nodes
  cases result : editLevel (reorderLevel fromId toId) nodes with
  | mk found after =>
    rw [result] at edits
    cases found with
    | none =>
      obtain ⟨same, first, nowhere⟩ := edits
      refine ⟨same, ?_⟩
      rintro ⟨_, parent, ⟨moved, movedPlace, movedId⟩, target, targetPlace, targetId⟩
      obtain ⟨level, ofBoard, ⟨node, nodeIn, tile⟩, other, otherIn, otherTile⟩ :=
        one_level distinct movedPlace targetPlace
      have kept : reorderLevel fromId toId level = none := by
        rcases ofBoard with rfl | ⟨above, inside, rfl⟩
        · exact first
        · exact nowhere above inside
      apply reorderLevel_none kept nodeIn otherIn
      · rw [← tile_id, tile, movedId]
      · rw [← tile_id, otherTile, targetId]
    | some answer =>
      obtain ⟨parent, level, edited, applies, change⟩ := edits
      obtain ⟨same, ⟨moved, movedIn, movedId⟩, target, targetIn, targetId⟩ :=
        reorderLevel_spec applies
      have still : ∀ node ∈ level, ∀ other ∈ subtreesOf nodes, other.id = node.id →
          other ∈ subtreesOf after := by
        intro node inside other member ids
        have before := change.subtrees_before (mem_subtreesOf_of_mem inside)
        rw [subtree_unique distinct member before ids]
        exact change.subtrees_after (mem_subtreesOf_of_mem (same.mem_iff.mpr inside))
      have under : ∀ node ∈ level, (parent, node.tile) ∈ placedIn none nodes := by
        intro node inside
        exact change.placed_subset (mem_placedIn_iff.mpr (Or.inl ⟨rfl, node, inside, rfl⟩))
      refine ⟨⟨change.rearranged same, ?_⟩, equal, parent, ?_, ?_⟩
      · intro node member ids
        rcases ids with ids | ids
        · exact still moved movedIn node member (ids.trans movedId.symm)
        · exact still target targetIn node member (ids.trans targetId.symm)
      · exact ⟨moved.tile, under moved movedIn, (tile_id moved).trans movedId⟩
      · exact ⟨target.tile, under target targetIn, (tile_id target).trans targetId⟩

end Levels

section Containers

variable {nodes after : List BoardNode} {id : String} {child : BoardNode}

theorem appendChild_false (refused : appendChild nodes id child = (false, after)) :
    after = nodes ∧ ¬ ContainerOf nodes id := by
  have edits := editFirstOf_spec (BoardNode.takeChild id child) none nodes
  rw [appendChild] at refused
  rw [refused] at edits
  refine ⟨edits.1, ?_⟩
  rintro ⟨kind, colSpan, children, member⟩
  have other := edits.2 _ member
  simp [BoardNode.takeChild] at other

theorem appendChild_true (appended : appendChild nodes id child = (true, after)) :
    ContainerOf nodes id ∧ child ∈ subtreesOf after ∧
      (placedIn none after).Perm (child.placed (some id) ++ placedIn none nodes) := by
  have edits := editFirstOf_spec (BoardNode.takeChild id child) none nodes
  rw [appendChild] at appended
  rw [appended] at edits
  obtain ⟨parent, node, edited, rest, applies, change⟩ := edits
  cases node with
  | widget fields => cases applies
  | container own kind colSpan children =>
    by_cases same : own = id
    · simp only [BoardNode.takeChild, same, beq_self_eq_true, if_true,
        Option.some.injEq] at applies
      subst same applies
      refine ⟨⟨kind, colSpan, children, ?_⟩, ?_, ?_⟩
      · exact change.subtrees_before (by simp [BoardNode.subtrees])
      · apply change.subtrees_after
        simp [BoardNode.subtrees, subtrees_eq child]
      · obtain ⟨others, old, new⟩ := change.placed
        rw [List.perm_iff_count] at old new ⊢
        intro placement
        have beforeCount := old placement
        have afterCount := new placement
        simp only [placedIn_cons, placedIn_append, placedIn_nil, BoardNode.placed,
          List.count_append, List.count_cons, List.count_nil] at *
        omega
    · simp [BoardNode.takeChild, same] at applies

variable {parentId : Option String}

theorem placeNewNode_true (placed : placeNewNode nodes child parentId = (true, after)) :
    (parentId = none ∨ parentId = some "" ∨ ∃ parent, parentId = some parent ∧
      ContainerOf nodes parent) ∧
      (placedIn none after).Perm
        (child.placed (parentId.filter (· ≠ "")) ++ placedIn none nodes) := by
  have root : ∀ child : BoardNode, (placedIn none (nodes ++ [child])).Perm
      (child.placed none ++ placedIn none nodes) := by
    intro child
    simpa using List.perm_append_comm
  cases parentId with
  | none =>
    cases placed
    exact ⟨Or.inl rfl, root child⟩
  | some parent =>
    rw [placeNewNode] at placed
    by_cases empty : parent = ""
    · subst empty
      cases placed
      exact ⟨Or.inr (Or.inl rfl), root child⟩
    · rw [if_neg (by simpa using empty)] at placed
      obtain ⟨container, _, same⟩ := appendChild_true placed
      refine ⟨Or.inr (Or.inr ⟨parent, rfl, container⟩), ?_⟩
      simpa [Option.filter, empty] using same

theorem placeNewNode_false (refused : placeNewNode nodes child parentId = (false, after)) :
    after = nodes ∧ ∃ parent, parentId = some parent ∧ parent ≠ "" ∧
      ¬ ContainerOf nodes parent := by
  cases parentId with
  | none => cases refused
  | some parent =>
    rw [placeNewNode] at refused
    by_cases empty : parent = ""
    · simp [empty] at refused
    · rw [if_neg (by simpa using empty)] at refused
      obtain ⟨same, missing⟩ := appendChild_false refused
      exact ⟨same, parent, rfl, empty, missing⟩

/-- The container that a node moves into is still in the tree when the node has left it. -/
theorem containerOf_after {node : BoardNode} {parent : Option String}
    (left : (placedIn none nodes).Perm (node.placed parent ++ placedIn none after))
    (container : ContainerOf nodes id) (apart : id ∉ node.nodeIds) : ContainerOf after id := by
  obtain ⟨above, kind, colSpan, member⟩ := containerOf_iff.mp container
  rw [left.mem_iff, List.mem_append] at member
  rcases member with own | other
  · refine absurd ?_ apart
    rw [← ids_placed parent node]
    exact List.mem_map_of_mem (f := (·.2.id)) own
  · exact containerOf_iff.mpr ⟨above, kind, colSpan, other⟩

end Containers

section Spans

variable {span : UInt8} {id : String}

@[simp] theorem BoardNode.setColSpan_id (node : BoardNode) :
    (node.setColSpan span).id = node.id := by
  cases node with
  | widget fields => rfl
  | container own kind colSpan children => rfl

@[simp] theorem BoardNode.setColSpan_children (node : BoardNode) :
    (node.setColSpan span).children = node.children := by
  cases node with
  | widget fields => rfl
  | container own kind colSpan children => rfl

theorem Placement.resized_of_ne {placement : Placement} (other : placement.2.id ≠ id) :
    placement.resized id span = placement := by
  obtain ⟨parent, fields | ⟨own, kind, colSpan⟩⟩ := placement
  · exact if_neg other
  · exact if_neg other

theorem Placement.resized_tile {parent : Option String} {node : BoardNode}
    (own : node.id = id) :
    Placement.resized id span (parent, node.tile) = (parent, (node.setColSpan span).tile) := by
  cases node with
  | widget fields => exact if_pos own
  | container own kind colSpan children => exact if_pos ‹_›

theorem Placement.resized_id (placement : Placement) :
    (placement.resized id span).2.id = placement.2.id := by
  obtain ⟨parent, fields | ⟨own, kind, colSpan⟩⟩ := placement
  · rw [Placement.resized]
    split <;> rfl
  · rw [Placement.resized]
    split <;> rfl

end Spans

section Moves

variable {nodes : List BoardNode} (distinct : (collectNodeIds nodes).Nodup)

include distinct

theorem findNode_iff {id : String} {node : BoardNode} :
    findNode nodes id = some node ↔ node ∈ subtreesOf nodes ∧ node.id = id := by
  rw [findNode_eq]
  constructor
  · intro found
    exact ⟨List.mem_of_find?_eq_some found, by simpa using List.find?_some found⟩
  · rintro ⟨member, own⟩
    cases found : (subtreesOf nodes).find? (·.id == id) with
    | none =>
      have other := List.find?_eq_none.mp found node member
      simp [own] at other
    | some first =>
      have same : first.id = id := by simpa using List.find?_some found
      rw [subtree_unique distinct (List.mem_of_find?_eq_some found) member (same.trans own.symm)]

theorem isAncestorOf_iff {ancestorId nodeId : String} :
    isAncestorOf nodes ancestorId nodeId = true ↔
      ancestorId = nodeId ∨ ∃ node ∈ subtreesOf nodes, node.id = ancestorId ∧
        nodeId ∈ node.nodeIds := by
  rw [isAncestorOf]
  by_cases same : ancestorId = nodeId
  · simp [same]
  rw [if_neg (by simpa using same)]
  cases found : findNode nodes ancestorId with
  | none =>
    simp only [Bool.false_eq_true, same, false_or, false_iff]
    rintro ⟨node, member, own, _⟩
    rw [(findNode_iff distinct).mpr ⟨member, own⟩] at found
    cases found
  | some first =>
    obtain ⟨member, own⟩ := (findNode_iff distinct).mp found
    have unique : ∀ node ∈ subtreesOf nodes, node.id = ancestorId → node = first := by
      intro node inside same
      exact subtree_unique distinct inside member (same.trans own.symm)
    cases first with
    | widget fields =>
      simp only [Bool.false_eq_true, same, false_or, false_iff]
      rintro ⟨node, inside, sameId, below⟩
      rw [unique node inside sameId, nodeIds_eq, own] at below
      simp [BoardNode.children, Ne.symm same] at below
    | container id kind colSpan children =>
      simp only [idExists_iff, same, false_or]
      constructor
      · intro below
        refine ⟨_, member, own, ?_⟩
        rw [nodeIds_eq]
        exact List.mem_cons_of_mem _ below
      · rintro ⟨node, inside, sameId, below⟩
        rw [unique node inside sameId, nodeIds_eq, own] at below
        exact (List.mem_cons.mp below).resolve_left (Ne.symm same)

theorem moveIntoContainer_answers (nodeId containerId : String) :
    LayoutEdit.Answers nodes (.move nodeId containerId)
      (moveIntoContainer nodes nodeId containerId) := by
  have refused : ¬ LayoutEdit.Applies nodes (.move nodeId containerId) →
      LayoutEdit.Answers nodes (.move nodeId containerId) (false, nodes) := fun no => ⟨rfl, no⟩
  rw [moveIntoContainer]
  by_cases same : nodeId = containerId
  · rw [if_pos (by simpa using same)]
    apply refused
    rintro ⟨_, node, _, own, apart⟩
    rw [nodeIds_eq, own, same] at apart
    simp at apart
  rw [if_neg (by simpa using same)]
  split
  · rename_i id kind colSpan children found
    obtain ⟨member, own⟩ := (findNode_iff distinct).mp found
    have container : ContainerOf nodes containerId := by
      cases own
      exact ⟨kind, colSpan, children, member⟩
    by_cases above : isAncestorOf nodes nodeId containerId = true
    · rw [if_pos above]
      apply refused
      rintro ⟨_, node, inside, own, apart⟩
      rcases (isAncestorOf_iff distinct).mp above with equal | ⟨other, within, otherOwn, below⟩
      · exact same equal
      · rw [subtree_unique distinct inside within (own.trans otherOwn.symm)] at apart
        exact apart below
    · rw [if_neg above]
      cases extracted : extractNode nodes nodeId with
      | mk moved left =>
        cases moved with
        | none =>
          obtain ⟨unchanged, missing⟩ := leave_missing extracted
          refine ⟨unchanged, ?_⟩
          rintro ⟨_, node, inside, own, _⟩
          exact missing (mem_collectNodeIds_iff_subtree.mpr ⟨node, inside, own⟩)
        | some answer =>
          obtain ⟨node, inside, own, rfl, parent, lost⟩ := leave_found extracted
          have apart : containerId ∉ node.nodeIds := by
            intro below
            exact above ((isAncestorOf_iff distinct).mpr (Or.inr ⟨node, inside, own, below⟩))
          have still := containerOf_after lost container apart
          change LayoutEdit.Answers nodes _ (appendChild left containerId node)
          rcases appended : appendChild left containerId node with ⟨done | done, after⟩
          · exact absurd still (appendChild_false appended).2
          · obtain ⟨_, placed, new⟩ := appendChild_true appended
            exact ⟨⟨node, inside, own, placed, parent, _, lost, new⟩, container, node, inside,
              own, apart⟩
  · rename_i missing
    apply refused
    rintro ⟨⟨kind, colSpan, children, member⟩, _⟩
    exact missing _ _ _ _ ((findNode_iff distinct).mpr ⟨member, rfl⟩)

theorem setSpanById_answers (id : String) (span : UInt8) :
    LayoutEdit.Answers nodes (.setSpan id span) (setSpanById nodes id span) := by
  have edits := editFirstOf_spec (fun node : BoardNode =>
    if node.id == id then some (node.setColSpan span) else none) none nodes
  rw [setSpanById]
  generalize editFirstOf (fun node : BoardNode =>
    if node.id == id then some (node.setColSpan span) else none) nodes = result at edits
  obtain ⟨changed | changed, after⟩ := result
  · refine ⟨edits.1, ?_⟩
    intro applies
    obtain ⟨node, inside, own⟩ := mem_collectNodeIds_iff_subtree.mp applies
    have other := edits.2 node inside
    simp [own] at other
  · obtain ⟨parent, node, edited, rest, applies, change⟩ := edits
    have own : node.id = id := by
      by_contra other
      simp [other] at applies
    have same : edited = node.setColSpan span := by
      simpa [own] using applies.symm
    subst same
    have inside := change.subtrees_before (mem_subtreesOf_of_mem (List.mem_cons_self ..))
    refine ⟨?_, mem_collectNodeIds_iff_subtree.mpr ⟨node, inside, own⟩⟩
    obtain ⟨others, old, new⟩ := change.placed
    simp only [placedIn_cons, placed_eq, List.cons_append, List.append_assoc,
      BoardNode.setColSpan_id, BoardNode.setColSpan_children] at old new
    have ids := old.map (·.2.id)
    rw [ids_placedIn] at ids
    have unique := (List.nodup_cons.mp (ids.nodup_iff.mp distinct)).1
    simp only [tile_id, own] at unique
    have kept : ∀ placement ∈ placedIn (some node.id) node.children ++
        (placedIn parent rest ++ others), placement.resized id span = placement := by
      intro placement member
      apply Placement.resized_of_ne
      intro same
      exact unique (List.mem_map.mpr ⟨placement, by simpa only [own] using member, same⟩)
    have resized := old.map (·.resized id span)
    rw [List.map_cons, List.map_congr_left kept, List.map_id', Placement.resized_tile own]
      at resized
    exact new.trans resized.symm

end Moves

section Runs

variable {nodes after : List BoardNode}

theorem NewNode.build_placed (node : NewNode) (id : String) (parent : Option String) :
    (node.build id).placed parent = [(parent, (node.build id).tile)] := by
  cases node with
  | widget fields => rfl
  | container kind colSpan => rfl

theorem NewNode.build_tile_id (node : NewNode) (id : String) : (node.build id).tile.id = id := by
  cases node with
  | widget fields => rfl
  | container kind colSpan => rfl

theorem place_answers (nodes : List BoardNode) (stem : String) (node : NewNode)
    (parentId : Option String) : LayoutEdit.Answers nodes (.place stem node parentId)
      (LayoutEdit.perform nodes (.place stem node parentId)) := by
  obtain ⟨n, _, free, found⟩ := nextNodeId_spec stem nodes
  rw [LayoutEdit.perform, found _ (Nat.lt_succ_self _)]
  change LayoutEdit.Answers nodes _
    (placeNewNode nodes (node.build (stem ++ "-" ++ toString n)) parentId)
  rcases placed : placeNewNode nodes (node.build (stem ++ "-" ++ toString n)) parentId
    with ⟨done | done, after⟩
  · obtain ⟨same, parent, rfl, named, missing⟩ := placeNewNode_false placed
    refine ⟨same, ?_⟩
    rintro (empty | container)
    · exact named empty
    · exact missing container
  · obtain ⟨somewhere, new⟩ := placeNewNode_true placed
    rw [NewNode.build_placed] at new
    refine ⟨⟨_, free, ⟨n, rfl⟩, new⟩, ?_⟩
    rcases somewhere with rfl | rfl | ⟨parent, rfl, container⟩
    · exact trivial
    · exact Or.inl rfl
    · exact Or.inr container

theorem perform_answers (distinct : (collectNodeIds nodes).Nodup) (action : LayoutEdit) :
    action.Answers nodes (action.perform nodes) := by
  cases action with
  | place stem node parentId => exact place_answers nodes stem node parentId
  | remove id => exact removeNode_answers nodes id
  | reorder fromId toId => exact reorderSiblings_answers distinct fromId toId
  | move nodeId containerId => exact moveIntoContainer_answers distinct nodeId containerId
  | setSpan id span => exact setSpanById_answers distinct id span

theorem LayoutEdit.Conserves.distinct {action : LayoutEdit}
    (conserves : action.Conserves nodes after) (distinct : (collectNodeIds nodes).Nodup) :
    (collectNodeIds after).Nodup := by
  rw [← ids_placedIn none] at distinct ⊢
  cases action with
  | place stem node parentId =>
    obtain ⟨id, free, _, new⟩ := conserves
    rw [(new.map _).nodup_iff, List.map_cons, List.nodup_cons]
    refine ⟨?_, distinct⟩
    rwa [ids_placedIn, NewNode.build_tile_id]
  | remove id =>
    obtain ⟨node, _, _, parent, lost⟩ := conserves
    rw [(lost.map _).nodup_iff, List.map_append] at distinct
    exact distinct.of_append_right
  | reorder fromId toId => exact (conserves.1.map _).nodup_iff.mpr distinct
  | move nodeId containerId =>
    obtain ⟨node, _, _, _, parent, others, old, new⟩ := conserves
    rw [(old.map _).nodup_iff] at distinct
    rw [(new.map _).nodup_iff]
    simpa [ids_placed] using distinct
  | setSpan id span =>
    have same : (fun placement : Placement => (placement.resized id span).2.id) =
        fun placement => placement.2.id := funext Placement.resized_id
    rw [(conserves.map _).nodup_iff, List.map_map]
    simpa only [Function.comp_def, same] using distinct

theorem perform_distinct (distinct : (collectNodeIds nodes).Nodup) (action : LayoutEdit) :
    (collectNodeIds (action.perform nodes).2).Nodup := by
  have answers := perform_answers distinct action
  rcases result : action.perform nodes with ⟨done | done, after⟩
  · rw [result] at answers
    rwa [answers.1]
  · rw [result] at answers
    exact answers.1.distinct distinct

theorem boardEditing_distinct (reached : boardEditing.Reachable nodes) :
    (collectNodeIds nodes).Nodup := by
  refine Transition.Machine.invariant (M := boardEditing)
    (I := fun board => (collectNodeIds board).Nodup) ?_ ?_ reached
  · intro start distinct
    exact distinct
  · intro board action next _ distinct stepped
    cases stepped
    exact perform_distinct distinct action

/-- Along every run from a board with distinct ids the ids stay distinct, every action either
conserves the tiles of the board or leaves it as it is, and `next_node_id` ends with an id that
no node has. -/
theorem boardEditing_conserves (reached : boardEditing.Reachable nodes) :
    (collectNodeIds nodes).Nodup ∧
      (∀ action : LayoutEdit,
        ((action.perform nodes).1 = true ↔ action.Applies nodes) ∧
        ((action.perform nodes).1 = true → action.Conserves nodes (action.perform nodes).2) ∧
        ((action.perform nodes).1 = false → (action.perform nodes).2 = nodes)) ∧
      ∀ stem, ∃ n, n ≤ 2 * totalNodes nodes + 1 ∧
        stem ++ "-" ++ toString n ∉ collectNodeIds nodes ∧
        ∀ rounds, totalNodes nodes < rounds →
          nextNodeId stem nodes rounds = some (stem ++ "-" ++ toString n) := by
  have distinct := boardEditing_distinct reached
  refine ⟨distinct, ?_, fun stem => nextNodeId_spec stem nodes⟩
  intro action
  have answers := perform_answers distinct action
  rcases result : action.perform nodes with ⟨done | done, after⟩
  · rw [result] at answers
    simpa [answers.2] using answers.1
  · rw [result] at answers
    simpa [answers.2] using answers.1

/-- A row with a note in it, next to a second row. -/
def twoRows : List BoardNode :=
  [.container "c-row-1" .row 12
    [.widget { id := "note-2", kind := .notes, colSpan := 4 }],
   .container "c-row-3" .row 12 []]

/-- The note moves into the second row. A move of that row into itself is refused and leaves the
board as it is. -/
theorem boardEditing_conserves_twoRows :
    let moved := (LayoutEdit.perform twoRows (.move "note-2" "c-row-3")).2
    (LayoutEdit.perform twoRows (.move "note-2" "c-row-3")).1 = true ∧
      (collectNodeIds moved).Nodup ∧
      (LayoutEdit.perform moved (.move "c-row-3" "c-row-3")).2 = moved := by
  intro moved
  have distinct : (collectNodeIds twoRows).Nodup := by decide
  have reached : boardEditing.Reachable moved :=
    .step (a := .move "note-2" "c-row-3") (.start distinct) rfl
  have conserves := boardEditing_conserves reached
  have refused : (LayoutEdit.perform moved (.move "c-row-3" "c-row-3")).1 = false := by decide
  exact ⟨by decide, conserves.1, (conserves.2.1 (.move "c-row-3" "c-row-3")).2.2 refused⟩

end Runs

end DddCqrsEs.FullstackApp
