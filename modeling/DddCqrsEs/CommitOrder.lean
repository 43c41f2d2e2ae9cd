import DddCqrsEs.GlobalFeed

/- Whether the global feed skips an event: exactly when a transaction commits rows below a
sequence that the runner has passed. -/
namespace DddCqrsEs

open Replay CursorFeed

/-- Every committed event of the feed at or below the checkpoint has been applied. -/
def FeedState.NoneSkipped (scope : FeedScope) (state : FeedState) : Prop :=
  ∀ row ∈ state.committed, scope.admits row = true → ∀ checkpoint,
    state.checkpoint = some checkpoint → row.sequence ≤ checkpoint → row ∈ state.applied

/-- Nothing becomes visible below a sequence that the runner has passed: a commit brings rows
above the checkpoint, and a save meets no row below it that came after the read. -/
def InOrder (scope : FeedScope) (state : FeedState) : FeedAction → Prop
  | .commit connection => ∀ rows, state.transaction connection = some (.inserted rows) →
      ∀ row ∈ rows, scope.admits row = true → above state.checkpoint row.sequence = true
  | .save => ∀ pending sequence since, state.poll = some ⟨pending, some sequence, since⟩ →
      ∀ row ∈ since, sequence < row.sequence
  | _ => True

def FeedState.feed (scope : FeedScope) (state : FeedState) : Feed StoredEventRow :=
  ⟨state.committed.filter scope.admits, state.applied, state.checkpoint, state.poll⟩

theorem noneSkipped_iff_covered (scope : FeedScope) (state : FeedState) :
    state.NoneSkipped scope ↔ (state.feed scope).Covered StoredEventRow.sequence := by
  constructor
  · intro held row here within
    obtain ⟨committed, admitted⟩ := List.mem_filter.mp here
    cases stored : state.checkpoint with
    | none =>
      have beyond : above state.checkpoint row.sequence = false := within
      rw [stored] at beyond
      cases beyond
    | some checkpoint =>
      have below : above state.checkpoint row.sequence = false := within
      rw [stored, above_some, decide_eq_false_iff_not, Nat.not_lt] at below
      exact held row committed admitted checkpoint stored below
  · intro covered row here admitted checkpoint stored below
    apply covered row (List.mem_filter.mpr ⟨here, admitted⟩)
    show above state.checkpoint row.sequence = false
    rw [stored, above_some, decide_eq_false_iff_not, Nat.not_lt]
    exact below

/-- The rows that have a sequence: committed, or inserted in an open transaction. -/
def FeedState.numbered (state : FeedState) : List StoredEventRow :=
  state.committed ++ state.transactions.flatMap (fun entry => entry.2.rows)

structure FeedInvariant (scope : FeedScope) (state : FeedState) : Prop where
  distinct : (state.numbered.map StoredEventRow.sequence).Nodup
  drawn : ∀ row ∈ state.numbered, 0 < row.sequence ∧ row.sequence ∈ state.drawn
  feed : (state.feed scope).Sound StoredEventRow.sequence

variable {scope : FeedScope} {state after : FeedState} {connection : Nat}
  {rows : List StoredEventRow} {sequences : List Nat} {action : FeedAction}

theorem loadGlobalAfterLimited_eq (positive : ∀ row ∈ state.committed, 0 < row.sequence)
    (limit : Nat) :
    loadGlobalAfterLimited scope state.committed state.checkpoint limit =
      (state.feed scope).next StoredEventRow.sequence limit := by
  have same : state.committed.filter
        (fun row => scope.admits row ∧ state.checkpoint.getD 0 < row.sequence) =
      (state.committed.filter scope.admits).filter
        (fun row => above state.checkpoint row.sequence) := by
    rw [List.filter_filter]
    apply List.filter_congr
    intro row member
    have numbered := positive row member
    cases state.checkpoint with
    | none => simp [numbered]
    | some checkpoint => simp [Bool.and_comm]
  rw [loadGlobalAfterLimited, same]
  rfl

/-- Closing a transaction takes its rows out. -/
theorem FeedState.transaction_split {open' : Transaction}
    (found : state.transaction connection = some open') :
    ∃ before after, state.transactions = before ++ (connection, open') :: after ∧
      (state.close connection).transactions = before ++ after := by
  obtain ⟨entry, search, rfl⟩ := Option.map_eq_some_iff.mp found
  obtain ⟨here, before, after, split, none⟩ := List.find?_eq_some_iff_append.mp search
  refine ⟨before, after, ?_, ?_⟩
  · rw [split, ← of_decide_eq_true here]
  · show state.transactions.eraseP _ = _
    rw [split, List.eraseP_append_right _ (by intro other member; simpa using none other member)]
    exact congrArg (before ++ ·) (List.eraseP_cons_of_pos here)

theorem FeedState.close_numbered (state : FeedState) (connection : Nat) :
    (state.close connection).numbered.Sublist state.numbered := by
  apply List.Sublist.append_left
  exact List.Sublist.flatMap List.eraseP_sublist _

/-- A step that brings no new row and leaves the runner's view alone keeps the invariant. -/
theorem FeedInvariant.shrink (held : FeedInvariant scope state)
    (rows : after.numbered.Sublist state.numbered) (drawn : state.drawn ⊆ after.drawn)
    (same : after.feed scope = state.feed scope) :
    FeedInvariant scope after where
  distinct := (rows.map StoredEventRow.sequence).nodup held.distinct
  drawn row member :=
    ⟨(held.drawn row (rows.subset member)).1, drawn (held.drawn row (rows.subset member)).2⟩
  feed := by
    rw [same]
    exact held.feed

theorem withSequences_map (length : sequences.length = rows.length) :
    (withSequences rows sequences).map StoredEventRow.sequence = sequences := by
  induction rows generalizing sequences with
  | nil => exact (List.length_eq_zero_iff.mp length).symm
  | cons row rest ih =>
    cases sequences with
    | nil => cases length
    | cons sequence later =>
      have shorter : later.length = rest.length := Nat.succ.inj length
      rw [withSequences, List.zipWith_cons_cons, List.map_cons]
      exact congrArg (sequence :: ·) (ih shorter)

/-- Rows with newly drawn sequences may join. -/
theorem FeedInvariant.insert (held : FeedInvariant scope state)
    (draws : state.Draws sequences rows.length) :
    FeedInvariant scope { state.close connection with
      drawn := state.drawn ++ sequences
      transactions := (connection, .inserted (withSequences rows sequences)) ::
        (state.close connection).transactions } := by
  obtain ⟨length, ascending, fresh⟩ := draws
  have numbers := withSequences_map length
  have closed := held.shrink (state.close_numbered connection) (List.Subset.refl _) rfl
  have moved : (state.committed ++ (withSequences rows sequences ++
      (state.close connection).transactions.flatMap (fun entry => entry.2.rows))).Perm
      (withSequences rows sequences ++ (state.close connection).numbered) := by
    rw [← List.append_assoc, FeedState.numbered, ← List.append_assoc]
    exact List.perm_append_comm.append_right _
  refine ⟨?_, ?_, held.feed⟩
  · apply (moved.map StoredEventRow.sequence).nodup_iff.mpr
    rw [List.map_append, numbers]
    refine List.Nodup.append (ascending.imp Nat.ne_of_lt) closed.distinct ?_
    intro sequence new old
    obtain ⟨row, member, rfl⟩ := List.mem_map.mp old
    exact (fresh row.sequence new).2 (closed.drawn row member).2
  · intro row member
    rcases List.mem_append.mp (moved.mem_iff.mp member) with new | old
    · have drawn : row.sequence ∈ sequences := by
        rw [← numbers]
        exact List.mem_map_of_mem new
      exact ⟨(fresh _ drawn).1, List.mem_append_right _ drawn⟩
    · exact ⟨(closed.drawn row old).1, List.mem_append_left _ (closed.drawn row old).2⟩

/-- The state a commit leaves. -/
def FeedState.committing (scope : FeedScope) (state : FeedState) (connection : Nat)
    (rows : List StoredEventRow) : FeedState :=
  { state.close connection with
    committed := state.committed ++ rows
    poll := state.poll.map (fun poll =>
      { poll with since := poll.since ++ rows.filter scope.admits }) }

theorem FeedState.committing_numbered (scope : FeedScope)
    (found : state.transaction connection = some (.inserted rows)) :
    (state.committing scope connection rows).numbered.Perm state.numbered := by
  obtain ⟨before, after, split, closed⟩ := transaction_split found
  rw [numbered, numbered, split]
  show (state.committed ++ rows ++ (state.close connection).transactions.flatMap _).Perm _
  rw [closed, List.flatMap_append, List.flatMap_append, List.flatMap_cons, List.append_assoc]
  apply List.Perm.append_left
  exact List.perm_append_comm_assoc _ _ _

theorem FeedState.committing_feed (scope : FeedScope) (state : FeedState) (connection : Nat)
    (rows : List StoredEventRow) :
    (state.committing scope connection rows).feed scope =
      (state.feed scope).publish (rows.filter scope.admits) := by
  rw [feed, committing, Feed.publish, List.filter_append]
  rfl

theorem FeedInvariant.published (held : FeedInvariant scope state)
    (found : state.transaction connection = some (.inserted rows)) :
    (((state.feed scope).visible ++ rows.filter scope.admits).map
      StoredEventRow.sequence).Nodup := by
  have perm := FeedState.committing_numbered scope found
  have distinct := (perm.map StoredEventRow.sequence).nodup_iff.mpr held.distinct
  have among : ((state.feed scope).visible ++ rows.filter scope.admits).Sublist
      (state.committing scope connection rows).numbered := by
    have filtered : (state.feed scope).visible ++ rows.filter scope.admits =
        (state.committed ++ rows).filter scope.admits := (List.filter_append _ _).symm
    rw [filtered]
    exact List.filter_sublist.trans (List.sublist_append_left _ _)
  exact (among.map StoredEventRow.sequence).nodup distinct

theorem FeedInvariant.commit (held : FeedInvariant scope state)
    (found : state.transaction connection = some (.inserted rows)) :
    FeedInvariant scope (state.committing scope connection rows) := by
  have perm := FeedState.committing_numbered scope found
  refine ⟨?_, ?_, ?_⟩
  · exact (perm.map StoredEventRow.sequence).nodup_iff.mpr held.distinct
  · intro row member
    exact held.drawn row (perm.mem_iff.mp member)
  · rw [FeedState.committing_feed]
    exact held.feed.publish (held.published found)

/-- What one step can do. -/
inductive FeedEffect (scope : FeedScope) (state : FeedState) : FeedAction → FeedState → Prop
  /-- A transaction begins, ends without its rows or fails: the runner sees nothing of it. -/
  | quiet {action : FeedAction} {after : FeedState} : InOrder scope state action →
      after.numbered.Sublist state.numbered → state.drawn ⊆ after.drawn →
      after.feed scope = state.feed scope → FeedEffect scope state action after
  | insert {connection : Nat} {sequences : List Nat} {rows : List StoredEventRow} :
      state.Draws sequences rows.length →
      FeedEffect scope state (.insert connection sequences)
        { state.close connection with
          drawn := state.drawn ++ sequences
          transactions := (connection, .inserted (withSequences rows sequences)) ::
            (state.close connection).transactions }
  | commit {connection : Nat} {rows : List StoredEventRow} :
      state.transaction connection = some (.inserted rows) →
      FeedEffect scope state (.commit connection) (state.committing scope connection rows)
  | read (limit : Nat) :
      FeedEffect scope state (.read limit)
        { state with
          poll := some ⟨loadGlobalAfterLimited scope state.committed state.checkpoint limit,
            none, []⟩ }
  | apply {row : StoredEventRow} {rest since : List StoredEventRow} {last : Option Nat} :
      state.poll = some ⟨row :: rest, last, since⟩ →
      FeedEffect scope state .apply
        { state with
          applied := state.applied ++ [row]
          poll := some ⟨rest, some row.sequence, since⟩ }
  | save {pending since : List StoredEventRow} {sequence : Nat} :
      state.poll = some ⟨pending, some sequence, since⟩ →
      FeedEffect scope state .save
        { state with
          checkpoint := RunnerPorts.savedCheckpoint state.checkpoint sequence
          poll := none }

theorem FeedState.step_effect (stepped : state.step scope action = some after) :
    FeedEffect scope state action after := by
  cases action with
  | begin connection call =>
    rw [step] at stepped
    split at stepped
    · cases stepped
    · dsimp only at stepped
      split at stepped
      · cases stepped
        exact .quiet trivial (List.Sublist.refl _) (List.Subset.refl _) rfl
      · cases stepped
        refine .quiet trivial ?_ (List.Subset.refl _) rfl
        exact List.Sublist.refl _
  | insert connection sequences =>
    rw [step] at stepped
    split at stepped
    · rename_i actualRevision call found
      split at stepped
      · cases stepped
        exact .quiet trivial (state.close_numbered connection) (List.Subset.refl _) rfl
      · rename_i rows drawn
        split at stepped
        · cases stepped
        · rename_i allowed
          have draws : state.Draws sequences rows.length := by
            by_contra impossible
            exact allowed (.inr impossible)
          dsimp only at stepped
          split at stepped
          · cases stepped
            refine .quiet trivial (state.close_numbered connection) ?_ rfl
            exact List.subset_append_left _ _
          · cases stepped
            exact .insert draws
    · cases stepped
  | commit connection =>
    rw [step] at stepped
    split at stepped
    · rename_i rows found
      cases stepped
      exact .commit found
    · cases stepped
  | rollback connection =>
    rw [step] at stepped
    split at stepped
    · cases stepped
      exact .quiet trivial (state.close_numbered connection) (List.Subset.refl _) rfl
    · cases stepped
  | read limit =>
    cases stepped
    exact .read limit
  | apply =>
    rw [step] at stepped
    split at stepped
    · rename_i row rest last since running
      cases stepped
      exact .apply running
    · cases stepped
  | save =>
    rw [step] at stepped
    split at stepped
    · rename_i pending sequence since running
      cases stepped
      exact .save running
    · cases stepped

theorem FeedInvariant.positive (held : FeedInvariant scope state) :
    ∀ row ∈ state.committed, 0 < row.sequence :=
  fun row member => (held.drawn row (List.mem_append_left _ member)).1

theorem FeedInvariant.saved {sequence : Nat} {pending since : List StoredEventRow}
    (held : FeedInvariant scope state)
    (running : state.poll = some ⟨pending, some sequence, since⟩) :
    RunnerPorts.savedCheckpoint state.checkpoint sequence = some sequence :=
  RunnerPorts.savedCheckpoint_of_above ((held.feed.poll _ running).last sequence rfl)

theorem FeedEffect.invariant {scope : FeedScope} {state after : FeedState} {action : FeedAction}
    (held : FeedInvariant scope state) (effect : FeedEffect scope state action after) :
    FeedInvariant scope after := by
  cases effect with
  | quiet _ rows drawn same => exact held.shrink rows drawn same
  | insert draws => exact held.insert draws
  | commit found => exact held.commit found
  | read limit =>
    refine ⟨held.distinct, held.drawn, ?_⟩
    rw [loadGlobalAfterLimited_eq held.positive limit]
    exact held.feed.read limit
  | apply running => exact ⟨held.distinct, held.drawn, held.feed.apply running⟩
  | save running =>
    refine ⟨held.distinct, held.drawn, ?_⟩
    rw [held.saved running]
    exact held.feed.save _

/-- A step keeps the feed without skipped events exactly when it is in order. -/
theorem FeedEffect.noneSkipped_iff (held : FeedInvariant scope state)
    (covered : state.NoneSkipped scope) (effect : FeedEffect scope state action after) :
    after.NoneSkipped scope ↔ InOrder scope state action := by
  rw [noneSkipped_iff_covered] at covered ⊢
  cases effect with
  | quiet ordered _ _ same =>
    rw [same]
    exact iff_of_true covered ordered
  | insert draws => exact iff_of_true covered trivial
  | @commit connection rows found =>
    rw [FeedState.committing_feed, covered.publish_iff held.feed (held.published found)]
    constructor
    · intro ahead rows' found' row member admitted
      cases found.symm.trans found'
      exact ahead row (List.mem_filter.mpr ⟨member, admitted⟩)
    · intro ordered row member
      obtain ⟨here, admitted⟩ := List.mem_filter.mp member
      exact ordered rows found row here admitted
  | read limit => exact iff_of_true covered trivial
  | apply running => exact iff_of_true (covered.apply _ _ _ _) trivial
  | @save pending since sequence running =>
    have saved : ({ state with
        checkpoint := RunnerPorts.savedCheckpoint state.checkpoint sequence
        poll := none } : FeedState).feed scope = (state.feed scope).save sequence := by
      rw [held.saved running]
      rfl
    rw [saved, covered.save_iff held.feed running]
    constructor
    · intro ahead pending' sequence' since' running'
      cases running.symm.trans running'
      exact ahead
    · intro ordered
      exact ordered pending sequence since running

theorem globalFeed_invariant (reached : (globalFeed scope).Reachable state) :
    FeedInvariant scope state := by
  refine Transition.Machine.invariant ?_ ?_ reached
  · rintro start rfl
    exact ⟨List.nodup_nil, by simp [FeedState.numbered, FeedState.empty],
      ⟨List.nodup_nil, by simp [FeedState.feed, FeedState.empty],
        fun _ impossible => by cases impossible⟩⟩
  · intro before action after _ held stepped
    exact (FeedState.step_effect stepped).invariant held

/-- A run skips no committed event at any time exactly when nothing ever becomes visible below
a sequence that the runner has passed. -/
theorem globalFeed_noneSkipped_iff {scope : FeedScope} {final : FeedState}
    {actions : List FeedAction}
    (ran : (globalFeed scope).run FeedState.empty actions = some final) :
    (globalFeed scope).Along (FeedState.NoneSkipped scope) FeedState.empty actions ↔
      (globalFeed scope).Meets (InOrder scope) FeedState.empty actions := by
  refine Transition.Machine.along_iff_meets ?_ (.start rfl) ?_ ran
  · intro before action after reached covered stepped
    exact (FeedState.step_effect stepped).noneSkipped_iff (globalFeed_invariant reached) covered
  · intro row member
    cases member

/-- An account opened by a transaction of the PostgreSQL store. -/
def openCall (aggregateId eventId : String) : AppendCall where
  aggregateType := "account"
  lookupKeys := [aggregateId, "\"" ++ aggregateId ++ "\""]
  expectedRevision := .noStream
  rows actualRevision := do
    let prepared ← [accountEvent eventId].mapM accountCodec.prepare
    PreparedEvent.rows .postgres aggregateId actualRevision prepared

example : (SqlEventStore.mk .postgres accountCodec).appendCall "a" .noStream [accountEvent "e1"] =
    .ok (openCall "a" "e1") := rfl

def insertedBoth : List FeedAction :=
  [.begin 1 (openCall "a" "e1"), .begin 2 (openCall "b" "e2"), .insert 1 [1], .insert 2 [2]]

def pollOnce : List FeedAction := [.read 500, .apply, .save]

def inOrderRun : List FeedAction :=
  insertedBoth ++ [.commit 1] ++ pollOnce ++ [.commit 2] ++ pollOnce

theorem inOrderRun_meets :
    (globalFeed .raw).Meets (InOrder .raw) FeedState.empty inOrderRun := by
  refine ⟨trivial, ?_⟩
  rintro _ ⟨⟩
  refine ⟨trivial, ?_⟩
  rintro _ ⟨⟩
  refine ⟨trivial, ?_⟩
  rintro _ ⟨⟩
  refine ⟨trivial, ?_⟩
  rintro _ ⟨⟩
  refine ⟨fun _ _ _ _ _ => rfl, ?_⟩
  rintro _ ⟨⟩
  refine ⟨trivial, ?_⟩
  rintro _ ⟨⟩
  refine ⟨trivial, ?_⟩
  rintro _ ⟨⟩
  refine ⟨?_, ?_⟩
  · rintro _ _ _ ⟨⟩ _ member
    cases member
  rintro _ ⟨⟩
  refine ⟨?_, ?_⟩
  · rintro _ ⟨⟩ row member _
    rw [List.mem_singleton.mp member]
    rfl
  rintro _ ⟨⟩
  refine ⟨trivial, ?_⟩
  rintro _ ⟨⟩
  refine ⟨trivial, ?_⟩
  rintro _ ⟨⟩
  refine ⟨?_, ?_⟩
  · rintro _ _ _ ⟨⟩ _ member
    cases member
  rintro _ ⟨⟩
  trivial

theorem inOrder_runs : ((globalFeed .raw).run FeedState.empty inOrderRun).isSome = true := by rfl

theorem inOrderRun_noneSkipped :
    (globalFeed .raw).Along (FeedState.NoneSkipped .raw) FeedState.empty inOrderRun :=
  (globalFeed_noneSkipped_iff (Option.some_get inOrder_runs).symm).mpr inOrderRun_meets

/-- The second transaction overtakes the first, and a poll passes in between. -/
def overtakingRun : List FeedAction :=
  insertedBoth ++ [.commit 2] ++ pollOnce ++ [.commit 1]

theorem overtaking_runs :
    ((globalFeed (.aggregateType "account")).run FeedState.empty overtakingRun).isSome = true := by
  rfl

/-- The overtaken event is committed below the checkpoint and never applied. -/
theorem overtaken_skipped :
    ∃ final, (globalFeed (.aggregateType "account")).run FeedState.empty overtakingRun = some final ∧
      final.committed.map (·.eventId) = ["e2", "e1"] ∧ final.checkpoint = some 2 ∧
      final.applied.map (·.eventId) = ["e2"] ∧
      ¬ final.NoneSkipped (.aggregateType "account") := by
  refine ⟨_, (Option.some_get overtaking_runs).symm, rfl, rfl, rfl, ?_⟩
  intro none
  have overtaken := none _ (List.mem_of_getLast? rfl) rfl 2 rfl (by decide)
  have missing := List.mem_map_of_mem (f := (·.eventId)) overtaken
  revert missing
  decide

end DddCqrsEs
