import DddCqrsEs.Schema

/- Migration runs that die between two statements, and what the next run makes of it. -/
namespace DddCqrsEs

open Interruption

variable {dialect : SqlDialect} {config : SqlSchemaConfig} {db next : SchemaDatabase}

namespace DdlStatement

/-- Whether the statement removes something. -/
def drops : DdlStatement → Bool
  | .dropIndexIfExists _ | .dropIndex _ _ => true
  | _ => false

def records : DdlStatement → Bool
  | .recordMigration _ _ _ => true
  | _ => false

/-- What a statement that succeeds can have done: nothing, or it wrote one table without
losing columns, or it changed the indexes. -/
inductive Effect (statement : DdlStatement) (db : SchemaDatabase) : SchemaDatabase → Prop
  | unchanged : Effect statement db db
  | wrote (name : String) (table : SchemaTable)
      (columns : ∀ old, db.tables name = some old → old.columnNames ⊆ table.columnNames)
      (rows : statement.records = false → ∀ old, db.tables name = some old →
        table.applied = old.applied) : Effect statement db (db.withTable name table)
  | indexed (indexes : List SchemaIndex) (kept : statement.drops = false → db.indexes ⊆ indexes) :
      Effect statement db { db with indexes := indexes }

variable {statement : DdlStatement} {index : SchemaIndex} {table : SchemaTable}

theorem createIndexOn_effect {ifNotExists : Bool}
    (executed : createIndexOn dialect ifNotExists index db = .ok next) :
    statement.Effect db next := by
  unfold createIndexOn at executed
  split at executed
  · cases executed
  · dsimp only at executed
    split at executed
    · cases executed
    split at executed
    · split at executed
      · cases executed
        exact .unchanged
      · cases executed
    split at executed
    · cases executed
    split at executed
    · cases executed
    · cases executed
      exact .indexed _ (fun _ => List.subset_append_left _ _)

theorem execute_effect (executed : statement.execute dialect db = .ok next) :
    statement.Effect db next := by
  cases statement with
  | createTable name columns constraints =>
    simp only [execute, createTableOn] at executed
    split at executed
    · cases executed
      exact .unchanged
    · rename_i absent
      split at executed
      · cases executed
        exact .unchanged
      split at executed
      · cases executed
      · cases executed
        exact .wrote name _ (by simp [absent]) (by simp [absent])
  | createIndex ifNotExists index => exact createIndexOn_effect executed
  | createIndexUnlessPresent index =>
    simp only [execute] at executed
    split at executed
    · cases executed
      exact .unchanged
    · exact createIndexOn_effect executed
  | dropIndexIfExists name =>
    cases executed
    exact .indexed _ (by simp [drops])
  | dropIndex table name =>
    simp only [execute] at executed
    split at executed
    · cases executed
      exact .indexed _ (by simp [drops])
    · cases executed
  | addColumns ifNotExists name columns =>
    simp only [execute, addColumnsTo] at executed
    split at executed
    · cases executed
    · rename_i table present
      split at executed
      · cases executed
      · cases executed
        refine .wrote name _ ?_ ?_
        · intro old same
          rw [present] at same
          cases same
          simp [SchemaTable.columnNames]
        · intro _ old same
          rw [present] at same
          cases same
          rfl
  | copyCheckpoints target =>
    simp only [execute, copyCheckpointsInto] at executed
    split at executed
    · cases executed
      exact .unchanged
    split at executed
    · cases executed
    · rename_i table present
      split at executed
      · cases executed
      · cases executed
        refine .wrote target _ ?_ ?_
        · intro old same
          rw [present] at same
          cases same
          exact List.Subset.refl _
        · intro _ old same
          rw [present] at same
          cases same
          rfl
  | recordMigration name version target =>
    simp only [execute, record] at executed
    split at executed
    · cases executed
    · rename_i table present
      split at executed
      · cases executed
      split at executed
      · cases executed
      · cases executed
        refine .wrote name _ ?_ (by simp [records])
        intro old same
        rw [present] at same
        cases same
        exact List.Subset.refl _

/-- No statement loses a table or a column; only the bookkeeping writes bookkeeping rows. -/
theorem execute_table (executed : statement.execute dialect db = .ok next) {name : String}
    (found : db.tables name = some table) :
    ∃ later, next.tables name = some later ∧ table.columnNames ⊆ later.columnNames ∧
      (statement.records = false → later.applied = table.applied) := by
  cases execute_effect executed with
  | unchanged => exact ⟨table, found, List.Subset.refl _, fun _ => rfl⟩
  | indexed indexes kept => exact ⟨table, found, List.Subset.refl _, fun _ => rfl⟩
  | wrote written new columns rows =>
    by_cases own : name = written
    · subst own
      exact ⟨new, Function.update_self .., columns table found, fun plain => rows plain table found⟩
    · refine ⟨table, ?_, List.Subset.refl _, fun _ => rfl⟩
      exact (Function.update_of_ne own _ _).trans found

theorem execute_indexes (executed : statement.execute dialect db = .ok next)
    (plain : statement.drops = false) : db.indexes ⊆ next.indexes := by
  cases execute_effect executed with
  | unchanged => exact List.Subset.refl _
  | wrote name table columns rows => exact List.Subset.refl _
  | indexed indexes kept => exact kept plain

/-- What the statement makes is there. -/
def Present (dialect : SqlDialect) : DdlStatement → SchemaDatabase → Prop
  | .createTable name _ _, db => (db.tables name).isSome ∨
      (dialect = .postgres ∧ db.hasIndex dialect name name)
  | .createIndex _ index, db => ∃ table, db.tables index.table = some table ∧
      (dialect ≠ .sqlite → table.missing index.reads = []) ∧
      (db.hasIndex dialect index.table index.name ∨
        (dialect = .postgres ∧ (db.tables index.name).isSome))
  | .createIndexUnlessPresent index, db => db.hasIndex dialect index.table index.name
  | .addColumns _ name columns, db => ∃ table, db.tables name = some table ∧
      ∀ column ∈ columns, column.name ∈ table.columnNames
  | _, _ => False

/-- The statements that make something and say nothing if it is there. -/
def creates : DdlStatement → Bool
  | .createTable _ _ _ | .createIndexUnlessPresent _ => true
  | .createIndex ifNotExists _ | .addColumns ifNotExists _ _ => ifNotExists
  | _ => false

/-- The statements that make something and fail if it is there. -/
def guarded : DdlStatement → Bool
  | .createIndex ifNotExists _ => !ifNotExists
  | .addColumns ifNotExists _ columns => !ifNotExists && !columns.isEmpty
  | _ => false

theorem hasIndex_snoc (index : SchemaIndex) (db : SchemaDatabase) :
    SchemaDatabase.hasIndex dialect { db with indexes := db.indexes ++ [index] } index.table
      index.name = true := by
  simp [SchemaDatabase.hasIndex]

theorem hasIndex_mono {table name : String} (kept : db.indexes ⊆ next.indexes)
    (present : db.hasIndex dialect table name) : next.hasIndex dialect table name := by
  unfold SchemaDatabase.hasIndex at present ⊢
  rw [List.any_eq_true] at present ⊢
  obtain ⟨index, listed, named⟩ := present
  exact ⟨index, kept listed, named⟩

theorem missing_mono {later : SchemaTable} {names : List String}
    (kept : table.columnNames ⊆ later.columnNames) (complete : table.missing names = []) :
    later.missing names = [] := by
  unfold SchemaTable.missing at complete ⊢
  rw [List.filter_eq_nil_iff] at complete ⊢
  intro name listed
  have present := complete name listed
  simp only [decide_not, Bool.not_eq_true', decide_eq_false_iff_not, not_not] at present ⊢
  exact kept present

theorem createIndexOn_present {ifNotExists : Bool}
    (executed : createIndexOn dialect ifNotExists index db = .ok next) :
    Present dialect (.createIndex ifNotExists index) next := by
  unfold createIndexOn at executed
  split at executed
  · cases executed
  · rename_i table found
    dsimp only at executed
    split at executed
    · cases executed
    · rename_i complete
      have columns : dialect ≠ .sqlite → table.missing index.reads = [] := by
        intro other
        by_contra missing
        exact complete ⟨other, missing⟩
      split at executed
      · rename_i taken
        split at executed
        · cases executed
          exact ⟨table, found, columns, taken⟩
        · cases executed
      split at executed
      · cases executed
      split at executed
      · cases executed
      · cases executed
        exact ⟨table, found, columns, Or.inl (hasIndex_snoc index db)⟩

/-- Whatever the statement did, what it makes is there afterwards. -/
theorem present_of_execute (kind : statement.creates ∨ statement.guarded)
    (executed : statement.execute dialect db = .ok next) : statement.Present dialect next := by
  cases statement with
  | createTable name columns constraints =>
    simp only [execute, createTableOn] at executed
    split at executed
    · rename_i table found
      cases executed
      exact Or.inl (by simp [found])
    split at executed
    · rename_i taken
      cases executed
      exact Or.inr taken
    split at executed
    · cases executed
    · cases executed
      exact Or.inl (by simp [SchemaDatabase.withTable])
  | createIndex ifNotExists index => exact createIndexOn_present executed
  | createIndexUnlessPresent index =>
    simp only [execute] at executed
    split at executed
    · rename_i taken
      cases executed
      exact taken
    · rename_i absent
      unfold createIndexOn at executed
      split at executed
      · cases executed
      dsimp only at executed
      split at executed
      · cases executed
      split at executed
      · cases executed
      split at executed
      · cases executed
      split at executed
      · cases executed
      · cases executed
        exact hasIndex_snoc index db
  | addColumns ifNotExists name columns =>
    simp only [execute, addColumnsTo] at executed
    split at executed
    · cases executed
    · rename_i table found
      split at executed
      · cases executed
      · cases executed
        refine ⟨_, Function.update_self .., ?_⟩
        intro column listed
        simp only [SchemaTable.columnNames, List.map_append, List.mem_append]
        by_cases known : column.name ∈ table.columnNames
        · exact Or.inl known
        · have added : column ∈ columns.filter (fun column => column.name ∉ table.columnNames) :=
            List.mem_filter.mpr ⟨listed, decide_eq_true known⟩
          exact Or.inr (List.mem_map.mpr ⟨column, added, rfl⟩)
  | dropIndexIfExists name => simp [creates, guarded] at kind
  | dropIndex table name => simp [creates, guarded] at kind
  | copyCheckpoints target => simp [creates, guarded] at kind
  | recordMigration name version target => simp [creates, guarded] at kind

theorem execute_of_present (kind : statement.creates) (present : statement.Present dialect db) :
    statement.execute dialect db = .ok db := by
  cases statement with
  | createTable name columns constraints =>
    simp only [execute, createTableOn]
    cases found : db.tables name with
    | some table => rfl
    | none =>
      rcases present with listed | taken
      · simp [found] at listed
      · exact if_pos taken
  | createIndex ifNotExists index =>
    obtain ⟨table, found, complete, taken⟩ := present
    have tolerant : ifNotExists = true := kind
    simp only [execute, createIndexOn, found]
    rw [if_neg (fun missing => missing.2 (complete missing.1)), if_pos taken, if_pos tolerant]
  | createIndexUnlessPresent index => exact if_pos present
  | addColumns ifNotExists name columns =>
    obtain ⟨table, found, listed⟩ := present
    have tolerant : ifNotExists = true := kind
    have nothing : columns.filter (fun column => column.name ∉ table.columnNames) = [] := by
      rw [List.filter_eq_nil_iff]
      intro column member
      simpa using listed column member
    have same : db.withTable name table = db := by
      unfold SchemaDatabase.withTable
      rw [← found, Function.update_eq_self]
    simp only [execute, addColumnsTo, found, tolerant, nothing, List.append_nil]
    rw [same]
    cases columns.find? (fun column => column.name ∈ table.columnNames) with
    | none => rfl
    | some column => rfl
  | dropIndexIfExists name => cases present
  | dropIndex table name => cases present
  | copyCheckpoints target => cases present
  | recordMigration name version target => cases present

theorem rejected_of_present (kind : statement.guarded) (present : statement.Present dialect db) :
    ∃ error, statement.execute dialect db = .error error := by
  cases statement with
  | createIndex ifNotExists index =>
    obtain ⟨table, found, complete, taken⟩ := present
    have strict : ifNotExists = false := by simpa [guarded] using kind
    simp only [execute, createIndexOn, found]
    rw [if_neg (fun missing => missing.2 (complete missing.1)), if_pos taken, strict]
    exact ⟨_, rfl⟩
  | addColumns ifNotExists name columns =>
    obtain ⟨table, found, listed⟩ := present
    cases columns with
    | nil => simp [guarded] at kind
    | cons column rest =>
      have strict : ifNotExists = false := by simpa [guarded] using kind
      have known := listed column List.mem_cons_self
      simp only [execute, addColumnsTo, found, strict]
      rw [List.find?_cons_of_pos (by simpa using known)]
      exact ⟨_, rfl⟩
  | createTable name columns constraints => simp [guarded] at kind
  | createIndexUnlessPresent index => simp [guarded] at kind
  | dropIndexIfExists name => cases present
  | dropIndex table name => cases present
  | copyCheckpoints target => cases present
  | recordMigration name version target => cases present

/-- It stays there as long as nothing is dropped. -/
theorem Present.execute {other : DdlStatement} (present : statement.Present dialect db)
    (plain : other.drops = false) (executed : other.execute dialect db = .ok next) :
    statement.Present dialect next := by
  have indexes := execute_indexes executed plain
  have listed : ∀ name, (db.tables name).isSome → (next.tables name).isSome := by
    intro name some
    obtain ⟨table, found⟩ := Option.isSome_iff_exists.mp some
    obtain ⟨later, known, _⟩ := execute_table executed found
    rw [known]
    rfl
  cases statement with
  | createTable name columns constraints =>
    exact present.imp (listed name) (fun taken => ⟨taken.1, hasIndex_mono indexes taken.2⟩)
  | createIndex ifNotExists index =>
    obtain ⟨table, found, complete, taken⟩ := present
    obtain ⟨later, known, columns, _⟩ := execute_table executed found
    refine ⟨later, known, fun dialect => missing_mono columns (complete dialect), ?_⟩
    exact taken.imp (hasIndex_mono indexes) (fun taken => ⟨taken.1, listed _ taken.2⟩)
  | createIndexUnlessPresent index => exact hasIndex_mono indexes present
  | addColumns ifNotExists name columns =>
    obtain ⟨table, found, members⟩ := present
    obtain ⟨later, known, kept, _⟩ := execute_table executed found
    exact ⟨later, known, fun column member => kept (members column member)⟩
  | dropIndexIfExists name => cases present
  | dropIndex table name => cases present
  | copyCheckpoints target => cases present
  | recordMigration name version target => cases present

end DdlStatement

theorem insertOrIgnore_keeps (rows : List (String × Int)) (more : List (String × Int)) :
    rows.map Prod.fst ⊆ (insertOrIgnore rows more).map Prod.fst := by
  induction more generalizing rows with
  | nil => exact List.Subset.refl _
  | cons row rest ih =>
    unfold insertOrIgnore
    split
    · exact ih rows
    · have longer := ih (rows ++ [row])
      rw [List.map_append] at longer
      exact fun name known => longer (List.mem_append_left _ known)

theorem insertOrIgnore_covers (rows : List (String × Int)) (more : List (String × Int)) :
    more.map Prod.fst ⊆ (insertOrIgnore rows more).map Prod.fst := by
  induction more generalizing rows with
  | nil => exact List.nil_subset _
  | cons row rest ih =>
    rw [List.map_cons, List.cons_subset]
    unfold insertOrIgnore
    split
    · rename_i known
      exact ⟨insertOrIgnore_keeps rows rest known, ih rows⟩
    · refine ⟨insertOrIgnore_keeps (rows ++ [row]) rest ?_, ih (rows ++ [row])⟩
      simp

theorem insertOrIgnore_known {rows more : List (String × Int)}
    (known : more.map Prod.fst ⊆ rows.map Prod.fst) : insertOrIgnore rows more = rows := by
  induction more with
  | nil => rfl
  | cons row rest ih =>
    rw [List.map_cons, List.cons_subset] at known
    unfold insertOrIgnore
    rw [if_pos known.1]
    exact ih known.2

theorem copyCheckpoints_again {target : String}
    (executed : (DdlStatement.copyCheckpoints target).execute dialect db = .ok next) :
    (DdlStatement.copyCheckpoints target).execute dialect next = .ok next := by
  simp only [DdlStatement.execute, DdlStatement.copyCheckpointsInto] at executed ⊢
  split at executed
  · rename_i absent
    cases executed
    rw [absent]
  · rename_i old source
    split at executed
    · cases executed
    · rename_i table found
      split at executed
      · cases executed
      · rename_i complete
        cases executed
        obtain ⟨left, right⟩ := List.append_eq_nil_iff.mp complete
        have written : (db.withTable target { table with
            positions := insertOrIgnore table.positions old.positions }).tables target = some
            { table with positions := insertOrIgnore table.positions old.positions } :=
          Function.update_self ..
        -- the old table may be the target itself; its columns are the same then
        by_cases own : target = "checkpoints"
        · subst own
          rw [source] at found
          cases found
          rw [written]
          dsimp only
          have columns : (SchemaTable.missing { old with
              positions := insertOrIgnore old.positions old.positions }
                ["projection_name", "last_sequence"] ++ SchemaTable.missing { old with
              positions := insertOrIgnore old.positions old.positions }
                ["projection_name", "sequence"]) = [] := complete
          rw [columns, insertOrIgnore_known (List.Subset.refl _),
            insertOrIgnore_known (List.Subset.refl _)]
          simp [SchemaDatabase.withTable]
        · have other : (db.withTable target { table with
              positions := insertOrIgnore table.positions old.positions }).tables "checkpoints" =
              some old := (Function.update_of_ne (Ne.symm own) _ _).trans source
          rw [other, written]
          have columns : (old.missing ["projection_name", "last_sequence"] ++
              SchemaTable.missing { table with
                positions := insertOrIgnore table.positions old.positions }
                ["projection_name", "sequence"]) = [] := complete
          dsimp only
          rw [columns, insertOrIgnore_known (insertOrIgnore_covers _ _)]
          simp [SchemaDatabase.withTable]

/-- Statements that tolerate what is there can be started again, with the copy at the end. -/
theorem resumable_creates {statements : List DdlStatement}
    (kinds : ∀ statement ∈ statements, statement.creates ∨
      ∃ target, statement = .copyCheckpoints target)
    (ordered : statements.Pairwise fun statement later =>
      statement.creates ∧ later.drops = false) :
    Resumable (DdlStatement.execute dialect) statements where
  settles := by
    intro statement member before after executed
    rcases kinds statement member with makes | ⟨target, same⟩
    · exact DdlStatement.execute_of_present makes
        (DdlStatement.present_of_execute (Or.inl makes) executed)
    · subst same
      exact copyCheckpoints_again executed
  lasting := by
    refine ordered.imp ?_
    rintro statement later ⟨makes, plain⟩ before after settled executed
    have present := DdlStatement.present_of_execute (Or.inl makes) settled
    exact DdlStatement.execute_of_present makes (present.execute plain executed)

theorem resumable_dropIfExists (name : String) :
    Resumable (DdlStatement.execute dialect) [.dropIndexIfExists name] where
  settles := by
    intro statement member before after executed
    rw [List.mem_singleton.mp member] at executed ⊢
    cases executed
    simp [DdlStatement.execute]
  lasting := List.pairwise_singleton _ _

/-- What a migration that was cut short means for the next run: without a strict statement
among those executed it ends as if it had not been cut, otherwise it fails at once. -/
def Restarts (dialect : SqlDialect) (statements : SchemaDatabase → List DdlStatement) : Prop :=
  ∀ db final, executeAll (DdlStatement.execute dialect) (statements db) db = .ok final →
    ∀ cut between,
      executeAll (DdlStatement.execute dialect) ((statements db).take cut) db = .ok between →
      ((∀ statement ∈ (statements db).take cut, statement.repeatable) →
        executeAll (DdlStatement.execute dialect) (statements between) between = .ok final) ∧
      ((¬ ∀ statement ∈ (statements db).take cut, statement.repeatable) →
        ∃ head rest error, statements between = head :: rest ∧
          head.execute dialect between = .error error)

variable {statements : List DdlStatement} {table : String} {final : SchemaDatabase}
  {statement : DdlStatement} {m : SchemaMigration} {rows : List (Nat × String)}

theorem restarts_of_resumable (resumable : Resumable (DdlStatement.execute dialect) statements)
    (tolerant : ∀ statement ∈ statements, statement.repeatable) :
    Restarts dialect (fun _ => statements) := by
  intro db final ran cut between executed
  refine ⟨fun _ => (resumable.restart executed).trans ran, ?_⟩
  intro strict
  exact absurd (fun statement member => tolerant statement (List.mem_of_mem_take member)) strict

theorem restarts_of_guarded {head : DdlStatement} {rest : List DdlStatement}
    (strict : head.guarded) (plain : ∀ statement ∈ rest, statement.drops = false) :
    Restarts dialect (fun _ => head :: rest) := by
  intro db final ran cut between executed
  have picky : head.repeatable = false := by
    cases head <;> simp_all [DdlStatement.guarded, DdlStatement.repeatable]
  cases cut with
  | zero =>
    cases executed
    exact ⟨fun _ => ran, fun dirty => absurd (by simp) dirty⟩
  | succ cut =>
    obtain ⟨next, first, later⟩ := executeAll_cons.mp executed
    have present := DdlStatement.present_of_execute (Or.inr strict) first
    have kept : head.Present dialect between := by
      refine executeAll_keeps (P := fun db => head.Present dialect db) ?_ present later
      intro statement member s t holds stepped
      exact holds.execute (plain statement (List.mem_of_mem_take member)) stepped
    obtain ⟨error, rejected⟩ := DdlStatement.rejected_of_present strict kept
    refine ⟨?_, fun _ => ⟨head, rest, error, rfl, rejected⟩⟩
    intro tolerant
    have first := tolerant head List.mem_cons_self
    rw [picky] at first
    cases first

theorem dropIndex_cases {name : String}
    (executed : (DdlStatement.dropIndex table name).execute dialect db = .ok next) :
    (∃ index ∈ db.indexes, index.table = table ∧ index.name = name) ∧
      next = ⟨db.tables,
        db.indexes.filter fun index => ¬ (index.table = table ∧ index.name = name)⟩ := by
  simp only [DdlStatement.execute] at executed
  split at executed
  · rename_i found
    cases executed
    refine ⟨?_, rfl⟩
    simpa using found
  · cases executed

/-- An index that is gone is not dropped again by statements that succeed. -/
theorem dropIndex_absent {name : String} {names : List String}
    (gone : ∀ index ∈ db.indexes, ¬ (index.table = table ∧ index.name = name))
    (ran : executeAll (DdlStatement.execute dialect) (names.map (.dropIndex table)) db =
      .ok final) : name ∉ names := by
  induction names generalizing db with
  | nil => simp
  | cons other rest ih =>
    obtain ⟨next, stepped, ran⟩ := executeAll_cons.mp ran
    obtain ⟨⟨index, listed, named⟩, same⟩ := dropIndex_cases stepped
    have still : ∀ index ∈ next.indexes, ¬ (index.table = table ∧ index.name = name) := by
      intro index member
      rw [same] at member
      exact gone index (List.mem_of_mem_filter member)
    rw [List.mem_cons, not_or]
    refine ⟨?_, ih still ran⟩
    intro equal
    exact gone index listed (equal ▸ named)

theorem duplicateIndexes_dropped (db : SchemaDatabase) (table name : String) :
    SchemaDatabase.duplicateIndexes ⟨db.tables,
        db.indexes.filter fun index => ¬ (index.table = table ∧ index.name = name)⟩ table =
      (db.duplicateIndexes table).filter fun other => other ≠ name := by
  unfold SchemaDatabase.duplicateIndexes
  dsimp only
  rw [List.filter_filter, List.filter_map, List.filter_filter]
  congr 1
  refine List.filter_congr ?_
  intro index _
  by_cases own : index.table = table
  · by_cases named : index.name = name
    · simp [own, named]
    · simp [own, named]
  · simp [own]

/-- After some of the drops the server lists the others. -/
theorem drops_restart {between : SchemaDatabase} {cut : Nat}
    (ran : executeAll (DdlStatement.execute dialect)
      ((db.duplicateIndexes table).map (.dropIndex table)) db = .ok final)
    (executed : executeAll (DdlStatement.execute dialect)
      (((db.duplicateIndexes table).map (.dropIndex table)).take cut) db = .ok between) :
    executeAll (DdlStatement.execute dialect)
      ((between.duplicateIndexes table).map (.dropIndex table)) between = .ok final := by
  induction cut generalizing db with
  | zero =>
    cases executed
    exact ran
  | succ cut ih =>
    cases names : db.duplicateIndexes table with
    | nil =>
      rw [names] at executed ran
      cases executed
      rw [names]
      exact ran
    | cons name rest =>
      rw [names] at executed ran
      obtain ⟨next, stepped, ran⟩ := executeAll_cons.mp ran
      obtain ⟨other, again, executed⟩ := executeAll_cons.mp executed
      cases stepped.symm.trans again
      obtain ⟨_, same⟩ := dropIndex_cases stepped
      have gone : ∀ index ∈ next.indexes, ¬ (index.table = table ∧ index.name = name) := by
        intro index member
        rw [same] at member
        exact of_decide_eq_true (List.mem_filter.mp member).2
      have once := dropIndex_absent gone ran
      have left : next.duplicateIndexes table = rest := by
        rw [same, duplicateIndexes_dropped, names, List.filter_cons_of_neg (by simp),
          List.filter_eq_self]
        intro other listed
        have different : other ≠ name := fun equal => once (equal ▸ listed)
        simpa using different
      rw [← left] at ran executed
      exact ih ran executed

theorem restarts_drops (table : String) : Restarts dialect
    (fun db => (db.duplicateIndexes table).map (.dropIndex table)) := by
  intro db final ran cut between executed
  refine ⟨fun _ => drops_restart ran executed, ?_⟩
  intro strict
  refine absurd ?_ strict
  intro statement member
  obtain ⟨name, _, same⟩ := List.mem_map.mp (List.mem_of_mem_take member)
  rw [← same]
  rfl

theorem restarts_one (makes : statement.creates) (tolerant : statement.repeatable) :
    Restarts dialect (fun _ => [statement]) :=
  restarts_of_resumable
    (resumable_creates (by simp [makes]) (List.pairwise_singleton _ _)) (by simp [tolerant])

theorem restarts_copied (target : String) (makes : statement.creates)
    (tolerant : statement.repeatable) :
    Restarts dialect (fun _ => [statement, .copyCheckpoints target]) := by
  refine restarts_of_resumable
    (resumable_creates (by simp [makes]) (by simp [makes, DdlStatement.drops])) ?_
  intro other listed
  rcases List.mem_cons.mp listed with same | last
  · rw [same]
    exact tolerant
  · rw [List.mem_singleton.mp last]
    rfl

theorem restarts_leaseColumns (dialect : SqlDialect) (config : SqlSchemaConfig) :
    Restarts dialect (fun _ => leaseColumns dialect config) := by
  cases dialect with
  | sqlite => exact restarts_of_guarded rfl (by simp [DdlStatement.drops])
  | postgres =>
    refine restarts_of_resumable (resumable_creates ?_ ?_) ?_
    · simp [leaseColumns, DdlStatement.creates]
    · simp [leaseColumns, DdlStatement.creates, DdlStatement.drops]
    · simp [leaseColumns, DdlStatement.repeatable]
  | mysql => exact restarts_of_guarded rfl (by simp [DdlStatement.drops])

theorem getMigrations_restarts (member : m ∈ getMigrations dialect config) :
    Restarts dialect (m.statements dialect config) := by
  simp only [getMigrations, List.mem_cons, List.not_mem_nil, or_false] at member
  rcases member with rfl | rfl | rfl | rfl | rfl | rfl | rfl | rfl
  · cases dialect <;> exact restarts_one rfl rfl
  · cases dialect <;> exact restarts_copied _ rfl rfl
  · cases dialect <;> exact restarts_one rfl rfl
  · cases dialect <;> exact restarts_one rfl rfl
  · cases dialect <;> exact restarts_one rfl rfl
  · cases dialect with
    | sqlite => exact restarts_of_resumable (resumable_dropIfExists _) (by simp [DdlStatement.repeatable])
    | postgres =>
      exact restarts_of_resumable (resumable_dropIfExists _) (by simp [DdlStatement.repeatable])
    | mysql => exact restarts_drops _
  · cases dialect <;> exact restarts_leaseColumns _ _
  · cases dialect with
    | sqlite => exact restarts_one rfl rfl
    | postgres => exact restarts_one rfl rfl
    | mysql => exact restarts_of_guarded rfl (by simp)

theorem getMigrations_up (dialect : SqlDialect) (config : SqlSchemaConfig) :
    (getMigrations dialect config).all fun m => m.up.all fun statement => !statement.records := by
  cases dialect <;> rfl

/-- The statements of a migration leave the bookkeeping to the run loop. -/
theorem statements_records (member : m ∈ getMigrations dialect config) (db : SchemaDatabase) :
    ∀ statement ∈ m.statements dialect config db, statement.records = false := by
  have plain : ∀ statement ∈ m.up, statement.records = false := by
    have all := List.all_eq_true.mp (getMigrations_up dialect config) m member
    simpa using all
  have started : ∀ statement ∈ (if dialect = .mysql ∧ m.version = 5 then
      [.createIndexUnlessPresent (globalReplayIndex config)]
    else if dialect = .mysql ∧ m.version = 6 then
      (db.duplicateIndexes config.eventsTable).map (.dropIndex config.eventsTable)
    else m.up), statement.records = false := by
    intro statement listed
    split at listed
    · rw [List.mem_singleton.mp listed]
      rfl
    split at listed
    · obtain ⟨name, _, same⟩ := List.mem_map.mp listed
      rw [← same]
      rfl
    · exact plain statement listed
  intro statement listed
  unfold SchemaMigration.statements at listed
  dsimp only at listed
  by_cases copies : m.version = 2
  · rw [if_pos copies] at listed
    rcases List.mem_append.mp listed with early | last
    · exact started statement early
    · rw [List.mem_singleton.mp last]
      rfl
  · rw [if_neg copies] at listed
    exact started statement listed

theorem getMigrations_versions (dialect : SqlDialect) (config : SqlSchemaConfig) :
    (getMigrations dialect config).Pairwise fun m other => m.version ≠ other.version := by
  simp [getMigrations]

/-- The bookkeeping table can be read and holds these rows. -/
def Booked (config : SqlSchemaConfig) (db : SchemaDatabase) (rows : List (Nat × String)) : Prop :=
  ∃ table, db.tables config.migrationsTable = some table ∧
    table.missing ["version", "table_name"] = [] ∧ table.applied = rows

theorem Booked.execute (booked : Booked config db rows) (plain : statement.records = false)
    (executed : statement.execute dialect db = .ok next) : Booked config next rows := by
  obtain ⟨table, found, complete, same⟩ := booked
  obtain ⟨later, known, columns, applied⟩ := DdlStatement.execute_table executed found
  exact ⟨later, known, DdlStatement.missing_mono columns complete, (applied plain).trans same⟩

theorem Booked.executeAll (booked : Booked config db rows)
    (plain : ∀ statement ∈ statements, statement.records = false)
    (executed : executeAll (DdlStatement.execute dialect) statements db = .ok next) :
    Booked config next rows :=
  executeAll_keeps (P := fun db => Booked config db rows)
    (fun statement member _ _ holds stepped => holds.execute (plain statement member) stepped)
    booked executed

theorem Booked.record (booked : Booked config db rows) {version : Nat} {target : String}
    (executed : (DdlStatement.recordMigration config.migrationsTable version target).execute
      dialect db = .ok next) : Booked config next (rows ++ [(version, target)]) := by
  obtain ⟨table, found, complete, same⟩ := booked
  simp only [DdlStatement.execute, DdlStatement.record, found] at executed
  split at executed
  · cases executed
  split at executed
  · cases executed
  · cases executed
    refine ⟨_, Function.update_self .., complete, ?_⟩
    rw [same]

theorem appliedPairs_ok (read : SchemaMigrator.appliedPairs dialect config db = .ok rows) :
    Booked config db rows := by
  unfold SchemaMigrator.appliedPairs at read
  dsimp only at read
  split at read
  · cases read
  split at read
  · cases read
  · rename_i table found
    split at read
    · cases read
    · rename_i complete
      cases read
      exact ⟨table, found, complete, rfl⟩

theorem Booked.appliedPairs (booked : Booked config db rows) :
    SchemaMigrator.appliedPairs dialect config db = .ok rows := by
  obtain ⟨table, found, complete, same⟩ := booked
  have named : "table_name" ∈ table.columnNames := by
    by_contra absent
    have left : "table_name" ∈ table.missing ["version", "table_name"] :=
      List.mem_filter.mpr ⟨by simp, decide_eq_true absent⟩
    rw [complete] at left
    cases left
  unfold SchemaMigrator.appliedPairs
  rw [found]
  dsimp only [Option.map_some, Option.getD_some]
  rw [if_neg (fun legacy => legacy.1 named), complete, same]

namespace SchemaMigrator

/-- The bookkeeping row of a migration. -/
def pair (config : SqlSchemaConfig) (m : SchemaMigration) : Nat × String :=
  (m.version, getTargetTableName config m.version)

variable {applied : List (Nat × String)} {ms : List SchemaMigration}

theorem migrate_applied (known : pair config m ∈ applied) (left : Option Nat) :
    migrate dialect config applied (m :: ms) left db = migrate dialect config applied ms left db := by
  rw [migrate]
  exact if_pos known

theorem migrate_new (unknown : pair config m ∉ applied) (left : Option Nat) :
    migrate dialect config applied (m :: ms) left db =
      match perform (DdlStatement.execute dialect) (m.statements dialect config db ++
          [.recordMigration config.migrationsTable m.version
            (getTargetTableName config m.version)]) left db [] with
      | .error stop => .error stop
      | .ok (left, db) => migrate dialect config applied ms left db := by
  rw [migrate]
  exact if_neg unknown

variable {between : SchemaDatabase}

theorem migrate_new_none (unknown : pair config m ∉ applied) :
    migrate dialect config applied (m :: ms) none db = .ok (none, final) ↔
      ∃ between next,
        executeAll (DdlStatement.execute dialect) (m.statements dialect config db) db =
          .ok between ∧
        (DdlStatement.recordMigration config.migrationsTable m.version
          (getTargetTableName config m.version)).execute dialect between = .ok next ∧
        migrate dialect config applied ms none next = .ok (none, final) := by
  rw [migrate_new unknown]
  constructor
  · intro ran
    split at ran
    · cases ran
    · rename_i left next performed
      obtain ⟨never, executed⟩ := perform_none.mp performed
      subst never
      obtain ⟨between, statements, last⟩ := executeAll_split executed
      obtain ⟨recorded, row, done⟩ := executeAll_cons.mp last
      cases done
      exact ⟨between, next, statements, row, ran⟩
  · rintro ⟨between, next, statements, row, ran⟩
    have executed := executeAll_append
      [.recordMigration config.migrationsTable m.version (getTargetTableName config m.version)]
      statements
    have last := executeAll_one row
    rw [last] at executed
    rw [perform_none.mpr ⟨rfl, executed⟩]
    exact ran

/-- Only what the rows say of the migrations to come matters. -/
theorem migrate_congr (same : ∀ m ∈ ms, pair config m ∈ rows ↔ pair config m ∈ applied)
    (left : Option Nat) (db : SchemaDatabase) :
    migrate dialect config rows ms left db = migrate dialect config applied ms left db := by
  induction ms generalizing left db with
  | nil => rfl
  | cons m rest ih =>
    have others := ih (fun other member => same other (List.mem_cons_of_mem _ member))
    by_cases known : pair config m ∈ applied
    · rw [migrate_applied known, migrate_applied ((same m List.mem_cons_self).mpr known)]
      exact others left db
    · have unknown := fun listed => known ((same m List.mem_cons_self).mp listed)
      rw [migrate_new known, migrate_new unknown]
      split
      · rfl
      · exact others _ _

theorem migrate_recorded (all : ∀ m ∈ ms, pair config m ∈ rows) (left : Option Nat)
    (db : SchemaDatabase) : migrate dialect config rows ms left db = .ok (left, db) := by
  induction ms with
  | nil => rfl
  | cons m rest ih =>
    rw [migrate_applied (all m List.mem_cons_self)]
    exact ih (fun other member => all other (List.mem_cons_of_mem _ member))

/-- What a run knows of the migrations that are left: they are canonical, of different
versions, and the rows of the table are the ones that were read. -/
structure Ahead (dialect : SqlDialect) (config : SqlSchemaConfig) (applied : List (Nat × String))
    (ms : List SchemaMigration) (db : SchemaDatabase) (rows : List (Nat × String)) : Prop where
  canonical : ∀ m ∈ ms, m ∈ getMigrations dialect config
  distinct : ms.Pairwise fun m other => m.version ≠ other.version
  booked : Booked config db rows
  known : ∀ m ∈ ms, pair config m ∈ rows ↔ pair config m ∈ applied

theorem Ahead.tail (ahead : Ahead dialect config applied (m :: ms) db rows) :
    Ahead dialect config applied ms db rows :=
  ⟨fun other member => ahead.canonical other (List.mem_cons_of_mem _ member),
    (List.pairwise_cons.mp ahead.distinct).2, ahead.booked,
    fun other member => ahead.known other (List.mem_cons_of_mem _ member)⟩

theorem Ahead.plain (ahead : Ahead dialect config applied (m :: ms) db rows)
    (db : SchemaDatabase) : ∀ statement ∈ m.statements dialect config db,
      statement.records = false :=
  statements_records (ahead.canonical m List.mem_cons_self) db

theorem Ahead.recorded (ahead : Ahead dialect config applied (m :: ms) db rows)
    (statements : executeAll (DdlStatement.execute dialect) (m.statements dialect config db) db =
      .ok between) (row : (DdlStatement.recordMigration config.migrationsTable m.version
      (getTargetTableName config m.version)).execute dialect between = .ok next) :
    Ahead dialect config applied ms next (rows ++ [pair config m]) := by
  have booked := (ahead.booked.executeAll (ahead.plain db) statements).record row
  refine ⟨ahead.tail.canonical, ahead.tail.distinct, booked, ?_⟩
  intro other member
  have different : pair config other ≠ pair config m := by
    intro same
    exact (List.pairwise_cons.mp ahead.distinct).1 other member (congrArg Prod.fst same).symm
  rw [List.mem_append, List.mem_singleton, or_iff_left different]
  exact ahead.tail.known other member

/-- A run that is not interrupted has recorded everything. -/
theorem migrate_done (ahead : Ahead dialect config applied ms db rows)
    (ran : migrate dialect config applied ms none db = .ok (none, final)) :
    ∃ later, rows ⊆ later ∧ Booked config final later ∧ ∀ m ∈ ms, pair config m ∈ later := by
  induction ms generalizing db rows with
  | nil =>
    cases ran
    exact ⟨rows, List.Subset.refl _, ahead.booked, by simp⟩
  | cons m rest ih =>
    by_cases known : pair config m ∈ applied
    · rw [migrate_applied known] at ran
      obtain ⟨later, kept, booked, all⟩ := ih ahead.tail ran
      refine ⟨later, kept, booked, ?_⟩
      exact List.forall_mem_cons.mpr
        ⟨kept ((ahead.known m List.mem_cons_self).mpr known), all⟩
    · obtain ⟨between, next, statements, row, ran⟩ := (migrate_new_none known).mp ran
      obtain ⟨later, kept, booked, all⟩ := ih (ahead.recorded statements row) ran
      refine ⟨later, fun _ listed => kept (List.mem_append_left _ listed), booked, ?_⟩
      exact List.forall_mem_cons.mpr ⟨kept (List.mem_append_right _ (List.mem_singleton_self _)), all⟩

/-- What an interrupted loop leaves behind: it can be started again, or it fails wherever it
is started. -/
structure Left (dialect : SqlDialect) (config : SqlSchemaConfig) (ms : List SchemaMigration)
    (final : SchemaDatabase) (rows : List (Nat × String))
    (stop : Stop SchemaDatabase DdlStatement MigrationError) : Prop where
  booked : Booked config stop.state rows
  clean : (∀ statement ∈ stop.executed, statement.repeatable) →
    migrate dialect config rows ms none stop.state = .ok (none, final)
  torn : (¬ ∀ statement ∈ stop.executed, statement.repeatable) → ∀ left, ∃ again,
    migrate dialect config rows ms left stop.state = .error again ∧ again.state = stop.state

theorem Left.cons {final : SchemaDatabase} {stop : Stop SchemaDatabase DdlStatement MigrationError}
    (left : Left dialect config ms final rows stop) (known : pair config m ∈ rows) :
    Left dialect config (m :: ms) final rows stop where
  booked := left.booked
  clean tolerant := (migrate_applied known none).trans (left.clean tolerant)
  torn strict budget := by
    rw [migrate_applied known]
    exact left.torn strict budget

/-- The migration that is interrupted. -/
theorem migrate_cut (ahead : Ahead dialect config applied (m :: ms) db rows)
    (unknown : pair config m ∉ applied)
    (ran : migrate dialect config applied (m :: ms) none db = .ok (none, final)) {cut : Nat}
    (executed : executeAll (DdlStatement.execute dialect)
      ((m.statements dialect config db).take cut) db = .ok between) :
    Left dialect config (m :: ms) final rows
      ⟨between, (m.statements dialect config db).take cut, none⟩ := by
  obtain ⟨whole, next, statements, row, ran⟩ := (migrate_new_none unknown).mp ran
  have restarts := getMigrations_restarts (ahead.canonical m List.mem_cons_self) db whole
    statements cut between executed
  have plain : ∀ statement ∈ (m.statements dialect config db).take cut,
      statement.records = false :=
    fun statement member => ahead.plain db statement (List.mem_of_mem_take member)
  have absent : pair config m ∉ rows :=
    fun listed => unknown ((ahead.known m List.mem_cons_self).mp listed)
  refine ⟨ahead.booked.executeAll plain executed, ?_, ?_⟩
  · intro tolerant
    have again := restarts.1 tolerant
    refine (migrate_new_none absent).mpr ⟨whole, next, again, row, ?_⟩
    rw [migrate_congr ahead.tail.known]
    exact ran
  · intro strict left
    obtain ⟨head, rest, error, begins, rejected⟩ := restarts.2 strict
    rw [migrate_new absent, begins]
    by_cases dead : left = some 0
    · refine ⟨⟨between, [], none⟩, ?_, rfl⟩
      simp [perform, dead]
    · refine ⟨⟨between, [], some error⟩, ?_, rfl⟩
      simp [perform, dead, rejected]

theorem migrate_interrupted (ahead : Ahead dialect config applied ms db rows)
    (ran : migrate dialect config applied ms none db = .ok (none, final)) (n : Nat) :
    (∃ left, migrate dialect config applied ms (some n) db = .ok (left, final)) ∨
      ∃ stop later, migrate dialect config applied ms (some n) db = .error stop ∧ rows ⊆ later ∧
        Left dialect config ms final later stop := by
  induction ms generalizing db rows n with
  | nil =>
    cases ran
    exact Or.inl ⟨_, rfl⟩
  | cons m rest ih =>
    by_cases known : pair config m ∈ applied
    · have recorded := (ahead.known m List.mem_cons_self).mpr known
      rw [migrate_applied known] at ran ⊢
      rcases ih ahead.tail ran n with done | ⟨stop, later, stopped, kept, left⟩
      · exact Or.inl done
      · exact Or.inr ⟨stop, later, stopped, kept, left.cons (kept recorded)⟩
    · have whole := ran
      obtain ⟨between, next, statements, row, ran⟩ := (migrate_new_none known).mp ran
      have last := executeAll_one row
      have executed := (executeAll_append _ statements).trans last
      rw [migrate_new known]
      rcases perform_some executed n [] with all | ⟨cut, state, short, partly, stopped⟩
      · rw [all]
        rcases ih (ahead.recorded statements row) ran _ with done | ⟨stop, later, stopped, kept, left⟩
        · exact Or.inl done
        · refine Or.inr ⟨stop, later, stopped, fun _ listed => kept (List.mem_append_left _ listed), ?_⟩
          exact left.cons (kept (List.mem_append_right _ (List.mem_singleton_self _)))
      · rw [List.length_append, List.length_singleton] at short
        rw [List.take_append_of_le_length (by omega)] at partly stopped
        rw [stopped]
        exact Or.inr ⟨_, rows, rfl, List.Subset.refl _, migrate_cut ahead known whole partly⟩

end SchemaMigrator

namespace SchemaMigrator

/-- A run that may die: the database it leaves, and what it had executed of the migration
that it did not record. -/
def attempt (migrator : SchemaMigrator) (dialect : SqlDialect) (cut : Nat) (db : SchemaDatabase) :
    SchemaDatabase × List DdlStatement :=
  match migrator.run dialect (some cut) db with
  | .ok (_, after) => (after, [])
  | .error stop => (stop.state, stop.executed)

/-- The database after any number of such runs. -/
def attempts (migrator : SchemaMigrator) (dialect : SqlDialect) :
    List Nat → SchemaDatabase → SchemaDatabase
  | [], db => db
  | cut :: cuts, db => migrator.attempts dialect cuts (migrator.attempt dialect cut db).1

/-- No run dies between a statement that fails when it is repeated and the bookkeeping row of
its migration. -/
def CleanCuts (migrator : SchemaMigrator) (dialect : SqlDialect) : List Nat → SchemaDatabase → Prop
  | [], _ => True
  | cut :: cuts, db =>
    (∀ statement ∈ (migrator.attempt dialect cut db).2, statement.repeatable) ∧
      migrator.CleanCuts dialect cuts (migrator.attempt dialect cut db).1

/-- The tables with their columns, and the indexes. -/
def schema (db : SchemaDatabase) :
    (String → Option (List Column × List String)) × List SchemaIndex :=
  (fun name => (db.tables name).map fun table => (table.columns, table.constraints), db.indexes)

/-- The rows of the bookkeeping table. -/
def appliedMigrations (config : SqlSchemaConfig) (db : SchemaDatabase) : Option (List (Nat × String)) :=
  (db.tables config.migrationsTable).map SchemaTable.applied

/-- A run on this database completes and ends with the schema and the applied migrations of
another database. -/
def Completes (migrator : SchemaMigrator) (dialect : SqlDialect) (final db : SchemaDatabase) : Prop :=
  ∃ again, migrator.run dialect none db = .ok (none, again) ∧ schema again = schema final ∧
    appliedMigrations migrator.config again = appliedMigrations migrator.config final

variable {migrator : SchemaMigrator}

theorem migrationsFor_sublist (migrator : SchemaMigrator) (dialect : SqlDialect) :
    (migrator.migrationsFor dialect).Sublist (getMigrations dialect migrator.config) := by
  unfold migrationsFor
  split
  · exact List.filter_sublist
  · exact List.Sublist.refl _

theorem ahead_start (booked : Booked migrator.config db rows) :
    Ahead dialect migrator.config rows (migrator.migrationsFor dialect) db rows where
  canonical _ member := (migrator.migrationsFor_sublist dialect).subset member
  distinct := (getMigrations_versions dialect migrator.config).sublist
    (migrator.migrationsFor_sublist dialect)
  booked := booked
  known _ _ := Iff.rfl

theorem createMigrationsTable_booked (booked : Booked config db rows) :
    (createMigrationsTable dialect config).execute dialect db = .ok db := by
  obtain ⟨table, found, _⟩ := booked
  cases dialect <;>
    simp [createMigrationsTable, DdlStatement.execute, DdlStatement.createTableOn, found]

/-- A run over a database that can be read goes straight to the migrations. -/
theorem run_booked (valid : migrator.config.validate = .ok ()) (booked : Booked migrator.config db rows)
    (left : Option Nat) :
    migrator.run dialect left db =
      if left = some 0 then .error ⟨db, [], none⟩
      else migrate dialect migrator.config rows (migrator.migrationsFor dialect)
        (left.map Nat.pred) db := by
  unfold run
  rw [valid]
  dsimp only
  by_cases dead : left = some 0
  · rw [if_pos dead]
    simp [perform, dead]
  · rw [if_neg dead]
    simp only [perform, if_neg dead, createMigrationsTable_booked booked]
    rw [booked.appliedPairs]

/-- What a run that completes has done before the first migration. -/
theorem run_ok (ran : migrator.run dialect none db = .ok (none, final)) :
    migrator.config.validate = .ok () ∧ ∃ next rows,
      (createMigrationsTable dialect migrator.config).execute dialect db = .ok next ∧
      appliedPairs dialect migrator.config next = .ok rows ∧
      migrate dialect migrator.config rows (migrator.migrationsFor dialect) none next =
        .ok (none, final) := by
  unfold run at ran
  split at ran
  · cases ran
  · rename_i valid
    refine ⟨valid, ?_⟩
    split at ran
    · cases ran
    · rename_i left next performed
      obtain ⟨never, executed⟩ := perform_none.mp performed
      subst never
      obtain ⟨other, created, done⟩ := executeAll_cons.mp executed
      cases done
      split at ran
      · cases ran
      · rename_i rows read
        exact ⟨next, rows, created, read, ran⟩

/-- A database on which every run stops where it starts. -/
def Stuck (migrator : SchemaMigrator) (dialect : SqlDialect) (db : SchemaDatabase) : Prop :=
  ∀ left, ∃ stop, migrator.run dialect left db = .error stop ∧ stop.state = db

/-- One interrupted run, by where it dies. -/
theorem attempt_left (ran : migrator.run dialect none db = .ok (none, final)) (cut : Nat) :
    ((∀ statement ∈ (migrator.attempt dialect cut db).2, statement.repeatable) →
      migrator.run dialect none (migrator.attempt dialect cut db).1 = .ok (none, final)) ∧
    ((¬ ∀ statement ∈ (migrator.attempt dialect cut db).2, statement.repeatable) →
      migrator.Stuck dialect (migrator.attempt dialect cut db).1) := by
  obtain ⟨valid, next, rows, created, read, migrated⟩ := run_ok ran
  have ahead : Ahead dialect migrator.config rows (migrator.migrationsFor dialect) next rows :=
    ahead_start (appliedPairs_ok read)
  cases cut with
  | zero =>
    have died : migrator.attempt dialect 0 db = (db, []) := by
      simp [attempt, run, valid, perform]
    rw [died]
    exact ⟨fun _ => ran, fun strict => absurd (by simp) strict⟩
  | succ n =>
    have started : migrator.run dialect (some (n + 1)) db =
        migrate dialect migrator.config rows (migrator.migrationsFor dialect) (some n) next := by
      unfold run
      rw [valid]
      simp [perform, created, read]
    rcases migrate_interrupted ahead migrated n with ⟨left, done⟩ | ⟨stop, later, stopped, _, remains⟩
    · obtain ⟨later, _, booked, all⟩ := migrate_done ahead migrated
      have ended : migrator.attempt dialect (n + 1) db = (final, []) := by
        unfold attempt
        rw [started, done]
      rw [ended]
      refine ⟨fun _ => ?_, fun strict => absurd (by simp) strict⟩
      rw [run_booked valid booked, if_neg (by simp)]
      exact migrate_recorded all none final
    · have ended : migrator.attempt dialect (n + 1) db = (stop.state, stop.executed) := by
        unfold attempt
        rw [started, stopped]
      rw [ended]
      constructor
      · intro tolerant
        rw [run_booked valid remains.booked, if_neg (by simp)]
        exact remains.clean tolerant
      · intro strict left
        rw [run_booked valid remains.booked]
        by_cases dead : left = some 0
        · exact ⟨_, if_pos dead, rfl⟩
        · rw [if_neg dead]
          exact remains.torn strict _

theorem attempts_stuck (stuck : migrator.Stuck dialect db) (cuts : List Nat) :
    migrator.attempts dialect cuts db = db := by
  induction cuts with
  | nil => rfl
  | cons cut cuts ih =>
    obtain ⟨stop, stopped, same⟩ := stuck (some cut)
    have stays : (migrator.attempt dialect cut db).1 = db := by
      unfold attempt
      rw [stopped]
      exact same
    unfold attempts
    rw [stays]
    exact ih

theorem Stuck.not_completes (stuck : migrator.Stuck dialect db) :
    ¬ migrator.Completes dialect final db := by
  rintro ⟨again, ran, _⟩
  obtain ⟨stop, stopped, _⟩ := stuck none
  cases ran.symm.trans stopped

/-- However many runs have died: the next one completes like a run that was never
interrupted exactly if none of them died behind a statement that cannot be repeated and
before the row that records it. -/
theorem migrations_survive_iff (ran : migrator.run dialect none db = .ok (none, final))
    (cuts : List Nat) :
    migrator.Completes dialect final (migrator.attempts dialect cuts db) ↔
      migrator.CleanCuts dialect cuts db := by
  induction cuts generalizing db with
  | nil => exact iff_of_true ⟨final, ran, rfl, rfl⟩ trivial
  | cons cut cuts ih =>
    obtain ⟨clean, torn⟩ := attempt_left ran cut
    by_cases tolerant : ∀ statement ∈ (migrator.attempt dialect cut db).2, statement.repeatable
    · exact (ih (clean tolerant)).trans (and_iff_right tolerant).symm
    · have stuck := torn tolerant
      refine iff_of_false ?_ (fun kept => tolerant kept.1)
      have stays := attempts_stuck stuck cuts
      unfold attempts
      rw [stays]
      exact stuck.not_completes

theorem postgres_repeatable {m : SchemaMigration} (member : m ∈ getMigrations .postgres config)
    (db : SchemaDatabase) : ∀ statement ∈ m.statements .postgres config db,
      statement.repeatable := by
  have up : ∀ statement ∈ m.up, statement.repeatable := by
    have all : (getMigrations .postgres config).all fun m => m.up.all DdlStatement.repeatable := rfl
    simpa using List.all_eq_true.mp all m member
  intro statement listed
  simp only [SchemaMigration.statements, reduceCtorEq, false_and, if_false] at listed
  by_cases copies : m.version = 2
  · rw [if_pos copies] at listed
    rcases List.mem_append.mp listed with early | last
    · exact up statement early
    · rw [List.mem_singleton.mp last]
      rfl
  · rw [if_neg copies] at listed
    exact up statement listed

theorem migrate_repeatable {applied : List (Nat × String)} {ms : List SchemaMigration}
    (canonical : ∀ m ∈ ms, m ∈ getMigrations .postgres config) {left : Option Nat}
    {stop : Stop SchemaDatabase DdlStatement MigrationError}
    (stopped : migrate .postgres config applied ms left db = .error stop) :
    ∀ statement ∈ stop.executed, statement.repeatable := by
  induction ms generalizing left db with
  | nil => cases stopped
  | cons m rest ih =>
    have others := fun other member => canonical other (List.mem_cons_of_mem m member)
    by_cases known : pair config m ∈ applied
    · rw [migrate_applied known] at stopped
      exact ih others stopped
    · rw [migrate_new known] at stopped
      split at stopped
      · rename_i interrupted performed
        cases stopped
        intro statement executed
        rcases List.mem_append.mp (perform_stop performed executed) with none | listed
        · cases none
        rcases List.mem_append.mp listed with early | last
        · exact postgres_repeatable (canonical m List.mem_cons_self) db statement early
        · rw [List.mem_singleton.mp last]
          rfl
      · exact ih others stopped

/-- PostgreSQL has no statement that cannot be repeated. -/
theorem postgres_cleanCuts (migrator : SchemaMigrator) (cuts : List Nat) (db : SchemaDatabase) :
    migrator.CleanCuts .postgres cuts db := by
  induction cuts generalizing db with
  | nil => trivial
  | cons cut cuts ih =>
    refine ⟨?_, ih _⟩
    unfold attempt
    split
    · simp
    · rename_i stop stopped
      unfold run at stopped
      split at stopped
      · cases stopped
        simp
      split at stopped
      · rename_i interrupted performed
        cases stopped
        intro statement executed
        have created := perform_stop performed executed
        rw [List.nil_append, List.mem_singleton] at created
        rw [created]
        rfl
      split at stopped
      · cases stopped
        simp
      · exact migrate_repeatable
          (fun m member => (migrator.migrationsFor_sublist .postgres).subset member) stopped

/-- On PostgreSQL runs may die anywhere and any number of times: the next run that does not die
ends with the very database that a run without them leaves. -/
theorem postgres_survives (ran : migrator.run .postgres none db = .ok (none, final))
    (cuts : List Nat) :
    migrator.run .postgres none (migrator.attempts .postgres cuts db) = .ok (none, final) := by
  induction cuts generalizing db with
  | nil => exact ran
  | cons cut cuts ih =>
    have tolerant := (postgres_cleanCuts migrator [cut] db).1
    exact ih ((attempt_left ran cut).1 tolerant)

theorem postgres_survives_default :
    ∃ final, (new .default).run .postgres none
      ((new .default).attempts .postgres [0, 4, 15, 5] emptyDatabase) = .ok (none, final) :=
  ⟨_, postgres_survives (show (new .default).run .postgres none emptyDatabase = .ok (none, _)
    from rfl) [0, 4, 15, 5]⟩

/-- The fifteenth statement adds the column `owner`; its migration is not recorded. -/
theorem interrupted_leaseColumns :
    ∃ final, (new .default).run .sqlite none emptyDatabase = .ok (none, final) ∧
      ¬ (new .default).Completes .sqlite final
        ((new .default).attempts .sqlite [15] emptyDatabase) := by
  refine ⟨_, rfl, ?_⟩
  rintro ⟨again, ran, _⟩
  cases ran

/-- Death before the first statement or between the other migrations does no harm. -/
theorem migrations_survive_iff_sqlite :
    ∃ final, (new .default).run .sqlite none emptyDatabase = .ok (none, final) ∧
      (new .default).Completes .sqlite final
        ((new .default).attempts .sqlite [0, 4, 3, 5] emptyDatabase) := by
  have clean : (new .default).CleanCuts .sqlite [0, 4, 3, 5] emptyDatabase := by
    refine ⟨?_, ?_, ?_, ?_, trivial⟩ <;> decide +kernel
  have ran : (new .default).run .sqlite none emptyDatabase = .ok (none, _) := rfl
  exact ⟨_, ran, (migrations_survive_iff ran [0, 4, 3, 5]).mpr clean⟩

end SchemaMigrator

end DddCqrsEs
