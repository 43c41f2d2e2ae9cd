import Mathlib.Data.List.Sort
import Mathlib.Logic.Function.Basic

/- A Redis server as its scripts see it: the key space and the commands that read and write
strings, sorted sets and hashes. Nothing here names an application. -/
namespace RedisServer

/-- What a key holds. A sorted set lists its members with their scores. -/
inductive Object where
  | string (text : String)
  | sortedSet (members : List (Nat × String))
  | hash (fields : List (String × String))
  deriving DecidableEq, Repr

abbrev KeySpace := String → Option Object

/-- A script runs alone. An error ends it and keeps what it has written. -/
abbrev Script (α : Type) := EStateM String KeySpace α

def wrongType : String := "WRONGTYPE Operation against a key holding the wrong kind of value"

def get (key : String) : Script (Option String) := fun db =>
  match db key with
  | none => .ok none db
  | some (.string text) => .ok (some text) db
  | some _ => .error wrongType db

def set (key text : String) : Script Unit := fun db =>
  .ok () (Function.update db key (some (.string text)))

def del (key : String) : Script Nat := fun db =>
  .ok (if (db key).isSome then 1 else 0) (Function.update db key none)

def members (key : String) : Script (List (Nat × String)) := fun db =>
  match db key with
  | none => .ok [] db
  | some (.sortedSet members) => .ok members db
  | some _ => .error wrongType db

def zcard (key : String) : Script Nat := do
  return (← members key).length

/-- A member that is already there changes its score. -/
def zadd (key : String) (score : Nat) (member : String) : Script Unit := do
  let held ← members key
  modify (fun db => Function.update db key
    (some (.sortedSet (held.filter (fun other => other.2 ≠ member) ++ [(score, member)]))))

/-- By score, and by member where scores are equal. -/
def Precedes (first second : Nat × String) : Prop :=
  first.1 < second.1 ∨ (first.1 = second.1 ∧ first.2 ≤ second.2)

instance (first second : Nat × String) : Decidable (Precedes first second) :=
  inferInstanceAs (Decidable (_ ∨ _))

/-- `ZRANGEBYSCORE key (after +inf WITHSCORES LIMIT 0 limit`. -/
def zrangeByScore (key : String) (after limit : Nat) : Script (List (Nat × String)) := do
  let held ← members key
  return ((held.filter (fun member => after < member.1)).insertionSort Precedes).take limit

def fields (key : String) : Script (List (String × String)) := fun db =>
  match db key with
  | none => .ok [] db
  | some (.hash fields) => .ok fields db
  | some _ => .error wrongType db

def setField (held : List (String × String)) (field : String × String) : List (String × String) :=
  held.filter (fun other => other.1 ≠ field.1) ++ [field]

def hset (key : String) (written : List (String × String)) : Script Unit := do
  let held ← fields key
  modify (fun db => Function.update db key (some (.hash (written.foldl setField held))))

def hgetall (key : String) : Script (List (String × String)) := fields key

def hget (key field : String) : Script (Option String) := do
  return (← fields key).lookup field

/-- The object of a sorted set; an empty one is no object. -/
def ofSet (members : List (Nat × String)) : Option Object :=
  if members = [] then none else some (.sortedSet members)

/-- The object of a counter that has not been written while it is zero. -/
def ofCount (count : Nat) : Option Object :=
  if count = 0 then none else some (.string (Nat.repr count))

variable {db : KeySpace} {key : String}

theorem get_ofCount {count : Nat} (held : db key = ofCount count) :
    get key db = .ok (if count = 0 then none else some (Nat.repr count)) db := by
  rw [get, held, ofCount]
  by_cases zero : count = 0
  · simp [zero]
  · simp [zero]

variable {held : List (Nat × String)} {written : List (String × String)}

theorem members_ofSet (stored : db key = ofSet held) : members key db = .ok held db := by
  rw [members, stored, ofSet]
  by_cases empty : held = []
  · simp [empty]
  · simp [empty]

theorem zcard_ofSet (stored : db key = ofSet held) : zcard key db = .ok held.length db := by
  show EStateM.bind (members key) _ db = _
  rw [EStateM.bind, members_ofSet stored]
  rfl

/-- A new member joins the others. -/
theorem zadd_ofSet (score : Nat) {member : String} (stored : db key = ofSet held)
    (new : ∀ other ∈ held, other.2 ≠ member) :
    zadd key score member db =
      .ok () (Function.update db key (ofSet (held ++ [(score, member)]))) := by
  have kept : held.filter (fun other => other.2 ≠ member) = held := by
    rw [List.filter_eq_self]
    intro other listed
    simpa using new other listed
  have some : ofSet (held ++ [(score, member)]) = some (.sortedSet (held ++ [(score, member)])) := by
    simp [ofSet]
  show EStateM.bind (members key) _ db = _
  rw [EStateM.bind, members_ofSet stored, some]
  dsimp only
  rw [kept]
  rfl

theorem zrangeByScore_ofSet {after limit : Nat} (stored : db key = ofSet held) :
    zrangeByScore key after limit db =
      .ok (((held.filter (fun member => after < member.1)).insertionSort Precedes).take limit) db := by
  show EStateM.bind (members key) _ db = _
  rw [EStateM.bind, members_ofSet stored]
  rfl

theorem setField_new {held : List (String × String)} {field : String × String}
    (new : ∀ other ∈ held, other.1 ≠ field.1) : setField held field = held ++ [field] := by
  rw [setField, List.filter_eq_self.mpr]
  intro other listed
  simpa using new other listed

/-- Fields with different names are stored as given. -/
theorem foldl_setField {held : List (String × String)}
    (distinct : ((held ++ written).map Prod.fst).Nodup) :
    written.foldl setField held = held ++ written := by
  induction written generalizing held with
  | nil => simp
  | cons field rest ih =>
    have new : ∀ other ∈ held, other.1 ≠ field.1 := by
      rw [List.map_append, List.map_cons, List.nodup_append] at distinct
      intro other listed same
      exact distinct.2.2 other.1 (List.mem_map_of_mem listed) field.1 List.mem_cons_self same
    rw [List.foldl_cons, setField_new new, ih]
    · simp
    · simpa using distinct

theorem hset_fresh (none : db key = none) (distinct : (written.map Prod.fst).Nodup) :
    hset key written db = .ok () (Function.update db key (some (.hash written))) := by
  have stored : written.foldl setField [] = written := by
    rw [foldl_setField (by simpa using distinct), List.nil_append]
  have read : fields key db = .ok [] db := by rw [fields, none]
  show EStateM.bind (fields key) _ db = _
  rw [EStateM.bind, read]
  dsimp only
  rw [stored]
  rfl

theorem hgetall_hash {stored : List (String × String)} (held : db key = some (.hash stored)) :
    hgetall key db = .ok stored db := by
  rw [hgetall, fields, held]

/-- Members whose scores ascend are listed as they stand. -/
theorem insertionSort_ascending (ascending : (held.map Prod.fst).Pairwise (· < ·)) :
    held.insertionSort Precedes = held := by
  apply List.Pairwise.insertionSort_eq
  exact (List.pairwise_map.mp ascending).imp Or.inl

instance : Std.Total Precedes where
  total first second := by
    rcases Nat.lt_trichotomy first.1 second.1 with less | same | greater
    · exact .inl (.inl less)
    · exact (String.le_total first.2 second.2).imp (fun le => .inr ⟨same, le⟩)
        (fun le => .inr ⟨same.symm, le⟩)
    · exact .inr (.inl greater)

instance : IsTrans (Nat × String) Precedes where
  trans first second third before after := by
    rcases before with less | ⟨same, le⟩
    · rcases after with later | ⟨equal, _⟩
      · exact .inl (Nat.lt_trans less later)
      · exact .inl (Nat.lt_of_lt_of_eq less equal)
    · rcases after with later | ⟨equal, further⟩
      · exact .inl (same ▸ later)
      · exact .inr ⟨same.trans equal, String.le_trans le further⟩

/-- Members with different scores are listed by score, in whatever order they are kept. -/
theorem insertionSort_of_perm {listed : List (Nat × String)} (perm : held.Perm listed)
    (ascending : (listed.map Prod.fst).Pairwise (· < ·)) :
    held.insertionSort Precedes = listed := by
  have sorted := List.pairwise_insertionSort Precedes held
  refine List.Perm.eq_of_pairwise ?_ sorted ((List.pairwise_map.mp ascending).imp Or.inl)
    ((List.perm_insertionSort Precedes held).trans perm)
  intro first second _ _ before after
  rcases before with less | ⟨same, le⟩
  · rcases after with greater | ⟨equal, _⟩
    · exact absurd less (Nat.lt_asymm greater)
    · exact absurd equal (Nat.ne_of_gt less)
  · rcases after with greater | ⟨_, ge⟩
    · exact absurd same (Nat.ne_of_gt greater)
    · exact Prod.ext same (String.le_antisymm le ge)

end RedisServer
