import DddCqrsEs.CrashFreeFile

/- What a raw feed is for: every event a store holds, in the order of the sequences, each under
a text of its aggregate id. -/
namespace DddCqrsEs

variable {ι : Type} {types : AggregateTypes ι}

/-- An append by the store of one of the aggregate types. -/
structure TypedAppend (types : AggregateTypes ι) where
  type : ι
  aggregateId : (types.aggregate type).Id
  expectedRevision : ExpectedRevision
  events : List (NewEvent (types.aggregate type).Event × Stamp)

/-- A store as its raw feed shows it. A call is an append together with what befalls it on the
way; it is answered with the events it has stored. -/
structure RawFeedStore (types : AggregateTypes ι) (σ Call Json : Type) where
  empty : σ
  append : σ → Call → List types.Entry × σ
  loadRawGlobalAfterLimited : σ → Option Nat → Nat →
    Except EventStoreError (List (EventEnvelope Json String))

/-- The events above a cursor, as far as a limit admits. -/
def window (sequence : Option Nat) (limit : Nat) (entries : List types.Entry) : List types.Entry :=
  (entries.filter (fun entry => sequence.getD 0 < sequenceOf entry.2)).take limit

/-- A raw envelope of an event, under a text that stands for its aggregate id. -/
structure SameEvent {Json : Type} (Names : types.Entry → String → Prop)
    (raw : EventEnvelope Json String) (entry : types.Entry) : Prop where
  eventId : raw.eventId = entry.2.eventId
  aggregateId : Names entry raw.aggregateId
  aggregateType : raw.aggregateType = entry.2.aggregateType
  revision : raw.revision = entry.2.revision
  sequence : raw.sequence = entry.2.sequence
  eventType : raw.eventType = entry.2.eventType

variable {Names : types.Entry → String → Prop}

theorem SameEvent.sequenceOf {Json : Type} {raw : EventEnvelope Json String} {entry : types.Entry}
    (same : SameEvent Names raw entry) : sequenceOf raw = sequenceOf entry.2 := by
  rw [DddCqrsEs.sequenceOf, same.sequence]
  rfl

/-- Feeds that take their texts from one source show the same ids. -/
theorem sameEvents_aggregateIds {Json Other : Type}
    (unique : ∀ entry first second, Names entry first → Names entry second → first = second)
    {raw : List (EventEnvelope Json String)} {other : List (EventEnvelope Other String)}
    {entries : List types.Entry} (first : List.Forall₂ (SameEvent Names) raw entries)
    (second : List.Forall₂ (SameEvent Names) other entries) :
    raw.map (·.aggregateId) = other.map (·.aggregateId) := by
  induction first generalizing other with
  | nil =>
    cases second
    rfl
  | cons head _ ih =>
    cases second with
    | cons headToo rest =>
      rw [List.map_cons, List.map_cons, ih rest,
        unique _ _ _ head.aggregateId headToo.aggregateId]

namespace RawFeedStore

variable {σ Call Json : Type} (store : RawFeedStore types σ Call Json)

/-- The events stored by a history of calls, and the store after it. -/
def after (history : List Call) : List types.Entry × σ :=
  history.foldl (fun reached call =>
    let (stored, next) := store.append reached.2 call
    (reached.1 ++ stored, next)) ([], store.empty)

theorem after_snoc (history : List Call) (call : Call) :
    store.after (history ++ [call]) =
      ((store.after history).1 ++ (store.append (store.after history).2 call).1,
        (store.append (store.after history).2 call).2) := by
  rw [after, List.foldl_append]
  rfl

/-- A load returns just the events that the history has stored in its window. -/
def Serves (Names : types.Entry → String → Prop) (history : List Call) (sequence : Option Nat)
    (limit : Nat) : Prop :=
  ∃ raw, store.loadRawGlobalAfterLimited (store.after history).2 sequence limit = .ok raw ∧
    List.Forall₂ (SameEvent Names) raw (window sequence limit (store.after history).1)

/-- What makes a store serve its feed. `Holds` tells which state stands for which events, and
`Covers` which loads the store admits. -/
structure Law (Names : types.Entry → String → Prop)
    (Covers : List types.Entry → Option Nat → Nat → Prop)
    (Holds : σ → List types.Entry → Prop) : Prop where
  empty : Holds store.empty []
  append : ∀ {state entries} call, Holds state entries →
    Holds (store.append state call).2 (entries ++ (store.append state call).1)
  load : ∀ {state entries} sequence limit, Holds state entries → Covers entries sequence limit →
    ∃ raw, store.loadRawGlobalAfterLimited state sequence limit = .ok raw ∧
      List.Forall₂ (SameEvent Names) raw (window sequence limit entries)

variable {store} {Covers : List types.Entry → Option Nat → Nat → Prop}
  {Holds : σ → List types.Entry → Prop}

theorem Law.after (law : store.Law Names Covers Holds) (history : List Call) :
    Holds (store.after history).2 (store.after history).1 := by
  induction history using List.reverseRecOn with
  | nil => exact law.empty
  | append_singleton history call ih =>
    rw [after_snoc]
    exact law.append call ih

theorem Law.serves (law : store.Law Names Covers Holds) {history : List Call}
    {sequence : Option Nat} {limit : Nat}
    (covers : Covers (store.after history).1 sequence limit) :
    store.Serves Names history sequence limit :=
  law.load sequence limit (law.after history) covers

end RawFeedStore

/-- Items that decode to what they stand for are loaded in full. -/
theorem forall₂_mapM {α β γ : Type} {R : α → β → Prop} {S : γ → β → Prop}
    {decode : α → Except EventStoreError γ} {first : List α} {second : List β}
    (related : List.Forall₂ R first second)
    (decodes : ∀ a b, R a b → ∃ c, decode a = .ok c ∧ S c b) :
    ∃ decoded, first.mapM decode = .ok decoded ∧ List.Forall₂ S decoded second := by
  induction related with
  | nil => exact ⟨[], rfl, .nil⟩
  | @cons a b first second head _ ih =>
    obtain ⟨c, decoded, same⟩ := decodes a b head
    obtain ⟨rest, later, sames⟩ := ih
    refine ⟨c :: rest, ?_, .cons same sames⟩
    rw [List.mapM_cons, bind_of_ok decoded, bind_of_ok later]
    rfl

end DddCqrsEs
