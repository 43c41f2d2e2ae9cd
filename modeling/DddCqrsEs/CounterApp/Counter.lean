import DddCqrsEs.AggregateRules

/- The counter aggregate: `i32` arithmetic that is checked where a command is handled and
saturates where an event is applied. -/
namespace DddCqrsEs.CounterApp

open Transition Evolution

inductive CounterCommand where
  | increment (amount : Int32)
  | decrement (amount : Int32)
  | reset
  deriving DecidableEq

inductive CounterEvent where
  | incremented (amount : Int32)
  | decremented (amount : Int32)
  | resetPerformed (value : Int32)
  deriving DecidableEq

def CounterEvent.eventType : CounterEvent → String
  | .incremented _ => "incremented"
  | .decremented _ => "decremented"
  | .resetPerformed _ => "reset_performed"

structure Counter where
  id : String
  value : Int32
  deriving DecidableEq

/-- Whether an integer is an `i32`. -/
def Fits (number : Int) : Prop := -2 ^ 31 ≤ number ∧ number < 2 ^ 31

instance (number : Int) : Decidable (Fits number) := inferInstanceAs (Decidable (_ ∧ _))

def saturatingAdd (value amount : Int32) : Int32 := .ofIntClamp (value.toInt + amount.toInt)

def saturatingSub (value amount : Int32) : Int32 := .ofIntClamp (value.toInt - amount.toInt)

def checkedAdd (value amount : Int32) : Option Int32 :=
  if Fits (value.toInt + amount.toInt) then some (value + amount) else none

def checkedSub (value amount : Int32) : Option Int32 :=
  if Fits (value.toInt - amount.toInt) then some (value - amount) else none

namespace Counter

def new : Counter := ⟨"", 0⟩

def apply (counter : Counter) : CounterEvent → Counter
  | .incremented amount => { counter with value := saturatingAdd counter.value amount }
  | .decremented amount => { counter with value := saturatingSub counter.value amount }
  | .resetPerformed value => { counter with value }

def handle (counter : Counter) : CounterCommand → Except String (List CounterEvent)
  | .increment amount =>
    if amount ≤ 0 then .error "amount to increment must be positive"
    else if checkedAdd counter.value amount = none then
      .error "increment would overflow integer boundary"
    else .ok [.incremented amount]
  | .decrement amount =>
    if amount ≤ 0 then .error "amount to decrement must be positive"
    else if checkedSub counter.value amount = none then
      .error "decrement would underflow integer boundary"
    else .ok [.decremented amount]
  | .reset => .ok [.resetPerformed 0]

end Counter

abbrev counter : Aggregate where
  Id := String
  Command := CounterCommand
  Event := CounterEvent
  Error := String
  State := Counter
  aggregateType := "counter"
  new := .new
  apply := Counter.apply
  handle := Counter.handle
  eventType := CounterEvent.eventType
  eventVersion _ := 1

/-- `Counter::replay`, which takes the id from the first event. -/
def Counter.replay (events : EventStream counter) : LoadedAggregate counter :=
  applyCommittedEvents ⟨⟨events.head?.elim "" (·.aggregateId), 0⟩, initialRevision⟩ events

def CounterEvent.exact (total : Int) : CounterEvent → Int
  | .incremented amount => total + amount.toInt
  | .decremented amount => total - amount.toInt
  | .resetPerformed value => value.toInt

def total (events : List CounterEvent) : Int := events.foldl CounterEvent.exact 0

theorem total_snoc (events : List CounterEvent) (event : CounterEvent) :
    total (events ++ [event]) = event.exact (total events) := by
  rw [total, List.foldl_append]
  rfl

/-- The event is applied without saturating. -/
def Counter.Exactly (counter : Counter) (event : CounterEvent) : Prop :=
  (counter.apply event).value.toInt = event.exact counter.value.toInt

theorem toInt_ofIntClamp {number : Int} (fits : Fits number) :
    (Int32.ofIntClamp number).toInt = number := by
  have lower : Int32.minValue.toInt ≤ number := fits.1
  have upper : number ≤ Int32.maxValue.toInt := Int.le_of_lt_add_one fits.2
  have same : Int32.ofIntLE number lower upper = Int32.ofIntClamp number :=
    Int32.ofIntLE_eq_ofIntClamp
  rw [← same, Int32.toInt_ofIntLE]

theorem checkedAdd_eq_none {value amount : Int32} :
    checkedAdd value amount = none ↔ ¬ Fits (value.toInt + amount.toInt) := by
  simp [checkedAdd]

theorem checkedSub_eq_none {value amount : Int32} :
    checkedSub value amount = none ↔ ¬ Fits (value.toInt - amount.toInt) := by
  simp [checkedSub]

/-- What a command does where it is accepted. -/
def CounterCommand.event : CounterCommand → CounterEvent
  | .increment amount => .incremented amount
  | .decrement amount => .decremented amount
  | .reset => .resetPerformed 0

/-- A command is accepted exactly when its amount is positive and the exact result fits. -/
def Counter.Accepts (counter : Counter) : CounterCommand → Prop
  | .increment amount => 0 < amount.toInt ∧ Fits (counter.value.toInt + amount.toInt)
  | .decrement amount => 0 < amount.toInt ∧ Fits (counter.value.toInt - amount.toInt)
  | .reset => True

theorem amount_le_zero {amount : Int32} : amount ≤ 0 ↔ ¬ 0 < amount.toInt := by
  rw [Int32.le_iff_toInt_le, Int.not_lt]
  exact Iff.rfl

theorem Counter.handle_ok_iff (counter : Counter) (command : CounterCommand)
    (events : List CounterEvent) :
    counter.handle command = .ok events ↔ counter.Accepts command ∧ events = [command.event] := by
  cases command with
  | increment amount =>
    simp only [handle, checkedAdd_eq_none, amount_le_zero, Accepts, CounterCommand.event]
    by_cases positive : 0 < amount.toInt
    · by_cases fits : Fits (counter.value.toInt + amount.toInt)
      · simp [positive, fits, eq_comm]
      · simp [positive, fits]
    · simp [positive]
  | decrement amount =>
    simp only [handle, checkedSub_eq_none, amount_le_zero, Accepts, CounterCommand.event]
    by_cases positive : 0 < amount.toInt
    · by_cases fits : Fits (counter.value.toInt - amount.toInt)
      · simp [positive, fits, eq_comm]
      · simp [positive, fits]
    · simp [positive]
  | reset => simp [handle, Accepts, CounterCommand.event, eq_comm]

theorem Counter.Accepts.exactly {counter : Counter} {command : CounterCommand}
    (accepts : counter.Accepts command) : counter.Exactly command.event := by
  cases command with
  | increment amount => exact toInt_ofIntClamp accepts.2
  | decrement amount => exact toInt_ofIntClamp accepts.2
  | reset => rfl

theorem counter_keeps : counter.Keeps (fun _ => True) Counter.Exactly where
  new := trivial
  handle state command events _ decided := by
    obtain ⟨accepts, rfl⟩ := (Counter.handle_ok_iff state command events).mp decided
    exact ⟨trivial, accepts.exactly, trivial⟩

/-- Events that are applied without saturating lead to their exact total. -/
theorem toInt_of_sound {state : Counter} {events : List CounterEvent}
    (holds : Sound Counter.apply (fun _ => True) Counter.Exactly state events) :
    (events.foldl Counter.apply state).value.toInt =
      events.foldl CounterEvent.exact state.value.toInt := by
  induction events generalizing state with
  | nil => rfl
  | cons event rest ih =>
    rw [List.foldl_cons, List.foldl_cons, ih holds.2.2, holds.2.1]

theorem replay_value {events : EventStream counter}
    (holds : Sound counter.apply (fun _ => True) Counter.Exactly counter.new
      (events.map (·.payload))) :
    (DddCqrsEs.replay events).state.value.toInt = total (events.map (·.payload)) := by
  rw [replay_state]
  exact toInt_of_sound holds

/-- The counter's own replay differs from the common one in the id only. -/
theorem Counter.replay_eq (events : EventStream counter) :
    Counter.replay events =
      ⟨⟨events.head?.elim "" (·.aggregateId), (DddCqrsEs.replay events).state.value⟩,
        (DddCqrsEs.replay events).revision⟩ := by
  have moved (id : String) (loaded : LoadedAggregate counter) :
      applyCommittedEvents (A := counter) ⟨⟨id, loaded.state.value⟩, loaded.revision⟩ events =
        ⟨⟨id, (applyCommittedEvents loaded events).state.value⟩,
          (applyCommittedEvents loaded events).revision⟩ := by
    induction events generalizing loaded with
    | nil => rfl
    | cons event rest ih =>
      have one : Counter.apply ⟨id, loaded.state.value⟩ event.payload =
          ⟨id, (Counter.apply loaded.state event.payload).value⟩ := by
        cases event.payload <;> rfl
      have later := ih ⟨Counter.apply loaded.state event.payload, event.revision⟩
      rw [← one] at later
      exact later
  exact moved _ ⟨Counter.new, initialRevision⟩

/-- However many clients command one counter at once, every value that a replay shows, of the
whole stream or of any earlier part of it, is the exact total of the events up to there: no
event ever saturates. Each accepted command is one event, and the value it returns is the total
up to that event. -/
theorem counter_exact (run : RepositoryRun counter)
    (reached : (repositoryClients counter).Reachable run) (aggregateId : String) :
    ∃ stream, run.store.load aggregateId = some stream ∧
      (∀ earlier, earlier <+: stream →
        (Counter.replay earlier).state.value.toInt = total (earlier.map (·.payload)) ∧
        (Counter.replay earlier).revision = earlier.length ∧
        (Counter.replay earlier).state.id = if earlier = [] then "" else aggregateId) ∧
      ∀ before batch after, run.executedOn aggregateId = before ++ batch :: after →
        batch.committed.map (·.payload) = [batch.call.command.event] ∧
        ∀ updated, batch.updated = some updated → updated.state.value.toInt =
          total (((before ++ [batch]).flatMap ExecutedBatch.committed).map (·.payload)) := by
  obtain ⟨stream, loaded, batches, holds, named, revisions⟩ :=
    counter_keeps.streams reached aggregateId
  refine ⟨stream, loaded, fun earlier isPrefix => ?_, fun before batch after split => ?_⟩
  · obtain ⟨later, rfl⟩ := isPrefix
    rw [List.map_append, sound_append] at holds
    rw [Counter.replay_eq, replay_value holds.1, revisions earlier (List.prefix_append _ _)]
    refine ⟨rfl, rfl, ?_⟩
    cases earlier with
    | nil => rfl
    | cons event rest => exact named event (by simp)
  · obtain ⟨log, held⟩ := RepositoryRun.reachable_invariant reached
    have own := held.decidedOn split
    have payloads := (Counter.handle_ok_iff _ _ _).mp own.payloads
    refine ⟨payloads.2, fun updated returned => ?_⟩
    rw [split, List.flatMap_append, List.flatMap_cons, ← List.append_assoc] at batches
    rw [batches, List.map_append, sound_append] at holds
    rw [own.state updated returned, List.flatMap_append]
    simpa using replay_value holds.1

/-- Two clients load a counter at its largest value less one; the second to append is refused. -/
def raceToTheTop : List (RepositoryAction counter) :=
  [.load 0 ⟨"global", .increment 2147483646, .empty, true⟩, .append 0 (fun _ => ⟨"e1", 0⟩),
    .load 0 ⟨"global", .increment 1, .empty, true⟩, .load 1 ⟨"global", .increment 1, .empty, true⟩,
    .append 1 (fun _ => ⟨"e2", 0⟩), .append 0 (fun _ => ⟨"e3", 0⟩),
    .load 0 ⟨"global", .increment 1, .empty, true⟩]

theorem counter_exact_at_the_top :
    ∃ run, (repositoryClients counter).run ⟨.new, fun _ => none, []⟩ raceToTheTop = some run ∧
      ∃ stream, run.store.load "global" = some stream ∧ stream.length = 2 ∧
        (Counter.replay stream).state.value.toInt = total (stream.map (·.payload)) := by
  have some_run : ((repositoryClients counter).run ⟨.new, fun _ => none, []⟩ raceToTheTop).isSome :=
    rfl
  obtain ⟨run, ran⟩ := Option.isSome_iff_exists.mp some_run
  have two : ((repositoryClients counter).run ⟨.new, fun _ => none, []⟩ raceToTheTop).map
      (fun run => (run.store.load "global").map List.length) = some (some 2) := rfl
  obtain ⟨stream, loaded, exact, _⟩ :=
    counter_exact run ((Machine.Reachable.start rfl).run ran) "global"
  rw [ran, Option.map_some, loaded] at two
  exact ⟨run, ran, stream, loaded, by simpa using two, (exact stream List.prefix_rfl).1⟩

end DddCqrsEs.CounterApp
