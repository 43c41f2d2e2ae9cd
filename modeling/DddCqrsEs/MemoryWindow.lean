import DddCqrsEs.PagedReplay
import DddCqrsEs.RawFeedStores

/- The window that a bounded read of the in-memory store cuts out of its list, in the machine
words that the indices are. -/
namespace DddCqrsEs

open Replay Paging

/-- What a program is compiled for: the bits of a `usize`, and whether an addition that
leaves it panics or wraps. -/
structure Build where
  width : Nat
  overflowChecks : Bool

/-- `None` is a panic. -/
def Build.add (build : Build) (first second : Nat) : Option Nat :=
  if first + second < 2 ^ build.width then some (first + second)
  else if build.overflowChecks then none
  else some ((first + second) % 2 ^ build.width)

structure NonZeroUsize (width : Nat) where
  get : Nat
  positive : 0 < get
  fits : get < 2 ^ width

/-- `items[start..finish]`, which panics where the range is none of the list. -/
def slice {α : Type} (items : List α) (start finish : Nat) : Option (List α) :=
  if start ≤ finish ∧ finish ≤ items.length then some ((items.take finish).drop start) else none

variable {A : Aggregate} {Json : Type}

namespace MemoryState

variable (build : Build) (state : MemoryState A)

def loadGlobalAfterLimitedOn (sequence : Option Nat) (limit : NonZeroUsize build.width) :
    Option (EventStream A) := do
  let start := state.firstIndexAfter sequence
  let stop ← build.add start limit.get
  slice state.global start (min state.global.length stop)

def loadRawGlobalAfterLimitedOn (serializer : RawSerializer A Json) (sequence : Option Nat)
    (limit : NonZeroUsize build.width) :
    Option (Except EventStoreError (List (EventEnvelope Json String))) := do
  let start := state.firstIndexAfter sequence
  let stop ← build.add start limit.get
  let window ← slice state.global start (min state.global.length stop)
  return window.mapM (rawEnvelope serializer)

/-- The pages from a cursor up to an empty one, one after the other, each read from the last
event of the page before it; at most so many pages. -/
def concatenatedPages (limit : NonZeroUsize build.width) :
    Nat → Option Nat → Option (EventStream A)
  | 0, _ => some []
  | pages + 1, cursor => do
      let page ← state.loadGlobalAfterLimitedOn build cursor limit
      match page.getLast? with
      | none => return []
      | some last => return page ++ (← concatenatedPages limit pages last.sequence)

theorem firstIndexAfter_le (sequence : Option Nat) :
    state.firstIndexAfter sequence ≤ state.global.length := by
  cases sequence with
  | none => exact Nat.zero_le _
  | some checkpoint =>
    rw [firstIndexAfter, partitionPoint]
    exact (List.takeWhile_prefix _).length_le

variable {build state} {cursor sequence : Option Nat} {limit : NonZeroUsize build.width}
  {log : EventLog A}

theorem loadGlobalAfter_nil (none : state.loadGlobalAfter cursor = []) :
    state.firstIndexAfter cursor = state.global.length := by
  have within := firstIndexAfter_le state cursor
  have cut := List.drop_eq_nil_iff.mp none
  omega

/-- The window on unbounded numbers is the front of the unbounded read. -/
theorem loadGlobalAfterLimited_eq_take (sequence : Option Nat) (limit : Nat) :
    state.loadGlobalAfterLimited sequence limit = (state.loadGlobalAfter sequence).take limit := by
  have start := firstIndexAfter_le state sequence
  rw [loadGlobalAfterLimited, loadGlobalAfter, List.drop_take, List.take_eq_take_iff,
    List.length_drop]
  omega

/-- Within the word the window is the one on unbounded numbers. -/
theorem slice_window (within : state.firstIndexAfter sequence + limit.get < 2 ^ build.width) :
    (build.add (state.firstIndexAfter sequence) limit.get).bind (fun stop =>
      slice state.global (state.firstIndexAfter sequence) (min state.global.length stop)) =
      some (state.loadGlobalAfterLimited sequence limit.get) := by
  have start := firstIndexAfter_le state sequence
  rw [Build.add, if_pos within, Option.bind_some, slice, if_pos (by omega)]
  rfl

/-- Beyond the word the window panics: the addition, or else the range that has wrapped. -/
theorem slice_overflow (beyond : ¬state.firstIndexAfter sequence + limit.get < 2 ^ build.width) :
    (build.add (state.firstIndexAfter sequence) limit.get).bind (fun stop =>
      slice state.global (state.firstIndexAfter sequence) (min state.global.length stop)) =
      none := by
  rw [Build.add, if_neg beyond]
  cases build.overflowChecks with
  | true => rfl
  | false =>
    have fits := limit.fits
    have wrapped : (state.firstIndexAfter sequence + limit.get) % 2 ^ build.width <
        state.firstIndexAfter sequence := by
      have positive : 0 < 2 ^ build.width := Nat.two_pow_pos _
      rw [Nat.mod_eq_sub_mod (by omega)]
      exact Nat.lt_of_le_of_lt (Nat.mod_le _ _) (by omega)
    rw [if_neg Bool.false_ne_true, Option.bind_some, slice, if_neg (by omega)]

theorem loadGlobalAfterLimitedOn_iff (sequence : Option Nat) (limit : NonZeroUsize build.width) :
    state.loadGlobalAfterLimitedOn build sequence limit =
        some ((state.loadGlobalAfter sequence).take limit.get) ↔
      state.firstIndexAfter sequence + limit.get < 2 ^ build.width := by
  constructor
  · intro exact
    by_contra beyond
    have panics := slice_overflow beyond
    rw [loadGlobalAfterLimitedOn] at exact
    exact Option.some_ne_none _ (exact.symm.trans panics)
  · intro within
    rw [← loadGlobalAfterLimited_eq_take]
    exact slice_window within

theorem loadRawGlobalAfterLimitedOn_eq (serializer : RawSerializer A Json) (sequence : Option Nat)
    (limit : NonZeroUsize build.width) :
    state.loadRawGlobalAfterLimitedOn build serializer sequence limit =
      (state.loadGlobalAfterLimitedOn build sequence limit).map
        (fun window => window.mapM (rawEnvelope serializer)) := by
  rw [loadRawGlobalAfterLimitedOn, loadGlobalAfterLimitedOn]
  cases build.add (state.firstIndexAfter sequence) limit.get with
  | none => rfl
  | some stop =>
    show (slice _ _ _).bind _ = (slice _ _ _).map _
    rw [Option.map_eq_bind]
    rfl

/-- What a numbered list of events is as a feed. -/
theorem wellFormed_of_numbered {events : EventStream A} {first : Nat}
    (numbered : events.map (·.sequence) = (List.range' first events.length).map some) :
    WellFormedFeed events := by
  have sequenced : ∀ event ∈ events, event.sequence = some (sequenceOf event) := by
    intro event member
    have listed := List.mem_map_of_mem (f := (·.sequence)) member
    rw [numbered, List.mem_map] at listed
    obtain ⟨sequence, _, same⟩ := listed
    rw [sequenceOf, ← same]
    rfl
  refine ⟨sequenced, ?_⟩
  have sequences : events.map sequenceOf = List.range' first events.length := by
    have placed := congrArg (List.map (fun sequence : Option Nat => sequence.getD 0)) numbered
    rw [List.map_map, List.map_map] at placed
    exact placed.trans (List.map_id _)
  apply List.pairwise_map.mp
  rw [sequences]
  exact List.pairwise_lt_range'

variable [DecidableEq A.Id]

theorem Represents.numbered (represents : Represents state log) :
    state.global.map (·.sequence) = (List.range' 1 state.global.length).map some := by
  rw [represents.global, EventLog.envelopes_length]
  exact EventLog.envelopes_sequences log

/-- The unbounded read is what lies beyond the cursor. -/
theorem Represents.loadGlobalAfter (represents : Represents state log) (cursor : Option Nat) :
    state.loadGlobalAfter cursor = beyond sequenceOf state.global cursor := by
  cases cursor with
  | none => exact (List.filter_eq_self.mpr (fun _ _ => rfl)).symm
  | some checkpoint => exact drop_partitionPoint checkpoint represents.numbered

theorem bind_take_append_iff {α : Type} (rest : Option (List α)) (items : List α) (size : Nat) :
    rest.bind (fun later => some (items.take size ++ later)) = some items ↔
      rest = some (items.drop size) := by
  cases rest with
  | none => exact iff_of_false (Option.some_ne_none items).symm (Option.some_ne_none _).symm
  | some later =>
    rw [Option.bind_some, Option.some.injEq, Option.some.injEq]
    conv_lhs => rhs; rw [← List.take_append_drop size items]
    exact List.append_right_inj _

/-- The pages add up to the unbounded read, where the last window stays within the word. -/
theorem Represents.concatenatedPages (represents : Represents state log) {pages : Nat}
    (enough : (state.loadGlobalAfter cursor).length < pages) :
    state.concatenatedPages build limit pages cursor = some (state.loadGlobalAfter cursor) ↔
      state.global.length + limit.get < 2 ^ build.width := by
  induction pages generalizing cursor with
  | zero => omega
  | succ pages ih =>
    rw [MemoryState.concatenatedPages]
    have start := firstIndexAfter_le state cursor
    by_cases within : state.firstIndexAfter cursor + limit.get < 2 ^ build.width
    · have loaded := (loadGlobalAfterLimitedOn_iff cursor limit).mpr within
      rw [loaded, Option.bind_eq_bind, Option.bind_some]
      have positive := limit.positive
      cases ended : ((state.loadGlobalAfter cursor).take limit.get).getLast? with
      | none =>
        have none : state.loadGlobalAfter cursor = [] := by
          rw [List.getLast?_eq_none_iff, List.take_eq_nil_iff] at ended
          exact ended.resolve_left (by omega)
        rw [loadGlobalAfter_nil none] at within
        rw [none]
        exact iff_of_true rfl within
      | some last =>
        have feed := wellFormed_of_numbered represents.numbered
        rw [represents.loadGlobalAfter] at ended
        have listed := mem_beyond.mp (List.mem_of_mem_take (List.mem_of_getLast? ended))
        have rest := after_page feed.increasing ended
        have next : state.loadGlobalAfter last.sequence =
            (state.loadGlobalAfter cursor).drop limit.get := by
          rw [feed.sequenced last listed.1, represents.loadGlobalAfter, rest,
            represents.loadGlobalAfter]
        have some : state.loadGlobalAfter cursor ≠ [] := by
          intro empty
          rw [← represents.loadGlobalAfter, empty, List.take_nil] at ended
          cases ended
        have fewer : (state.loadGlobalAfter last.sequence).length < pages := by
          have counted := List.length_pos_of_ne_nil some
          rw [next, List.length_drop]
          omega
        rw [← ih fewer, next]
        exact bind_take_append_iff _ _ _
    · have panics : state.loadGlobalAfterLimitedOn build cursor limit = none :=
        slice_overflow within
      rw [panics]
      constructor
      · intro impossible
        cases impossible
      · intro room
        omega

/-- A bounded read returns the first events of the unbounded one exactly where the end of its
window is a machine word, and it panics elsewhere. -/
theorem memoryWindow_iff (A : Aggregate) [DecidableEq A.Id] {Json : Type}
    (serializer : RawSerializer A Json) (build : Build) (state : MemoryState A)
    (reached : (memoryStore A).Reachable state) (sequence : Option Nat)
    (limit : NonZeroUsize build.width) :
    (state.loadGlobalAfterLimitedOn build sequence limit =
        some ((state.loadGlobalAfter sequence).take limit.get) ↔
      state.firstIndexAfter sequence + limit.get < 2 ^ build.width) ∧
    (state.loadRawGlobalAfterLimitedOn build serializer sequence limit =
        some (((state.loadGlobalAfter sequence).take limit.get).mapM (rawEnvelope serializer)) ↔
      state.firstIndexAfter sequence + limit.get < 2 ^ build.width) ∧
    ∀ pages, (state.loadGlobalAfter sequence).length < pages →
      (state.concatenatedPages build limit pages sequence = some (state.loadGlobalAfter sequence) ↔
        state.global.length + limit.get < 2 ^ build.width) := by
  obtain ⟨log, represents⟩ := reachable_represents reached
  refine ⟨loadGlobalAfterLimitedOn_iff sequence limit, ?_,
    fun pages enough => represents.concatenatedPages enough⟩
  rw [loadRawGlobalAfterLimitedOn_eq]
  by_cases within : state.firstIndexAfter sequence + limit.get < 2 ^ build.width
  · rw [(loadGlobalAfterLimitedOn_iff sequence limit).mpr within]
    exact iff_of_true rfl within
  · have panics : state.loadGlobalAfterLimitedOn build sequence limit = none :=
      slice_overflow within
    rw [panics]
    exact iff_of_false (Option.some_ne_none _).symm within

/-- A store with one event. -/
def oneEvent : MemoryState .account :=
  (MemoryOp.append "a" .noStream [(⟨(), "account_opened", 1, .empty⟩, ⟨"e1", 0⟩)]).execute .new

theorem oneEvent_reachable : (memoryStore .account).Reachable oneEvent :=
  .step (.start rfl) rfl

def maxUsize : NonZeroUsize 64 := ⟨2 ^ 64 - 1, by decide, by decide⟩

/-- A read past the only event, with the greatest limit there is, panics in both builds. -/
theorem maxLimit_panics :
    (memoryStore .account).Reachable oneEvent ∧ oneEvent.loadGlobalAfter (some 1) = [] ∧
      oneEvent.loadGlobalAfterLimitedOn ⟨64, true⟩ (some 1) maxUsize = none ∧
      oneEvent.loadGlobalAfterLimitedOn ⟨64, false⟩ (some 1) maxUsize = none ∧
      oneEvent.loadRawGlobalAfterLimitedOn ⟨64, false⟩ accountSerializer (some 1) maxUsize = none :=
  ⟨oneEvent_reachable, rfl, rfl, rfl, rfl⟩

/-- Five events of two accounts. -/
def fiveEvents : List (MemoryOp .account) :=
  [.append "a" .noStream [accountEvent "e1"],
    .append "b" .any [accountEvent "f1", accountEvent "f2"],
    .append "a" (.exact 1) [accountEvent "e2", accountEvent "e3"]]

/-- Two events at a time from behind the first one, where a `usize` has 32 bits. -/
theorem memoryWindow_iff_fiveEvents :
    ∃ state, (memoryStore .account).run .new fiveEvents = some state ∧
      (state.loadGlobalAfter (some 1)).map (·.eventId) = ["f1", "f2", "e2", "e3"] ∧
      state.loadGlobalAfterLimitedOn ⟨32, false⟩ (some 1) ⟨2, by decide, by decide⟩ =
        some ((state.loadGlobalAfter (some 1)).take 2) ∧
      state.loadRawGlobalAfterLimitedOn ⟨32, false⟩ accountSerializer (some 1)
          ⟨2, by decide, by decide⟩ =
        some (((state.loadGlobalAfter (some 1)).take 2).mapM (rawEnvelope accountSerializer)) ∧
      state.concatenatedPages ⟨32, false⟩ ⟨2, by decide, by decide⟩ 5 (some 1) =
        some (state.loadGlobalAfter (some 1)) := by
  have ran : (memoryStore .account).run .new fiveEvents = some _ := rfl
  obtain ⟨typed, raw, pages⟩ := memoryWindow_iff .account accountSerializer ⟨32, false⟩ _
    ((Transition.Machine.Reachable.start rfl).run ran) (some 1) ⟨2, by decide, by decide⟩
  exact ⟨_, ran, rfl, typed.mpr (by decide), raw.mpr (by decide),
    (pages 5 (by decide)).mpr (by decide)⟩

end MemoryState

end DddCqrsEs
