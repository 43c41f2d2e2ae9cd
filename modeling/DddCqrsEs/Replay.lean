import Mathlib.Data.List.Basic
import Mathlib.Data.List.Nodup
import Mathlib.Tactic.TypeStar

/- At-least-once replay of a growing feed from a checkpoint. The trace records what the
consumer did; one advance applies a slice of the feed above the checkpoint and then
either moves the checkpoint to its end or records that it could not. -/
namespace Replay

/-- What a consumer's trace records: an event it applied, a failure to make progress
durable, or anything else. -/
inductive Mark (ε : Type*) where
  | applied (event : ε)
  | failure
  | neutral
  deriving DecidableEq

variable {ε : Type*}

def Mark.event? : Mark ε → Option ε
  | .applied event => some event
  | _ => none

/-- The applied events of a trace, oldest first. -/
def applied (trace : List (Mark ε)) : List ε := trace.filterMap Mark.event?

@[simp] theorem applied_nil : applied ([] : List (Mark ε)) = [] := rfl

@[simp] theorem applied_append (first second : List (Mark ε)) :
    applied (first ++ second) = applied first ++ applied second :=
  List.filterMap_append

@[simp] theorem applied_map_applied (events : List ε) :
    applied (events.map Mark.applied) = events := by
  induction events with
  | nil => rfl
  | cons event rest ih =>
    rw [List.map_cons, applied, List.filterMap_cons]
    exact congrArg (List.cons event) ih

theorem mem_applied (trace : List (Mark ε)) (event : ε) :
    event ∈ applied trace ↔ Mark.applied event ∈ trace := by
  rw [applied, List.mem_filterMap]
  constructor
  · rintro ⟨mark, member, found⟩
    cases mark <;> cases found
    exact member
  · intro member
    exact ⟨_, member, rfl⟩

/-- Whether a sequence lies beyond a checkpoint. -/
def above (checkpoint : Option Nat) (sequence : Nat) : Bool :=
  checkpoint.all (· < sequence)

@[simp] theorem above_none (sequence : Nat) : above none sequence = true := rfl

@[simp] theorem above_some (checkpoint sequence : Nat) :
    above (some checkpoint) sequence = decide (checkpoint < sequence) := rfl

theorem above_mono {checkpoint : Option Nat} {lower upper : Nat}
    (beyond : above checkpoint lower = true) (ordered : lower ≤ upper) :
    above checkpoint upper = true := by
  cases checkpoint with
  | none => rfl
  | some value =>
    simp only [above_some, decide_eq_true_eq] at beyond ⊢
    omega

structure Snapshot (ε : Type*) where
  feed : List ε
  checkpoint : Option Nat
  trace : List (Mark ε)

variable (sequence : ε → Nat)

/-- One pass over the feed: a slice above the checkpoint is applied, and the checkpoint
moves to the slice's end unless the slice is empty or a failure is recorded after it. -/
structure Pass (before after : Snapshot ε) (batch : List ε) (tail : List (Mark ε)) : Prop where
  grown : before.feed <+: after.feed
  slice : batch <+: after.feed.filter (fun event => above before.checkpoint (sequence event))
  traced : after.trace = before.trace ++ batch.map Mark.applied ++ tail
  quiet : applied tail = []
  moved : (∃ last, batch.getLast? = some last ∧ after.checkpoint = some (sequence last)) ∨
    (after.checkpoint = before.checkpoint ∧ (batch = [] ∨ Mark.failure ∈ tail))

def Advance (before after : Snapshot ε) : Prop :=
  ∃ batch tail, Pass sequence before after batch tail

def Increasing (feed : List ε) : Prop :=
  feed.Pairwise (fun earlier later => sequence earlier < sequence later)

/-- What a consumer may rely on at any time. -/
structure Sound (snapshot : Snapshot ε) : Prop where
  /-- First applications happen in feed order without a gap. -/
  inOrder : ((applied snapshot.trace).map sequence).eraseDups <+: snapshot.feed.map sequence
  /-- Every event at or below the checkpoint has been applied. -/
  covered : ∀ event ∈ snapshot.feed,
    above snapshot.checkpoint (sequence event) = false → event ∈ applied snapshot.trace
  /-- The checkpoint never passes the last applied event. -/
  bounded : ∀ checkpoint, snapshot.checkpoint = some checkpoint →
    ∃ event, (applied snapshot.trace).getLast? = some event ∧ checkpoint ≤ sequence event
  /-- Between two applications of one event lies a failure. -/
  repeated : ∀ (i j : Nat) (earlier later : ε), i < j →
    snapshot.trace[i]? = some (Mark.applied earlier) →
    snapshot.trace[j]? = some (Mark.applied later) → sequence earlier = sequence later →
    ∃ k, i < k ∧ k < j ∧ snapshot.trace[k]? = some Mark.failure

/-- The inductive strengthening of `Sound`. -/
structure Invariant (snapshot : Snapshot ε) : Prop extends Sound sequence snapshot where
  increasing : Increasing sequence snapshot.feed
  known : ∀ event ∈ applied snapshot.trace, event ∈ snapshot.feed
  /-- An applied event beyond the checkpoint is followed by a failure. -/
  pending : ∀ (i : Nat) (event : ε), snapshot.trace[i]? = some (Mark.applied event) →
    above snapshot.checkpoint (sequence event) = true →
    ∃ k, i < k ∧ snapshot.trace[k]? = some Mark.failure

theorem initial_invariant {feed : List ε} (increasing : Increasing sequence feed) :
    Invariant sequence ⟨feed, none, []⟩ where
  inOrder := by simp
  covered := by simp
  bounded := by simp
  repeated := by simp
  increasing := increasing
  known := by simp
  pending := by simp

variable {sequence}

/-- A feed in increasing order splits at the checkpoint. -/
theorem filter_above_split {feed : List ε} (increasing : Increasing sequence feed)
    (checkpoint : Option Nat) :
    feed = feed.filter (fun event => !above checkpoint (sequence event)) ++
      feed.filter (fun event => above checkpoint (sequence event)) := by
  induction feed with
  | nil => rfl
  | cons event rest ih =>
    obtain ⟨head, tail⟩ := List.pairwise_cons.mp increasing
    cases beyond : above checkpoint (sequence event) with
    | true =>
      have all : ∀ later ∈ rest, above checkpoint (sequence later) = true := by
        intro later member
        exact above_mono beyond (Nat.le_of_lt (head later member))
      have low : rest.filter (fun event => !above checkpoint (sequence event)) = [] := by
        rw [List.filter_eq_nil_iff]
        intro later member
        simp [all later member]
      have high : rest.filter (fun event => above checkpoint (sequence event)) = rest :=
        List.filter_eq_self.mpr all
      simp [beyond, low, high]
    | false => simpa [beyond] using ih tail

/-- Extending a prefix of a list by the new items of a slice that starts inside or right
after the prefix gives a prefix again. -/
theorem prefix_extend {known lower batch whole : List Nat} (nodup : whole.Nodup)
    (start : known <+: whole) (slice : lower ++ batch <+: whole) (seen : lower ⊆ known) :
    known ++ batch.filter (fun item => item ∉ known) <+: whole := by
  rcases List.prefix_or_prefix_of_prefix start slice with short | long
  · rcases List.prefix_or_prefix_of_prefix short (List.prefix_append lower batch) with
      inside | reaches
    · -- everything below the slice is already known
      obtain ⟨gap, rfl⟩ := inside
      have distinct : (known ++ gap).Nodup :=
        (nodup.sublist slice.sublist).sublist (List.sublist_append_left _ _)
      have none : gap = [] := by
        rw [List.eq_nil_iff_forall_not_mem]
        intro item member
        exact List.disjoint_of_nodup_append distinct
          (seen (List.mem_append_right _ member)) member
      subst none
      rw [List.append_nil] at slice distinct
      have fresh : batch.filter (fun item => item ∉ known) = batch := by
        rw [List.filter_eq_self]
        intro item member
        have apart := List.disjoint_of_nodup_append (nodup.sublist slice.sublist)
        simpa using fun earlier => apart earlier member
      rwa [fresh]
    · -- the known prefix ends inside the slice
      obtain ⟨part, rfl⟩ := reaches
      rw [List.prefix_append_right_inj] at short
      obtain ⟨rest, rfl⟩ := short
      have distinct := nodup.sublist slice.sublist
      rw [← List.append_assoc] at distinct slice
      have old : part.filter (fun item => item ∉ lower ++ part) = [] := by
        rw [List.filter_eq_nil_iff]
        intro item member
        simp [member]
      have fresh : rest.filter (fun item => item ∉ lower ++ part) = rest := by
        rw [List.filter_eq_self]
        intro item member
        have apart := List.disjoint_of_nodup_append distinct
        simpa using fun earlier => apart earlier member
      rwa [List.filter_append, old, fresh, List.nil_append]
  · have old : batch.filter (fun item => item ∉ known) = [] := by
      rw [List.filter_eq_nil_iff]
      intro item member
      simp [long.subset (List.mem_append_right _ member)]
    rwa [old, List.append_nil]

/-- Where a recorded application sits after an advance: in the old trace or in the batch. -/
theorem applied_place {marks tail : List (Mark ε)} {batch : List ε} (quiet : applied tail = [])
    {i : Nat} {event : ε}
    (recorded : (marks ++ batch.map Mark.applied ++ tail)[i]? = some (Mark.applied event)) :
    marks[i]? = some (Mark.applied event) ∨
      (marks.length ≤ i ∧ batch[i - marks.length]? = some event) := by
  rcases Nat.lt_or_ge i marks.length with old | recent
  · rw [List.append_assoc, List.getElem?_append_left old] at recorded
    exact Or.inl recorded
  · rw [List.append_assoc, List.getElem?_append_right recent] at recorded
    rcases Nat.lt_or_ge (i - marks.length) batch.length with inside | past
    · rw [List.getElem?_append_left (by simpa using inside), List.getElem?_map] at recorded
      obtain ⟨_, found, same⟩ := Option.map_eq_some_iff.mp recorded
      cases same
      exact Or.inr ⟨recent, found⟩
    · rw [List.getElem?_append_right (by simpa using past)] at recorded
      have member := (mem_applied tail event).mpr (List.mem_of_getElem? recorded)
      rw [quiet] at member
      cases member

theorem eraseDups_of_nodup {α : Type*} [BEq α] [LawfulBEq α] {items : List α}
    (distinct : items.Nodup) : items.eraseDups = items := by
  induction items with
  | nil => rfl
  | cons item rest ih =>
    obtain ⟨fresh, distinct⟩ := List.nodup_cons.mp distinct
    have kept : rest.filter (fun other => !other == item) = rest := by
      rw [List.filter_eq_self]
      intro other member
      simpa using fun same : other = item => fresh (same ▸ member)
    rw [List.eraseDups_cons, kept, ih distinct]

theorem removeAll_eq_filter {α : Type*} [DecidableEq α] (items seen : List α) :
    items.removeAll seen = items.filter (fun item => item ∉ seen.eraseDups) := by
  rw [List.removeAll]
  congr 1
  funext item
  simp [List.mem_eraseDups]

/-- The last event of an increasing list has the greatest sequence. -/
theorem Increasing.le_last {events : List ε} (increasing : Increasing sequence events)
    {event last : ε} (member : event ∈ events) (final : events.getLast? = some last) :
    sequence event ≤ sequence last := by
  obtain ⟨front, rfl⟩ := List.getLast?_eq_some_iff.mp final
  rcases List.mem_append.mp member with earlier | same
  · exact Nat.le_of_lt ((List.pairwise_append.mp increasing).2.2 event earlier last
      (List.mem_singleton_self last))
  · exact Nat.le_of_eq (congrArg sequence (List.mem_singleton.mp same))

namespace Pass

variable {before after : Snapshot ε} {batch : List ε} {tail : List (Mark ε)}

theorem history (pass : Pass sequence before after batch tail) :
    applied after.trace = applied before.trace ++ batch := by
  rw [pass.traced, applied_append, applied_append, applied_map_applied, pass.quiet,
    List.append_nil]

variable {event : ε} {i : Nat}

theorem fresh (pass : Pass sequence before after batch tail) (member : event ∈ batch) :
    above before.checkpoint (sequence event) = true := by
  simpa using List.of_mem_filter (pass.slice.subset member)

theorem ordered (pass : Pass sequence before after batch tail)
    (increasing : Increasing sequence after.feed) : Increasing sequence batch :=
  (increasing.filter _).sublist pass.slice.sublist

theorem known (pass : Pass sequence before after batch tail) (held : Invariant sequence before) :
    ∀ event ∈ applied after.trace, event ∈ after.feed := by
  intro event member
  rw [pass.history, List.mem_append] at member
  rcases member with old | recent
  · exact pass.grown.subset (held.known event old)
  · exact List.mem_of_mem_filter (pass.slice.subset recent)

/-- An event at or below the old checkpoint was in the feed all along. -/
theorem low (pass : Pass sequence before after batch tail) (held : Invariant sequence before)
    (increasing : Increasing sequence after.feed) (member : event ∈ after.feed)
    (under : above before.checkpoint (sequence event) = false) : event ∈ applied before.trace := by
  obtain ⟨added, appended⟩ := pass.grown
  rw [← appended, List.mem_append] at member
  rcases member with old | recent
  · exact held.covered event old under
  · cases reached : before.checkpoint with
    | none => simp [reached] at under
    | some checkpoint =>
      obtain ⟨last, final, bound⟩ := held.bounded checkpoint reached
      have present := held.known last (List.mem_of_getLast? final)
      rw [← appended] at increasing
      have later := (List.pairwise_append.mp increasing).2.2 last present event recent
      rw [reached, above_some, decide_eq_false_iff_not] at under
      omega

theorem inOrder (pass : Pass sequence before after batch tail) (held : Invariant sequence before)
    (increasing : Increasing sequence after.feed) :
    ((applied after.trace).map sequence).eraseDups <+: after.feed.map sequence := by
  have ascending : (after.feed.map sequence).Pairwise (· < ·) := List.pairwise_map.mpr increasing
  have distinct : (after.feed.map sequence).Nodup :=
    ascending.imp (fun less => Nat.ne_of_lt less)
  have start := held.inOrder.trans (pass.grown.map sequence)
  have chosen : (after.feed.filter (fun event => !above before.checkpoint (sequence event))).map
      sequence ++ batch.map sequence <+: after.feed.map sequence := by
    conv_rhs => rw [filter_above_split increasing before.checkpoint]
    rw [List.map_append, List.prefix_append_right_inj]
    exact pass.slice.map sequence
  have extended := prefix_extend distinct start chosen (by
    intro value member
    obtain ⟨event, lower, rfl⟩ := List.mem_map.mp member
    obtain ⟨present, under⟩ := List.mem_filter.mp lower
    rw [List.mem_eraseDups]
    exact List.mem_map_of_mem (pass.low held increasing present (by simpa using under)))
  have batchDistinct : (batch.map sequence).Nodup :=
    (List.pairwise_map.mpr (pass.ordered increasing)).imp (fun less => Nat.ne_of_lt less)
  rw [pass.history, List.map_append, List.eraseDups_append, removeAll_eq_filter,
    eraseDups_of_nodup (batchDistinct.filter _)]
  exact extended

theorem covered (pass : Pass sequence before after batch tail) (held : Invariant sequence before)
    (increasing : Increasing sequence after.feed) (member : event ∈ after.feed)
    (under : above after.checkpoint (sequence event) = false) : event ∈ applied after.trace := by
  rw [pass.history, List.mem_append]
  cases beyond : above before.checkpoint (sequence event) with
  | false => exact Or.inl (pass.low held increasing member beyond)
  | true =>
    rcases pass.moved with ⟨last, final, reached⟩ | ⟨same, _⟩
    · have upper : event ∈ after.feed.filter
          (fun event => above before.checkpoint (sequence event)) :=
        List.mem_filter.mpr ⟨member, beyond⟩
      obtain ⟨rest, appended⟩ := pass.slice
      have ordered := increasing.filter (fun event => above before.checkpoint (sequence event))
      rw [← appended] at upper ordered
      rcases List.mem_append.mp upper with inside | outside
      · exact Or.inr inside
      · have later := (List.pairwise_append.mp ordered).2.2 last
          (List.mem_of_getLast? final) event outside
        rw [reached, above_some, decide_eq_false_iff_not] at under
        omega
    · rw [same, beyond] at under
      cases under

theorem bounded (pass : Pass sequence before after batch tail) (held : Invariant sequence before)
    {checkpoint : Nat} (reached : after.checkpoint = some checkpoint) :
    ∃ event, (applied after.trace).getLast? = some event ∧ checkpoint ≤ sequence event := by
  rw [pass.history]
  rcases pass.moved with ⟨last, final, moved⟩ | ⟨same, _⟩
  · rw [moved] at reached
    cases reached
    exact ⟨last, by rw [List.getLast?_append, final]; rfl, Nat.le_refl _⟩
  · rw [same] at reached
    cases final : batch.getLast? with
    | none =>
      rw [List.getLast?_eq_none_iff] at final
      subst final
      simpa using held.bounded checkpoint reached
    | some last =>
      have later := pass.fresh (List.mem_of_getLast? final)
      rw [reached, above_some, decide_eq_true_eq] at later
      exact ⟨last, by rw [List.getLast?_append, final]; rfl, Nat.le_of_lt later⟩

/-- A record of the old trace is still where it was. -/
theorem kept (pass : Pass sequence before after batch tail) {mark : Mark ε}
    (recorded : before.trace[i]? = some mark) : after.trace[i]? = some mark := by
  obtain ⟨inside, _⟩ := List.getElem?_eq_some_iff.mp recorded
  rwa [pass.traced, List.append_assoc, List.getElem?_append_left inside]

theorem place (pass : Pass sequence before after batch tail)
    (recorded : after.trace[i]? = some (Mark.applied event)) :
    before.trace[i]? = some (Mark.applied event) ∨
      (before.trace.length ≤ i ∧ batch[i - before.trace.length]? = some event) :=
  applied_place pass.quiet (pass.traced ▸ recorded)

theorem repeated (pass : Pass sequence before after batch tail) (held : Invariant sequence before)
    (increasing : Increasing sequence after.feed) {j : Nat} {earlier later : ε} (before_j : i < j)
    (first : after.trace[i]? = some (Mark.applied earlier))
    (second : after.trace[j]? = some (Mark.applied later))
    (same : sequence earlier = sequence later) :
    ∃ k, i < k ∧ k < j ∧ after.trace[k]? = some Mark.failure := by
  rcases pass.place first with firstOld | ⟨firstRecent, here⟩
  · rcases pass.place second with secondOld | ⟨secondRecent, there⟩
    · obtain ⟨k, after_i, before_j, failed⟩ :=
        held.repeated i j earlier later before_j firstOld secondOld same
      exact ⟨k, after_i, before_j, pass.kept failed⟩
    · have beyond := pass.fresh (List.mem_of_getElem? there)
      rw [← same] at beyond
      obtain ⟨k, after_i, failed⟩ := held.pending i earlier firstOld beyond
      obtain ⟨inside, _⟩ := List.getElem?_eq_some_iff.mp failed
      exact ⟨k, after_i, by omega, pass.kept failed⟩
  · rcases pass.place second with secondOld | ⟨_, there⟩
    · obtain ⟨inside, _⟩ := List.getElem?_eq_some_iff.mp secondOld
      omega
    · -- a batch holds no event twice
      obtain ⟨firstInside, rfl⟩ := List.getElem?_eq_some_iff.mp here
      obtain ⟨secondInside, rfl⟩ := List.getElem?_eq_some_iff.mp there
      have less := List.pairwise_iff_getElem.mp (pass.ordered increasing) _ _
        firstInside secondInside (by omega)
      omega

theorem pending (pass : Pass sequence before after batch tail) (held : Invariant sequence before)
    (increasing : Increasing sequence after.feed)
    (recorded : after.trace[i]? = some (Mark.applied event))
    (beyond : above after.checkpoint (sequence event) = true) :
    ∃ k, i < k ∧ after.trace[k]? = some Mark.failure := by
  rcases pass.moved with ⟨last, final, reached⟩ | ⟨same, unsaved⟩
  · rw [reached, above_some, decide_eq_true_eq] at beyond
    rcases pass.place recorded with old | ⟨_, there⟩
    · have late := pass.fresh (List.mem_of_getLast? final)
      obtain ⟨k, after_i, failed⟩ := held.pending i event old
        (above_mono late (Nat.le_of_lt beyond))
      exact ⟨k, after_i, pass.kept failed⟩
    · have least := (pass.ordered increasing).le_last (List.mem_of_getElem? there) final
      omega
  · rw [same] at beyond
    rcases pass.place recorded with old | ⟨recent, there⟩
    · obtain ⟨k, after_i, failed⟩ := held.pending i event old beyond
      exact ⟨k, after_i, pass.kept failed⟩
    · rcases unsaved with rfl | failed
      · cases there
      · obtain ⟨place, inside, failed⟩ := List.getElem_of_mem failed
        obtain ⟨within, _⟩ := List.getElem?_eq_some_iff.mp there
        refine ⟨before.trace.length + batch.length + place, by omega, ?_⟩
        rw [pass.traced, List.getElem?_append_right (by simp)]
        simp [List.getElem?_eq_getElem inside, failed]

theorem invariant (pass : Pass sequence before after batch tail)
    (held : Invariant sequence before) (increasing : Increasing sequence after.feed) :
    Invariant sequence after where
  inOrder := pass.inOrder held increasing
  covered _ := pass.covered held increasing
  bounded _ := pass.bounded held
  repeated _ _ _ _ := pass.repeated held increasing
  increasing := increasing
  known := pass.known held
  pending _ _ := pass.pending held increasing

end Pass

variable {before after : Snapshot ε}

/-- A pass that ends before it applies anything. -/
theorem advance_idle (grown : before.feed <+: after.feed)
    (checkpoint : after.checkpoint = before.checkpoint) (traced : after.trace = before.trace) :
    Advance sequence before after :=
  ⟨[], [], grown, List.nil_prefix, by simp [traced], rfl, Or.inr ⟨checkpoint, Or.inl rfl⟩⟩

/-- Growth of the feed before a pass is part of the pass. -/
theorem Advance.after_idle {start : Snapshot ε} (advance : Advance sequence start after)
    (grown : before.feed <+: start.feed) (checkpoint : start.checkpoint = before.checkpoint)
    (traced : start.trace = before.trace) : Advance sequence before after := by
  obtain ⟨batch, tail, pass⟩ := advance
  refine ⟨batch, tail, grown.trans pass.grown, ?_, ?_, pass.quiet, ?_⟩
  · rw [← checkpoint]
    exact pass.slice
  · rw [← traced]
    exact pass.traced
  · rw [← checkpoint]
    exact pass.moved

variable (sequence) in
/-- How a whole call leaves the checkpoint: at the last applied event if the call applied
one and recorded no failure, and where it was if the call applied nothing. -/
def Settled (before after : Snapshot ε) : Prop :=
  ∃ added, after.trace = before.trace ++ added ∧
    (applied added = [] → after.checkpoint = before.checkpoint) ∧
    (Mark.failure ∉ added → applied added ≠ [] →
      after.checkpoint = (applied after.trace).getLast?.map sequence)

theorem Advance.settled (advance : Advance sequence before after) :
    Settled sequence before after := by
  obtain ⟨batch, tail, pass⟩ := advance
  refine ⟨batch.map Mark.applied ++ tail, by rw [pass.traced, List.append_assoc], ?_, ?_⟩
  · intro none
    rw [applied_append, applied_map_applied, pass.quiet, List.append_nil] at none
    rcases pass.moved with ⟨last, final, _⟩ | ⟨same, _⟩
    · simp [none] at final
    · exact same
  · intro clean some
    rw [applied_append, applied_map_applied, pass.quiet, List.append_nil] at some
    rw [pass.history]
    rcases pass.moved with ⟨last, final, reached⟩ | ⟨_, empty | failed⟩
    · rw [reached, List.getLast?_append, final]
      rfl
    · exact absurd empty some
    · exact absurd (List.mem_append_right _ failed) clean

theorem Settled.refl (snapshot : Snapshot ε) : Settled sequence snapshot snapshot :=
  ⟨[], by simp, fun _ => rfl, fun _ some => absurd rfl some⟩

theorem Settled.trans {first second third : Snapshot ε} (earlier : Settled sequence first second)
    (later : Settled sequence second third) : Settled sequence first third := by
  obtain ⟨front, fronted, frontIdle, frontMoved⟩ := earlier
  obtain ⟨back, backed, backIdle, backMoved⟩ := later
  refine ⟨front ++ back, by rw [backed, fronted, List.append_assoc], ?_, ?_⟩
  · intro idle
    rw [applied_append, List.append_eq_nil_iff] at idle
    rw [backIdle idle.2, frontIdle idle.1]
  · intro clean some
    rw [List.mem_append, not_or] at clean
    by_cases idle : applied back = []
    · rw [applied_append, idle, List.append_nil] at some
      rw [backIdle idle, frontMoved clean.1 some, backed, applied_append, idle, List.append_nil]
    · exact backMoved clean.2 idle

end Replay
