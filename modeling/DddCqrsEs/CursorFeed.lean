import DddCqrsEs.Replay
import Mathlib.Data.List.Sort

/- A consumer that polls a feed of numbered items from a checkpoint, while items become
visible in any order. Nothing here names an application. -/
namespace CursorFeed

open Replay

/-- A poll in progress: the items read and not yet applied, the sequence of the last item it
applied, and the items that became visible since the read. -/
structure Poll (ε : Type*) where
  pending : List ε
  last : Option Nat
  since : List ε

structure Feed (ε : Type*) where
  visible : List ε
  applied : List ε
  checkpoint : Option Nat
  poll : Option (Poll ε)

variable {ε : Type*}

namespace Feed

def publish (feed : Feed ε) (items : List ε) : Feed ε :=
  { feed with
    visible := feed.visible ++ items
    poll := feed.poll.map (fun poll => { poll with since := poll.since ++ items }) }

def apply (feed : Feed ε) (item : ε) (rest : List ε) (since : List ε) (sequence : Nat) : Feed ε :=
  { feed with
    applied := feed.applied ++ [item]
    poll := some ⟨rest, some sequence, since⟩ }

def save (feed : Feed ε) (sequence : Nat) : Feed ε :=
  { feed with checkpoint := some sequence, poll := none }

end Feed

variable (sequence : ε → Nat)

/-- What a poll reads: the visible items above the checkpoint, in order, up to a limit. -/
def Feed.next (feed : Feed ε) (limit : Nat) : List ε :=
  ((feed.visible.filter (fun item => above feed.checkpoint (sequence item))).insertionSort
    (fun first second => sequence first ≤ sequence second)).take limit

def Feed.read (feed : Feed ε) (limit : Nat) : Feed ε :=
  { feed with poll := some ⟨feed.next sequence limit, none, []⟩ }

/-- Every visible item at or below the checkpoint has been applied. -/
def Feed.Covered (feed : Feed ε) : Prop :=
  ∀ item ∈ feed.visible, above feed.checkpoint (sequence item) = false → item ∈ feed.applied

/-- What a poll knows of the feed. Items that became visible since its read are exempt. -/
structure Poll.Sound (feed : Feed ε) (poll : Poll ε) : Prop where
  ordered : poll.pending.Pairwise (fun first second => sequence first < sequence second)
  pending : ∀ item ∈ poll.pending, item ∈ feed.visible ∧ item ∉ poll.since ∧
    above feed.checkpoint (sequence item) = true
  since : ∀ item ∈ poll.since, item ∈ feed.visible ∧ item ∉ feed.applied
  last : ∀ last, poll.last = some last → above feed.checkpoint last = true
  /-- Below an item that is pending nothing was passed over. -/
  ahead : ∀ item ∈ feed.visible, item ∉ poll.since →
    above feed.checkpoint (sequence item) = true →
    ∀ later ∈ poll.pending, sequence item ≤ sequence later →
      item ∈ feed.applied ∨ item ∈ poll.pending
  /-- Nor below the last item applied. -/
  behind : ∀ item ∈ feed.visible, item ∉ poll.since →
    above feed.checkpoint (sequence item) = true →
    ∀ last, poll.last = some last → sequence item ≤ last → item ∈ feed.applied

structure Feed.Sound (feed : Feed ε) : Prop where
  distinct : (feed.visible.map sequence).Nodup
  applied : ∀ item ∈ feed.applied, item ∈ feed.visible
  poll : ∀ poll, feed.poll = some poll → poll.Sound sequence feed

variable {sequence}

theorem above_total {checkpoint : Option Nat} {sequence : Nat}
    (within : above checkpoint sequence ≠ true) : above checkpoint sequence = false := by
  simpa using within

variable {feed : Feed ε}

/-- A batch is in strict order, and skips nothing below its end. -/
theorem Feed.Sound.next (sound : feed.Sound sequence) (limit : Nat) :
    (feed.next sequence limit).Pairwise (fun first second => sequence first < sequence second) ∧
      (∀ item ∈ feed.next sequence limit, item ∈ feed.visible ∧
        above feed.checkpoint (sequence item) = true) ∧
      ∀ item ∈ feed.visible, above feed.checkpoint (sequence item) = true →
        ∀ later ∈ feed.next sequence limit, sequence item ≤ sequence later →
          item ∈ feed.next sequence limit := by
  rw [Feed.next]
  generalize whole : (feed.visible.filter (fun item =>
    above feed.checkpoint (sequence item))).insertionSort
      (fun first second => sequence first ≤ sequence second) = sorted
  have members : ∀ item, item ∈ sorted ↔
      item ∈ feed.visible ∧ above feed.checkpoint (sequence item) = true := by
    intro item
    rw [← whole, List.mem_insertionSort, List.mem_filter]
  have distinct : (sorted.map sequence).Nodup := by
    rw [← whole]
    have perm := List.perm_insertionSort (fun first second => sequence first ≤ sequence second)
      (feed.visible.filter (fun item => above feed.checkpoint (sequence item)))
    apply (perm.map sequence).nodup_iff.mpr
    exact (List.filter_sublist.map sequence).nodup sound.distinct
  have ordered : sorted.Pairwise (fun first second => sequence first < sequence second) := by
    have ascending : sorted.Pairwise (fun first second => sequence first ≤ sequence second) := by
      rw [← whole]
      exact List.pairwise_insertionSort _ _
    have apart := List.pairwise_map.mp distinct
    exact (ascending.and apart).imp (fun both => Nat.lt_of_le_of_ne both.1 both.2)
  refine ⟨ordered.sublist (List.take_sublist limit sorted), ?_, ?_⟩
  · intro item member
    exact (members item).mp (List.mem_of_mem_take member)
  · intro item here beyond later memberLater below
    have member := (members item).mpr ⟨here, beyond⟩
    rw [← List.take_append_drop limit sorted] at member ordered
    rcases List.mem_append.mp member with taken | dropped
    · exact taken
    · have after := (List.pairwise_append.mp ordered).2.2 later memberLater item dropped
      omega

theorem Feed.Sound.read (sound : feed.Sound sequence) (limit : Nat) :
    (feed.read sequence limit).Sound sequence := by
  obtain ⟨ordered, members, skips⟩ := sound.next limit
  refine ⟨sound.distinct, sound.applied, ?_⟩
  intro poll same
  cases same
  refine ⟨ordered, ?_, ?_, ?_, ?_, ?_⟩
  · intro item member
    exact ⟨(members item member).1, List.not_mem_nil, (members item member).2⟩
  · intro item member
    cases member
  · intro last impossible
    cases impossible
  · intro item here _ beyond later member below
    exact .inr (skips item here beyond later member below)
  · intro item _ _ _ last impossible
    cases impossible

theorem Feed.Sound.publish (sound : feed.Sound sequence) {items : List ε}
    (fresh : ((feed.visible ++ items).map sequence).Nodup) :
    (feed.publish items).Sound sequence := by
  have unseen : ∀ item ∈ items, item ∉ feed.visible := by
    intro item member here
    rw [List.map_append] at fresh
    exact List.disjoint_of_nodup_append fresh (List.mem_map_of_mem here)
      (List.mem_map_of_mem member)
  refine ⟨fresh, ?_, ?_⟩
  · intro item member
    exact List.mem_append_left items (sound.applied item member)
  · intro poll same
    rw [Feed.publish] at same
    obtain ⟨before, running, rfl⟩ := Option.map_eq_some_iff.mp same
    have held := sound.poll before running
    have older : ∀ item, item ∈ (feed.publish items).visible → item ∉ before.since ++ items →
        item ∈ feed.visible ∧ item ∉ before.since := by
      intro item here exempt
      rw [List.mem_append, not_or] at exempt
      rcases List.mem_append.mp here with old | new
      · exact ⟨old, exempt.1⟩
      · exact absurd new exempt.2
    refine ⟨held.ordered, ?_, ?_, held.last, ?_, ?_⟩
    · intro item member
      obtain ⟨here, old, beyond⟩ := held.pending item member
      refine ⟨List.mem_append_left items here, ?_, beyond⟩
      intro recent
      rcases List.mem_append.mp recent with earlier | new
      · exact old earlier
      · exact unseen item new here
    · intro item recent
      rcases List.mem_append.mp recent with earlier | new
      · obtain ⟨here, quiet⟩ := held.since item earlier
        exact ⟨List.mem_append_left items here, quiet⟩
      · refine ⟨List.mem_append_right _ new, ?_⟩
        intro applied
        exact unseen item new (sound.applied item applied)
    · intro item here exempt
      obtain ⟨old, quiet⟩ := older item here exempt
      exact held.ahead item old quiet
    · intro item here exempt
      obtain ⟨old, quiet⟩ := older item here exempt
      exact held.behind item old quiet

theorem Feed.Sound.apply (sound : feed.Sound sequence) {item : ε} {rest since : List ε}
    {last : Option Nat} (running : feed.poll = some ⟨item :: rest, last, since⟩) :
    (feed.apply item rest since (sequence item)).Sound sequence := by
  have held := sound.poll _ running
  obtain ⟨here, old, beyond⟩ := held.pending item (List.mem_cons_self ..)
  obtain ⟨first, ordered⟩ := List.pairwise_cons.mp held.ordered
  refine ⟨sound.distinct, ?_, ?_⟩
  · intro other member
    rcases List.mem_append.mp member with earlier | one
    · exact sound.applied other earlier
    · rw [List.mem_singleton.mp one]
      exact here
  · intro poll same
    cases same
    have skipped : ∀ other ∈ feed.visible, other ∉ since →
        above feed.checkpoint (sequence other) = true → ∀ later ∈ item :: rest,
        sequence other ≤ sequence later → other ∈ feed.applied ++ [item] ∨ other ∈ rest := by
      intro other there exempt above later member below
      rcases held.ahead other there exempt above later member below with applied | waiting
      · exact .inl (List.mem_append_left _ applied)
      · rcases List.mem_cons.mp waiting with rfl | waiting
        · exact .inl (List.mem_append_right _ (List.mem_singleton_self _))
        · exact .inr waiting
    refine ⟨ordered, ?_, ?_, ?_, ?_, ?_⟩
    · intro other member
      exact held.pending other (List.mem_cons_of_mem item member)
    · intro other recent
      obtain ⟨there, quiet⟩ := held.since other recent
      refine ⟨there, ?_⟩
      intro applied
      rcases List.mem_append.mp applied with earlier | one
      · exact quiet earlier
      · rw [List.mem_singleton.mp one] at recent
        exact old recent
    · intro reached same
      rw [← Option.some.inj same]
      exact beyond
    · intro other there exempt above later member below
      exact skipped other there exempt above later (List.mem_cons_of_mem item member) below
    · intro other there exempt above reached same below
      rw [← Option.some.inj same] at below
      rcases skipped other there exempt above item (List.mem_cons_self ..) below with applied | waiting
      · exact applied
      · have later := first other waiting
        omega

theorem Feed.Sound.save (sound : feed.Sound sequence) (reached : Nat) :
    (feed.save reached).Sound sequence :=
  ⟨sound.distinct, sound.applied, fun _ impossible => by cases impossible⟩

/-- Items may become visible only above the checkpoint. -/
theorem Feed.Covered.publish_iff (sound : feed.Sound sequence) (covered : feed.Covered sequence)
    {items : List ε} (fresh : ((feed.visible ++ items).map sequence).Nodup) :
    (feed.publish items).Covered sequence ↔
      ∀ item ∈ items, above feed.checkpoint (sequence item) = true := by
  constructor
  · intro after item member
    by_contra within
    have applied := after item (List.mem_append_right _ member) (above_total within)
    have here := sound.applied item applied
    rw [List.map_append] at fresh
    exact List.disjoint_of_nodup_append fresh (List.mem_map_of_mem here)
      (List.mem_map_of_mem member)
  · intro beyond item here within
    rcases List.mem_append.mp here with old | new
    · exact covered item old within
    · have ahead := beyond item new
      cases ahead.symm.trans within

theorem Feed.Covered.apply (covered : feed.Covered sequence) (item : ε) (rest since : List ε)
    (reached : Nat) : (feed.apply item rest since reached).Covered sequence := by
  intro other here within
  exact List.mem_append_left _ (covered other here within)

/-- The checkpoint may move to the last item applied only if nothing below it became visible
since the read. -/
theorem Feed.Covered.save_iff (sound : feed.Sound sequence) (covered : feed.Covered sequence)
    {pending since : List ε} {reached : Nat}
    (running : feed.poll = some ⟨pending, some reached, since⟩) :
    (feed.save reached).Covered sequence ↔ ∀ item ∈ since, reached < sequence item := by
  have held := sound.poll _ running
  constructor
  · intro after item recent
    obtain ⟨here, quiet⟩ := held.since item recent
    by_contra within
    have below : above (some reached) (sequence item) = false := by
      rw [above_some]
      exact decide_eq_false within
    exact quiet (after item here below)
  · intro ahead item here within
    have below : sequence item ≤ reached := by
      have outside : ¬ reached < sequence item := of_decide_eq_false within
      omega
    by_cases beyond : above feed.checkpoint (sequence item) = true
    · by_cases recent : item ∈ since
      · have later := ahead item recent
        omega
      · exact held.behind item here recent beyond reached rfl below
    · exact covered item here (above_total beyond)

end CursorFeed
