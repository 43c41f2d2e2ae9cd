import DddCqrsEs.Paging

/- A read model built from a growing feed, its checkpoint moving together with it. Nothing here
names an application. -/
namespace Consumption

open Replay Paging

variable {ε ρ : Type*}

structure Consumer (ρ : Type*) where
  model : ρ
  checkpoint : Option Nat
  deriving DecidableEq

variable (sequence : ε → Nat) (apply : ρ → ε → ρ)

/-- The model takes an event in, and the checkpoint goes to it. -/
def Consumer.take (consumer : Consumer ρ) (event : ε) : Consumer ρ :=
  ⟨apply consumer.model event, some (sequence event)⟩

def Consumer.takeAll (consumer : Consumer ρ) (events : List ε) : Consumer ρ :=
  events.foldl (Consumer.take sequence apply) consumer

/-- What a front part of a feed makes of a model that has taken nothing in. -/
def built (start : ρ) (events : List ε) : Consumer ρ :=
  Consumer.takeAll sequence apply ⟨start, none⟩ events

/-- The consumer was built from a front part of the feed. -/
def Exact (start : ρ) (feed : List ε) (consumer : Consumer ρ) : Prop :=
  ∃ taken, taken <+: feed ∧ consumer = built sequence apply start taken

variable {sequence apply} {start : ρ} {feed : List ε} {consumer : Consumer ρ}

@[simp] theorem takeAll_cons (event : ε) (rest : List ε) :
    consumer.takeAll sequence apply (event :: rest) =
      (consumer.take sequence apply event).takeAll sequence apply rest := rfl

theorem takeAll_append (first second : List ε) :
    consumer.takeAll sequence apply (first ++ second) =
      (consumer.takeAll sequence apply first).takeAll sequence apply second :=
  List.foldl_append

theorem built_append (first second : List ε) :
    built sequence apply start (first ++ second) =
      (built sequence apply start first).takeAll sequence apply second :=
  takeAll_append first second

theorem takeAll_model (events : List ε) :
    (consumer.takeAll sequence apply events).model = events.foldl apply consumer.model := by
  induction events generalizing consumer with
  | nil => rfl
  | cons event rest ih => exact ih

theorem takeAll_checkpoint (events : List ε) :
    (consumer.takeAll sequence apply events).checkpoint =
      (events.getLast?.map sequence).or consumer.checkpoint := by
  induction events generalizing consumer with
  | nil => rfl
  | cons event rest ih =>
    rw [takeAll_cons, ih, List.getLast?_cons]
    cases rest.getLast? <;> rfl

theorem built_model (events : List ε) :
    (built sequence apply start events).model = events.foldl apply start :=
  takeAll_model events

theorem built_checkpoint (events : List ε) :
    (built sequence apply start events).checkpoint = events.getLast?.map sequence := by
  rw [built, takeAll_checkpoint, Option.or_none]

theorem built_eq (events : List ε) : built sequence apply start events =
    ⟨events.foldl apply start, events.getLast?.map sequence⟩ := by
  have model : (built sequence apply start events).model = events.foldl apply start :=
    built_model events
  have checkpoint : (built sequence apply start events).checkpoint =
      events.getLast?.map sequence := built_checkpoint events
  rw [← model, ← checkpoint]

/-- What lies beyond the checkpoint is what was not taken in. -/
theorem beyond_built {taken rest : List ε} (increasing : Increasing sequence (taken ++ rest)) :
    beyond sequence (taken ++ rest) (built sequence apply start taken).checkpoint = rest := by
  rw [built_checkpoint]
  cases ended : taken.getLast? with
  | none =>
    rw [List.getLast?_eq_none_iff.mp ended]
    exact List.filter_eq_self.mpr fun _ _ => rfl
  | some last => exact beyond_front increasing ended

theorem exact_start : Exact sequence apply start feed ⟨start, none⟩ :=
  ⟨[], List.nil_prefix, rfl⟩

theorem Exact.grown {later : List ε} (exact : Exact sequence apply start feed consumer)
    (grown : feed <+: later) : Exact sequence apply start later consumer := by
  obtain ⟨taken, front, same⟩ := exact
  exact ⟨taken, front.trans grown, same⟩

/-- Taking the next events in, however many of them. -/
theorem Exact.takeAll {events : List ε} (exact : Exact sequence apply start feed consumer)
    (increasing : Increasing sequence feed)
    (next : events <+: beyond sequence feed consumer.checkpoint) :
    Exact sequence apply start feed (consumer.takeAll sequence apply events) := by
  obtain ⟨taken, ⟨rest, rfl⟩, rfl⟩ := exact
  rw [beyond_built increasing] at next
  exact ⟨taken ++ events, (List.prefix_append_right_inj taken).mpr next,
    (built_append taken events).symm⟩

/-- The pages of one pass after the other. -/
theorem beyond_takeAll {events : List ε} (increasing : Increasing sequence feed)
    (next : events <+: beyond sequence feed consumer.checkpoint) :
    beyond sequence feed (consumer.takeAll sequence apply events).checkpoint =
      (beyond sequence feed consumer.checkpoint).drop events.length := by
  rw [takeAll_checkpoint]
  cases ended : events.getLast? with
  | none =>
    rw [List.getLast?_eq_none_iff.mp ended]
    rfl
  | some last =>
    have page := List.prefix_iff_eq_take.mp next
    rw [page] at ended
    exact after_page increasing ended

end Consumption
