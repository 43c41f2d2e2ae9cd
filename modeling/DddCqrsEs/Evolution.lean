import Mathlib.Data.List.Basic
import Mathlib.Tactic.TypeStar

/- States that evolve by events. A property of the states and a condition on each event where
it is applied are carried along a list of events. Nothing here names an application. -/
namespace Evolution

variable {σ ε : Type*} (apply : σ → ε → σ) (sound : σ → Prop) (allowed : σ → ε → Prop)

/-- Every state on the way is sound, and every event is allowed where it is applied. -/
def Sound : σ → List ε → Prop
  | state, [] => sound state
  | state, event :: rest => sound state ∧ allowed state event ∧ Sound (apply state event) rest

variable {apply sound allowed} {state : σ}

@[simp] theorem sound_nil : Sound apply sound allowed state [] ↔ sound state := Iff.rfl

@[simp] theorem sound_cons {event : ε} {rest : List ε} :
    Sound apply sound allowed state (event :: rest) ↔
      sound state ∧ allowed state event ∧ Sound apply sound allowed (apply state event) rest :=
  Iff.rfl

theorem Sound.head {events : List ε} (holds : Sound apply sound allowed state events) :
    sound state := by
  cases events with
  | nil => exact holds
  | cons event rest => exact holds.1

/-- Two lists in a row, the second from where the first one leads. -/
theorem sound_append {first second : List ε} :
    Sound apply sound allowed state (first ++ second) ↔
      Sound apply sound allowed state first ∧
        Sound apply sound allowed (first.foldl apply state) second := by
  induction first generalizing state with
  | nil =>
    constructor
    · intro holds
      exact ⟨sound_nil.mpr holds.head, holds⟩
    · intro holds
      exact holds.2
  | cons event rest ih =>
    simp only [List.cons_append, sound_cons, List.foldl_cons, ih, and_assoc]

theorem Sound.last {events : List ε} (holds : Sound apply sound allowed state events) :
    sound (events.foldl apply state) := by
  rw [← List.append_nil events, sound_append] at holds
  exact holds.2

end Evolution
