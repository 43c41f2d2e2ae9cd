import Mathlib.Logic.Function.Basic
import Mathlib.Tactic.TypeStar

/- Functions that keep their results under a key. A result remembers what it was computed for,
which the key may not say in full. -/
namespace Memo

variable {κ ω ν ε : Type*} [DecidableEq κ]

structure Cached (ω ν : Type*) where
  origin : ω
  value : ν
  deriving DecidableEq

structure Cache (κ ω ν : Type*) where
  lookup : κ → Option (Cached ω ν)

namespace Cache

def empty : Cache κ ω ν := ⟨fun _ => none⟩

def insert (cache : Cache κ ω ν) (key : κ) (entry : Cached ω ν) : Cache κ ω ν :=
  ⟨Function.update cache.lookup key (some entry)⟩

/-- The kept result under a key, if it may still be used. -/
def hit (cache : Cache κ ω ν) (key : κ) (usable : ν → Bool) : Option (Cached ω ν) :=
  (cache.lookup key).filter fun entry => usable entry.value

/-- Keep a result that was computed now. -/
def keep (cache : Cache κ ω ν) (key : κ) :
    Except ε (Cached ω ν) → Except ε ν × Cache κ ω ν
  | .error error => (.error error, cache)
  | .ok entry => (.ok entry.value, cache.insert key entry)

def call (cache : Cache κ ω ν) (key : κ) (usable : ν → Bool)
    (computed : Except ε (Cached ω ν)) : Except ε ν × Cache κ ω ν :=
  match cache.hit key usable with
  | some entry => (.ok entry.value, cache)
  | none => cache.keep key computed

/-- Every kept result is one of its origin. -/
def Sound (cache : Cache κ ω ν) (valid : Cached ω ν → Prop) : Prop :=
  ∀ key entry, cache.lookup key = some entry → valid entry

variable {cache : Cache κ ω ν} {key : κ} {usable : ν → Bool} {entry : Cached ω ν}
  {computed : Except ε (Cached ω ν)} {valid : Cached ω ν → Prop}

omit [DecidableEq κ] in
theorem sound_empty (valid : Cached ω ν → Prop) : (empty : Cache κ ω ν).Sound valid := by
  intro key entry kept
  cases kept

omit [DecidableEq κ] in
theorem Sound.mono (sound : cache.Sound valid) {weaker : Cached ω ν → Prop}
    (weakens : ∀ entry, valid entry → weaker entry) : cache.Sound weaker :=
  fun key entry kept => weakens entry (sound key entry kept)

omit [DecidableEq κ] in
theorem hit_eq_some_iff :
    cache.hit key usable = some entry ↔
      cache.lookup key = some entry ∧ usable entry.value = true := by
  simp [hit, Option.filter_eq_some_iff]

omit [DecidableEq κ] in
theorem Sound.hit (sound : cache.Sound valid) (found : cache.hit key usable = some entry) :
    valid entry := sound key entry (hit_eq_some_iff.mp found).1

theorem call_of_hit (found : cache.hit key usable = some entry) :
    cache.call key usable computed = (.ok entry.value, cache) := by
  simp only [call, found]

theorem call_of_miss (missed : cache.hit key usable = none) :
    cache.call key usable computed = cache.keep key computed := by
  simp only [call, missed]

theorem keep_result : (cache.keep key computed).1 = computed.map Cached.value := by
  cases computed <;> rfl

/-- Without a kept result the function is the computation. -/
theorem call_empty :
    ((empty : Cache κ ω ν).call key usable computed).1 = computed.map Cached.value :=
  keep_result

theorem insert_lookup_self : (cache.insert key entry).lookup key = some entry := by
  simp [insert]

theorem insert_lookup_of_ne {other : κ} (apart : other ≠ key) :
    (cache.insert key entry).lookup other = cache.lookup other := by
  simp [insert, apart]

theorem Sound.insert (sound : cache.Sound valid) (key : κ) (holds : valid entry) :
    (cache.insert key entry).Sound valid := by
  intro other found kept
  by_cases same : other = key
  · subst same
    rw [insert_lookup_self] at kept
    cases kept
    exact holds
  · rw [insert_lookup_of_ne same] at kept
    exact sound other found kept

theorem Sound.keep (sound : cache.Sound valid)
    (computes : ∀ entry, computed = .ok entry → valid entry) :
    (cache.keep key computed).2.Sound valid := by
  cases computed with
  | error error => exact sound
  | ok entry => exact sound.insert key (computes entry rfl)

theorem Sound.call (sound : cache.Sound valid)
    (computes : cache.hit key usable = none → ∀ entry, computed = .ok entry → valid entry) :
    (cache.call key usable computed).2.Sound valid := by
  cases found : cache.hit key usable with
  | some entry =>
    rw [call_of_hit found]
    exact sound
  | none =>
    rw [call_of_miss found]
    exact sound.keep (computes found)

/-- Kept results are invisible where they are those of the computation. -/
theorem call_invisible
    (agrees : ∀ entry, cache.hit key usable = some entry →
      computed.map Cached.value = .ok entry.value) :
    (cache.call key usable computed).1 = computed.map Cached.value := by
  cases found : cache.hit key usable with
  | some entry =>
    rw [call_of_hit found]
    exact (agrees entry found).symm
  | none =>
    rw [call_of_miss found]
    exact keep_result

end Cache

end Memo
