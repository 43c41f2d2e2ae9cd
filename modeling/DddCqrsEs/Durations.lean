import Mathlib.Algebra.Group.Nat.Defs
import Mathlib.Tactic.TypeStar

/- Spans of time in nanoseconds that 64 bits of seconds can hold, and arithmetic that may
panic. Nothing here names an application. -/
namespace Durations

inductive Panic where
  | remainderByZero
  deriving DecidableEq, Repr

/-- The nanoseconds in `2 ^ 64` seconds. -/
def limit : Nat := 2 ^ 64 * 1000000000

structure Duration where
  nanos : Nat
  fits : nanos < limit

namespace Duration

def checkedSub (one other : Duration) : Option Duration :=
  if other.nanos ≤ one.nanos then
    some ⟨one.nanos - other.nanos, by have fits := one.fits; omega⟩
  else none

def saturatingAdd (one other : Duration) : Duration :=
  ⟨min (one.nanos + other.nanos) (limit - 1), by have positive : 0 < limit := by decide
                                                 omega⟩

def fromMillis (millis : UInt64) : Duration :=
  ⟨millis.toNat * 1000000, by have small := millis.toNat_lt; rw [limit]; omega⟩

/-- Of 128 bits. -/
def asMillis (duration : Duration) : Nat := duration.nanos / 1000000

def isZero (duration : Duration) : Bool := duration.nanos = 0

/-- The shorter of two. -/
def shorter (one other : Duration) : Duration := if one.nanos ≤ other.nanos then one else other

@[simp] theorem shorter_nanos (one other : Duration) :
    (one.shorter other).nanos = min one.nanos other.nanos := by
  rw [shorter]
  split <;> omega

end Duration

def checkedRem (one other : UInt64) : Except Panic UInt64 :=
  if other = 0 then .error .remainderByZero else .ok (one % other)

/-- A rolling hash that wraps around. -/
def wrappingHash (factor : UInt64) (bytes : List UInt8) : UInt64 :=
  bytes.foldl (fun acc byte => acc * factor + byte.toUInt64) 0

theorem wrappingHash_toNat (factor : UInt64) (bytes : List UInt8) :
    (wrappingHash factor bytes).toNat =
      bytes.foldl (fun acc byte => (acc * factor.toNat + byte.toNat) % 2 ^ 64) 0 := by
  have kept (start : UInt64) :
      (bytes.foldl (fun acc byte => acc * factor + byte.toUInt64) start).toNat =
        bytes.foldl (fun acc byte => (acc * factor.toNat + byte.toNat) % 2 ^ 64) start.toNat := by
    induction bytes generalizing start with
    | nil => rfl
    | cons byte bytes ih =>
      rw [List.foldl_cons, List.foldl_cons, ih]
      simp
  exact kept 0

end Durations
