import Mathlib.Algebra.Group.Nat.Defs
import Mathlib.Data.Nat.Log

/- The natural numbers that 64-bit floating-point numbers hold: numbers of 53 significant
bits. Any other is rounded to the nearest of them, and to the even one of two equally
near. -/
namespace Binary64

/-- The multiple of `unit` nearest to a number. -/
def nearest (unit number : Nat) : Nat :=
  if 2 * (number % unit) < unit ∨
      (2 * (number % unit) = unit ∧ number / unit % 2 = 0) then number / unit * unit
  else (number / unit + 1) * unit

/-- How far apart the held numbers of this size are. -/
def ulp (number : Nat) : Nat := 2 ^ (Nat.log 2 number - 52)

def round (number : Nat) : Nat := nearest (ulp number) number

variable {unit number : Nat}

theorem le_nearest (unit number : Nat) : number / unit * unit ≤ nearest unit number := by
  unfold nearest
  split
  · exact Nat.le_refl _
  · exact Nat.mul_le_mul_right unit (Nat.le_succ _)

theorem nearest_le (unit number : Nat) : nearest unit number ≤ (number / unit + 1) * unit := by
  unfold nearest
  split
  · exact Nat.mul_le_mul_right unit (Nat.le_succ _)
  · exact Nat.le_refl _

/-- A multiple stays as it is. -/
theorem nearest_of_dvd (positive : 0 < unit) (multiple : unit ∣ number) :
    nearest unit number = number := by
  have rest : number % unit = 0 := Nat.mod_eq_zero_of_dvd multiple
  unfold nearest
  rw [rest, if_pos (Or.inl (by omega))]
  exact Nat.div_mul_cancel multiple

theorem nearest_mono {first second : Nat} (unit : Nat) (below : first ≤ second) :
    nearest unit first ≤ nearest unit second := by
  have quotients : first / unit ≤ second / unit := Nat.div_le_div_right below
  by_cases same : first / unit = second / unit
  · have firstParts := Nat.div_add_mod first unit
    have secondParts := Nat.div_add_mod second unit
    rw [same] at firstParts
    have rests : first % unit ≤ second % unit := by omega
    unfold nearest
    rw [same]
    split
    · split
      · exact Nat.le_refl _
      · exact Nat.mul_le_mul_right unit (Nat.le_succ _)
    · rename_i up
      rw [if_neg (by omega)]
  · calc nearest unit first ≤ (first / unit + 1) * unit := nearest_le unit first
      _ ≤ second / unit * unit := Nat.mul_le_mul_right unit (by omega)
      _ ≤ nearest unit second := le_nearest unit second

theorem ulp_pos (number : Nat) : 0 < ulp number := Nat.two_pow_pos _

/-- Numbers of 53 bits are held exactly. -/
theorem round_of_lt (small : number < 2 ^ 53) : round number = number := by
  have size : Nat.log 2 number - 52 = 0 := by
    have := Nat.log_lt_of_lt_pow' (by decide) small
    omega
  rw [round, ulp, size]
  exact nearest_of_dvd (by decide) (Nat.one_dvd number)

theorem ulp_dvd_pow {exponent : Nat} (above : Nat.log 2 number ≤ exponent) :
    ulp number ∣ 2 ^ exponent :=
  Nat.pow_dvd_pow 2 (by omega)

/-- Rounding keeps the order, over the borders of powers of two as well. -/
theorem round_mono {first second : Nat} (below : first ≤ second) :
    round first ≤ round second := by
  have sizes : Nat.log 2 first ≤ Nat.log 2 second := Nat.log_mono_right below
  by_cases same : Nat.log 2 first = Nat.log 2 second
  · have units : ulp first = ulp second := by rw [ulp, ulp, same]
    rw [round, round, units]
    exact nearest_mono _ below
  · have positive : second ≠ 0 := by
      intro zero
      rw [zero, Nat.log_zero_right] at same sizes
      omega
    have under : first ≤ 2 ^ (Nat.log 2 first + 1) :=
      Nat.le_of_lt (Nat.lt_pow_succ_log_self (by decide) first)
    have reached : 2 ^ Nat.log 2 second ≤ second := Nat.pow_log_le_self 2 positive
    calc round first ≤ nearest (ulp first) (2 ^ (Nat.log 2 first + 1)) :=
          nearest_mono _ under
      _ = 2 ^ (Nat.log 2 first + 1) :=
          nearest_of_dvd (ulp_pos first) (ulp_dvd_pow (Nat.le_succ _))
      _ ≤ 2 ^ Nat.log 2 second := Nat.pow_le_pow_right (by decide) (by omega)
      _ = nearest (ulp second) (2 ^ Nat.log 2 second) :=
          (nearest_of_dvd (ulp_pos second) (ulp_dvd_pow (Nat.le_refl _))).symm
      _ ≤ round second := nearest_mono _ reached

example : round (2 ^ 53 + 1) = 2 ^ 53 ∧ round (2 ^ 53 + 3) = 2 ^ 53 + 4 := by decide +kernel

end Binary64
