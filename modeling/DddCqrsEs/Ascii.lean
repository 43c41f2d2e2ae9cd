import Mathlib.Algebra.Group.Nat.Defs
import Mathlib.Data.Char

/- The ASCII letters and digits by their codes. Nothing here names an application. -/
namespace Ascii

theorem isUpper_code (c : Char) : c.isUpper = decide (65 ≤ c.toNat ∧ c.toNat ≤ 90) := by
  have unfolded : c.isUpper = decide (65 ≤ c.val ∧ c.val ≤ 90) := rfl
  rw [unfolded, Bool.eq_iff_iff]
  simp [UInt32.le_iff_toNat_le]

theorem isLower_code (c : Char) : c.isLower = decide (97 ≤ c.toNat ∧ c.toNat ≤ 122) := by
  have unfolded : c.isLower = (decide (97 ≤ c.val) && decide (c.val ≤ 122)) := rfl
  rw [unfolded, Bool.eq_iff_iff]
  simp [UInt32.le_iff_toNat_le]

theorem isDigit_code (c : Char) : c.isDigit = decide (48 ≤ c.toNat ∧ c.toNat ≤ 57) := by
  have unfolded : c.isDigit = (decide (48 ≤ c.val) && decide (c.val ≤ 57)) := rfl
  rw [unfolded, Bool.eq_iff_iff]
  simp [UInt32.le_iff_toNat_le]

theorem isAlpha_eq (c : Char) : c.isAlpha = (c.isUpper || c.isLower) := rfl

theorem isAlphanum_eq (c : Char) : c.isAlphanum = (c.isUpper || c.isLower || c.isDigit) := rfl

theorem isAlphanum_iff {c : Char} : c.isAlphanum = true ↔
    65 ≤ c.toNat ∧ c.toNat ≤ 90 ∨ 97 ≤ c.toNat ∧ c.toNat ≤ 122 ∨
      48 ≤ c.toNat ∧ c.toNat ≤ 57 := by
  rw [isAlphanum_eq, isUpper_code, isLower_code, isDigit_code, Bool.or_eq_true, Bool.or_eq_true,
    decide_eq_true_eq, decide_eq_true_eq, decide_eq_true_eq, or_assoc]

theorem toLower_code (c : Char) : c.toLower.toNat =
    if 65 ≤ c.toNat ∧ c.toNat ≤ 90 then c.toNat + 32 else c.toNat := by
  have value : c.val.toNat = c.toNat := rfl
  show (dite _ _ _ : Char).toNat = _
  split
  · rename_i upper
    have bounds : 65 ≤ c.toNat ∧ c.toNat ≤ 90 := by
      rw [← value]
      exact ⟨UInt32.le_iff_toNat_le.mp upper.1, UInt32.le_iff_toNat_le.mp upper.2⟩
    have sum : (c.val + 32).toNat = c.toNat + 32 := by
      rw [UInt32.toNat_add, value]
      show (c.toNat + 32) % 4294967296 = _
      omega
    rw [if_pos bounds]
    exact sum
  · rename_i other
    have outside : ¬ (65 ≤ c.toNat ∧ c.toNat ≤ 90) := by
      intro bounds
      rw [← value] at bounds
      exact other ⟨UInt32.le_iff_toNat_le.mpr bounds.1, UInt32.le_iff_toNat_le.mpr bounds.2⟩
    rw [if_neg outside]

end Ascii
