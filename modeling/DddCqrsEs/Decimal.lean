import Mathlib.Data.List.Basic
import Mathlib.Data.Int.Init

/- Integers as decimal texts, with and without a sign. Nothing here names an application. -/
namespace Decimal

/-- The number that a text of digits denotes. -/
def unsigned (text : List Char) : Option Nat :=
  if text ≠ [] ∧ text.all Char.isDigit = true then some (Nat.ofDigitChars 10 text 0) else none

def signed : List Char → Option Int
  | '-' :: text => (unsigned text).map (fun number : Nat => -(number : Int))
  | '+' :: text => (unsigned text).map Int.ofNat
  | text => (unsigned text).map Int.ofNat

def withoutPlus : List Char → List Char
  | '+' :: text => text
  | text => text

def write : Int → List Char
  | .ofNat number => Nat.toDigits 10 number
  | .negSucc number => '-' :: Nat.toDigits 10 (number + 1)

theorem toDigits_all (number : Nat) : (Nat.toDigits 10 number).all Char.isDigit = true := by
  rw [List.all_eq_true]
  exact fun c member => Nat.isDigit_of_mem_toDigits (by decide) (by decide) member

theorem unsigned_toDigits (number : Nat) : unsigned (Nat.toDigits 10 number) = some number := by
  rw [unsigned, if_pos ⟨Nat.toDigits_ne_nil, toDigits_all number⟩, Nat.ofDigitChars_ten_toDigits]

theorem repr_injective {first second : Nat} (same : Nat.repr first = Nat.repr second) :
    first = second := by
  have digits : Nat.toDigits 10 first = Nat.toDigits 10 second := String.ofList_injective same
  rw [← Nat.ofDigitChars_ten_toDigits (n := first), digits, Nat.ofDigitChars_ten_toDigits]

/-- A text of digits starts with no sign. -/
theorem signed_of_digits {text : List Char} (digits : text.all Char.isDigit = true) :
    signed text = (unsigned text).map Int.ofNat := by
  rw [signed.eq_def]
  split
  · simp at digits
  · simp at digits
  · rfl

/-- What is read without a sign, or with a plus, is read the same with any sign. -/
theorem signed_of_unsigned {text : List Char} {number : Nat}
    (read : unsigned (withoutPlus text) = some number) : signed text = some (number : Int) := by
  rw [withoutPlus.eq_def] at read
  split at read
  · rw [signed, read]
    rfl
  · by_cases digits : text ≠ [] ∧ text.all Char.isDigit = true
    · rw [signed_of_digits digits.2, read]
      rfl
    · rw [unsigned, if_neg digits] at read
      cases read

theorem withoutPlus_toDigits (number : Nat) :
    withoutPlus (Nat.toDigits 10 number) = Nat.toDigits 10 number := by
  have digits := toDigits_all number
  rw [withoutPlus.eq_def]
  split
  · rename_i starts
    rw [starts] at digits
    simp at digits
  · rfl

theorem unsigned_withoutPlus_write (number : Int) (value : Nat) :
    unsigned (withoutPlus (write number)) = some value ↔ number = value := by
  cases number with
  | ofNat number =>
    rw [write, withoutPlus_toDigits, unsigned_toDigits, Option.some.injEq,
      Int.ofNat_eq_natCast, Int.natCast_inj]
  | negSucc number =>
    have unread : unsigned (withoutPlus (write (.negSucc number))) = none := by
      rw [write, withoutPlus, unsigned, if_neg (by simp)]
      simp
    rw [unread]
    have negative : Int.negSucc number ≠ value := by omega
    exact iff_of_false (by simp) negative

theorem signed_write (number : Int) : signed (write number) = some number := by
  cases number with
  | ofNat number =>
    rw [write, signed_of_digits (toDigits_all number), unsigned_toDigits]
    rfl
  | negSucc number =>
    rw [write, signed, unsigned_toDigits]
    rfl

/-- Different numbers are written differently. -/
theorem write_inj {first second : Int} (same : write first = write second) : first = second := by
  have read := congrArg signed same
  rw [signed_write, signed_write] at read
  exact Option.some.inj read

end Decimal
