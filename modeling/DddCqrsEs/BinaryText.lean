import DddCqrsEs.Base64
import Mathlib.Algebra.Group.Nat.Defs

/- Binary payloads as text. -/
namespace DddCqrsEs

def charset : List Char :=
  "ABCDEFGHIJKLMNOPQRSTUVWXYZabcdefghijklmnopqrstuvwxyz0123456789+/".toList

/-- The character for six bits of a group, as the code indexes its table. -/
def charAt (triple shift : Nat) : Char := charset.getD ((triple >>> shift) &&& 63) 'A'

/-- What one turn of the loop pushes. -/
def base64Group (input : List UInt8) (i : Nat) : List Char :=
  let b0 := (input.getD i 0).toNat
  let b1 := if i + 1 < input.length then (input.getD (i + 1) 0).toNat else 0
  let b2 := if i + 2 < input.length then (input.getD (i + 2) 0).toNat else 0
  let triple := b0 <<< 16 ||| b1 <<< 8 ||| b2
  [charAt triple 18, charAt triple 12, if i + 1 < input.length then charAt triple 6 else '=',
    if i + 2 < input.length then charAt triple 0 else '=']

def base64Loop (input : List UInt8) (i : Nat) (result : List Char) : List Char :=
  if i < input.length then base64Loop input (i + 3) (result ++ base64Group input i) else result
termination_by input.length - i

def base64Encode (input : List UInt8) : List Char := base64Loop input 0 []

/-- The standard alphabet of RFC 4648: the letters, the digits, a plus and a slash. -/
def standardBase64 : Base64.Alphabet where
  digits := (List.range 26).map (fun n => Char.ofNat (65 + n)) ++
    (List.range 26).map (fun n => Char.ofNat (97 + n)) ++
    (List.range 10).map (fun n => Char.ofNat (48 + n)) ++ ['+', '/']
  pad := '='
  size := by decide
  nodup := by decide +kernel
  pad_free := by decide +kernel

theorem charset_standard : charset = standardBase64.digits := by decide +kernel

theorem charAt_eq (triple shift : Nat) :
    charAt triple shift = standardBase64.digit (triple / 2 ^ shift) := by
  have mask : (triple >>> shift) &&& 63 = triple / 2 ^ shift % 64 := by
    rw [Nat.shiftRight_eq_div_pow]
    exact Nat.and_two_pow_sub_one_eq_mod _ 6
  have inside := standardBase64.mod_lt (triple / 2 ^ shift)
  rw [charAt, mask, charset_standard, Base64.Alphabet.digit_eq, List.getD_eq_getElem?_getD,
    List.getElem?_eq_getElem inside, Option.getD_some, List.get_eq_getElem]

/-- Three bytes side by side. -/
theorem triple_eq {b₁ b₂ : Nat} (b₀ : Nat) (one : b₁ < 256) (two : b₂ < 256) :
    b₀ <<< 16 ||| b₁ <<< 8 ||| b₂ = b₀ * 65536 + b₁ * 256 + b₂ := by
  have middle : b₁ <<< 8 < 2 ^ 16 := by
    rw [Nat.shiftLeft_eq]
    omega
  have joined : b₀ <<< 16 ||| b₁ <<< 8 = (b₀ <<< 8 + b₁) <<< 8 := by
    rw [← Nat.shiftLeft_add_eq_or_of_lt middle]
    simp only [Nat.shiftLeft_eq]
    omega
  rw [joined, ← Nat.shiftLeft_add_eq_or_of_lt two]
  simp only [Nat.shiftLeft_eq]
  omega

/-- The characters of a group, six bits each. -/
theorem charAt_triple (a : Nat) {b c : Nat} (one : b < 256) (two : c < 256) :
    charAt (a <<< 16 ||| b <<< 8 ||| c) 18 = standardBase64.digit (a / 4) ∧
      charAt (a <<< 16 ||| b <<< 8 ||| c) 12 = standardBase64.digit (a % 4 * 16 + b / 16) ∧
      charAt (a <<< 16 ||| b <<< 8 ||| c) 6 = standardBase64.digit (b % 16 * 4 + c / 64) ∧
      charAt (a <<< 16 ||| b <<< 8 ||| c) 0 = standardBase64.digit (c % 64) := by
  simp only [charAt_eq, triple_eq a one two]
  refine ⟨?_, ?_, ?_, ?_⟩ <;> apply Base64.Alphabet.digit_congr <;> omega

/-- A turn looks only at what is left of the input. -/
theorem base64Group_drop (input : List UInt8) (i : Nat) :
    base64Group input i = base64Group (input.drop i) 0 := by
  have inside (k : Nat) : (k < (input.drop i).length) = (i + k < input.length) := by
    rw [List.length_drop, eq_iff_iff]
    omega
  have byte (k : Nat) : (input.drop i).getD k 0 = input.getD (i + k) 0 := by
    rw [List.getD_eq_getElem?_getD, List.getD_eq_getElem?_getD, List.getElem?_drop]
  simp only [base64Group, inside, byte, Nat.add_zero, Nat.zero_add]

/-- One turn writes one group. -/
theorem base64Group_encode (a : UInt8) (rest : List UInt8) :
    Base64.encode standardBase64 (a :: rest) =
      base64Group (a :: rest) 0 ++ Base64.encode standardBase64 (rest.drop 2) := by
  match rest with
  | [] =>
    obtain ⟨first, second, -, -⟩ := @charAt_triple a.toNat 0 0 (by omega) (by omega)
    simp only [Nat.zero_shiftLeft, Nat.or_zero, Nat.zero_div, Nat.add_zero] at first second
    simp [base64Group, Base64.encode, first, second, standardBase64]
  | [b] =>
    have one := b.toNat_lt
    obtain ⟨first, second, third, -⟩ := @charAt_triple a.toNat b.toNat 0 one (by omega)
    simp only [Nat.or_zero, Nat.zero_div, Nat.add_zero] at first second third
    simp [base64Group, Base64.encode, first, second, third, standardBase64]
  | b :: c :: rest =>
    obtain ⟨first, second, third, fourth⟩ := charAt_triple a.toNat b.toNat_lt c.toNat_lt
    simp [base64Group, Base64.encode, first, second, third, fourth]

theorem base64Loop_encode (input : List UInt8) (i : Nat) (result : List Char) :
    base64Loop input i result = result ++ Base64.encode standardBase64 (input.drop i) := by
  fun_induction base64Loop input i result with
  | case1 i result inside ih =>
    obtain ⟨a, rest, left⟩ := List.exists_cons_of_length_pos
      (by rw [List.length_drop]; omega : 0 < (input.drop i).length)
    have later : input.drop (i + 3) = rest.drop 2 := by
      rw [← List.drop_drop, left]
      rfl
    rw [ih, base64Group_drop, left, base64Group_encode, List.append_assoc, later]
  | case2 i result done =>
    rw [List.drop_eq_nil_of_le (by omega)]
    exact (List.append_nil result).symm

theorem base64Encode_eq (input : List UInt8) :
    base64Encode input = Base64.encode standardBase64 input := by
  rw [base64Encode, base64Loop_encode]
  rfl

/-- The text is the standard one: it alone decodes to the input, it has four characters for each
three bytes begun, and it is digits with as many pads behind them as its last group lacks bytes. -/
theorem base64Encode_standard :
    (∀ (input : List UInt8) (text : List Char),
      Base64.decode standardBase64 text = some input ↔ text = base64Encode input) ∧
    (∀ input : List UInt8, (base64Encode input).length = 4 * ((input.length + 2) / 3)) ∧
    (∀ input : List UInt8, ∃ text, base64Encode input =
      text ++ List.replicate ((3 - input.length % 3) % 3) '=' ∧ ∀ c ∈ text, c ∈ charset ∧ c ≠ '=') ∧
    Function.Injective base64Encode := by
  refine ⟨fun input text => ?_, fun input => ?_, fun input => ?_, fun input other same => ?_⟩
  · rw [base64Encode_eq]
    exact Base64.decode_eq_some standardBase64
  · rw [base64Encode_eq]
    exact Base64.length_encode standardBase64 input
  · obtain ⟨text, padded, digits⟩ := Base64.encode_padded standardBase64 input
    refine ⟨text, by rw [base64Encode_eq, padded]; rfl, fun c member => ?_⟩
    have digit := digits c member
    refine ⟨charset_standard ▸ digit, ?_⟩
    rintro rfl
    exact standardBase64.pad_free digit
  · have decoded := Base64.decode_encode standardBase64 input
    rw [← base64Encode_eq, same, base64Encode_eq, Base64.decode_encode] at decoded
    exact (Option.some_inj.mp decoded).symm

end DddCqrsEs
