import Mathlib.Data.List.Basic

/- Bytes as text of 64 digits: three bytes as four digits, padded at the end. Nothing here names
an application. -/
namespace Base64

/-- The digits, and the character that fills up the last group. -/
structure Alphabet where
  digits : List Char
  pad : Char
  size : digits.length = 64
  nodup : digits.Nodup
  pad_free : pad ∉ digits

variable (A : Alphabet)

namespace Alphabet

def digit (value : Nat) : Char := A.digits.getD (value % 64) A.pad

def value (c : Char) : Option Nat :=
  if c ∈ A.digits then some (A.digits.idxOf c) else none

theorem mod_lt (value : Nat) : value % 64 < A.digits.length := by
  have size := A.size
  omega

theorem digit_eq (value : Nat) :
    A.digit value = A.digits.get ⟨value % 64, A.mod_lt value⟩ := by
  rw [digit, List.getD_eq_getElem?_getD, List.getElem?_eq_getElem (A.mod_lt value),
    Option.getD_some]
  rfl

theorem digit_mem (value : Nat) : A.digit value ∈ A.digits := by
  rw [digit_eq]
  exact List.getElem_mem _

@[simp] theorem value_digit (value : Nat) : A.value (A.digit value) = some (value % 64) := by
  rw [Alphabet.value, if_pos (A.digit_mem value), digit_eq, List.get_eq_getElem,
    A.nodup.idxOf_getElem]

@[simp] theorem value_pad : A.value A.pad = none := if_neg A.pad_free

/-- Only six bits of a value count. -/
theorem digit_congr {value other : Nat} (same : value % 64 = other % 64) :
    A.digit value = A.digit other := by
  rw [digit, digit, same]

theorem digit_of_value {c : Char} {value : Nat} (read : A.value c = some value) :
    value < 64 ∧ A.digit value = c := by
  have size := A.size
  rw [Alphabet.value] at read
  split at read
  · rename_i member
    cases read
    have inside := List.idxOf_lt_length_of_mem member
    refine ⟨by omega, ?_⟩
    rw [digit_eq, List.get_eq_getElem]
    have small : A.digits.idxOf c % 64 = A.digits.idxOf c := by omega
    simp only [small, List.getElem_idxOf]
  · cases read

end Alphabet

/-- Three bytes as four digits. -/
@[grind =]
def encode : List UInt8 → List Char
  | [] => []
  | [a] => [A.digit (a.toNat / 4), A.digit (a.toNat % 4 * 16), A.pad, A.pad]
  | [a, b] =>
    [A.digit (a.toNat / 4), A.digit (a.toNat % 4 * 16 + b.toNat / 16),
      A.digit (b.toNat % 16 * 4), A.pad]
  | a :: b :: c :: rest =>
    A.digit (a.toNat / 4) :: A.digit (a.toNat % 4 * 16 + b.toNat / 16) ::
      A.digit (b.toNat % 16 * 4 + c.toNat / 64) :: A.digit (c.toNat % 64) :: encode rest

/-- Groups of four digits; the last one may be padded, and what it does not use is zero. -/
@[grind =]
def decode : List Char → Option (List UInt8)
  | [] => some []
  | c₀ :: c₁ :: c₂ :: c₃ :: rest =>
    match A.value c₀, A.value c₁, A.value c₂, A.value c₃ with
    | some d₀, some d₁, some d₂, some d₃ =>
      (decode rest).map fun bytes =>
        UInt8.ofNat (d₀ * 4 + d₁ / 16) :: UInt8.ofNat (d₁ % 16 * 16 + d₂ / 4) ::
          UInt8.ofNat (d₂ % 4 * 64 + d₃) :: bytes
    | some d₀, some d₁, some d₂, none =>
      if c₃ = A.pad ∧ rest = [] ∧ d₂ % 4 = 0 then
        some [UInt8.ofNat (d₀ * 4 + d₁ / 16), UInt8.ofNat (d₁ % 16 * 16 + d₂ / 4)]
      else none
    | some d₀, some d₁, none, none =>
      if c₂ = A.pad ∧ c₃ = A.pad ∧ rest = [] ∧ d₁ % 16 = 0 then
        some [UInt8.ofNat (d₀ * 4 + d₁ / 16)]
      else none
    | _, _, _, _ => none
  | _ => none

theorem ofNat_eq {byte : UInt8} {value : Nat} (same : value = byte.toNat) :
    UInt8.ofNat value = byte := by
  rw [same, UInt8.ofNat_toNat]

theorem decode_encode (bytes : List UInt8) : decode A (encode A bytes) = some bytes := by
  fun_induction encode A bytes with
  | case1 => rfl
  | case2 a =>
    have one := a.toNat_lt
    have first : UInt8.ofNat (a.toNat / 4 % 64 * 4 + a.toNat % 4 * 16 % 64 / 16) = a :=
      ofNat_eq (by omega)
    have unused : a.toNat % 4 * 16 % 64 % 16 = 0 := by omega
    simp [decode, first, unused]
  | case3 a b =>
    have one := a.toNat_lt
    have two := b.toNat_lt
    have first : UInt8.ofNat (a.toNat / 4 % 64 * 4 + (a.toNat % 4 * 16 + b.toNat / 16) % 64 / 16)
        = a := ofNat_eq (by omega)
    have second : UInt8.ofNat ((a.toNat % 4 * 16 + b.toNat / 16) % 64 % 16 * 16 +
        b.toNat % 16 * 4 % 64 / 4) = b := ofNat_eq (by omega)
    have unused : b.toNat % 16 * 4 % 64 % 4 = 0 := by omega
    simp only [decode, Alphabet.value_digit, Alphabet.value_pad, first, second, unused, and_self,
      if_true]
  | case4 a b c rest ih =>
    have one := a.toNat_lt
    have two := b.toNat_lt
    have three := c.toNat_lt
    have first : UInt8.ofNat (a.toNat / 4 % 64 * 4 + (a.toNat % 4 * 16 + b.toNat / 16) % 64 / 16)
        = a := ofNat_eq (by omega)
    have second : UInt8.ofNat ((a.toNat % 4 * 16 + b.toNat / 16) % 64 % 16 * 16 +
        (b.toNat % 16 * 4 + c.toNat / 64) % 64 / 4) = b := ofNat_eq (by omega)
    have third : UInt8.ofNat ((b.toNat % 16 * 4 + c.toNat / 64) % 64 % 4 * 64 +
        c.toNat % 64 % 64) = c := ofNat_eq (by omega)
    simp only [decode, Alphabet.value_digit, ih, Option.map_some, first, second, third]

variable {text : List Char} {bytes : List UInt8}

theorem encode_of_decode (read : decode A text = some bytes) : encode A bytes = text := by
  fun_induction decode A text generalizing bytes with
  | case1 =>
    cases read
    rfl
  | case2 c₀ c₁ c₂ c₃ rest d₀ d₁ d₂ d₃ three two one zero ih =>
    obtain ⟨small₀, rfl⟩ := A.digit_of_value zero
    obtain ⟨small₁, rfl⟩ := A.digit_of_value one
    obtain ⟨small₂, rfl⟩ := A.digit_of_value two
    obtain ⟨small₃, rfl⟩ := A.digit_of_value three
    obtain ⟨later, behind, rfl⟩ := Option.map_eq_some_iff.mp read
    have first : (d₀ * 4 + d₁ / 16) % 256 / 4 = d₀ := by omega
    have second : (d₀ * 4 + d₁ / 16) % 256 % 4 * 16 + (d₁ % 16 * 16 + d₂ / 4) % 256 / 16 = d₁ := by
      omega
    have third : (d₁ % 16 * 16 + d₂ / 4) % 256 % 16 * 4 + (d₂ % 4 * 64 + d₃) % 256 / 64 = d₂ := by
      omega
    have fourth : (d₂ % 4 * 64 + d₃) % 256 % 64 = d₃ := by omega
    simp only [encode, UInt8.toNat_ofNat', Nat.reducePow, first, second, third, fourth, ih behind]
  | case3 c₀ c₁ c₂ c₃ rest d₀ d₁ d₂ three two one zero last =>
    obtain ⟨small₀, rfl⟩ := A.digit_of_value zero
    obtain ⟨small₁, rfl⟩ := A.digit_of_value one
    obtain ⟨small₂, rfl⟩ := A.digit_of_value two
    obtain ⟨rfl, rfl, unused⟩ := last
    cases read
    have first : (d₀ * 4 + d₁ / 16) % 256 / 4 = d₀ := by omega
    have second : (d₀ * 4 + d₁ / 16) % 256 % 4 * 16 + (d₁ % 16 * 16 + d₂ / 4) % 256 / 16 = d₁ := by
      omega
    have third : (d₁ % 16 * 16 + d₂ / 4) % 256 % 16 * 4 = d₂ := by omega
    simp only [encode, UInt8.toNat_ofNat', Nat.reducePow, first, second, third]
  | case5 c₀ c₁ c₂ c₃ rest d₀ d₁ three two one zero last =>
    obtain ⟨small₀, rfl⟩ := A.digit_of_value zero
    obtain ⟨small₁, rfl⟩ := A.digit_of_value one
    obtain ⟨rfl, rfl, rfl, unused⟩ := last
    cases read
    have first : (d₀ * 4 + d₁ / 16) % 256 / 4 = d₀ := by omega
    have second : (d₀ * 4 + d₁ / 16) % 256 % 4 * 16 = d₁ := by omega
    simp only [encode, UInt8.toNat_ofNat', Nat.reducePow, first, second]
  | _ => cases read

/-- A text decodes to just the bytes that it encodes. -/
theorem decode_eq_some : decode A text = some bytes ↔ text = encode A bytes :=
  ⟨fun read => (encode_of_decode A read).symm, fun same => same ▸ decode_encode A bytes⟩

theorem length_encode (bytes : List UInt8) :
    (encode A bytes).length = 4 * ((bytes.length + 2) / 3) := by
  fun_induction encode A bytes with
  | case1 => rfl
  | case2 a => simp
  | case3 a b => simp
  | case4 a b c rest ih =>
    simp only [List.length_cons, ih]
    omega

/-- Digits, and then as many pads as the last group lacks bytes. -/
theorem encode_padded (bytes : List UInt8) : ∃ text,
    encode A bytes = text ++ List.replicate ((3 - bytes.length % 3) % 3) A.pad ∧
      ∀ c ∈ text, c ∈ A.digits := by
  fun_induction encode A bytes with
  | case1 => exact ⟨[], rfl, by simp⟩
  | case2 a => exact ⟨[_, _], rfl, by simp [A.digit_mem]⟩
  | case3 a b => exact ⟨[_, _, _], rfl, by simp [A.digit_mem]⟩
  | case4 a b c rest ih =>
    obtain ⟨text, padded, digits⟩ := ih
    have same : (3 - (a :: b :: c :: rest).length % 3) % 3 = (3 - rest.length % 3) % 3 := by
      simp only [List.length_cons]
      omega
    refine ⟨_ :: _ :: _ :: _ :: text, by rw [same, padded]; rfl, ?_⟩
    simp only [List.forall_mem_cons, A.digit_mem, true_and]
    exact digits

end Base64
