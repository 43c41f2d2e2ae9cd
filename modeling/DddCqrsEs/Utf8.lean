import Mathlib.Algebra.GroupWithZero.Nat
import Mathlib.Data.List.Basic

/- Texts as UTF-8: bytes decoded with the invalid ones replaced, and texts cut at a byte. Nothing
here names an application. -/
namespace Utf8

def replacement : Char := '\uFFFD'

/-- The rest of a character: how many more bytes it has, between which bounds the next one lies,
and the number that the bytes so far denote. -/
structure Pending where
  more : Nat
  low : Nat
  high : Nat
  value : Nat

/-- The first byte of a character. -/
def begins (byte : Nat) : List Char × Option Pending :=
  if byte < 0x80 then ([Char.ofNat byte], none)
  else if byte < 0xC2 then ([replacement], none)
  else if byte < 0xE0 then ([], some ⟨0, 0x80, 0xBF, byte - 0xC0⟩)
  else if byte = 0xE0 then ([], some ⟨1, 0xA0, 0xBF, 0⟩)
  else if byte = 0xED then ([], some ⟨1, 0x80, 0x9F, 0xD⟩)
  else if byte < 0xF0 then ([], some ⟨1, 0x80, 0xBF, byte - 0xE0⟩)
  else if byte = 0xF0 then ([], some ⟨2, 0x90, 0xBF, 0⟩)
  else if byte < 0xF4 then ([], some ⟨2, 0x80, 0xBF, byte - 0xF0⟩)
  else if byte = 0xF4 then ([], some ⟨2, 0x80, 0x8F, 4⟩)
  else ([replacement], none)

/-- Each longest start of a character that is not completed is replaced as one. -/
@[grind =]
def decodeFrom : Option Pending → List UInt8 → List Char
  | none, [] => []
  | some _, [] => [replacement]
  | none, byte :: bytes =>
    (begins byte.toNat).1 ++ decodeFrom (begins byte.toNat).2 bytes
  | some pending, byte :: bytes =>
    if pending.low ≤ byte.toNat ∧ byte.toNat ≤ pending.high then
      let value := pending.value * 64 + (byte.toNat - 0x80)
      match pending.more with
      | 0 => Char.ofNat value :: decodeFrom none bytes
      | more + 1 => decodeFrom (some ⟨more, 0x80, 0xBF, value⟩) bytes
    else
      replacement :: ((begins byte.toNat).1 ++ decodeFrom (begins byte.toNat).2 bytes)

def decode : List UInt8 → List Char := decodeFrom none

def encode (text : List Char) : List UInt8 := text.flatMap String.utf8EncodeChar

theorem decodeFrom_continued {pending : Pending} {byte : UInt8}
    (within : pending.low ≤ byte.toNat ∧ byte.toNat ≤ pending.high) (bytes : List UInt8) :
    decodeFrom (some pending) (byte :: bytes) =
      match pending.more with
      | 0 => Char.ofNat (pending.value * 64 + (byte.toNat - 0x80)) :: decodeFrom none bytes
      | more + 1 =>
        decodeFrom (some ⟨more, 0x80, 0xBF, pending.value * 64 + (byte.toNat - 0x80)⟩)
          bytes := by
  rw [decodeFrom, if_pos within]

theorem toNat_ofNat_small {number : Nat} (small : number < 256) :
    (UInt8.ofNat number).toNat = number := by
  rw [UInt8.toNat_ofNat']
  omega

/-- The numbers of characters leave out the surrogates. -/
theorem char_bounds (c : Char) :
    c.toNat < 0xD800 ∨ 0xDFFF < c.toNat ∧ c.toNat < 0x110000 := by
  have valid := c.valid
  rw [UInt32.isValidChar, Nat.isValidChar] at valid
  exact valid

/-- The bytes of a character that is not an ASCII one are none either. -/
theorem byte_of_char (c : Char) :
    ∀ byte ∈ String.utf8EncodeChar c, byte.toNat = c.toNat ∨ 128 ≤ byte.toNat := by
  have value : c.val.toNat = c.toNat := rfl
  have high {number : Nat} (lower : 128 ≤ number) (upper : number < 256) :
      (UInt8.ofNat number).toNat = c.toNat ∨ 128 ≤ (UInt8.ofNat number).toNat := by
    rw [toNat_ofNat_small upper]
    exact Or.inr lower
  have none : ∀ byte ∈ ([] : List UInt8), byte.toNat = c.toNat ∨ 128 ≤ byte.toNat := by simp
  rw [String.utf8EncodeChar, value]
  split_ifs with one two three
  · rw [List.forall_mem_singleton, toNat_ofNat_small (by omega)]
    exact Or.inl rfl
  all_goals
    simp only [List.forall_mem_cons]
  · exact ⟨high (by omega) (by omega), high (by omega) (by omega), none⟩
  · exact ⟨high (by omega) (by omega), high (by omega) (by omega), high (by omega) (by omega), none⟩
  · exact ⟨high (by omega) (by omega), high (by omega) (by omega), high (by omega) (by omega),
      high (by omega) (by omega), none⟩

theorem begins_three {byte : Nat} (lower : 0xE0 ≤ byte) (upper : byte < 0xF0) :
    begins byte = ([], some ⟨1, if byte = 0xE0 then 0xA0 else 0x80,
      if byte = 0xED then 0x9F else 0xBF, byte - 0xE0⟩) := by
  rw [begins, if_neg (by omega), if_neg (by omega), if_neg (by omega)]
  by_cases first : byte = 0xE0
  · rw [if_pos first, if_pos first, if_neg (by omega), first]
  · rw [if_neg first, if_neg first]
    by_cases middle : byte = 0xED
    · rw [if_pos middle, if_pos middle, middle]
    · rw [if_neg middle, if_neg middle, if_pos upper]

theorem begins_four {byte : Nat} (lower : 0xF0 ≤ byte) (upper : byte ≤ 0xF4) :
    begins byte = ([], some ⟨2, if byte = 0xF0 then 0x90 else 0x80,
      if byte = 0xF4 then 0x8F else 0xBF, byte - 0xF0⟩) := by
  rw [begins, if_neg (by omega), if_neg (by omega), if_neg (by omega), if_neg (by omega),
    if_neg (by omega), if_neg (by omega)]
  by_cases first : byte = 0xF0
  · rw [if_pos first, if_pos first, if_neg (by omega), first]
  · rw [if_neg first, if_neg first]
    by_cases last : byte = 0xF4
    · rw [if_neg (by omega), if_pos last, if_pos last, last]
    · rw [if_pos (by omega), if_neg last]

/-- A byte that continues a character, given by its six bits. -/
theorem decodeFrom_tail {more low high value bits : Nat} (small : bits < 0x40)
    (within : low ≤ bits + 0x80 ∧ bits + 0x80 ≤ high) (bytes : List UInt8) :
    decodeFrom (some ⟨more, low, high, value⟩) (UInt8.ofNat (bits + 0x80) :: bytes) =
      match more with
      | 0 => Char.ofNat (value * 64 + bits) :: decodeFrom none bytes
      | more + 1 => decodeFrom (some ⟨more, 0x80, 0xBF, value * 64 + bits⟩) bytes := by
  have byte : (UInt8.ofNat (bits + 0x80)).toNat = bits + 0x80 := toNat_ofNat_small (by omega)
  rw [decodeFrom_continued (by rw [byte]; exact within), byte, Nat.add_sub_cancel]

theorem decode_char (c : Char) (bytes : List UInt8) :
    decodeFrom none (String.utf8EncodeChar c ++ bytes) = c :: decodeFrom none bytes := by
  have bounds := char_bounds c
  have value : c.val.toNat = c.toNat := rfl
  have whole := Char.ofNat_toNat c
  generalize c.toNat = number at bounds value whole
  rw [String.utf8EncodeChar, value]
  by_cases one : number ≤ 0x7f
  · rw [if_pos one, List.cons_append, decodeFrom, toNat_ofNat_small (by omega), begins,
      if_pos (by omega), whole]
    rfl
  · rw [if_neg one]
    by_cases two : number ≤ 0x7ff
    · have sum : (number / 64 % 0x20 + 0xc0 - 0xC0) * 64 + number % 0x40 = number := by omega
      rw [if_pos two, List.cons_append, List.cons_append, decodeFrom,
        toNat_ofNat_small (by omega), begins, if_neg (by omega), if_neg (by omega),
        if_pos (by omega), decodeFrom_tail (by omega) (by omega), sum, whole]
      rfl
    · rw [if_neg two]
      by_cases three : number ≤ 0xffff
      · have sum : ((number / 4096 % 0x10 + 0xe0 - 0xE0) * 64 + number / 64 % 0x40) * 64 +
            number % 0x40 = number := by omega
        rw [if_pos three, List.cons_append, List.cons_append, List.cons_append, decodeFrom,
          toNat_ofNat_small (by omega), begins_three (by omega) (by omega),
          decodeFrom_tail (by omega) (by split <;> split <;> omega)]
        simp only
        rw [decodeFrom_tail (by omega) (by omega), sum, whole]
        rfl
      · have sum : (((number / 262144 % 0x08 + 0xf0 - 0xF0) * 64 + number / 4096 % 0x40) * 64 +
            number / 64 % 0x40) * 64 + number % 0x40 = number := by omega
        rw [if_neg three, List.cons_append, List.cons_append, List.cons_append, List.cons_append,
          decodeFrom, toNat_ofNat_small (by omega), begins_four (by omega) (by omega),
          decodeFrom_tail (by omega) (by split <;> split <;> omega)]
        simp only
        rw [decodeFrom_tail (by omega) (by omega)]
        simp only
        rw [decodeFrom_tail (by omega) (by omega), sum, whole]
        rfl

/-- Nothing is replaced in a text that was encoded. -/
theorem decode_encode (text : List Char) : decode (encode text) = text := by
  induction text with
  | nil => rfl
  | cons c text ih =>
    rw [encode, List.flatMap_cons, decode, decode_char]
    exact congrArg _ ih

/-- The length in bytes. -/
def size (text : List Char) : Nat := (text.map Char.utf8Size).sum

theorem size_cons (c : Char) (text : List Char) : size (c :: text) = c.utf8Size + size text := by
  rw [size, List.map_cons, List.sum_cons, size]

theorem size_append (front back : List Char) : size (front ++ back) = size front + size back := by
  rw [size, List.map_append, List.sum_append, size, size]

variable {text : List Char}

theorem size_ascii (ascii : ∀ c ∈ text, c.val ≤ 127) : size text = text.length := by
  induction text with
  | nil => rfl
  | cons c text ih =>
    rw [List.forall_mem_cons] at ascii
    rw [size_cons, Char.utf8Size_eq_one_iff.mpr ascii.1, ih ascii.2, List.length_cons]
    omega

theorem length_encode (text : List Char) : (encode text).length = size text := by
  induction text with
  | nil => rfl
  | cons c text ih =>
    rw [encode, List.flatMap_cons, List.length_append, String.length_utf8EncodeChar, ← encode, ih,
      size_cons]

theorem eq_nil_of_size (empty : size text = 0) : text = [] := by
  cases text with
  | nil => rfl
  | cons c text =>
    have positive := c.utf8Size_pos
    rw [size_cons] at empty
    omega

/-- A part of a text that is as long as the text is all of it. -/
theorem eq_of_infix {part : List Char} (inside : part <:+: text) (long : size text ≤ size part) :
    part = text := by
  obtain ⟨front, back, whole⟩ := inside
  rw [← whole, size_append, size_append] at long
  have noFront : front = [] := eq_nil_of_size (by omega)
  have noBack : back = [] := eq_nil_of_size (by omega)
  rw [← whole, noFront, noBack, List.nil_append, List.append_nil]

/-- The characters before a byte, if one starts there or the text ends there (`&text[..cut]`). -/
@[grind =]
def slice : Nat → List Char → Option (List Char)
  | 0, _ => some []
  | _ + 1, [] => none
  | cut + 1, c :: text =>
    if c.utf8Size ≤ cut + 1 then (slice (cut + 1 - c.utf8Size) text).map (c :: ·) else none

/-- The byte is where a character starts, or the text ends. -/
def Boundary (cut : Nat) (text : List Char) : Prop :=
  ∃ front back, text = front ++ back ∧ size front = cut

theorem slice_eq_some {cut : Nat} {front : List Char} :
    slice cut text = some front ↔ front <+: text ∧ size front = cut := by
  induction text generalizing cut front with
  | nil =>
    cases cut with
    | zero =>
      rw [slice, Option.some_inj, List.prefix_nil]
      constructor
      · rintro rfl
        exact ⟨rfl, rfl⟩
      · exact fun both => both.1.symm
    | succ cut =>
      rw [slice, List.prefix_nil]
      refine iff_of_false (by simp) ?_
      rintro ⟨rfl, long⟩
      simp [size] at long
  | cons c text ih =>
    have positive := c.utf8Size_pos
    cases cut with
    | zero =>
      rw [slice, Option.some_inj]
      constructor
      · rintro rfl
        exact ⟨List.nil_prefix, rfl⟩
      · rintro ⟨opens, short⟩
        cases front with
        | nil => rfl
        | cons d front =>
          have other := d.utf8Size_pos
          rw [size_cons] at short
          omega
    | succ cut =>
      rw [slice]
      cases front with
      | nil =>
        refine iff_of_false ?_ (by simp [size])
        split <;> simp
      | cons d front =>
        rw [List.cons_prefix_cons, size_cons]
        split
        · rename_i fits
          rw [Option.map_eq_some_iff]
          constructor
          · rintro ⟨rest, cut, same⟩
            injection same with head tail
            subst head tail
            obtain ⟨opens, length⟩ := ih.mp cut
            exact ⟨⟨rfl, opens⟩, by omega⟩
          · rintro ⟨⟨rfl, opens⟩, length⟩
            exact ⟨front, ih.mpr ⟨opens, by omega⟩, rfl⟩
        · rename_i long
          refine iff_of_false (by simp) ?_
          rintro ⟨⟨rfl, -⟩, length⟩
          omega

theorem slice_eq_none {cut : Nat} : slice cut text = none ↔ ¬ Boundary cut text := by
  constructor
  · rintro missing ⟨front, back, rfl, length⟩
    rw [slice_eq_some.mpr ⟨List.prefix_append front back, length⟩] at missing
    cases missing
  · intro inside
    cases sliced : slice cut text with
    | none => rfl
    | some front =>
      obtain ⟨⟨back, whole⟩, length⟩ := slice_eq_some.mp sliced
      exact absurd ⟨front, back, whole.symm, length⟩ inside

end Utf8
