import DddCqrsEs.AppendAtomic
import DddCqrsEs.Decimal
import DddCqrsEs.RedisExecutors
import DddCqrsEs.RedisReads

/- What `str::parse` makes of decimal texts. -/
namespace DddCqrsEs

/-- `str::parse` of an unsigned type, with its own messages. -/
def parseUnsigned (limit : Nat) (text : String) : Except String Nat :=
  match text.toList with
  | [] => .error "cannot parse integer from empty string"
  | c :: rest =>
    if c = '+' then
      if rest = [] then .error "invalid digit found in string"
      else parseDigits limit "number too large to fit in target type" 0 rest
    else parseDigits limit "number too large to fit in target type" 0 (c :: rest)

def parseU32 : String → Except String Nat := parseUnsigned (2 ^ 32 - 1)

/-- The text of an integer. -/
def integerText (number : Int) : String := String.ofList (Decimal.write number)

variable {limit number : Nat} {text rest : List Char}

theorem parseDigits_iff {value : Nat} {overflow : String} (within : value ≤ limit) :
    parseDigits limit overflow value text = .ok number ↔
      text.all Char.isDigit = true ∧ Nat.ofDigitChars 10 text value = number ∧ number ≤ limit := by
  induction text generalizing value with
  | nil =>
    simp only [parseDigits, Except.ok.injEq, List.all_nil, Nat.ofDigitChars_nil, true_and]
    constructor
    · rintro rfl
      exact ⟨rfl, within⟩
    · exact And.left
  | cons c rest ih =>
    rw [parseDigits, Nat.ofDigitChars_cons, List.all_cons, Nat.mul_comm 10 value]
    by_cases digit : c.isDigit = true
    · rw [if_pos digit, digit, Bool.true_and]
      by_cases room : value * 10 + (c.toNat - '0'.toNat) ≤ limit
      · rw [if_pos room, ih room]
      · rw [if_neg room]
        have grown : value * 10 + (c.toNat - '0'.toNat) ≤
            Nat.ofDigitChars 10 rest (value * 10 + (c.toNat - '0'.toNat)) := ofDigitChars_mono
        constructor
        · intro impossible
          cases impossible
        · rintro ⟨_, same, bound⟩
          omega
    · rw [if_neg digit]
      simp [digit]

theorem parseU64Digits_eq (value : Nat) (text : List Char) :
    parseU64Digits value text =
      parseDigits (2 ^ 64 - 1) "number too large to fit in target type" value text := by
  induction text generalizing value with
  | nil => rfl
  | cons c rest ih =>
    rw [parseU64Digits, parseDigits]
    by_cases digit : c.isDigit = true
    · rw [if_pos digit, if_pos digit]
      by_cases room : value * 10 + (c.toNat - '0'.toNat) < 2 ^ 64
      · rw [if_pos room, if_pos (by omega), ih]
      · rw [if_neg room, if_neg (by omega)]
    · rw [if_neg digit, if_neg digit]

/-- Digits are parsed as the number they denote, up to the limit. -/
theorem parseDigits_unsigned {overflow : String} (some_digit : text ≠ []) :
    parseDigits limit overflow 0 text = .ok number ↔
      Decimal.unsigned text = some number ∧ number ≤ limit := by
  rw [parseDigits_iff (Nat.zero_le _), Decimal.unsigned]
  by_cases digits : text.all Char.isDigit = true
  · rw [if_pos ⟨some_digit, digits⟩, Option.some.injEq]
    exact ⟨And.right, fun same => ⟨digits, same⟩⟩
  · rw [if_neg (fun both => digits both.2)]
    simp [digits]

theorem unsigned_empty (number : Nat) : Decimal.unsigned [] ≠ some number := by
  simp [Decimal.unsigned]

theorem parseUnsigned_cons {text : String} {c : Char} (starts : text.toList = c :: rest) :
    parseUnsigned limit text =
      if c = '+' then
        if rest = [] then .error "invalid digit found in string"
        else parseDigits limit "number too large to fit in target type" 0 rest
      else parseDigits limit "number too large to fit in target type" 0 (c :: rest) := by
  rw [parseUnsigned, starts]

theorem withoutPlus_other {c : Char} (other : c ≠ '+') :
    Decimal.withoutPlus (c :: rest) = c :: rest := by
  rw [Decimal.withoutPlus]
  intro digits same
  exact other (List.cons.inj same).1

theorem parseUnsigned_iff {limit number : Nat} {text : String} :
    parseUnsigned limit text = .ok number ↔
      Decimal.unsigned (Decimal.withoutPlus text.toList) = some number ∧ number ≤ limit := by
  cases whole : text.toList with
  | nil =>
    rw [parseUnsigned, whole]
    exact iff_of_false (by simp) (fun read => unsigned_empty number read.1)
  | cons c rest =>
    rw [parseUnsigned_cons whole]
    by_cases plus : c = '+'
    · rw [if_pos plus, plus, Decimal.withoutPlus]
      by_cases alone : rest = []
      · rw [if_pos alone, alone]
        exact iff_of_false (by simp) (fun read => unsigned_empty number read.1)
      · rw [if_neg alone, parseDigits_unsigned alone]
    · rw [if_neg plus, withoutPlus_other plus, parseDigits_unsigned (List.cons_ne_nil c rest)]

theorem parseU64_eq (text : String) : parseU64 text = parseUnsigned (2 ^ 64 - 1) text := by
  rw [parseU64]
  split
  · rename_i whole
    rw [parseUnsigned, whole]
  · rename_i whole
    rw [parseUnsigned_cons whole, if_pos rfl, if_pos rfl]
  · rename_i digits alone whole
    rw [parseUnsigned_cons whole, if_pos rfl, if_neg (fun empty => alone (by rw [empty])),
      parseU64Digits_eq]
  · rename_i some_digit alone plus
    cases whole : text.toList with
    | nil => exact absurd whole some_digit
    | cons c rest =>
      have unsigned : c ≠ '+' := by
        rintro rfl
        exact plus rest whole
      rw [parseUnsigned_cons whole, if_neg unsigned, parseU64Digits_eq]

theorem parseU64_iff {text : String} :
    parseU64 text = .ok number ↔
      Decimal.unsigned (Decimal.withoutPlus text.toList) = some number ∧ number < 2 ^ 64 := by
  rw [parseU64_eq, parseUnsigned_iff]
  have bound : number ≤ 2 ^ 64 - 1 ↔ number < 2 ^ 64 := by omega
  rw [bound]

theorem map_ok_iff {ε α β : Type} {first : Except ε α} {f : α → β} {value : β} :
    first.map f = .ok value ↔ ∃ read, first = .ok read ∧ f read = value := by
  cases first with
  | error error => simp [Except.map]
  | ok read => simp [Except.map]

/-- Digits read as a number up to the largest. -/
theorem parseDigits_map {number : Int} (some_digit : text ≠ []) :
    (parseDigits i64Max "number too large to fit in target type" 0 text).map Int.ofNat =
        .ok number ↔
      (Decimal.unsigned text).map Int.ofNat = some number ∧ inI64 number = true := by
  rw [map_ok_iff, Option.map_eq_some_iff]
  simp only [parseDigits_unsigned some_digit]
  constructor
  · rintro ⟨value, ⟨read, within⟩, rfl⟩
    exact ⟨⟨value, read, rfl⟩, decide_eq_true within⟩
  · rintro ⟨⟨value, read, rfl⟩, within⟩
    exact ⟨value, ⟨read, of_decide_eq_true within⟩, rfl⟩

/-- Digits read as a number down to the smallest. -/
theorem parseDigits_negated {number : Int} (some_digit : text ≠ []) :
    (parseDigits (2 ^ 63) "number too small to fit in target type" 0 text).map
        (fun value => -(value : Int)) = .ok number ↔
      (Decimal.unsigned text).map (fun value : Nat => -(value : Int)) = some number ∧
        inI64 number = true := by
  have bound : ∀ value : Nat, inI64 (-(value : Int)) = true ↔ value ≤ 2 ^ 63 := by
    intro value
    cases value with
    | zero => simp [inI64, i64Max]
    | succ value =>
      rw [show -((value + 1 : Nat) : Int) = Int.negSucc value by omega, inI64, decide_eq_true_eq,
        i64Max]
      omega
  have cast : ∀ read : Except String Nat,
      (read >>= fun value => pure (value : Int)) = read.map Int.ofNat := by
    intro read
    cases read <;> rfl
  rw [map_ok_iff, Option.map_eq_some_iff, cast]
  constructor
  · rintro ⟨negated, mapped, rfl⟩
    obtain ⟨value, parsed, rfl⟩ := map_ok_iff.mp mapped
    obtain ⟨read, within⟩ := (parseDigits_unsigned some_digit).mp parsed
    exact ⟨⟨value, read, rfl⟩, (bound value).mpr within⟩
  · rintro ⟨⟨value, read, rfl⟩, within⟩
    apply Exists.intro (value : Int)
    rw [(parseDigits_unsigned some_digit).mpr ⟨read, (bound value).mp within⟩]
    exact ⟨rfl, rfl⟩

theorem parseSigned_iff {text : String} {number : Int} :
    parseSigned text = .ok number ↔
      Decimal.signed text.toList = some number ∧ inI64 number = true := by
  have unread : ∀ text, text = [] ∨ text = ['-'] ∨ text = ['+'] → Decimal.signed text = none := by
    rintro text (rfl | rfl | rfl) <;> rfl
  rw [parseSigned]
  split
  · rename_i whole
    rw [whole]
    rw [unread _ (.inl rfl)]
    simp
  · rename_i whole
    rw [whole]
    rw [unread _ (.inr (.inl rfl))]
    simp
  · rename_i whole
    rw [whole]
    rw [unread _ (.inr (.inr rfl))]
    simp
  · rename_i digits alone whole
    rw [whole]
    exact parseDigits_negated (fun empty => alone (by rw [empty]))
  · rename_i digits alone whole
    rw [whole]
    exact parseDigits_map (fun empty => alone (by rw [empty]))
  · rename_i some_digit _ _ minus plus
    rw [Decimal.signed.eq_def]
    split
    · rename_i rest whole
      exact absurd whole (minus rest)
    · rename_i rest whole
      exact absurd whole (plus rest)
    · exact parseDigits_map some_digit

theorem parseSigned_integerText (number value : Int) :
    parseSigned (integerText number) = .ok value ↔ number = value ∧ inI64 value = true := by
  rw [parseSigned_iff, integerText, String.toList_ofList, Decimal.signed_write, Option.some.injEq]

theorem parseSigned_repr (small : number ≤ i64Max) :
    parseSigned (Nat.repr number) = .ok (number : Int) :=
  (parseSigned_integerText (number : Int) number).mpr ⟨rfl, decide_eq_true small⟩

theorem integerText_inj {first second : Int} (same : integerText first = integerText second) :
    first = second :=
  Decimal.write_inj (String.ofList_injective same)

end DddCqrsEs
