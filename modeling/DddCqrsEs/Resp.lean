import DddCqrsEs.Decimal

/- The serialization protocol of Redis: replies, their bytes, and the frames that a stream of
bytes is made of. Nothing here names an application or a client. -/
namespace Resp

abbrev Bytes := List UInt8

def byte (c : Char) : UInt8 := c.toUInt8

def lineFeed : UInt8 := 10

def crlf : Bytes := [13, 10]

def textBytes (text : String) : Bytes := text.toByteArray.data.toList

variable {first second text : String} {body rest more : Bytes}

theorem textBytes_inj (same : textBytes first = textBytes second) : first = second :=
  String.toByteArray_inj.mp (ByteArray.ext (Array.toList_inj.mp same))

/-- A reply; an error stands wherever a value may. -/
inductive Value where
  | nil
  | status (text : String)
  | error (text : String)
  | integer (number : Int)
  | bulk (bytes : Bytes)
  | array (items : List Value)

/-- What the first byte of a frame announces. -/
inductive Kind where
  | status
  | error
  | integer
  | bulk
  | array
  deriving DecidableEq

def Kind.mark : Kind → UInt8
  | .status => byte '+'
  | .error => byte '-'
  | .integer => byte ':'
  | .bulk => byte '$'
  | .array => byte '*'

def Kind.ofMark (mark : UInt8) : Option Kind :=
  if mark = byte '+' then some .status
  else if mark = byte '-' then some .error
  else if mark = byte ':' then some .integer
  else if mark = byte '$' then some .bulk
  else if mark = byte '*' then some .array
  else none

variable {kind : Kind} {values items : List Value} {value : Value}

theorem Kind.ofMark_iff {mark : UInt8} : Kind.ofMark mark = some kind ↔ mark = kind.mark := by
  constructor
  · intro found
    rw [Kind.ofMark] at found
    split at found
    · cases found
      assumption
    · split at found
      · cases found
        assumption
      · split at found
        · cases found
          assumption
        · split at found
          · cases found
            assumption
          · split at found
            · cases found
              assumption
            · cases found
  · rintro rfl
    cases kind <;> decide

theorem Kind.mark_inj {first second : Kind} (same : first.mark = second.mark) : first = second := by
  have found := Kind.ofMark_iff.mpr same
  rw [Kind.ofMark_iff.mpr rfl] at found
  exact Option.some.inj found

/-- A line: the text and its end. -/
def line (text : String) : Bytes := textBytes text ++ crlf

def numberText (number : Int) : String := String.ofList (Decimal.write number)

def bulkFrame (bytes : Bytes) : Bytes :=
  Kind.bulk.mark :: (line (numberText bytes.length) ++ (bytes ++ crlf))

mutual

def encode : Value → Bytes
  | .nil => Kind.bulk.mark :: line (numberText (-1))
  | .status text => Kind.status.mark :: line text
  | .error text => Kind.error.mark :: line text
  | .integer number => Kind.integer.mark :: line (numberText number)
  | .bulk bytes => bulkFrame bytes
  | .array items => Kind.array.mark :: (line (numberText items.length) ++ encodeAll items)

def encodeAll : List Value → Bytes
  | [] => []
  | item :: items => encode item ++ encodeAll items

end

/-- A text that fits on one line. -/
def OneLine (text : String) : Prop := lineFeed ∉ textBytes text

/-- What follows the first line of a frame that holds no other frame; a negative length is a
nil. -/
inductive Scalar : Kind → String → Bytes → Value → Prop where
  | status {text : String} : Scalar .status text [] (.status text)
  | error {text : String} : Scalar .error text [] (.error text)
  | integer {text : String} {number : Int} (denotes : Decimal.signed text.toList = some number) :
      Scalar .integer text [] (.integer number)
  | bulk {text : String} {bytes : Bytes}
      (denotes : Decimal.signed text.toList = some (bytes.length : Int)) :
      Scalar .bulk text (bytes ++ crlf) (.bulk bytes)
  | nilBulk {text : String} {number : Int} (denotes : Decimal.signed text.toList = some number)
      (negative : number < 0) : Scalar .bulk text [] .nil
  | nilArray {text : String} {number : Int} (denotes : Decimal.signed text.toList = some number)
      (negative : number < 0) : Scalar .array text [] .nil

/-- Bytes that are a sequence of frames for these values. -/
inductive Frames : Bytes → List Value → Prop where
  | nil : Frames [] []
  | scalar {kind : Kind} {text : String} {body rest : Bytes} {value : Value} {values : List Value}
      (oneLine : OneLine text) (first : Scalar kind text body value)
      (others : Frames rest values) :
      Frames (kind.mark :: (line text ++ (body ++ rest))) (value :: values)
  | array {text : String} {body rest : Bytes} {items values : List Value}
      (oneLine : OneLine text) (denotes : Decimal.signed text.toList = some (items.length : Int))
      (inside : Frames body items) (others : Frames rest values) :
      Frames (Kind.array.mark :: (line text ++ (body ++ rest))) (.array items :: values)

def Frame (bytes : Bytes) (value : Value) : Prop := Frames bytes [value]

theorem Frames.append {first second : Bytes} {others : List Value} (one : Frames first values)
    (two : Frames second others) : Frames (first ++ second) (values ++ others) := by
  induction one with
  | nil => exact two
  | scalar oneLine head _ ih =>
    have longer := Frames.scalar oneLine head ih
    simpa using longer
  | array oneLine denotes inside _ _ ih =>
    have longer := Frames.array oneLine denotes inside ih
    simpa using longer

theorem Scalar.frame (oneLine : OneLine text) (scalar : Scalar kind text body value) :
    Frame (kind.mark :: (line text ++ body)) value := by
  have whole := Frames.scalar oneLine scalar .nil
  rwa [List.append_nil] at whole

theorem frame_array (oneLine : OneLine text)
    (denotes : Decimal.signed text.toList = some (items.length : Int))
    (inside : Frames body items) :
    Frame (Kind.array.mark :: (line text ++ body)) (.array items) := by
  have whole := Frames.array oneLine denotes inside .nil
  rwa [List.append_nil] at whole

/-- What comes before the first line feed is determined. -/
theorem line_unique {other : Bytes} (one : OneLine first) (two : OneLine second)
    (same : line first ++ rest = line second ++ other) : first = second ∧ rest = other := by
  have cut : ∀ {bytes : Bytes} {text : String}, OneLine text →
      (line text ++ bytes).takeWhile (· ≠ lineFeed) = textBytes text ++ [13] := by
    intro bytes text plain
    have front : ∀ b ∈ textBytes text ++ [13], decide (b ≠ lineFeed) = true := by
      intro b member
      rw [List.mem_append, List.mem_singleton] at member
      apply decide_eq_true
      rcases member with inside | rfl
      · exact fun equal => plain (equal ▸ inside)
      · decide
    have whole : line text ++ bytes = (textBytes text ++ [13]) ++ lineFeed :: bytes := by
      simp [line, crlf, lineFeed]
    rw [whole, List.takeWhile_append_of_pos front, List.takeWhile_cons_of_neg (by simp),
      List.append_nil]
  have texts := congrArg (List.takeWhile (· ≠ lineFeed)) same
  rw [cut one, cut two, List.append_left_inj] at texts
  have equal := textBytes_inj texts
  rw [equal, List.append_cancel_left_eq] at same
  exact ⟨equal, same⟩

theorem header_unique {other : Kind} (one : OneLine first) (two : OneLine second)
    (same : kind.mark :: (line first ++ rest) = other.mark :: (line second ++ more)) :
    kind = other ∧ first = second ∧ rest = more := by
  obtain ⟨marks, lines⟩ := List.cons.inj same
  obtain ⟨texts, rests⟩ := line_unique one two lines
  exact ⟨Kind.mark_inj marks, texts, rests⟩

theorem Scalar.unique {other : Bytes} {found : Value} (one : Scalar kind text body value)
    (two : Scalar kind text other found) (same : body ++ rest = other ++ more) :
    body = other ∧ value = found := by
  cases one with
  | status =>
    cases two
    exact ⟨rfl, rfl⟩
  | error =>
    cases two
    exact ⟨rfl, rfl⟩
  | integer denotes =>
    cases two with
    | integer again =>
      rw [denotes] at again
      cases again
      exact ⟨rfl, rfl⟩
  | bulk denotes =>
    cases two with
    | bulk again =>
      rw [denotes] at again
      have lengths := Int.ofNat_inj.mp (Option.some.inj again)
      rw [List.append_assoc, List.append_assoc] at same
      have bodies := (List.append_inj same lengths).1
      rw [bodies]
      exact ⟨rfl, rfl⟩
    | nilBulk again negative =>
      rw [denotes] at again
      cases again
      omega
  | nilBulk denotes negative =>
    cases two with
    | bulk again =>
      rw [denotes] at again
      cases again
      omega
    | nilBulk again _ => exact ⟨rfl, rfl⟩
  | nilArray denotes negative =>
    cases two with
    | nilArray again _ => exact ⟨rfl, rfl⟩

/-- As many frames from the same bytes are the same frames. -/
theorem Frames.unique {first : Bytes} (one : Frames first values) :
    ∀ {second rest more : Bytes} {others : List Value}, Frames second others →
      values.length = others.length → first ++ rest = second ++ more →
      first = second ∧ values = others := by
  induction one with
  | nil =>
    intro second rest more others two lengths _
    cases two with
    | nil => exact ⟨rfl, rfl⟩
    | scalar _ _ _ => cases lengths
    | array _ _ _ _ => cases lengths
  | scalar oneLine head _ ih =>
    intro second rest more others two lengths same
    cases two with
    | nil => cases lengths
    | scalar otherLine otherHead otherRest =>
      simp only [List.cons_append, List.append_assoc] at same
      obtain ⟨rfl, rfl, bodies⟩ := header_unique oneLine otherLine same
      obtain ⟨rfl, rfl⟩ := head.unique otherHead bodies
      obtain ⟨rfl, rfl⟩ := ih otherRest (Nat.succ.inj lengths)
        (List.append_cancel_left bodies)
      exact ⟨rfl, rfl⟩
    | array otherLine denotes inside otherRest =>
      simp only [List.cons_append, List.append_assoc] at same
      obtain ⟨rfl, rfl, _⟩ := header_unique oneLine otherLine same
      cases head with
      | nilArray negated negative =>
        rw [denotes] at negated
        cases negated
        omega
  | array oneLine denotes inside _ inner ih =>
    intro second rest more others two lengths same
    cases two with
    | nil => cases lengths
    | scalar otherLine otherHead otherRest =>
      simp only [List.cons_append, List.append_assoc] at same
      obtain ⟨rfl, rfl, _⟩ := header_unique oneLine otherLine same
      cases otherHead with
      | nilArray negated negative =>
        rw [denotes] at negated
        cases negated
        omega
    | array otherLine otherDenotes otherInside otherRest =>
      simp only [List.cons_append, List.append_assoc] at same
      obtain ⟨_, rfl, bodies⟩ := header_unique oneLine otherLine same
      rw [denotes] at otherDenotes
      have counts := Int.ofNat_inj.mp (Option.some.inj otherDenotes)
      obtain ⟨rfl, rfl⟩ := inner otherInside counts bodies
      obtain ⟨rfl, rfl⟩ := ih otherRest (Nat.succ.inj lengths)
        (List.append_cancel_left bodies)
      exact ⟨rfl, rfl⟩

/-- A frame is determined by any bytes that start with it. -/
theorem frame_unique {first second : Bytes} {other : Value} (one : Frame first value)
    (two : Frame second other) (same : first ++ rest = second ++ more) :
    first = second ∧ value = other := by
  obtain ⟨bytes, values⟩ := Frames.unique one two rfl same
  exact ⟨bytes, (List.cons.inj values).1⟩

theorem textBytes_ascii {chars : List Char} (ascii : ∀ c ∈ chars, c.val ≤ 127) :
    textBytes (String.ofList chars) = chars.map byte := by
  rw [textBytes, String.toByteArray_ofList, List.utf8Encode, List.data_toByteArray]
  induction chars with
  | nil => rfl
  | cons c rest ih =>
    have single := String.utf8EncodeChar_eq_singleton
      (Char.utf8Size_eq_one_iff.mpr (ascii c List.mem_cons_self))
    rw [List.flatMap_cons, single, List.map_cons]
    exact congrArg (_ :: ·) (ih (fun d member => ascii d (List.mem_cons_of_mem c member)))

theorem sign_or_digit {c : Char} (shown : c = '-' ∨ c.isDigit = true) :
    c.val ≤ 127 ∧ byte c ≠ lineFeed := by
  rcases shown with rfl | digit
  · decide
  · rw [Char.isDigit, Bool.and_eq_true, decide_eq_true_eq, decide_eq_true_eq] at digit
    have low := UInt32.le_iff_toNat_le.mp digit.1
    have high := UInt32.le_iff_toNat_le.mp digit.2
    simp at low high
    constructor
    · rw [UInt32.le_iff_toNat_le]
      simp
      omega
    · intro same
      have value : c.val.toUInt8.toNat = 10 := congrArg UInt8.toNat same
      rw [UInt32.toNat_toUInt8] at value
      change c.val.toNat % 256 = 10 at value
      have number : c.toNat = c.val.toNat := rfl
      omega

theorem mem_write {number : Int} {c : Char} (member : c ∈ Decimal.write number) :
    c = '-' ∨ c.isDigit = true := by
  have digits : ∀ n : Nat, c ∈ Nat.toDigits 10 n → c.isDigit = true :=
    fun n inside => List.all_eq_true.mp (Decimal.toDigits_all n) c inside
  cases number with
  | ofNat number => exact .inr (digits number member)
  | negSucc number =>
    rcases List.mem_cons.mp member with rfl | inside
    · exact .inl rfl
    · exact .inr (digits (number + 1) inside)

theorem numberText_eq_toString (number : Int) : numberText number = toString number := by
  cases number with
  | ofNat number => rfl
  | negSucc number =>
    apply String.toList_injective
    show (String.ofList ('-' :: Nat.toDigits 10 (number + 1))).toList =
      ("-" ++ Nat.repr (number + 1)).toList
    have digits : (Nat.repr (number + 1)).toList = Nat.toDigits 10 (number + 1) :=
      String.toList_ofList
    rw [String.toList_ofList, String.toList_append, digits]
    rfl

theorem numberText_oneLine (number : Int) : OneLine (numberText number) := by
  intro fed
  rw [numberText, textBytes_ascii (fun c member => (sign_or_digit (mem_write member)).1),
    List.mem_map] at fed
  obtain ⟨c, member, same⟩ := fed
  exact (sign_or_digit (mem_write member)).2 same

theorem signed_numberText (number : Int) :
    Decimal.signed (numberText number).toList = some number := by
  rw [numberText, String.toList_ofList, Decimal.signed_write]

/-- A reply of statuses on one line, integers, bulk strings, nils and arrays. -/
inductive Plain : Value → Prop where
  | nil : Plain .nil
  | status {text : String} (oneLine : OneLine text) : Plain (.status text)
  | integer (number : Int) : Plain (.integer number)
  | bulk (bytes : Bytes) : Plain (.bulk bytes)
  | array {items : List Value} (each : ∀ item ∈ items, Plain item) : Plain (.array items)

theorem frames_encodeAll (each : ∀ item ∈ items, Frame (encode item) item) :
    Frames (encodeAll items) items := by
  induction items with
  | nil =>
    rw [encodeAll]
    exact .nil
  | cons item items ih =>
    rw [encodeAll]
    exact (each item List.mem_cons_self).append
      (ih (fun other member => each other (List.mem_cons_of_mem item member)))

theorem Plain.frame (plain : Plain value) : Frame (encode value) value := by
  have scalar : ∀ {kind : Kind} {text : String} {value : Value}, OneLine text →
      Scalar kind text [] value → Frame (kind.mark :: line text) value := by
    intro kind text value oneLine head
    have whole := head.frame oneLine
    rwa [List.append_nil] at whole
  induction plain with
  | nil =>
    rw [encode]
    exact scalar (numberText_oneLine _) (.nilBulk (signed_numberText _) (by omega))
  | status oneLine =>
    rw [encode]
    exact scalar oneLine .status
  | integer number =>
    rw [encode]
    exact scalar (numberText_oneLine _) (.integer (signed_numberText _))
  | bulk bytes =>
    rw [encode, bulkFrame]
    exact (Scalar.bulk (signed_numberText _)).frame (numberText_oneLine _)
  | array _ ih =>
    rw [encode]
    exact frame_array (numberText_oneLine _) (signed_numberText _) (frames_encodeAll ih)

end Resp
