import DddCqrsEs.DecimalTexts
import DddCqrsEs.Resp

/- The reader and the writer of the Redis client's own connections: the buffered stream, the
lines and the values that are read from it, and the commands that are written. -/
namespace DddCqrsEs

open Resp

inductive IoErrorKind where
  | interrupted
  | timedOut
  | wouldBlock
  | other
  deriving DecidableEq

structure IoError where
  kind : IoErrorKind
  message : String
  deriving DecidableEq

/-- What one read of the stream returns. -/
inductive Arrival where
  | bytes (first : UInt8) (rest : Bytes)
  | failure (error : IoError)
  deriving DecidableEq

/-- The bytes in the buffer, and what the next reads of the stream return before it is closed. -/
structure BufReader where
  buffer : Bytes
  arrivals : List Arrival
  deriving DecidableEq

inductive RedisClientError where
  | invalidUrl (message : String)
  | io (message : String)
  | timeout
  | redis (message : String)
  | protocol (message : String)
  | connectionDesynced (message : String)
  deriving DecidableEq

def RedisClientError.ofIo (error : IoError) : RedisClientError :=
  match error.kind with
  | .timedOut | .wouldBlock => .timeout
  | .interrupted | .other => .io error.message

/-- The first byte that further reads bring; an interrupted read is made again. -/
def BufReader.fill : List Arrival → Except IoError (Option UInt8) × BufReader
  | [] => (.ok none, ⟨[], []⟩)
  | .bytes first rest :: later => (.ok (some first), ⟨rest, later⟩)
  | .failure error :: later =>
    if error.kind = .interrupted then fill later else (.error error, ⟨[], later⟩)

/-- The next byte, or none where the stream is closed. -/
def BufReader.next (reader : BufReader) : Except IoError (Option UInt8) × BufReader :=
  match reader.buffer with
  | first :: rest => (.ok (some first), ⟨rest, reader.arrivals⟩)
  | [] => BufReader.fill reader.arrivals

/-- A read from the buffered stream, which keeps what it has consumed when it fails. -/
def Read (α : Type) := BufReader → Except RedisClientError α × BufReader

instance Read.monad : Monad Read where
  pure value reader := (.ok value, reader)
  bind first next reader :=
    match first reader with
    | (.ok value, between) => next value between
    | (.error error, between) => (.error error, between)

def Read.fail {α : Type} (error : RedisClientError) : Read α := fun reader => (.error error, reader)

/-- The next byte, or none at the end. -/
def readNext : Read (Option UInt8) := fun reader =>
  match reader.next with
  | (.ok given, after) => (.ok given, after)
  | (.error error, after) => (.error (.ofIo error), after)

def readByte : Read UInt8 := do
  match ← readNext with
  | some first => return first
  | none => Read.fail (.io "failed to fill whole buffer")

def readExact : Nat → Read Bytes
  | 0 => pure []
  | count + 1 => do
      let first ← readByte
      let rest ← readExact count
      return first :: rest

/-- `read_until` on at most so many bytes: up to the first line feed, or the end. -/
def readUntilLineFeed : Nat → Read Bytes
  | 0 => pure []
  | limit + 1 => do
      match ← readNext with
      | some first =>
        if first = lineFeed then return [first]
        else
          let rest ← readUntilLineFeed limit
          return first :: rest
      | none => return []

def maxRespBulkBytes : Nat := 64 * 1024 * 1024
def maxRespLineBytes : Nat := 1024 * 1024
def maxRespArrayLen : Nat := 1000000
def maxRespDepth : Nat := 32

/-- What is the platform's own: the largest `usize`, and the text of an error of `from_utf8`. -/
structure RespPlatform where
  usizeMax : Nat
  utf8Error : Bytes → String
  roomy : maxRespBulkBytes ≤ usizeMax

def fromUtf8 (bytes : Bytes) : Option String := String.fromUTF8? bytes.toByteArray

section Reading

variable (platform : RespPlatform)

def readRespLine : Read String := do
  let bytes ← readUntilLineFeed (maxRespLineBytes + 1)
  if maxRespLineBytes < bytes.length then
    Read.fail (.protocol "RESP line exceeds the maximum length")
  else if ¬crlf <:+ bytes then
    Read.fail (.protocol "RESP line did not end with CRLF")
  else
    match fromUtf8 (bytes.take (bytes.length - 2)) with
    | some text => return text
    | none => Read.fail (.protocol ("RESP line UTF-8: " ++
        platform.utf8Error (bytes.take (bytes.length - 2))))

def readExpectedCrlf : Read Unit := do
  let bytes ← readExact 2
  if bytes = crlf then return ()
  else Read.fail (.protocol "bulk string did not end with CRLF")

def readNumber (what : String) : Read Int := do
  let text ← readRespLine platform
  match parseSigned text with
  | .ok number => return number
  | .error error => Read.fail (.protocol ("invalid " ++ what ++ " `" ++ text ++ "`: " ++ error))

def readBulk : Read Value := do
  let length ← readNumber platform "bulk length"
  if length < 0 then return .nil
  else if platform.usizeMax < length.toNat then
    Read.fail (.protocol "bulk length exceeds usize")
  else if maxRespBulkBytes < length.toNat then
    Read.fail (.protocol ("bulk reply of " ++ toString length.toNat ++ " bytes exceeds the " ++
      toString maxRespBulkBytes ++ " byte limit"))
  else
    let bytes ← readExact length.toNat
    readExpectedCrlf
    return .bulk bytes

def readMany (read : Read Value) : Nat → Read (List Value)
  | 0 => pure []
  | count + 1 => do
      let first ← read
      let rest ← readMany read count
      return first :: rest

def readArray (read : Read Value) : Read Value := do
  let length ← readNumber platform "array length"
  if length < 0 then return .nil
  else if platform.usizeMax < length.toNat then
    Read.fail (.protocol "array length exceeds usize")
  else if maxRespArrayLen < length.toNat then
    Read.fail (.protocol ("array reply of " ++ toString length.toNat ++ " elements exceeds the " ++
      toString maxRespArrayLen ++ " element limit"))
  else
    let values ← readMany read length.toNat
    return .array values

/-- What follows the first byte of a frame; `read` reads the items of an array. -/
def readKind (read : Read Value) : Kind → Read Value
  | .status => do return .status (← readRespLine platform)
  | .error => do
      let text ← readRespLine platform
      Read.fail (.redis text)
  | .integer => do return .integer (← readNumber platform "integer")
  | .bulk => readBulk platform
  | .array => readArray platform read

/-- `read_resp_value_at_depth`, by the levels that are left below the limit. -/
def readRespValueAtDepth : Nat → Read Value
  | 0 => Read.fail (.protocol ("RESP nesting exceeds " ++ toString maxRespDepth ++ " levels"))
  | levels + 1 => do
      let mark ← readByte
      match Kind.ofMark mark with
      | some kind => readKind platform (readRespValueAtDepth levels) kind
      | none => Read.fail (.protocol ("unknown RESP prefix byte `" ++ toString mark.toNat ++ "`"))

def readRespValue : Read Value := readRespValueAtDepth platform maxRespDepth

end Reading

def pushBulk (output bytes : Bytes) : Bytes :=
  output ++ Kind.bulk.mark :: line (numberText bytes.length) ++ bytes ++ crlf

def encodeRespCommand (command : String) (args : List Bytes) : Bytes :=
  args.foldl pushBulk
    (pushBulk (Kind.array.mark :: line (numberText (args.length + 1 : Nat))) (textBytes command))

/-- The reader gives these bytes and is the other reader then. -/
def Offers : BufReader → Bytes → BufReader → Prop
  | reader, [], after => after = reader
  | reader, first :: rest, after =>
    ∃ between, reader.next = (.ok (some first), between) ∧ Offers between rest after

section Readers

variable {α β : Type} {reader after between : BufReader} {value : α} {first : Read α}
  {error : RedisClientError} {bytes : Bytes} {limit levels : Nat} {read : Read Value}

theorem offers_cons {b : UInt8} {rest : Bytes} (given : reader.next = (.ok (some b), between))
    (offered : Offers between rest after) : Offers reader (b :: rest) after :=
  ⟨between, given, offered⟩

theorem offers_append {first second : Bytes} :
    Offers reader (first ++ second) after ↔
      ∃ between, Offers reader first between ∧ Offers between second after := by
  induction first generalizing reader with
  | nil => simp [Offers]
  | cons b first ih =>
    simp only [List.cons_append, Offers, ih]
    constructor
    · rintro ⟨one, given, between, offered, rest⟩
      exact ⟨between, ⟨one, given, offered⟩, rest⟩
    · rintro ⟨between, ⟨one, given, offered⟩, rest⟩
      exact ⟨one, given, between, offered, rest⟩

theorem read_pure : (pure value : Read α) reader = (.ok value, reader) := rfl

theorem read_bind_of_ok {next : α → Read β} (ran : first reader = (.ok value, between)) :
    (first >>= next) reader = next value between := by
  show (match first reader with
    | (.ok value, between) => next value between
    | (.error error, between) => (.error error, between)) = _
  rw [ran]

theorem read_bind_of_error {next : α → Read β} (ran : first reader = (.error error, between)) :
    (first >>= next) reader = (.error error, between) := by
  show (match first reader with
    | (.ok value, between) => next value between
    | (.error error, between) => (.error error, between)) = _
  rw [ran]

theorem read_bind_ok {next : α → Read β} {value : β} :
    (first >>= next) reader = (.ok value, after) ↔
      ∃ found between, first reader = (.ok found, between) ∧
        next found between = (.ok value, after) := by
  constructor
  · intro ran
    cases result : first reader with
    | mk outcome between =>
      cases outcome with
      | ok found =>
        rw [read_bind_of_ok result] at ran
        exact ⟨found, between, rfl, ran⟩
      | error error =>
        rw [read_bind_of_error result] at ran
        cases ran
  · rintro ⟨found, between, ran, rest⟩
    rw [read_bind_of_ok ran, rest]

theorem read_fail_ne : Read.fail error reader ≠ (.ok value, after) := by
  rw [Read.fail]
  simp

theorem readNext_ok {given : Option UInt8} :
    readNext reader = (.ok given, after) ↔ reader.next = (.ok given, after) := by
  rw [readNext]
  split <;> rename_i read <;> rw [read] <;> simp

theorem readByte_ok {b : UInt8} :
    readByte reader = (.ok b, after) ↔ reader.next = (.ok (some b), after) := by
  rw [readByte, read_bind_ok]
  constructor
  · rintro ⟨given, between, ran, rest⟩
    cases given with
    | none => exact absurd rest read_fail_ne
    | some first =>
      cases rest
      exact (readNext_ok).mp ran
  · intro given
    exact ⟨some b, after, (readNext_ok).mpr given, rfl⟩

theorem readExact_ok {count : Nat} :
    readExact count reader = (.ok bytes, after) ↔
      bytes.length = count ∧ Offers reader bytes after := by
  induction count generalizing reader bytes with
  | zero =>
    rw [readExact, read_pure]
    constructor
    · rintro ⟨⟩
      exact ⟨rfl, rfl⟩
    · rintro ⟨empty, offered⟩
      rw [List.length_eq_zero_iff] at empty
      subst empty
      rw [Offers] at offered
      rw [offered]
  | succ count ih =>
    rw [readExact, read_bind_ok]
    constructor
    · rintro ⟨b, between, given, rest⟩
      obtain ⟨later, final, ran, whole⟩ := (read_bind_ok).mp rest
      rw [read_pure] at whole
      cases whole
      obtain ⟨length, offered⟩ := ih.mp ran
      exact ⟨by rw [List.length_cons, length], between, (readByte_ok).mp given, offered⟩
    · rintro ⟨length, offered⟩
      cases bytes with
      | nil => cases length
      | cons b rest =>
        obtain ⟨between, given, offered⟩ := offered
        refine ⟨b, between, (readByte_ok).mpr given, ?_⟩
        rw [read_bind_of_ok (ih.mpr ⟨Nat.succ.inj length, offered⟩), read_pure]

/-- A line feed is read only at the end, and then the bytes were there. -/
theorem readUntilLineFeed_sound (ran : readUntilLineFeed limit reader = (.ok bytes, after)) :
    lineFeed ∉ bytes.dropLast ∧ (lineFeed ∈ bytes → Offers reader bytes after) := by
  induction limit generalizing reader bytes with
  | zero =>
    cases ran
    simp
  | succ limit ih =>
    obtain ⟨given, between, next, ran⟩ := (read_bind_ok).mp ran
    cases given with
    | none =>
      cases ran
      simp
    | some b =>
      dsimp only at ran
      have first := (readNext_ok).mp next
      by_cases final : b = lineFeed
      · rw [if_pos final] at ran
        cases ran
        exact ⟨by simp, fun _ => ⟨after, first, rfl⟩⟩
      · rw [if_neg final] at ran
        obtain ⟨rest, last, read, whole⟩ := (read_bind_ok).mp ran
        cases whole
        obtain ⟨inner, offered⟩ := ih read
        constructor
        · intro member
          cases rest with
          | nil => simp at member
          | cons c rest =>
            rw [List.dropLast_cons_cons] at member
            rcases List.mem_cons.mp member with same | later
            · exact final same.symm
            · exact inner later
        · intro member
          rcases List.mem_cons.mp member with same | later
          · exact absurd same.symm final
          · exact ⟨between, first, offered later⟩

theorem readUntilLineFeed_complete (plain : lineFeed ∉ bytes) (within : bytes.length < limit)
    (offered : Offers reader (bytes ++ [lineFeed]) after) :
    readUntilLineFeed limit reader = (.ok (bytes ++ [lineFeed]), after) := by
  induction limit generalizing reader bytes with
  | zero => omega
  | succ limit ih =>
    cases bytes with
    | nil =>
      obtain ⟨between, given, rfl⟩ := offered
      rw [readUntilLineFeed, read_bind_of_ok ((readNext_ok).mpr given)]
      dsimp only
      rw [if_pos rfl, read_pure, List.nil_append]
    | cons b bytes =>
      obtain ⟨between, given, rest⟩ := offered
      rw [List.mem_cons, not_or] at plain
      rw [List.length_cons] at within
      rw [readUntilLineFeed, read_bind_of_ok ((readNext_ok).mpr given)]
      dsimp only
      rw [if_neg (fun same => plain.1 same.symm),
        read_bind_of_ok (ih plain.2 (by omega) rest), read_pure, List.cons_append]

theorem fromUtf8_iff {text : String} : fromUtf8 bytes = some text ↔ bytes = textBytes text := by
  rw [fromUtf8, String.fromUTF8?]
  constructor
  · intro found
    split at found
    · cases found
      rw [textBytes, String.fromUTF8]
      exact List.toList_data_toByteArray.symm
    · cases found
  · intro same
    have whole : bytes.toByteArray = text.toByteArray := by
      rw [same, textBytes]
      apply ByteArray.ext
      rw [List.data_toByteArray]
    have valid : bytes.toByteArray.IsValidUTF8 := whole ▸ text.isValidUTF8
    rw [dif_pos valid]
    exact congrArg some (String.toByteArray_inj.mp whole)

variable (platform : RespPlatform)

theorem readRespLine_ok {text : String} :
    readRespLine platform reader = (.ok text, after) ↔
      OneLine text ∧ (textBytes text).length + 2 ≤ maxRespLineBytes ∧
        Offers reader (line text) after := by
  rw [readRespLine, read_bind_ok]
  constructor
  · rintro ⟨bytes, between, ran, rest⟩
    by_cases long : maxRespLineBytes < bytes.length
    · rw [if_pos long] at rest
      exact absurd rest read_fail_ne
    · rw [if_neg long] at rest
      by_cases ended : crlf <:+ bytes
      · rw [if_neg (not_not_intro ended)] at rest
        obtain ⟨front, rfl⟩ := ended
        have cut : (front ++ crlf).take ((front ++ crlf).length - 2) = front := by
          simp [crlf]
        rw [cut] at rest
        cases decoded : fromUtf8 front with
        | none =>
          rw [decoded] at rest
          exact absurd rest read_fail_ne
        | some found =>
          rw [decoded] at rest
          cases rest
          have same := (fromUtf8_iff).mp decoded
          obtain ⟨plain, offered⟩ := readUntilLineFeed_sound ran
          have last : lineFeed ∈ front ++ crlf := by simp [crlf, lineFeed]
          refine ⟨?_, ?_, ?_⟩
          · rw [OneLine, ← same]
            intro member
            apply plain
            have split : front ++ crlf = (front ++ [13]) ++ [10] := by simp [crlf]
            rw [split, List.dropLast_concat]
            exact List.mem_append_left _ member
          · rw [← same]
            simpa [crlf] using long
          · rw [line, ← same]
            exact offered last
      · rw [if_pos ended] at rest
        exact absurd rest read_fail_ne
  · rintro ⟨plain, within, offered⟩
    have split : line text = (textBytes text ++ [13]) ++ [lineFeed] := by
      simp [line, crlf, lineFeed]
    have unfed : lineFeed ∉ textBytes text ++ [13] := by
      rw [List.mem_append, not_or]
      exact ⟨plain, by decide⟩
    have shorter : (textBytes text ++ [13]).length < maxRespLineBytes + 1 := by
      simp only [List.length_append, List.length_singleton]
      omega
    have read := readUntilLineFeed_complete unfed shorter (split ▸ offered)
    refine ⟨_, after, read, ?_⟩
    have cut : (line text).take ((line text).length - 2) = textBytes text := by
      simp [line, crlf]
    have length : (line text).length = (textBytes text).length + 2 := by simp [line, crlf]
    have ended : crlf <:+ line text := List.suffix_append _ _
    rw [← split, if_neg (by omega), if_neg (not_not_intro ended), cut, (fromUtf8_iff).mpr rfl]
    rfl

theorem readExpectedCrlf_ok :
    readExpectedCrlf reader = (.ok (), after) ↔ Offers reader crlf after := by
  rw [readExpectedCrlf, read_bind_ok]
  constructor
  · rintro ⟨bytes, between, ran, rest⟩
    by_cases same : bytes = crlf
    · rw [if_pos same] at rest
      cases rest
      rw [← same]
      exact ((readExact_ok).mp ran).2
    · rw [if_neg same] at rest
      exact absurd rest read_fail_ne
  · intro offered
    refine ⟨crlf, after, (readExact_ok).mpr ⟨rfl, offered⟩, ?_⟩
    rw [if_pos rfl, read_pure]

/-- A number line is read as the number, if it is one of 64 bits. -/
theorem readNumber_ok {what : String} {number : Int} :
    readNumber platform what reader = (.ok number, after) ↔
      ∃ text, OneLine text ∧ (textBytes text).length + 2 ≤ maxRespLineBytes ∧
        Offers reader (line text) after ∧ Decimal.signed text.toList = some number ∧
        inI64 number = true := by
  rw [readNumber, read_bind_ok]
  constructor
  · rintro ⟨text, between, ran, rest⟩
    obtain ⟨plain, within, offered⟩ := (readRespLine_ok platform).mp ran
    cases parsed : parseSigned text with
    | error error =>
      rw [parsed] at rest
      exact absurd rest read_fail_ne
    | ok found =>
      rw [parsed] at rest
      cases rest
      obtain ⟨denotes, fits⟩ := parseSigned_iff.mp parsed
      exact ⟨text, plain, within, offered, denotes, fits⟩
  · rintro ⟨text, plain, within, offered, denotes, fits⟩
    refine ⟨text, after, (readRespLine_ok platform).mpr ⟨plain, within, offered⟩, ?_⟩
    rw [parseSigned_iff.mpr ⟨denotes, fits⟩]
    rfl

/-- Values within the limits of the reader, at most so many levels deep. -/
inductive Fits : Nat → Value → Prop where
  | nil {levels : Nat} : Fits (levels + 1) .nil
  | status {levels : Nat} {text : String}
      (short : (textBytes text).length + 2 ≤ maxRespLineBytes) : Fits (levels + 1) (.status text)
  | integer {levels : Nat} {number : Int} (within : inI64 number = true) :
      Fits (levels + 1) (.integer number)
  | bulk {levels : Nat} {bytes : Bytes} (short : bytes.length ≤ maxRespBulkBytes) :
      Fits (levels + 1) (.bulk bytes)
  | array {levels : Nat} {items : List Value} (few : items.length ≤ maxRespArrayLen)
      (each : ∀ item ∈ items, Fits levels item) : Fits (levels + 1) (.array items)

variable {platform}

/-- What follows a length: none of a negative one, a refusal of a great one, or what it counts. -/
theorem read_sized {length : Int} {wide long : String} {counted : Read Value}
    {outcome : Except RedisClientError Value} (ran : (if length < 0 then (pure .nil : Read Value)
      else if platform.usizeMax < length.toNat then Read.fail (.protocol wide)
      else if limit < length.toNat then Read.fail (.protocol long)
      else counted) reader = (outcome, after)) :
    (length < 0 ∧ outcome = .ok .nil ∧ after = reader) ∨
      (∃ message, outcome = .error (.protocol message)) ∨
      ((length.toNat : Int) = length ∧ length.toNat ≤ limit ∧
        counted reader = (outcome, after)) := by
  by_cases negative : length < 0
  · rw [if_pos negative] at ran
    cases ran
    exact .inl ⟨negative, rfl, rfl⟩
  · apply Or.inr
    rw [if_neg negative] at ran
    by_cases huge : platform.usizeMax < length.toNat
    · rw [if_pos huge] at ran
      cases ran
      exact .inl ⟨_, rfl⟩
    · rw [if_neg huge] at ran
      by_cases large : limit < length.toNat
      · rw [if_pos large] at ran
        cases ran
        exact .inl ⟨_, rfl⟩
      · rw [if_neg large] at ran
        exact .inr ⟨Int.toNat_of_nonneg (Int.not_lt.mp negative), Nat.not_lt.mp large, ran⟩

theorem readBulk_sound {value : Value} (ran : readBulk platform reader = (.ok value, after)) :
    ∃ text body, OneLine text ∧ Scalar .bulk text body value ∧
      Offers reader (line text ++ body) after ∧ ∀ levels, Fits (levels + 1) value := by
  obtain ⟨length, between, number, rest⟩ := (read_bind_ok).mp ran
  obtain ⟨text, plain, _, offered, denotes, _⟩ := (readNumber_ok platform).mp number
  rcases read_sized rest with ⟨negative, same, ended⟩ | ⟨_, refused⟩ | ⟨whole, few, rest⟩
  · cases same
    rw [← ended] at offered
    exact ⟨text, [], plain, .nilBulk denotes negative, by rwa [List.append_nil], fun _ => .nil⟩
  · cases refused
  · obtain ⟨bytes, middle, body, rest⟩ := (read_bind_ok).mp rest
    obtain ⟨_, last, ended, rest⟩ := (read_bind_ok).mp rest
    cases rest
    obtain ⟨size, given⟩ := (readExact_ok).mp body
    rw [← whole, ← size] at denotes
    refine ⟨text, bytes ++ crlf, plain, .bulk denotes, ?_, fun _ => .bulk (by omega)⟩
    exact (offers_append).mpr ⟨between, offered,
      (offers_append).mpr ⟨middle, given, (readExpectedCrlf_ok).mp ended⟩⟩

/-- Values read one after the other are frames one after the other. -/
theorem readMany_sound {count : Nat} {values : List Value}
    (each : ∀ {reader after : BufReader} {value : Value}, read reader = (.ok value, after) →
      ∃ bytes, Offers reader bytes after ∧ Frame bytes value ∧ Fits levels value)
    (ran : readMany read count reader = (.ok values, after)) :
    values.length = count ∧ ∃ bytes, Offers reader bytes after ∧ Frames bytes values ∧
      ∀ value ∈ values, Fits levels value := by
  induction count generalizing reader values with
  | zero =>
    rw [readMany, read_pure] at ran
    cases ran
    exact ⟨rfl, [], rfl, .nil, fun _ none => absurd none List.not_mem_nil⟩
  | succ count ih =>
    obtain ⟨first, between, head, rest⟩ := (read_bind_ok).mp ran
    obtain ⟨others, last, tail, whole⟩ := (read_bind_ok).mp rest
    cases whole
    obtain ⟨bytes, offered, frame, fits⟩ := each head
    obtain ⟨length, more, given, frames, fit⟩ := ih tail
    refine ⟨congrArg Nat.succ length, bytes ++ more, (offers_append).mpr ⟨between, offered, given⟩,
      frame.append frames, ?_⟩
    intro value member
    rcases List.mem_cons.mp member with rfl | later
    · exact fits
    · exact fit value later

/-- An array is read from its header and one frame for each item. -/
theorem readArray_sound {value : Value} {start : BufReader}
    (each : ∀ {reader after : BufReader} {value : Value}, read reader = (.ok value, after) →
      ∃ bytes, Offers reader bytes after ∧ Frame bytes value ∧ Fits levels value)
    (given : start.next = (.ok (some Kind.array.mark), reader))
    (ran : readArray platform read reader = (.ok value, after)) :
    ∃ bytes, Offers start bytes after ∧ Frame bytes value ∧ Fits (levels + 1) value := by
  obtain ⟨length, between, number, rest⟩ := (read_bind_ok).mp ran
  obtain ⟨text, plain, _, offered, denotes, _⟩ := (readNumber_ok platform).mp number
  rcases read_sized rest with ⟨negative, same, ended⟩ | ⟨_, refused⟩ | ⟨whole, few, rest⟩
  · cases same
    rw [← ended] at offered
    have empty : Scalar .array text [] .nil := .nilArray denotes negative
    exact ⟨_, offers_cons given (by rwa [List.append_nil]), empty.frame plain, .nil⟩
  · cases refused
  · obtain ⟨items, last, many, rest⟩ := (read_bind_ok).mp rest
    cases rest
    obtain ⟨size, body, inside, frames, fits⟩ := readMany_sound each many
    rw [← whole, ← size] at denotes
    exact ⟨_, offers_cons given ((offers_append).mpr ⟨between, offered, inside⟩),
      frame_array plain denotes frames, .array (by omega) fits⟩

/-- Whatever is read is a frame that was there, and within the limits. -/
theorem readRespValueAtDepth_sound {value : Value}
    (ran : readRespValueAtDepth platform levels reader = (.ok value, after)) :
    ∃ bytes, Offers reader bytes after ∧ Frame bytes value ∧ Fits levels value := by
  induction levels generalizing reader after value with
  | zero => exact absurd ran read_fail_ne
  | succ levels ih =>
    obtain ⟨mark, between, first, rest⟩ := (read_bind_ok).mp ran
    have given := (readByte_ok).mp first
    cases known : Kind.ofMark mark with
    | none =>
      rw [known] at rest
      exact absurd rest read_fail_ne
    | some kind =>
      rw [known] at rest
      rw [Kind.ofMark_iff.mp known] at given
      -- what follows the mark, by its kind
      have scalar : ∀ {text : String} {body : Bytes}, OneLine text →
          Scalar kind text body value → Offers between (line text ++ body) after →
          Fits (levels + 1) value →
          ∃ bytes, Offers reader bytes after ∧ Frame bytes value ∧ Fits (levels + 1) value := by
        intro text body plain head offered fits
        exact ⟨_, offers_cons given offered, head.frame plain, fits⟩
      cases kind with
      | status =>
        obtain ⟨text, last, read, whole⟩ := (read_bind_ok).mp rest
        cases whole
        obtain ⟨plain, short, offered⟩ := (readRespLine_ok platform).mp read
        exact scalar plain .status (by rwa [List.append_nil]) (.status short)
      | error =>
        obtain ⟨text, last, read, whole⟩ := (read_bind_ok).mp rest
        exact absurd whole read_fail_ne
      | integer =>
        obtain ⟨number, last, read, whole⟩ := (read_bind_ok).mp rest
        cases whole
        obtain ⟨text, plain, _, offered, denotes, fits⟩ := (readNumber_ok platform).mp read
        exact scalar plain (.integer denotes) (by rwa [List.append_nil]) (.integer fits)
      | bulk =>
        obtain ⟨text, body, plain, head, offered, fits⟩ := readBulk_sound rest
        exact scalar plain head offered (fits levels)
      | array => exact readArray_sound ih given rest

end Readers

end DddCqrsEs
