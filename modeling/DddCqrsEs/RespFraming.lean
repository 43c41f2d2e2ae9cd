import DddCqrsEs.RespReader
import Mathlib.Data.Nat.Digits.Defs

/- Commands and replies are read back from their frames, whatever follows them and in whatever
pieces they arrive, and a frame that is cut short is never read. -/
namespace DddCqrsEs

open Resp

theorem numberText_short {number : Int} (within : inI64 number = true) :
    (textBytes (numberText number)).length + 2 ≤ maxRespLineBytes := by
  have short : ∀ n : Nat, n ≤ 2 ^ 63 → (Nat.toDigits 10 n).length ≤ 19 :=
    fun n bound => Nat.toDigits_length 10 n 19 (by decide) (by omega)
  have length : (textBytes (numberText number)).length = (Decimal.write number).length := by
    rw [numberText, textBytes_ascii (fun c member => (sign_or_digit (mem_write member)).1),
      List.length_map]
  rw [length, maxRespLineBytes]
  cases number with
  | ofNat n =>
    have bound : n ≤ i64Max := of_decide_eq_true within
    rw [i64Max] at bound
    have digits := short n (by omega)
    rw [Decimal.write]
    omega
  | negSucc n =>
    have bound : n ≤ i64Max := of_decide_eq_true within
    rw [i64Max] at bound
    have digits := short (n + 1) (by omega)
    rw [Decimal.write, List.length_cons]
    omega

section Completeness

variable {platform : RespPlatform} {reader after : BufReader}

theorem readNumber_numberText {what : String} {number : Int} (within : inI64 number = true)
    (offered : Offers reader (line (numberText number)) after) :
    readNumber platform what reader = (.ok number, after) :=
  (readNumber_ok platform).mpr ⟨numberText number, numberText_oneLine number,
    numberText_short within, offered, signed_numberText number, within⟩

theorem inI64_length {length : Nat} (bound : length ≤ i64Max) : inI64 length = true :=
  decide_eq_true bound

theorem readBulk_complete {bytes : Bytes} (short : bytes.length ≤ maxRespBulkBytes)
    (offered : Offers reader (line (numberText bytes.length) ++ (bytes ++ crlf)) after) :
    readBulk platform reader = (.ok (.bulk bytes), after) := by
  obtain ⟨between, header, rest⟩ := offers_append.mp offered
  obtain ⟨middle, body, ended⟩ := offers_append.mp rest
  have roomy := platform.roomy
  have within : inI64 bytes.length = true := by
    apply inI64_length
    rw [maxRespBulkBytes] at short
    rw [i64Max]
    omega
  have whole : ((bytes.length : Int)).toNat = bytes.length := Int.toNat_natCast _
  rw [readBulk, read_bind_of_ok (readNumber_numberText within header), if_neg (by omega),
    if_neg (by omega), if_neg (by omega),
    read_bind_of_ok (readExact_ok.mpr ⟨whole.symm, body⟩),
    read_bind_of_ok (readExpectedCrlf_ok.mpr ended)]
  rfl

theorem readMany_complete {read : Read Value} {items : List Value}
    (each : ∀ item ∈ items, ∀ {reader after : BufReader}, Offers reader (encode item) after →
      read reader = (.ok item, after))
    (offered : Offers reader (encodeAll items) after) :
    readMany read items.length reader = (.ok items, after) := by
  induction items generalizing reader with
  | nil =>
    rw [encodeAll, Offers] at offered
    rw [offered]
    rfl
  | cons item items ih =>
    rw [encodeAll] at offered
    obtain ⟨between, first, rest⟩ := offers_append.mp offered
    have later := ih (fun other member => each other (List.mem_cons_of_mem item member)) rest
    rw [List.length_cons, readMany, read_bind_of_ok (each item List.mem_cons_self first),
      read_bind_of_ok later]
    rfl

/-- A value within the limits is read from its frame. -/
theorem readRespValueAtDepth_complete {levels : Nat} {value : Value} (plain : Plain value)
    (fits : Fits levels value) (offered : Offers reader (encode value) after) :
    readRespValueAtDepth platform levels reader = (.ok value, after) := by
  induction levels generalizing reader after value with
  | zero => cases fits
  | succ levels ih =>
    -- the mark of the frame, then what its kind is read as
    have start : ∀ {kind : Kind} {rest : Bytes}, encode value = kind.mark :: rest →
        (∀ {between : BufReader}, Offers between rest after →
          readKind platform (readRespValueAtDepth platform levels) kind between =
            (.ok value, after)) →
        readRespValueAtDepth platform (levels + 1) reader = (.ok value, after) := by
      intro kind rest shape follow
      rw [shape] at offered
      obtain ⟨between, given, offered⟩ := offered
      rw [readRespValueAtDepth, read_bind_of_ok (readByte_ok.mpr given),
        Kind.ofMark_iff.mpr rfl]
      exact follow offered
    cases plain with
    | nil =>
      apply start encode.eq_1
      intro between header
      rw [readKind, readBulk, read_bind_of_ok (readNumber_numberText (by decide) header)]
      rfl
    | status oneLine =>
      cases fits with
      | status short =>
        apply start (encode.eq_2 _)
        intro between header
        rw [readKind, read_bind_of_ok
          ((readRespLine_ok platform).mpr ⟨oneLine, short, header⟩)]
        rfl
    | integer number =>
      cases fits with
      | integer within =>
        apply start (encode.eq_4 _)
        intro between header
        rw [readKind, read_bind_of_ok (readNumber_numberText within header)]
        rfl
    | bulk bytes =>
      cases fits with
      | bulk short =>
        apply start (encode.eq_5 _)
        intro between rest
        exact readBulk_complete short rest
    | array each =>
      rename_i items
      cases fits with
      | array few inner =>
        apply start (encode.eq_6 _)
        intro between rest
        obtain ⟨middle, header, body⟩ := offers_append.mp rest
        have roomy := platform.roomy
        have within : inI64 items.length = true := by
          apply inI64_length
          rw [maxRespArrayLen] at few
          rw [i64Max]
          omega
        have smaller : maxRespArrayLen ≤ maxRespBulkBytes := by decide
        have whole : ((items.length : Int)).toNat = items.length := Int.toNat_natCast _
        have many : readMany (readRespValueAtDepth platform levels) items.length middle =
            (.ok items, after) :=
          readMany_complete (fun item member _ _ offered =>
            ih (each item member) (inner item member) offered) body
        rw [readKind, readArray, read_bind_of_ok (readNumber_numberText within header),
          if_neg (by omega), if_neg (by omega), if_neg (by omega), whole,
          read_bind_of_ok many]
        rfl

/-- What is read ends before a reader has no more to give. -/
theorem Offers.within {bytes given : Bytes} {between : BufReader}
    (read : Offers reader bytes between) (offered : Offers reader given after)
    (dry : ∀ b later, after.next ≠ (.ok (some b), later)) : bytes <+: given := by
  induction bytes generalizing reader given with
  | nil => exact List.nil_prefix
  | cons b bytes ih =>
    obtain ⟨one, next, rest⟩ := read
    cases given with
    | nil =>
      rw [Offers] at offered
      rw [← offered] at next
      exact absurd next (dry b one)
    | cons c given =>
      obtain ⟨other, again, more⟩ := offered
      rw [next] at again
      cases again
      exact List.cons_prefix_cons.mpr ⟨rfl, ih rest more⟩

/-- Where only a part of a frame is given, nothing is read. -/
theorem prefix_unread {frame part : Bytes} {value : Value} (whole : Frame frame value)
    (cut : part <+: frame) (strict : part ≠ frame) (offered : Offers reader part after)
    (dry : ∀ b later, after.next ≠ (.ok (some b), later)) {found : Value} {later : BufReader} :
    readRespValue platform reader ≠ (.ok found, later) := by
  intro ran
  obtain ⟨bytes, read, other, _⟩ := readRespValueAtDepth_sound ran
  obtain ⟨rest, rfl⟩ := read.within offered dry
  obtain ⟨tail, rfl⟩ := cut
  have same : bytes ++ rest ++ tail ++ [] = bytes ++ (rest ++ tail) := by simp
  have equal := (frame_unique whole other same).1
  rw [List.append_assoc, List.append_right_eq_self, List.append_eq_nil_iff] at equal
  rw [equal.2] at strict
  simp at strict

end Completeness

def commandValue (command : String) (args : List Bytes) : Value :=
  .array (.bulk (textBytes command) :: args.map .bulk)

theorem foldl_pushBulk (output : Bytes) (args : List Bytes) :
    args.foldl pushBulk output = output ++ encodeAll (args.map .bulk) := by
  induction args generalizing output with
  | nil => simp [encodeAll]
  | cons arg args ih =>
    rw [List.foldl_cons, ih, List.map_cons, encodeAll, encode, pushBulk, bulkFrame]
    simp

theorem encodeRespCommand_eq (command : String) (args : List Bytes) :
    encodeRespCommand command args = encode (commandValue command args) := by
  rw [encodeRespCommand, foldl_pushBulk, commandValue, encode, encodeAll, encode, pushBulk,
    bulkFrame, List.length_cons, List.length_map]
  simp

theorem commandValue_plain (command : String) (args : List Bytes) :
    Plain (commandValue command args) := by
  apply Plain.array
  intro item member
  rcases List.mem_cons.mp member with rfl | inside
  · exact .bulk _
  · obtain ⟨arg, _, rfl⟩ := List.mem_map.mp inside
    exact .bulk arg

/-- A command and arguments that the client itself would read. -/
structure CommandWithin (command : String) (args : List Bytes) : Prop where
  few : args.length + 1 ≤ maxRespArrayLen
  name : (textBytes command).length ≤ maxRespBulkBytes
  each : ∀ arg ∈ args, arg.length ≤ maxRespBulkBytes

theorem CommandWithin.fits {command : String} {args : List Bytes}
    (within : CommandWithin command args) : Fits maxRespDepth (commandValue command args) := by
  apply Fits.array
  · rw [List.length_cons, List.length_map]
    exact within.few
  · intro item member
    rcases List.mem_cons.mp member with rfl | inside
    · exact .bulk within.name
    · obtain ⟨arg, listed, rfl⟩ := List.mem_map.mp inside
      exact .bulk (within.each arg listed)

/-- Commands within the limits are read back and leave what follows them, a reply is read back
exactly when it is within the limits, and no part of a reply's frame is read as a value. -/
theorem respFraming (platform : RespPlatform) :
    (∀ (command : String) (args : List Bytes) (reader after : BufReader),
      CommandWithin command args → Offers reader (encodeRespCommand command args) after →
      readRespValue platform reader =
        (.ok (.array (.bulk (textBytes command) :: args.map .bulk)), after)) ∧
    (∀ (value : Value) (reader after : BufReader), Plain value →
      Offers reader (encode value) after →
      (readRespValue platform reader = (.ok value, after) ↔ Fits maxRespDepth value)) ∧
    ∀ (value : Value) (part : Bytes) (reader after : BufReader), Plain value →
      part <+: encode value → part ≠ encode value → Offers reader part after →
      (∀ b later, after.next ≠ (.ok (some b), later)) →
      ∀ found later, readRespValue platform reader ≠ (.ok found, later) := by
  refine ⟨?_, ?_, ?_⟩
  · intro command args reader after within offered
    rw [encodeRespCommand_eq] at offered
    exact readRespValueAtDepth_complete (commandValue_plain command args) within.fits offered
  · intro value reader after plain offered
    constructor
    · intro ran
      obtain ⟨_, _, _, fits⟩ := readRespValueAtDepth_sound ran
      exact fits
    · intro fits
      exact readRespValueAtDepth_complete plain fits offered
  · intro value part reader after plain cut strict offered dry found later
    exact prefix_unread plain.frame cut strict offered dry

/-- A buffer gives its bytes. -/
theorem offers_buffer (bytes rest : Bytes) (arrivals : List Arrival) :
    Offers ⟨bytes ++ rest, arrivals⟩ bytes ⟨rest, arrivals⟩ := by
  induction bytes with
  | nil => exact rfl
  | cons b bytes ih => exact offers_cons rfl ih

def wasmPlatform : RespPlatform where
  usizeMax := 2 ^ 32 - 1
  utf8Error _ := "invalid utf-8 sequence of 1 bytes from index 0"
  roomy := by decide

theorem respFraming_get :
    readRespValue wasmPlatform ⟨encodeRespCommand "GET" [[107]] ++ [1, 2], []⟩ =
        (.ok (.array [.bulk (textBytes "GET"), .bulk [107]]), ⟨[1, 2], []⟩) ∧
      readRespValue wasmPlatform ⟨encode (.bulk [107]), []⟩ = (.ok (.bulk [107]), ⟨[], []⟩) ∧
      ∀ found later, readRespValue wasmPlatform ⟨[Kind.bulk.mark], []⟩ ≠ (.ok found, later) := by
  obtain ⟨commands, replies, parts⟩ := respFraming wasmPlatform
  refine ⟨?_, ?_, ?_⟩
  · have within : CommandWithin "GET" [[107]] := by
      refine ⟨by decide, by decide, ?_⟩
      intro arg member
      rw [List.mem_singleton.mp member]
      decide
    exact commands "GET" [[107]] _ _ within (offers_buffer _ _ _)
  · have whole := offers_buffer (encode (.bulk [107])) [] []
    rw [List.append_nil] at whole
    exact (replies _ _ _ (.bulk [107]) whole).mpr (.bulk (by decide))
  · refine parts (.bulk [107]) [Kind.bulk.mark] _ ⟨[], []⟩ (.bulk [107]) ?_ ?_ ?_ ?_
    · rw [encode, bulkFrame]
      exact List.cons_prefix_cons.mpr ⟨rfl, List.nil_prefix⟩
    · rw [encode, bulkFrame]
      intro same
      have empty := (List.cons.inj same).2
      simp [line, crlf] at empty
    · exact offers_buffer [Kind.bulk.mark] [] []
    · intro b later impossible
      cases impossible

def letters (count : Nat) : String := String.ofList (List.replicate count 'a')

theorem textBytes_letters (count : Nat) :
    textBytes (letters count) = List.replicate count (byte 'a') := by
  have ascii : ∀ c ∈ List.replicate count 'a', c.val ≤ 127 := by
    intro c member
    rw [List.eq_of_mem_replicate member]
    decide
  rw [letters, textBytes_ascii ascii, List.map_replicate]

theorem letters_absent {b : UInt8} (other : b ≠ byte 'a') (count : Nat) :
    b ∉ textBytes (letters count) := by
  intro member
  rw [textBytes_letters] at member
  exact other (List.eq_of_mem_replicate member)

/-- A status that does not fit on a line is not read. -/
theorem letters_unread {platform : RespPlatform} {count : Nat}
    (long : maxRespLineBytes < count + 2) {reader after : BufReader} :
    readRespValue platform reader ≠ (.ok (.status (letters count)), after) := by
  intro ran
  obtain ⟨_, _, _, fits⟩ := readRespValueAtDepth_sound ran
  cases fits with
  | status short =>
    rw [textBytes_letters, List.length_replicate] at short
    omega

/-- A status of a line's length is not read back. -/
theorem longStatus_unread :
    ∃ text : String, OneLine text ∧ 13 ∉ textBytes text ∧
      readRespValue wasmPlatform ⟨encode (.status text), []⟩ ≠ (.ok (.status text), ⟨[], []⟩) := by
  have long : maxRespLineBytes < maxRespLineBytes + 2 := by omega
  exact ⟨letters maxRespLineBytes, letters_absent (by decide) _, letters_absent (by decide) _,
    letters_unread long⟩

end DddCqrsEs
