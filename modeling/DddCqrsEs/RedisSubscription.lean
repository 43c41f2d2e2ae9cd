import DddCqrsEs.RespFraming

/- The subscription of the Redis client's own connections: where the reader stands after a
call that failed, and which payloads are ever returned. -/
namespace DddCqrsEs

open Resp

mutual

def valueDebug : Value → String
  | .nil => "Nil"
  | .status text => "Status(" ++ text.quote ++ ")"
  | .error text => "Error(" ++ text.quote ++ ")"
  | .integer number => "Int(" ++ toString number ++ ")"
  | .bulk bytes => "Bytes([" ++ ", ".intercalate (bytes.map toString) ++ "])"
  | .array items => "Array([" ++ ", ".intercalate (valuesDebug items) ++ "])"

def valuesDebug : List Value → List String
  | [] => []
  | value :: rest => valueDebug value :: valuesDebug rest

end

/-- `redis_value_bytes`, with the message of its error as the client reports it. -/
def replyBytes (label : String) : Value → Except String Bytes
  | .bulk bytes => .ok bytes
  | .status text => .ok (textBytes text)
  | .integer number => .ok (textBytes (numberText number))
  | value => .error ("deserialization error: " ++ label ++ ": expected Redis scalar, got " ++
      valueDebug value)

structure WasiRedisSubscription where
  channel : String
  reader : BufReader
  desynced : Bool

namespace WasiRedisSubscription

def markDesynced (subscription : WasiRedisSubscription) (error : RedisClientError) :
    WasiRedisSubscription :=
  match error with
  | .protocol _ | .connectionDesynced _ => { subscription with desynced := true }
  | .io _ | .timeout =>
    if subscription.reader.buffer ≠ [] then { subscription with desynced := true }
    else subscription
  | .invalidUrl _ | .redis _ => subscription

end WasiRedisSubscription

section Messages

variable (platform : RespPlatform)

/-- `redis_value_string`. -/
def replyString (label : String) (value : Value) : Except String String := do
  let bytes ← replyBytes label value
  match fromUtf8 bytes with
  | some text => return text
  | none => .error ("deserialization error: " ++ label ++ " is not valid UTF-8: " ++
      platform.utf8Error bytes)

/-- What a value means to a caller that waits for a message; none where it is passed over. -/
def deliver : Value → Option (Except RedisClientError Bytes)
  | .array (kind :: _ :: payload :: _) =>
    match replyString platform "subscription message kind" kind with
    | .error error => some (.error (.protocol error))
    | .ok kind =>
      if kind = "message" then
        some ((replyBytes "subscription payload" payload).mapError .protocol)
      else none
  | _ => none

/-- The loop of `next_message`; none where the rounds run out. -/
def nextMessageLoop :
    Nat → WasiRedisSubscription → Option (Except RedisClientError Bytes) × WasiRedisSubscription
  | 0, subscription => (none, subscription)
  | rounds + 1, subscription =>
    match readRespValue platform subscription.reader with
    | (.ok value, reader) =>
      match deliver platform value with
      | some result => (some result, { subscription with reader })
      | none => nextMessageLoop rounds { subscription with reader }
    | (.error .timeout, reader) =>
      (some (.error .timeout), { subscription with reader, desynced := true })
    | (.error error, reader) =>
      (some (.error error), { subscription with reader }.markDesynced error)

/-- The bytes that are still to be read. -/
def BufReader.bytes (reader : BufReader) : Bytes :=
  reader.buffer ++ reader.arrivals.flatMap (fun arrival =>
    match arrival with
    | .bytes first rest => first :: rest
    | .failure _ => [])

/-- Every round but the last one reads a frame, so there is one round for each byte. -/
def nextMessage (subscription : WasiRedisSubscription) :
    Option (Except RedisClientError Bytes) × WasiRedisSubscription :=
  if subscription.desynced then
    (some (.error (.connectionDesynced
      "subscription connection is desynced; call resubscribe()")), subscription)
  else nextMessageLoop platform (subscription.reader.bytes.length + 1) subscription

/-- So many calls, one after the other: what they return, and the subscription then. -/
def nextMessages : Nat → WasiRedisSubscription →
    List (Option (Except RedisClientError Bytes)) × WasiRedisSubscription
  | 0, subscription => ([], subscription)
  | calls + 1, subscription =>
    let first := nextMessages calls subscription
    let last := nextMessage platform first.2
    (first.1 ++ [last.1], last.2)

end Messages

section Bytes

variable {reader after : BufReader}

/-- The byte that a read of the buffered stream gives. -/
def givenByte : Except IoError (Option UInt8) → Bytes
  | .ok (some first) => [first]
  | .ok none | .error _ => []

variable {outcome : Except IoError (Option UInt8)}

theorem fill_bytes {arrivals : List Arrival} (ran : BufReader.fill arrivals = (outcome, after)) :
    BufReader.bytes ⟨[], arrivals⟩ = givenByte outcome ++ after.bytes := by
  induction arrivals with
  | nil =>
    cases ran
    rfl
  | cons arrival later ih =>
    cases arrival with
    | bytes first rest =>
      cases ran
      simp [BufReader.bytes, givenByte]
    | failure error =>
      rw [BufReader.fill] at ran
      by_cases again : error.kind = .interrupted
      · rw [if_pos again] at ran
        exact ih ran
      · rw [if_neg again] at ran
        cases ran
        rfl

theorem next_bytes (ran : reader.next = (outcome, after)) :
    reader.bytes = givenByte outcome ++ after.bytes := by
  cases reader with
  | mk buffer arrivals =>
    cases buffer with
    | nil => exact fill_bytes ran
    | cons first rest =>
      cases ran
      rfl

theorem Offers.bytes {given : Bytes} (offered : Offers reader given after) :
    reader.bytes = given ++ after.bytes := by
  induction given generalizing reader with
  | nil =>
    rw [Offers] at offered
    rw [offered, List.nil_append]
  | cons b given ih =>
    obtain ⟨between, next, rest⟩ := offered
    rw [next_bytes next, ih rest]
    rfl

end Bytes

/-- No byte comes: the stream is closed, which ends a line, or a read fails. -/
inductive Lost (reader after : BufReader) : Bool → RedisClientError → Prop where
  | closed (ended : reader.next = (.ok none, after)) :
      Lost reader after false (.io "failed to fill whole buffer")
  | failed {inLine : Bool} {error : IoError} (failure : reader.next = (.error error, after)) :
      Lost reader after inLine (.ofIo error)

/-- Bytes that begin a frame and do not end it, within a line or not. -/
inductive Partial : Nat → Bool → Bytes → Prop where
  | start {levels : Nat} : Partial (levels + 1) false []
  | line {levels : Nat} {kind : Kind} {bytes : Bytes} (unended : lineFeed ∉ bytes)
      (short : bytes.length ≤ maxRespLineBytes) : Partial (levels + 1) true (kind.mark :: bytes)
  | bulk {levels length : Nat} {text : String} {bytes : Bytes} (oneLine : OneLine text)
      (denotes : Decimal.signed text.toList = some (length : Int))
      (short : length ≤ maxRespBulkBytes) (missing : bytes.length < length + 2) :
      Partial (levels + 1) false (Kind.bulk.mark :: (line text ++ bytes))
  | array {levels count : Nat} {inLine : Bool} {text : String} {body tail : Bytes}
      {items : List Value} (oneLine : OneLine text)
      (denotes : Decimal.signed text.toList = some (count : Int)) (few : count ≤ maxRespArrayLen)
      (inside : Frames body items) (fits : ∀ item ∈ items, Fits levels item)
      (missing : items.length < count) (open_item : Partial levels inLine tail) :
      Partial (levels + 1) inLine (Kind.array.mark :: (line text ++ (body ++ tail)))

/-- Bytes that begin a frame and end with an error reply, which completes the frame or not. -/
inductive Stops : Nat → Bool → Bytes → Prop where
  | error {levels : Nat} {text : String} (oneLine : OneLine text)
      (short : (textBytes text).length + 2 ≤ maxRespLineBytes) :
      Stops (levels + 1) true (Kind.error.mark :: line text)
  | array {levels missing : Nat} {complete : Bool} {text : String} {body tail : Bytes}
      {items : List Value} (oneLine : OneLine text)
      (denotes : Decimal.signed text.toList = some ((items.length + 1 + missing : Nat) : Int))
      (few : items.length + 1 + missing ≤ maxRespArrayLen) (inside : Frames body items)
      (fits : ∀ item ∈ items, Fits levels item) (stopped : Stops levels complete tail) :
      Stops (levels + 1) (complete && decide (missing = 0))
        (Kind.array.mark :: (line text ++ (body ++ tail)))

/-- Where an error reply completes it, the bytes are a frame. -/
theorem Stops.frame {levels : Nat} {complete : Bool} {bytes : Bytes}
    (stopped : Stops levels complete bytes) (whole : complete = true) :
    ∃ value, Frame bytes value := by
  induction stopped with
  | error oneLine _ =>
    rename_i text _
    have frame := Scalar.error.frame oneLine
    rw [List.append_nil] at frame
    exact ⟨.error text, frame⟩
  | @array _ missing _ _ _ _ items oneLine denotes _ inside _ _ ih =>
    rw [Bool.and_eq_true, decide_eq_true_eq] at whole
    obtain ⟨last, frame⟩ := ih whole.1
    have count : items.length + 1 + missing = (items ++ [last]).length := by
      rw [whole.2, List.length_append, List.length_singleton]
    rw [count] at denotes
    exact ⟨_, frame_array oneLine denotes (inside.append frame)⟩

/-- The bytes up to the failure, by its kind. -/
inductive Failure (levels : Nat) (reader after : BufReader) : RedisClientError → Prop where
  | malformed (message : String) : Failure levels reader after (.protocol message)
  | stopped {message : String} {complete : Bool} {bytes : Bytes}
      (offered : Offers reader bytes after) (ended : Stops levels complete bytes) :
      Failure levels reader after (.redis message)
  | lost {inLine : Bool} {bytes : Bytes} {between : BufReader} {error : RedisClientError}
      (offered : Offers reader bytes between) (begun : Partial levels inLine bytes)
      (cause : Lost between after inLine error) : Failure levels reader after error

section Failures

variable {platform : RespPlatform} {reader after : BufReader} {error : RedisClientError}

theorem read_bind_fails {α β : Type} {first : Read α} {next : α → Read β}
    (ran : (first >>= next) reader = (.error error, after)) :
    first reader = (.error error, after) ∨
      ∃ value between, first reader = (.ok value, between) ∧
        next value between = (.error error, after) := by
  cases result : first reader with
  | mk outcome between =>
    cases outcome with
    | ok value =>
      rw [read_bind_of_ok result] at ran
      exact .inr ⟨value, between, rfl, ran⟩
    | error error =>
      rw [read_bind_of_error result] at ran
      cases ran
      exact .inl rfl

theorem readNext_fails (ran : readNext reader = (.error error, after)) :
    ∃ io, reader.next = (.error io, after) ∧ error = .ofIo io := by
  rw [readNext] at ran
  split at ran
  · cases ran
  · rename_i io later given
    cases ran
    exact ⟨io, given, rfl⟩

theorem readByte_fails (ran : readByte reader = (.error error, after)) :
    Lost reader after false error := by
  rcases read_bind_fails ran with failed | ⟨given, between, next, rest⟩
  · obtain ⟨io, failure, rfl⟩ := readNext_fails failed
    exact .failed failure
  · cases given with
    | some first => cases rest
    | none =>
      cases rest
      exact .closed (readNext_ok.mp next)

variable {count levels : Nat} {start : BufReader} {read : Read Value}

theorem readExact_fails (ran : readExact count reader = (.error error, after)) :
    ∃ bytes between, bytes.length < count ∧ Offers reader bytes between ∧
      Lost between after false error := by
  induction count generalizing reader with
  | zero => cases ran
  | succ count ih =>
    rcases read_bind_fails ran with failed | ⟨first, between, head, rest⟩
    · exact ⟨[], reader, Nat.succ_pos count, rfl, readByte_fails failed⟩
    · rcases read_bind_fails rest with failed | ⟨_, _, _, impossible⟩
      · obtain ⟨bytes, last, fewer, offered, lost⟩ := ih failed
        exact ⟨first :: bytes, last, Nat.succ_lt_succ fewer,
          offers_cons (readByte_ok.mp head) offered, lost⟩
      · cases impossible

theorem readUntilLineFeed_fails {limit : Nat}
    (ran : readUntilLineFeed limit reader = (.error error, after)) :
    ∃ bytes between, bytes.length < limit ∧ lineFeed ∉ bytes ∧ Offers reader bytes between ∧
      Lost between after true error := by
  induction limit generalizing reader with
  | zero => cases ran
  | succ limit ih =>
    rcases read_bind_fails ran with failed | ⟨given, between, next, rest⟩
    · obtain ⟨io, failure, rfl⟩ := readNext_fails failed
      exact ⟨[], reader, Nat.succ_pos limit, List.not_mem_nil, rfl, .failed failure⟩
    · cases given with
      | none => cases rest
      | some first =>
        dsimp only at rest
        by_cases final : first = lineFeed
        · rw [if_pos final] at rest
          cases rest
        · rw [if_neg final] at rest
          rcases read_bind_fails rest with failed | ⟨_, _, _, impossible⟩
          · obtain ⟨bytes, last, fewer, unended, offered, lost⟩ := ih failed
            refine ⟨first :: bytes, last, Nat.succ_lt_succ fewer, ?_,
              offers_cons (readNext_ok.mp next) offered, lost⟩
            rw [List.mem_cons, not_or]
            exact ⟨fun same => final same.symm, unended⟩
          · cases impossible

/-- A line fails for what it holds, or within it. -/
def LineFails (reader after : BufReader) (error : RedisClientError) : Prop :=
  (∃ message, error = .protocol message) ∨
    ∃ bytes between, bytes.length ≤ maxRespLineBytes ∧ lineFeed ∉ bytes ∧
      Offers reader bytes between ∧ Lost between after true error

theorem readRespLine_fails (ran : readRespLine platform reader = (.error error, after)) :
    LineFails reader after error := by
  rcases read_bind_fails ran with failed | ⟨bytes, between, _, rest⟩
  · obtain ⟨bytes, between, fewer, unended, offered, lost⟩ := readUntilLineFeed_fails failed
    exact .inr ⟨bytes, between, Nat.lt_succ_iff.mp fewer, unended, offered, lost⟩
  · apply Or.inl
    by_cases long : maxRespLineBytes < bytes.length
    · rw [if_pos long] at rest
      cases rest
      exact ⟨_, rfl⟩
    · rw [if_neg long] at rest
      by_cases ended : crlf <:+ bytes
      · rw [if_neg (not_not_intro ended)] at rest
        cases decoded : fromUtf8 (bytes.take (bytes.length - 2)) with
        | some text =>
          rw [decoded] at rest
          cases rest
        | none =>
          rw [decoded] at rest
          cases rest
          exact ⟨_, rfl⟩
      · rw [if_pos ended] at rest
        cases rest
        exact ⟨_, rfl⟩

theorem readNumber_fails {what : String}
    (ran : readNumber platform what reader = (.error error, after)) :
    LineFails reader after error := by
  rcases read_bind_fails ran with failed | ⟨text, between, _, rest⟩
  · exact readRespLine_fails failed
  · apply Or.inl
    cases parsed : parseSigned text with
    | ok number =>
      rw [parsed] at rest
      cases rest
    | error error =>
      rw [parsed] at rest
      cases rest
      exact ⟨_, rfl⟩

/-- A line that fails is a frame begun. -/
theorem LineFails.failure {kind : Kind} (given : start.next = (.ok (some kind.mark), reader))
    (fails : LineFails reader after error) : Failure (levels + 1) start after error := by
  rcases fails with ⟨message, rfl⟩ | ⟨bytes, between, short, unended, offered, lost⟩
  · exact .malformed message
  · exact .lost (offers_cons given offered) (.line unended short) lost

theorem readBulk_fails (given : start.next = (.ok (some Kind.bulk.mark), reader))
    (ran : readBulk platform reader = (.error error, after)) :
    Failure (levels + 1) start after error := by
  rcases read_bind_fails ran with failed | ⟨length, between, number, rest⟩
  · exact (readNumber_fails failed).failure given
  · obtain ⟨text, plain, _, header, denotes, _⟩ := (readNumber_ok platform).mp number
    rcases read_sized rest with ⟨_, impossible, _⟩ | ⟨_, refused⟩ | ⟨whole, few, rest⟩
    · cases impossible
    · cases refused
      exact .malformed _
    · rw [← whole] at denotes
      -- what is lost before the end of the bulk string
      have missing : ∀ {bytes : Bytes} {stop : BufReader},
          bytes.length < length.toNat + 2 → Offers between bytes stop →
          Lost stop after false error → Failure (levels + 1) start after error := by
        intro bytes stop fewer offered lost
        exact .lost (offers_cons given (offers_append.mpr ⟨between, header, offered⟩))
          (.bulk plain denotes few fewer) lost
      rcases read_bind_fails rest with failed | ⟨bytes, middle, body, rest⟩
      · obtain ⟨bytes, stop, fewer, offered, lost⟩ := readExact_fails failed
        exact missing (by omega) offered lost
      · obtain ⟨size, inside⟩ := readExact_ok.mp body
        rcases read_bind_fails rest with failed | ⟨_, _, _, impossible⟩
        · rcases read_bind_fails failed with failed | ⟨ending, last, _, compared⟩
          · obtain ⟨more, stop, fewer, offered, lost⟩ := readExact_fails failed
            have shorter : (bytes ++ more).length < length.toNat + 2 := by
              rw [List.length_append]
              omega
            exact missing shorter (offers_append.mpr ⟨middle, inside, offered⟩) lost
          · by_cases same : ending = crlf
            · rw [if_pos same] at compared
              cases compared
            · rw [if_neg same] at compared
              cases compared
              exact .malformed _
        · cases impossible

/-- Of the values read one after the other, one fails after some that were read. -/
theorem readMany_fails
    (reads : ∀ {reader after : BufReader} {value : Value}, read reader = (.ok value, after) →
      ∃ bytes, Offers reader bytes after ∧ Frame bytes value ∧ Fits levels value)
    (fails : ∀ {reader after : BufReader} {error : RedisClientError},
      read reader = (.error error, after) → Failure levels reader after error)
    (ran : readMany read count reader = (.error error, after)) :
    ∃ items body between, items.length < count ∧ Frames body items ∧
      (∀ item ∈ items, Fits levels item) ∧ Offers reader body between ∧
      Failure levels between after error := by
  induction count generalizing reader with
  | zero => cases ran
  | succ count ih =>
    rcases read_bind_fails ran with failed | ⟨first, between, head, rest⟩
    · exact ⟨[], [], reader, Nat.succ_pos count, .nil,
        fun _ none => absurd none List.not_mem_nil, rfl, fails failed⟩
    · rcases read_bind_fails rest with failed | ⟨_, _, _, impossible⟩
      · obtain ⟨items, body, last, fewer, frames, fit, offered, failure⟩ := ih failed
        obtain ⟨bytes, given, frame, fits⟩ := reads head
        refine ⟨first :: items, bytes ++ body, last, Nat.succ_lt_succ fewer,
          frame.append frames, ?_, offers_append.mpr ⟨between, given, offered⟩, failure⟩
        intro item member
        rcases List.mem_cons.mp member with rfl | later
        · exact fits
        · exact fit item later
      · cases impossible

/-- A failure inside an array, after its header and some of its items. -/
theorem Failure.inside {between : BufReader} {text : String} {body : Bytes} {items : List Value}
    (oneLine : OneLine text) (denotes : Decimal.signed text.toList = some (count : Int))
    (few : count ≤ maxRespArrayLen) (inside : Frames body items)
    (fits : ∀ item ∈ items, Fits levels item) (missing : items.length < count)
    (offered : Offers start (Kind.array.mark :: (line text ++ body)) between)
    (failure : Failure levels between after error) : Failure (levels + 1) start after error := by
  have longer : ∀ {tail : Bytes} {stop : BufReader}, Offers between tail stop →
      Offers start (Kind.array.mark :: (line text ++ (body ++ tail))) stop := by
    intro tail stop more
    have whole := offers_append.mpr ⟨between, offered, more⟩
    simpa using whole
  cases failure with
  | malformed message => exact .malformed message
  | stopped more ended =>
    obtain ⟨rest, rfl⟩ := Nat.exists_eq_add_of_lt missing
    have split : items.length + rest + 1 = items.length + 1 + rest := by omega
    rw [split] at denotes few
    exact .stopped (longer more) (.array oneLine denotes few inside fits ended)
  | lost more begun cause =>
    exact .lost (longer more) (.array oneLine denotes few inside fits missing begun) cause

theorem readArray_fails
    (reads : ∀ {reader after : BufReader} {value : Value}, read reader = (.ok value, after) →
      ∃ bytes, Offers reader bytes after ∧ Frame bytes value ∧ Fits levels value)
    (fails : ∀ {reader after : BufReader} {error : RedisClientError},
      read reader = (.error error, after) → Failure levels reader after error)
    (given : start.next = (.ok (some Kind.array.mark), reader))
    (ran : readArray platform read reader = (.error error, after)) :
    Failure (levels + 1) start after error := by
  rcases read_bind_fails ran with failed | ⟨length, between, number, rest⟩
  · exact (readNumber_fails failed).failure given
  · obtain ⟨text, plain, _, header, denotes, _⟩ := (readNumber_ok platform).mp number
    rcases read_sized rest with ⟨_, impossible, _⟩ | ⟨_, refused⟩ | ⟨whole, few, rest⟩
    · cases impossible
    · cases refused
      exact .malformed _
    · rw [← whole] at denotes
      rcases read_bind_fails rest with failed | ⟨_, _, _, impossible⟩
      · obtain ⟨items, body, stop, fewer, frames, fits, offered, failure⟩ :=
          readMany_fails reads fails failed
        exact failure.inside plain denotes few frames fits fewer
          (offers_cons given (offers_append.mpr ⟨between, header, offered⟩))
      · cases impossible

theorem readRespValueAtDepth_fails
    (ran : readRespValueAtDepth platform levels reader = (.error error, after)) :
    Failure levels reader after error := by
  induction levels generalizing reader after error with
  | zero =>
    cases ran
    exact .malformed _
  | succ levels ih =>
    rcases read_bind_fails ran with failed | ⟨mark, between, first, rest⟩
    · have here : Offers reader [] reader := rfl
      exact .lost here .start (readByte_fails failed)
    · have given := readByte_ok.mp first
      cases known : Kind.ofMark mark with
      | none =>
        rw [known] at rest
        cases rest
        exact .malformed _
      | some kind =>
        rw [known] at rest
        rw [Kind.ofMark_iff.mp known] at given
        cases kind with
        | status =>
          rcases read_bind_fails rest with failed | ⟨_, _, _, impossible⟩
          · exact (readRespLine_fails failed).failure given
          · cases impossible
        | error =>
          rcases read_bind_fails rest with failed | ⟨text, last, read, stop⟩
          · exact (readRespLine_fails failed).failure given
          · cases stop
            obtain ⟨plain, short, offered⟩ := (readRespLine_ok platform).mp read
            exact .stopped (offers_cons given offered) (.error plain short)
        | integer =>
          rcases read_bind_fails rest with failed | ⟨_, _, _, impossible⟩
          · exact (readNumber_fails failed).failure given
          · cases impossible
        | bulk => exact readBulk_fails given rest
        | array => exact readArray_fails readRespValueAtDepth_sound ih given rest

end Failures

/-- The bytes that are left start where frames end. -/
def Boundary (sent : Bytes) (reader : BufReader) : Prop :=
  ∃ before values, sent = before ++ reader.bytes ∧ Frames before values

/-- The stream is closed or a read fails within the frame that starts here, not for the time it
takes. -/
def Severed (reader : BufReader) : Prop :=
  ∃ inLine bytes between after error, bytes ≠ [] ∧ Offers reader bytes between ∧
    Partial maxRespDepth inLine bytes ∧ Lost between after inLine error ∧ error ≠ .timeout

/-- The frame that starts here holds an error reply before its end. -/
def ErrorInside (reader : BufReader) : Prop :=
  ∃ bytes after, Offers reader bytes after ∧ Stops maxRespDepth false bytes

section Calls

variable (platform : RespPlatform)

/-- From one reader to the other lie frames that a call passes over. -/
inductive PassesOver : BufReader → BufReader → Prop where
  | here {reader : BufReader} : PassesOver reader reader
  | skip {reader between after : BufReader} {bytes : Bytes} {value : Value}
      (offered : Offers reader bytes between) (frame : Frame bytes value)
      (fits : Fits maxRespDepth value) (passed : deliver platform value = none)
      (later : PassesOver between after) : PassesOver reader after

/-- No frame that a call comes to is severed or holds an error reply before its end. -/
def CalmFrames (reader : BufReader) : Prop :=
  ∀ start, PassesOver platform reader start → ¬Severed start ∧ ¬ErrorInside start

/-- A frame of the server's is an array of a message, with the payload third. -/
def SentMessage (sent payload : Bytes) : Prop :=
  ∃ before values frame rest kind second third more, sent = before ++ (frame ++ rest) ∧
    Frames before values ∧ Frame frame (.array (kind :: second :: third :: more)) ∧
    replyString platform "subscription message kind" kind = .ok "message" ∧
    replyBytes "subscription payload" third = .ok payload

/-- The subscription is desynced, or stands at the start of a frame. -/
def InFrame (sent : Bytes) (subscription : WasiRedisSubscription) : Prop :=
  subscription.desynced = true ∨ Boundary sent subscription.reader

variable {platform} {sent : Bytes} {reader after : BufReader} {value : Value}
  {error : RedisClientError} {subscription : WasiRedisSubscription}

theorem Boundary.skip (stands : Boundary sent reader) {bytes : Bytes}
    (offered : Offers reader bytes after) (frame : Frame bytes value) : Boundary sent after := by
  obtain ⟨before, values, whole, frames⟩ := stands
  refine ⟨before ++ bytes, values ++ [value], ?_, frames.append frame⟩
  rw [whole, offered.bytes, List.append_assoc]

theorem frame_ne_nil {bytes : Bytes} (frame : Frame bytes value) : bytes ≠ [] := by
  cases frame with
  | scalar _ _ _ => exact List.cons_ne_nil _ _
  | array _ _ _ _ => exact List.cons_ne_nil _ _

/-- A failure before any byte leaves the bytes as they are. -/
theorem Lost.bytes {inLine : Bool} (lost : Lost reader after inLine error) :
    reader.bytes = after.bytes := by
  cases lost with
  | closed ended => exact next_bytes ended
  | failed failure => exact next_bytes failure

theorem deliver_message {payload : Bytes}
    (delivered : deliver platform value = some (.ok payload)) :
    ∃ kind second third more, value = .array (kind :: second :: third :: more) ∧
      replyString platform "subscription message kind" kind = .ok "message" ∧
      replyBytes "subscription payload" third = .ok payload := by
  rw [deliver.eq_def] at delivered
  split at delivered
  · rename_i kind second third more
    cases read : replyString platform "subscription message kind" kind with
    | error error =>
      rw [read] at delivered
      cases delivered
    | ok text =>
      rw [read] at delivered
      dsimp only at delivered
      by_cases message : text = "message"
      · rw [if_pos message] at delivered
        refine ⟨kind, second, third, more, rfl, by rw [read, message], ?_⟩
        cases found : replyBytes "subscription payload" third with
        | error error =>
          rw [found] at delivered
          cases delivered
        | ok bytes =>
          rw [found] at delivered
          cases delivered
          rfl
      · rw [if_neg message] at delivered
        cases delivered
  · cases delivered

theorem nextMessageLoop_error {rounds : Nat}
    (failed : readRespValue platform subscription.reader = (.error error, after))
    (untimed : error ≠ .timeout) :
    nextMessageLoop platform (rounds + 1) subscription =
      (some (.error error), { subscription with reader := after }.markDesynced error) := by
  rw [nextMessageLoop, failed]
  cases error with
  | timeout => exact absurd rfl untimed
  | invalidUrl _ | io _ | redis _ | protocol _ | connectionDesynced _ => rfl

theorem WasiRedisSubscription.markDesynced_reader (subscription : WasiRedisSubscription)
    (error : RedisClientError) :
    (subscription.markDesynced error).reader = subscription.reader := by
  cases error with
  | io _ | timeout =>
    rw [markDesynced]
    split <;> rfl
  | invalidUrl _ | redis _ | protocol _ | connectionDesynced _ => rfl

/-- One call from the start of a frame. -/
theorem nextMessageLoop_step {rounds : Nat} (enough : subscription.reader.bytes.length < rounds)
    (stands : Boundary sent subscription.reader) (calm : CalmFrames platform subscription.reader) :
    ∃ result next, nextMessageLoop platform rounds subscription = (some result, next) ∧
      InFrame sent next ∧ ∀ payload, result = .ok payload → SentMessage platform sent payload := by
  induction rounds generalizing subscription with
  | zero => omega
  | succ rounds ih =>
    cases read : readRespValue platform subscription.reader with
    | mk outcome reader =>
      cases outcome with
      | ok value =>
        obtain ⟨bytes, offered, frame, fits⟩ := readRespValueAtDepth_sound read
        have later := stands.skip offered frame
        rw [nextMessageLoop, read]
        dsimp only
        cases delivered : deliver platform value with
        | some result =>
          refine ⟨result, _, rfl, .inr later, ?_⟩
          rintro payload rfl
          obtain ⟨kind, second, third, more, rfl, message, found⟩ :=
            deliver_message delivered
          obtain ⟨before, values, whole, frames⟩ := stands
          rw [offered.bytes] at whole
          exact ⟨before, values, bytes, reader.bytes, kind, second, third, more, whole,
            frames, frame, message, found⟩
        | none =>
          have positive := List.length_pos_iff.mpr (frame_ne_nil frame)
          have shrunk := congrArg List.length offered.bytes
          rw [List.length_append] at shrunk
          apply ih
          · show reader.bytes.length < rounds
            omega
          · exact later
          · intro start passes
            exact calm start (.skip offered frame fits delivered passes)
      | error error =>
        obtain ⟨unsevered, uninside⟩ := calm _ .here
        cases readRespValueAtDepth_fails read with
        | malformed message =>
          exact ⟨_, _, nextMessageLoop_error read (by simp), .inl rfl,
            fun _ none => by cases none⟩
        | stopped offered ended =>
          rename_i message complete bytes
          cases complete with
          | false => exact absurd ⟨bytes, reader, offered, ended⟩ uninside
          | true =>
            obtain ⟨value, frame⟩ := ended.frame rfl
            exact ⟨_, _, nextMessageLoop_error read (by simp),
              .inr (stands.skip offered frame), fun _ none => by cases none⟩
        | lost offered begun cause =>
          rename_i inLine bytes between
          by_cases timed : error = .timeout
          · rw [timed] at read
            rw [nextMessageLoop, read]
            exact ⟨_, _, rfl, .inl rfl, fun _ none => by cases none⟩
          · by_cases begins : bytes = []
            · rw [begins, Offers] at offered
              rw [offered] at cause
              obtain ⟨before, values, whole, frames⟩ := stands
              rw [cause.bytes] at whole
              refine ⟨.error error, _, nextMessageLoop_error read timed, .inr ?_,
                fun _ none => by cases none⟩
              rw [Boundary, WasiRedisSubscription.markDesynced_reader]
              exact ⟨before, values, whole, frames⟩
            · exact absurd ⟨inLine, bytes, between, reader, error, begins, offered, begun,
                cause, timed⟩ unsevered

/-- What a call does that keeps its condition. -/
theorem nextMessage_step (stands : InFrame sent subscription)
    (meets : subscription.desynced = true ∨ CalmFrames platform subscription.reader) :
    ∃ result next, nextMessage platform subscription = (some result, next) ∧
      InFrame sent next ∧ ∀ payload, result = .ok payload → SentMessage platform sent payload := by
  rw [nextMessage]
  by_cases desynced : subscription.desynced = true
  · rw [if_pos desynced]
    exact ⟨_, _, rfl, .inl desynced, fun _ none => by cases none⟩
  · rw [if_neg desynced]
    exact nextMessageLoop_step (Nat.lt_succ_self _) (stands.resolve_left desynced)
      (meets.resolve_left desynced)

theorem boundary_start (reader : BufReader) : Boundary reader.bytes reader :=
  ⟨[], [], rfl, .nil⟩

/-- In a run of calls that come to no disturbed frame, the subscription is desynced or stands at
the start of a frame after every call, every call returns, and every payload is that of a message
frame of the server's; a desynced subscription only fails. -/
theorem subscription_inFrame (platform : RespPlatform) :
    (∀ (subscription : WasiRedisSubscription) (calls : Nat),
      (∀ made < calls, (nextMessages platform made subscription).2.desynced = true ∨
        CalmFrames platform (nextMessages platform made subscription).2.reader) →
      InFrame subscription.reader.bytes (nextMessages platform calls subscription).2 ∧
      ∀ outcome ∈ (nextMessages platform calls subscription).1, ∃ result, outcome = some result ∧
        ∀ payload, result = .ok payload →
          SentMessage platform subscription.reader.bytes payload) ∧
    ∀ subscription : WasiRedisSubscription, subscription.desynced = true →
      nextMessage platform subscription =
        (some (.error (.connectionDesynced
          "subscription connection is desynced; call resubscribe()")), subscription) := by
  constructor
  · intro subscription calls
    induction calls with
    | zero =>
      intro _
      exact ⟨.inr (boundary_start _), fun _ none => absurd none List.not_mem_nil⟩
    | succ calls ih =>
      intro meets
      obtain ⟨stands, earlier⟩ := ih (fun made before => meets made (Nat.lt_succ_of_lt before))
      obtain ⟨result, next, ran, inFrame, sent⟩ :=
        nextMessage_step stands (meets calls (Nat.lt_succ_self calls))
      rw [nextMessages, ran]
      refine ⟨inFrame, ?_⟩
      intro outcome member
      rcases List.mem_append.mp member with old | new
      · exact earlier outcome old
      · exact ⟨result, List.mem_singleton.mp new, sent⟩
  · intro subscription desynced
    rw [nextMessage, if_pos desynced]

end Calls

variable {values : List Value}

theorem frames_head {bytes : Bytes} {value : Value} (frames : Frames bytes (value :: values)) :
    ∃ first rest, bytes = first ++ rest ∧ Frame first value ∧ Frames rest values := by
  cases frames with
  | @scalar kind text body rest _ _ oneLine head later =>
    exact ⟨_, rest, by simp, head.frame oneLine, later⟩
  | @array text body rest items _ oneLine denotes inside later =>
    exact ⟨_, rest, by simp, frame_array oneLine denotes inside, later⟩

section CalmStreams

variable {platform : RespPlatform} {reader after between : BufReader} {value : Value} {rest : Bytes}
  {levels : Nat}

/-- Of what a reader gives, the shorter one starts the longer one. -/
theorem Offers.common {first second : Bytes} (one : Offers reader first between)
    (two : Offers reader second after) : ∃ rest more, first ++ rest = second ++ more := by
  induction first generalizing reader second with
  | nil => exact ⟨second, [], by simp⟩
  | cons b first ih =>
    cases second with
    | nil => exact ⟨[], b :: first, by simp⟩
    | cons c second =>
      obtain ⟨next, given, inside⟩ := one
      obtain ⟨other, again, later⟩ := two
      rw [given] at again
      cases again
      obtain ⟨rest, more, same⟩ := ih inside later
      exact ⟨rest, more, by rw [List.cons_append, same, List.cons_append]⟩

theorem Offers.unique {bytes : Bytes} (one : Offers reader bytes between)
    (two : Offers reader bytes after) : between = after := by
  induction bytes generalizing reader with
  | nil =>
    rw [Offers] at one two
    rw [one, two]
  | cons b bytes ih =>
    obtain ⟨next, given, inside⟩ := one
    obtain ⟨other, again, later⟩ := two
    rw [given] at again
    cases again
    exact ih inside later

/-- A plain value is encoded as a mark, which is not that of an error reply, and a line. -/
theorem plain_head (plain : Plain value) :
    ∃ kind text rest, kind ≠ Kind.error ∧ OneLine text ∧
      encode value = kind.mark :: (line text ++ rest) := by
  cases plain with
  | nil => exact ⟨.bulk, _, [], by decide, numberText_oneLine _, by rw [encode, List.append_nil]⟩
  | status oneLine => exact ⟨.status, _, [], by decide, oneLine, by rw [encode, List.append_nil]⟩
  | integer number =>
    exact ⟨.integer, _, [], by decide, numberText_oneLine _, by rw [encode, List.append_nil]⟩
  | bulk bytes => exact ⟨.bulk, _, _, by decide, numberText_oneLine _, by rw [encode, bulkFrame]⟩
  | array _ => exact ⟨.array, _, _, by decide, numberText_oneLine _, by rw [encode]⟩

/-- What starts like an array of plain values is its encoding. -/
theorem plain_array (plain : Plain value) {text : String} {bytes : Bytes} {count : Nat}
    (oneLine : OneLine text) (denotes : Decimal.signed text.toList = some (count : Int))
    (same : Kind.array.mark :: (line text ++ bytes) = encode value ++ rest) :
    ∃ items, value = .array items ∧ items.length = count ∧ bytes = encodeAll items ++ rest := by
  cases plain with
  | array each =>
    rw [encode, List.cons_append, List.append_assoc] at same
    obtain ⟨_, rfl, body⟩ := header_unique oneLine (numberText_oneLine _) same
    rw [signed_numberText, Option.some.injEq, Int.natCast_inj] at denotes
    exact ⟨_, rfl, denotes, body⟩
  | nil | status _ | integer _ | bulk _ =>
    rw [encode] at same
    have marks := Kind.mark_inj (List.cons.inj same).1
    cases marks

/-- After fewer items than the array has, its next item starts. -/
theorem next_item {whole items : List Value} {body tail : Bytes} (each : ∀ item ∈ whole, Plain item)
    (inside : Frames body items) (missing : items.length < whole.length)
    (same : body ++ tail = encodeAll whole ++ rest) :
    ∃ item ∈ whole, ∃ later, tail = encode item ++ later := by
  induction whole generalizing body items with
  | nil => cases missing
  | cons item whole ih =>
    rw [encodeAll] at same
    cases items with
    | nil =>
      cases inside
      exact ⟨item, List.mem_cons_self, _, by rw [← List.nil_append tail, same,
        List.append_assoc]⟩
    | cons first items =>
      obtain ⟨head, others, rfl, frame, frames⟩ := frames_head inside
      rw [List.append_assoc, List.append_assoc] at same
      obtain ⟨rfl, _⟩ := frame_unique frame (each item List.mem_cons_self).frame same
      obtain ⟨next, member, later⟩ :=
        ih (fun other inside => each other (List.mem_cons_of_mem item inside)) frames
          (Nat.lt_of_succ_lt_succ missing) (List.append_cancel_left same)
      exact ⟨next, List.mem_cons_of_mem item member, later⟩

/-- Bytes that begin a frame and do not end it hold no plain value's encoding. -/
theorem Partial.not_whole {inLine : Bool} {bytes : Bytes} (begun : Partial levels inLine bytes)
    (plain : Plain value) : bytes ≠ encode value ++ rest := by
  intro same
  induction begun generalizing value rest with
  | start =>
    obtain ⟨kind, text, body, _, _, shape⟩ := plain_head plain
    rw [shape] at same
    cases same
  | line unended short =>
    obtain ⟨kind, text, body, _, _, shape⟩ := plain_head plain
    rw [shape] at same
    apply unended
    rw [(List.cons.inj same).2, Resp.line]
    simp [crlf, lineFeed]
  | bulk oneLine denotes short missing =>
    cases plain with
    | bulk bytes =>
      rw [encode, bulkFrame, List.cons_append, List.append_assoc] at same
      obtain ⟨_, rfl, body⟩ := header_unique oneLine (numberText_oneLine _) same
      rw [signed_numberText, Option.some.injEq, Int.natCast_inj] at denotes
      have size := congrArg List.length body
      simp only [List.length_append, crlf, List.length_cons, List.length_nil] at size
      omega
    | nil =>
      rw [encode, List.cons_append] at same
      obtain ⟨_, rfl, _⟩ := header_unique oneLine (numberText_oneLine _) same
      rw [signed_numberText, Option.some.injEq] at denotes
      omega
    | status _ | integer _ | array _ =>
      rw [encode] at same
      have marks := Kind.mark_inj (List.cons.inj same).1
      cases marks
  | array oneLine denotes few inside fits missing open_item ih =>
    obtain ⟨whole, rfl, rfl, body⟩ := plain_array plain oneLine denotes same
    cases plain with
    | array each =>
      obtain ⟨item, member, later, tail⟩ := next_item each inside missing body
      exact ih (each item member) tail

theorem Stops.ne_nil {complete : Bool} {bytes : Bytes} (stopped : Stops levels complete bytes) :
    bytes ≠ [] := by
  cases stopped with
  | error _ _ | array _ _ _ _ _ _ => exact List.cons_ne_nil _ _

/-- Bytes that end with an error reply begin no plain value's encoding. -/
theorem Stops.not_plain {complete : Bool} {bytes more : Bytes}
    (stopped : Stops levels complete bytes) (plain : Plain value) :
    bytes ++ rest ≠ encode value ++ more := by
  intro same
  induction stopped generalizing value rest more with
  | error oneLine short =>
    obtain ⟨kind, text, body, other, _, shape⟩ := plain_head plain
    rw [shape] at same
    exact other (Kind.mark_inj (List.cons.inj same).1).symm
  | array oneLine denotes few inside fits stopped ih =>
    rw [List.cons_append, List.append_assoc, List.append_assoc] at same
    obtain ⟨whole, rfl, count, body⟩ := plain_array plain oneLine denotes same
    cases plain with
    | array each =>
      obtain ⟨item, member, later, tail⟩ := next_item each inside (by omega) body
      exact ih (each item member) tail

/-- A call is calm at a plain value that is there as a whole, where it is calm behind it. -/
theorem CalmFrames.cons (plain : Plain value) (offered : Offers reader (encode value) after)
    (calm : CalmFrames platform after) : CalmFrames platform reader := by
  intro start passes
  cases passes with
  | here =>
    constructor
    · rintro ⟨inLine, bytes, between, last, error, _, given, begun, lost, _⟩
      have dry : ∀ b later, between.next ≠ (.ok (some b), later) := by
        intro b later next
        cases lost with
        | closed ended =>
          rw [ended] at next
          cases next
        | failed failure =>
          rw [failure] at next
          cases next
      obtain ⟨rest, same⟩ := offered.within given dry
      exact begun.not_whole plain same.symm
    · rintro ⟨bytes, last, given, stopped⟩
      obtain ⟨rest, more, same⟩ := given.common offered
      exact stopped.not_plain plain same
  | skip given frame _ _ later =>
    obtain ⟨rest, more, same⟩ := given.common offered
    obtain ⟨rfl, _⟩ := frame_unique frame plain.frame same
    rw [given.unique offered] at later
    exact calm start later

/-- A call is calm where no byte comes. -/
theorem calmFrames_dry (dry : ∀ b later, reader.next ≠ (.ok (some b), later)) :
    CalmFrames platform reader := by
  have nothing : ∀ {bytes : Bytes} {last : BufReader}, bytes ≠ [] →
      ¬Offers reader bytes last := by
    intro bytes last some_byte offered
    cases bytes with
    | nil => exact some_byte rfl
    | cons b rest =>
      obtain ⟨between, next, _⟩ := offered
      exact dry b between next
  intro start passes
  cases passes with
  | skip offered frame _ _ _ => exact absurd offered (nothing (frame_ne_nil frame))
  | here =>
    constructor
    · rintro ⟨_, bytes, between, _, _, some_byte, offered, _⟩
      exact nothing some_byte offered
    · rintro ⟨bytes, last, offered, ended⟩
      exact nothing ended.ne_nil offered

end CalmStreams

/-- Frames that start the bytes of one frame are none, or all of them. -/
theorem frames_of_frame {sent before rest : Bytes} {value : Value} (one : Frame sent value)
    (whole : sent = before ++ rest) (frames : Frames before values) : before = [] ∨ rest = [] := by
  cases values with
  | nil =>
    cases frames
    exact .inl rfl
  | cons first values =>
    obtain ⟨head, tail, rfl, frame, _⟩ := frames_head frames
    have same : sent ++ [] = head ++ (tail ++ rest) := by
      rw [List.append_nil, whole, List.append_assoc]
    have equal := (frame_unique one frame same).1
    rw [whole, List.append_assoc, List.append_right_eq_self, List.append_eq_nil_iff] at equal
    exact .inr equal.2

def strayItems : List Value :=
  [.bulk (textBytes "message"), .bulk (textBytes "c"), .bulk (textBytes "X")]

/-- An array of an error reply and a message: one frame. -/
def strayFrame : Bytes := encode (.array [.error "ERR x", .array strayItems])

theorem strayFrame_frame : Frame strayFrame (.array [.error "ERR x", .array strayItems]) := by
  have errorLine : OneLine "ERR x" := by
    rw [OneLine]
    decide +kernel
  have items : Frames (encodeAll [.error "ERR x", .array strayItems])
      [.error "ERR x", .array strayItems] := by
    apply frames_encodeAll
    intro item member
    simp only [List.mem_cons, List.not_mem_nil, or_false] at member
    rcases member with rfl | rfl
    · have head := Scalar.error.frame errorLine
      rw [List.append_nil] at head
      rw [encode]
      exact head
    · apply Plain.frame
      apply Plain.array
      intro inner listed
      simp only [strayItems, List.mem_cons, List.not_mem_nil, or_false] at listed
      rcases listed with rfl | rfl | rfl <;> exact .bulk _
  rw [strayFrame, encode]
  exact frame_array (numberText_oneLine _) (signed_numberText _) items

def spareItems : List Value :=
  [.bulk (textBytes "message"), .bulk (textBytes "c"), .bulk (textBytes "Y")]

def subscribed : Value := .array [.bulk (textBytes "subscribe"), .bulk (textBytes "c"), .integer 1]

/-- A message's frame comes in two pieces. -/
def spareStart : Bytes := (encode (.array spareItems)).take 4

def spareRest : Bytes := (encode (.array spareItems)).drop 5

def spareArrivals : List Arrival :=
  [.bytes 36 spareRest, .failure ⟨.timedOut, "timed out"⟩]

/-- The acknowledgement of the subscription and two messages; then the read times out. -/
def liveStart : WasiRedisSubscription :=
  ⟨"c", ⟨encode subscribed ++ (encode (.array strayItems) ++ spareStart), spareArrivals⟩, false⟩

theorem subscription_inFrame_live :
    (nextMessages wasmPlatform 3 liveStart).1 =
        [some (.ok (textBytes "X")), some (.ok (textBytes "Y")), some (.error .timeout)] ∧
      SentMessage wasmPlatform liveStart.reader.bytes (textBytes "X") ∧
      SentMessage wasmPlatform liveStart.reader.bytes (textBytes "Y") ∧
      InFrame liveStart.reader.bytes (nextMessages wasmPlatform 3 liveStart).2 := by
  have message : ∀ payload : String,
      Plain (.array [.bulk (textBytes "message"), .bulk (textBytes "c"),
        .bulk (textBytes payload)]) := by
    intro payload
    apply Plain.array
    intro item member
    simp only [List.mem_cons, List.not_mem_nil, or_false] at member
    rcases member with rfl | rfl | rfl <;> exact .bulk _
  have acknowledgement : Plain subscribed := by
    apply Plain.array
    intro item member
    simp only [List.mem_cons, List.not_mem_nil, or_false] at member
    rcases member with rfl | rfl | rfl
    · exact .bulk _
    · exact .bulk _
    · exact .integer 1
  have idle : CalmFrames wasmPlatform ⟨[], [.failure ⟨.timedOut, "timed out"⟩]⟩ :=
    calmFrames_dry (fun b later impossible => by cases impossible)
  have second : CalmFrames wasmPlatform ⟨spareStart, spareArrivals⟩ := by
    apply CalmFrames.cons (message "Y") _ idle
    have pieces : encode (.array spareItems) = spareStart ++ [36] ++ spareRest := by
      decide +kernel
    show Offers _ (encode (.array spareItems)) _
    rw [pieces, List.append_assoc]
    have front := offers_buffer spareStart [] spareArrivals
    have back := offers_buffer spareRest [] [.failure ⟨.timedOut, "timed out"⟩]
    rw [List.append_nil] at front back
    exact offers_append.mpr ⟨_, front, offers_cons rfl back⟩
  have first : CalmFrames wasmPlatform
      ⟨encode (.array strayItems) ++ spareStart, spareArrivals⟩ :=
    .cons (message "X") (offers_buffer _ _ _) second
  have start : CalmFrames wasmPlatform liveStart.reader :=
    .cons acknowledgement (offers_buffer _ _ _) first
  have ran : (nextMessages wasmPlatform 3 liveStart).1 =
      [some (.ok (textBytes "X")), some (.ok (textBytes "Y")), some (.error .timeout)] := by
    decide +kernel
  have calm : ∀ made < 3, (nextMessages wasmPlatform made liveStart).2.desynced = true ∨
      CalmFrames wasmPlatform (nextMessages wasmPlatform made liveStart).2.reader := by
    intro made before
    apply Or.inr
    have cases : made = 0 ∨ made = 1 ∨ made = 2 := by omega
    rcases cases with rfl | rfl | rfl
    · exact start
    · have stands : (nextMessages wasmPlatform 1 liveStart).2.reader =
          ⟨spareStart, spareArrivals⟩ := by decide +kernel
      rw [stands]
      exact second
    · have stands : (nextMessages wasmPlatform 2 liveStart).2.reader =
          ⟨[], [.failure ⟨.timedOut, "timed out"⟩]⟩ := by decide +kernel
      rw [stands]
      exact idle
  obtain ⟨inFrame, returned⟩ := (subscription_inFrame wasmPlatform).1 liveStart 3 calm
  have sent : ∀ payload, some (.ok payload) ∈ (nextMessages wasmPlatform 3 liveStart).1 →
      SentMessage wasmPlatform liveStart.reader.bytes payload := by
    intro payload member
    obtain ⟨result, same, whose⟩ := returned _ member
    cases same
    exact whose payload rfl
  refine ⟨ran, sent _ ?_, sent _ ?_, inFrame⟩
  · rw [ran]
    exact List.mem_cons_self
  · rw [ran]
    exact List.mem_cons_of_mem _ List.mem_cons_self

def strayStart : WasiRedisSubscription := ⟨"c", ⟨strayFrame, []⟩, false⟩

/-- The error reply is returned, the subscription is not marked and stands inside the frame, and
the next call returns the payload of a message that is no frame. -/
theorem strayMessage_returned :
    let after := (nextMessage wasmPlatform strayStart).2
    (nextMessage wasmPlatform strayStart).1 = some (.error (.redis "ERR x")) ∧
      ¬InFrame strayStart.reader.bytes after ∧
      (nextMessage wasmPlatform after).1 = some (.ok (textBytes "X")) ∧
      ¬SentMessage wasmPlatform strayStart.reader.bytes (textBytes "X") := by
  have sent : strayStart.reader.bytes = strayFrame := List.append_nil _
  refine ⟨by decide +kernel, ?_, by decide +kernel, ?_⟩
  · have unmarked : (nextMessage wasmPlatform strayStart).2.desynced = false := by decide +kernel
    have left : (nextMessage wasmPlatform strayStart).2.reader.bytes =
        encode (.array strayItems) := by decide +kernel
    rintro (desynced | ⟨before, values, whole, frames⟩)
    · rw [unmarked] at desynced
      cases desynced
    · rw [sent, left] at whole
      rcases frames_of_frame strayFrame_frame whole frames with none | none
      · rw [none] at whole
        exact absurd whole (by decide +kernel)
      · exact absurd none (by decide +kernel)
  · rintro ⟨before, values, frame, rest, kind, second, third, more, whole, frames, head, _, _⟩
    rw [sent] at whole
    rcases frames_of_frame strayFrame_frame whole frames with none | none
    · rw [none, List.nil_append] at whole
      have same : strayFrame ++ [] = frame ++ rest := by rw [List.append_nil, whole]
      have values := (frame_unique strayFrame_frame head same).2
      cases values
    · exact frame_ne_nil head (List.append_eq_nil_iff.mp none).1

end DddCqrsEs
