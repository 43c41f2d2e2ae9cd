import DddCqrsEs.Decimal
import DddCqrsEs.Event
import DddCqrsEs.JsonString
import DddCqrsEs.RedisServer

/- The names of the keys a Redis event store writes, and that no two of them are the same. -/
namespace DddCqrsEs

def validateRedisPrefix (text : String) : Except EventStoreError Unit :=
  if text = "" then .error (.backend "Redis key prefix cannot be empty" none)
  else if '\x7b' ∈ text.toList ∨ '\x7d' ∈ text.toList then
    .error (.backend ("Redis key prefix `" ++ text ++
      "` must not contain Redis Cluster hash-tag braces") none)
  else if text.toList.all (fun c => c = ':' || c = '_' || c = '-' || c.isAlphanum) then .ok ()
  else .error (.backend ("invalid Redis key prefix `" ++ text ++ "`") none)

/-- A key prefix that a store accepts. -/
def RedisPrefix : Type := { text : String // validateRedisPrefix text = .ok () }

/-- All keys of a prefix share one slot of a cluster. -/
def redisHashTaggedPrefix (text : String) : String := "\x7b" ++ text ++ "\x7d"

def hexEncode (bytes : List UInt8) : String :=
  String.ofList (bytes.flatMap (fun byte =>
    [JsonString.hexDigit (byte.toNat / 16), JsonString.hexDigit (byte.toNat % 16)]))

def asBytes (text : String) : List UInt8 := text.toUTF8.data.toList

/-- The keys of one prefix. Streams are named by their aggregate type and storage key. -/
inductive RedisKey where
  | sequence
  | global
  | event (number : Nat)
  | revision (aggregateType aggregateIdKey : String)
  | stream (aggregateType aggregateIdKey : String)
  deriving DecidableEq, Repr

def RedisKey.suffix : RedisKey → String
  | .sequence => ":seq"
  | .global => ":global"
  | .event number => ":event:" ++ Nat.repr number
  | .revision aggregateType aggregateIdKey =>
    ":revision:" ++ hexEncode (asBytes aggregateType) ++ ":" ++ hexEncode (asBytes aggregateIdKey)
  | .stream aggregateType aggregateIdKey =>
    ":stream:" ++ hexEncode (asBytes aggregateType) ++ ":" ++ hexEncode (asBytes aggregateIdKey)

namespace RedisPrefix

variable (keyPrefix : RedisPrefix)

def key (name : RedisKey) : String := redisHashTaggedPrefix keyPrefix.val ++ name.suffix

def eventKeyPrefix : String := redisHashTaggedPrefix keyPrefix.val ++ ":event:"

theorem eventKeyPrefix_append (number : Nat) :
    keyPrefix.eventKeyPrefix ++ Nat.repr number = keyPrefix.key (.event number) := by
  rw [eventKeyPrefix, key, RedisKey.suffix, String.append_assoc]

theorem brace_not_mem : '\x7d' ∉ keyPrefix.val.toList := by
  have valid := keyPrefix.property
  rw [validateRedisPrefix] at valid
  split at valid
  · cases valid
  · split at valid
    · cases valid
    · rename_i braces
      exact fun member => braces (Or.inr member)

end RedisPrefix

/-- Two texts cut at their first separator. -/
theorem eq_of_append_cons {α : Type} {separator : α} {first second rest after : List α}
    (inFirst : separator ∉ first) (inSecond : separator ∉ second)
    (same : first ++ separator :: rest = second ++ separator :: after) :
    first = second ∧ rest = after := by
  induction first generalizing second with
  | nil =>
    cases second with
    | nil => exact ⟨rfl, (List.cons.inj same).2⟩
    | cons head tail =>
      have heads := (List.cons.inj same).1
      exact absurd (heads ▸ List.mem_cons_self) inSecond
  | cons head tail ih =>
    cases second with
    | nil =>
      have heads := (List.cons.inj same).1
      exact absurd (heads ▸ List.mem_cons_self) inFirst
    | cons other others =>
      obtain ⟨heads, tails⟩ := List.cons.inj same
      have cut := ih (fun member => inFirst (List.mem_cons_of_mem _ member))
        (fun member => inSecond (List.mem_cons_of_mem _ member)) tails
      exact ⟨by rw [heads, cut.1], cut.2⟩

theorem hexDigit_ne_colon : ∀ d < 16, JsonString.hexDigit d ≠ ':' := by decide

theorem colon_not_mem_hexEncode (bytes : List UInt8) : ':' ∉ (hexEncode bytes).toList := by
  rw [hexEncode, String.toList_ofList, List.mem_flatMap]
  rintro ⟨byte, _, member⟩
  have small := byte.toNat_lt
  simp only [List.mem_cons, List.not_mem_nil, or_false] at member
  rcases member with high | low
  · exact hexDigit_ne_colon _ (by omega) high.symm
  · exact hexDigit_ne_colon _ (by omega) low.symm

theorem hexDigit_injective {first second : Nat} (firstDigit : first < 16) (secondDigit : second < 16)
    (same : JsonString.hexDigit first = JsonString.hexDigit second) : first = second := by
  have read := JsonString.hexValue_hexDigit first firstDigit
  rw [same, JsonString.hexValue_hexDigit second secondDigit] at read
  exact (Option.some.inj read).symm

theorem hexEncode_injective {first second : List UInt8} (same : hexEncode first = hexEncode second) :
    first = second := by
  have digits := String.ofList_injective same
  clear same
  induction first generalizing second with
  | nil =>
    cases second with
    | nil => rfl
    | cons byte rest => cases digits
  | cons byte rest ih =>
    cases second with
    | nil => cases digits
    | cons other others =>
      simp only [List.flatMap_cons, List.cons_append, List.nil_append, List.cons.injEq] at digits
      obtain ⟨high, low, tails⟩ := digits
      have bound := byte.toNat_lt
      have otherBound := other.toNat_lt
      have highs := hexDigit_injective (by omega) (by omega) high
      have lows := hexDigit_injective (by omega) (by omega) low
      have bytes : byte.toNat = other.toNat := by omega
      rw [UInt8.toNat_inj.mp bytes, ih tails]

theorem asBytes_injective {first second : String} (same : asBytes first = asBytes second) :
    first = second := by
  rw [← String.toByteArray_inj]
  exact ByteArray.ext (Array.toList_inj.mp same)

/-- The two names of a stream are read back from its key. -/
theorem hexEncode_pair {first second rest after : String}
    (same : hexEncode (asBytes first) ++ ":" ++ hexEncode (asBytes rest) =
      hexEncode (asBytes second) ++ ":" ++ hexEncode (asBytes after)) :
    first = second ∧ rest = after := by
  have chars := congrArg String.toList same
  have colon : (":" : String).toList = [':'] := rfl
  simp only [String.toList_append, colon, List.append_assoc, List.singleton_append] at chars
  obtain ⟨names, keys⟩ := eq_of_append_cons (colon_not_mem_hexEncode _) (colon_not_mem_hexEncode _)
    chars
  exact ⟨asBytes_injective (hexEncode_injective (String.toList_inj.mp names)),
    asBytes_injective (hexEncode_injective (String.toList_inj.mp keys))⟩

/-- A key is cut behind its tag, since no prefix holds a brace. -/
theorem redisHashTaggedPrefix_append {first second : RedisPrefix} {suffix other : String}
    (same : redisHashTaggedPrefix first.val ++ suffix = redisHashTaggedPrefix second.val ++ other) :
    first = second ∧ suffix = other := by
  have chars := congrArg String.toList same
  have opening : ("\x7b" : String).toList = ['\x7b'] := rfl
  have closing : ("\x7d" : String).toList = ['\x7d'] := rfl
  simp only [redisHashTaggedPrefix, String.toList_append, opening, closing,
    List.append_assoc, List.singleton_append] at chars
  obtain ⟨prefixes, suffixes⟩ := eq_of_append_cons first.brace_not_mem second.brace_not_mem
    (List.cons.inj chars).2
  exact ⟨Subtype.ext (String.toList_inj.mp prefixes), String.toList_inj.mp suffixes⟩

theorem RedisKey.suffix_injective {first second : RedisKey} (same : first.suffix = second.suffix) :
    first = second := by
  cases first <;> cases second
  case sequence.sequence => rfl
  case global.global => rfl
  case event.event number other =>
      have digits : Nat.repr number = Nat.repr other := by
        simpa [RedisKey.suffix, String.append_right_inj] using same
      rw [Decimal.repr_injective digits]
  case revision.revision | stream.stream =>
      simp only [RedisKey.suffix, String.append_assoc, String.append_right_inj] at same
      rw [← String.append_assoc, ← String.append_assoc] at same
      obtain ⟨names, keys⟩ := hexEncode_pair same
      rw [names, keys]
  -- the other names differ within the kind of key
  all_goals
    have chars := congrArg String.toList same
    simp [RedisKey.suffix] at chars

/-- Different keys of one prefix, and all keys of different prefixes, have different texts. -/
theorem RedisPrefix.key_injective {first second : RedisPrefix} {name other : RedisKey}
    (same : first.key name = second.key other) : first = second ∧ name = other := by
  obtain ⟨prefixes, suffixes⟩ := redisHashTaggedPrefix_append same
  exact ⟨prefixes, RedisKey.suffix_injective suffixes⟩

end DddCqrsEs
