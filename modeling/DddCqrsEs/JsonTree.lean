import DddCqrsEs.JsonString
import Mathlib.Data.List.Chain
import Mathlib.Data.List.Lex
import Mathlib.Data.Char
import Mathlib.Order.Lattice

/- JSON values as trees over numbers of any kind, whose objects are ordered maps: the compact
writer, the reader by way of tokens, and where quotes can stand in a text that is read. Nothing
here names an application. -/
namespace JsonTree

mutual

inductive Value (N : Type) where
  | null
  | bool (b : Bool)
  | number (n : N)
  | string (s : List Char)
  | array (items : Items N)
  | object (members : Members N)

inductive Items (N : Type) where
  | nil
  | cons (item : Value N) (rest : Items N)

inductive Members (N : Type) where
  | nil
  | cons (name : List Char) (value : Value N) (rest : Members N)

end

variable {N : Type}

namespace Members

@[grind =]
def names : Members N → List (List Char)
  | .nil => []
  | .cons name _ rest => name :: rest.names

/-- Put a member into a map. It replaces one of its name. -/
@[grind =]
def insert (name : List Char) (value : Value N) : Members N → Members N
  | .nil => .cons name value .nil
  | .cons other held rest =>
    if name = other then .cons name value rest
    else if name < other then .cons name value (.cons other held rest)
    else .cons other held (rest.insert name value)

/-- The members in the order of a text, put into a map one after the other. -/
def collect (map : Members N) : Members N → Members N
  | .nil => map
  | .cons name value rest => (map.insert name value).collect rest

/-- The members of a map: by name, and one for each name. -/
def Ordered (members : Members N) : Prop := members.names.Pairwise (· < ·)

end Members

mutual

/-- The value that a text with these members denotes. -/
def Value.canonical : Value N → Value N
  | .array items => .array items.canonical
  | .object members => .object (Members.nil.collect members.canonical)
  | value => value

def Items.canonical : Items N → Items N
  | .nil => .nil
  | .cons item rest => .cons item.canonical rest.canonical

def Members.canonical : Members N → Members N
  | .nil => .nil
  | .cons name value rest => .cons name value.canonical rest.canonical

end

inductive Token (N : Type) where
  | openArray
  | closeArray
  | openObject
  | closeObject
  | comma
  | colon
  | null
  | bool (b : Bool)
  | number (n : N)
  | string (s : List Char)

mutual

@[grind =]
def Value.tokens : Value N → List (Token N)
  | .null => [.null]
  | .bool b => [.bool b]
  | .number n => [.number n]
  | .string s => [.string s]
  | .array .nil => [.openArray, .closeArray]
  | .array (.cons item rest) => .openArray :: (item.tokens ++ rest.tokens)
  | .object .nil => [.openObject, .closeObject]
  | .object (.cons name value rest) =>
    .openObject :: .string name :: .colon :: (value.tokens ++ rest.tokens)

/-- The items after the first, each behind a comma, and the closing bracket. -/
@[grind =]
def Items.tokens : Items N → List (Token N)
  | .nil => [.closeArray]
  | .cons item rest => .comma :: (item.tokens ++ rest.tokens)

@[grind =]
def Members.tokens : Members N → List (Token N)
  | .nil => [.closeObject]
  | .cons name value rest => .comma :: .string name :: .colon :: (value.tokens ++ rest.tokens)

end

mutual

/-- A value, and the tokens after it. The fuel bounds the number of tokens. -/
def parseValue : Nat → List (Token N) → Option (Value N × List (Token N))
  | _ + 1, .null :: rest => some (.null, rest)
  | _ + 1, .bool b :: rest => some (.bool b, rest)
  | _ + 1, .number n :: rest => some (.number n, rest)
  | _ + 1, .string s :: rest => some (.string s, rest)
  | _ + 1, .openArray :: .closeArray :: rest => some (.array .nil, rest)
  | fuel + 1, .openArray :: rest =>
    (parseValue fuel rest).bind fun item =>
      (parseItems fuel item.2).map fun items => (.array (.cons item.1 items.1), items.2)
  | _ + 1, .openObject :: .closeObject :: rest => some (.object .nil, rest)
  | fuel + 1, .openObject :: .string name :: .colon :: rest =>
    (parseValue fuel rest).bind fun value =>
      (parseMembers fuel value.2).map fun members =>
        (.object (Members.nil.collect (.cons name value.1 members.1)), members.2)
  | _, _ => none

def parseItems : Nat → List (Token N) → Option (Items N × List (Token N))
  | _ + 1, .closeArray :: rest => some (.nil, rest)
  | fuel + 1, .comma :: rest =>
    (parseValue fuel rest).bind fun item =>
      (parseItems fuel item.2).map fun items => (.cons item.1 items.1, items.2)
  | _, _ => none

def parseMembers : Nat → List (Token N) → Option (Members N × List (Token N))
  | _ + 1, .closeObject :: rest => some (.nil, rest)
  | fuel + 1, .comma :: .string name :: .colon :: rest =>
    (parseValue fuel rest).bind fun value =>
      (parseMembers fuel value.2).map fun members =>
        (.cons name value.1 members.1, members.2)
  | _, _ => none

end

/-- A text's tokens are those of one value. -/
def parse (tokens : List (Token N)) : Option (Value N) :=
  match parseValue tokens.length tokens with
  | some (value, []) => some value
  | _ => none

/-- No value begins with a closing bracket. -/
theorem tokens_open (value : Value N) (rest : List (Token N)) :
    ∀ later, value.tokens ++ rest ≠ .closeArray :: later := by
  intro later
  rcases value with _ | _ | _ | _ | items | members
  case array => cases items <;> simp [Value.tokens]
  case object => cases members <;> simp [Value.tokens]
  all_goals simp [Value.tokens]

mutual

theorem parseValue_tokens (value : Value N) (fuel : Nat) (rest : List (Token N))
    (enough : value.tokens.length ≤ fuel) :
    parseValue fuel (value.tokens ++ rest) = some (value.canonical, rest) := by
  obtain ⟨fuel, rfl⟩ : ∃ less, fuel = less + 1 := by
    refine ⟨fuel - 1, ?_⟩
    have some : 0 < value.tokens.length := by
      rcases value with _ | _ | _ | _ | items | members
      case array => cases items <;> simp [Value.tokens]
      case object => cases members <;> simp [Value.tokens]
      all_goals simp [Value.tokens]
    omega
  match value with
  | .null | .bool _ | .number _ | .string _ | .array .nil => rfl
  | .object .nil => rfl
  | .array (.cons item items) =>
    simp only [Value.tokens, List.length_cons, List.length_append] at enough
    have first := parseValue_tokens item fuel (items.tokens ++ rest) (by omega)
    have others := parseItems_tokens items fuel rest (by omega)
    rw [Value.tokens, List.cons_append, List.append_assoc, parseValue, first, Option.bind_some,
      others]
    · rfl
    · exact tokens_open item _
  | .object (.cons name value members) =>
    simp only [Value.tokens, List.length_cons, List.length_append] at enough
    have first := parseValue_tokens value fuel (members.tokens ++ rest) (by omega)
    have others := parseMembers_tokens members fuel rest (by omega)
    rw [Value.tokens, List.cons_append, List.cons_append, List.cons_append, List.append_assoc,
      parseValue, first, Option.bind_some, others]
    rfl

theorem parseItems_tokens (items : Items N) (fuel : Nat) (rest : List (Token N))
    (enough : items.tokens.length ≤ fuel) :
    parseItems fuel (items.tokens ++ rest) = some (items.canonical, rest) := by
  match items with
  | .nil =>
    obtain ⟨fuel, rfl⟩ : ∃ less, fuel = less + 1 := ⟨fuel - 1, by
      simp only [Items.tokens, List.length_singleton] at enough
      omega⟩
    rfl
  | .cons item items =>
    simp only [Items.tokens, List.length_cons, List.length_append] at enough
    obtain ⟨fuel, rfl⟩ : ∃ less, fuel = less + 1 := ⟨fuel - 1, by omega⟩
    have first := parseValue_tokens item fuel (items.tokens ++ rest) (by omega)
    have others := parseItems_tokens items fuel rest (by omega)
    rw [Items.tokens, List.cons_append, List.append_assoc, parseItems, first, Option.bind_some,
      others]
    rfl

theorem parseMembers_tokens (members : Members N) (fuel : Nat) (rest : List (Token N))
    (enough : members.tokens.length ≤ fuel) :
    parseMembers fuel (members.tokens ++ rest) = some (members.canonical, rest) := by
  match members with
  | .nil =>
    obtain ⟨fuel, rfl⟩ : ∃ less, fuel = less + 1 := ⟨fuel - 1, by
      simp only [Members.tokens, List.length_singleton] at enough
      omega⟩
    rfl
  | .cons name value members =>
    simp only [Members.tokens, List.length_cons, List.length_append] at enough
    obtain ⟨fuel, rfl⟩ : ∃ less, fuel = less + 1 := ⟨fuel - 1, by omega⟩
    have first := parseValue_tokens value fuel (members.tokens ++ rest) (by omega)
    have others := parseMembers_tokens members fuel rest (by omega)
    rw [Members.tokens, List.cons_append, List.cons_append, List.cons_append, List.append_assoc,
      parseMembers, first, Option.bind_some, others]
    rfl

end

/-- The tokens of a value are read as the value they denote. -/
theorem parse_tokens (value : Value N) : parse value.tokens = some value.canonical := by
  have whole := parseValue_tokens value value.tokens.length [] (Nat.le_refl _)
  rw [List.append_nil] at whole
  rw [parse, whole]

/-- The characters of numbers and of the words `null`, `true` and `false`: none that separates
tokens, and neither quotes nor backslashes. -/
def isBare (c : Char) : Bool :=
  !(JsonString.isWhitespace c || "[]\x7b\x7d,:\"\\".toList.contains c)

/-- How numbers are written. -/
structure NumberFormat (N : Type) where
  write : N → List Char
  read : List Char → Option N
  read_write : ∀ n, read (write n) = some n
  shape : ∀ n, write n ≠ [] ∧ ∀ c ∈ write n, c.isDigit ∨ c ∈ ['+', '-', '.', 'e', 'E']

variable (format : NumberFormat N)

/-- A token made of such characters. -/
def readBare (text : List Char) : Option (Token N) :=
  if text = "null".toList then some .null
  else if text = "true".toList then some (.bool true)
  else if text = "false".toList then some (.bool false)
  else (format.read text).map .number

/-- The tokens of a text. The fuel bounds its length. -/
def lex : Nat → List Char → Option (List (Token N))
  | 0, _ => none
  | _ + 1, [] => some []
  | fuel + 1, c :: rest =>
    if JsonString.isWhitespace c then lex fuel rest
    else if c = '[' then (lex fuel rest).map (.openArray :: ·)
    else if c = ']' then (lex fuel rest).map (.closeArray :: ·)
    else if c = '\x7b' then (lex fuel rest).map (.openObject :: ·)
    else if c = '\x7d' then (lex fuel rest).map (.closeObject :: ·)
    else if c = ',' then (lex fuel rest).map (.comma :: ·)
    else if c = ':' then (lex fuel rest).map (.colon :: ·)
    else if c = '"' then
      (JsonString.readBody .plain rest).bind fun read =>
        (lex fuel read.2).map (.string read.1 :: ·)
    else if isBare c then
      (readBare format ((c :: rest).takeWhile isBare)).bind fun token =>
        (lex fuel ((c :: rest).dropWhile isBare)).map (token :: ·)
    else none

/-- A text that is one JSON value, with white space between its tokens. -/
def read (text : List Char) : Option (Value N) :=
  (lex format (text.length + 1) text).bind parse

def Token.text : Token N → List Char
  | .openArray => ['[']
  | .closeArray => [']']
  | .openObject => ['\x7b']
  | .closeObject => ['\x7d']
  | .comma => [',']
  | .colon => [':']
  | .null => "null".toList
  | .bool true => "true".toList
  | .bool false => "false".toList
  | .number n => format.write n
  | .string s => JsonString.write s

/-- The compact text of a value. -/
def Value.write (value : Value N) : List Char := value.tokens.flatMap (Token.text format)

/-- Whether a token's text would run into that of another such token. -/
def Token.bare : Token N → Bool
  | .null | .bool _ | .number _ => true
  | _ => false

/-- Two tokens that can stand next to each other. -/
def Apart (token next : Token N) : Prop := token.bare = true → next.bare = false

variable {token : Token N} {c : Char}

theorem apart_of_not_bare (mark : token.bare = false) (next : Token N) : Apart token next := by
  intro bare
  rw [mark] at bare
  cases bare

mutual

theorem tokens_apart (value : Value N) : value.tokens.IsChain Apart := by
  match value with
  | .null | .bool _ | .number _ | .string _ => exact List.isChain_singleton _
  | .array .nil => simp [Value.tokens, Apart, Token.bare]
  | .object .nil => simp [Value.tokens, Apart, Token.bare]
  | .array (.cons item rest) =>
    have first := tokens_apart item
    obtain ⟨others, opens⟩ := itemsTokens_apart rest
    rw [Value.tokens, List.isChain_cons, List.isChain_append]
    refine ⟨fun next _ => apart_of_not_bare rfl next, first, others, ?_⟩
    intro token _ next head _
    exact opens next head
  | .object (.cons name value rest) =>
    have first := tokens_apart value
    obtain ⟨others, opens⟩ := membersTokens_apart rest
    rw [Value.tokens, List.isChain_cons, List.isChain_cons, List.isChain_cons,
      List.isChain_append]
    refine ⟨fun next _ => apart_of_not_bare rfl next, fun next _ => apart_of_not_bare rfl next,
      fun next _ => apart_of_not_bare rfl next, first, others, ?_⟩
    intro token _ next head _
    exact opens next head

theorem itemsTokens_apart (items : Items N) :
    items.tokens.IsChain Apart ∧ ∀ token ∈ items.tokens.head?, token.bare = false := by
  match items with
  | .nil => simp [Items.tokens, Token.bare]
  | .cons item rest =>
    have first := tokens_apart item
    obtain ⟨others, opens⟩ := itemsTokens_apart rest
    rw [Items.tokens, List.isChain_cons, List.isChain_append]
    refine ⟨⟨fun next _ => apart_of_not_bare rfl next, first, others, ?_⟩, by simp [Token.bare]⟩
    intro token _ next head _
    exact opens next head

theorem membersTokens_apart (members : Members N) :
    members.tokens.IsChain Apart ∧ ∀ token ∈ members.tokens.head?, token.bare = false := by
  match members with
  | .nil => simp [Members.tokens, Token.bare]
  | .cons name value rest =>
    have first := tokens_apart value
    obtain ⟨others, opens⟩ := membersTokens_apart rest
    rw [Members.tokens, List.isChain_cons, List.isChain_cons, List.isChain_cons,
      List.isChain_append]
    refine ⟨⟨fun next _ => apart_of_not_bare rfl next, fun next _ => apart_of_not_bare rfl next,
      fun next _ => apart_of_not_bare rfl next, first, others, ?_⟩, by simp [Token.bare]⟩
    intro token _ next head _
    exact opens next head

end

variable {format}

theorem isBare_iff (c : Char) : isBare c = true ↔
    JsonString.isWhitespace c = false ∧ c ≠ '[' ∧ c ≠ ']' ∧ c ≠ '\x7b' ∧ c ≠ '\x7d' ∧ c ≠ ',' ∧
      c ≠ ':' ∧ c ≠ '"' ∧ c ≠ '\\' := by
  have listed : "[]\x7b\x7d,:\"\\".toList = ['[', ']', '\x7b', '\x7d', ',', ':', '"', '\\'] := by
    decide
  rw [isBare, listed]
  simp

theorem isBare_of_isDigit (digit : c.isDigit = true) : isBare c = true := by
  have foreign : ∀ other : Char, other.isDigit = false → c ≠ other := by
    intro other plain same
    rw [same, plain] at digit
    cases digit
  rw [isBare_iff, JsonString.isWhitespace]
  simp [foreign]

/-- A word is not the text of a number. -/
theorem number_ne_word (n : N) {word : List Char} (member : c ∈ word)
    (letter : ¬ (c.isDigit = true ∨ c ∈ ['+', '-', '.', 'e', 'E'])) : format.write n ≠ word := by
  intro same
  rw [← same] at member
  exact letter ((format.shape n).2 c member)

variable (format) in
/-- The text of such a token: bare, and read back. -/
theorem bare_text (bare : token.bare = true) :
    token.text format ≠ [] ∧ (∀ c ∈ token.text format, isBare c = true) ∧
      readBare format (token.text format) = some token := by
  cases token with
  | null =>
    rw [Token.text]
    exact ⟨by decide, by decide, rfl⟩
  | bool b =>
    cases b with
    | false =>
      rw [Token.text]
      exact ⟨by decide, by decide, rfl⟩
    | true =>
      rw [Token.text]
      exact ⟨by decide, by decide, rfl⟩
  | number n =>
    obtain ⟨nonempty, shape⟩ := format.shape n
    have signs : ∀ c ∈ ['+', '-', '.', 'e', 'E'], isBare c = true := by decide
    have null : format.write n ≠ "null".toList :=
      number_ne_word n (c := 'n') (by decide) (by decide)
    have yes : format.write n ≠ "true".toList :=
      number_ne_word n (c := 't') (by decide) (by decide)
    have no : format.write n ≠ "false".toList :=
      number_ne_word n (c := 'f') (by decide) (by decide)
    refine ⟨nonempty, ?_, ?_⟩
    · intro c member
      rcases shape c member with digit | sign
      · exact isBare_of_isDigit digit
      · exact signs c sign
    · rw [Token.text, readBare, if_neg null, if_neg yes, if_neg no, format.read_write]
      rfl
  | _ => cases bare

theorem lex_bare (bare : isBare c = true) (fuel : Nat) (rest : List Char) :
    lex format (fuel + 1) (c :: rest) =
      (readBare format ((c :: rest).takeWhile isBare)).bind fun token =>
        (lex format fuel ((c :: rest).dropWhile isBare)).map (token :: ·) := by
  have others := (isBare_iff c).mp bare
  rw [lex]
  simp [others, bare]

variable (format) in
/-- The text of a token that is not bare begins with a character that is not. -/
theorem text_head (mark : token.bare = false) :
    ∃ c rest, token.text format = c :: rest ∧ isBare c = false := by
  cases token with
  | null | bool _ | number _ => cases mark
  | string s => exact ⟨'"', _, rfl, by decide⟩
  | openArray => exact ⟨'[', [], rfl, by decide⟩
  | closeArray => exact ⟨']', [], rfl, by decide⟩
  | openObject => exact ⟨'\x7b', [], rfl, by decide⟩
  | closeObject => exact ⟨'\x7d', [], rfl, by decide⟩
  | comma => exact ⟨',', [], rfl, by decide⟩
  | colon => exact ⟨':', [], rfl, by decide⟩

/-- The texts of tokens that can stand next to each other are cut into them again. -/
theorem lex_text (tokens : List (Token N)) (apart : tokens.IsChain Apart) (fuel : Nat)
    (enough : (tokens.flatMap (Token.text format)).length < fuel) :
    lex format fuel (tokens.flatMap (Token.text format)) = some tokens := by
  induction tokens generalizing fuel with
  | nil =>
    obtain ⟨fuel, rfl⟩ : ∃ less, fuel = less + 1 := ⟨fuel - 1, by omega⟩
    rfl
  | cons token rest ih =>
    rw [List.isChain_cons] at apart
    rw [List.flatMap_cons, List.length_append] at enough
    rw [List.flatMap_cons]
    obtain ⟨fuel, rfl⟩ : ∃ less, fuel = less + 1 := ⟨fuel - 1, by omega⟩
    cases bare : token.bare with
    | true =>
      obtain ⟨nonempty, all, back⟩ := bare_text format bare
      have ends : (rest.flatMap (Token.text format)).takeWhile isBare = [] := by
        cases rest with
        | nil => rfl
        | cons next rest =>
          obtain ⟨c, more, opens, plain⟩ :=
            text_head format (apart.1 next rfl bare)
          rw [List.flatMap_cons, opens, List.cons_append, List.takeWhile_cons_of_neg]
          simp [plain]
      have kept : (rest.flatMap (Token.text format)).dropWhile isBare =
          rest.flatMap (Token.text format) := by
        have split := List.takeWhile_append_dropWhile (p := isBare)
          (l := rest.flatMap (Token.text format))
        rw [ends, List.nil_append] at split
        exact split
      obtain ⟨c, more, opens⟩ := List.exists_cons_of_ne_nil nonempty
      have first : isBare c = true := all c (opens ▸ List.mem_cons_self)
      have later := ih apart.2 fuel (by rw [opens, List.length_cons] at enough; omega)
      have whole : token.text format ++ rest.flatMap (Token.text format) =
          c :: (more ++ rest.flatMap (Token.text format)) := by
        rw [opens, List.cons_append]
      rw [whole, lex_bare first, ← whole, List.takeWhile_append_of_pos all,
        List.dropWhile_append_of_pos all, ends, kept, List.append_nil, back, Option.bind_some,
        later]
      rfl
    | false =>
      have positive : 0 < (token.text format).length := by
        obtain ⟨c, more, opens, -⟩ := text_head format bare
        rw [opens]
        exact Nat.succ_pos _
      have later := ih apart.2 fuel (by omega)
      cases token with
      | null | bool _ | number _ => cases bare
      | string s =>
        have read := JsonString.readBody_write s (rest.flatMap (Token.text format))
        rw [Token.text, JsonString.write, List.cons_append, List.append_assoc,
          List.singleton_append]
        show ((JsonString.readBody .plain _).bind _) = _
        rw [read, Option.bind_some, later]
        rfl
      | _ =>
        show (lex format fuel (rest.flatMap (Token.text format))).map _ = _
        rw [later]
        rfl

/-- A value that is written is read as the one its text denotes. -/
theorem read_write (value : Value N) : read format (value.write format) = some value.canonical := by
  rw [read, Value.write, lex_text value.tokens (tokens_apart value) _ (Nat.lt_succ_self _),
    Option.bind_some, parse_tokens]

namespace Members

theorem mem_names_insert {members : Members N} {name other : List Char} {value : Value N} :
    other ∈ (members.insert name value).names ↔ other = name ∨ other ∈ members.names := by
  match members with
  | .nil => simp [insert, names]
  | .cons held _ rest =>
    have later : other ∈ (rest.insert name value).names ↔ other = name ∨ other ∈ rest.names :=
      mem_names_insert
    rw [insert]
    split
    · rename_i same
      rw [names, names, List.mem_cons, List.mem_cons, same]
      tauto
    · split
      · rw [names, List.mem_cons]
      · rw [names, names, List.mem_cons, List.mem_cons, later]
        tauto

theorem ordered_insert {members : Members N} (ordered : members.Ordered) (name : List Char)
    (value : Value N) : (members.insert name value).Ordered := by
  match members with
  | .nil => exact List.pairwise_singleton _ _
  | .cons held _ rest =>
    obtain ⟨first, later⟩ := List.pairwise_cons.mp ordered
    rw [insert]
    split
    · rename_i same
      rw [same]
      exact ordered
    · rename_i different
      split
      · rename_i before
        apply List.pairwise_cons.mpr
        refine ⟨?_, ordered⟩
        intro other member
        rcases List.mem_cons.mp member with same | more
        · rw [same]
          exact before
        · exact lt_trans before (first other more)
      · rename_i after
        apply List.pairwise_cons.mpr
        refine ⟨?_, ordered_insert later name value⟩
        intro other member
        rcases mem_names_insert.mp member with same | more
        · rw [same]
          exact lt_of_le_of_ne (not_lt.mp after) (fun same => different same.symm)
        · exact first other more

theorem ordered_collect {map members : Members N} (ordered : map.Ordered) :
    (map.collect members).Ordered := by
  match members with
  | .nil => exact ordered
  | .cons name value rest =>
    rw [collect]
    exact ordered_collect (ordered_insert ordered name value)

theorem mem_names_collect {map members : Members N} {other : List Char} :
    other ∈ (map.collect members).names ↔ other ∈ map.names ∨ other ∈ members.names := by
  match members with
  | .nil => simp [collect, names]
  | .cons name value rest =>
    have later : other ∈ ((map.insert name value).collect rest).names ↔
        other ∈ (map.insert name value).names ∨ other ∈ rest.names := mem_names_collect
    rw [collect, later, mem_names_insert, names, List.mem_cons]
    tauto

@[grind =]
def append : Members N → Members N → Members N
  | .nil, others => others
  | .cons name value rest, others => .cons name value (rest.append others)

theorem append_nil (members : Members N) : members.append .nil = members := by
  match members with
  | .nil => rfl
  | .cons name value rest => rw [append, append_nil rest]

theorem append_assoc (front middle rest : Members N) :
    (front.append middle).append rest = front.append (middle.append rest) := by
  match front with
  | .nil => rfl
  | .cons name value more => rw [append, append, append, append_assoc more]

theorem names_append (front rest : Members N) :
    (front.append rest).names = front.names ++ rest.names := by
  match front with
  | .nil => rfl
  | .cons name value more => rw [append, names, names, names_append more, List.cons_append]

/-- A member whose name comes after all others goes to the end. -/
theorem insert_last {members : Members N} {name : List Char} (value : Value N)
    (last : ∀ other ∈ members.names, other < name) :
    members.insert name value = members.append (.cons name value .nil) := by
  match members with
  | .nil => rfl
  | .cons held _ rest =>
    rw [names, List.forall_mem_cons] at last
    rw [insert, if_neg (ne_of_gt last.1), if_neg (not_lt_of_gt last.1),
      insert_last value last.2]
    rfl

/-- A map is collected as it stands. -/
theorem collect_ordered {map members : Members N} (ordered : members.Ordered)
    (after : ∀ name ∈ members.names, ∀ other ∈ map.names, other < name) :
    map.collect members = map.append members := by
  match members with
  | .nil => exact (append_nil map).symm
  | .cons name value rest =>
    obtain ⟨first, later⟩ := List.pairwise_cons.mp ordered
    rw [names, List.forall_mem_cons] at after
    rw [collect, insert_last value after.1, collect_ordered later, append_assoc]
    · rfl
    · intro next member other listed
      rw [names_append, List.mem_append] at listed
      rcases listed with old | new
      · exact after.2 next member other old
      · rw [names, names, List.mem_singleton] at new
        rw [new]
        exact first next member

end Members

end JsonTree
