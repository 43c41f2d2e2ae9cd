import DddCqrsEs.JsonTree

/- JSON texts in which every backslash is doubled: where quotes can stand in a text that is
read, and when such a text still denotes the value it was written from. Nothing here names an
application. -/
namespace JsonTree

open JsonString (escape Mode)

variable {N : Type} {format : NumberFormat N}

/-- Where a text stands between its tokens, or in a string. -/
inductive Place where
  | outside
  | inside
  | escaped
  deriving DecidableEq

namespace Place

/-- What a character does. There are no backslashes outside the strings. -/
def step : Place → Char → Option Place
  | .outside, c => if c = '"' then some .inside else if c = '\\' then none else some .outside
  | .inside, c =>
    if c = '"' then some .outside else if c = '\\' then some .escaped else some .inside
  | .escaped, _ => some .inside

def run (place : Place) (text : List Char) : Option Place := text.foldlM step place

@[simp] theorem run_nil (place : Place) : place.run [] = some place := rfl

@[simp] theorem run_cons (place : Place) (c : Char) (text : List Char) :
    place.run (c :: text) = (place.step c).bind (fun next => next.run text) := rfl

theorem run_append (place : Place) (front rest : List Char) :
    place.run (front ++ rest) = (place.run front).bind (fun next => next.run rest) :=
  List.foldlM_append

/-- Where the reader of a string stands. -/
def ofMode : Mode → Place
  | .plain | .hex _ _ _ | .backslash _ => .inside
  | .escape | .unit _ => .escaped

end Place

theorem next_place {mode after : Mode} {c : Char} {decoded : Option Char}
    (inside : ¬ (mode = .plain ∧ c = '"')) (read : JsonString.next mode c = some (decoded, after)) :
    (Place.ofMode mode).step c = some (Place.ofMode after) := by
  cases mode with
  | plain =>
    have quote : c ≠ '"' := fun same => inside ⟨rfl, same⟩
    rw [JsonString.next] at read
    split at read
    · rename_i backslash
      cases read
      rw [backslash]
      rfl
    · rename_i backslash
      split at read
      · cases read
      · cases read
        simp [Place.ofMode, Place.step, quote, backslash]
  | escape =>
    rw [JsonString.next] at read
    split at read
    · cases read
      rfl
    · obtain ⟨char, -, same⟩ := Option.map_eq_some_iff.mp read
      cases same
      rfl
  | hex left value leading =>
    rw [JsonString.next] at read
    obtain ⟨digit, found, same⟩ := Option.bind_eq_some_iff.mp read
    have quote : c ≠ '"' := by
      intro is
      rw [is] at found
      cases found
    have backslash : c ≠ '\\' := by
      intro is
      rw [is] at found
      cases found
    have stays : (Place.ofMode (.hex left value leading)).step c = some .inside := by
      simp [Place.ofMode, Place.step, quote, backslash]
    rw [stays]
    split at same
    · cases leading with
      | none =>
        rw [JsonString.readUnit] at same
        split at same
        · cases same
        · split at same <;> cases same <;> rfl
      | some high =>
        rw [JsonString.readUnit] at same
        split at same
        · cases same
          rfl
        · cases same
    · cases same
      rfl
  | backslash leading =>
    rw [JsonString.next] at read
    split at read
    · rename_i backslash
      cases read
      rw [backslash]
      rfl
    · cases read
  | unit leading =>
    rw [JsonString.next] at read
    split at read
    · cases read
      rfl
    · cases read

variable {text s : List Char} {tokens : List (Token N)} {value : Value N}

/-- A string that is read ends at its closing quote. -/
theorem readBody_place {mode : Mode} {after : List Char}
    (read : JsonString.readBody mode text = some (s, after)) :
    ∃ body, text = body ++ after ∧ (Place.ofMode mode).run body = some .outside := by
  induction text generalizing mode s with
  | nil => cases read
  | cons c rest ih =>
    rw [JsonString.readBody] at read
    split at read
    · rename_i closing
      cases read
      rw [closing.1, closing.2]
      exact ⟨['"'], rfl, rfl⟩
    · rename_i inside
      split at read
      · cases read
      · rename_i decoded next stepped
        obtain ⟨later, inner, same⟩ := Option.map_eq_some_iff.mp read
        cases same
        obtain ⟨body, split, ran⟩ := ih inner
        refine ⟨c :: body, by rw [split, List.cons_append], ?_⟩
        rw [Place.run_cons, next_place inside stepped, Option.bind_some, ran]

/-- Neither quotes nor backslashes: such a text stays where it is. -/
theorem Place.run_plain {place : Place} (unescaped : place ≠ .escaped)
    (plain : ∀ c ∈ text, c ≠ '"' ∧ c ≠ '\\') : place.run text = some place := by
  induction text with
  | nil => rfl
  | cons c rest ih =>
    rw [List.forall_mem_cons] at plain
    have stays : place.step c = some place := by
      cases place <;> simp [Place.step, plain.1] at unescaped ⊢
    rw [Place.run_cons, stays, Option.bind_some, ih plain.2]

/-- Where the text of the tokens ends, every string is closed. -/
theorem lex_place {fuel : Nat} (cut : lex format fuel text = some tokens) :
    Place.outside.run text = some .outside := by
  induction fuel generalizing text tokens with
  | zero => cases cut
  | succ fuel ih =>
    cases text with
    | nil => rfl
    | cons c rest =>
      by_cases quote : c = '"'
      · subst quote
        have body : ((JsonString.readBody .plain rest).bind fun read =>
            (lex format fuel read.2).map (Token.string read.1 :: ·)) = some tokens := cut
        obtain ⟨⟨s, after⟩, read, later⟩ := Option.bind_eq_some_iff.mp body
        obtain ⟨others, inner, -⟩ := Option.map_eq_some_iff.mp later
        obtain ⟨string, split, closes⟩ := readBody_place read
        have opens : Place.outside.step '"' = some .inside := rfl
        rw [Place.run_cons, opens, Option.bind_some, split, Place.run_append]
        rw [Place.ofMode] at closes
        rw [closes, Option.bind_some, ih inner]
      · have single : ∀ tokens, lex format fuel rest = some tokens → c ≠ '\\' →
            Place.outside.run (c :: rest) = some .outside := by
          intro tokens later backslash
          have stays : Place.outside.step c = some .outside := by
            simp [Place.step, quote, backslash]
          rw [Place.run_cons, stays, Option.bind_some, ih later]
        have mark : ∀ token, (lex format fuel rest).map (token :: ·) = some tokens →
            c ≠ '\\' → Place.outside.run (c :: rest) = some .outside := by
          intro token later
          obtain ⟨others, inner, -⟩ := Option.map_eq_some_iff.mp later
          exact single others inner
        have differs : ∀ other : Char, c = other → other ≠ '\\' → c ≠ '\\' :=
          fun other same different => same ▸ different
        rw [lex] at cut
        split at cut
        · rename_i white
          exact single tokens cut (by
            intro same
            rw [same] at white
            cases white)
        split at cut
        · exact mark _ cut (differs '[' ‹_› (by decide))
        split at cut
        · exact mark _ cut (differs ']' ‹_› (by decide))
        split at cut
        · exact mark _ cut (differs '\x7b' ‹_› (by decide))
        split at cut
        · exact mark _ cut (differs '\x7d' ‹_› (by decide))
        split at cut
        · exact mark _ cut (differs ',' ‹_› (by decide))
        split at cut
        · exact mark _ cut (differs ':' ‹_› (by decide))
        split at cut
        · obtain ⟨token, -, later⟩ := Option.bind_eq_some_iff.mp cut
          obtain ⟨others, inner, -⟩ := Option.map_eq_some_iff.mp later
          have plain : ∀ d ∈ (c :: rest).takeWhile isBare, d ≠ '"' ∧ d ≠ '\\' := by
            intro d member
            have bare := (isBare_iff d).mp (List.all_eq_true.mp List.all_takeWhile d member)
            exact ⟨bare.2.2.2.2.2.2.2.1, bare.2.2.2.2.2.2.2.2⟩
          rw [← List.takeWhile_append_dropWhile (p := isBare) (l := c :: rest),
            Place.run_append, Place.run_plain (by decide) plain, Option.bind_some, ih inner]
        · cases cut

/-- A text that is read closes every string. -/
theorem read_place (found : read format text = some value) :
    Place.outside.run text = some .outside := by
  obtain ⟨tokens, cut, -⟩ := Option.bind_eq_some_iff.mp found
  exact lex_place cut

def doubled (text : List Char) : List Char :=
  text.flatMap (fun c => if c = '\\' then ['\\', '\\'] else [c])

@[simp] theorem doubled_nil : doubled [] = [] := rfl

theorem doubled_cons (c : Char) (text : List Char) :
    doubled (c :: text) = (if c = '\\' then ['\\', '\\'] else [c]) ++ doubled text := rfl

theorem doubled_append (front rest : List Char) :
    doubled (front ++ rest) = doubled front ++ doubled rest := List.flatMap_append

theorem length_doubled (text : List Char) : text.length ≤ (doubled text).length := by
  induction text with
  | nil => exact Nat.le_refl _
  | cons c text ih =>
    rw [doubled_cons]
    split <;> simp <;> omega

/-- Doubling leaves a text as it is exactly where there is nothing to double. -/
theorem doubled_eq_self_iff (text : List Char) : doubled text = text ↔ '\\' ∉ text := by
  induction text with
  | nil => simp
  | cons c text ih =>
    rw [doubled_cons, List.mem_cons]
    split
    · rename_i backslash
      rw [backslash]
      constructor
      · intro same
        have lengths := congrArg List.length same
        have longer := length_doubled text
        simp only [List.length_append, List.length_cons, List.length_nil] at lengths
        omega
      · exact fun none => absurd (Or.inl rfl) none
    · rename_i backslash
      rw [List.singleton_append, List.cons.injEq, ih]
      simp [Ne.symm backslash]

/-- An escaped character: itself, or a backslash and no other quote or backslash than it. -/
theorem escape_cases (c : Char) :
    (escape c = [c] ∧ c ≠ '"' ∧ c ≠ '\\') ∨
      (c = '"' ∧ escape c = ['\\', '"']) ∨ (c = '\\' ∧ escape c = ['\\', '\\']) ∨
      ∃ rest, escape c = '\\' :: rest ∧ rest ≠ [] ∧
        ∀ d ∈ rest, (d ≠ '"' ∧ d ≠ '\\') ∧ escape d = [d] := by
  have digits : ∀ d < 16, (JsonString.hexDigit d ≠ '"' ∧ JsonString.hexDigit d ≠ '\\') ∧
      escape (JsonString.hexDigit d) = [JsonString.hexDigit d] := by decide
  rw [escape]
  split
  · rename_i quote
    exact Or.inr (Or.inl ⟨quote, rfl⟩)
  · split
    · rename_i backslash
      exact Or.inr (Or.inr (Or.inl ⟨backslash, rfl⟩))
    · have short : ∀ letter : Char, (letter ≠ '"' ∧ letter ≠ '\\') ∧ escape letter = [letter] →
          ∃ rest, ['\\', letter] = '\\' :: rest ∧ rest ≠ [] ∧
            ∀ d ∈ rest, (d ≠ '"' ∧ d ≠ '\\') ∧ escape d = [d] := by
        intro letter plain
        exact ⟨[letter], rfl, List.cons_ne_nil _ _, List.forall_mem_singleton.mpr plain⟩
      split
      · exact Or.inr (Or.inr (Or.inr (short 'b' (by decide))))
      · split
        · exact Or.inr (Or.inr (Or.inr (short 't' (by decide))))
        · split
          · exact Or.inr (Or.inr (Or.inr (short 'n' (by decide))))
          · split
            · exact Or.inr (Or.inr (Or.inr (short 'f' (by decide))))
            · split
              · exact Or.inr (Or.inr (Or.inr (short 'r' (by decide))))
              · split
                · rename_i control
                  have high := digits (c.toNat / 16) (by omega)
                  have low := digits (c.toNat % 16) (by omega)
                  refine Or.inr (Or.inr (Or.inr ⟨_, rfl, List.cons_ne_nil _ _, ?_⟩))
                  intro d member
                  simp only [List.mem_cons, List.not_mem_nil, or_false] at member
                  rcases member with rfl | rfl | rfl | rfl | rfl
                  · decide
                  · decide
                  · decide
                  · exact high
                  · exact low
                · exact Or.inl ⟨rfl, by assumption, by assumption⟩

theorem doubled_plain (plain : ∀ c ∈ text, c ≠ '"' ∧ c ≠ '\\') : doubled text = text :=
  (doubled_eq_self_iff text).mpr (fun member => (plain _ member).2 rfl)

/-- Outside a string no escape survives: its backslashes stand between the tokens. -/
theorem run_outside_escaped (s : List Char) :
    Place.outside.run (doubled (s.flatMap escape)) = none ∨
      Place.outside.run (doubled (s.flatMap escape)) = some .outside := by
  induction s with
  | nil => exact Or.inr rfl
  | cons c s ih =>
    have lost : ∀ rest, escape c = '\\' :: rest →
        Place.outside.run (doubled ((c :: s).flatMap escape)) = none := by
      intro rest escaped
      rw [List.flatMap_cons, escaped, List.cons_append, doubled_cons]
      rfl
    rcases escape_cases c with ⟨plain, quote, backslash⟩ | ⟨-, escaped⟩ | ⟨-, escaped⟩ |
      ⟨rest, escaped, -, -⟩
    · have stays : Place.outside.step c = some .outside := by
        simp [Place.step, quote, backslash]
      rw [List.flatMap_cons, plain, List.singleton_append, doubled_cons, if_neg backslash,
        List.singleton_append, Place.run_cons, stays]
      exact ih
    · exact Or.inl (lost _ escaped)
    · exact Or.inl (lost _ escaped)
    · exact Or.inl (lost _ escaped)

/-- Inside a string a doubled quote closes it, and nothing else does. -/
theorem run_inside_escaped (s : List Char) :
    ('"' ∉ s → Place.inside.run (doubled (s.flatMap escape)) = some .inside) ∧
      ('"' ∈ s → Place.inside.run (doubled (s.flatMap escape)) = none ∨
        Place.inside.run (doubled (s.flatMap escape)) = some .outside) := by
  induction s with
  | nil => exact ⟨fun _ => rfl, fun member => absurd member List.not_mem_nil⟩
  | cons c s ih =>
    have goesOn : c ≠ '"' → Place.inside.run (doubled (escape c)) = some .inside := by
      intro quote
      rcases escape_cases c with ⟨plain, -, backslash⟩ | ⟨is, -⟩ | ⟨-, escaped⟩ |
        ⟨rest, escaped, -, others⟩
      · rw [plain, doubled_plain (by simp [quote, backslash])]
        exact Place.run_plain (by decide) (by simp [quote, backslash])
      · exact absurd is quote
      · rw [escaped]
        rfl
      · have plain : ∀ d ∈ rest, d ≠ '"' ∧ d ≠ '\\' := fun d member => (others d member).1
        rw [escaped, doubled_cons, if_pos rfl, doubled_plain plain, Place.run_append]
        exact Place.run_plain (by decide) plain
    rw [List.flatMap_cons, doubled_append, Place.run_append, List.mem_cons]
    by_cases quote : c = '"'
    · have closes : Place.inside.run (doubled (escape c)) = some .outside := by
        rw [quote]
        rfl
      rw [closes]
      exact ⟨fun none => absurd (Or.inl quote.symm) none, fun _ => run_outside_escaped s⟩
    · rw [goesOn quote, Option.bind_some]
      constructor
      · exact fun none => ih.1 (fun member => none (Or.inr member))
      · rintro (is | member)
        · exact absurd is.symm quote
        · exact ih.2 member

variable (format) in
theorem text_plain {token : Token N} (notString : ∀ s, token ≠ .string s) :
    ∀ c ∈ token.text format, c ≠ '"' ∧ c ≠ '\\' := by
  cases token with
  | string s => exact absurd rfl (notString s)
  | null | bool _ | number _ =>
    intro c member
    have bare := (isBare_iff c).mp ((bare_text format rfl).2.1 c member)
    exact ⟨bare.2.2.2.2.2.2.2.1, bare.2.2.2.2.2.2.2.2⟩
  | _ =>
    rw [Token.text]
    decide

variable (format) in
/-- A string with a quote leaves the rest of a doubled text in the wrong place, and nothing
after it makes up for that. -/
theorem run_doubled_inside (tokens : List (Token N)) :
    Place.inside.run (doubled (tokens.flatMap (Token.text format))) = none ∨
      Place.inside.run (doubled (tokens.flatMap (Token.text format))) = some .inside := by
  induction tokens with
  | nil => exact Or.inr rfl
  | cons token rest ih =>
    rw [List.flatMap_cons, doubled_append, Place.run_append]
    by_cases string : ∃ s, token = .string s
    · obtain ⟨s, is⟩ := string
      have text : doubled (token.text format) =
          '"' :: (doubled (s.flatMap escape) ++ ['"']) := by
        rw [is, Token.text, JsonString.write, doubled_cons, if_neg (by decide), doubled_append]
        rfl
      have opens : Place.inside.step '"' = some .outside := rfl
      rw [text, Place.run_cons, opens, Option.bind_some, Place.run_append]
      rcases run_outside_escaped s with lost | through
      · rw [lost]
        exact Or.inl rfl
      · rw [through]
        exact ih
    · have plain := text_plain format (fun s is => string ⟨s, is⟩)
      rw [doubled_plain plain, Place.run_plain (by decide) plain]
      exact ih

theorem no_quotes_of_run
    (closed : Place.outside.run (doubled (tokens.flatMap (Token.text format))) = some .outside) :
    ∀ s, Token.string s ∈ tokens → '"' ∉ s := by
  induction tokens with
  | nil => exact fun s member => absurd member List.not_mem_nil
  | cons token rest ih =>
    rw [List.flatMap_cons, doubled_append, Place.run_append] at closed
    by_cases string : ∃ s, token = .string s
    · obtain ⟨s, is⟩ := string
      have text : doubled (token.text format) =
          '"' :: (doubled (s.flatMap escape) ++ ['"']) := by
        rw [is, Token.text, JsonString.write, doubled_cons, if_neg (by decide), doubled_append]
        rfl
      have opens : Place.outside.step '"' = some .inside := rfl
      rw [text, Place.run_cons, opens, Option.bind_some, Place.run_append] at closed
      have quoteless : '"' ∉ s := by
        intro quote
        rcases (run_inside_escaped s).2 quote with lost | outside
        · rw [lost] at closed
          cases closed
        · rw [outside] at closed
          have wrong : Place.inside.run (doubled (rest.flatMap (Token.text format))) =
            some .outside := closed
          rcases run_doubled_inside format rest with lost | inside
          · rw [lost] at wrong
            cases wrong
          · rw [inside] at wrong
            cases wrong
      rw [(run_inside_escaped s).1 quoteless] at closed
      intro other member
      rcases List.mem_cons.mp member with same | later
      · rw [is] at same
        cases same
        exact quoteless
      · exact ih closed other later
    · have plain := text_plain format (fun s is => string ⟨s, is⟩)
      rw [doubled_plain plain, Place.run_plain (by decide) plain] at closed
      intro other member
      rcases List.mem_cons.mp member with same | later
      · exact absurd ⟨other, same.symm⟩ string
      · exact ih closed other later

mutual

/-- The value with another text for each string, names included. -/
@[grind =]
def Value.mapStrings (change : List Char → List Char) : Value N → Value N
  | .string s => .string (change s)
  | .array items => .array (items.mapStrings change)
  | .object members => .object (members.mapStrings change)
  | value => value

@[grind =]
def Items.mapStrings (change : List Char → List Char) : Items N → Items N
  | .nil => .nil
  | .cons item rest => .cons (item.mapStrings change) (rest.mapStrings change)

@[grind =]
def Members.mapStrings (change : List Char → List Char) : Members N → Members N
  | .nil => .nil
  | .cons name value rest =>
    .cons (change name) (value.mapStrings change) (rest.mapStrings change)

end

def Token.mapString (change : List Char → List Char) : Token N → Token N
  | .string s => .string (change s)
  | token => token

section Tokens

variable (change : List Char → List Char)

mutual

theorem tokens_mapStrings (value : Value N) :
    (value.mapStrings change).tokens = value.tokens.map (Token.mapString change) := by
  match value with
  | .null | .bool _ | .number _ | .string _ => rfl
  | .array .nil | .object .nil => rfl
  | .array (.cons item rest) =>
    have first := tokens_mapStrings item
    have others := itemsTokens_mapStrings rest
    rw [Value.mapStrings, Items.mapStrings, Value.tokens, Value.tokens, first, others,
      List.map_cons, List.map_append]
    rfl
  | .object (.cons name value rest) =>
    have first := tokens_mapStrings value
    have others := membersTokens_mapStrings rest
    rw [Value.mapStrings, Members.mapStrings, Value.tokens, Value.tokens, first, others,
      List.map_cons, List.map_cons, List.map_cons, List.map_append]
    rfl

theorem itemsTokens_mapStrings (items : Items N) :
    (items.mapStrings change).tokens = items.tokens.map (Token.mapString change) := by
  match items with
  | .nil => rfl
  | .cons item rest =>
    have first := tokens_mapStrings item
    have others := itemsTokens_mapStrings rest
    rw [Items.mapStrings, Items.tokens, Items.tokens, first, others, List.map_cons,
      List.map_append]
    rfl

theorem membersTokens_mapStrings (members : Members N) :
    (members.mapStrings change).tokens = members.tokens.map (Token.mapString change) := by
  match members with
  | .nil => rfl
  | .cons name value rest =>
    have first := tokens_mapStrings value
    have others := membersTokens_mapStrings rest
    rw [Members.mapStrings, Members.tokens, Members.tokens, first, others, List.map_cons,
      List.map_cons, List.map_cons, List.map_append]
    rfl

end

end Tokens

/-- The text inside a string's quotes. -/
def escaped (s : List Char) : List Char := s.flatMap escape

/-- Where only backslashes have to be escaped, escaping is doubling them. -/
theorem escaped_eq_doubled (printable : ∀ d ∈ text, d ≠ '\\' → escape d = [d]) :
    escaped text = doubled text := by
  induction text with
  | nil => rfl
  | cons c text ih =>
    rw [List.forall_mem_cons] at printable
    rw [escaped, List.flatMap_cons, doubled_cons]
    have one : escape c = if c = '\\' then ['\\', '\\'] else [c] := by
      split
      · rename_i backslash
        rw [backslash]
        rfl
      · exact printable.1 ‹_›
    rw [one]
    exact congrArg _ (ih printable.2)

theorem escaped_escaped (quoteless : '"' ∉ s) : escaped (escaped s) = doubled (escaped s) := by
  apply escaped_eq_doubled
  intro d member backslash
  obtain ⟨c, source, part⟩ := List.mem_flatMap.mp member
  rcases escape_cases c with ⟨plain, -, -⟩ | ⟨quote, -⟩ | ⟨-, twice⟩ | ⟨rest, opens, -, others⟩
  · rw [plain, List.mem_singleton] at part
    rw [part, plain]
  · exact absurd (quote ▸ source) quoteless
  · simp [twice] at part
    exact absurd part backslash
  · rw [opens, List.mem_cons] at part
    rcases part with first | later
    · exact absurd first backslash
    · exact (others d later).2

/-- Without quotes the doubled text is the one of the value whose strings are escaped twice. -/
theorem doubled_write (quoteless : ∀ s, Token.string s ∈ value.tokens → '"' ∉ s) :
    doubled (value.write format) = (value.mapStrings escaped).write format := by
  rw [Value.write, Value.write, tokens_mapStrings]
  generalize value.tokens = tokens at quoteless
  induction tokens with
  | nil => rfl
  | cons token rest ih =>
    have later := ih (fun s member => quoteless s (List.mem_cons_of_mem _ member))
    rw [List.flatMap_cons, doubled_append, later, List.map_cons, List.flatMap_cons]
    congr 1
    by_cases string : ∃ s, token = .string s
    · obtain ⟨s, is⟩ := string
      have twice := escaped_escaped (quoteless s (is ▸ List.mem_cons_self))
      rw [is, Token.text, Token.mapString, Token.text, JsonString.write, JsonString.write,
        doubled_cons, if_neg (by decide), doubled_append]
      show '"' :: (doubled (escaped s) ++ doubled ['"']) = '"' :: (escaped (escaped s) ++ ['"'])
      rw [twice]
      rfl
    · have plain := text_plain format (fun s is => string ⟨s, is⟩)
      have same : token.mapString escaped = token := by
        cases token with
        | string s => exact absurd ⟨s, rfl⟩ string
        | _ => rfl
      rw [doubled_plain plain, same]

theorem length_escaped (s : List Char) : s.length ≤ (escaped s).length := by
  induction s with
  | nil => exact Nat.le_refl _
  | cons c s ih =>
    have one : 1 ≤ (escape c).length := by
      rcases escape_cases c with ⟨plain, -, -⟩ | ⟨-, short⟩ | ⟨-, short⟩ | ⟨rest, opens, -, -⟩
      · rw [plain, List.length_singleton]
      · simp [short]
      · simp [short]
      · simp [opens]
    rw [escaped] at ih
    rw [escaped, List.flatMap_cons, List.length_append, List.length_cons]
    omega

/-- Escaping changes a string exactly where it makes it longer, and then it would change it
again. -/
theorem escaped_cases (s : List Char) :
    escaped s = s ∨ s.length < (escaped s).length ∧ escaped (escaped s) ≠ escaped s := by
  induction s with
  | nil => exact Or.inl rfl
  | cons c s ih =>
    have longer := length_escaped s
    have split : escaped (c :: s) = escape c ++ escaped s := List.flatMap_cons
    have backslash : ∀ rest, rest ≠ [] → escape c = '\\' :: rest →
        (c :: s).length < (escaped (c :: s)).length ∧
          escaped (escaped (c :: s)) ≠ escaped (c :: s) := by
      intro rest nonempty opens
      have some := List.length_pos_iff.mpr nonempty
      rw [split, opens, List.cons_append]
      constructor
      · rw [List.length_cons, List.length_cons, List.length_append]
        omega
      · intro same
        have lengths := congrArg List.length same
        have again := length_escaped (rest ++ escaped s)
        have twice : escaped ('\\' :: (rest ++ escaped s)) =
            '\\' :: '\\' :: escaped (rest ++ escaped s) := rfl
        rw [twice, List.length_cons, List.length_cons, List.length_cons] at lengths
        omega
    rcases escape_cases c with ⟨plain, -, -⟩ | ⟨-, short⟩ | ⟨-, short⟩ |
      ⟨rest, opens, nonempty, -⟩
    · rw [split, plain, List.singleton_append]
      have next : escaped (c :: escaped s) = c :: escaped (escaped s) := by
        rw [escaped, List.flatMap_cons, plain]
        rfl
      rcases ih with same | ⟨more, again⟩
      · exact Or.inl (by rw [same])
      · rw [next]
        refine Or.inr ⟨Nat.succ_lt_succ more, ?_⟩
        intro same
        exact again (List.cons.inj same).2
    · exact Or.inr (backslash _ (List.cons_ne_nil _ _) short)
    · exact Or.inr (backslash _ (List.cons_ne_nil _ _) short)
    · exact Or.inr (backslash rest nonempty opens)

/-- Names that escaping leads to other names of the same map are plain: it would lead to ever
longer ones. -/
theorem escaped_closed {names : List (List Char)}
    (closed : ∀ name ∈ names, escaped name ∈ names) : ∀ name ∈ names, escaped name = name := by
  intro name member
  by_contra changed
  have longer : ∀ length, ∃ other ∈ names, escaped other ≠ other ∧ length ≤ other.length := by
    intro length
    induction length with
    | zero => exact ⟨name, member, changed, Nat.zero_le _⟩
    | succ length ih =>
      obtain ⟨other, listed, differs, long⟩ := ih
      rcases escaped_cases other with same | ⟨more, again⟩
      · exact absurd same differs
      · exact ⟨escaped other, closed other listed, again, by omega⟩
  obtain ⟨other, listed, -, long⟩ := longer (names.flatten.length + 1)
  have bound := (List.infix_of_mem_flatten listed).length_le
  omega

mutual

/-- The strings of a value, names included. -/
@[grind =]
def Value.strings : Value N → List (List Char)
  | .string s => [s]
  | .array items => items.strings
  | .object members => members.strings
  | _ => []

@[grind =]
def Items.strings : Items N → List (List Char)
  | .nil => []
  | .cons item rest => item.strings ++ rest.strings

@[grind =]
def Members.strings : Members N → List (List Char)
  | .nil => []
  | .cons name value rest => name :: (value.strings ++ rest.strings)

end

theorem canonical_names (members : Members N) : members.canonical.names = members.names := by
  match members with
  | .nil => rfl
  | .cons name value rest => rw [Members.canonical, Members.names, Members.names, canonical_names rest]

theorem mapStrings_names (change : List Char → List Char) (members : Members N) :
    (members.mapStrings change).names = members.names.map change := by
  match members with
  | .nil => rfl
  | .cons name value rest =>
    rw [Members.mapStrings, Members.names, Members.names, mapStrings_names change rest,
      List.map_cons]

mutual

/-- A value that escaping its strings leaves as it is has nothing to escape. -/
theorem plain_of_canonical (value : Value N)
    (same : (value.mapStrings escaped).canonical = value) :
    ∀ s ∈ value.strings, escaped s = s := by
  match value with
  | .null | .bool _ | .number _ => exact fun s member => absurd member List.not_mem_nil
  | .string s =>
    have plain : Value.string (escaped s) = .string s := same
    exact List.forall_mem_singleton.mpr (Value.string.inj plain)
  | .array items =>
    rw [Value.mapStrings, Value.canonical, Value.array.injEq] at same
    exact itemsPlain_of_canonical items same
  | .object members =>
    rw [Value.mapStrings, Value.canonical, Value.object.injEq] at same
    have names : (members.mapStrings escaped).canonical.names = members.names.map escaped := by
      rw [canonical_names, mapStrings_names]
    have closed : ∀ name ∈ members.names, escaped name ∈ members.names := by
      intro name member
      rw [← same, Members.mem_names_collect, names]
      exact Or.inr (List.mem_map_of_mem member)
    have fixed : members.names.map escaped = members.names := by
      rw [List.map_congr_left (g := id) (escaped_closed closed), List.map_id]
    have ordered : (members.mapStrings escaped).canonical.Ordered := by
      have map : members.Ordered := by
        rw [← same]
        exact Members.ordered_collect List.Pairwise.nil
      rw [Members.Ordered, names, fixed]
      exact map
    rw [Members.collect_ordered ordered
      (fun _ _ _ member => absurd member List.not_mem_nil)] at same
    exact membersPlain_of_canonical members same

theorem itemsPlain_of_canonical (items : Items N)
    (same : (items.mapStrings escaped).canonical = items) :
    ∀ s ∈ items.strings, escaped s = s := by
  match items with
  | .nil => exact fun s member => absurd member List.not_mem_nil
  | .cons item rest =>
    rw [Items.mapStrings, Items.canonical, Items.cons.injEq] at same
    rw [Items.strings, List.forall_mem_append]
    exact ⟨plain_of_canonical item same.1, itemsPlain_of_canonical rest same.2⟩

theorem membersPlain_of_canonical (members : Members N)
    (same : (members.mapStrings escaped).canonical = members) :
    ∀ s ∈ members.strings, escaped s = s := by
  match members with
  | .nil => exact fun s member => absurd member List.not_mem_nil
  | .cons name value rest =>
    rw [Members.mapStrings, Members.canonical, Members.cons.injEq] at same
    rw [Members.strings, List.forall_mem_cons, List.forall_mem_append]
    exact ⟨same.1, plain_of_canonical value same.2.1, membersPlain_of_canonical rest same.2.2⟩

end

mutual

theorem string_mem_tokens {value : Value N} {s : List Char} :
    Token.string s ∈ value.tokens ↔ s ∈ value.strings := by
  match value with
  | .null | .bool _ | .number _ | .string _ => simp [Value.tokens, Value.strings]
  | .array .nil | .object .nil =>
    simp [Value.tokens, Value.strings, Items.strings, Members.strings]
  | .array (.cons item rest) =>
    have first : Token.string s ∈ item.tokens ↔ s ∈ item.strings := string_mem_tokens
    have others : Token.string s ∈ rest.tokens ↔ s ∈ rest.strings := string_mem_itemsTokens
    simp [Value.tokens, Value.strings, Items.strings, first, others]
  | .object (.cons name value rest) =>
    have first : Token.string s ∈ value.tokens ↔ s ∈ value.strings := string_mem_tokens
    have others : Token.string s ∈ rest.tokens ↔ s ∈ rest.strings := string_mem_membersTokens
    simp [Value.tokens, Value.strings, Members.strings, first, others]

theorem string_mem_itemsTokens {items : Items N} {s : List Char} :
    Token.string s ∈ items.tokens ↔ s ∈ items.strings := by
  match items with
  | .nil => simp [Items.tokens, Items.strings]
  | .cons item rest =>
    have first : Token.string s ∈ item.tokens ↔ s ∈ item.strings := string_mem_tokens
    have others : Token.string s ∈ rest.tokens ↔ s ∈ rest.strings := string_mem_itemsTokens
    simp [Items.tokens, Items.strings, first, others]

theorem string_mem_membersTokens {members : Members N} {s : List Char} :
    Token.string s ∈ members.tokens ↔ s ∈ members.strings := by
  match members with
  | .nil => simp [Members.tokens, Members.strings]
  | .cons name value rest =>
    have first : Token.string s ∈ value.tokens ↔ s ∈ value.strings := string_mem_tokens
    have others : Token.string s ∈ rest.tokens ↔ s ∈ rest.strings := string_mem_membersTokens
    simp [Members.tokens, Members.strings, first, others]

end

section Unchanged

variable {change : List Char → List Char}

mutual

theorem mapStrings_eq_self (value : Value N) (same : ∀ s ∈ value.strings, change s = s) :
    value.mapStrings change = value := by
  match value with
  | .null | .bool _ | .number _ => rfl
  | .string s =>
    rw [Value.mapStrings, same s (List.mem_singleton_self s)]
  | .array items =>
    rw [Value.mapStrings, items_mapStrings_eq_self items same]
  | .object members =>
    rw [Value.mapStrings, members_mapStrings_eq_self members same]

theorem items_mapStrings_eq_self (items : Items N) (same : ∀ s ∈ items.strings, change s = s) :
    items.mapStrings change = items := by
  match items with
  | .nil => rfl
  | .cons item rest =>
    rw [Items.strings, List.forall_mem_append] at same
    rw [Items.mapStrings, mapStrings_eq_self item same.1, items_mapStrings_eq_self rest same.2]

theorem members_mapStrings_eq_self (members : Members N)
    (same : ∀ s ∈ members.strings, change s = s) : members.mapStrings change = members := by
  match members with
  | .nil => rfl
  | .cons name value rest =>
    rw [Members.strings, List.forall_mem_cons, List.forall_mem_append] at same
    rw [Members.mapStrings, same.1, mapStrings_eq_self value same.2.1,
      members_mapStrings_eq_self rest same.2.2]

end

end Unchanged

theorem escaped_eq_self_iff (s : List Char) : escaped s = s ↔ ∀ c ∈ s, escape c = [c] := by
  induction s with
  | nil => simp [escaped]
  | cons c s ih =>
    have split : escaped (c :: s) = escape c ++ escaped s := List.flatMap_cons
    rw [split, List.forall_mem_cons, ← ih]
    constructor
    · intro same
      rcases escape_cases c with ⟨plain, -, -⟩ | ⟨-, short⟩ | ⟨-, short⟩ |
        ⟨rest, opens, nonempty, -⟩
      · rw [plain] at same
        exact ⟨plain, (List.cons.inj same).2⟩
      · have lengths := congrArg List.length same
        have longer := length_escaped s
        simp only [short, List.length_append, List.length_cons, List.length_nil] at lengths
        omega
      · have lengths := congrArg List.length same
        have longer := length_escaped s
        simp only [short, List.length_append, List.length_cons, List.length_nil] at lengths
        omega
      · have lengths := congrArg List.length same
        have longer := length_escaped s
        have some := List.length_pos_iff.mpr nonempty
        simp only [opens, List.length_append, List.length_cons] at lengths
        omega
    · intro plain
      rw [plain.1, plain.2]
      rfl

/-- A map's value, as a text denotes it, is read back from its text with doubled backslashes
exactly where no string of it has anything to escape. -/
theorem read_doubled_iff (map : value.canonical = value) :
    read format (doubled (value.write format)) = some value ↔
      ∀ s ∈ value.strings, ∀ c ∈ s, escape c = [c] := by
  simp only [← escaped_eq_self_iff]
  constructor
  · intro found
    have quoteless : ∀ s, Token.string s ∈ value.tokens → '"' ∉ s :=
      no_quotes_of_run (read_place found)
    rw [doubled_write quoteless, read_write, Option.some.injEq] at found
    exact plain_of_canonical value found
  · intro plain
    have quoteless : ∀ s, Token.string s ∈ value.tokens → '"' ∉ s := by
      intro s member quote
      have kept := (escaped_eq_self_iff s).mp (plain s (string_mem_tokens.mp member)) '"' quote
      exact absurd kept (by decide)
    rw [doubled_write quoteless, mapStrings_eq_self value plain, read_write, map]

end JsonTree
