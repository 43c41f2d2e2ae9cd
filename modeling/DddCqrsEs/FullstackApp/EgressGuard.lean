import DddCqrsEs.Ascii
import DddCqrsEs.FullstackApp.Egress

/- Which spellings of private addresses the guard refuses. -/
namespace DddCqrsEs.FullstackApp

open Cuts InternetAddress

def partLetters : Text := "0123456789abcdefABCDEFxX".toList

def addressLetters : Text := '.' :: ':' :: partLetters

variable {radix number : Nat} {text host : Text} {α β : Type} {f : α → Option β} {results : List β}
  {values : List Nat}

theorem mem_partLetters {c : Char} (digit : Radix.isDigit radix c = true) : c ∈ partLetters := by
  have codes : ∀ number ∈ List.range' 48 10 ++ List.range' 97 6 ++ List.range' 65 6,
      Char.ofNat number ∈ partLetters := by decide
  have bounds : (48 ≤ c.toNat ∧ c.toNat ≤ 57) ∨ (97 ≤ c.toNat ∧ c.toNat ≤ 102) ∨
      (65 ≤ c.toNat ∧ c.toNat ≤ 70) := by
    rw [Radix.isDigit, JsonString.hexValue] at digit
    split_ifs at digit with decimal lower upper
    · exact Or.inl decimal
    · exact Or.inr (Or.inl lower)
    · exact Or.inr (Or.inr upper)
    · cases digit
  have member := codes c.toNat (by simp only [List.mem_append, List.mem_range'_1]; omega)
  rwa [Char.ofNat_toNat] at member

theorem digits_letters (read : Radix.number radix text = some number) :
    ∀ c ∈ text, c ∈ partLetters :=
  fun c member => mem_partLetters (Radix.digits_of_number read c member)

theorem partNumber_letters {part : Text} (read : partNumber part = some number) :
    ∀ c ∈ part, c ∈ partLetters := by
  rw [partNumber.eq_def] at read
  split at read
  · have all := digits_letters read
    intro c member
    simp only [List.mem_cons] at member
    rcases member with rfl | rfl | later
    · decide
    · decide
    · exact all c later
  · have all := digits_letters read
    intro c member
    simp only [List.mem_cons] at member
    rcases member with rfl | rfl | later
    · decide
    · decide
    · exact all c later
  · decide
  · have all := digits_letters read
    intro c member
    rcases List.mem_cons.mp member with rfl | later
    · decide
    · exact all c later
  · exact digits_letters read

theorem mapM_some {items : List α} (mapped : items.mapM f = some results) :
    ∀ item ∈ items, ∃ result, f item = some result := by
  induction items generalizing results with
  | nil => simp
  | cons item items ih =>
    rw [List.mapM_cons] at mapped
    obtain ⟨first, found, later⟩ := Option.bind_eq_some_iff.mp mapped
    obtain ⟨rest, others, _⟩ := Option.bind_eq_some_iff.mp later
    intro other member
    rcases List.mem_cons.mp member with rfl | inside
    · exact ⟨first, found⟩
    · exact ih others other inside

/-- The parts of a text between dots are written with the letters of parts. -/
theorem parts_letters {read : Text → Option Nat} {numbers : List Nat}
    (letters : ∀ {part number}, read part = some number → ∀ c ∈ part, c ∈ partLetters)
    (mapped : (text.splitOn '.').mapM read = some numbers) :
    ∀ c ∈ text, c ∈ addressLetters ∧ c ≠ ':' := by
  intro c member
  have all : ∀ c ∈ partLetters, c ∈ addressLetters ∧ c ≠ ':' := by decide
  rcases mem_splitOn '.' member with dot | ⟨part, among, inside⟩
  · rw [dot]
    decide
  · obtain ⟨number, found⟩ := mapM_some mapped part among
    exact all c (letters found c inside)

theorem inetAton_letters (read : inetAton text = some number) :
    ∀ c ∈ text, c ∈ addressLetters ∧ c ≠ ':' := by
  rw [inetAton] at read
  cases mapped : (text.splitOn '.').mapM partNumber with
  | none =>
    rw [mapped] at read
    cases read
  | some numbers => exact parts_letters partNumber_letters mapped

theorem octet_letters {part : Text} (read : octet part = some number) :
    ∀ c ∈ part, c ∈ partLetters := by
  rw [octet] at read
  split at read
  · obtain ⟨found, _⟩ := Option.filter_eq_some_iff.mp read
    exact digits_letters found
  · cases read

theorem dotted_letters (read : dotted text = some number) :
    ∀ c ∈ text, c ∈ addressLetters ∧ c ≠ ':' := by
  rw [dotted] at read
  cases mapped : (text.splitOn '.').mapM octet with
  | none =>
    rw [mapped] at read
    cases read
  | some numbers => exact parts_letters octet_letters mapped

theorem group_letters (read : group text = some number) : ∀ c ∈ text, c ∈ partLetters := by
  rw [group] at read
  split at read
  · exact digits_letters read
  · cases read

theorem part_in_address : ∀ c ∈ partLetters, c ∈ addressLetters :=
  fun _ member => List.mem_cons_of_mem _ (List.mem_cons_of_mem _ member)

theorem groups_letters {pieces : List Text} (read : groups pieces = some values) :
    ∀ piece ∈ pieces, ∀ c ∈ piece, c ∈ addressLetters := by
  fun_induction groups pieces generalizing values with
  | case1 => simp
  | case2 last value found =>
    intro piece among c member
    rw [List.mem_singleton.mp among] at member
    exact part_in_address c (group_letters found c member)
  | case3 last missing =>
    obtain ⟨number, found, _⟩ := Option.map_eq_some_iff.mp read
    intro piece among c member
    rw [List.mem_singleton.mp among] at member
    exact (dotted_letters found c member).1
  | case4 first next rest value found ih =>
    obtain ⟨later, more, _⟩ := Option.map_eq_some_iff.mp read
    intro piece among c member
    rcases List.mem_cons.mp among with rfl | inside
    · exact part_in_address c (group_letters found c member)
    · exact ih more piece inside c member
  | case5 first next rest missing => cases read

theorem side_letters {text : Text} (letters : ∀ piece ∈ side text, ∀ c ∈ piece, c ∈ addressLetters) :
    ∀ c ∈ text, c ∈ addressLetters := by
  intro c member
  rw [side, if_neg (List.ne_nil_of_mem member)] at letters
  rcases mem_splitOn ':' member with colon | ⟨piece, among, inside⟩
  · rw [colon]
    decide
  · exact letters piece among c inside

/-- An IPv6 text has a colon, and address letters only. -/
theorem ipv6_letters (read : ipv6 text = some values) :
    ':' ∈ text ∧ ∀ c ∈ text, c ∈ addressLetters := by
  rw [ipv6] at read
  split at read
  · rename_i front back cut
    rw [eq_of_cutWord cut]
    split at read
    · rename_i before after fronts backs
      refine ⟨by simp, ?_⟩
      have early := @side_letters front (fun piece among c inside => by
        obtain ⟨value, found⟩ := mapM_some fronts piece among
        exact part_in_address c (group_letters found c inside))
      have late := side_letters (groups_letters backs)
      have colon : ':' ∈ addressLetters := by decide
      intro c member
      simp only [List.mem_append, List.mem_cons, List.not_mem_nil, or_false] at member
      rcases member with (first | rfl | rfl) | last
      · exact early c first
      · exact colon
      · exact colon
      · exact late c last
    · cases read
  · obtain ⟨found, eight⟩ := Option.filter_eq_some_iff.mp read
    have several : ':' ∈ text := by
      by_contra free
      rw [List.splitOn_eq_singleton free, groups] at found
      split at found
      · cases found
        simp at eight
      · obtain ⟨number, _, two⟩ := Option.map_eq_some_iff.mp found
        rw [← two] at eight
        simp at eight
    refine ⟨several, side_letters ?_⟩
    rw [side, if_neg (List.ne_nil_of_mem several)]
    exact groups_letters found

theorem parse_letters {ip : Address} (read : parse text = some ip) :
    ∀ c ∈ text, c ∈ addressLetters := by
  rw [parse] at read
  split at read
  · rename_i number found
    exact fun c member => (dotted_letters found c member).1
  · obtain ⟨values, found, _⟩ := Option.map_eq_some_iff.mp read
    exact (ipv6_letters found).2

theorem parse_of_normalize (solid : Cuts.trim isWhitespace host = host)
    (unread : normalizeIpLiteral host = none) : parse host = none := by
  rw [normalizeIpLiteral] at unread
  simp only [solid] at unread
  cases read : parse host with
  | none => rfl
  | some ip =>
    rw [read] at unread
    cases unread

theorem u32_letters (read : u32FromStrRadix text radix = some number) :
    ∀ c ∈ text, c ∈ '+' :: addressLetters := by
  obtain ⟨found, _⟩ := Option.filter_eq_some_iff.mp read
  have digits := digits_letters found
  rw [Decimal.withoutPlus.eq_def] at digits
  split at digits
  · intro c member
    rcases List.mem_cons.mp member with rfl | later
    · exact List.mem_cons_self
    · exact List.mem_cons_of_mem _ (part_in_address c (digits c later))
  · exact fun c member => List.mem_cons_of_mem _ (part_in_address c (digits c member))

theorem normalize_letters {ip : Address} (solid : Cuts.trim isWhitespace host = host)
    (read : normalizeIpLiteral host = some ip) : ∀ c ∈ host, c ∈ '+' :: addressLetters := by
  rw [normalizeIpLiteral] at read
  simp only [solid] at read
  split at read
  · rename_i found
    exact fun c member => List.mem_cons_of_mem _ (parse_letters found c member)
  split at read
  · rename_i found
    split at found
    · rename_i hex
      have later := u32_letters found
      intro c member
      rw [← List.take_append_drop 2 host, List.mem_append] at member
      rcases member with first | last
      · rw [startsHex, Bool.or_eq_true, List.isPrefixOf_iff_prefix,
          List.isPrefixOf_iff_prefix] at hex
        have marks : ∀ d ∈ "0xX".toList, d ∈ '+' :: addressLetters := by decide
        apply marks
        rcases hex with ⟨rest, rfl⟩ | ⟨rest, rfl⟩
        · simp at first
          rcases first with rfl | rfl <;> decide
        · simp at first
          rcases first with rfl | rfl <;> decide
      · exact later c last
    · cases found
  · split at read
    · obtain ⟨number, found, _⟩ := Option.map_eq_some_iff.mp read
      exact u32_letters found
    · cases read

def BlockedName (host : Text) : Prop :=
  let lower := host.map asciiLower
  (lower = "localhost".toList ∨ ".localhost".toList <:+ lower) ∨
    privateSuffixes.any (fun suffix => decide (suffix.toList <:+ lower)) = true ∨
    lower = "metadata.google.internal".toList ∨ ".metadata.google.internal".toList <:+ lower

theorem BlockedName.ends (blocked : BlockedName host) :
    ∃ word ∈ ["localhost", ".localhost", ".internal", ".local", ".home.arpa",
      "metadata.google.internal", ".metadata.google.internal"],
      word.toList <:+ host.map asciiLower := by
  rcases blocked with (same | ends) | some_ | same | ends
  · exact ⟨"localhost", by simp, by rw [same]⟩
  · exact ⟨".localhost", by simp, ends⟩
  · obtain ⟨suffix, among, ends⟩ := List.any_eq_true.mp some_
    have word : suffix = ".internal" ∨ suffix = ".local" ∨ suffix = ".home.arpa" := by
      simpa [privateSuffixes] using among
    exact ⟨suffix, by rcases word with rfl | rfl | rfl <;> simp, by simpa using ends⟩
  · exact ⟨"metadata.google.internal", by simp, by rw [same]⟩
  · exact ⟨".metadata.google.internal", by simp, ends⟩

/-- A refused name has a letter that no address has. -/
theorem BlockedName.letter (blocked : BlockedName host) :
    ∃ c ∈ host, c ∉ '+' :: addressLetters := by
  obtain ⟨word, among, ends⟩ := blocked.ends
  have letters : ∀ word ∈ ["localhost", ".localhost", ".internal", ".local", ".home.arpa",
      "metadata.google.internal", ".metadata.google.internal"],
      'l' ∈ word.toList ∨ 'o' ∈ word.toList := by decide
  have foreign : ∀ c ∈ '+' :: addressLetters, asciiLower c ≠ 'l' ∧ asciiLower c ≠ 'o' := by
    decide
  rcases letters word among with inside | inside
  · obtain ⟨c, member, lower⟩ := List.mem_map.mp (ends.mem inside)
    exact ⟨c, member, fun address => (foreign c address).1 lower⟩
  · obtain ⟨c, member, lower⟩ := List.mem_map.mp (ends.mem inside)
    exact ⟨c, member, fun address => (foreign c address).2 lower⟩

theorem not_blockedName_dot (name : Text) : ¬ BlockedName (name ++ ['.']) := by
  intro blocked
  obtain ⟨word, among, front, whole⟩ := blocked.ends
  have lasts : ∀ word ∈ ["localhost", ".localhost", ".internal", ".local", ".home.arpa",
      "metadata.google.internal", ".metadata.google.internal"],
      word.toList ≠ [] ∧ word.toList.getLast? ≠ some '.' := by decide
  obtain ⟨nonempty, last⟩ := lasts word among
  apply last
  rw [← List.getLast?_append_of_ne_nil front nonempty, whole, List.map_append]
  exact List.getLast?_concat

theorem BlockedName.of_local {name : Text} (isLocal : LocalName name) : BlockedName name :=
  Or.inl isLocal

/-- When the guard refuses a host, by what is left of it without blanks and brackets. -/
theorem validateHost_refuses {core : Text}
    (stripped : Cuts.trim isBracket (Cuts.trim isWhitespace host) = core) (nonempty : core ≠ [])
    (plain : '/' ∉ core ∧ '\\' ∉ core) (solid : Cuts.trim isWhitespace core = core) :
    (validateHost host false).isOk = false ↔
      BlockedName core ∨ ∃ ip, normalizeIpLiteral core = some ip ∧ isBlockedIp ip = true := by
  rw [validateHost]
  simp only [stripped, if_neg nonempty, if_neg (not_or.mpr plain)]
  by_cases local_ : core.map asciiLower = "localhost".toList ∨
      ".localhost".toList <:+ core.map asciiLower
  · rw [if_pos local_]
    exact iff_of_true rfl (Or.inl (Or.inl local_))
  rw [if_neg local_]
  by_cases suffix : privateSuffixes.any
      (fun suffix => decide (suffix.toList <:+ core.map asciiLower)) = true
  · rw [if_pos suffix]
    exact iff_of_true rfl (Or.inl (Or.inr (Or.inl suffix)))
  rw [if_neg suffix]
  by_cases metadata : core.map asciiLower = "metadata.google.internal".toList ∨
      ".metadata.google.internal".toList <:+ core.map asciiLower
  · rw [if_pos metadata]
    exact iff_of_true rfl (Or.inl (Or.inr (Or.inr metadata)))
  rw [if_neg metadata]
  have named : ¬ BlockedName core := by
    rintro (first | second | third)
    · exact local_ first
    · exact suffix second
    · exact metadata third
  rw [or_iff_right named]
  cases read : normalizeIpLiteral core with
  | none =>
    rw [parse_of_normalize solid read]
    simp [Except.isOk, Except.toBool]
  | some ip =>
    by_cases blocked : isBlockedIp ip = true
    · simp [blocked, unlessAllowed, Except.isOk, Except.toBool]
    · simp [blocked, Except.isOk, Except.toBool]

theorem refused_iff (nonempty : host ≠ []) (solid : Cuts.trim isWhitespace host = host) :
    Refused host ↔ (validateHost host false).isOk = false := by
  refine ⟨And.left, fun refused => ⟨refused, ?_, ?_⟩⟩
  · rw [validatePostgresHost]
    simp only [solid, if_neg nonempty]
    split
    · rfl
    · cases result : validateHost host false with
      | error error => rfl
      | ok answer =>
        rw [result] at refused
        cases refused
  · rw [validateGrpcHost]
    simp only [solid, if_neg nonempty]
    cases result : validateHost host false with
    | error error => rfl
    | ok answer =>
      rw [result] at refused
      cases refused

section Addresses

variable {core : Text} (nonempty : core ≠ []) (letters : ∀ c ∈ core, c ∈ addressLetters)

include letters

theorem address_solid : Cuts.trim isWhitespace core = core := by
  have blanks : ∀ c ∈ addressLetters, isWhitespace c = false := by decide
  exact trim_of_kept (fun c member => blanks c (letters c member))

include nonempty

/-- An address, in brackets or not, is refused where it is read as a blocked one. -/
theorem address_refused {host : Text}
    (spelled : host = core ∨ host = '[' :: (core ++ [']'])) :
    Refused host ↔ ∃ ip, normalizeIpLiteral core = some ip ∧ isBlockedIp ip = true := by
  have blanks : ∀ c ∈ '[' :: ']' :: addressLetters, isWhitespace c = false := by decide
  have brackets : ∀ c ∈ addressLetters, isBracket c = false := by decide
  have kept : ∀ c ∈ core, isBracket c = false := fun c member => brackets c (letters c member)
  have solidHost : Cuts.trim isWhitespace host = host := by
    apply trim_of_kept
    intro c member
    apply blanks
    rcases spelled with rfl | rfl
    · exact List.mem_cons_of_mem _ (List.mem_cons_of_mem _ (letters c member))
    · simp only [List.mem_cons, List.mem_append, List.not_mem_nil, or_false] at member
      rcases member with rfl | inside | rfl
      · exact List.mem_cons_self
      · exact List.mem_cons_of_mem _ (List.mem_cons_of_mem _ (letters c inside))
      · exact List.mem_cons_of_mem _ List.mem_cons_self
  have stripped : Cuts.trim isBracket (Cuts.trim isWhitespace host) = core := by
    rw [solidHost]
    rcases spelled with rfl | rfl
    · exact trim_of_kept kept
    · apply @trim_append _ isBracket ['['] core [']'] (by decide) (by decide)
      · exact fun c first => kept c (List.mem_of_mem_head? first)
      · exact fun c last => kept c (List.mem_of_getLast? last)
  have nonemptyHost : host ≠ [] := by
    rcases spelled with rfl | rfl
    · exact nonempty
    · exact List.cons_ne_nil _ _
  have plain : '/' ∉ core ∧ '\\' ∉ core :=
    ⟨fun member => absurd (letters _ member) (by decide),
      fun member => absurd (letters _ member) (by decide)⟩
  have named : ¬ BlockedName core := by
    intro blocked
    obtain ⟨c, member, foreign⟩ := blocked.letter
    exact foreign (List.mem_cons_of_mem _ (letters c member))
  rw [refused_iff nonemptyHost solidHost,
    validateHost_refuses stripped nonempty plain (address_solid letters), or_iff_right named]

end Addresses

theorem isDigit_ten (c : Char) : Radix.isDigit 10 c = c.isDigit := by
  have digit : c.isDigit = true ↔ '0' ≤ c ∧ c ≤ '9' := by
    rw [Char.isDigit, Bool.and_eq_true, decide_eq_true_eq, decide_eq_true_eq]
    exact Iff.rfl
  rw [Bool.eq_iff_iff, digit, Radix.isDigit, JsonString.hexValue]
  split_ifs with decimal lower upper
  · have low : 48 ≤ c.toNat := decimal.1
    have high : c.toNat ≤ 57 := decimal.2
    simp only [Option.any_some, decide_eq_true_eq, decimal, and_self, iff_true]
    omega
  · have low : 97 ≤ c.toNat := lower.1
    simp only [Option.any_some, decide_eq_true_eq, decimal, iff_false]
    omega
  · have low : 65 ≤ c.toNat := upper.1
    simp only [Option.any_some, decide_eq_true_eq, decimal, iff_false]
    omega
  · simp only [Option.any_none, Bool.false_eq_true, decimal]

/-- A run of digits is read in decimal, whatever it starts with. -/
theorem u32_digits (host : Text) :
    (if host.all Char.isDigit = true ∧ host ≠ [] then (u32FromStrRadix host 10).map Address.v4
      else none) = ((Radix.number 10 host).filter (· < 2 ^ 32)).map .v4 := by
  split
  · rename_i digits
    have unsigned : Decimal.withoutPlus host = host := by
      rw [Decimal.withoutPlus.eq_def]
      split
      · rename_i sign
        exact absurd (List.all_eq_true.mp digits.1 '+' (by simp)) (by decide)
      · rfl
    rw [u32FromStrRadix, unsigned]
  · rename_i other
    cases read : Radix.number 10 host with
    | none => rfl
    | some number =>
      refine absurd ⟨?_, ?_⟩ other
      · rw [List.all_eq_true]
        intro c member
        rw [← isDigit_ten]
        exact Radix.digits_of_number read c member
      · exact (Radix.number_isSome.mp (by rw [read]; rfl)).1

/-- What is read of a host in no standard notation. -/
theorem normalize_of_unparsed (solid : Cuts.trim isWhitespace host = host)
    (unparsed : parse host = none) : normalizeIpLiteral host =
      match if startsHex host then u32FromStrRadix (host.drop 2) 16 else none with
      | some n => some (.v4 n)
      | none => ((Radix.number 10 host).filter (· < 2 ^ 32)).map .v4 := by
  rw [normalizeIpLiteral]
  cases hexadecimal : if startsHex host = true then u32FromStrRadix (host.drop 2) 16 else none with
  | none => simp only [solid, unparsed, u32_digits, hexadecimal]
  | some n => simp only [solid, unparsed, hexadecimal]

section Ipv4

theorem mem_behind_hex (hex : startsHex text = true) {c : Char} (member : c ∈ text)
    (other : c ∉ "0xX".toList) : c ∈ text.drop 2 := by
  rw [startsHex, Bool.or_eq_true, List.isPrefixOf_iff_prefix, List.isPrefixOf_iff_prefix] at hex
  rcases hex with ⟨rest, rfl⟩ | ⟨rest, rfl⟩
  · simp at member other ⊢
    grind
  · simp at member other ⊢
    grind

theorem mem_withoutPlus {c : Char} (other : c ≠ '+') (member : c ∈ text) :
    c ∈ Decimal.withoutPlus text := by
  rw [Decimal.withoutPlus.eq_def]
  split
  · exact (List.mem_cons.mp member).resolve_left other
  · exact member

theorem normalize_dot (dot : '.' ∈ text) (solid : Cuts.trim isWhitespace text = text) :
    normalizeIpLiteral text = parse text := by
  cases read : parse text with
  | some ip =>
    rw [normalizeIpLiteral]
    simp only [solid, read]
  | none =>
    have noNumber : ∀ {radix : Nat} {part : Text}, '.' ∈ part →
        Radix.number radix part = none :=
      fun member => Radix.number_eq_none member rfl
    have noHex : (if startsHex text then u32FromStrRadix (text.drop 2) 16 else none) =
        none := by
      split
      · rename_i hex
        have behind : '.' ∈ Decimal.withoutPlus (text.drop 2) :=
          mem_withoutPlus (by decide) (mem_behind_hex hex dot (by decide))
        rw [u32FromStrRadix, noNumber behind]
        rfl
      · rfl
    rw [normalize_of_unparsed solid read, noHex, noNumber dot]
    rfl

/-- Plain parts are read in decimal by both. -/
theorem octet_eq {part : Text} {number : Nat} (read : partNumber part = some number)
    (small : number < 256) : octet part = if Plain part then some number else none := by
  rw [octet]
  split
  · rename_i plain
    have same : Radix.number 10 part = some number := by
      rw [partNumber.eq_def] at read
      split at read
      · cases plain rfl
      · cases plain rfl
      · exact read
      · rename_i digits _ _ more
        cases plain rfl
        exact absurd rfl more
      · exact read
    simp [same, small]
  · rfl

end Ipv4

theorem mapM_length {items : List α} (mapped : items.mapM f = some results) :
    results.length = items.length := by
  induction items generalizing results with
  | nil =>
    cases mapped
    rfl
  | cons item items ih =>
    rw [List.mapM_cons] at mapped
    obtain ⟨first, _, later⟩ := Option.bind_eq_some_iff.mp mapped
    obtain ⟨rest, others, same⟩ := Option.bind_eq_some_iff.mp later
    cases same
    rw [List.length_cons, List.length_cons, ih others]

theorem mapM_four {a b c d : α} (mapped : [a, b, c, d].mapM f = some results) :
    ∃ w x y z, results = [w, x, y, z] ∧ f a = some w ∧ f b = some x ∧ f c = some y ∧
      f d = some z := by
  simp only [List.mapM_cons, List.mapM_nil] at mapped
  obtain ⟨w, first, mapped⟩ := Option.bind_eq_some_iff.mp mapped
  obtain ⟨_, mapped, same⟩ := Option.bind_eq_some_iff.mp mapped
  obtain ⟨x, second, mapped⟩ := Option.bind_eq_some_iff.mp mapped
  obtain ⟨_, mapped, rests⟩ := Option.bind_eq_some_iff.mp mapped
  obtain ⟨y, third, mapped⟩ := Option.bind_eq_some_iff.mp mapped
  obtain ⟨_, mapped, more⟩ := Option.bind_eq_some_iff.mp mapped
  obtain ⟨z, fourth, mapped⟩ := Option.bind_eq_some_iff.mp mapped
  obtain ⟨_, mapped, last⟩ := Option.bind_eq_some_iff.mp mapped
  cases mapped
  cases last
  cases more
  cases rests
  cases same
  exact ⟨w, x, y, z, rfl, first, second, third, fourth⟩

section Ipv4

theorem dotted_of_length (other : (text.splitOn '.').length ≠ 4) : dotted text = none := by
  rw [dotted]
  split
  · rename_i mapped
    exact absurd (mapM_length mapped).symm other
  · rfl

theorem dotted_of_parts {a b c d : Text} {w x y z : Nat} (parts : text.splitOn '.' = [a, b, c, d])
    (first : partNumber a = some w) (second : partNumber b = some x)
    (third : partNumber c = some y) (fourth : partNumber d = some z)
    (small : w < 256 ∧ x < 256 ∧ y < 256 ∧ z < 256) :
    dotted text = if Plain a ∧ Plain b ∧ Plain c ∧ Plain d then
      some (((w * 256 + x) * 256 + y) * 256 + z) else none := by
  have readA := octet_eq first small.1
  have readB := octet_eq second small.2.1
  have readC := octet_eq third small.2.2.1
  have readD := octet_eq fourth small.2.2.2
  rw [dotted, parts]
  simp only [List.mapM_cons, List.mapM_nil, readA, readB, readC, readD]
  by_cases plainA : Plain a <;> by_cases plainB : Plain b <;> by_cases plainC : Plain c <;>
    by_cases plainD : Plain d <;> simp [plainA, plainB, plainC, plainD]

theorem u32_of_hex (hex : startsHex text = true) {number : Nat}
    (read : partNumber text = some number) (small : number < 2 ^ 32) :
    u32FromStrRadix (text.drop 2) 16 = some number := by
  have digits : ∀ rest : Text, Radix.number 16 rest = some number →
      u32FromStrRadix rest 16 = some number := by
    intro rest found
    have unsigned : Decimal.withoutPlus rest = rest := by
      rw [Decimal.withoutPlus.eq_def]
      split
      · exact absurd (Radix.digits_of_number found '+' List.mem_cons_self) (by decide)
      · rfl
    rw [u32FromStrRadix, unsigned, found]
    simpa using small
  rw [startsHex, Bool.or_eq_true, List.isPrefixOf_iff_prefix, List.isPrefixOf_iff_prefix] at hex
  rcases hex with ⟨rest, rfl⟩ | ⟨rest, rfl⟩
  · exact digits rest read
  · exact digits rest read

/-- A single number is read in hexadecimal, or its digits in decimal. -/
theorem normalize_single {number : Nat} (read : partNumber text = some number)
    (small : number < 2 ^ 32) (solid : Cuts.trim isWhitespace text = text)
    (unparsed : parse text = none) : normalizeIpLiteral text =
      if startsHex text then some (.v4 number)
      else ((Radix.number 10 text).filter (· < 2 ^ 32)).map .v4 := by
  rw [normalize_of_unparsed solid unparsed]
  by_cases hex : startsHex text = true
  · rw [if_pos hex, if_pos hex, u32_of_hex hex read small]
  · rw [if_neg hex, if_neg hex]

end Ipv4

theorem isBlockedIp_of_private (isPrivate : Private4 number) : isBlockedIp (.v4 number) = true := by
  simp only [isBlockedIp, Bool.or_eq_true, beq_iff_eq]
  rcases isPrivate with same | same | same | same | same | same
  all_goals omega

theorem ipv4_refused (read : inetAton text = some number) (isPrivate : Private4 number) :
    (∃ ip, normalizeIpLiteral text = some ip ∧ isBlockedIp ip = true) ↔
      (PrivateSpelling.ipv4 text number read isPrivate).Recognized := by
  have letters := inetAton_letters read
  have solid := address_solid (fun c member => (letters c member).1)
  have noColon : ipv6 text = none := by
    cases found : ipv6 text with
    | none => rfl
    | some values => exact absurd rfl (letters ':' (ipv6_letters found).1).2
  have dots : ∀ {first rest}, text.splitOn '.' = first :: rest → rest ≠ [] → '.' ∈ text := by
    intro first rest parts several
    by_contra free
    rw [List.splitOn_eq_singleton free] at parts
    exact several (List.cons.inj parts).2.symm
  have shape : ∃ parts, text.splitOn '.' = parts := ⟨_, rfl⟩
  obtain ⟨parts, split⟩ := shape
  have parsed : parse text = (dotted text).map .v4 := by
    rw [parse, noColon]
    cases dotted text with
    | none => rfl
    | some n => rfl
  rw [PrivateSpelling.Recognized]
  simp only [split]
  rw [inetAton, split] at read
  have unread : (text.splitOn '.').length ≠ 4 → parse text = none := by
    intro other
    rw [parsed, dotted_of_length other]
    rfl
  have blocked := isBlockedIp_of_private isPrivate
  rcases parts with _ | ⟨a, _ | ⟨b, _ | ⟨c, _ | ⟨d, _ | ⟨e, rest⟩⟩⟩⟩⟩
  · cases read
  · have whole : text = a := by
      by_cases dot : '.' ∈ text
      · obtain ⟨front, back, rfl⟩ := List.append_of_mem dot
        rw [List.splitOn_append_cons_self] at split
        have lengths := congrArg List.length split
        have first := List.length_pos_iff.mpr (List.splitOn_ne_nil '.' front)
        have second := List.length_pos_iff.mpr (List.splitOn_ne_nil '.' back)
        rw [List.length_append, List.length_singleton] at lengths
        omega
      · rw [List.splitOn_eq_singleton dot] at split
        exact (List.cons.inj split).1
    subst whole
    obtain ⟨part, small⟩ : partNumber text = some number ∧ number < 2 ^ 32 := by
      cases part : partNumber text with
      | none => simp [part] at read
      | some value =>
        obtain ⟨same, small⟩ : value = number ∧ value < 2 ^ 32 := by
          simpa [part, and_comm] using read
        exact ⟨by rw [same], same ▸ small⟩
    rw [normalize_single part small solid (unread (by simp [split]))]
    by_cases hex : startsHex text = true
    · simp [hex, blocked]
    · simp only [hex, Bool.false_eq_true, if_false, false_or]
      constructor
      · rintro ⟨ip, found, refused⟩
        obtain ⟨n, filtered, rfl⟩ := Option.map_eq_some_iff.mp found
        obtain ⟨digits, bound⟩ := Option.filter_eq_some_iff.mp filtered
        exact ⟨n, digits, by simpa using bound, refused⟩
      · rintro ⟨n, digits, bound, refused⟩
        refine ⟨.v4 n, ?_, refused⟩
        rw [digits, Option.filter_some, if_pos (by simpa using bound)]
        rfl
  · rw [normalize_dot (dots split (by simp)) solid, unread (by simp [split])]
    simp
  · rw [normalize_dot (dots split (by simp)) solid, unread (by simp [split])]
    simp
  · obtain ⟨numbers, mapped⟩ : ∃ numbers, [a, b, c, d].mapM partNumber = some numbers := by
      cases mapped : [a, b, c, d].mapM partNumber with
      | none =>
        rw [mapped] at read
        cases read
      | some numbers => exact ⟨numbers, rfl⟩
    obtain ⟨w, x, y, z, rfl, first, second, third, fourth⟩ := mapM_four mapped
    rw [mapped] at read
    simp only at read
    split at read
    · rename_i small
      rw [normalize_dot (dots split (by simp)) solid, parsed,
        dotted_of_parts split first second third fourth small]
      cases read
      by_cases plain : Plain a ∧ Plain b ∧ Plain c ∧ Plain d
      · simp [plain, blocked]
      · simp [plain]
    · cases read
  · rw [normalize_dot (dots split (by simp)) solid, unread (by simp [split])]
    simp

theorem isBlockedIp_six {groups : List Nat} (isPrivate : Private6 groups) :
    isBlockedIp (.v6 groups) = true ↔
      ¬ LinkLocal6 groups ∧ ∀ number, ¬ Mapped6 number groups := by
  have blocked : isBlockedIp (.v6 groups) = true ↔
      ((groups = [0, 0, 0, 0, 0, 0, 0, 1] ∨ groups.head?.any (· / 2 ^ 9 == 126) = true) ∨
        groups = [0, 0, 0, 0, 0, 0, 0, 0]) ∨ groups.head?.any (· / 2 ^ 8 == 255) = true := by
    rw [isBlockedIp, Bool.or_eq_true, Bool.or_eq_true, Bool.or_eq_true, beq_iff_eq, beq_iff_eq]
  rw [blocked]
  constructor
  · intro refused
    refine ⟨?_, ?_⟩
    · intro linkLocal
      rw [LinkLocal6] at linkLocal
      cases groups with
      | nil => cases linkLocal
      | cons first rest =>
        simp at linkLocal refused
        omega
    · rintro number rfl
      simp at refused
  · rintro ⟨linkLocal, mapped⟩
    rcases isPrivate with loopback | unspecified | uniqueLocal | other | ⟨number, _, other⟩
    · exact Or.inl (Or.inl (Or.inl loopback))
    · exact Or.inl (Or.inr unspecified)
    · refine Or.inl (Or.inl (Or.inr ?_))
      rw [UniqueLocal6] at uniqueLocal
      cases groups with
      | nil => cases uniqueLocal
      | cons first rest => simpa using uniqueLocal
    · exact absurd other linkLocal
    · exact absurd other (mapped number)

theorem parse_ipv6 {groups : List Nat} (read : ipv6 text = some groups) :
    parse text = some (.v6 groups) := by
  have noDots : dotted text = none := by
    cases found : dotted text with
    | none => rfl
    | some number => exact absurd rfl (dotted_letters found ':' (ipv6_letters read).1).2
  rw [parse, noDots, read]
  rfl

theorem nameChar_plain {c : Char} (letter : isNameChar c = true) :
    isWhitespace c = false ∧ isBracket c = false ∧ c ≠ '/' ∧ c ≠ '\\' := by
  have bounds : 48 ≤ c.toNat ∧ c.toNat ≤ 57 ∨ 65 ≤ c.toNat ∧ c.toNat ≤ 90 ∨
        97 ≤ c.toNat ∧ c.toNat ≤ 122 ∨ c.toNat = 45 ∨ c.toNat = 95 := by
    simp only [isNameChar, Ascii.isAlphanum_iff, Bool.or_eq_true, beq_iff_eq] at letter
    rcases letter with (letter | dash) | underscore
    · omega
    · subst dash; decide
    · subst underscore; decide
  have codes : isWhitespace c = false := by
    rw [Bool.eq_false_iff]
    intro blank
    simp only [isWhitespace, Bool.or_eq_true, Bool.and_eq_true, decide_eq_true_eq] at blank
    omega
  have apart : ∀ d : Char, d.toNat ∈ [91, 93, 47, 92] → c ≠ d := by
    rintro d member rfl
    simp only [List.mem_cons, List.not_mem_nil, or_false] at member
    omega
  refine ⟨codes, ?_, apart _ (by decide), apart _ (by decide)⟩
  simp [isBracket, apart '[' (by decide), apart ']' (by decide)]

theorem name_letters (valid : isHostName text = true) :
    ∀ c ∈ '.' :: text, isWhitespace c = false ∧ isBracket c = false ∧ c ≠ '/' ∧ c ≠ '\\' := by
  intro c member
  rcases List.mem_cons.mp member with rfl | inside
  · decide
  · rw [isHostName, Bool.and_eq_true, List.all_eq_true] at valid
    rcases mem_splitOn '.' inside with rfl | ⟨label, among, within⟩
    · decide
    · have labelled := valid.2 label among
      rw [isLabel] at labelled
      simp only [Bool.and_eq_true, List.all_eq_true] at labelled
      exact nameChar_plain (labelled.1.1.2 c within)

theorem name_refused (nonempty : host ≠ [])
    (letters : ∀ c ∈ host, isWhitespace c = false ∧ isBracket c = false ∧ c ≠ '/' ∧ c ≠ '\\') :
    Refused host ↔
      BlockedName host ∨ ∃ ip, normalizeIpLiteral host = some ip ∧ isBlockedIp ip = true := by
  have solid : Cuts.trim isWhitespace host = host :=
    trim_of_kept (fun c member => (letters c member).1)
  have stripped : Cuts.trim isBracket (Cuts.trim isWhitespace host) = host := by
    rw [solid]
    exact trim_of_kept (fun c member => (letters c member).2.1)
  rw [refused_iff nonempty solid]
  exact validateHost_refuses stripped nonempty
    ⟨fun slash => (letters _ slash).2.2.1 rfl, fun slash => (letters _ slash).2.2.2 rfl⟩ solid

theorem local_refused (valid : isHostName text = true) (isLocal : LocalName text) :
    Refused text ∧ ¬ Refused (text ++ ['.']) := by
  have letters := name_letters valid
  have behind : ∀ c ∈ text ++ ['.'],
      isWhitespace c = false ∧ isBracket c = false ∧ c ≠ '/' ∧ c ≠ '\\' := by
    intro c member
    exact letters c (by simpa [or_comm] using member)
  constructor
  · rw [name_refused (isHostName_spec valid).1
      (fun c member => letters c (List.mem_cons_of_mem _ member))]
    exact Or.inl (BlockedName.of_local isLocal)
  · rw [name_refused (by simp) behind]
    rintro (blocked | ⟨ip, read, _⟩)
    · exact not_blockedName_dot text blocked
    · have solid : Cuts.trim isWhitespace (text ++ ['.']) = text ++ ['.'] :=
        trim_of_kept (fun c member => (behind c member).1)
      obtain ⟨c, member, foreign⟩ := (BlockedName.of_local isLocal).letter
      exact foreign (normalize_letters solid read c (List.mem_append_left _ member))

/-- The guard refuses a private address exactly where it is spelled in a way that it knows. -/
theorem refused_iff_recognized (spelling : PrivateSpelling) :
    Refused spelling.text ↔ spelling.Recognized := by
  cases spelling with
  | ipv4 text number read isPrivate =>
    have nonempty : text ≠ [] := by
      rintro rfl
      cases read
    have letters := fun c member => (inetAton_letters read c member).1
    exact (address_refused nonempty letters (Or.inl rfl)).trans (ipv4_refused read isPrivate)
  | ipv6 brackets text groups read isPrivate =>
    obtain ⟨colon, letters⟩ := ipv6_letters read
    have spelled : PrivateSpelling.text (.ipv6 brackets text groups read isPrivate) = text ∨
        PrivateSpelling.text (.ipv6 brackets text groups read isPrivate) =
          '[' :: (text ++ [']']) := by
      cases brackets with
      | false => exact Or.inl rfl
      | true => exact Or.inr rfl
    have normalized : normalizeIpLiteral text = some (.v6 groups) := by
      rw [normalizeIpLiteral]
      simp only [address_solid letters, parse_ipv6 read]
    rw [address_refused (List.ne_nil_of_mem colon) letters spelled, normalized]
    simp only [Option.some.injEq, exists_eq_left']
    exact isBlockedIp_six isPrivate
  | name dot text valid isLocal =>
    obtain ⟨alone, dotted⟩ := local_refused valid isLocal
    cases dot with
    | false => exact iff_of_true alone rfl
    | true => exact iff_of_false dotted (by simp [PrivateSpelling.Recognized])

/-- `127.1`: the short form of a loopback address. -/
def shortLoopback : PrivateSpelling :=
  .ipv4 "127.1".toList 2130706433 (by decide) (by decide)

theorem shortLoopback_accepted :
    shortLoopback.text = "127.1".toList ∧
      validatePostgresHost none "127.1".toList false = .ok () ∧
      ¬ ∀ spelling : PrivateSpelling, Refused spelling.text := by
  refine ⟨rfl, by decide, ?_⟩
  intro all
  exact absurd (all shortLoopback).1 (by decide)

end DddCqrsEs.FullstackApp
