import DddCqrsEs.Cuts
import DddCqrsEs.Decimal
import DddCqrsEs.Event

/- The hosts of URLs, the URLs that name them, and the test on plaintext URLs. -/
namespace DddCqrsEs

open Cuts

def isNameChar (c : Char) : Bool := c.isAlphanum || c == '-' || c == '_'

/-- A label of a DNS name. -/
def isLabel (label : List Char) : Bool :=
  decide (0 < label.length) && decide (label.length ≤ 63) && label.all isNameChar &&
    label.head? != some '-' && label.getLast? != some '-'

/-- A DNS name, or an IPv4 address in its dotted form. -/
def isHostName (text : List Char) : Bool :=
  decide (text.length ≤ 253) && (text.splitOn '.').all isLabel

/-- A number of at most 255 without leading zeros. -/
def isOctet (text : List Char) : Bool :=
  match Decimal.unsigned text with
  | some number => decide (number ≤ 255) && (text == ['0'] || text.head? != some '0')
  | none => false

def isIpv4 (text : List Char) : Bool :=
  (text.splitOn '.').length == 4 && (text.splitOn '.').all isOctet

/-- One of the groups of an IPv6 address. -/
def isGroup (text : List Char) : Bool :=
  decide (0 < text.length) && decide (text.length ≤ 4) && text.all Char.isHexDigit

/-- The number of groups that a list of written ones stands for. The last may be an IPv4
address, which stands for two. -/
def groupCount : List (List Char) → Option Nat
  | [] => some 0
  | [group] => if isGroup group then some 1 else if isIpv4 group then some 2 else none
  | group :: next :: groups =>
    if isGroup group then (groupCount (next :: groups)).map (· + 1) else none

/-- The groups that are written on one side of a `::`. -/
def sideGroups (text : List Char) : List (List Char) :=
  if text = [] then [] else text.splitOn ':'

/-- An IPv6 address: eight groups, or fewer around a `::`. -/
def isIpv6 (text : List Char) : Bool :=
  match cutWord [':', ':'] text with
  | some (front, back) =>
    (sideGroups front).all isGroup &&
      match groupCount (sideGroups back) with
      | some count => decide ((sideGroups front).length + count ≤ 7)
      | none => false
  | none => groupCount (text.splitOn ':') == some 8

inductive Host
  | name (text : List Char) (valid : isHostName text = true)
  | ipv6 (literal : List Char) (valid : isIpv6 literal = true)

/-- The host as it stands in a URL: an IPv6 literal stands in brackets. -/
def Host.text : Host → List Char
  | .name text _ => text
  | .ipv6 literal _ => '[' :: (literal ++ [']'])

def isDelimiter (c : Char) : Bool := [':', '/', '?', '#', '[', ']', '@'].contains c

variable {c : Char} {first more literal : List Char}

theorem not_delimiter_of_isNameChar (named : isNameChar c = true) : isDelimiter c = false := by
  rw [Bool.eq_false_iff]
  intro delimits
  rw [isDelimiter, List.contains_iff_mem] at delimits
  have none : ∀ d ∈ [':', '/', '?', '#', '[', ']', '@'], isNameChar d = false := by decide
  rw [none c delimits] at named
  cases named

/-- The characters of IPv6 addresses. -/
def isAddressChar (c : Char) : Bool := c.isHexDigit || c == '.' || c == ':'

theorem isHexDigit_of_isGroup {group : List Char} (valid : isGroup group = true) :
    ∀ c ∈ group, c.isHexDigit = true := by
  rw [isGroup, Bool.and_eq_true, List.all_eq_true] at valid
  exact valid.2

theorem isHexDigit_of_isDigit (digit : c.isDigit = true) : c.isHexDigit = true := by
  rw [Char.isHexDigit, digit]
  rfl

theorem isAddressChar_of_isHexDigit (hex : c.isHexDigit = true) : isAddressChar c = true := by
  rw [isAddressChar, hex]
  rfl

theorem isAddressChar_of_isIpv4 {text : List Char} (valid : isIpv4 text = true) :
    ∀ c ∈ text, isAddressChar c = true := by
  intro c member
  rw [isIpv4, Bool.and_eq_true, List.all_eq_true] at valid
  rcases mem_splitOn '.' member with dot | ⟨octet, among, inside⟩
  · rw [dot]
    decide
  · have number := valid.2 octet among
    rw [isOctet, Decimal.unsigned] at number
    split at number
    · rename_i read
      split at read
      · rename_i digits
        have digit := List.all_eq_true.mp digits.2 c inside
        exact isAddressChar_of_isHexDigit (isHexDigit_of_isDigit digit)
      · cases read
    · cases number

/-- Groups that can be counted are written with address characters, and all but the last are
hexadecimal. -/
theorem groupCount_spec {groups : List (List Char)} {count : Nat}
    (counted : groupCount groups = some count) :
    (∀ group ∈ groups, ∀ c ∈ group, isAddressChar c = true) ∧
      (∀ first next rest, groups = first :: next :: rest → isGroup first = true) := by
  fun_induction groupCount groups generalizing count with
  | case1 => simp
  | case2 group valid =>
    refine ⟨?_, by simp⟩
    intro part among
    rw [List.mem_singleton.mp among]
    exact fun c member => isAddressChar_of_isHexDigit (isHexDigit_of_isGroup valid c member)
  | case3 group invalid valid =>
    refine ⟨?_, by simp⟩
    intro part among
    rw [List.mem_singleton.mp among]
    exact isAddressChar_of_isIpv4 valid
  | case4 group invalid others => cases counted
  | case5 group next groups valid ih =>
    rw [Option.map_eq_some_iff] at counted
    obtain ⟨later, counted, -⟩ := counted
    constructor
    · intro part among
      rcases List.mem_cons.mp among with same | more
      · rw [same]
        exact fun c member => isAddressChar_of_isHexDigit (isHexDigit_of_isGroup valid c member)
      · exact (ih counted).1 part more
    · intro first second rest same
      rw [← (List.cons.inj same).1]
      exact valid
  | case6 group next groups invalid => cases counted

theorem isAddressChar_of_pieces {text : List Char}
    (pieces : ∀ piece ∈ text.splitOn ':', ∀ c ∈ piece, isAddressChar c = true) :
    ∀ c ∈ text, isAddressChar c = true := by
  intro c member
  rcases mem_splitOn ':' member with colon | ⟨piece, among, inside⟩
  · rw [colon]
    decide
  · exact pieces piece among c inside

theorem isAddressChar_of_sideGroups {text : List Char}
    (pieces : ∀ piece ∈ sideGroups text, ∀ c ∈ piece, isAddressChar c = true) :
    ∀ c ∈ text, isAddressChar c = true := by
  by_cases empty : text = []
  · rw [empty]
    simp
  · rw [sideGroups, if_neg empty] at pieces
    exact isAddressChar_of_pieces pieces

/-- Before a text's first separator stands the first of its pieces. -/
theorem splitOn_cut {text : List Char} (cut : cutFirst ':' text = some (first, more)) :
    ∃ next rest, text.splitOn ':' = first :: next :: rest := by
  obtain ⟨split, free⟩ := cutFirst_eq_some.mp cut
  obtain ⟨next, rest, pieces⟩ := List.exists_cons_of_ne_nil (List.splitOn_ne_nil ':' more)
  exact ⟨next, rest, by rw [split, List.splitOn_append_cons_self_of_not_mem free, pieces]⟩

/-- An IPv6 address is written with address characters, and its first group, which may be
empty, ends at a colon. -/
theorem isIpv6_spec (valid : isIpv6 literal = true) :
    ∃ first more, literal = first ++ ':' :: more ∧ (∀ c ∈ first, c.isHexDigit = true) ∧
      ∀ c ∈ literal, isAddressChar c = true := by
  rw [isIpv6] at valid
  split at valid
  · rename_i front back cut
    have split := eq_of_cutWord cut
    rw [Bool.and_eq_true, List.all_eq_true] at valid
    have fronts : ∀ group ∈ sideGroups front, ∀ c ∈ group, c.isHexDigit = true :=
      fun group among => isHexDigit_of_isGroup (valid.1 group among)
    have before : ∀ c ∈ front, isAddressChar c = true :=
      isAddressChar_of_sideGroups fun group among c inside =>
        isAddressChar_of_isHexDigit (fronts group among c inside)
    have behind : ∀ c ∈ back, isAddressChar c = true := by
      cases counted : groupCount (sideGroups back) with
      | none =>
        rw [counted] at valid
        exact absurd valid.2 Bool.false_ne_true
      | some count => exact isAddressChar_of_sideGroups (groupCount_spec counted).1
    have all : ∀ c ∈ literal, isAddressChar c = true := by
      rw [split]
      intro c member
      simp only [List.mem_append, List.mem_cons, List.not_mem_nil, or_false] at member
      rcases member with (early | colon | colon) | late
      · exact before c early
      · rw [colon]
        decide
      · rw [colon]
        decide
      · exact behind c late
    cases divided : cutFirst ':' front with
    | none =>
      refine ⟨front, ':' :: back, by rw [split]; simp, ?_, all⟩
      by_cases empty : front = []
      · rw [empty]
        simp
      · rw [sideGroups, if_neg empty,
          List.splitOn_eq_singleton (cutFirst_eq_none.mp divided)] at fronts
        exact fronts front List.mem_cons_self
    | some parts =>
      obtain ⟨first, more⟩ := parts
      obtain ⟨next, rest, pieces⟩ := splitOn_cut divided
      have whole := (cutFirst_eq_some.mp divided).1
      have nonempty : front ≠ [] := by
        rw [whole]
        simp
      refine ⟨first, more ++ ':' :: ':' :: back, by rw [split, whole]; simp, ?_, all⟩
      rw [sideGroups, if_neg nonempty, pieces] at fronts
      exact fronts first List.mem_cons_self
  · rw [beq_iff_eq] at valid
    have all := isAddressChar_of_pieces (groupCount_spec valid).1
    cases divided : cutFirst ':' literal with
    | none =>
      -- one group alone stands for at most two
      rw [List.splitOn_eq_singleton (cutFirst_eq_none.mp divided), groupCount] at valid
      split at valid
      · exact absurd valid (by decide)
      · split at valid <;> exact absurd valid (by decide)
    | some parts =>
      obtain ⟨first, more⟩ := parts
      obtain ⟨next, rest, pieces⟩ := splitOn_cut divided
      have group := (groupCount_spec valid).2 first next rest pieces
      exact ⟨first, more, (cutFirst_eq_some.mp divided).1, isHexDigit_of_isGroup group, all⟩

theorem isHostName_spec {text : List Char} (valid : isHostName text = true) :
    text ≠ [] ∧ ∀ c ∈ text, isDelimiter c = false := by
  rw [isHostName, Bool.and_eq_true, List.all_eq_true] at valid
  constructor
  · intro empty
    rw [empty] at valid
    exact absurd (valid.2 [] (by simp)) (by decide)
  · intro c member
    rcases mem_splitOn '.' member with dot | ⟨label, among, inside⟩
    · rw [dot]
      decide
    · have labelled := valid.2 label among
      rw [isLabel] at labelled
      simp only [Bool.and_eq_true, List.all_eq_true] at labelled
      exact not_delimiter_of_isNameChar (labelled.1.1.2 c inside)

theorem not_mem_of_isAddressChar {text : List Char} {d : Char}
    (address : ∀ c ∈ text, isAddressChar c = true) (foreign : isAddressChar d = false) :
    d ∉ text := by
  intro member
  rw [address d member] at foreign
  cases foreign

/-- No delimiter but the colon and the brackets stands in a host. -/
theorem Host.free (host : Host) {d : Char} (delimits : isDelimiter d = true)
    (other : d ≠ ':' ∧ d ≠ '[' ∧ d ≠ ']') : d ∉ host.text := by
  cases host with
  | name text valid =>
    intro member
    rw [(isHostName_spec valid).2 d member] at delimits
    cases delimits
  | ipv6 literal valid =>
    obtain ⟨first, more, split, hex, address⟩ := isIpv6_spec valid
    have foreign : isAddressChar d = false := by
      rw [isDelimiter, List.contains_iff_mem] at delimits
      have outside : ∀ d ∈ [':', '/', '?', '#', '[', ']', '@'], d ≠ ':' →
          isAddressChar d = false := by decide
      exact outside d delimits other.1
    rw [Host.text, List.mem_cons, List.mem_append, List.mem_singleton]
    simp [other, not_mem_of_isAddressChar address foreign]

/-- What stands before the host: it may hold `@` itself. -/
structure Userinfo where
  text : List Char
  inAuthority : ∀ c ∈ text, c ≠ '/' ∧ c ≠ '?' ∧ c ≠ '#'

structure PortText where
  text : List Char
  digits : ∀ c ∈ text, c.isDigit = true

/-- `[userinfo@]host[:port][/path][?query]`. -/
structure HostUrl where
  userinfo : Option Userinfo
  host : Host
  port : Option PortText
  path : Option (List Char)
  query : Option (List Char)

namespace HostUrl

def tail (url : HostUrl) : List Char :=
  url.path.elim [] ('/' :: ·) ++ url.query.elim [] ('?' :: ·)

def portText (url : HostUrl) : List Char := url.port.elim [] (fun port => ':' :: port.text)

def hostPort (url : HostUrl) : List Char := url.host.text ++ url.portText

def authority (url : HostUrl) : List Char :=
  url.userinfo.elim [] (fun userinfo => userinfo.text ++ ['@']) ++ url.hostPort

def text (url : HostUrl) : List Char := url.authority ++ url.tail

variable (url : HostUrl)

theorem portText_free {d : Char} (delimits : isDelimiter d = true) (other : d ≠ ':') :
    d ∉ url.portText := by
  rw [portText]
  cases url.port with
  | none => simp
  | some port =>
    have foreign : d.isDigit = false := by
      rw [isDelimiter, List.contains_iff_mem] at delimits
      have outside : ∀ d ∈ [':', '/', '?', '#', '[', ']', '@'], d.isDigit = false := by decide
      exact outside d delimits
    show d ∉ ':' :: port.text
    rw [List.mem_cons, not_or]
    refine ⟨other, ?_⟩
    intro member
    rw [port.digits d member] at foreign
    cases foreign

theorem hostPort_free {d : Char} (delimits : isDelimiter d = true)
    (other : d ≠ ':' ∧ d ≠ '[' ∧ d ≠ ']') : d ∉ url.hostPort := by
  rw [hostPort, List.mem_append, not_or]
  exact ⟨url.host.free delimits other, url.portText_free delimits other.1⟩

theorem tail_opens : Opens (['/', '?', '#'].contains ·) url.tail := by
  rw [tail]
  cases url.path with
  | some path => simp [Opens]
  | none =>
    cases url.query with
    | some query => simp [Opens]
    | none => simp [Opens]

/-- The authority ends before the path and the query. -/
theorem upTo_text : upTo (['/', '?', '#'].contains ·) url.text = url.authority := by
  rw [upTo_eq_iff]
  refine ⟨url.tail, rfl, ?_, url.tail_opens⟩
  intro c member
  rw [Bool.eq_false_iff]
  intro stops
  rw [List.contains_iff_mem] at stops
  rw [authority, List.mem_append] at member
  have delimits : isDelimiter c = true ∧ c ≠ ':' ∧ c ≠ '[' ∧ c ≠ ']' ∧ c ≠ '@' := by
    have known : ∀ c ∈ ['/', '?', '#'], isDelimiter c = true ∧ c ≠ ':' ∧ c ≠ '[' ∧ c ≠ ']' ∧
        c ≠ '@' := by decide
    exact known c stops
  rcases member with before | later
  · cases present : url.userinfo with
    | none =>
      rw [present] at before
      exact absurd before List.not_mem_nil
    | some userinfo =>
      rw [present] at before
      rcases List.mem_append.mp before with inside | mark
      · have allowed := userinfo.inAuthority c inside
        simp at stops
        exact absurd stops (by simp [allowed])
      · exact delimits.2.2.2.2 (List.mem_singleton.mp mark)
  · exact url.hostPort_free delimits.1 ⟨delimits.2.1, delimits.2.2.1, delimits.2.2.2.1⟩ later

theorem afterLast_authority : afterLast '@' url.authority = url.hostPort := by
  have free : '@' ∉ url.hostPort := url.hostPort_free (by decide) (by decide)
  rw [authority]
  cases url.userinfo with
  | none => exact afterLast_of_free free
  | some userinfo =>
    show afterLast '@' (userinfo.text ++ ['@'] ++ url.hostPort) = _
    rw [List.append_assoc, List.singleton_append, afterLast_append_cons, afterLast_of_free free]

/-- The last `@` of the whole text is that of the authority where the path and the query have
none. -/
theorem afterLast_text (plain : '@' ∉ url.tail) :
    afterLast '@' url.text = url.hostPort ++ url.tail := by
  have free : '@' ∉ url.hostPort ++ url.tail := by
    rw [List.mem_append, not_or]
    exact ⟨url.hostPort_free (by decide) (by decide), plain⟩
  rw [text, authority]
  cases url.userinfo with
  | none => exact afterLast_of_free free
  | some userinfo =>
    show afterLast '@' (userinfo.text ++ ['@'] ++ url.hostPort ++ url.tail) = _
    rw [List.append_assoc, List.append_assoc, List.singleton_append, afterLast_append_cons,
      afterLast_of_free free]

theorem afterLast_text_marked (marked : '@' ∈ url.tail) :
    afterLast '@' url.text = afterLast '@' url.tail :=
  afterLast_append marked url.authority

end HostUrl

def redactUrlUserinfo (url : List Char) : List Char :=
  match cutWord "://".toList url with
  | none => url
  | some (scheme, remainder) =>
    match cutLast '@' remainder with
    | none => url
    | some (_, hostAndPath) => scheme ++ "://".toList ++ "***@".toList ++ hostAndPath

def eqIgnoreAsciiCase (first second : List Char) : Bool :=
  first.map asciiLower == second.map asciiLower

/-- The host of a URL after its scheme, as `validate_https_url` and `https_endpoint_host` both
look for it. -/
def authorityHost (rest : List Char) : List Char :=
  let authority := upTo (['/', '?', '#'].contains ·) rest
  let host := trim (['[', ']'].contains ·) (afterLast '@' authority)
  upTo (· == ':') host

def validateHttpsUrl (url : List Char) : Except (List Char) Unit :=
  match cutWord "://".toList url with
  | none =>
    .error ("HTTP URL must include a scheme (got ".toList ++ redactUrlUserinfo url ++ [')'])
  | some (scheme, rest) =>
    if eqIgnoreAsciiCase scheme "https".toList then .ok ()
    else if ¬ eqIgnoreAsciiCase scheme "http".toList then
      .error ("unsupported URL scheme `".toList ++ scheme ++ "`; only https is allowed".toList)
    else
      let host := authorityHost rest
      if eqIgnoreAsciiCase host "localhost".toList ∨ host = "127.0.0.1".toList ∨
          host = "::1".toList ∨ host = "[::1]".toList then .ok ()
      else
        .error ("refusing plaintext HTTP to `".toList ++ host ++
          "`; use https or a loopback URL".toList)

/-- A bracketed text with a colon in it loses its brackets and what follows the colon. -/
theorem trim_bracketed (plain : ∀ c ∈ first, c.isHexDigit = true) :
    upTo (· == ':') (trim (['[', ']'].contains ·) ('[' :: (first ++ ':' :: more))) = first := by
  have outside : ∀ d ∈ ['[', ']', ':'], d.isHexDigit = false := by decide
  have apart : ∀ c ∈ first, ∀ d ∈ ['[', ']', ':'], c ≠ d := by
    intro c member d among same
    rw [← same] at among
    have foreign := outside c among
    rw [plain c member] at foreign
    cases foreign
  have opened : ('[' :: (first ++ ':' :: more)).dropWhile (['[', ']'].contains ·) =
      first ++ ':' :: more := by
    rw [List.dropWhile_cons_of_pos (by decide), List.dropWhile_eq_self_iff]
    intro nonempty
    cases first with
    | nil => simp
    | cons c first =>
      have other := apart c List.mem_cons_self
      simp [other '[' (by decide), other ']' (by decide)]
  rw [trim, opened, rdropWhile_append_cons (by decide), upTo_eq_iff]
  refine ⟨_, rfl, ?_, by simp [Opens]⟩
  intro c member
  simpa using apart c member ':' (by decide)

/-- What is read where the host is looked for: of an IPv6 literal, only what stands before its
first colon. -/
def Host.read : Host → List Char
  | .name text _ => text
  | .ipv6 literal _ => upTo (· == ':') literal

theorem Host.read_spec (valid : isIpv6 literal = true) :
    ∃ more, literal = (Host.ipv6 literal valid).read ++ ':' :: more ∧
      ∀ c ∈ (Host.ipv6 literal valid).read, c.isHexDigit = true := by
  obtain ⟨first, more, split, hex, -⟩ := isIpv6_spec valid
  have same : (Host.ipv6 literal valid).read = first := by
    rw [Host.read, upTo_eq_iff]
    refine ⟨':' :: more, split, ?_, by simp [Opens]⟩
    intro c member
    rw [beq_eq_false_iff_ne]
    intro colon
    rw [colon] at member
    exact absurd (hex ':' member) (by decide)
  rw [same]
  exact ⟨more, split, hex⟩

theorem HostUrl.portText_opens (url : HostUrl) : Opens (· == ':') url.portText := by
  rw [HostUrl.portText]
  cases url.port with
  | none => simp [Opens]
  | some port => simp [Opens]

theorem authorityHost_text (url : HostUrl) : authorityHost url.text = url.host.read := by
  show upTo (· == ':') (trim (['[', ']'].contains ·)
    (afterLast '@' (upTo (['/', '?', '#'].contains ·) url.text))) = url.host.read
  rw [url.upTo_text, url.afterLast_authority, HostUrl.hostPort]
  cases host : url.host with
  | name text valid =>
    have free := (isHostName_spec valid).2
    have unbracketed : ∀ c ∈ text ++ url.portText, (['[', ']'].contains c) = false := by
      intro c member
      rw [Bool.eq_false_iff]
      intro bracket
      rw [List.contains_iff_mem] at bracket
      have delimits : isDelimiter c = true ∧ c ≠ ':' := by
        have known : ∀ c ∈ ['[', ']'], isDelimiter c = true ∧ c ≠ ':' := by decide
        exact known c bracket
      rcases List.mem_append.mp member with inside | later
      · rw [free c inside] at delimits
        exact absurd delimits.1 Bool.false_ne_true
      · exact url.portText_free delimits.1 delimits.2 later
    rw [Host.text, trim_of_kept unbracketed, Host.read, upTo_eq_iff]
    refine ⟨url.portText, rfl, ?_, url.portText_opens⟩
    intro c member
    rw [beq_eq_false_iff_ne]
    intro colon
    have delimits := free c member
    rw [colon] at delimits
    exact absurd delimits (by decide)
  | ipv6 literal valid =>
    obtain ⟨more, split, hex⟩ := Host.read_spec valid
    have shape : (Host.ipv6 literal valid).text ++ url.portText =
        '[' :: ((Host.ipv6 literal valid).read ++ ':' :: (more ++ ']' :: url.portText)) := by
      show '[' :: (literal ++ [']']) ++ url.portText = _
      conv_lhs => rw [split]
      simp
    rw [shape, trim_bracketed hex]

theorem cutWord_scheme {scheme : List Char} (plain : ':' ∉ scheme) (rest : List Char) :
    cutWord "://".toList (scheme ++ "://".toList ++ rest) = some (scheme, rest) :=
  cutWord_append plain rest

/-- The hosts that plaintext is allowed to. -/
def Host.IsLoopback (host : Host) : Prop :=
  host.text.map asciiLower = "localhost".toList ∨ host.text = "127.0.0.1".toList ∨
    host.text = "[::1]".toList

theorem asciiLower_hex (hex : c.isHexDigit = true) : asciiLower c ≠ 'l' := by
  have capitals : ∀ n < 91, (Char.ofNat n).isHexDigit = true → asciiLower (Char.ofNat n) ≠ 'l' := by
    decide
  by_cases upper : 'A' ≤ c ∧ c ≤ 'Z'
  · have high : c.toNat ≤ 90 := upper.2
    have known := capitals c.toNat (by omega)
    rw [Char.ofNat_toNat] at known
    exact known hex
  · rw [asciiLower, if_neg upper]
    intro same
    rw [same] at hex
    exact absurd hex (by decide)

/-- What is read of an IPv6 literal is never one of the names that are let pass. -/
theorem read_not_local (valid : isIpv6 literal = true) {text : List Char}
    (reads : (Host.ipv6 literal valid).read = text) :
    ¬ (eqIgnoreAsciiCase text "localhost".toList = true ∨ text = "127.0.0.1".toList ∨
      text = "::1".toList ∨ text = "[::1]".toList) := by
  obtain ⟨-, -, hex⟩ := Host.read_spec valid
  rw [reads] at hex
  rintro (name | dotted | colons | bracketed)
  · rw [eqIgnoreAsciiCase, beq_iff_eq] at name
    have member : 'l' ∈ text.map asciiLower := by
      rw [name]
      decide
    rw [List.mem_map] at member
    obtain ⟨c, inside, lower⟩ := member
    exact asciiLower_hex (hex c inside) lower
  · exact absurd (hex '.' (dotted ▸ by decide)) (by decide)
  · exact absurd (hex ':' (colons ▸ by decide)) (by decide)
  · exact absurd (hex '[' (bracketed ▸ by decide)) (by decide)

theorem validateHttpsUrl_http (url : HostUrl) :
    validateHttpsUrl ("http://".toList ++ url.text) = .ok () ↔
      eqIgnoreAsciiCase url.host.read "localhost".toList = true ∨
        url.host.read = "127.0.0.1".toList ∨ url.host.read = "::1".toList ∨
        url.host.read = "[::1]".toList := by
  have cut := @cutWord_scheme "http".toList (by decide) url.text
  have whole : "http://".toList ++ url.text = "http".toList ++ "://".toList ++ url.text := rfl
  rw [whole, validateHttpsUrl, cut]
  show (if eqIgnoreAsciiCase "http".toList "https".toList = true then _ else _) = _ ↔ _
  rw [if_neg (by decide), if_neg (by decide), authorityHost_text]
  show (if _ then _ else _) = _ ↔ _
  split
  · rename_i allowed
    exact iff_of_true rfl allowed
  · rename_i refused
    exact iff_of_false (by simp) refused

/-- Plaintext is let pass to exactly the loopback hosts but `[::1]`. -/
theorem validateHttpsUrl_exact (url : HostUrl) :
    (validateHttpsUrl ("http://".toList ++ url.text) = .ok () ↔ url.host.IsLoopback) ↔
      url.host.text ≠ "[::1]".toList := by
  rw [validateHttpsUrl_http, Host.IsLoopback]
  cases host : url.host with
  | name text valid =>
    have plain : '[' ∉ text ∧ ':' ∉ text := by
      have free := (isHostName_spec valid).2
      exact ⟨fun member => absurd (free '[' member) (by decide),
        fun member => absurd (free ':' member) (by decide)⟩
    have unbracketed : text ≠ "[::1]".toList := by
      intro same
      exact plain.1 (same ▸ by decide)
    have uncoloned : text ≠ "::1".toList := by
      intro same
      exact plain.2 (same ▸ by decide)
    simp only [Host.read, Host.text, unbracketed, uncoloned, or_false, ne_eq, not_false_eq_true,
      iff_true, eqIgnoreAsciiCase, beq_iff_eq]
    rfl
  | ipv6 literal valid =>
    have refused := read_not_local valid rfl
    have named : ¬ (Host.ipv6 literal valid).text.map asciiLower = "localhost".toList := by
      intro same
      exact absurd (List.cons.inj same).1 (by decide)
    have dotted : ¬ (Host.ipv6 literal valid).text = "127.0.0.1".toList := by
      intro same
      exact absurd (List.cons.inj same).1 (by decide)
    simp only [refused, named, dotted, false_or, false_iff, ne_eq]

end DddCqrsEs
