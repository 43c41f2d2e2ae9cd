import DddCqrsEs.RespReader
import DddCqrsEs.UrlHosts

/- The addresses of Redis servers, and the URLs they are read from. -/
namespace DddCqrsEs

open Cuts

structure RedisAddress where
  host : List Char
  port : Nat
  username : Option (List Char)
  password : Option (List Char)
  db : Option Nat
  tls : Bool

namespace RedisAddress

def isLoopback (address : RedisAddress) : Bool :=
  address.host == "localhost".toList || address.host == "127.0.0.1".toList ||
    address.host == "::1".toList || address.host == "[::1]".toList

def parseScheme (url : List Char) : Option (Bool × List Char) :=
  match strip "rediss://".toList url with
  | some rest => some (true, rest)
  | none => (strip "redis://".toList url).map (fun rest => (false, rest))

def parseNumber (limit : Nat) (what : String) (text : List Char) : Except RedisClientError Nat :=
  match parseUnsigned limit (String.ofList text) with
  | .ok number => .ok number
  | .error error =>
    .error (.invalidUrl ("invalid " ++ what ++ " `" ++ String.ofList text ++ "`: " ++ error))

def parseHostPort (hostPort : List Char) : Except RedisClientError (List Char × Nat) :=
  if hostPort = [] then .error (.invalidUrl "host is required")
  else
    match cutLast ':' hostPort with
    | some (host, port) => (parseNumber (2 ^ 16 - 1) "port" port).map (fun port => (host, port))
    | none => .ok (hostPort, 6379)

/-- An empty name or password counts as absent; without a colon there is only a password. -/
def parseAuth : Option (List Char) → Option (List Char) × Option (List Char)
  | none => (none, none)
  | some auth =>
    let (username, password) := (cutFirst ':' auth).getD ([], auth)
    (if username = [] then none else some username,
      if password = [] then none else some password)

def parseDatabase (path : List Char) : Except RedisClientError (Option Nat) :=
  if path = [] then .ok none else (parseNumber (2 ^ 32 - 1) "database" path).map some

def parse (url : List Char) : Except RedisClientError RedisAddress :=
  match parseScheme url with
  | none => .error (.invalidUrl "only redis:// and rediss:// URLs are supported")
  | some (tls, rest) => do
      let (authority, path) := (cutFirst '/' rest).getD (rest, [])
      let (auth, hostPort) :=
        match cutLast '@' authority with
        | some (auth, hostPort) => (some auth, hostPort)
        | none => (none, authority)
      let (host, port) ← parseHostPort hostPort
      let (username, password) := parseAuth auth
      let db ← parseDatabase path
      return { host, port, username, password, db, tls }

end RedisAddress

/-- The address that `open_reader` connects to: plaintext goes to a remote host only if the
client allows it. -/
def openReader (allowInsecureRemote : Bool) (url : List Char) :
    Except RedisClientError RedisAddress := do
  let address ← RedisAddress.parse url
  if ¬ address.tls ∧ ¬ address.isLoopback ∧ ¬ allowInsecureRemote then
    .error (.invalidUrl ("plain redis:// to `" ++ String.ofList address.host ++
      "` requires with_allow_insecure_remote(true) or use rediss:// with the wasi-redis-tls " ++
      "feature"))
  else return address

structure RedisUsername where
  text : List Char
  present : text ≠ []
  plain : ':' ∉ text ∧ '/' ∉ text

structure RedisPassword where
  text : List Char
  present : text ≠ []
  plain : '/' ∉ text

/-- The components of a `redis://` or `rediss://` URL. -/
structure RedisUrl where
  tls : Bool
  username : Option RedisUsername
  password : Option RedisPassword
  host : Host
  port : Option (Fin (2 ^ 16))
  db : Option (Fin (2 ^ 32))

namespace RedisUrl

def scheme (url : RedisUrl) : List Char :=
  if url.tls then "rediss://".toList else "redis://".toList

/-- The name and the password around a colon, where there is either. -/
def auth (url : RedisUrl) : Option (List Char) :=
  if url.username.isSome || url.password.isSome then
    some (url.username.elim [] RedisUsername.text ++
      ':' :: url.password.elim [] RedisPassword.text)
  else none

def hostPort (url : RedisUrl) : List Char :=
  url.host.text ++ url.port.elim [] (fun port => ':' :: Nat.toDigits 10 port)

def authority (url : RedisUrl) : List Char :=
  url.auth.elim [] (fun auth => auth ++ ['@']) ++ url.hostPort

def text (url : RedisUrl) : List Char :=
  url.scheme ++ (url.authority ++ url.db.elim [] (fun db => '/' :: Nat.toDigits 10 db))

/-- The components as the client keeps them. -/
def address (url : RedisUrl) : RedisAddress where
  host := url.host.text
  port := url.port.elim 6379 Fin.val
  username := url.username.map RedisUsername.text
  password := url.password.map RedisPassword.text
  db := url.db.map Fin.val
  tls := url.tls

/-- A port is written, or none is needed to tell where the host ends. -/
def Settled (url : RedisUrl) : Prop :=
  url.port.isSome ∨ ∃ name valid, url.host = .name name valid

end RedisUrl

namespace RedisAddress

theorem parseScheme_redis (rest : List Char) :
    parseScheme ("redis://".toList ++ rest) = some (false, rest) := by
  have other : strip "rediss://".toList ("redis://".toList ++ rest) = none := by
    rw [strip, if_neg]
    intro starts
    rw [List.isPrefixOf_iff_prefix] at starts
    have shorter : "redis://".toList <+: "rediss://".toList :=
      List.prefix_of_prefix_length_le (List.prefix_append _ rest) starts (by decide)
    exact absurd shorter (by decide)
  rw [parseScheme, other, strip_eq_some.mpr rfl]
  rfl

theorem parseScheme_rediss (rest : List Char) :
    parseScheme ("rediss://".toList ++ rest) = some (true, rest) := by
  rw [parseScheme, strip_eq_some.mpr rfl]

variable {url : List Char} {limit number : Nat}

theorem parseScheme_eq_some {rest : List Char} {tls : Bool} :
    parseScheme url = some (tls, rest) ↔
      url = (if tls then "rediss://".toList else "redis://".toList) ++ rest := by
  constructor
  · intro read
    rw [parseScheme] at read
    split at read
    · rename_i found
      injection read with read
      injection read with secure same
      subst secure same
      exact strip_eq_some.mp found
    · rw [Option.map_eq_some_iff] at read
      obtain ⟨text, found, same⟩ := read
      injection same with secure same
      subst secure same
      exact strip_eq_some.mp found
  · intro whole
    rw [whole]
    cases tls with
    | true => exact parseScheme_rediss rest
    | false => exact parseScheme_redis rest

/-- The decimal texts that are read as a number of at most the limit. -/
def IsNumeral (limit : Nat) (text : List Char) : Prop :=
  ∃ number, Decimal.unsigned (Decimal.withoutPlus text) = some number ∧ number ≤ limit

theorem parseNumber_iff {what : String} {text : List Char} :
    parseNumber limit what text = .ok number ↔
      Decimal.unsigned (Decimal.withoutPlus text) = some number ∧ number ≤ limit := by
  have read := @parseUnsigned_iff limit number (String.ofList text)
  rw [String.toList_ofList] at read
  rw [← read, parseNumber]
  cases parseUnsigned limit (String.ofList text) with
  | ok value => simp
  | error error => exact iff_of_false (by simp) (by simp)

theorem parseNumber_toDigits (within : number ≤ limit) (what : String) :
    parseNumber limit what (Nat.toDigits 10 number) = .ok number := by
  rw [parseNumber_iff, Decimal.withoutPlus_toDigits, Decimal.unsigned_toDigits]
  exact ⟨rfl, within⟩

theorem parseNumber_isOk {what : String} {text : List Char} :
    (∃ number, parseNumber limit what text = .ok number) ↔ IsNumeral limit text := by
  simp only [parseNumber_iff, IsNumeral]

theorem toDigits_free {d : Char} (foreign : d.isDigit = false) : d ∉ Nat.toDigits 10 number := by
  intro member
  have digit := List.all_eq_true.mp (Decimal.toDigits_all number) d member
  rw [foreign] at digit
  cases digit

theorem parseDatabase_written (db : Option (Fin (2 ^ 32))) :
    parseDatabase (db.elim [] (fun db => Nat.toDigits 10 db)) = .ok (db.map Fin.val) := by
  cases db with
  | none => rfl
  | some db =>
    have within : db.val ≤ 2 ^ 32 - 1 := by
      have bound := db.isLt
      omega
    show parseDatabase (Nat.toDigits 10 db) = _
    rw [parseDatabase, if_neg Nat.toDigits_ne_nil, parseNumber_toDigits within]
    rfl

theorem parseAuth_written (url : RedisUrl) :
    parseAuth url.auth =
      (url.username.map RedisUsername.text, url.password.map RedisPassword.text) := by
  have plain : ':' ∉ url.username.elim [] RedisUsername.text := by
    cases url.username with
    | none => exact List.not_mem_nil
    | some username => exact username.plain.1
  by_cases either : url.username.isSome || url.password.isSome
  · rw [RedisUrl.auth, if_pos either, parseAuth, cutFirst_append plain]
    apply Prod.ext
    · cases url.username with
      | none => rfl
      | some username => exact if_neg username.present
    · cases url.password with
      | none => rfl
      | some password => exact if_neg password.present
  · rw [RedisUrl.auth, if_neg either, parseAuth]
    rw [Bool.not_eq_true, Bool.or_eq_false_iff, Option.isSome_eq_false_iff,
      Option.isSome_eq_false_iff, Option.isNone_iff_eq_none, Option.isNone_iff_eq_none] at either
    rw [either.1, either.2]
    rfl

theorem hostText_ne_nil (host : Host) : host.text ≠ [] := by
  cases host with
  | name text valid => exact (isHostName_spec valid).1
  | ipv6 literal valid => exact List.cons_ne_nil _ _

/-- A host with a port is read back, whatever it is; without one, a name is. -/
theorem parseHostPort_written (url : RedisUrl)
    (settled : url.Settled) :
    parseHostPort url.hostPort = .ok (url.host.text, url.port.elim 6379 Fin.val) := by
  have present : url.hostPort ≠ [] := by
    rw [RedisUrl.hostPort]
    exact List.append_ne_nil_of_left_ne_nil (hostText_ne_nil url.host) _
  rw [parseHostPort, if_neg present, RedisUrl.hostPort]
  cases port : url.port with
  | some number =>
    have within : number.val ≤ 2 ^ 16 - 1 := by
      have bound := number.isLt
      omega
    have digits : ':' ∉ Nat.toDigits 10 number := toDigits_free (by decide)
    show (match cutLast ':' (url.host.text ++ ':' :: Nat.toDigits 10 number) with
      | some (host, port) => _
      | none => _) = _
    rw [cutLast_append digits]
    simp only [parseNumber_toDigits within]
    rfl
  | none =>
    obtain ⟨name, valid, host⟩ := settled.resolve_left (by rw [port]; simp)
    have whole : cutLast ':' (url.host.text ++ []) = none := by
      rw [List.append_nil, cutLast_eq_none, host]
      intro colon
      exact absurd ((isHostName_spec valid).2 ':' colon) (by decide)
    show (match cutLast ':' (url.host.text ++ []) with
      | some (host, port) => _
      | none => _) = _
    rw [whole]
    show Except.ok (url.host.text ++ [], 6379) = _
    rw [List.append_nil]
    rfl

theorem hostPort_free (url : RedisUrl) {d : Char} (delimits : isDelimiter d = true)
    (other : d ≠ ':' ∧ d ≠ '[' ∧ d ≠ ']') (foreign : d.isDigit = false) : d ∉ url.hostPort := by
  rw [RedisUrl.hostPort, List.mem_append, not_or]
  refine ⟨url.host.free delimits other, ?_⟩
  cases url.port with
  | none => exact List.not_mem_nil
  | some number =>
    show d ∉ ':' :: Nat.toDigits 10 number
    rw [List.mem_cons, not_or]
    exact ⟨other.1, toDigits_free foreign⟩

theorem slash_not_mem_authority (url : RedisUrl) : '/' ∉ url.authority := by
  have hostPort : '/' ∉ url.hostPort := hostPort_free url (by decide) (by decide) (by decide)
  rw [RedisUrl.authority, RedisUrl.auth]
  cases url.username with
  | none =>
    cases url.password with
    | none => simpa using hostPort
    | some password => simp [hostPort, password.plain]
  | some username =>
    cases url.password with
    | none => simp [hostPort, username.plain]
    | some password => simp [hostPort, username.plain, password.plain]

/-- What the authority and the path are cut into. -/
theorem cutFirst_slash (url : RedisUrl) :
    (cutFirst '/' (url.authority ++ url.db.elim [] (fun db => '/' :: Nat.toDigits 10 db))).getD
        (url.authority ++ url.db.elim [] (fun db => '/' :: Nat.toDigits 10 db), []) =
      (url.authority, url.db.elim [] (fun db => Nat.toDigits 10 db)) := by
  have free := slash_not_mem_authority url
  cases url.db with
  | none =>
    show (cutFirst '/' (url.authority ++ [])).getD (url.authority ++ [], []) = (url.authority, [])
    rw [List.append_nil, cutFirst_eq_none.mpr free]
    rfl
  | some db =>
    show (cutFirst '/' (url.authority ++ '/' :: Nat.toDigits 10 db)).getD _ = _
    rw [cutFirst_append free]
    rfl

theorem cutLast_at (url : RedisUrl) :
    (match cutLast '@' url.authority with
      | some (auth, hostPort) => (some auth, hostPort)
      | none => (none, url.authority)) = (url.auth, url.hostPort) := by
  have free : '@' ∉ url.hostPort := hostPort_free url (by decide) (by decide) (by decide)
  rw [RedisUrl.authority]
  cases url.auth with
  | none =>
    show (match cutLast '@' url.hostPort with
      | some (auth, hostPort) => (some auth, hostPort)
      | none => (none, url.hostPort)) = _
    rw [cutLast_eq_none.mpr free]
  | some auth =>
    have split : auth ++ ['@'] ++ url.hostPort = auth ++ '@' :: url.hostPort := by simp
    show (match cutLast '@' (auth ++ ['@'] ++ url.hostPort) with
      | some (auth, hostPort) => (some auth, hostPort)
      | none => (none, auth ++ ['@'] ++ url.hostPort)) = _
    rw [split, cutLast_append free]

theorem parse_text (url : RedisUrl)
    (settled : url.Settled) :
    parse url.text = .ok url.address := by
  have scheme := parseScheme_eq_some.mpr (rfl : url.text = url.scheme ++ _)
  rw [parse, scheme]
  simp only [cutFirst_slash, cutLast_at, parseHostPort_written url settled, parseAuth_written,
    parseDatabase_written]
  rfl

/-- The port and the path are numbers, where they are present, and a host is. -/
def Readable (url : List Char) : Prop :=
  ∃ (tls : Bool) (rest : List Char),
    url = (if tls then "rediss://".toList else "redis://".toList) ++ rest ∧
    let authority := ((cutFirst '/' rest).getD (rest, [])).1
    let path := ((cutFirst '/' rest).getD (rest, [])).2
    let hostPort := afterLast '@' authority
    hostPort ≠ [] ∧ (':' ∈ hostPort → IsNumeral (2 ^ 16 - 1) (afterLast ':' hostPort)) ∧
      (path ≠ [] → IsNumeral (2 ^ 32 - 1) path)

theorem map_isOk {ε α β : Type} {first : Except ε α} {f : α → β} :
    (∃ value, first.map f = .ok value) ↔ ∃ value, first = .ok value := by
  cases first with
  | ok value => exact iff_of_true ⟨f value, rfl⟩ ⟨value, rfl⟩
  | error error => exact iff_of_false (by simp [Except.map]) (by simp)

theorem parseHostPort_isOk {hostPort : List Char} :
    (∃ parts, parseHostPort hostPort = .ok parts) ↔
      hostPort ≠ [] ∧ (':' ∈ hostPort → IsNumeral (2 ^ 16 - 1) (afterLast ':' hostPort)) := by
  rw [parseHostPort]
  by_cases empty : hostPort = []
  · rw [if_pos empty]
    exact iff_of_false (by simp) (fun both => both.1 empty)
  · rw [if_neg empty, afterLast]
    cases cut : cutLast ':' hostPort with
    | none => exact iff_of_true ⟨_, rfl⟩ ⟨empty, fun colon => absurd colon (cutLast_eq_none.mp cut)⟩
    | some parts =>
      have colon : ':' ∈ hostPort := by
        rw [(cutLast_eq_some.mp cut).1]
        simp
      show (∃ parts, Except.map _ _ = Except.ok parts) ↔ _
      rw [map_isOk, parseNumber_isOk]
      exact ⟨fun numeral => ⟨empty, fun _ => numeral⟩, fun both => both.2 colon⟩

theorem parseDatabase_isOk {path : List Char} :
    (∃ db, parseDatabase path = .ok db) ↔ (path ≠ [] → IsNumeral (2 ^ 32 - 1) path) := by
  rw [parseDatabase]
  by_cases empty : path = []
  · rw [if_pos empty]
    exact iff_of_true ⟨_, rfl⟩ (fun present => absurd empty present)
  · rw [if_neg empty, map_isOk, parseNumber_isOk]
    exact ⟨fun numeral _ => numeral, fun needed => needed empty⟩

/-- Nothing else makes the client refuse a URL. -/
theorem parse_isOk : (∃ address, parse url = .ok address) ↔ Readable url := by
  rw [parse, Readable]
  cases read : parseScheme url with
  | none =>
    refine iff_of_false (by simp) ?_
    rintro ⟨tls, rest, whole, -⟩
    rw [parseScheme_eq_some.mpr whole] at read
    cases read
  | some parts =>
    obtain ⟨tls, rest⟩ := parts
    have whole := parseScheme_eq_some.mp read
    have only : ∀ (secure : Bool) (text : List Char),
        url = (if secure then "rediss://".toList else "redis://".toList) ++ text →
          text = rest := by
      intro secure text same
      rw [parseScheme_eq_some.mpr same] at read
      exact congrArg Prod.snd (Option.some.inj read)
    have after : ∀ authority : List Char,
        (match cutLast '@' authority with
          | some (auth, hostPort) => (some auth, hostPort)
          | none => (none, authority)).2 = afterLast '@' authority := by
      intro authority
      rw [afterLast]
      cases cutLast '@' authority <;> rfl
    trans (∃ parts, parseHostPort (afterLast '@' ((cutFirst '/' rest).getD (rest, [])).1) =
        .ok parts) ∧ ∃ db, parseDatabase ((cutFirst '/' rest).getD (rest, [])).2 = .ok db
    · simp only [after]
      cases parseHostPort (afterLast '@' ((cutFirst '/' rest).getD (rest, [])).1) with
      | error error => exact iff_of_false (by simp [bind, Except.bind]) (by simp)
      | ok parts =>
        cases parseDatabase ((cutFirst '/' rest).getD (rest, [])).2 with
        | error error => exact iff_of_false (by simp [bind, Except.bind]) (by simp)
        | ok db => exact iff_of_true ⟨_, rfl⟩ ⟨⟨_, rfl⟩, ⟨_, rfl⟩⟩
    · rw [parseHostPort_isOk, parseDatabase_isOk]
      constructor
      · exact fun both => ⟨tls, rest, whole, both.1.1, both.1.2, both.2⟩
      · rintro ⟨secure, text, same, present, port, path⟩
        rw [only secure text same] at present port path
        exact ⟨⟨present, port⟩, path⟩

theorem isLoopback_address (url : RedisUrl) :
    url.address.isLoopback = true ↔
      url.host.text ∈ ["localhost".toList, "127.0.0.1".toList, "[::1]".toList] := by
  have bare : url.host.text ≠ "::1".toList := by
    cases url.host with
    | name text valid =>
      intro same
      have colon : ':' ∈ text := by
        rw [show text = "::1".toList from same]
        decide
      exact absurd ((isHostName_spec valid).2 ':' colon) (by decide)
    | ipv6 literal valid =>
      intro same
      exact absurd (List.cons.inj same).1 (by decide)
  show (url.host.text == _ || url.host.text == _ || url.host.text == _ || url.host.text == _) =
    true ↔ _
  simp only [Bool.or_eq_true, beq_iff_eq, bare, or_false, or_assoc, List.mem_cons,
    List.not_mem_nil]

/-- Parsing undoes writing wherever a port is written or the host is a name, the loopback hosts
are those on the client's list, and the other URLs are refused for their scheme, for a missing
host or for a text that is no number. -/
theorem parse_exact (url : RedisUrl) (settled : url.Settled) :
    parse url.text = .ok url.address ∧
      (url.address.isLoopback = true ↔
        url.host.text ∈ ["localhost".toList, "127.0.0.1".toList, "[::1]".toList]) ∧
      ∀ other : List Char, (∀ written : RedisUrl, written.text = other → written.Settled) →
        ((∃ address, parse other = .ok address) ↔ Readable other) :=
  ⟨parse_text url settled, isLoopback_address url, fun _ _ => parse_isOk⟩

theorem parse_exact_ipv6 :
    let url : RedisUrl :=
      { tls := true
        username := some ⟨"app".toList, by decide, by decide⟩
        password := some ⟨"p@ss:word".toList, by decide, by decide⟩
        host := .ipv6 "2001:db8::1".toList (by decide)
        port := some 6380
        db := some 2 }
    url.text = "rediss://app:p@ss:word@[2001:db8::1]:6380/2".toList ∧
      parse url.text = .ok url.address ∧ url.address.isLoopback = false := by
  intro url
  have facts := parse_exact url (Or.inl rfl)
  refine ⟨by decide, facts.1, ?_⟩
  rw [Bool.eq_false_iff]
  intro loopback
  exact absurd (facts.2.1.mp loopback) (by decide)

/-- An IPv6 literal without a port is refused, an empty path passes for no database, and only one
address of the loopback network is on the list. -/
theorem portlessLiteral_refused :
    (∃ url : RedisUrl, url.text = "redis://[::1]/0".toList ∧
      ∀ address, parse url.text ≠ .ok address) ∧
    ((∀ url : RedisUrl, url.text ≠ "redis://cache/".toList) ∧
      ∃ address, parse "redis://cache/".toList = .ok address) ∧
    ∃ address, parse "redis://127.0.0.2".toList = .ok address ∧ address.isLoopback = false := by
  refine ⟨⟨⟨false, none, none, .ipv6 "::1".toList (by decide), none, some 0⟩, by decide, ?_⟩,
    ⟨?_, ⟨"cache".toList, 6379, none, none, none, false⟩, by rfl⟩,
    ⟨"127.0.0.2".toList, 6379, none, none, none, false⟩, by rfl, by decide⟩
  · intro address
    have refused : parse "redis://[::1]/0".toList = .error
        (.invalidUrl ("invalid " ++ "port" ++ " `" ++ String.ofList "1]".toList ++ "`: " ++
          "invalid digit found in string")) := by rfl
    intro accepted
    have whole : parse "redis://[::1]/0".toList = .ok address := accepted
    rw [refused] at whole
    cases whole
  · intro url same
    have scheme := parseScheme_eq_some.mpr (rfl : url.text = url.scheme ++ _)
    rw [same] at scheme
    have rest : "cache/".toList =
        url.authority ++ url.db.elim [] (fun db => '/' :: Nat.toDigits 10 db) :=
      congrArg Prod.snd (Option.some.inj scheme)
    have cut := cutFirst_slash url
    rw [← rest] at cut
    have path : [] = url.db.elim [] (fun db => Nat.toDigits 10 db) := congrArg Prod.snd cut
    cases db : url.db with
    | none =>
      rw [db] at rest
      have slash : '/' ∈ url.authority ++ [] := by
        rw [← show "cache/".toList = url.authority ++ [] from rest]
        decide
      rw [List.append_nil] at slash
      exact slash_not_mem_authority url slash
    | some number =>
      rw [db] at path
      exact Nat.toDigits_ne_nil path.symm

end RedisAddress

/-- A plaintext URL of a host that is not on the list is opened only if the client allows it. -/
theorem openReader_text (allowInsecureRemote : Bool) (url : RedisUrl) (settled : url.Settled) :
    openReader allowInsecureRemote url.text = .ok url.address ↔
      url.tls = true ∨ url.address.isLoopback = true ∨ allowInsecureRemote = true := by
  rw [openReader, RedisAddress.parse_text url settled]
  show (if ¬ url.tls = true ∧ ¬ url.address.isLoopback = true ∧ ¬ allowInsecureRemote = true then
    _ else Except.ok url.address) = _ ↔ _
  split
  · rename_i refused
    exact iff_of_false (by simp) (by simp [refused])
  · rename_i allowed
    refine iff_of_true rfl ?_
    by_contra neither
    simp only [not_or] at neither
    exact allowed neither

theorem openReader_text_remote :
    let url : RedisUrl :=
      ⟨false, none, none, .ipv6 "2001:db8::1".toList (by decide), some 6380, none⟩
    openReader false url.text ≠ .ok url.address := by
  intro url opened
  exact absurd ((openReader_text false url (Or.inl rfl)).mp opened) (by decide)

end DddCqrsEs
