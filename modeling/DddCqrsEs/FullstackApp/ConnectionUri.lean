import DddCqrsEs.Ascii
import DddCqrsEs.Decimal
import DddCqrsEs.FullstackApp.ConnectorCredentials
import DddCqrsEs.FullstackApp.Egress
import DddCqrsEs.UriParts

/- What a dashboard connection URI says when it is split by the rules of RFC 3986, and when that is
what was configured. -/
namespace DddCqrsEs.FullstackApp

open Cuts Uri

structure ConnectionTexts where
  user : Text
  password : Text
  host : Text
  port : Text
  database : Text
  parameters : List Text

/-- The parts that a client takes from a URI, still encoded. -/
def splitConnection (url : Text) : Option ConnectionTexts :=
  match parts url with
  | some ⟨scheme, text, '/' :: database, some query, none⟩ =>
    match decide (scheme = "postgres".toList), authority text with
    | true, some ⟨some userinfo, host, some port⟩ =>
      (cutFirst ':' userinfo).map fun cut =>
        ⟨cut.1, cut.2, host, port, database, query.splitOn '&'⟩
    | _, _ => none
  | _ => none

/-- What a connection URI says, in bytes. -/
structure Connection where
  user : List UInt8
  password : List UInt8
  host : List UInt8
  port : Nat
  database : List UInt8
  parameters : List (List UInt8 × List UInt8)
  deriving DecidableEq

def readParameters : List Text → Option (List (List UInt8 × List UInt8))
  | [] => some []
  | parameter :: parameters =>
    match cutFirst '=' parameter with
    | some (name, value) =>
      match percentDecode name, percentDecode value, readParameters parameters with
      | some name, some value, some rest => some ((name, value) :: rest)
      | _, _, _ => none
    | none => none

namespace ConnectionTexts

def read (texts : ConnectionTexts) : Option Connection :=
  match percentDecode texts.user, percentDecode texts.password, percentDecode texts.host with
  | some user, some password, some host =>
    match Decimal.unsigned texts.port, percentDecode texts.database,
        readParameters texts.parameters with
    | some port, some database, some parameters =>
      some ⟨user, password, host, port, database, parameters⟩
    | _, _, _ => none
  | _, _, _ => none

end ConnectionTexts

def readConnection (url : Text) : Option Connection :=
  (splitConnection url).bind ConnectionTexts.read

def bytes (text : String) : List UInt8 := Utf8.encode text.toList

namespace PostgresConfig

def parameters (config : PostgresConfig) : List (List UInt8 × List UInt8) :=
  [(bytes "sslmode", bytes config.sslMode.parameter),
    (bytes "options",
      bytes "-c default_transaction_read_only=on -c statement_timeout=30000")]

/-- What was configured. -/
def connection (config : PostgresConfig) (password : String) : Connection :=
  ⟨bytes config.user, bytes password, bytes config.host, config.port.toNat,
    bytes config.database, config.parameters⟩

/-- The host stands in the URI as it is, so it must have none of the characters that end or
change it there: nothing that ends the authority or the user information, no escape, and a colon
only in brackets around all of it. -/
def HostWhole (config : PostgresConfig) : Prop :=
  (∀ c ∈ config.host.toList, c ∉ ['?', '#', '@', '%']) ∧ HostText config.host.toList

/-- A space is encoded as a plus sign, which stands for itself. -/
def NoSpaces (config : PostgresConfig) (password : String) : Prop :=
  ' ' ∉ config.user.toList ∧ ' ' ∉ password.toList ∧ ' ' ∉ config.database.toList

end PostgresConfig

def plusForSpace (byte : UInt8) : UInt8 := if byte = 32 then 43 else byte

/-- What cuts the parts before the query. -/
def delimiters : List Char := [':', '@', '/', '?', '#']

theorem hexDigit_decoded : ∀ value < 16,
    JsonString.hexValue (hexDigit value) = some value ∧ hexDigit value ∉ delimiters := by
  decide

variable {c : Char} {host : Text}

theorem urlencodeByte_free {byte : UInt8} (member : c ∈ urlencodeByte byte) : c ∉ delimiters := by
  have small : byte.toNat < 256 := byte.toNat_lt
  rw [urlencodeByte] at member
  split_ifs at member with kept space
  · have reserved : ∀ d ∈ delimiters,
        (d.isAlphanum || d == '*' || d == '-' || d == '.' || d == '_') = false := by decide
    intro delimiter
    rw [List.mem_singleton] at member
    rw [← member, reserved c delimiter] at kept
    cases kept
  · rw [List.mem_singleton] at member
    rw [member]
    decide
  · rw [List.mem_cons, List.mem_cons, List.mem_singleton] at member
    rcases member with escape | high | low
    · rw [escape]
      decide
    · rw [high]
      exact (hexDigit_decoded _ (by omega)).2
    · rw [low]
      exact (hexDigit_decoded _ (by omega)).2

theorem char_toNat (byte : UInt8) : (Char.ofNat byte.toNat).toNat = byte.toNat := by
  have valid : byte.toNat.isValidChar := Or.inl (by have := byte.toNat_lt; omega)
  rw [Char.ofNat, dif_pos valid]
  rfl

/-- What is kept is one byte, and neither a space nor an escape. -/
theorem ascii_of_kept
    (kept : (c.isAlphanum || c == '*' || c == '-' || c == '.' || c == '_') = true) :
    c.toNat < 128 ∧ c ≠ ' ' ∧ c ≠ '%' := by
  refine ⟨?_, ?_, ?_⟩
  · simp only [Bool.or_eq_true, Ascii.isAlphanum_iff, beq_iff_eq] at kept
    rcases kept with (((letter | rfl) | rfl) | rfl) | rfl
    · omega
    all_goals decide
  · rintro rfl
    cases kept
  · rintro rfl
    cases kept

theorem percentDecode_urlencodeByte (byte : UInt8) (rest : Text) :
    percentDecode (urlencodeByte byte ++ rest) =
      (percentDecode rest).map (plusForSpace byte :: ·) := by
  have small : byte.toNat < 256 := byte.toNat_lt
  rw [urlencodeByte]
  split_ifs with kept space
  · obtain ⟨ascii, noSpace, noEscape⟩ := ascii_of_kept kept
    have value : (Char.ofNat byte.toNat).val.toNat = byte.toNat := char_toNat byte
    have other : byte ≠ 32 := by
      rintro rfl
      exact noSpace rfl
    have one : String.utf8EncodeChar (Char.ofNat byte.toNat) = [byte] := by
      rw [char_toNat] at ascii
      rw [String.utf8EncodeChar, value, if_pos (by omega), UInt8.ofNat_toNat]
    rw [List.singleton_append, percentDecode_cons noEscape, one, plusForSpace, if_neg other]
    rfl
  · rw [space, List.singleton_append, percentDecode_cons (by decide)]
    rfl
  · have high := (hexDigit_decoded (byte.toNat / 16) (by omega)).1
    have low := (hexDigit_decoded (byte.toNat % 16) (by omega)).1
    have whole : byte.toNat / 16 * 16 + byte.toNat % 16 = byte.toNat := by omega
    rw [plusForSpace, if_neg space, List.cons_append, List.cons_append, List.singleton_append,
      percentDecode_escape high low, whole, UInt8.ofNat_toNat]

theorem encoded_text (value : String) :
    (formUrlencodedEncode value).toList = (bytes value).flatMap urlencodeByte := by
  have whole : value.toUTF8 = value.toList.utf8Encode := String.utf8Encode_toList.symm
  rw [formUrlencodedEncode, String.toList_ofList, whole, List.utf8Encode, List.data_toByteArray]
  rfl

theorem encoded_free (value : String) (delimiter : c ∈ delimiters) :
    c ∉ (formUrlencodedEncode value).toList := by
  rw [encoded_text, List.mem_flatMap]
  rintro ⟨byte, -, member⟩
  exact urlencodeByte_free member delimiter

theorem percentDecode_encoded (value : String) :
    percentDecode (formUrlencodedEncode value).toList =
      some ((bytes value).map plusForSpace) := by
  rw [encoded_text]
  induction bytes value with
  | nil => rfl
  | cons byte rest ih =>
    rw [List.flatMap_cons, percentDecode_urlencodeByte, ih]
    rfl

theorem map_plusForSpace {text : List UInt8} : text.map plusForSpace = text ↔ 32 ∉ text := by
  have kept {byte : UInt8} : plusForSpace byte = byte ↔ ¬ 32 = byte := by
    rw [plusForSpace]
    split
    · rename_i space
      simp [space]
    · rename_i other
      simp [Ne.symm other]
  induction text with
  | nil => simp
  | cons byte text ih =>
    rw [List.map_cons, List.cons.injEq, List.mem_cons, not_or, kept]
    exact and_congr Iff.rfl ih

theorem space_mem_char : 32 ∈ String.utf8EncodeChar c ↔ c = ' ' := by
  constructor
  · intro member
    rcases Utf8.byte_of_char c 32 member with ascii | high
    · rw [← Char.ofNat_toNat c, ← ascii]
      rfl
    · exact absurd high (by decide)
  · rintro rfl
    decide

theorem space_mem_bytes {text : String} : 32 ∈ bytes text ↔ ' ' ∈ text.toList := by
  rw [bytes, Utf8.encode, List.mem_flatMap]
  constructor
  · rintro ⟨c, member, space⟩
    rwa [space_mem_char.mp space] at member
  · intro member
    exact ⟨' ', member, space_mem_char.mpr rfl⟩

namespace PostgresConfig

/-- What stands before the host. -/
def userinfo (config : PostgresConfig) (password : String) : Text :=
  (formUrlencodedEncode config.user).toList ++ ':' :: (formUrlencodedEncode password).toList

def hostPort (config : PostgresConfig) : Text :=
  config.host.toList ++ ':' :: Nat.toDigits 10 config.port.toNat

def options : Text :=
  "-c%20default_transaction_read_only%3Don%20-c%20statement_timeout%3D30000".toList

def query (config : PostgresConfig) : Text :=
  ("sslmode".toList ++ '=' :: config.sslMode.parameter.toList) ++
    '&' :: ("options".toList ++ '=' :: options)

/-- What stands behind the scheme and the two slashes. -/
def behindScheme (config : PostgresConfig) (password : String) : Text :=
  (config.userinfo password ++ '@' :: config.hostPort) ++
    ('/' :: (formUrlencodedEncode config.database).toList ++ '?' :: config.query)

end PostgresConfig

variable {config : PostgresConfig} {password url : String}

theorem url_text (built : buildPostgresConnectionUrl config password = .ok url) :
    url.toList = "postgres".toList ++ ':' :: '/' :: '/' :: config.behindScheme password := by
  by_cases missing : trim config.host = "" ∨ trim config.database = "" ∨ trim config.user = ""
  · rw [buildPostgresConnectionUrl, if_pos missing] at built
    cases built
  · rw [buildPostgresConnectionUrl, if_neg missing] at built
    have port : (toString config.port).toList = Nat.toDigits 10 config.port.toNat :=
      String.toList_ofList
    have scheme : "postgres://".toList = "postgres".toList ++ [':', '/', '/'] := rfl
    have mode : "?sslmode=".toList = '?' :: ("sslmode".toList ++ ['=']) := rfl
    have options :
      "&options=-c%20default_transaction_read_only%3Don%20-c%20statement_timeout%3D30000".toList =
        '&' :: ("options".toList ++ '=' :: PostgresConfig.options) := by
      decide +kernel
    have colon : ":".toList = [':'] := rfl
    have sign : "@".toList = ['@'] := rfl
    have slash : "/".toList = ['/'] := rfl
    have query : config.query = "sslmode".toList ++ '=' :: config.sslMode.parameter.toList ++
        '&' :: ("options".toList ++ '=' :: PostgresConfig.options) := rfl
    rw [← Except.ok.inj built]
    simp only [String.toList_append, port, scheme, mode, options, colon, sign, slash,
      PostgresConfig.behindScheme, PostgresConfig.userinfo, PostgresConfig.hostPort, query,
      List.append_assoc, List.cons_append, List.nil_append]

theorem userinfo_free (delimiter : c ∈ delimiters) (other : c ≠ ':') :
    c ∉ config.userinfo password := by
  rw [PostgresConfig.userinfo, List.mem_append, List.mem_cons, not_or, not_or]
  exact ⟨encoded_free _ delimiter, other, encoded_free _ delimiter⟩

theorem endsAuthority_iff : endsAuthority c = true ↔ c ∈ ['/', '?', '#'] := by
  simp [endsAuthority, or_assoc]

theorem mem_delimiters_of_ends (ends : endsAuthority c = true) : c ∈ delimiters ∧ c ≠ ':' := by
  rw [endsAuthority_iff] at ends
  revert c
  decide

theorem port_free (other : c.isDigit = false) (number : Nat) : c ∉ Nat.toDigits 10 number := by
  intro member
  have digit := List.all_eq_true.mp (Decimal.toDigits_all number) c member
  rw [digit] at other
  cases other

theorem readParameters_cons {name value : Text} {read : List UInt8} (first : '=' ∉ name)
    (second : '%' ∉ name) (decoded : percentDecode value = some read) (rest : List Text) :
    readParameters ((name ++ '=' :: value) :: rest) =
      (readParameters rest).map ((Utf8.encode name, read) :: ·) := by
  rw [readParameters, cutFirst_append first]
  simp only [percentDecode_plain second, decoded]
  cases readParameters rest <;> rfl

theorem mode_free (mode : PostgresSslMode) :
    '&' ∉ mode.parameter.toList ∧ '%' ∉ mode.parameter.toList ∧ '#' ∉ mode.parameter.toList := by
  cases mode with
  | disable => decide
  | prefer => decide
  | require => decide

theorem options_decoded : percentDecode PostgresConfig.options =
    some (bytes "-c default_transaction_read_only=on -c statement_timeout=30000") := by
  decide +kernel

theorem query_cut (config : PostgresConfig) : config.query.splitOn '&' =
    ["sslmode".toList ++ '=' :: config.sslMode.parameter.toList,
      "options".toList ++ '=' :: PostgresConfig.options] := by
  have first : '&' ∉ "sslmode".toList ++ '=' :: config.sslMode.parameter.toList := by
    rw [List.mem_append, List.mem_cons, not_or, not_or]
    exact ⟨by decide, by decide, (mode_free _).1⟩
  have second : '&' ∉ "options".toList ++ '=' :: PostgresConfig.options := by decide +kernel
  have cut := List.splitOn_append_cons_self_of_not_mem first
    ("options".toList ++ '=' :: PostgresConfig.options)
  rw [List.splitOn_eq_singleton second] at cut
  exact cut

theorem readParameters_query (config : PostgresConfig) :
    readParameters (config.query.splitOn '&') = some config.parameters := by
  have mode : percentDecode config.sslMode.parameter.toList = some (bytes config.sslMode.parameter) :=
    percentDecode_plain (mode_free _).2.1
  rw [query_cut, readParameters_cons (by decide) (by decide) mode,
    readParameters_cons (by decide) (by decide) options_decoded]
  rfl

theorem parts_url (built : buildPostgresConnectionUrl config password = .ok url) :
    parts url.toList = some (hierarchy "postgres".toList (config.behindScheme password)) := by
  rw [url_text built]
  exact parts_append (by decide) _

theorem query_free (config : PostgresConfig) : '#' ∉ config.query := by
  have first : '#' ∉ "sslmode".toList ++ '=' :: config.sslMode.parameter.toList := by
    rw [List.mem_append, List.mem_cons, not_or, not_or]
    exact ⟨by decide, by decide, (mode_free _).2.2⟩
  have second : '#' ∉ '&' :: ("options".toList ++ '=' :: PostgresConfig.options) := by
    decide +kernel
  exact fun member => (List.mem_append.mp member).elim first second

theorem splitConnection_whole (built : buildPostgresConnectionUrl config password = .ok url)
    (whole : config.HostWhole) (slash : '/' ∉ config.host.toList) :
    splitConnection url.toList = some ⟨(formUrlencodedEncode config.user).toList,
      (formUrlencodedEncode password).toList, config.host.toList,
      Nat.toDigits 10 config.port.toNat, (formUrlencodedEncode config.database).toList,
      config.query.splitOn '&'⟩ := by
  obtain ⟨plain, uncut⟩ := whole
  have inside : ∀ c ∈ config.userinfo password ++ '@' :: config.hostPort,
      endsAuthority c = false := by
    intro c member
    by_contra ends
    rw [Bool.not_eq_false] at ends
    obtain ⟨delimiter, noColon⟩ := mem_delimiters_of_ends ends
    rw [PostgresConfig.hostPort, List.mem_append, List.mem_cons, List.mem_append,
      List.mem_cons] at member
    rcases member with user | rfl | host | rfl | port
    · exact userinfo_free delimiter noColon user
    · cases ends
    · have apart := plain c host
      rw [endsAuthority_iff, List.mem_cons] at ends
      rcases ends with rfl | other
      · exact slash host
      · exact apart (List.mem_append_left ['@', '%'] other)
    · cases ends
    · have noDigit : ∀ d ∈ delimiters, d.isDigit = false := by decide
      exact port_free (noDigit c delimiter) _ port
  have authorityRead : authority (config.userinfo password ++ '@' :: config.hostPort) =
      some ⟨some (config.userinfo password), config.host.toList,
        some (Nat.toDigits 10 config.port.toNat)⟩ :=
    authority_append uncut (fun member => plain '@' member (by decide)) (Decimal.toDigits_all _)
  have userCut : cutFirst ':' (config.userinfo password) =
      some ((formUrlencodedEncode config.user).toList, (formUrlencodedEncode password).toList) :=
    cutFirst_append (encoded_free _ (by decide)) _
  rw [splitConnection, parts_url built, PostgresConfig.behindScheme,
    hierarchy_append inside (encoded_free _ (by decide)) (encoded_free _ (by decide))
      (query_free config)]
  simp only [decide_true, authorityRead, userCut]
  rfl

/-- What the URI says, where the host stays whole. -/
theorem readConnection_whole (built : buildPostgresConnectionUrl config password = .ok url)
    (whole : config.HostWhole) (slash : '/' ∉ config.host.toList) :
    readConnection url.toList = some ⟨(bytes config.user).map plusForSpace,
      (bytes password).map plusForSpace, bytes config.host, config.port.toNat,
      (bytes config.database).map plusForSpace, config.parameters⟩ := by
  have host : percentDecode config.host.toList = some (bytes config.host) :=
    percentDecode_plain (fun member => whole.1 '%' member (by decide))
  rw [readConnection, splitConnection_whole built whole slash, Option.bind_some,
    ConnectionTexts.read]
  simp only [percentDecode_encoded, host, Decimal.unsigned_toDigits, readParameters_query]

/-- The host that is read. -/
theorem splitConnection_host {texts : ConnectionTexts}
    (built : buildPostgresConnectionUrl config password = .ok url)
    (split : splitConnection url.toList = some texts) :
    texts.host <+: afterLast '@' (upTo endsAuthority config.hostPort) ∧ HostText texts.host := by
  have authorityText : (hierarchy "postgres".toList (config.behindScheme password)).authority =
      config.userinfo password ++ '@' :: upTo endsAuthority config.hostPort := by
    have user : ∀ c ∈ config.userinfo password ++ ['@'], endsAuthority c = false := by
      intro c member
      by_contra ends
      rw [Bool.not_eq_false] at ends
      obtain ⟨delimiter, noColon⟩ := mem_delimiters_of_ends ends
      rw [List.mem_append, List.mem_singleton] at member
      rcases member with inside | rfl
      · exact userinfo_free delimiter noColon inside
      · cases ends
    have slash : Opens endsAuthority
        ('/' :: (formUrlencodedEncode config.database).toList ++ '?' :: config.query) := by
      simp [Opens, endsAuthority]
    have cut : upTo endsAuthority (config.userinfo password ++ ['@'] ++ config.hostPort) = _ :=
      upTo_append user
    rw [hierarchy_authority, PostgresConfig.behindScheme, upTo_append_opens slash]
    simpa using cut
  rw [splitConnection, parts_url built] at split
  split at split
  · rename_i scheme text database query same
    rw [Option.some_inj] at same
    rw [same] at authorityText
    split at split
    · rename_i userinfo host port first read
      obtain ⟨opens, shape⟩ := authority_host read
      have cut : text = config.userinfo password ++ '@' :: upTo endsAuthority config.hostPort :=
        authorityText
      rw [cut, afterLast_append_cons] at opens
      obtain ⟨parts, -, same⟩ := Option.map_eq_some_iff.mp split
      rw [← same]
      exact ⟨opens, shape⟩
    · cases split
  · cases split

/-- A host is not cut inside the port. -/
theorem prefix_of_hostText {front : Text} {port : Nat} (shape : HostText host)
    (opens : host <+: front ++ ':' :: Nat.toDigits 10 port) : host <+: front := by
  obtain ⟨rest, whole⟩ := opens
  rcases List.append_eq_append_iff.mp whole with ⟨behind, inside, -⟩ | ⟨tail, longer, behind⟩
  · exact ⟨behind, inside.symm⟩
  · cases tail using List.reverseRecOn with
    | nil => exact ⟨[], by rw [longer, List.append_nil, List.append_nil]⟩
    | append_singleton tail last =>
      have lastMember : last ∈ ':' :: Nat.toDigits 10 port := by
        rw [behind]
        simp
      rcases shape with ⟨noColon, -⟩ | ⟨inside, closed, -⟩
      · refine absurd ?_ noColon
        have colon : ':' ∈ tail ++ [last] := by
          cases tail with
          | nil => exact (List.cons.inj behind).1 ▸ List.mem_singleton_self _
          | cons first tail => exact (List.cons.inj behind).1 ▸ List.mem_cons_self
        rw [longer]
        exact List.mem_append_right _ colon
      · rw [longer, ← List.append_assoc, ← List.cons_append] at closed
        have bracket := (List.append_inj' closed rfl).2
        injection bracket with bracket
        rw [bracket, List.mem_cons] at lastMember
        rcases lastMember with colon | digit
        · cases colon
        · exact absurd digit (port_free (by decide) _)

theorem host_inside (shape : HostText host)
    (opens : host <+: afterLast '@' (upTo endsAuthority config.hostPort)) :
    host <:+: config.host.toList := by
  by_cases stops : ∃ c ∈ config.host.toList, endsAuthority c = true
  · obtain ⟨c, member, stop⟩ := stops
    rw [PostgresConfig.hostPort, upTo_append_of_mem member stop] at opens
    exact (opens.isInfix.trans (afterLast_suffix _ _).isInfix).trans (upTo_starts _ _).isInfix
  · have free : ∀ c ∈ config.hostPort, endsAuthority c = false := by
      intro c member
      by_contra ends
      rw [Bool.not_eq_false] at ends
      rw [PostgresConfig.hostPort, List.mem_append, List.mem_cons] at member
      rcases member with host | rfl | port
      · exact stops ⟨c, host, ends⟩
      · cases ends
      · have noDigit : ∀ d ∈ delimiters, d.isDigit = false := by decide
        exact port_free (noDigit c (mem_delimiters_of_ends ends).1) _ port
    have whole : upTo endsAuthority config.hostPort = config.hostPort :=
      upTo_eq_iff.mpr ⟨[], by rw [List.append_nil], free, by simp [Opens]⟩
    have noSign : '@' ∉ ':' :: Nat.toDigits 10 config.port.toNat := by
      rw [List.mem_cons, not_or]
      exact ⟨by decide, port_free (by decide) _⟩
    rw [whole, PostgresConfig.hostPort, afterLast_append_free noSign] at opens
    exact (prefix_of_hostText shape opens).isInfix.trans (afterLast_suffix _ _).isInfix

/-- The host that is read has no more bytes than its text, so it is the configured one only
where nothing of that is cut off and nothing is decoded. -/
theorem hostWhole_of_read {connection : Connection}
    (built : buildPostgresConnectionUrl config password = .ok url)
    (read : readConnection url.toList = some connection)
    (same : connection.host = bytes config.host) : config.HostWhole := by
  obtain ⟨texts, split, decoded⟩ := Option.bind_eq_some_iff.mp read
  obtain ⟨opens, shape⟩ := splitConnection_host built split
  have hostRead : percentDecode texts.host = some (bytes config.host) := by
    rw [ConnectionTexts.read] at decoded
    split at decoded
    · rename_i hostRead
      split at decoded
      · cases decoded
        rw [hostRead, ← same]
      · cases decoded
    · cases decoded
  obtain ⟨shorter, even⟩ := percentDecode_length hostRead
  rw [bytes, Utf8.length_encode] at shorter even
  have whole := Utf8.eq_of_infix (host_inside shape opens) shorter
  rw [whole] at opens shape even
  refine ⟨fun c member cut => ?_, shape⟩
  have noStop := upTo_free endsAuthority config.hostPort c
    ((afterLast_suffix _ _).subset (opens.subset member))
  simp only [List.mem_cons, List.not_mem_nil, or_false] at cut
  rcases cut with rfl | rfl | rfl | rfl
  · cases noStop
  · cases noStop
  · exact separator_not_mem_afterLast '@' _ (opens.subset member)
  · exact even rfl member

/-- The guard accepts no host with a slash. -/
theorem slash_of_accepted {dns : Dns} (accepted : validatePostgresHost dns host false = .ok ()) :
    '/' ∉ host := by
  intro slash
  have outer : '/' ∈ Cuts.trim isWhitespace host := mem_trim_of_kept (by decide) slash
  have inner : '/' ∈ Cuts.trim isBracket (Cuts.trim isWhitespace (Cuts.trim isWhitespace host)) :=
    mem_trim_of_kept (by decide) (mem_trim_of_kept (by decide) outer)
  have refused : validateHost (Cuts.trim isWhitespace host) false =
      .error (.validation "host is invalid") := by
    rw [validateHost]
    simp only [if_neg (List.ne_nil_of_mem inner), if_pos (Or.inl inner)]
  rw [validatePostgresHost] at accepted
  simp only [refused] at accepted
  split_ifs at accepted

/-- A connection URI says what was configured just where the host is whole and no other part has
a space. -/
theorem readConnection_iff (dns : Dns) (config : PostgresConfig) (password url : String)
    (accepted : validatePostgresHost dns config.host.toList false = .ok ())
    (built : buildPostgresConnectionUrl config password = .ok url) :
    readConnection url.toList = some (config.connection password) ↔
      config.HostWhole ∧ config.NoSpaces password := by
  have slash := slash_of_accepted accepted
  have spaces : config.NoSpaces password ↔ (bytes config.user).map plusForSpace = bytes config.user ∧
      (bytes password).map plusForSpace = bytes password ∧
      (bytes config.database).map plusForSpace = bytes config.database := by
    rw [map_plusForSpace, map_plusForSpace, map_plusForSpace, space_mem_bytes, space_mem_bytes,
      space_mem_bytes]
    exact Iff.rfl
  constructor
  · intro read
    have whole := hostWhole_of_read built read rfl
    rw [readConnection_whole built whole slash, Option.some_inj] at read
    injection read with user password host port database
    exact ⟨whole, spaces.mpr ⟨user, password, database⟩⟩
  · intro both
    obtain ⟨user, password, database⟩ := spaces.mp both.2
    rw [readConnection_whole built both.1 slash, user, password, database]
    rfl

theorem buildPostgresConnectionUrl_ok (config : PostgresConfig) (password : String)
    (given : ¬ (trim config.host = "" ∨ trim config.database = "" ∨ trim config.user = "")) :
    ∃ url, buildPostgresConnectionUrl config password = .ok url := by
  rw [buildPostgresConnectionUrl, if_neg given]
  exact ⟨_, rfl⟩

theorem readConnection_iff_password : ∃ url,
    buildPostgresConnectionUrl ⟨"db.example", 5432, "shop", "reader", "s1", .require⟩ "p@ss" =
        .ok url ∧
      readConnection url.toList = some
        (PostgresConfig.connection ⟨"db.example", 5432, "shop", "reader", "s1", .require⟩
          "p@ss") := by
  obtain ⟨url, built⟩ := buildPostgresConnectionUrl_ok
    ⟨"db.example", 5432, "shop", "reader", "s1", .require⟩ "p@ss" (by decide)
  refine ⟨url, built, (readConnection_iff none _ _ _ (by decide) built).mpr ⟨⟨?_, ?_⟩, ?_⟩⟩
  · decide
  · exact Or.inl ⟨by decide, by decide⟩
  · exact ⟨by decide, by decide, by decide⟩

/-- The guard takes this host for a name, and the client connects to a loopback address. -/
theorem readConnection_loopback : ∃ url,
    validatePostgresHost none "x@127.0.0.1".toList false = .ok () ∧
      buildPostgresConnectionUrl ⟨"x@127.0.0.1", 5432, "shop", "reader", "s1", .require⟩ "p" =
        .ok url ∧
      readConnection url.toList ≠ some
        (PostgresConfig.connection ⟨"x@127.0.0.1", 5432, "shop", "reader", "s1", .require⟩
          "p") := by
  obtain ⟨url, built⟩ := buildPostgresConnectionUrl_ok
    ⟨"x@127.0.0.1", 5432, "shop", "reader", "s1", .require⟩ "p" (by decide)
  refine ⟨url, by decide, built, fun read => ?_⟩
  exact (hostWhole_of_read built read rfl).1 '@' (by decide) (by decide)

end DddCqrsEs.FullstackApp
