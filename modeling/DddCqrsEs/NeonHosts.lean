import DddCqrsEs.UrlHosts

/- The host that the Neon adapter sends a statement to, and the host that it compares it with. -/
namespace DddCqrsEs

open Cuts

inductive PostgresScheme
  | postgres
  | postgresql

def PostgresScheme.opening : PostgresScheme → List Char
  | .postgres => "postgres://".toList
  | .postgresql => "postgresql://".toList

def stripPostgresScheme (url : List Char) : Option (List Char) :=
  (strip PostgresScheme.postgres.opening url).or (strip PostgresScheme.postgresql.opening url)

/-- What is taken for the host's name in a connection string without its scheme. -/
def neonHostName (stripped : List Char) : List Char :=
  -- credentials may contain `@`: the host separator is the last one
  let hostPart := afterLast '@' stripped
  let host :=
    match cutFirst '/' hostPart with
    | some (host, _) => host
    | none =>
      match cutFirst '?' hostPart with
      | some (host, _) => host
      | none => hostPart
  match cutFirst ':' host with
  | some (hostName, _) => hostName
  | none => host

def neonHttpEndpoint (url : List Char) : Except (List Char) (List Char) :=
  match stripPostgresScheme url with
  | some stripped => .ok ("https://".toList ++ neonHostName stripped ++ "/sql".toList)
  | none =>
    match validateHttpsUrl url with
    | .ok () => .ok url
    | .error error => .error error

def postgresConnectionHost (connectionString : List Char) : Option (List Char) :=
  match stripPostgresScheme connectionString with
  | none => none
  | some stripped =>
    let hostPart := afterLast '@' stripped
    let host := upTo (['/', '?'].contains ·) hostPart
    some (upTo (· == ':') host)

def httpsEndpointHost (url : List Char) : Option (List Char) :=
  match cutWord "://".toList url with
  | none => none
  | some (scheme, rest) =>
    if eqIgnoreAsciiCase scheme "https".toList then some (authorityHost rest) else none

structure NeonEnvironment where
  databaseUrl : Option (List Char)
  neonDbUrl : Option (List Char)

def envNonEmpty (value : Option (List Char)) : Option (List Char) := value.filter (· ≠ [])

def NeonEnvironment.connectionString (env : NeonEnvironment) : Option (List Char) :=
  (envNonEmpty env.databaseUrl).or (envNonEmpty env.neonDbUrl)

/-- Where the statement is sent, and the connection string that goes with it. -/
structure NeonRequest where
  httpUrl : List Char
  connectionHeader : Option (List Char)

def checkConnectionHost (env : NeonEnvironment) (httpUrl : List Char) :
    Except (List Char) Unit :=
  match env.connectionString.filter (fun value => (stripPostgresScheme value).isSome) with
  | none => .ok ()
  | some connection =>
    match postgresConnectionHost connection, httpsEndpointHost httpUrl with
    | some connHost, some endpointHost =>
      if connHost ≠ endpointHost then
        .error ("Neon connection string host `".toList ++ connHost ++
          "` does not match endpoint host `".toList ++ endpointHost ++ ['`'])
      else .ok ()
    | _, _ => .ok ()

def prepareNeonRequest (env : NeonEnvironment) (url : List Char) :
    Except (List Char) NeonRequest := do
  let connectionString := env.connectionString.getD url
  let header :=
    if connectionString ≠ [] ∧ (stripPostgresScheme connectionString).isSome then
      some connectionString
    else none
  let httpUrl ← neonHttpEndpoint url
  checkConnectionHost env httpUrl
  return { httpUrl := httpUrl, connectionHeader := header }

theorem stripPostgresScheme_opening (scheme : PostgresScheme) (rest : List Char) :
    stripPostgresScheme (scheme.opening ++ rest) = some rest := by
  have plain : strip scheme.opening (scheme.opening ++ rest) = some rest := strip_eq_some.mpr rfl
  rw [stripPostgresScheme]
  cases scheme with
  | postgres => rw [plain, Option.some_or]
  | postgresql =>
    have other : strip PostgresScheme.postgres.opening
        (PostgresScheme.postgresql.opening ++ rest) = none := by
      rw [strip, if_neg]
      intro starts
      rw [List.isPrefixOf_iff_prefix] at starts
      have shorter : PostgresScheme.postgres.opening <+: PostgresScheme.postgresql.opening :=
        List.prefix_of_prefix_length_le starts (List.prefix_append _ rest) (by decide)
      exact absurd shorter (by decide)
    rw [other, plain, Option.none_or]

theorem neonHostName_eq (stripped : List Char) :
    neonHostName stripped = upTo (· == ':')
      (if '/' ∈ afterLast '@' stripped then upTo (· == '/') (afterLast '@' stripped)
        else upTo (· == '?') (afterLast '@' stripped)) := by
  have before : ∀ (separator : Char) (text : List Char),
      (match cutFirst separator text with
        | some (front, _) => front
        | none => text) = upTo (· == separator) text := by
    intro separator text
    split
    · rename_i cut
      exact (upTo_of_cutFirst cut).symm
    · rename_i whole
      exact (upTo_of_not_mem (cutFirst_eq_none.mp whole)).symm
  rw [neonHostName]
  simp only [before]
  split
  · rename_i cut
    rw [if_pos, upTo_of_cutFirst cut]
    rw [(cutFirst_eq_some.mp cut).1]
    simp
  · rename_i whole
    rw [if_neg (cutFirst_eq_none.mp whole)]

/-- The text behind the last `@` of the path and the query, where they have one. -/
def HostUrl.mark (url : HostUrl) : Option (List Char) :=
  (cutLast '@' url.tail).map Prod.snd

theorem HostUrl.afterLast_of_mark (url : HostUrl) :
    afterLast '@' url.text =
      match url.mark with
      | some after => after
      | none => url.host.text ++ (url.portText ++ url.tail) := by
  rw [HostUrl.mark]
  cases cut : cutLast '@' url.tail with
  | none =>
    rw [url.afterLast_text (cutLast_eq_none.mp cut), HostUrl.hostPort, List.append_assoc]
    rfl
  | some parts =>
    obtain ⟨before, after⟩ := parts
    have marked : '@' ∈ url.tail := by
      rw [(cutLast_eq_some.mp cut).1]
      simp
    rw [url.afterLast_text_marked marked, afterLast, cut]
    rfl

/-- Where a host ends for the endpoint: a query only counts when there is no slash. -/
def EndsEndpoint (rest : List Char) : Prop :=
  Opens ([':', '/'].contains ·) rest ∨ (rest.head? = some '?' ∧ '/' ∉ rest)

variable {name : List Char} {stops : Char → Bool}

/-- The host's name is found in the text that is looked at exactly when it is followed by one
of the ends. -/
theorem neonHostName_iff {stripped : List Char} (plain : ∀ c ∈ name, isDelimiter c = false) :
    neonHostName stripped = name ↔
      ∃ rest, afterLast '@' stripped = name ++ rest ∧ EndsEndpoint rest := by
  have free : ∀ d, isDelimiter d = true → d ∉ name := by
    intro d delimits member
    rw [plain d member] at delimits
    cases delimits
  have passes : ∀ d, isDelimiter d = true → ∀ c ∈ name, (c == d) = false := by
    intro d delimits c member
    rw [beq_eq_false_iff_ne]
    exact fun same => free d delimits (same ▸ member)
  rw [neonHostName_eq]
  generalize afterLast '@' stripped = text
  constructor
  · intro found
    obtain ⟨back, whole, -, opens⟩ := upTo_eq_iff.mp found
    split at whole
    · obtain ⟨more, longer, -, slash⟩ := upTo_eq_iff.mp whole
      refine ⟨back ++ more, by rw [longer, List.append_assoc], Or.inl ?_⟩
      cases back with
      | nil =>
        intro c first
        have same := beq_iff_eq.mp (slash c first)
        rw [same]
        decide
      | cons c back =>
        have colon := beq_iff_eq.mp (opens c (by simp))
        rw [colon]
        simp [Opens]
    · rename_i absent
      obtain ⟨more, longer, -, query⟩ := upTo_eq_iff.mp whole
      have shape : text = name ++ (back ++ more) := by rw [longer, List.append_assoc]
      refine ⟨back ++ more, shape, ?_⟩
      cases back with
      | nil =>
        cases more with
        | nil => exact Or.inl (by simp [Opens])
        | cons c more =>
          have mark := beq_iff_eq.mp (query c (by simp))
          refine Or.inr ⟨by rw [mark]; rfl, ?_⟩
          intro slash
          exact absent (shape ▸ List.mem_append_right name slash)
      | cons c back =>
        have colon := beq_iff_eq.mp (opens c (by simp))
        rw [colon]
        exact Or.inl (by simp [Opens])
  · rintro ⟨rest, rfl, ends⟩
    have colons := passes ':' (by decide)
    have slashes := passes '/' (by decide)
    have queries := passes '?' (by decide)
    cases rest with
    | nil =>
      rw [List.append_nil, if_neg (free '/' (by decide)),
        upTo_of_not_mem (free '?' (by decide)), upTo_of_not_mem (free ':' (by decide))]
    | cons c rest =>
      rcases ends with stop | ⟨mark, absent⟩
      · have either : c = ':' ∨ c = '/' := by
          have stops := stop c (by simp)
          simpa using stops
        split
        · rw [upTo_append slashes, upTo_append colons, upTo_of_opens, List.append_nil]
          rcases either with colon | slash
          · rw [colon, upTo, List.takeWhile_cons_of_pos (by decide)]
            simp [Opens]
          · rw [slash, upTo_of_opens (by simp [Opens])]
            simp [Opens]
        · rename_i absent
          rcases either with colon | slash
          · rw [colon, upTo_append queries, upTo_append colons, upTo_of_opens, List.append_nil]
            rw [upTo, List.takeWhile_cons_of_pos (by decide)]
            simp [Opens]
          · exact absurd (by rw [slash]; simp) absent
      · have query : c = '?' := by simpa using mark
        have whole : '/' ∉ name ++ c :: rest := by
          rw [List.mem_append, not_or]
          exact ⟨free '/' (by decide), absent⟩
        have stop : upTo (· == '?') ('?' :: rest) = [] := upTo_of_opens (by simp [Opens])
        rw [if_neg whole, query, upTo_append queries, stop, List.append_nil,
          upTo_of_not_mem (free ':' (by decide))]

theorem colon_not_mem_upTo (text : List Char) : ':' ∉ upTo (· == ':') text := by
  intro member
  exact absurd (upTo_free _ _ ':' member) (by decide)

theorem Host.colon_mem_ipv6 {literal : List Char} (valid : isIpv6 literal = true) :
    ':' ∈ (Host.ipv6 literal valid).text := by
  obtain ⟨more, split, -⟩ := Host.read_spec valid
  have member : ':' ∈ literal := by
    rw [split]
    simp
  simp [Host.text, member]

/-- When the endpoint names the host: never for an IPv6 literal, and where the path or the query
has an `@`, only if the host stands again behind the last one. -/
def HostUrl.EndpointReads (url : HostUrl) : Prop :=
  match url.host, url.mark with
  | .ipv6 .., _ => False
  | .name name _, some after => ∃ rest, after = name ++ rest ∧ EndsEndpoint rest
  | .name .., none => url.port.isSome ∨ url.path.isSome ∨ '/' ∉ url.tail

theorem HostUrl.endsEndpoint_iff (url : HostUrl) :
    EndsEndpoint (url.portText ++ url.tail) ↔
      url.port.isSome ∨ url.path.isSome ∨ '/' ∉ url.tail := by
  rw [HostUrl.portText]
  cases url.port with
  | some port => exact iff_of_true (Or.inl (by simp [Opens])) (Or.inl rfl)
  | none =>
    show EndsEndpoint url.tail ↔ _
    rw [HostUrl.tail]
    cases url.path with
    | some path => exact iff_of_true (Or.inl (by simp [Opens])) (Or.inr (Or.inl rfl))
    | none =>
      cases url.query with
      | none =>
        exact iff_of_true (Or.inl (by simp [Opens])) (Or.inr (Or.inr List.not_mem_nil))
      | some query =>
        constructor
        · intro ends
          rcases ends with stop | absent
          · exact absurd (stop '?' rfl) (by decide)
          · exact Or.inr (Or.inr absent.2)
        · rintro (port | path | absent)
          · cases port
          · cases path
          · exact Or.inr ⟨rfl, absent⟩

theorem neonHttpEndpoint_opening (scheme : PostgresScheme) (rest : List Char) :
    neonHttpEndpoint (scheme.opening ++ rest) =
      .ok ("https://".toList ++ neonHostName rest ++ "/sql".toList) := by
  rw [neonHttpEndpoint, stripPostgresScheme_opening]

theorem neonHttpEndpoint_iff (scheme : PostgresScheme) (url : HostUrl) :
    neonHttpEndpoint (scheme.opening ++ url.text) =
      .ok ("https://".toList ++ url.host.text ++ "/sql".toList) ↔ url.EndpointReads := by
  rw [neonHttpEndpoint_opening, Except.ok.injEq, List.append_left_inj, List.append_right_inj,
    HostUrl.EndpointReads]
  cases host : url.host with
  | ipv6 literal valid =>
    refine iff_of_false ?_ id
    intro same
    have colon := Host.colon_mem_ipv6 valid
    rw [← same, neonHostName_eq] at colon
    exact colon_not_mem_upTo _ colon
  | name name valid =>
    show neonHostName url.text = name ↔ _
    rw [neonHostName_iff (isHostName_spec valid).2, url.afterLast_of_mark, host]
    cases url.mark with
    | some after => rfl
    | none =>
      show (∃ rest, name ++ (url.portText ++ url.tail) = name ++ rest ∧ _) ↔ _
      rw [← url.endsEndpoint_iff]
      constructor
      · rintro ⟨rest, same, ends⟩
        rw [List.append_cancel_left_eq] at same
        rwa [same]
      · exact fun ends => ⟨_, rfl, ends⟩

/-- What stands where the connection string's host is looked for. -/
def HostUrl.shown (url : HostUrl) : List Char :=
  match url.mark with
  | some after => upTo ([':', '/', '?'].contains ·) after
  | none =>
    match url.host with
    | .name name _ => name
    | .ipv6 literal _ => '[' :: upTo (· == ':') literal

theorem HostUrl.rest_opens (url : HostUrl) (ends : ∀ c ∈ [':', '/', '?'], stops c = true) :
    Opens stops (url.portText ++ url.tail) := by
  have known := ends
  rw [HostUrl.portText, HostUrl.tail]
  simp only [List.forall_mem_cons] at known
  cases url.port with
  | some port => simp [Opens, known]
  | none =>
    cases url.path with
    | some path => simp [Opens, known]
    | none =>
      cases url.query with
      | some query => simp [Opens, known]
      | none => simp [Opens]

/-- Cut at any set of delimiters with `:`, `/` and `?`, a text that starts with the host shows
it. -/
theorem HostUrl.upTo_unmarked (url : HostUrl) (ends : ∀ c ∈ [':', '/', '?'], stops c = true)
    (delimits : ∀ c, stops c = true → isDelimiter c = true ∧ c ≠ '[') :
    upTo stops (url.host.text ++ (url.portText ++ url.tail)) =
      match url.host with
      | .name name _ => name
      | .ipv6 literal _ => '[' :: upTo (· == ':') literal := by
  cases host : url.host with
  | name name valid =>
    rw [Host.text, upTo_eq_iff]
    refine ⟨_, rfl, ?_, url.rest_opens ends⟩
    intro c member
    rw [Bool.eq_false_iff]
    intro stop
    have plain := (isHostName_spec valid).2 c member
    rw [(delimits c stop).1] at plain
    cases plain
  | ipv6 literal valid =>
    obtain ⟨more, split, hex⟩ := Host.read_spec valid
    rw [upTo_eq_iff]
    refine ⟨':' :: (more ++ ']' :: (url.portText ++ url.tail)), ?_, ?_, ?_⟩
    · show '[' :: (literal ++ [']']) ++ _ = '[' :: ((Host.ipv6 literal valid).read ++ _)
      conv_lhs => rw [split]
      simp
    · intro c member
      rw [Bool.eq_false_iff]
      intro stop
      rcases List.mem_cons.mp member with bracket | inside
      · exact (delimits c stop).2 bracket
      · have outside : ∀ d ∈ [':', '/', '?', '#', '[', ']', '@'], d.isHexDigit = false := by
          decide
        have foreign := outside c (List.contains_iff_mem.mp (delimits c stop).1)
        rw [hex c inside] at foreign
        cases foreign
    · have colon := ends ':' (by simp)
      simp [Opens, colon]

theorem postgresConnectionHost_opening (scheme : PostgresScheme) (url : HostUrl) :
    postgresConnectionHost (scheme.opening ++ url.text) = some url.shown := by
  rw [postgresConnectionHost, stripPostgresScheme_opening]
  simp only [Option.some_inj]
  have stops : (fun c : Char => (c == ':') || ['/', '?'].contains c) =
      ([':', '/', '?'].contains ·) := by
    funext c
    exact List.contains_cons.symm
  rw [upTo_upTo, stops, url.afterLast_of_mark, HostUrl.shown]
  cases url.mark with
  | some after => rfl
  | none =>
    refine url.upTo_unmarked (fun c among => List.contains_iff_mem.mpr among) ?_
    intro c stop
    have known : ∀ c ∈ [':', '/', '?'], isDelimiter c = true ∧ c ≠ '[' := by decide
    exact known c (List.contains_iff_mem.mp stop)

/-- When the connection string's host is read. -/
def HostUrl.ConnectionReads (url : HostUrl) : Prop :=
  match url.host, url.mark with
  | .ipv6 .., _ => False
  | .name name _, some after =>
    ∃ rest, after = name ++ rest ∧ Opens ([':', '/', '?'].contains ·) rest
  | .name .., none => True

theorem postgresConnectionHost_iff (scheme : PostgresScheme) (url : HostUrl) :
    postgresConnectionHost (scheme.opening ++ url.text) = some url.host.text ↔
      url.ConnectionReads := by
  rw [postgresConnectionHost_opening, Option.some_inj, HostUrl.ConnectionReads]
  cases host : url.host with
  | ipv6 literal valid =>
    refine iff_of_false ?_ id
    intro same
    have colon := Host.colon_mem_ipv6 valid
    rw [← same, HostUrl.shown, host] at colon
    cases mark : url.mark with
    | some after =>
      rw [mark] at colon
      exact absurd (upTo_free _ _ ':' colon) (by decide)
    | none =>
      rw [mark] at colon
      rcases List.mem_cons.mp colon with bracket | inside
      · exact absurd bracket (by decide)
      · exact colon_not_mem_upTo literal inside
  | name name valid =>
    rw [HostUrl.shown, host]
    cases url.mark with
    | none => exact iff_of_true rfl trivial
    | some after =>
      show upTo _ after = name ↔ _
      rw [upTo_eq_iff]
      constructor
      · rintro ⟨rest, whole, -, opens⟩
        exact ⟨rest, whole, opens⟩
      · rintro ⟨rest, whole, opens⟩
        refine ⟨rest, whole, ?_, opens⟩
        intro c member
        rw [Bool.eq_false_iff]
        intro stop
        have known : ∀ c ∈ [':', '/', '?'], isDelimiter c = true := by decide
        have plain := (isHostName_spec valid).2 c member
        rw [known c (List.contains_iff_mem.mp stop)] at plain
        cases plain

/-- Where a statement is to be sent. -/
inductive Endpoint
  | connection (scheme : PostgresScheme) (url : HostUrl)
  | https (url : HostUrl)

namespace Endpoint

def url : Endpoint → HostUrl
  | .connection _ url => url
  | .https url => url

def text : Endpoint → List Char
  | .connection scheme url => scheme.opening ++ url.text
  | .https url => "https://".toList ++ url.text

/-- Only in a connection string is an `@` of the path or the query taken for the userinfo's. -/
def mark : Endpoint → Option (List Char)
  | .connection _ url => url.mark
  | .https _ => none

/-- What stands where the endpoint's host is looked for. -/
def shown (endpoint : Endpoint) : List Char :=
  match endpoint.mark with
  | some after => trim (['[', ']'].contains ·) (upTo ([':', '/', '?', '#'].contains ·) after)
  | none => endpoint.url.host.read

end Endpoint

/-- The endpoint's host is read off the URL that was built from a connection string. -/
theorem httpsEndpointHost_neonHostName (stripped : List Char) :
    httpsEndpointHost ("https://".toList ++ neonHostName stripped ++ "/sql".toList) =
      some (trim (['[', ']'].contains ·)
        (upTo ([':', '/', '?', '#'].contains ·) (afterLast '@' stripped))) := by
  have cut := @cutWord_scheme "https".toList (by decide)
    (neonHostName stripped ++ "/sql".toList)
  have whole : "https://".toList ++ neonHostName stripped ++ "/sql".toList =
      "https".toList ++ "://".toList ++ (neonHostName stripped ++ "/sql".toList) := by
    rw [List.append_assoc]
    rfl
  have authority : upTo (['/', '?', '#'].contains ·) (neonHostName stripped ++ "/sql".toList) =
      upTo ([':', '/', '?', '#'].contains ·) (afterLast '@' stripped) := by
    have stops : (fun c : Char => ['/', '?', '#'].contains c || (c == ':')) =
        ([':', '/', '?', '#'].contains ·) := by
      funext c
      rw [Bool.or_comm]
      exact List.contains_cons.symm
    rw [upTo_append_opens (by simp [Opens]), neonHostName_eq, upTo_upTo, stops]
    split
    · refine upTo_upTo_of_imp ?_ _
      intro c slash
      rw [beq_iff_eq.mp slash]
      decide
    · refine upTo_upTo_of_imp ?_ _
      intro c query
      rw [beq_iff_eq.mp query]
      decide
  rw [whole, httpsEndpointHost, cut]
  show (if eqIgnoreAsciiCase "https".toList "https".toList = true then _ else _) = _
  rw [if_pos (by decide), Option.some_inj]
  show upTo (· == ':') (trim (['[', ']'].contains ·) (afterLast '@' (upTo
    (['/', '?', '#'].contains ·) (neonHostName stripped ++ "/sql".toList)))) = _
  rw [authority, afterLast_of_free, upTo_of_not_mem]
  · intro colon
    exact absurd (upTo_free _ _ ':' (mem_of_mem_trim colon)) (by decide)
  · intro mark
    have inside := (List.takeWhile_sublist _).mem mark
    exact separator_not_mem_afterLast '@' stripped inside

/-- The host of the URL that a connection string is turned into. -/
theorem httpsEndpointHost_connection (scheme : PostgresScheme) (url : HostUrl) :
    httpsEndpointHost ("https://".toList ++ neonHostName url.text ++ "/sql".toList) =
      some (Endpoint.connection scheme url).shown := by
  rw [httpsEndpointHost_neonHostName, Option.some_inj, url.afterLast_of_mark]
  show _ = match url.mark with
    | some after => trim (['[', ']'].contains ·) (upTo ([':', '/', '?', '#'].contains ·) after)
    | none => url.host.read
  cases url.mark with
  | some after => rfl
  | none =>
    have ends : ∀ c ∈ [':', '/', '?'], [':', '/', '?', '#'].contains c = true := by decide
    have delimits : ∀ c, [':', '/', '?', '#'].contains c = true →
        isDelimiter c = true ∧ c ≠ '[' := by
      intro c stop
      have known : ∀ c ∈ [':', '/', '?', '#'], isDelimiter c = true ∧ c ≠ '[' := by decide
      exact known c (List.contains_iff_mem.mp stop)
    simp only [url.upTo_unmarked ends delimits]
    cases host : url.host with
    | name name valid =>
      refine trim_of_kept ?_
      intro c member
      rw [Bool.eq_false_iff]
      intro bracket
      have known : ∀ c ∈ ['[', ']'], isDelimiter c = true := by decide
      have plain := (isHostName_spec valid).2 c member
      rw [known c (List.contains_iff_mem.mp bracket)] at plain
      cases plain
    | ipv6 literal valid =>
      obtain ⟨more, -, hex⟩ := Host.read_spec valid
      have kept : ∀ c ∈ (Host.ipv6 literal valid).read, ['[', ']'].contains c = false := by
        intro c member
        rw [Bool.eq_false_iff]
        intro bracket
        have known : ∀ c ∈ ['[', ']'], c.isHexDigit = false := by decide
        have foreign := known c (List.contains_iff_mem.mp bracket)
        rw [hex c member] at foreign
        cases foreign
      show trim _ ('[' :: (Host.ipv6 literal valid).read) = _
      rw [trim, List.dropWhile_cons_of_pos (by decide)]
      exact trim_of_kept kept

theorem stripPostgresScheme_https (rest : List Char) :
    stripPostgresScheme ("https://".toList ++ rest) = none := by
  have foreign : ∀ scheme : PostgresScheme,
      strip scheme.opening ("https://".toList ++ rest) = none := by
    intro scheme
    rw [strip, if_neg]
    intro starts
    rw [List.isPrefixOf_iff_prefix] at starts
    have shorter : "https://".toList <+: scheme.opening :=
      List.prefix_of_prefix_length_le (List.prefix_append _ rest) starts
        (by cases scheme <;> decide)
    exact absurd shorter (by cases scheme <;> decide)
  rw [stripPostgresScheme, foreign, foreign, Option.none_or]

theorem neonHttpEndpoint_https (rest : List Char) :
    neonHttpEndpoint ("https://".toList ++ rest) = .ok ("https://".toList ++ rest) := by
  have cut := @cutWord_scheme "https".toList (by decide) rest
  have whole : "https://".toList ++ rest = "https".toList ++ "://".toList ++ rest := rfl
  have allowed : validateHttpsUrl ("https://".toList ++ rest) = .ok () := by
    rw [whole, validateHttpsUrl, cut]
    show (if eqIgnoreAsciiCase "https".toList "https".toList = true then _ else _) = _
    rw [if_pos (by decide)]
  rw [neonHttpEndpoint, stripPostgresScheme_https]
  simp only [allowed]

theorem httpsEndpointHost_https (url : HostUrl) :
    httpsEndpointHost ("https://".toList ++ url.text) = some url.host.read := by
  have cut := @cutWord_scheme "https".toList (by decide) url.text
  have whole : "https://".toList ++ url.text = "https".toList ++ "://".toList ++ url.text := rfl
  rw [whole, httpsEndpointHost, cut]
  show (if eqIgnoreAsciiCase "https".toList "https".toList = true then _ else _) = _
  rw [if_pos (by decide), authorityHost_text]

theorem neonHttpEndpoint_text (endpoint : Endpoint) :
    ∃ httpUrl, neonHttpEndpoint endpoint.text = .ok httpUrl ∧
      httpsEndpointHost httpUrl = some endpoint.shown := by
  cases endpoint with
  | connection scheme url =>
    exact ⟨_, neonHttpEndpoint_opening scheme url.text, httpsEndpointHost_connection scheme url⟩
  | https url => exact ⟨_, neonHttpEndpoint_https url.text, httpsEndpointHost_https url⟩

/-- A request is prepared exactly when the two hosts that are looked at agree. -/
theorem prepareNeonRequest_iff (env : NeonEnvironment) (scheme : PostgresScheme)
    (connection : HostUrl) (endpoint : Endpoint)
    (configured : env.connectionString = some (scheme.opening ++ connection.text)) :
    (∃ request, prepareNeonRequest env endpoint.text = .ok request) ↔
      connection.shown = endpoint.shown := by
  obtain ⟨httpUrl, built, host⟩ := neonHttpEndpoint_text endpoint
  have filtered : env.connectionString.filter (fun value => (stripPostgresScheme value).isSome) =
      some (scheme.opening ++ connection.text) := by
    rw [configured, Option.filter_some, stripPostgresScheme_opening]
    rfl
  have checked : (checkConnectionHost env httpUrl = .ok ()) ↔
      connection.shown = endpoint.shown := by
    rw [checkConnectionHost, filtered]
    simp only [postgresConnectionHost_opening, host]
    split
    · rename_i other
      exact iff_of_false (by simp) other
    · rename_i same
      exact iff_of_true rfl (not_not.mp same)
  rw [prepareNeonRequest, built, ← checked]
  cases outcome : checkConnectionHost env httpUrl with
  | ok passed =>
    simp only [bind, Except.bind, outcome]
    exact iff_of_true ⟨_, rfl⟩ trivial
  | error error =>
    simp only [bind, Except.bind, outcome]
    exact iff_of_false (by simp) (by simp)

/-- When the comparison tells equal hosts from different ones. A connection string gives its host,
of an IPv6 literal the opening bracket and the first group, which no endpoint gives; where path or
query has an `@`, it gives the text behind the last one up to `:`, `/` or `?`. An endpoint gives
its host, of an IPv6 literal the first group; where it is a connection string with such an `@`, it
gives the text behind the last one up to a delimiter, without brackets around it. -/
def TellsHosts (connection : HostUrl) (endpoint : Endpoint) : Prop :=
  match connection.mark, connection.host, endpoint.mark, endpoint.url.host with
  | none, .ipv6 .., _, _ => connection.host.text ≠ endpoint.url.host.text
  | none, .name .., none, .name .. => True
  | none, .name name _, none, .ipv6 literal _ => name ≠ upTo (· == ':') literal
  | none, .name name _, some behind, other =>
    trim (['[', ']'].contains ·) (upTo ([':', '/', '?', '#'].contains ·) behind) = name ↔
      other.text = name
  | some after, host, none, .name other _ =>
    upTo ([':', '/', '?'].contains ·) after = other ↔ host.text = other
  | some after, host, none, .ipv6 literal _ =>
    upTo ([':', '/', '?'].contains ·) after = upTo (· == ':') literal ↔
      host.text = '[' :: (literal ++ [']'])
  | some after, host, some behind, other =>
    upTo ([':', '/', '?'].contains ·) after =
        trim (['[', ']'].contains ·) (upTo ([':', '/', '?', '#'].contains ·) behind) ↔
      host.text = other.text

theorem bracket_not_mem_name (valid : isHostName name = true) : '[' ∉ name := by
  intro member
  exact absurd ((isHostName_spec valid).2 '[' member) (by decide)

/-- What an endpoint gives does not begin with a bracket. -/
theorem Endpoint.shown_bracketless (endpoint : Endpoint) (more : List Char) :
    '[' :: more ≠ endpoint.shown := by
  intro same
  rw [Endpoint.shown] at same
  cases mark : endpoint.mark with
  | some behind =>
    rw [mark] at same
    exact absurd (trim_cons_kept same.symm) (by decide)
  | none =>
    rw [mark] at same
    have member : '[' ∈ endpoint.url.host.read := by
      rw [← show '[' :: more = endpoint.url.host.read from same]
      exact List.mem_cons_self
    cases host : endpoint.url.host with
    | name other valid =>
      rw [host] at member
      exact bracket_not_mem_name valid member
    | ipv6 literal valid =>
      rw [host] at member
      obtain ⟨-, -, hex⟩ := Host.read_spec valid
      exact absurd (hex '[' member) (by decide)

theorem tellsHosts_iff (connection : HostUrl) (endpoint : Endpoint) :
    (connection.shown = endpoint.shown ↔ connection.host.text = endpoint.url.host.text) ↔
      TellsHosts connection endpoint := by
  have bracketless := endpoint.shown_bracketless
  rw [TellsHosts, HostUrl.shown]
  rw [Endpoint.shown] at bracketless ⊢
  cases connection.mark with
  | some after =>
    cases endpoint.mark with
    | some behind => rfl
    | none => cases endpoint.url.host <;> rfl
  | none =>
    cases connection.host with
    | ipv6 literal valid =>
      show ('[' :: _ = _ ↔ _) ↔ _
      rw [iff_false_intro (bracketless _), false_iff]
    | name name valid =>
      cases endpoint.mark with
      | some behind => exact iff_congr eq_comm eq_comm
      | none =>
        cases endpoint.url.host with
        | name other same => exact iff_of_true Iff.rfl trivial
        | ipv6 literal same =>
          have apart : name ≠ '[' :: (literal ++ [']']) := by
            intro equal
            exact bracket_not_mem_name valid (equal ▸ List.mem_cons_self)
          show (name = upTo _ literal ↔ name = '[' :: (literal ++ [']'])) ↔ _
          rw [iff_false_intro apart, iff_false]

/-- When the splitters find the host, and when the comparison and the test on plaintext URLs
decide as they should. -/
theorem hosts_exact (env : NeonEnvironment) (scheme : PostgresScheme) (connection : HostUrl)
    (endpoint : Endpoint) (plaintext : HostUrl)
    (configured : env.connectionString = some (scheme.opening ++ connection.text)) :
    (neonHttpEndpoint (scheme.opening ++ connection.text) =
        .ok ("https://".toList ++ connection.host.text ++ "/sql".toList) ↔
      connection.EndpointReads) ∧
    (postgresConnectionHost (scheme.opening ++ connection.text) = some connection.host.text ↔
      connection.ConnectionReads) ∧
    (((∃ request, prepareNeonRequest env endpoint.text = .ok request) ↔
        connection.host.text = endpoint.url.host.text) ↔
      TellsHosts connection endpoint) ∧
    ((validateHttpsUrl ("http://".toList ++ plaintext.text) = .ok () ↔
        plaintext.host.IsLoopback) ↔
      plaintext.host.text ≠ "[::1]".toList) := by
  refine ⟨neonHttpEndpoint_iff scheme connection, postgresConnectionHost_iff scheme connection,
    ?_, validateHttpsUrl_exact plaintext⟩
  rw [prepareNeonRequest_iff env scheme connection endpoint configured]
  exact tellsHosts_iff connection endpoint

theorem hosts_exact_plain :
    let connection : HostUrl :=
      { userinfo := some ⟨"app:s@cret".toList, by decide⟩
        host := .name "db.example".toList (by decide)
        port := some ⟨"5432".toList, by decide⟩
        path := some "shop".toList
        query := some "sslmode=require".toList }
    let plaintext : HostUrl :=
      { userinfo := none
        host := .name "localhost".toList (by decide)
        port := none
        path := none
        query := none }
    let env : NeonEnvironment :=
      { databaseUrl := some (PostgresScheme.postgres.opening ++ connection.text)
        neonDbUrl := none }
    neonHttpEndpoint (PostgresScheme.postgres.opening ++ connection.text) =
        .ok ("https://".toList ++ connection.host.text ++ "/sql".toList) ∧
      (∃ request, prepareNeonRequest env (Endpoint.https connection).text = .ok request) ∧
      validateHttpsUrl ("http://".toList ++ plaintext.text) = .ok () := by
  intro connection plaintext env
  have facts := hosts_exact env .postgres connection (.https connection) plaintext rfl
  have loopback : plaintext.host.IsLoopback := Or.inl (by decide)
  exact ⟨facts.1.mpr (Or.inl rfl), (facts.2.2.1.mpr trivial).mpr rfl,
    (facts.2.2.2.mpr (by decide)).mpr loopback⟩

/-- An `@` in the query of a connection string redirects it, and plaintext to `[::1]` is
refused. -/
theorem markedQuery_redirects :
    (∃ connection : HostUrl,
      PostgresScheme.postgres.opening ++ connection.text =
        "postgres://app@db.example/shop?options=x@other".toList ∧
      connection.host.text = "db.example".toList ∧
      neonHttpEndpoint (PostgresScheme.postgres.opening ++ connection.text) ≠
        .ok ("https://".toList ++ connection.host.text ++ "/sql".toList)) ∧
    neonHttpEndpoint "postgres://app@db.example/shop?options=x@other".toList =
      .ok "https://other/sql".toList ∧
    postgresConnectionHost "postgres://app@db.example/shop?options=x@other".toList =
      some "other".toList ∧
    validateHttpsUrl "http://[::1]/".toList ≠ .ok () := by
  have redirected : neonHttpEndpoint "postgres://app@db.example/shop?options=x@other".toList =
      .ok "https://other/sql".toList := by rfl
  refine ⟨⟨{
    userinfo := some ⟨"app".toList, by decide⟩
    host := .name "db.example".toList (by decide)
    port := none
    path := some "shop".toList
    query := some "options=x@other".toList }, by decide, rfl, ?_⟩, redirected, by rfl, ?_⟩
  · intro kept
    have same := redirected.symm.trans kept
    exact absurd (Except.ok.inj same) (by decide)
  · have refused : validateHttpsUrl "http://[::1]/".toList = .error
        ("refusing plaintext HTTP to `".toList ++ "".toList ++
          "`; use https or a loopback URL".toList) := by rfl
    rw [refused]
    simp

end DddCqrsEs
