import DddCqrsEs.FullstackApp.Vault
import DddCqrsEs.Memo
import DddCqrsEs.Transition

/- Credentials of the connectors: connection URLs with a password and OAuth tokens, both kept in
maps of the process that all organizations share. -/
namespace DddCqrsEs.FullstackApp

open Transition Memo

inductive PostgresSslMode where
  | disable
  | prefer
  | require
  deriving DecidableEq

structure PostgresConfig where
  host : String
  port : UInt16
  database : String
  user : String
  passwordSecretId : String
  sslMode : PostgresSslMode
  deriving DecidableEq

inductive ResourceConfig where
  | postgres (config : PostgresConfig)
  | other
  deriving DecidableEq

structure DashboardResource where
  id : String
  config : ResourceConfig
  deriving DecidableEq

/-- The checks of outgoing targets, as the network answers them now. The flag allows private
targets. -/
structure Egress where
  validatePostgresHost : String → Bool → Except AuthStackError Unit
  validateHttpUrl : String → Bool → Except AuthStackError Unit

def hexDigit (value : Nat) : Char :=
  if value < 10 then Char.ofNat (48 + value) else Char.ofNat (55 + value)

/-- `form_urlencoded::byte_serialize` of one byte -/
def urlencodeByte (byte : UInt8) : List Char :=
  let ch := Char.ofNat byte.toNat
  if ch.isAlphanum || ch == '*' || ch == '-' || ch == '.' || ch == '_' then [ch]
  else if byte = 32 then ['+']
  else ['%', hexDigit (byte.toNat / 16), hexDigit (byte.toNat % 16)]

def formUrlencodedEncode (value : String) : String :=
  String.ofList (value.toUTF8.data.toList.flatMap urlencodeByte)

namespace PostgresSslMode

/-- The parameter `sslmode` -/
def parameter : PostgresSslMode → String
  | .disable => "disable"
  | .prefer => "prefer"
  | .require => "require"

/-- The derived `Debug` -/
def debug : PostgresSslMode → String
  | .disable => "Disable"
  | .prefer => "Prefer"
  | .require => "Require"

end PostgresSslMode

def buildPostgresConnectionUrl (config : PostgresConfig) (password : String) :
    Except AuthStackError String :=
  if trim config.host = "" ∨ trim config.database = "" ∨ trim config.user = "" then
    .error (.validation "postgres host, database, and user are required")
  else
    .ok ("postgres://" ++ formUrlencodedEncode config.user ++ ":" ++
      formUrlencodedEncode password ++ "@" ++ config.host ++ ":" ++ toString config.port ++ "/" ++
      formUrlencodedEncode config.database ++ "?sslmode=" ++ config.sslMode.parameter ++
      "&options=-c%20default_transaction_read_only%3Don%20-c%20statement_timeout%3D30000")

def postgresUrlCacheKey (organization resource : String) (config : PostgresConfig) : String :=
  organization ++ ":" ++ resource ++ ":" ++ config.host ++ ":" ++ toString config.port ++ ":" ++
    config.database ++ ":" ++ config.user ++ ":" ++ config.passwordSecretId ++ ":" ++
    config.sslMode.debug

/-- What a kept URL was built from. -/
structure UrlOrigin where
  config : PostgresConfig
  secret : StoredSecret
  deriving DecidableEq

def findSecret (secrets : List StoredSecret) (id : String) : Option StoredSecret :=
  secrets.find? fun secret => secret.id = id

/-- The URL with the current password. -/
def PostgresConfig.connect (config : PostgresConfig) (secrets : List StoredSecret) :
    Except AuthStackError (Cached UrlOrigin String) :=
  match findSecret secrets config.passwordSecretId with
  | none => .error (.validation "postgres password secret missing")
  | some secret =>
    match buildPostgresConnectionUrl config secret.value with
    | .error error => .error error
    | .ok url => .ok ⟨⟨config, secret⟩, url⟩

/-- The key is empty for no resource of this kind, so that every URL is kept. -/
def resolvePostgresUrl (organization : String) (resource : DashboardResource) (egress : Egress)
    (allowPrivate : Bool) (secrets : List StoredSecret) (cache : Cache String UrlOrigin String) :
    Except AuthStackError String × Cache String UrlOrigin String :=
  match resource.config with
  | .other => (.error (.validation "not a postgres resource"), cache)
  | .postgres config =>
    match egress.validatePostgresHost config.host allowPrivate with
    | .error error => (.error error, cache)
    | .ok () =>
      cache.call (postgresUrlCacheKey organization resource.id config) (fun _ => true)
        (config.connect secrets)

structure OAuthCall where
  tokenUrl : String
  clientId : String
  clientSecretId : String
  scopes : List String
  audience : Option String
  deriving DecidableEq

/-- What a call asks a token for. -/
structure TokenGrant where
  tokenUrl : String
  clientId : String
  clientSecretId : String
  scope : Option String
  audience : Option String
  deriving DecidableEq

/-- A request that is sent. -/
structure TokenRequest where
  url : String
  body : String
  deriving DecidableEq

/-- What the code reads of an answer. -/
structure TokenBody where
  accessToken : Option String
  expiresIn : Option Nat
  deriving DecidableEq

structure CachedOAuthToken where
  token : String
  expiresAtMs : Nat
  deriving DecidableEq

structure TokenOrigin where
  grant : TokenGrant
  secret : StoredSecret
  deriving DecidableEq

/-- The two readings of the clock, and the answer if a request is sent. -/
structure TokenInput where
  now : Nat
  reply : Except AuthStackError TokenBody
  receivedAt : Nat

def OAuthCall.grant (call : OAuthCall) : TokenGrant where
  tokenUrl := call.tokenUrl
  clientId := call.clientId
  clientSecretId := call.clientSecretId
  scope := if call.scopes = [] then none else some (" ".intercalate call.scopes)
  audience := call.audience.filter fun audience => audience ≠ ""

namespace TokenGrant

def form (grant : TokenGrant) (clientSecret : String) : List (String × String) :=
  [("grant_type", "client_credentials"), ("client_id", grant.clientId),
    ("client_secret", clientSecret)] ++
    (grant.scope.map fun scope => ("scope", scope)).toList ++
    (grant.audience.map fun audience => ("audience", audience)).toList

def request (grant : TokenGrant) (clientSecret : String) : TokenRequest where
  url := grant.tokenUrl
  body := "&".intercalate ((grant.form clientSecret).map fun field =>
    formUrlencodedEncode field.1 ++ "=" ++ formUrlencodedEncode field.2)

end TokenGrant

def TokenOrigin.request (origin : TokenOrigin) : TokenRequest :=
  origin.grant.request origin.secret.value

/-- `saturating_add` of the lifetime, which is between a minute and an hour -/
def expiry (receivedAt : Nat) (expiresIn : Option Nat) : Nat :=
  let ttlSecs := max 60 (min (expiresIn.getD 3600) 3600)
  min (receivedAt + ttlSecs * 1000) (2 ^ 64 - 1)

/-- The token that the server issues for the current secret. -/
def OAuthCall.issue (call : OAuthCall) (secrets : List StoredSecret) (input : TokenInput) :
    Except AuthStackError (Cached TokenOrigin CachedOAuthToken) :=
  match findSecret secrets call.clientSecretId with
  | none => .error (.validation "OAuth client secret missing")
  | some secret =>
    match input.reply with
    | .error error => .error error
    | .ok body =>
      match body.accessToken with
      | none => .error (.transport "oauth token response missing access_token")
      | some token =>
        .ok ⟨⟨call.grant, secret⟩, token, expiry input.receivedAt body.expiresIn⟩

def OAuthCall.cacheKey (call : OAuthCall) : String :=
  call.tokenUrl ++ "|" ++ call.clientId ++ "|" ++ call.clientSecretId

def CachedOAuthToken.usable (now : Nat) (entry : CachedOAuthToken) : Bool :=
  decide (now < entry.expiresAtMs)

def fetchOauth2ClientCredentials (call : OAuthCall) (egress : Egress) (allowPrivate : Bool)
    (secrets : List StoredSecret) (input : TokenInput)
    (cache : Cache String TokenOrigin CachedOAuthToken) :
    Except AuthStackError String × Cache String TokenOrigin CachedOAuthToken :=
  match egress.validateHttpUrl call.tokenUrl allowPrivate with
  | .error error => (.error error, cache)
  | .ok () =>
    let answer := cache.call call.cacheKey (CachedOAuthToken.usable input.now)
      (call.issue secrets input)
    (answer.1.map CachedOAuthToken.token, answer.2)

/-- The token that the server issues in a call, if a request is sent. -/
def OAuthCall.issued (call : OAuthCall) (egress : Egress) (allowPrivate : Bool)
    (secrets : List StoredSecret) (input : TokenInput)
    (cache : Cache String TokenOrigin CachedOAuthToken) : List (TokenRequest × String) :=
  match egress.validateHttpUrl call.tokenUrl allowPrivate,
      cache.hit call.cacheKey (CachedOAuthToken.usable input.now), call.issue secrets input with
  | .ok (), none, .ok entry => [(entry.origin.request, entry.value.token)]
  | _, _, _ => []

/-- The vaults of the organizations, the two maps, and what the proofs look back on: all secrets
that there ever were and all tokens that were issued, with the requests they were issued for. -/
structure Connectors where
  vaults : String → List StoredSecret
  urls : Cache String UrlOrigin String
  tokens : Cache String TokenOrigin CachedOAuthToken
  known : List StoredSecret
  issued : List (TokenRequest × String)

inductive ConnectorAction where
  | createSecret (organization : String) (secret : StoredSecret)
  | deleteSecret (organization : String) (id : String)
  | postgres (organization : String) (resource : DashboardResource) (egress : Egress)
      (allowPrivate : Bool)
  | oauth (organization : String) (call : OAuthCall) (egress : Egress) (allowPrivate : Bool)
      (input : TokenInput)

namespace Connectors

def postgresUrl (connectors : Connectors) (organization : String) (resource : DashboardResource)
    (egress : Egress) (allowPrivate : Bool) :
    Except AuthStackError String × Cache String UrlOrigin String :=
  resolvePostgresUrl organization resource egress allowPrivate (connectors.vaults organization)
    connectors.urls

def oauthToken (connectors : Connectors) (organization : String) (call : OAuthCall)
    (egress : Egress) (allowPrivate : Bool) (input : TokenInput) :
    Except AuthStackError String × Cache String TokenOrigin CachedOAuthToken :=
  fetchOauth2ClientCredentials call egress allowPrivate (connectors.vaults organization) input
    connectors.tokens

/-- The id of a new secret is one that no secret of any organization has had. -/
def step (connectors : Connectors) : ConnectorAction → Option Connectors
  | .createSecret organization secret =>
    if secret.id ∈ connectors.known.map StoredSecret.id then none
    else
      some { connectors with
        vaults := Function.update connectors.vaults organization
          (connectors.vaults organization ++ [secret])
        known := connectors.known ++ [secret] }
  | .deleteSecret organization id =>
    some { connectors with
      vaults := Function.update connectors.vaults organization
        ((connectors.vaults organization).filter fun secret => secret.id ≠ id) }
  | .postgres organization resource egress allowPrivate =>
    some { connectors with
      urls := (connectors.postgresUrl organization resource egress allowPrivate).2 }
  | .oauth organization call egress allowPrivate input =>
    some { connectors with
      tokens := (connectors.oauthToken organization call egress allowPrivate input).2
      issued := connectors.issued ++ call.issued egress allowPrivate
        (connectors.vaults organization) input connectors.tokens }

/-- A process that has just been started, with any vaults. -/
structure Initial (connectors : Connectors) : Prop where
  urls : connectors.urls = Cache.empty
  tokens : connectors.tokens = Cache.empty
  known : ∀ organization, ∀ secret ∈ connectors.vaults organization, secret ∈ connectors.known
  unique : ∀ first ∈ connectors.known, ∀ second ∈ connectors.known,
    first.id = second.id → first = second

end Connectors

def connectorMachine : Machine Connectors ConnectorAction where
  start := Connectors.Initial
  step := Connectors.step

namespace Connectors

/-- A call gives what it would give now without the map, or a token that was issued for the very
request that it would send now. -/
def Invisible (connectors : Connectors) : ConnectorAction → Prop
  | .createSecret _ _ | .deleteSecret _ _ => True
  | .postgres organization resource egress allowPrivate =>
    (connectors.postgresUrl organization resource egress allowPrivate).1 =
      (resolvePostgresUrl organization resource egress allowPrivate
        (connectors.vaults organization) Cache.empty).1
  | .oauth organization call egress allowPrivate input =>
    (connectors.oauthToken organization call egress allowPrivate input).1 =
      (fetchOauth2ClientCredentials call egress allowPrivate (connectors.vaults organization)
        input Cache.empty).1 ∨
    ∃ secret token, findSecret (connectors.vaults organization) call.clientSecretId =
        some secret ∧
      (call.grant.request secret.value, token) ∈ connectors.issued ∧
      (connectors.oauthToken organization call egress allowPrivate input).1 = .ok token

/-- A call that finds a kept credential has its secret in the vault of its organization, and
agrees with the call that has filled the map in all that the credential depends on. -/
def Matched (connectors : Connectors) : ConnectorAction → Prop
  | .createSecret _ _ | .deleteSecret _ _ => True
  | .postgres organization resource egress allowPrivate =>
    ∀ config entry, resource.config = .postgres config →
      egress.validatePostgresHost config.host allowPrivate = .ok () →
      connectors.urls.hit (postgresUrlCacheKey organization resource.id config)
        (fun _ => true) = some entry →
      entry.origin.config = config ∧
        ∃ secret ∈ connectors.vaults organization, secret.id = config.passwordSecretId
  | .oauth organization call egress allowPrivate input =>
    ∀ entry, egress.validateHttpUrl call.tokenUrl allowPrivate = .ok () →
      connectors.tokens.hit call.cacheKey (CachedOAuthToken.usable input.now) =
        some entry →
      entry.origin.grant = call.grant ∧
        ∃ secret ∈ connectors.vaults organization, secret.id = call.clientSecretId

end Connectors

end DddCqrsEs.FullstackApp
