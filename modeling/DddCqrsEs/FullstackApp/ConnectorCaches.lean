import DddCqrsEs.FullstackApp.ConnectorCredentials

/- The maps of the connectors are invisible in the runs in which every kept credential that is
found belongs to the call. -/
namespace DddCqrsEs.FullstackApp

open Transition Memo

variable {secrets : List StoredSecret}

theorem findSecret_eq_some {id : String} {secret : StoredSecret}
    (found : findSecret secrets id = some secret) : secret ∈ secrets ∧ secret.id = id :=
  ⟨List.mem_of_find?_eq_some found, by simpa using List.find?_some found⟩

theorem findSecret_of_mem {id : String} (present : ∃ secret ∈ secrets, secret.id = id) :
    ∃ secret, findSecret secrets id = some secret := by
  apply Option.isSome_iff_exists.mp
  simpa [findSecret, List.find?_isSome] using present

/-- What a kept URL was built from. -/
structure KeptUrl (known : List StoredSecret) (entry : Cached UrlOrigin String) : Prop where
  known : entry.origin.secret ∈ known
  named : entry.origin.secret.id = entry.origin.config.passwordSecretId
  built : buildPostgresConnectionUrl entry.origin.config entry.origin.secret.value =
    .ok entry.value

/-- What a kept token was issued for. -/
structure KeptToken (known : List StoredSecret) (issued : List (TokenRequest × String))
    (entry : Cached TokenOrigin CachedOAuthToken) : Prop where
  known : entry.origin.secret ∈ known
  named : entry.origin.secret.id = entry.origin.grant.clientSecretId
  issued : (entry.origin.request, entry.value.token) ∈ issued

theorem PostgresConfig.connect_kept {config : PostgresConfig} {known : List StoredSecret}
    {entry : Cached UrlOrigin String} (subset : ∀ secret ∈ secrets, secret ∈ known)
    (done : config.connect secrets = .ok entry) : KeptUrl known entry := by
  unfold connect at done
  split at done
  · cases done
  · rename_i secret found
    obtain ⟨mem, named⟩ := findSecret_eq_some found
    split at done
    · cases done
    · rename_i url built
      cases done
      exact ⟨subset secret mem, named, built⟩

theorem OAuthCall.issue_ok {call : OAuthCall} {input : TokenInput}
    {entry : Cached TokenOrigin CachedOAuthToken} (done : call.issue secrets input = .ok entry) :
    entry.origin.grant = call.grant ∧
      findSecret secrets call.clientSecretId = some entry.origin.secret := by
  unfold issue at done
  split at done
  · cases done
  · rename_i secret found
    split at done
    · cases done
    · split at done
      · cases done
      · cases done
        exact ⟨rfl, found⟩

namespace Connectors

/-- What holds of a process at any time. -/
structure Sound (connectors : Connectors) : Prop where
  known : ∀ organization, ∀ secret ∈ connectors.vaults organization, secret ∈ connectors.known
  unique : ∀ first ∈ connectors.known, ∀ second ∈ connectors.known,
    first.id = second.id → first = second
  urls : connectors.urls.Sound (KeptUrl connectors.known)
  tokens : connectors.tokens.Sound (KeptToken connectors.known connectors.issued)

variable {connectors next : Connectors}

theorem Initial.sound (initial : connectors.Initial) : connectors.Sound where
  known := initial.known
  unique := initial.unique
  urls := by
    rw [initial.urls]
    exact Cache.sound_empty _
  tokens := by
    rw [initial.tokens]
    exact Cache.sound_empty _

theorem Sound.createSecret (sound : connectors.Sound) (organization : String)
    {secret : StoredSecret} (fresh : secret.id ∉ connectors.known.map StoredSecret.id) :
    Sound { connectors with
      vaults := Function.update connectors.vaults organization
        (connectors.vaults organization ++ [secret])
      known := connectors.known ++ [secret] } where
  known := by
    intro other stored mem
    by_cases own : other = organization
    · subst own
      simp only [Function.update_self] at mem
      rcases List.mem_append.mp mem with old | new
      · exact List.mem_append_left _ (sound.known other stored old)
      · exact List.mem_append_right _ new
    · simp only [Function.update_of_ne own] at mem
      exact List.mem_append_left _ (sound.known other stored mem)
  unique := by
    have apart {old : StoredSecret} (mem : old ∈ connectors.known) : old.id ≠ secret.id := by
      intro same
      apply fresh
      exact List.mem_map.mpr ⟨old, mem, same⟩
    intro first one second two same
    rcases List.mem_append.mp one with one | one <;> rcases List.mem_append.mp two with two | two
    · exact sound.unique first one second two same
    · exact absurd (List.mem_singleton.mp two ▸ same) (apart one)
    · exact absurd (List.mem_singleton.mp one ▸ same.symm) (apart two)
    · rw [List.mem_singleton.mp one, List.mem_singleton.mp two]
  urls := sound.urls.mono fun _ kept =>
    { kept with known := List.mem_append_left _ kept.known }
  tokens := sound.tokens.mono fun _ kept =>
    { kept with known := List.mem_append_left _ kept.known }

theorem Sound.deleteSecret (sound : connectors.Sound) (organization id : String) :
    Sound { connectors with
      vaults := Function.update connectors.vaults organization
        ((connectors.vaults organization).filter fun secret => secret.id ≠ id) } where
  known := by
    intro other stored mem
    by_cases own : other = organization
    · subst own
      simp only [Function.update_self] at mem
      exact sound.known other stored (List.mem_of_mem_filter mem)
    · simp only [Function.update_of_ne own] at mem
      exact sound.known other stored mem
  unique := sound.unique
  urls := sound.urls
  tokens := sound.tokens

theorem Sound.postgres (sound : connectors.Sound) (organization : String)
    (resource : DashboardResource) (egress : Egress) (allowPrivate : Bool) :
    Sound { connectors with
      urls := (connectors.postgresUrl organization resource egress allowPrivate).2 } where
  known := sound.known
  unique := sound.unique
  urls := by
    unfold postgresUrl resolvePostgresUrl
    split
    · exact sound.urls
    · split
      · exact sound.urls
      · apply sound.urls.call
        intro _ entry done
        exact PostgresConfig.connect_kept (sound.known organization) done
  tokens := sound.tokens

theorem Sound.oauth (sound : connectors.Sound) (organization : String) (call : OAuthCall)
    (egress : Egress) (allowPrivate : Bool) (input : TokenInput) :
    Sound { connectors with
      tokens := (connectors.oauthToken organization call egress allowPrivate input).2
      issued := connectors.issued ++ call.issued egress allowPrivate
        (connectors.vaults organization) input connectors.tokens } where
  known := sound.known
  unique := sound.unique
  urls := sound.urls
  tokens := by
    have kept : connectors.tokens.Sound (KeptToken connectors.known (connectors.issued ++
        call.issued egress allowPrivate (connectors.vaults organization) input
          connectors.tokens)) :=
      sound.tokens.mono fun _ kept => { kept with issued := List.mem_append_left _ kept.issued }
    unfold oauthToken fetchOauth2ClientCredentials
    split
    · exact kept
    · rename_i allowed
      apply kept.call
      intro missed entry done
      obtain ⟨granted, found⟩ := OAuthCall.issue_ok done
      obtain ⟨mem, named⟩ := findSecret_eq_some found
      refine ⟨sound.known organization _ mem, ?_, ?_⟩
      · rw [granted]
        exact named
      · apply List.mem_append_right
        simp [OAuthCall.issued, allowed, missed, done]

theorem Sound.step (sound : connectors.Sound) {action : ConnectorAction}
    (stepped : connectors.step action = some next) : next.Sound := by
  cases action with
  | createSecret organization secret =>
    simp only [Connectors.step] at stepped
    split at stepped
    · cases stepped
    · rename_i fresh
      cases stepped
      exact sound.createSecret organization fresh
  | deleteSecret organization id =>
    cases stepped
    exact sound.deleteSecret organization id
  | postgres organization resource egress allowPrivate =>
    cases stepped
    exact sound.postgres organization resource egress allowPrivate
  | oauth organization call egress allowPrivate input =>
    cases stepped
    exact sound.oauth organization call egress allowPrivate input

theorem sound_of_reachable (reached : connectorMachine.Reachable connectors) :
    connectors.Sound := by
  induction reached with
  | start begun => exact Initial.sound begun
  | step _ stepped sound => exact sound.step stepped

variable {organization : String}

/-- The secret of the caller is the one that the kept credential was made with. -/
theorem Sound.same_secret (sound : connectors.Sound) {id : String} {kept : StoredSecret}
    (known : kept ∈ connectors.known) (named : kept.id = id)
    (present : ∃ secret ∈ connectors.vaults organization, secret.id = id) :
    findSecret (connectors.vaults organization) id = some kept := by
  obtain ⟨secret, found⟩ := findSecret_of_mem present
  obtain ⟨mem, same⟩ := findSecret_eq_some found
  rw [found, sound.unique secret (sound.known organization secret mem) kept known
    (same.trans named.symm)]

theorem Sound.postgres_invisible (sound : connectors.Sound) {resource : DashboardResource}
    {egress : Egress} {allowPrivate : Bool}
    (matched : connectors.Matched (.postgres organization resource egress allowPrivate)) :
    connectors.Invisible (.postgres organization resource egress allowPrivate) := by
  simp only [Invisible, postgresUrl, resolvePostgresUrl]
  split
  · rfl
  · rename_i config same
    split
    · rfl
    · rename_i allowed
      rw [Cache.call_empty]
      apply Cache.call_invisible
      intro entry found
      obtain ⟨agrees, present⟩ := matched config entry same allowed found
      have kept := sound.urls.hit found
      have current := sound.same_secret kept.known (kept.named.trans (by rw [agrees])) present
      have built := kept.built
      rw [agrees] at built
      simp only [PostgresConfig.connect, current, built]
      rfl

theorem Sound.oauth_invisible (sound : connectors.Sound) {call : OAuthCall} {egress : Egress}
    {allowPrivate : Bool} {input : TokenInput}
    (matched : connectors.Matched (.oauth organization call egress allowPrivate input)) :
    connectors.Invisible (.oauth organization call egress allowPrivate input) := by
  simp only [Invisible, oauthToken, fetchOauth2ClientCredentials]
  split
  · exact Or.inl rfl
  · rename_i allowed
    cases found : connectors.tokens.hit call.cacheKey (CachedOAuthToken.usable input.now) with
    | none =>
      apply Or.inl
      rw [Cache.call_of_miss found, Cache.keep_result, Cache.call_empty]
    | some entry =>
      obtain ⟨agrees, present⟩ := matched entry allowed found
      have kept := sound.tokens.hit found
      have named : entry.origin.secret.id = call.clientSecretId := by
        rw [kept.named, agrees]
        rfl
      have issued := kept.issued
      rw [TokenOrigin.request, agrees] at issued
      refine Or.inr ⟨entry.origin.secret, entry.value.token,
        sound.same_secret kept.known named present, issued, ?_⟩
      rw [Cache.call_of_hit found]
      rfl

end Connectors

/-- In every run in which the calls match the credentials that they find, the maps are
invisible. -/
theorem credential_caches_invisible {first : Connectors} {actions : List ConnectorAction}
    (begun : connectorMachine.start first)
    (matched : connectorMachine.Meets Connectors.Matched first actions) :
    connectorMachine.Meets Connectors.Invisible first actions := by
  refine matched.imp ?_ (.start begun)
  intro connectors action reached matched
  have sound := Connectors.sound_of_reachable reached
  cases action with
  | createSecret organization secret => trivial
  | deleteSecret organization id => trivial
  | postgres organization resource egress allowPrivate => exact sound.postgres_invisible matched
  | oauth organization call egress allowPrivate input => exact sound.oauth_invisible matched

/-- A network that allows every target. -/
def openEgress : Egress := ⟨fun _ _ => .ok (), fun _ _ => .ok ()⟩

def clientSecret : StoredSecret where
  id := "sec1"
  key := "API_TOKEN"
  label := ""
  name := ""
  description := ""
  scope := "user"
  value := "hunter2"
  ciphertext := ""
  nonce := ""
  keyVersion := ""
  createdAtMs := 1
  updatedAtMs := 1

def oneVault : Connectors where
  vaults := Function.update (fun _ => []) "acme" [clientSecret]
  urls := Cache.empty
  tokens := Cache.empty
  known := [clientSecret]
  issued := []

theorem oneVault_initial : connectorMachine.start oneVault where
  urls := rfl
  tokens := rfl
  known := by
    intro organization secret mem
    by_cases own : organization = "acme"
    · subst own
      exact mem
    · simp [oneVault, own] at mem
  unique := by
    intro first one second two _
    rw [List.mem_singleton.mp one, List.mem_singleton.mp two]

def grantCall : OAuthCall := ⟨"idp", "app", "sec1", ["read"], none⟩

def grantCallBy (organization : String) : ConnectorAction :=
  .oauth organization grantCall openEgress false ⟨0, .ok ⟨some "t0", none⟩, 0⟩

/-- The second call of one organization finds the token of its first one. -/
theorem own_token_invisible :
    connectorMachine.Meets Connectors.Invisible oneVault
      [grantCallBy "acme", grantCallBy "acme"] := by
  apply credential_caches_invisible oneVault_initial
  refine ⟨?_, ?_⟩
  · intro entry _ found
    cases found
  · intro next stepped
    rw [← Option.some.inj stepped]
    refine ⟨?_, fun _ _ => trivial⟩
    intro entry _ found
    refine ⟨?_, clientSecret, List.mem_singleton_self _, rfl⟩
    have granted := congrArg (Option.map fun entry => entry.origin.grant) found
    exact (Option.some.inj granted).symm

def ledgerResource : DashboardResource :=
  ⟨"res1", .postgres ⟨"db", 5432, "ledger", "app", "sec1", .prefer⟩⟩

def ledgerCall : ConnectorAction := .postgres "acme" ledgerResource openEgress false

/-- An organization without the secret gets the token of another one, and a deleted password
still opens the database. -/
theorem kept_credentials_visible :
    connectorMachine.start oneVault ∧
    ¬ connectorMachine.Meets Connectors.Invisible oneVault
      [grantCallBy "acme", grantCallBy "globex"] ∧
    ¬ connectorMachine.Meets Connectors.Invisible oneVault
      [ledgerCall, .deleteSecret "acme" "sec1", ledgerCall] := by
  refine ⟨oneVault_initial, ?_, ?_⟩
  · intro meets
    have second := (meets.2 _ rfl).1
    rcases second with same | ⟨secret, token, found, _⟩
    · have valid := congrArg isValid same
      revert valid
      decide
    · cases found
  · intro meets
    have third := ((meets.2 _ rfl).2 _ rfl).1
    have valid := congrArg isValid third
    revert valid
    decide

end DddCqrsEs.FullstackApp
