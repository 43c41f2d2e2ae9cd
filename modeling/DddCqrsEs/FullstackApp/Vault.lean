import DddCqrsEs.FullstackApp.Profiles

/- Vault secrets of an organization: what is stored of them, how a loaded list is normalized and
decrypted, and the statement that replaces all rows. -/
namespace DddCqrsEs.FullstackApp

def maxVaultSecrets : Nat := 64

def maxVaultValueBytes : Nat := 8192

structure StoredSecret where
  id : String
  key : String
  label : String
  name : String
  description : String
  scope : String
  value : String
  ciphertext : String
  nonce : String
  keyVersion : String
  createdAtMs : Nat
  updatedAtMs : Nat
  deriving DecidableEq

/-- A row of the table `vault_secrets`; the organization and the id are its primary key. -/
structure VaultRow where
  id : String
  key : String
  label : String
  description : String
  scope : String
  ciphertext : String
  nonce : String
  keyVersion : String
  createdAtMs : Nat
  updatedAtMs : Nat
  deriving DecidableEq

structure SecretCreateRequest where
  key : String
  name : String
  value : String
  label : String
  description : String
  scope : String
  deriving DecidableEq

/-- `str::to_ascii_uppercase` -/
def toAsciiUppercase (text : String) : String :=
  String.ofList (text.toList.map Char.toUpper)

def validateVaultSecretKey (key : String) : Except AuthStackError Unit :=
  let key := trim key
  if key.utf8ByteSize < 2 ∨ 64 < key.utf8ByteSize then
    .error (.validation "secret key must be 2–64 characters (e.g. STRIPE_SECRET_KEY)")
  else
    match key.toList with
    | [] => .error (.validation "secret key is required")
    | first :: rest =>
      if ¬ first.isUpper then
        .error (.validation "secret key must start with A–Z (e.g. API_TOKEN)")
      else if ¬ rest.all fun ch => ch.isUpper || ch.isDigit || ch == '_' then
        .error (.validation "secret key may only contain A–Z, 0–9, and underscore")
      else .ok ()

/-- The key that a human name is turned into. -/
def candidateKey (name : String) : String :=
  String.ofList ((toAsciiUppercase (trim name)).toList.map fun ch =>
    if ch.isAlphanum then ch else '_')

def isValid {α : Type} (checked : Except AuthStackError α) : Bool :=
  match checked with
  | .ok _ => true
  | .error _ => false

/-- What `create_secret` has checked before it loads anything. -/
structure PreparedSecret where
  key : String
  label : String
  description : String
  scope : String
  value : String
  valid : validateVaultSecretKey key = .ok ()
  deriving DecidableEq

namespace SecretCreateRequest

def requestedKey (request : SecretCreateRequest) : String :=
  let key := if trim request.key = "" then trim request.name else trim request.key
  if isValid (validateVaultSecretKey key) then key else candidateKey key

def requestedLabel (request : SecretCreateRequest) (key : String) : String :=
  if trim request.label ≠ "" then trim request.label
  else if trim request.name ≠ "" then trim request.name
  else key

def requestedScope (request : SecretCreateRequest) : Except AuthStackError String :=
  let scope := toAsciiLowercase (trim request.scope)
  if scope = "" ∨ scope = "user" then .ok "user"
  else if scope = "app" then .ok "app"
  else .error (.validation "secret scope must be user or app")

def prepare (request : SecretCreateRequest) : Except AuthStackError PreparedSecret :=
  let key := request.requestedKey
  match valid : validateVaultSecretKey key with
  | .error error => .error error
  | .ok () => do
      let label := request.requestedLabel key
      if 120 < label.utf8ByteSize then .error (.validation "secret label is too long")
      let description := trim request.description
      if 500 < description.utf8ByteSize then
        .error (.validation "secret description is too long")
      let scope ← request.requestedScope
      let value := request.value
      if value = "" ∨ maxVaultValueBytes < value.utf8ByteSize then
        .error (.validation ("secret value must be 1–" ++ toString maxVaultValueBytes ++ " bytes"))
      return ⟨key, label, description, scope, value, valid⟩

end SecretCreateRequest

theorem PreparedSecret.key_ne_empty (prepared : PreparedSecret) : prepared.key ≠ "" := by
  intro empty
  have valid := prepared.valid
  rw [empty] at valid
  revert valid
  decide

/-- AES-GCM under one key and the additional data of one organization. -/
structure VaultKey where
  /-- nonce and ciphertext, or the failure to draw a nonce or to encrypt -/
  encrypt : String → Except AuthStackError (String × String)
  decrypt : StoredSecret → Except AuthStackError String

structure VaultKeyRing where
  active : String
  key : String → Option VaultKey

namespace StoredSecret

/-- `secret_display_key` -/
def displayKey (secret : StoredSecret) : String :=
  if secret.key ≠ "" then secret.key
  else if secret.name ≠ "" then secret.name
  else secret.id

/-- Rows of the first version have only a name. -/
def keyed (secret : StoredSecret) : StoredSecret :=
  if secret.key = "" ∧ secret.name ≠ "" then
    let candidate := candidateKey secret.name
    { secret with
      key := if isValid (validateVaultSecretKey candidate) then candidate
        else "LEGACY_" ++ secret.id }
  else secret

def labelled (secret : StoredSecret) : StoredSecret :=
  if secret.label = "" then
    { secret with label := if secret.name ≠ "" then secret.name else secret.key }
  else secret

def created (secret : StoredSecret) (now : Nat) : StoredSecret :=
  if secret.createdAtMs = 0 then { secret with createdAtMs := now } else secret

def updated (secret : StoredSecret) : StoredSecret :=
  if secret.updatedAtMs = 0 then { secret with updatedAtMs := secret.createdAtMs } else secret

/-- The body of the loop over the loaded secrets, with whether it has changed anything. -/
def normalize (keyVersion : String) (key : VaultKey) (now : Nat) (secret : StoredSecret) :
    Except AuthStackError (StoredSecret × Bool) :=
  let keyed := secret.keyed
  let labelled := keyed.labelled
  let created := labelled.created now
  let updated := created.updated
  let dirty := decide ((secret.key = "" ∧ secret.name ≠ "") ∨ keyed.label = "" ∨
    labelled.createdAtMs = 0 ∨ created.updatedAtMs = 0)
  if updated.value ≠ "" ∧ updated.ciphertext = "" then
    match key.encrypt updated.value with
    | .error error => .error error
    | .ok (nonce, ciphertext) =>
      .ok ({ updated with
        nonce := nonce
        ciphertext := ciphertext
        keyVersion := keyVersion
        value := "" }, true)
  else .ok (updated, dirty)

/-- The body of the loop that decrypts into memory. -/
def decrypt (ring : VaultKeyRing) (secret : StoredSecret) : Except AuthStackError StoredSecret :=
  if secret.value = "" ∧ secret.ciphertext ≠ "" then
    let storedVersion := if secret.keyVersion = "" then ring.active else secret.keyVersion
    match ring.key storedVersion with
    | none =>
      .error (.configuration ("vault key version " ++ storedVersion ++ " is unavailable"))
    | some key =>
      match key.decrypt secret with
      | .ok plain => .ok { secret with value := plain }
      | .error _ => .error (.store
          "secret decryption failed — re-create the secret in the org vault")
  else .ok secret

end StoredSecret

structure SecretSummary where
  id : String
  key : String
  label : String
  name : String
  description : String
  scope : String
  createdAtMs : Nat
  updatedAtMs : Nat
  maskedValue : String
  deriving DecidableEq

namespace StoredSecret

/-- `secret_display_label` -/
def displayLabel (secret : StoredSecret) : String :=
  if secret.label ≠ "" then secret.label
  else if secret.name ≠ "" ∧ secret.name ≠ secret.key then secret.name
  else secret.displayKey

/-- `secret_to_summary` -/
def toSummary (secret : StoredSecret) : SecretSummary where
  id := secret.id
  key := secret.displayKey
  label := secret.displayLabel
  name := if secret.displayKey ≠ "" then secret.displayKey else secret.displayLabel
  description := secret.description
  scope := if secret.scope = "" then "user" else secret.scope
  createdAtMs := secret.createdAtMs
  updatedAtMs := secret.updatedAtMs
  maskedValue := "••••••••"

end StoredSecret

namespace VaultRow

/-- `stored_secret_from_row` -/
def toSecret (row : VaultRow) : StoredSecret where
  id := row.id
  key := row.key
  label := row.label
  name := ""
  description := row.description
  scope := row.scope
  value := ""
  ciphertext := row.ciphertext
  nonce := row.nonce
  keyVersion := row.keyVersion
  createdAtMs := row.createdAtMs
  updatedAtMs := row.updatedAtMs

/-- What an incoming item becomes. The update of an existing row leaves the time of creation. -/
def ofSecret (stored : List VaultRow) (secret : StoredSecret) : VaultRow where
  id := secret.id
  key := secret.key
  label := secret.label
  description := secret.description
  scope := secret.scope
  ciphertext := secret.ciphertext
  nonce := secret.nonce
  keyVersion := secret.keyVersion
  createdAtMs :=
    match stored.find? fun row => row.id = secret.id with
    | some existing => existing.createdAtMs
    | none => secret.createdAtMs
  updatedAtMs := secret.updatedAtMs

def displayKey (row : VaultRow) : String := row.toSecret.displayKey

end VaultRow

/-- `save_secrets_raw`: rows that are not in the list are deleted, the others inserted or
updated, by one statement. -/
def saveSecretsRaw (stored : List VaultRow) (secrets : List StoredSecret) :
    Except AuthStackError (List VaultRow) :=
  if secrets.any fun secret => secret.value ≠ "" then
    .error (.store "refusing to persist plaintext vault secret")
  else .ok (secrets.map (VaultRow.ofSecret stored))

/-- Normalize a loaded list, with whether anything has changed. -/
def normalizeAll (keyVersion : String) (key : VaultKey) (now : Nat) :
    List StoredSecret → Except AuthStackError (List StoredSecret × Bool)
  | [] => .ok ([], false)
  | secret :: rest =>
    match secret.normalize keyVersion key now with
    | .error error => .error error
    | .ok (secret, dirty) =>
      match normalizeAll keyVersion key now rest with
      | .error error => .error error
      | .ok (secrets, others) => .ok (secret :: secrets, dirty || others)

def decryptAll (ring : VaultKeyRing) : List StoredSecret → Except AuthStackError (List StoredSecret)
  | [] => .ok []
  | secret :: rest =>
    match secret.decrypt ring with
    | .error error => .error error
    | .ok secret =>
      match decryptAll ring rest with
      | .error error => .error error
      | .ok secrets => .ok (secret :: secrets)

/-- `resolve_loaded_secrets` with persistence: the rows that it saves, if it saves any, and its
result. The statement may fail. -/
def resolveLoadedSecrets (ring : Except AuthStackError VaultKeyRing) (now : Nat)
    (failure : Option AuthStackError) (stored : List VaultRow) (secrets : List StoredSecret) :
    Option (List VaultRow) × Except AuthStackError (List StoredSecret) :=
  if secrets = [] then (none, .ok [])
  else
    match ring with
    | .error error => (none, .error error)
    | .ok ring =>
      match ring.key ring.active with
      | none => (none, .error (.configuration "active vault key is unavailable"))
      | some key =>
        match normalizeAll ring.active key now secrets with
        | .error error => (none, .error error)
        | .ok (secrets, dirty) =>
          if dirty then
            let toSave := secrets.map fun secret => { secret with value := "" }
            match failure, saveSecretsRaw stored toSave with
            | some error, _ => (none, .error error)
            | none, .error error => (none, .error error)
            | none, .ok rows => (some rows, decryptAll ring secrets)
          else (none, decryptAll ring secrets)

/-- What of a row no loading and saving changes. -/
def VaultRow.content (row : VaultRow) : VaultRow :=
  { row with label := "", createdAtMs := 0, updatedAtMs := 0 }

def StoredSecret.content (secret : StoredSecret) : VaultRow :=
  (VaultRow.ofSecret [] secret).content

theorem VaultRow.ofSecret_content (stored : List VaultRow) (secret : StoredSecret) :
    (VaultRow.ofSecret stored secret).content = secret.content := rfl

@[simp] theorem VaultRow.content_id (row : VaultRow) : row.content.id = row.id := rfl

theorem VaultRow.id_eq_of_content {first second : VaultRow}
    (same : first.content = second.content) : first.id = second.id := by
  rw [← first.content_id, ← second.content_id, same]

@[simp] theorem VaultRow.content_displayKey (row : VaultRow) :
    row.content.displayKey = row.displayKey := rfl

theorem StoredSecret.content_displayKey {secret : StoredSecret} (keyed : secret.key ≠ "") :
    secret.content.displayKey = secret.key := if_pos keyed

theorem VaultRow.toSecret_sealed (rows : List VaultRow) :
    ∀ secret ∈ rows.map VaultRow.toSecret, secret.value = "" := by
  intro secret mem
  obtain ⟨row, _, rfl⟩ := List.mem_map.mp mem
  rfl

theorem saveSecretsRaw_contents {stored rows : List VaultRow} {secrets : List StoredSecret}
    (saved : saveSecretsRaw stored secrets = .ok rows) :
    rows.map VaultRow.content = secrets.map StoredSecret.content := by
  unfold saveSecretsRaw at saved
  split at saved
  · cases saved
  · cases saved
    rw [List.map_map]
    apply List.map_congr_left
    intro secret _
    exact VaultRow.ofSecret_content stored secret

theorem saveSecretsRaw_sealed (stored : List VaultRow) {secrets : List StoredSecret}
    (sealed : ∀ secret ∈ secrets, secret.value = "") :
    ∃ rows, saveSecretsRaw stored secrets = .ok rows := by
  refine ⟨_, if_neg ?_⟩
  simpa using sealed

/-- A listing has something to fill in. -/
def VaultRow.Incomplete (row : VaultRow) : Prop :=
  row.label = "" ∨ row.createdAtMs = 0 ∨ row.updatedAtMs = 0

instance (row : VaultRow) : Decidable row.Incomplete :=
  inferInstanceAs (Decidable (_ ∨ _ ∨ _))

def HasActiveKey (ring : Except AuthStackError VaultKeyRing) : Prop :=
  ∃ keys key, ring = .ok keys ∧ keys.key keys.active = some key

/-- The label and the times are not part of the content. -/
theorem StoredSecret.completed_content (secret : StoredSecret) (now : Nat) :
    ((secret.labelled.created now).updated).content = secret.content ∧
      ((secret.labelled.created now).updated).value = secret.value := by
  have label : secret.labelled.content = secret.content ∧
      secret.labelled.value = secret.value := by
    unfold labelled
    split <;> exact ⟨rfl, rfl⟩
  have created (other : StoredSecret) :
      (other.created now).content = other.content ∧ (other.created now).value = other.value := by
    unfold StoredSecret.created
    split <;> exact ⟨rfl, rfl⟩
  have updated (other : StoredSecret) :
      other.updated.content = other.content ∧ other.updated.value = other.value := by
    unfold StoredSecret.updated
    split <;> exact ⟨rfl, rfl⟩
  constructor
  · rw [(updated _).1, (created _).1, label.1]
  · rw [(updated _).2, (created _).2, label.2]

/-- A secret from a row has neither name nor value: its key stays and it is not encrypted
again. -/
theorem VaultRow.normalize_eq (row : VaultRow) (keyVersion : String) (key : VaultKey)
    (now : Nat) :
    ∃ normalized, row.toSecret.normalize keyVersion key now =
      .ok (normalized, decide row.Incomplete) ∧ normalized.content = row.content := by
  have keyed : row.toSecret.keyed = row.toSecret := by
    apply if_neg
    simp [toSecret]
  have labelled : row.toSecret.labelled.createdAtMs = row.createdAtMs := by
    unfold StoredSecret.labelled
    split <;> rfl
  have updated : (row.toSecret.labelled.created now).updatedAtMs = row.updatedAtMs := by
    unfold StoredSecret.created StoredSecret.labelled
    split_ifs <;> rfl
  obtain ⟨content, value⟩ := row.toSecret.completed_content now
  refine ⟨_, ?_, content⟩
  unfold StoredSecret.normalize
  simp only [keyed, labelled, updated]
  rw [if_neg (fun plain => plain.1 value)]
  have same : ((row.toSecret.key = "" ∧ row.toSecret.name ≠ "") ∨ row.toSecret.label = "" ∨
      row.createdAtMs = 0 ∨ row.updatedAtMs = 0) ↔ row.Incomplete := by
    simp [Incomplete, toSecret]
  exact congrArg (fun dirty => Except.ok (_, dirty)) (decide_eq_decide.mpr same)

theorem normalizeAll_eq (keyVersion : String) (key : VaultKey) (now : Nat)
    (rows : List VaultRow) :
    ∃ secrets, normalizeAll keyVersion key now (rows.map VaultRow.toSecret) =
      .ok (secrets, decide (∃ row ∈ rows, row.Incomplete)) ∧
        secrets.map StoredSecret.content = rows.map VaultRow.content := by
  induction rows with
  | nil => exact ⟨[], by simp [normalizeAll], rfl⟩
  | cons row rest ih =>
    obtain ⟨normalized, first, same⟩ := row.normalize_eq keyVersion key now
    obtain ⟨secrets, remaining, contents⟩ := ih
    refine ⟨normalized :: secrets, ?_, by rw [List.map_cons, List.map_cons, same, contents]⟩
    rw [List.map_cons, normalizeAll, first, remaining]
    simp

/-- What a listing saves has the contents that it has loaded. It saves if it has a key, a row to
complete and a statement that does not fail. -/
theorem resolveLoadedSecrets_saves (ring : Except AuthStackError VaultKeyRing) (now : Nat)
    (failure : Option AuthStackError) (stored loaded : List VaultRow) :
    (∃ rows, (resolveLoadedSecrets ring now failure stored (loaded.map VaultRow.toSecret)).1 =
        some rows ∧ rows.map VaultRow.content = loaded.map VaultRow.content ∧
        failure = none ∧ HasActiveKey ring ∧ ∃ row ∈ loaded, row.Incomplete) ∨
    ((resolveLoadedSecrets ring now failure stored (loaded.map VaultRow.toSecret)).1 = none ∧
      ¬ (failure = none ∧ HasActiveKey ring ∧ ∃ row ∈ loaded, row.Incomplete)) := by
  unfold resolveLoadedSecrets
  by_cases empty : loaded = []
  · subst empty
    exact Or.inr ⟨rfl, by simp⟩
  rw [if_neg (by simpa using empty)]
  cases ring with
  | error error => exact Or.inr ⟨rfl, by simp [HasActiveKey]⟩
  | ok keys =>
    simp only
    cases active : keys.key keys.active with
    | none => exact Or.inr ⟨rfl, by simp [HasActiveKey, active]⟩
    | some key =>
      obtain ⟨secrets, normalized, contents⟩ := normalizeAll_eq keys.active key now loaded
      simp only [normalized]
      by_cases dirty : ∃ row ∈ loaded, row.Incomplete
      · rw [if_pos (decide_eq_true dirty)]
        cases failure with
        | some error => exact Or.inr ⟨rfl, by simp⟩
        | none =>
          have sealed : ∀ secret ∈ secrets.map fun secret => { secret with value := "" },
              secret.value = "" := by simp
          obtain ⟨rows, saved⟩ := saveSecretsRaw_sealed stored sealed
          rw [saved]
          refine Or.inl ⟨rows, rfl, ?_, rfl, ⟨keys, key, rfl, active⟩, dirty⟩
          rw [saveSecretsRaw_contents saved, ← contents, List.map_map]
          rfl
      · rw [if_neg (by simpa using dirty)]
        exact Or.inr ⟨rfl, fun saves => dirty saves.2.2⟩

end DddCqrsEs.FullstackApp
