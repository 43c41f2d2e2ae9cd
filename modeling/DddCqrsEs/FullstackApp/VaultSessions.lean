import DddCqrsEs.FullstackApp.Vault
import DddCqrsEs.ReplaceAll
import DddCqrsEs.Transition
import Mathlib.Logic.Function.Basic

/- The requests that change the vault and the notifications of one organization. Every load and
every save is one step, and the steps of different requests interleave. -/
namespace DddCqrsEs.FullstackApp

open Transition ReplaceAll

structure DashboardNotification where
  id : String
  title : String
  body : String
  level : String
  read : Bool
  createdAtMs : Nat
  deriving DecidableEq

/-- `str::eq_ignore_ascii_case` -/
def EqIgnoreAsciiCase (first second : String) : Prop :=
  toAsciiLowercase first = toAsciiLowercase second

instance (first second : String) : Decidable (EqIgnoreAsciiCase first second) :=
  inferInstanceAs (Decidable (_ = _))

inductive VaultRequest where
  | list
  | create (request : SecretCreateRequest)
  | delete (id : String)
  | dismiss (id : String)
  deriving DecidableEq

/-- What a request holds between two steps. A listing resolves no creation. -/
inductive VaultSession where
  | idle
  | resolving (creation : Option PreparedSecret) (loaded : List VaultRow)
  | reloading (prepared : PreparedSecret)
  | creating (prepared : PreparedSecret) (loaded : List VaultRow)
  | deleting (id : String) (loaded : List VaultRow)
  | dismissing (id : String) (loaded : List DashboardNotification)
  deriving DecidableEq

inductive VaultReply where
  | listed (secrets : List SecretSummary)
  | created (secret : SecretSummary)
  | deleted
  | dismissed (notifications : List DashboardNotification)
  deriving DecidableEq

/-- The rows of one organization, and what was acknowledged about them: the contents of all
secrets, those of the start included, and the ids of the deleted ones; the ids of all notifications
and of the dismissed ones. -/
structure Organization where
  secrets : List VaultRow
  notifications : List DashboardNotification
  created : List VaultRow
  deleted : List String
  announced : List String
  dismissed : List String
  deriving DecidableEq

structure Workspace where
  organization : Organization
  sessions : Nat → VaultSession
  answers : List (Nat × Except AuthStackError VaultReply)

/-- What a step reads besides the rows. `failure` is how the statement of the step fails. -/
structure VaultInput where
  ring : Except AuthStackError VaultKeyRing
  material : Except AuthStackError (String × VaultKey)
  now : Nat
  /-- `new_id("sec")` -/
  newId : String
  failure : Option AuthStackError

inductive VaultAction where
  | begin (session : Nat) (request : VaultRequest) (failure : Option AuthStackError)
  | advance (session : Nat) (input : VaultInput)

/-- The secret that `create_secret` adds. -/
def VaultInput.seal (input : VaultInput) (prepared : PreparedSecret) :
    Except AuthStackError StoredSecret :=
  match input.material with
  | .error error => .error error
  | .ok (keyVersion, key) =>
    match key.encrypt prepared.value with
    | .error error => .error error
    | .ok (nonce, ciphertext) =>
      .ok {
        id := input.newId
        key := prepared.key
        label := prepared.label
        name := prepared.key
        description := prepared.description
        scope := prepared.scope
        value := ""
        ciphertext := ciphertext
        nonce := nonce
        keyVersion := keyVersion
        createdAtMs := input.now
        updatedAtMs := input.now }

namespace Organization

/-- All rows are replaced, and the change is acknowledged. -/
def replaceSecrets (organization : Organization) (rows created : List VaultRow)
    (deleted : List String) : Organization :=
  { organization with
    secrets := rows
    created := organization.created ++ created
    deleted := organization.deleted ++ deleted }

def replaceNotifications (organization : Organization)
    (notifications : List DashboardNotification) (dismissed : String) : Organization :=
  { organization with
    notifications := notifications
    dismissed := organization.dismissed ++ [dismissed] }

end Organization

namespace Workspace

def setSession (workspace : Workspace) (session : Nat) (state : VaultSession) : Workspace :=
  { workspace with sessions := Function.update workspace.sessions session state }

def answer (workspace : Workspace) (session : Nat) (reply : Except AuthStackError VaultReply) :
    Workspace :=
  { workspace.setSession session .idle with answers := workspace.answers ++ [(session, reply)] }

/-- A load, with the session that it leads to. -/
def load (workspace : Workspace) (session : Nat) (failure : Option AuthStackError)
    (loaded : VaultSession) : Workspace :=
  match failure with
  | some error => workspace.answer session (.error error)
  | none => workspace.setSession session loaded

/-- The first load of a creation that has been checked. -/
def beginCreation (workspace : Workspace) (session : Nat) (failure : Option AuthStackError) :
    Except AuthStackError PreparedSecret → Workspace
  | .error error => workspace.answer session (.error error)
  | .ok prepared =>
    workspace.load session failure (.resolving (some prepared) workspace.organization.secrets)

def begin (workspace : Workspace) (session : Nat) (failure : Option AuthStackError) :
    VaultRequest → Workspace
  | .list => workspace.load session failure (.resolving none workspace.organization.secrets)
  | .create request => workspace.beginCreation session failure request.prepare
  | .delete id =>
    let secrets := workspace.organization.secrets
    if failure = none ∧ id ∉ secrets.map VaultRow.id then
      workspace.answer session (.error (.notFound "secret not found"))
    else workspace.load session failure (.deleting id secrets)
  | .dismiss id =>
    workspace.load session failure (.dismissing id workspace.organization.notifications)

/-- The normalized rows, if they are saved. -/
def saveNormalized (workspace : Workspace) : Option (List VaultRow) → Workspace
  | some rows =>
    { workspace with organization := workspace.organization.replaceSecrets rows [] [] }
  | none => workspace

/-- A listing ends here, a creation goes on. -/
def resolved (workspace : Workspace) (session : Nat) (creation : Option PreparedSecret) :
    Except AuthStackError (List StoredSecret) → Workspace
  | .error error => workspace.answer session (.error error)
  | .ok secrets =>
    match creation with
    | none => workspace.answer session (.ok (.listed (secrets.map StoredSecret.toSummary)))
    | some prepared => workspace.setSession session (.reloading prepared)

def resolve (workspace : Workspace) (session : Nat) (creation : Option PreparedSecret)
    (loaded : List VaultRow) (input : VaultInput) : Workspace :=
  let outcome := resolveLoadedSecrets input.ring input.now input.failure
    workspace.organization.secrets (loaded.map VaultRow.toSecret)
  (workspace.saveNormalized outcome.1).resolved session creation outcome.2

/-- The second load of a creation, and what it checks. -/
def reload (workspace : Workspace) (session : Nat) (prepared : PreparedSecret)
    (input : VaultInput) : Workspace :=
  let secrets := workspace.organization.secrets
  if input.failure = none ∧ maxVaultSecrets ≤ secrets.length then
    workspace.answer session (.error (.validation
      ("at most " ++ toString maxVaultSecrets ++ " vault secrets")))
  else if input.failure = none ∧
      ∃ row ∈ secrets, EqIgnoreAsciiCase row.displayKey prepared.key then
    workspace.answer session (.error (.validation
      ("a secret with key " ++ prepared.key ++ " already exists")))
  else workspace.load session input.failure (.creating prepared secrets)

/-- The last save of a request, with what it acknowledges as created and as deleted. -/
def save (workspace : Workspace) (session : Nat) (failure : Option AuthStackError)
    (secrets : List StoredSecret) (created : List VaultRow) (deleted : List String)
    (reply : VaultReply) : Workspace :=
  match failure, saveSecretsRaw workspace.organization.secrets secrets with
  | some error, _ => workspace.answer session (.error error)
  | none, .error error => workspace.answer session (.error error)
  | none, .ok rows =>
    { workspace with
      organization := workspace.organization.replaceSecrets rows created deleted
    }.answer session (.ok reply)

/-- The id of a new secret is one that no secret has had. -/
def create (workspace : Workspace) (session : Nat) (prepared : PreparedSecret)
    (loaded : List VaultRow) (input : VaultInput) : Option Workspace :=
  match input.seal prepared with
  | .error error => some (workspace.answer session (.error error))
  | .ok stored =>
    if stored.id ∈ workspace.organization.created.map VaultRow.id then none
    else
      some (workspace.save session input.failure (loaded.map VaultRow.toSecret ++ [stored])
        [stored.content] [] (.created stored.toSummary))

def delete (workspace : Workspace) (session : Nat) (id : String) (loaded : List VaultRow)
    (input : VaultInput) : Workspace :=
  let secrets := (loaded.map VaultRow.toSecret).filter fun secret => secret.id ≠ id
  workspace.save session input.failure secrets [] [id] .deleted

def dismiss (workspace : Workspace) (session : Nat) (id : String)
    (loaded : List DashboardNotification) (input : VaultInput) : Workspace :=
  let list := loaded.filter fun item => item.id ≠ id
  match input.failure with
  | some error => workspace.answer session (.error error)
  | none =>
    { workspace with
      organization := workspace.organization.replaceNotifications list id }.answer session
        (.ok (.dismissed list))

def step (workspace : Workspace) : VaultAction → Option Workspace
  | .begin session request failure =>
    match workspace.sessions session with
    | .idle => some (workspace.begin session failure request)
    | _ => none
  | .advance session input =>
    match workspace.sessions session with
    | .idle => none
    | .resolving creation loaded => some (workspace.resolve session creation loaded input)
    | .reloading prepared => some (workspace.reload session prepared input)
    | .creating prepared loaded => workspace.create session prepared loaded input
    | .deleting id loaded => some (workspace.delete session id loaded input)
    | .dismissing id loaded => some (workspace.dismiss session id loaded input)

end Workspace

namespace Organization

/-- The acknowledged changes persist, and the keys are distinct. -/
structure Persists (organization : Organization) : Prop where
  stays : ∀ secret ∈ organization.created, secret.id ∉ organization.deleted →
    ∃ row ∈ organization.secrets, row.content = secret
  gone : ∀ id ∈ organization.deleted, ∀ row ∈ organization.secrets, row.id ≠ id
  distinct : ∀ first ∈ organization.secrets, ∀ second ∈ organization.secrets,
    EqIgnoreAsciiCase first.displayKey second.displayKey → first.id = second.id
  dismissed : ∀ id ∈ organization.dismissed, ∀ item ∈ organization.notifications, item.id ≠ id

/-- The ids of the secrets under the changes of the vault. -/
def vault (organization : Organization) : Ledger String where
  stored := organization.secrets.map VaultRow.id
  added := organization.created.map VaultRow.id
  removed := organization.deleted

def notices (organization : Organization) : Ledger String where
  stored := organization.notifications.map DashboardNotification.id
  added := organization.announced
  removed := organization.dismissed

/-- Any rows whose ids and keys are distinct, and any notifications. -/
structure Initial (organization : Organization) : Prop where
  ids : (organization.secrets.map VaultRow.id).Nodup
  distinct : ∀ first ∈ organization.secrets, ∀ second ∈ organization.secrets,
    EqIgnoreAsciiCase first.displayKey second.displayKey → first.id = second.id
  created : organization.created = organization.secrets.map VaultRow.content
  deleted : organization.deleted = []
  announced : organization.announced = organization.notifications.map DashboardNotification.id
  dismissed : organization.dismissed = []

end Organization

def vaultMachine : Machine Workspace VaultAction where
  start workspace := workspace.organization.Initial ∧
    (∀ session, workspace.sessions session = .idle) ∧ workspace.answers = []
  step := Workspace.step

/-- A step that replaces all rows replaces those that its request has loaded: besides what the
request itself adds or removes nothing was added or removed in between. -/
def Workspace.Undisturbed (workspace : Workspace) : VaultAction → Prop
  | .begin _ _ _ => True
  | .advance session input =>
    match workspace.sessions session with
    | .idle | .reloading _ => True
    | .resolving _ loaded =>
      input.failure = none ∧ HasActiveKey input.ring ∧ (∃ row ∈ loaded, row.Incomplete) →
        workspace.organization.vault.Current .keep (loaded.map VaultRow.id)
    | .creating prepared loaded =>
      input.failure = none → isValid (input.seal prepared) = true →
        workspace.organization.vault.Current (.add input.newId) (loaded.map VaultRow.id)
    | .deleting id loaded =>
      input.failure = none →
        workspace.organization.vault.Current (.remove id) (loaded.map VaultRow.id)
    | .dismissing id loaded =>
      input.failure = none →
        workspace.organization.notices.Current (.remove id)
          (loaded.map DashboardNotification.id)

end DddCqrsEs.FullstackApp
