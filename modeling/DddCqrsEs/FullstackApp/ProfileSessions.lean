import DddCqrsEs.FullstackApp.Profiles
import DddCqrsEs.Transition
import Mathlib.Logic.Function.Basic

/- Updates of profiles as steps on a key-value store. Every step is one operation that may fail,
and the steps of different requests interleave. -/
namespace DddCqrsEs.FullstackApp

open Transition

/-- What an update has checked before it touches the store. -/
structure ProfileUpdate where
  userId : String
  email : Option String
  firstName : String
  lastName : String
  displayName : String
  username : String
  isPublic : Bool
  avatarDataUrl : Option String
  deriving DecidableEq

namespace ProfileUpdate

def prepare (userId : String) (email : Option String) (request : ProfileUpdateRequest) :
    Except AuthStackError ProfileUpdate := do
  let firstName ← normalizeName "first name" request.firstName maxNameLen
  let lastName ← normalizeName "last name" request.lastName maxNameLen
  let displayName ← normalizeName "display name" request.displayName maxDisplayNameLen
  let username ← normalizeUsername request.username
  return ⟨userId, email, firstName, lastName, displayName, username, request.isPublic,
    request.avatarDataUrl⟩

/-- The avatar that replaces the stored one. -/
def avatar (update : ProfileUpdate) (stored : Option String) :
    Except AuthStackError (Option String) :=
  match update.avatarDataUrl with
  | some avatar => validateAvatarDataUrl avatar
  | none => .ok stored

/-- The assignments behind the check of the handle. -/
def apply (update : ProfileUpdate) (profile : StoredProfile) : StoredProfile :=
  { profile with
    firstName := update.firstName
    lastName := update.lastName
    displayName := update.displayName
    username := update.username
    isPublic := update.isPublic }

end ProfileUpdate

/-- How an operation of the store ends. `unavailable` is the failure to open the store. -/
inductive KvOutcome where
  | done
  | unavailable (error : String)
  | failed (error : String)
  deriving DecidableEq

/-- The next operation of an update that has loaded the profile. The outcome of the deletion is
ignored by the code and kept here to tell the runs apart. -/
inductive ProfilePhase where
  /-- read the new handle -/
  | checking
  /-- open the store for the writes -/
  | opening
  /-- delete the old handle -/
  | releasing
  /-- set the new handle -/
  | claiming (freed : Bool)
  /-- set the profile -/
  | saving (freed : Bool)
  deriving DecidableEq

structure RunningUpdate where
  update : ProfileUpdate
  previousUsername : String
  profile : StoredProfile
  phase : ProfilePhase
  deriving DecidableEq

inductive ProfileSession where
  | idle
  | begun (update : ProfileUpdate)
  | running (running : RunningUpdate)
  deriving DecidableEq

/-- The values under the two kinds of keys, the updates in progress and the answers given. -/
structure ProfileServer where
  profiles : String → Option StoredProfile
  handles : String → Option String
  sessions : Nat → ProfileSession
  answers : List (Nat × Except AuthStackError ProfileView)

inductive ProfileAction where
  | begin (session : Nat) (userId : String) (email : Option String)
      (request : ProfileUpdateRequest)
  | advance (session : Nat) (outcome : KvOutcome)
  deriving DecidableEq

def ProfileAction.session : ProfileAction → Nat
  | .begin session _ _ _ => session
  | .advance session _ => session

def storeUnavailable (error : String) : AuthStackError :=
  .store ("profile store unavailable: " ++ error)

namespace ProfileServer

def setSession (server : ProfileServer) (session : Nat) (state : ProfileSession) :
    ProfileServer :=
  { server with sessions := Function.update server.sessions session state }

def answer (server : ProfileServer) (session : Nat) (result : Except AuthStackError ProfileView) :
    ProfileServer :=
  { server.setSession session .idle with answers := server.answers ++ [(session, result)] }

/-- `load_stored_profile` on a store that answers -/
def loadStoredProfile (server : ProfileServer) (userId : String) : StoredProfile :=
  (server.profiles (profileUserKey userId)).getD (.empty userId)

def begin (server : ProfileServer) (session : Nat) (userId : String) (email : Option String)
    (request : ProfileUpdateRequest) : ProfileServer :=
  match ProfileUpdate.prepare userId email request with
  | .error error => server.answer session (.error error)
  | .ok update => server.setSession session (.begun update)

def load (server : ProfileServer) (session : Nat) (update : ProfileUpdate) :
    KvOutcome → ProfileServer
  | .unavailable error => server.answer session (.error (storeUnavailable error))
  | .failed error => server.answer session (.error (.store ("profile read failed: " ++ error)))
  | .done =>
    let profile := server.loadStoredProfile update.userId
    let previousUsername := profile.username
    match update.avatar profile.avatarDataUrl with
    | .error error => server.answer session (.error error)
    | .ok avatar =>
      let profile := { profile with avatarDataUrl := avatar }
      if update.username ≠ "" ∧ update.username ≠ previousUsername then
        server.setSession session (.running ⟨update, previousUsername, profile, .checking⟩)
      else
        server.setSession session
          (.running ⟨update, previousUsername, update.apply profile, .opening⟩)

def check (server : ProfileServer) (session : Nat) (running : RunningUpdate) :
    KvOutcome → ProfileServer
  | .unavailable error => server.answer session (.error (storeUnavailable error))
  | .failed error => server.answer session (.error (.store ("handle lookup failed: " ++ error)))
  | .done =>
    let next : ProfileSession := .running { running with
      profile := running.update.apply running.profile
      phase := .opening }
    match server.handles (profileHandleKey running.update.username) with
    | some owner =>
      if owner ≠ running.update.userId then
        server.answer session (.error (.conflict "that username is already taken"))
      else server.setSession session next
    | none => server.setSession session next

/-- The phase behind the deletion of the old handle. -/
def written (update : ProfileUpdate) (freed : Bool) : ProfilePhase :=
  if update.username ≠ "" then .claiming freed else .saving freed

/-- Only the failure to open the store can happen here. -/
def openStore (server : ProfileServer) (session : Nat) (running : RunningUpdate) :
    KvOutcome → Option ProfileServer
  | .unavailable error => some (server.answer session (.error (storeUnavailable error)))
  | .failed _ => none
  | .done =>
    let phase :=
      if running.previousUsername ≠ "" ∧ running.previousUsername ≠ running.update.username then
        .releasing
      else written running.update false
    some (server.setSession session (.running { running with phase := phase }))

/-- The result of the deletion is thrown away. -/
def release (server : ProfileServer) (session : Nat) (running : RunningUpdate) :
    KvOutcome → Option ProfileServer
  | .unavailable _ => none
  | .failed _ =>
    some (server.setSession session
      (.running { running with phase := written running.update false }))
  | .done =>
    some { server.setSession session
        (.running { running with phase := written running.update true }) with
      handles := Function.update server.handles (profileHandleKey running.previousUsername) none }

def claim (server : ProfileServer) (session : Nat) (running : RunningUpdate) (freed : Bool) :
    KvOutcome → Option ProfileServer
  | .unavailable _ => none
  | .failed error =>
    some (server.answer session (.error (.store ("handle write failed: " ++ error))))
  | .done =>
    some { server.setSession session (.running { running with phase := .saving freed }) with
      handles := Function.update server.handles (profileHandleKey running.update.username)
        (some running.update.userId) }

def save (server : ProfileServer) (session : Nat) (running : RunningUpdate) :
    KvOutcome → ProfileServer
  | .unavailable error => server.answer session (.error (storeUnavailable error))
  | .failed error => server.answer session (.error (.store ("profile write failed: " ++ error)))
  | .done =>
    { server.answer session (.ok (running.profile.toView running.update.email)) with
      profiles := Function.update server.profiles (profileUserKey running.profile.userId)
        (some running.profile) }

def step (server : ProfileServer) : ProfileAction → Option ProfileServer
  | .begin session userId email request =>
    match server.sessions session with
    | .idle => some (server.begin session userId email request)
    | _ => none
  | .advance session outcome =>
    match server.sessions session with
    | .idle => none
    | .begun update => some (server.load session update outcome)
    | .running running =>
      match running.phase with
      | .checking => some (server.check session running outcome)
      | .opening => server.openStore session running outcome
      | .releasing => server.release session running outcome
      | .claiming freed => server.claim session running freed outcome
      | .saving _ => some (server.save session running outcome)

/-- `get_public_profile_by_username` on a store that answers -/
def getPublicProfileByUsername (server : ProfileServer) (value : String) :
    Except AuthStackError PublicProfileView :=
  match normalizeUsername value with
  | .error error => .error error
  | .ok username =>
    if username = "" then .error (.notFound "profile not found")
    else
      match server.handles (profileHandleKey username) with
      | none => .error (.notFound "profile not found")
      | some userId =>
        let profile := server.loadStoredProfile userId
        if profile.isPublic = false ∨ profile.username ≠ username then
          .error (.notFound "profile not found")
        else .ok profile.toPublicView

end ProfileServer

def emptyProfileServer : ProfileServer := ⟨fun _ => none, fun _ => none, fun _ => .idle, []⟩

def profileMachine : Machine ProfileServer ProfileAction where
  start server := server = emptyProfileServer
  step := ProfileServer.step

namespace ProfileServer

def storedProfile (server : ProfileServer) (userId : String) : Option StoredProfile :=
  server.profiles (profileUserKey userId)

/-- The username in the stored profile, empty if there is none. -/
def usernameOf (server : ProfileServer) (userId : String) : String :=
  (server.loadStoredProfile userId).username

def ownerOf (server : ProfileServer) (username : String) : Option String :=
  server.handles (profileHandleKey username)

/-- No update has loaded its profile and not ended yet. -/
def Quiet (server : ProfileServer) : Prop :=
  ∀ session running, server.sessions session ≠ .running running

/-- A step leaves the handles of all users but the one whose update takes it. -/
def KeepsHandles (server next : ProfileServer) (action : ProfileAction) : Prop :=
  ∀ key owner, server.handles key = some owner → next.handles key = some owner ∨
    ∃ session outcome running, action = .advance session outcome ∧
      server.sessions session = .running running ∧ running.update.userId = owner

/-- Usernames are unique, they resolve, and nobody touches the handle of another user. -/
structure Consistent (server : ProfileServer) : Prop where
  unique : ∀ first second profile other, server.storedProfile first = some profile →
    server.storedProfile second = some other → profile.username ≠ "" →
      profile.username = other.username → first = second
  indexed : server.Quiet → ∀ userId profile, server.storedProfile userId = some profile →
    profile.username ≠ "" → server.ownerOf profile.username = some userId
  resolves : server.Quiet → ∀ userId profile, server.storedProfile userId = some profile →
    profile.username ≠ "" → profile.isPublic = true →
      server.getPublicProfileByUsername profile.username = .ok profile.toPublicView
  keeps : ∀ action next, server.step action = some next → server.KeepsHandles next action

end ProfileServer

/-- An update from one username to another one gives up the first and claims the second. -/
def Renames (previousUsername username name : String) : Prop :=
  name ≠ "" ∧ previousUsername ≠ username ∧ (name = previousUsername ∨ name = username)

/-- Whether the old handle is gone. -/
def RunningUpdate.freed (running : RunningUpdate) : Bool :=
  match running.phase with
  | .claiming freed | .saving freed => freed
  | _ => false

/-- An update whose check will find its username taken. -/
def RunningUpdate.Refused (server : ProfileServer) (running : RunningUpdate) : Prop :=
  running.phase = .checking ∧ ∃ owner,
    server.ownerOf running.update.username = some owner ∧ owner ≠ running.update.userId

/-- Two updates that do not get in each other's way. They are of different users, or both keep
the username; and no username is given up or claimed by both, unless one of them claims a taken
one that the other does not give up. -/
def RunningUpdate.Apart (server : ProfileServer) (running other : RunningUpdate) : Prop :=
  (running.update.userId ≠ other.update.userId ∨
    running.previousUsername = running.update.username ∧
      other.previousUsername = other.update.username) ∧
  ((∀ name, Renames running.previousUsername running.update.username name →
      ¬ Renames other.previousUsername other.update.username name) ∨
    (running.Refused server ∧ other.previousUsername ≠ running.update.username) ∨
    (other.Refused server ∧ running.previousUsername ≠ other.update.username))

instance (previousUsername username name : String) :
    Decidable (Renames previousUsername username name) :=
  inferInstanceAs (Decidable (_ ∧ _))

/-- Only two usernames can be given up or claimed. -/
theorem forall_renames_iff {previousUsername username : String} {holds : String → Prop} :
    (Renames previousUsername username previousUsername → holds previousUsername) ∧
        (Renames previousUsername username username → holds username) ↔
      ∀ name, Renames previousUsername username name → holds name := by
  constructor
  · rintro ⟨previous, own⟩ name renames
    rcases renames.2.2 with same | same
    · exact same ▸ previous (same ▸ renames)
    · exact same ▸ own (same ▸ renames)
  · intro every
    exact ⟨every _, every _⟩

instance (server : ProfileServer) (running : RunningUpdate) :
    Decidable (running.Refused server) :=
  inferInstanceAs (Decidable (_ ∧ ∃ owner ∈ server.ownerOf running.update.username, _))

instance (server : ProfileServer) (running other : RunningUpdate) :
    Decidable (running.Apart server other) :=
  decidable_of_iff (_ ∧ (_ ∨ _)) (and_congr_right' (or_congr_left forall_renames_iff))

namespace ProfileServer

/-- An update as it goes on behind the load of its profile. -/
def loaded (server : ProfileServer) (update : ProfileUpdate) : RunningUpdate :=
  ⟨update, server.usernameOf update.userId, server.loadStoredProfile update.userId,
    if update.username ≠ "" ∧ update.username ≠ server.usernameOf update.userId then .checking
    else .opening⟩

/-- A profile is loaded only while the updates in progress are apart from this one; and no
operation fails behind the deletion of an old handle. -/
def Undisturbed (server : ProfileServer) : ProfileAction → Prop
  | .begin _ _ _ _ => True
  | .advance session outcome =>
    match server.sessions session with
    | .idle => True
    | .begun update => outcome = .done →
        ∀ other running, server.sessions other = .running running →
          running.Apart server (server.loaded update)
    | .running running => running.freed = true → outcome = .done

end ProfileServer

end DddCqrsEs.FullstackApp
