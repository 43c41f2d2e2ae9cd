import DddCqrsEs.FullstackApp.ProfileSessions

/- The handle index of the profiles over any interleaving of updates. -/
namespace DddCqrsEs.FullstackApp

open Transition

/-- What is known of an update that has loaded its profile. -/
structure RunningUpdate.Sound (server : ProfileServer) (r : RunningUpdate) : Prop where
  previous : r.previousUsername = server.usernameOf r.update.userId
  own : r.profile.userId = r.update.userId
  normal : NormalUsername r.update.username
  checking : r.phase = .checking →
    r.update.username ≠ "" ∧ r.update.username ≠ r.previousUsername
  applied : r.phase ≠ .checking → r.profile.username = r.update.username
  available : r.phase ≠ .checking → r.update.username ≠ "" →
    r.update.username ≠ r.previousUsername →
      ∀ owner, server.ownerOf r.update.username = some owner → owner = r.update.userId
  releasing : r.phase = .releasing ∨ r.freed = true →
    r.previousUsername ≠ "" ∧ r.previousUsername ≠ r.update.username
  claiming : ∀ freed, r.phase = .claiming freed → r.update.username ≠ ""
  saving : ∀ freed, r.phase = .saving freed → r.update.username ≠ "" →
    server.ownerOf r.update.username = some r.update.userId

def ProfileSession.Sound (server : ProfileServer) : ProfileSession → Prop
  | .idle => True
  | .begun update => NormalUsername update.username
  | .running r => r.Sound server

section Apart

variable {server next : ProfileServer} {r other : RunningUpdate}

theorem RunningUpdate.Apart.symm (apart : r.Apart server other) : other.Apart server r := by
  refine ⟨apart.1.imp Ne.symm And.symm, ?_⟩
  rcases apart.2 with disjoint | refused | refused
  · exact .inl fun name gives claims => disjoint name claims gives
  · exact .inr (.inr refused)
  · exact .inr (.inl refused)

/-- Two updates behind their checks have no username in common. -/
theorem RunningUpdate.Apart.disjoint (apart : r.Apart server other) (checked : r.phase ≠ .checking)
    (passed : other.phase ≠ .checking) (name : String)
    (gives : Renames r.previousUsername r.update.username name) :
    ¬ Renames other.previousUsername other.update.username name := by
  rcases apart.2 with disjoint | refused | refused
  · exact disjoint name gives
  · exact absurd refused.1.1 checked
  · exact absurd refused.1.1 passed

/-- Two updates of one user keep its username. -/
theorem RunningUpdate.Apart.keeps (apart : r.Apart server other)
    (same : r.update.userId = other.update.userId) :
    r.previousUsername = r.update.username ∧ other.previousUsername = other.update.username :=
  apart.1.resolve_left (not_not.mpr same)

/-- Updates stay apart as long as what is refused stays refused. -/
theorem RunningUpdate.Apart.transfer (apart : r.Apart server other) {profile : StoredProfile}
    {phase : ProfilePhase}
    (first : r.Refused server →
      RunningUpdate.Refused next ⟨r.update, r.previousUsername, profile, phase⟩)
    (second : other.Refused server → other.Refused next) :
    RunningUpdate.Apart next ⟨r.update, r.previousUsername, profile, phase⟩ other :=
  ⟨apart.1, apart.2.imp_right
    (Or.imp (fun refused => ⟨first refused.1, refused.2⟩)
      (fun refused => ⟨second refused.1, refused.2⟩))⟩

end Apart

theorem RunningUpdate.checked_of_freed {r : RunningUpdate} (gone : r.freed = true) :
    r.phase ≠ .checking := by
  intro phase
  unfold RunningUpdate.freed at gone
  rw [phase] at gone
  cases gone

namespace ProfileServer

/-- Stored usernames are unique, and their handles are in place unless an update has deleted its
own. -/
structure Sound (server : ProfileServer) : Prop where
  stored : ∀ userId profile, server.storedProfile userId = some profile →
    profile.userId = userId ∧ NormalUsername profile.username
  unique : ∀ first second, server.usernameOf first ≠ "" →
    server.usernameOf first = server.usernameOf second → first = second
  indexed : ∀ userId, server.usernameOf userId ≠ "" →
    server.ownerOf (server.usernameOf userId) = some userId ∨
      ∃ session r, server.sessions session = .running r ∧ r.update.userId = userId ∧
        r.freed = true
  sessions : ∀ session, (server.sessions session).Sound server
  apart : ∀ first second r other, first ≠ second → server.sessions first = .running r →
    server.sessions second = .running other → r.Apart server other

variable {server next : ProfileServer} {session : Nat} {r : RunningUpdate}

theorem loadStoredProfile_some {userId : String} {profile : StoredProfile}
    (stored : server.storedProfile userId = some profile) :
    server.loadStoredProfile userId = profile := by
  unfold storedProfile at stored
  rw [loadStoredProfile, stored, Option.getD_some]

theorem Sound.loaded (sound : server.Sound) (userId : String) :
    (server.loadStoredProfile userId).userId = userId ∧
      NormalUsername (server.usernameOf userId) := by
  unfold usernameOf
  cases stored : server.storedProfile userId with
  | some profile =>
    rw [loadStoredProfile_some stored]
    exact sound.stored userId profile stored
  | none =>
    unfold storedProfile at stored
    rw [loadStoredProfile, stored]
    exact ⟨rfl, rfl⟩

theorem Sound.running (sound : server.Sound) (held : server.sessions session = .running r) :
    r.Sound server := by
  have known := sound.sessions session
  rw [held] at known
  exact known

/-- The username that an update claims or keeps is the stored one of no other user. -/
theorem Sound.sole (sound : server.Sound) (held : server.sessions session = .running r)
    (checked : r.phase ≠ .checking) (named : r.update.username ≠ "") (userId : String)
    (same : server.usernameOf userId = r.update.username) : userId = r.update.userId := by
  have known := sound.running held
  have some : server.usernameOf userId ≠ "" := same ▸ named
  by_cases kept : r.update.username = r.previousUsername
  · apply sound.unique userId r.update.userId some
    rw [same, kept, known.previous]
  · rcases sound.indexed userId some with owned | ⟨other, giver, elsewhere, ofUser, freed⟩
    · rw [same] at owned
      exact known.available checked named kept userId owned
    · -- an update that has deleted the handle gives up this username
      by_contra different
      have distinct : session ≠ other := by
        intro equal
        rw [← equal, held] at elsewhere
        cases elsewhere
        exact different ofUser.symm
      have gives := sound.running elsewhere
      have gave := gives.releasing (.inr freed)
      have previous : giver.previousUsername = r.update.username := by
        rw [gives.previous, ofUser, same]
      have apart := sound.apart session other r giver distinct held elsewhere
      refine apart.disjoint checked (RunningUpdate.checked_of_freed freed) r.update.username ?_ ?_
      · exact ⟨named, Ne.symm kept, .inr rfl⟩
      · exact ⟨named, gave.2, .inl previous.symm⟩

/-- An update that has not deleted the old handle still has it. -/
theorem Sound.holds (sound : server.Sound) (held : server.sessions session = .running r)
    (kept : r.freed = false) (named : server.usernameOf r.update.userId ≠ "") :
    server.ownerOf (server.usernameOf r.update.userId) = some r.update.userId := by
  apply (sound.indexed r.update.userId named).resolve_right
  intro ⟨other, s, live, ofUser, gone⟩
  by_cases own : session = other
  · rw [← own, held] at live
    cases live
    rw [kept] at gone
    cases gone
  · have keeps := (sound.apart session other r s own held live).keeps ofUser.symm
    exact ((sound.running live).releasing (.inr gone)).2 keeps.2

end ProfileServer

variable {server next : ProfileServer} {session : Nat} {r : RunningUpdate}

/-- To an update only its user's stored username and the handle that it wants matter. -/
theorem RunningUpdate.Sound.transfer (known : r.Sound server)
    (username : next.usernameOf r.update.userId = server.usernameOf r.update.userId)
    (owner : r.phase ≠ .checking → r.update.username ≠ "" →
      next.ownerOf r.update.username = server.ownerOf r.update.username) : r.Sound next where
  previous := known.previous.trans username.symm
  own := known.own
  normal := known.normal
  checking := known.checking
  applied := known.applied
  available checked named changed := by
    rw [owner checked named]
    exact known.available checked named changed
  releasing := known.releasing
  claiming := known.claiming
  saving freed phase named := by
    rw [owner (by simp [phase]) named]
    exact known.saving freed phase named

variable {update : ProfileUpdate}

/-- An update that has not come to its writes. -/
theorem RunningUpdate.Sound.early {profile : StoredProfile} {phase : ProfilePhase}
    (early : phase = .checking ∨ phase = .opening ∨ phase = .releasing)
    (own : profile.userId = update.userId) (normal : NormalUsername update.username)
    (checking : phase = .checking →
      update.username ≠ "" ∧ update.username ≠ server.usernameOf update.userId)
    (applied : phase ≠ .checking → profile.username = update.username ∧
      (update.username ≠ "" → update.username ≠ server.usernameOf update.userId →
        ∀ owner, server.ownerOf update.username = some owner → owner = update.userId))
    (releasing : phase = .releasing → server.usernameOf update.userId ≠ "" ∧
      server.usernameOf update.userId ≠ update.username) :
    RunningUpdate.Sound server
      ⟨update, server.usernameOf update.userId, profile, phase⟩ where
  previous := rfl
  own := own
  normal := normal
  checking := checking
  applied checked := (applied checked).1
  available checked := (applied checked).2
  releasing gave := by
    rcases early with same | same | same <;> simp_all [RunningUpdate.freed]
  claiming freed same := by
    rcases early with other | other | other <;> simp_all
  saving freed same := by
    rcases early with other | other | other <;> simp_all

/-- Behind the deletion an update without a username goes straight to the profile. -/
theorem RunningUpdate.Sound.written (known : r.Sound server) (checked : r.phase ≠ .checking)
    {freed : Bool} (gave : freed = true →
      r.previousUsername ≠ "" ∧ r.previousUsername ≠ r.update.username) :
    RunningUpdate.Sound server
      ⟨r.update, r.previousUsername, r.profile, ProfileServer.written r.update freed⟩ := by
  unfold ProfileServer.written
  split
  · rename_i named
    refine ⟨known.previous, known.own, known.normal, nofun, fun _ => known.applied checked,
      fun _ => known.available checked, ?_, fun _ _ => named, ?_⟩
    · simpa [RunningUpdate.freed] using gave
    · simp
  · rename_i nameless
    refine ⟨known.previous, known.own, known.normal, nofun, fun _ => known.applied checked,
      fun _ => known.available checked, ?_, ?_, ?_⟩
    · simpa [RunningUpdate.freed] using gave
    · simp
    · exact fun _ _ named => absurd named nameless

theorem RunningUpdate.freed_written (update : ProfileUpdate) (previousUsername : String)
    (profile : StoredProfile) (freed : Bool) :
    RunningUpdate.freed
      ⟨update, previousUsername, profile, ProfileServer.written update freed⟩ = freed := by
  unfold ProfileServer.written
  split <;> rfl

theorem ProfileUpdate.prepare_normal {userId : String} {email : Option String}
    {request : ProfileUpdateRequest}
    (prepared : ProfileUpdate.prepare userId email request = .ok update) :
    NormalUsername update.username := by
  obtain ⟨firstName, _, prepared⟩ := ok_of_bind prepared
  obtain ⟨lastName, _, prepared⟩ := ok_of_bind prepared
  obtain ⟨displayName, _, prepared⟩ := ok_of_bind prepared
  obtain ⟨username, normalized, prepared⟩ := ok_of_bind prepared
  cases prepared
  exact normalizeUsername_normal normalized

namespace ProfileServer

variable {state : ProfileSession} {profile : StoredProfile} {phase : ProfilePhase}
  {outcome : KvOutcome}

/-- What has to be shown of a step that changes one session: what it does to the store, and that
the new state of the session and those of the others fit the new store. -/
theorem Sound.replace (sound : server.Sound)
    (changed : next.sessions = Function.update server.sessions session state)
    (stored : ∀ userId profile, next.storedProfile userId = some profile →
      profile.userId = userId ∧ NormalUsername profile.username)
    (unique : ∀ first second, next.usernameOf first ≠ "" →
      next.usernameOf first = next.usernameOf second → first = second)
    (indexed : ∀ userId, next.usernameOf userId ≠ "" →
      next.ownerOf (next.usernameOf userId) = some userId ∨
        (∃ other r, other ≠ session ∧ server.sessions other = .running r ∧
          r.update.userId = userId ∧ r.freed = true) ∨
        ∃ r, state = .running r ∧ r.update.userId = userId ∧ r.freed = true)
    (own : state.Sound next)
    (others : ∀ other r, other ≠ session → server.sessions other = .running r → r.Sound next)
    (refused : ∀ other r, other ≠ session → server.sessions other = .running r →
      r.Refused server → r.Refused next)
    (apart : ∀ r, state = .running r → ∀ other s, other ≠ session →
      server.sessions other = .running s → r.Apart next s) : next.Sound := by
  have here : next.sessions session = state := by
    rw [changed, Function.update_self]
  have elsewhere : ∀ other, other ≠ session → next.sessions other = server.sessions other := by
    intro other different
    rw [changed, Function.update_of_ne different]
  constructor
  · exact stored
  · exact unique
  · intro userId named
    rcases indexed userId named with owned | ⟨other, r, different, held, rest⟩ | ⟨r, held, rest⟩
    · exact .inl owned
    · exact .inr ⟨other, r, (elsewhere other different).trans held, rest⟩
    · exact .inr ⟨session, r, here.trans held, rest⟩
  · intro other
    by_cases same : other = session
    · rw [same, here]
      exact own
    · rw [elsewhere other same]
      cases held : server.sessions other with
      | idle => trivial
      | begun update =>
        have known := sound.sessions other
        rw [held] at known
        exact known
      | running r => exact others other r same held
  · intro first second r other different held live
    by_cases same : first = session
    · rw [same, here] at held
      rw [same] at different
      rw [elsewhere second (Ne.symm different)] at live
      exact apart r held second other (Ne.symm different) live
    · rw [elsewhere first same] at held
      by_cases own : second = session
      · rw [own, here] at live
        exact (apart other live first r same held).symm
      · rw [elsewhere second own] at live
        exact (sound.apart first second r other different held live).transfer
          (refused first r same held) (refused second other own live)

/-- A step that leaves the store as it is. -/
theorem Sound.keepStore (sound : server.Sound)
    (changed : next.sessions = Function.update server.sessions session state)
    (profiles : next.profiles = server.profiles) (handles : next.handles = server.handles)
    (ended : ∀ r, server.sessions session = .running r → r.freed = false) (own : state.Sound server)
    (apart : ∀ r, state = .running r → ∀ other s, other ≠ session →
      server.sessions other = .running s → r.Apart server s) : next.Sound := by
  have stored : next.storedProfile = server.storedProfile := by
    unfold storedProfile
    rw [profiles]
  have usernames : next.usernameOf = server.usernameOf := by
    unfold usernameOf loadStoredProfile
    rw [profiles]
  have owners : next.ownerOf = server.ownerOf := by
    unfold ownerOf
    rw [handles]
  have fits : ∀ r : RunningUpdate, r.Sound server → r.Sound next := by
    intro r known
    apply known.transfer
    · rw [usernames]
    · intro _ _
      rw [owners]
  have stays : ∀ r : RunningUpdate, r.Refused server → r.Refused next := by
    intro r refused
    unfold RunningUpdate.Refused
    rw [owners]
    exact refused
  apply sound.replace changed
  · rw [stored]
    exact sound.stored
  · rw [usernames]
    exact sound.unique
  · rw [usernames, owners]
    intro userId named
    rcases sound.indexed userId named with owned | ⟨other, r, held, ofUser, freed⟩
    · exact .inl owned
    · refine .inr (.inl ⟨other, r, ?_, held, ofUser, freed⟩)
      intro same
      rw [same] at held
      rw [ended r held] at freed
      cases freed
  · cases state with
    | idle => trivial
    | begun update => exact own
    | running r => exact fits r own
  · intro other r _ held
    exact fits r (sound.running held)
  · intro other r _ _ refused
    exact stays r refused
  · intro r same other s different live
    exact (apart r same other s different live).transfer (stays r) (stays s)

theorem Sound.answer (sound : server.Sound)
    (ended : ∀ r, server.sessions session = .running r → r.freed = false)
    (result : Except AuthStackError ProfileView) : (server.answer session result).Sound := by
  have idle : ProfileSession.idle.Sound server := trivial
  refine sound.keepStore rfl rfl rfl ended idle ?_
  intro r none
  cases none

theorem Sound.begin (sound : server.Sound) (idle : server.sessions session = .idle)
    (userId : String) (email : Option String) (request : ProfileUpdateRequest) :
    (server.begin session userId email request).Sound := by
  have ended : ∀ r, server.sessions session = .running r → r.freed = false := by
    intro r held
    rw [idle] at held
    cases held
  unfold ProfileServer.begin
  split
  · exact sound.answer ended _
  · rename_i update prepared
    have own : (ProfileSession.begun update).Sound server := ProfileUpdate.prepare_normal prepared
    refine sound.keepStore rfl rfl rfl ended own ?_
    intro r none
    cases none

/-- An update goes on without touching the store. -/
theorem Sound.proceed (sound : server.Sound) (held : server.sessions session = .running r)
    (kept : r.freed = false) (unrefused : ¬ r.Refused server)
    (own : RunningUpdate.Sound server ⟨r.update, r.previousUsername, profile, phase⟩) :
    (server.setSession session (.running ⟨r.update, r.previousUsername, profile, phase⟩)).Sound := by
  have ended : ∀ r, server.sessions session = .running r → r.freed = false := by
    intro other same
    rw [held] at same
    cases same
    exact kept
  have fits : (ProfileSession.running ⟨r.update, r.previousUsername, profile, phase⟩).Sound
      server := own
  refine sound.keepStore rfl rfl rfl ended fits ?_
  intro r' same other s different live
  cases same
  exact (sound.apart session other r s (Ne.symm different) held live).transfer
    (fun refused => absurd refused unrefused) id

/-- An update has loaded its profile while none that it clashes with is in progress. -/
theorem Sound.start (sound : server.Sound) (held : server.sessions session = .begun update)
    (undisturbed : server.Undisturbed (.advance session .done))
    (loaded : (server.loaded update).phase = phase)
    (own : RunningUpdate.Sound server ⟨update, server.usernameOf update.userId, profile, phase⟩) :
    (server.setSession session
      (.running ⟨update, server.usernameOf update.userId, profile, phase⟩)).Sound := by
  unfold Undisturbed at undisturbed
  dsimp only at undisturbed
  rw [held] at undisturbed
  have ended : ∀ r, server.sessions session = .running r → r.freed = false := by
    intro r same
    rw [held] at same
    cases same
  have fits : (ProfileSession.running ⟨update, server.usernameOf update.userId, profile,
      phase⟩).Sound server := own
  refine sound.keepStore rfl rfl rfl ended fits ?_
  intro r same other s _ live
  cases same
  rw [← loaded]
  exact (undisturbed rfl other s live).symm

theorem Sound.load (sound : server.Sound) (held : server.sessions session = .begun update)
    (undisturbed : server.Undisturbed (.advance session outcome)) :
    (server.load session update outcome).Sound := by
  have ended : ∀ r, server.sessions session = .running r → r.freed = false := by
    intro r same
    rw [held] at same
    cases same
  have normal : NormalUsername update.username := by
    have known := sound.sessions session
    rw [held] at known
    exact known
  have owned := (sound.loaded update.userId).1
  cases outcome with
  | unavailable error => exact sound.answer ended _
  | failed error => exact sound.answer ended _
  | done =>
    unfold ProfileServer.load
    dsimp only
    split
    · exact sound.answer ended _
    split
    · rename_i renamed
      apply sound.start held undisturbed (if_pos renamed)
      refine RunningUpdate.Sound.early (.inl rfl) owned normal ?_ ?_ ?_
      · exact fun _ => renamed
      · exact fun checked => absurd rfl checked
      · simp
    · rename_i same
      apply sound.start held undisturbed (if_neg same)
      refine RunningUpdate.Sound.early (.inr (.inl rfl)) owned normal ?_ ?_ ?_
      · simp
      · exact fun _ => ⟨rfl, fun named changed => absurd ⟨named, changed⟩ same⟩
      · simp

theorem freed_eq_false (phase : r.phase = .checking ∨ r.phase = .opening ∨ r.phase = .releasing) :
    r.freed = false := by
  unfold RunningUpdate.freed
  rcases phase with same | same | same <;> rw [same]

theorem Sound.check (sound : server.Sound) (held : server.sessions session = .running r)
    (phase : r.phase = .checking) (outcome : KvOutcome) :
    (server.check session r outcome).Sound := by
  have known := sound.running held
  have kept : r.freed = false := freed_eq_false (.inl phase)
  have ended : ∀ r, server.sessions session = .running r → r.freed = false := by
    intro other same
    rw [held] at same
    cases same
    exact kept
  cases outcome with
  | unavailable error => exact sound.answer ended _
  | failed error => exact sound.answer ended _
  | done =>
    have proceed : (∀ owner, server.ownerOf r.update.username = some owner →
        owner = r.update.userId) → (server.setSession session (.running
          ⟨r.update, r.previousUsername, r.update.apply r.profile, .opening⟩)).Sound := by
      intro free
      have unrefused : ¬ r.Refused server := by
        rintro ⟨_, owner, owned, different⟩
        exact different (free owner owned)
      apply sound.proceed held kept unrefused
      rw [known.previous]
      refine RunningUpdate.Sound.early (.inr (.inl rfl)) known.own known.normal ?_ ?_ ?_
      · simp
      · exact fun _ => ⟨rfl, fun _ _ => free⟩
      · simp
    unfold ProfileServer.check
    dsimp only
    split
    · rename_i owner found
      split
      · exact sound.answer ended _
      · rename_i mine
        apply proceed
        intro other same
        unfold ownerOf at same
        rw [found] at same
        cases same
        exact not_not.mp mine
    · rename_i absent
      apply proceed
      intro other same
      unfold ownerOf at same
      rw [absent] at same
      cases same

theorem Sound.openStore (sound : server.Sound) (held : server.sessions session = .running r)
    (phase : r.phase = .opening) (stepped : server.openStore session r outcome = some next) :
    next.Sound := by
  have known := sound.running held
  have kept : r.freed = false := freed_eq_false (.inr (.inl phase))
  have checked : r.phase ≠ .checking := by simp [phase]
  have ended : ∀ r, server.sessions session = .running r → r.freed = false := by
    intro other same
    rw [held] at same
    cases same
    exact kept
  cases outcome with
  | unavailable error =>
    cases stepped
    exact sound.answer ended _
  | failed error => cases stepped
  | done =>
    unfold ProfileServer.openStore at stepped
    dsimp only at stepped
    cases stepped
    apply sound.proceed held kept (fun refused => checked refused.1)
    split
    · rename_i renamed
      have available := known.available checked
      rw [known.previous] at renamed available ⊢
      refine RunningUpdate.Sound.early (.inr (.inr rfl)) known.own known.normal ?_ ?_ ?_
      · simp
      · exact fun _ => ⟨known.applied checked, available⟩
      · exact fun _ => renamed
    · exact known.written checked (by simp)

/-- Two updates behind their checks that want the same username are of one user. -/
theorem Sound.wants (sound : server.Sound) {other : Nat} {s : RunningUpdate}
    (different : session ≠ other) (held : server.sessions session = .running r)
    (live : server.sessions other = .running s) (checked : r.phase ≠ .checking)
    (passed : s.phase ≠ .checking) (named : r.update.username ≠ "")
    (same : s.update.username = r.update.username) : r.update.userId = s.update.userId := by
  have apart := sound.apart session other r s different held live
  have wanted : s.update.username ≠ "" := same ▸ named
  by_cases kept : r.previousUsername = r.update.username
  · apply sound.sole live passed wanted r.update.userId
    rw [← (sound.running held).previous, kept, same]
  by_cases keeps : s.previousUsername = s.update.username
  · have mine := sound.sole held checked named s.update.userId
      (by rw [← (sound.running live).previous, keeps, same])
    exact mine.symm
  · refine absurd ?_ (apart.disjoint checked passed r.update.username ?_)
    · exact ⟨named, keeps, .inr same.symm⟩
    · exact ⟨named, kept, .inr rfl⟩

/-- A step that writes or deletes the handle of a username that no other user has stored. Updates
that want it are left with the handle as it was, and refused ones are still refused. -/
theorem Sound.setHandle (sound : server.Sound) (held : server.sessions session = .running r)
    (owner : Option String) {name : String} (normal : NormalUsername name)
    (handled : ∀ other, next.ownerOf other =
      if profileHandleKey other = profileHandleKey name then owner else server.ownerOf other)
    (profiles : next.profiles = server.profiles)
    (changed : next.sessions = Function.update server.sessions session
      (.running ⟨r.update, r.previousUsername, r.profile, phase⟩))
    (stored : ∀ userId, server.usernameOf userId = name → userId = r.update.userId)
    (wanted : ∀ other s, other ≠ session → server.sessions other = .running s →
      s.phase ≠ .checking → s.update.username ≠ "" → s.update.username = name →
        owner = server.ownerOf name)
    (refused : ∀ other s, other ≠ session → server.sessions other = .running s →
      s.phase = .checking → s.update.username = name →
        ∃ taker, owner = some taker ∧ taker ≠ s.update.userId) (checked : r.phase ≠ .checking)
    (self : server.usernameOf r.update.userId ≠ "" →
      next.ownerOf (server.usernameOf r.update.userId) = some r.update.userId ∨
        RunningUpdate.freed ⟨r.update, r.previousUsername, r.profile, phase⟩ = true)
    (own : RunningUpdate.Sound next ⟨r.update, r.previousUsername, r.profile, phase⟩) :
    next.Sound := by
  have usernames : next.usernameOf = server.usernameOf := by
    unfold usernameOf loadStoredProfile
    rw [profiles]
  have unchanged : ∀ other, NormalUsername other → other ≠ name →
      next.ownerOf other = server.ownerOf other := by
    intro other fine apart
    rw [handled, if_neg]
    exact fun same => apart (profileHandleKey_inj fine normal same)
  have still : ∀ other s, other ≠ session → server.sessions other = .running s →
      s.Refused server → s.Refused next := by
    intro other s different live ⟨checking, owner, owned, foreign⟩
    refine ⟨checking, ?_⟩
    by_cases same : s.update.username = name
    · obtain ⟨taker, taken, other⟩ := refused other s different live checking same
      exact ⟨taker, by rw [same, handled, if_pos rfl, taken], other⟩
    · exact ⟨owner, by rw [unchanged _ (sound.running live).normal same, owned], foreign⟩
  refine sound.replace changed ?_ ?_ ?_ own ?_ still ?_
  · intro userId profile found
    unfold storedProfile at found
    rw [profiles] at found
    exact sound.stored userId profile found
  · rw [usernames]
    exact sound.unique
  · rw [usernames]
    intro userId named
    by_cases mine : userId = r.update.userId
    · rw [mine] at named ⊢
      exact (self named).imp_right fun freed => .inr ⟨_, rfl, rfl, freed⟩
    · rw [unchanged _ (sound.loaded userId).2 fun same => mine (stored userId same)]
      apply (sound.indexed userId named).imp_right
      intro ⟨other, s, live, ofUser, freed⟩
      refine .inl ⟨other, s, ?_, live, ofUser, freed⟩
      intro same
      rw [same, held] at live
      cases live
      exact mine ofUser.symm
  · intro other s different live
    have known := sound.running live
    apply known.transfer
    · rw [usernames]
    · intro passed named
      by_cases same : s.update.username = name
      · rw [same, handled, if_pos rfl]
        exact wanted other s different live passed named same
      · exact unchanged _ known.normal same
  · intro r' same other s different live
    cases same
    exact (sound.apart session other r s (Ne.symm different) held live).transfer
      (fun refused => absurd refused.1 checked) (still other s different live)

theorem Sound.release (sound : server.Sound) (held : server.sessions session = .running r)
    (phase : r.phase = .releasing) (stepped : server.release session r outcome = some next) :
    next.Sound := by
  have known := sound.running held
  have kept : r.freed = false := freed_eq_false (.inr (.inr phase))
  have checked : r.phase ≠ .checking := by simp [phase]
  have gave := known.releasing (.inl phase)
  cases outcome with
  | unavailable error => cases stepped
  | failed error =>
    cases stepped
    exact sound.proceed held kept (fun refused => checked refused.1)
      (known.written checked (by simp))
  | done =>
    cases stepped
    have normal : NormalUsername r.previousUsername := by
      rw [known.previous]
      exact (sound.loaded _).2
    refine sound.setHandle held none normal ?_ rfl rfl ?_ ?_ ?_ checked ?_ ?_
    · intro other
      simp [ownerOf, Function.update_apply]
    · intro userId same
      apply sound.unique userId r.update.userId
      · rw [same]
        exact gave.1
      · rw [same, known.previous]
    · intro other s different live passed wanted same
      have mine := sound.sole live passed wanted r.update.userId
        (by rw [← known.previous, same])
      have keeps := (sound.apart session other r s (Ne.symm different) held live).keeps mine
      exact absurd keeps.1 gave.2
    · intro other s different live checking same
      have apart := sound.apart session other r s (Ne.symm different) held live
      have wants := (sound.running live).checking checking
      rcases apart.2 with disjoint | refused | refused
      · refine absurd ?_ (disjoint r.previousUsername ⟨gave.1, gave.2, .inl rfl⟩)
        exact ⟨gave.1, Ne.symm wants.2, .inr same.symm⟩
      · exact absurd refused.1.1 checked
      · exact absurd same.symm refused.2
    · intro _
      right
      rw [RunningUpdate.freed_written]
    · have after : RunningUpdate.Sound server
          ⟨r.update, r.previousUsername, r.profile, written r.update true⟩ :=
        known.written checked fun _ => gave
      refine after.transfer rfl fun _ _ => ?_
      have apart : r.update.username ≠ r.previousUsername := Ne.symm gave.2
      unfold ownerOf
      dsimp only
      rw [Function.update_of_ne]
      exact fun same => apart (profileHandleKey_inj known.normal normal same)

theorem Sound.claim (sound : server.Sound) (held : server.sessions session = .running r)
    {freed : Bool} (phase : r.phase = .claiming freed)
    (undisturbed : r.freed = true → outcome = .done)
    (stepped : server.claim session r freed outcome = some next) : next.Sound := by
  have known := sound.running held
  have checked : r.phase ≠ .checking := by simp [phase]
  have same : r.freed = freed := by simp [RunningUpdate.freed, phase]
  have named : r.update.username ≠ "" := known.claiming freed phase
  cases outcome with
  | unavailable error => cases stepped
  | failed error =>
    cases stepped
    apply sound.answer
    intro other live
    rw [held] at live
    cases live
    by_contra gone
    cases undisturbed (by simpa using gone)
  | done =>
    cases stepped
    have owned : ∀ other, ownerOf { server.setSession session (.running
          ⟨r.update, r.previousUsername, r.profile, .saving freed⟩) with
        handles := Function.update server.handles (profileHandleKey r.update.username)
          (some r.update.userId) } other =
        if profileHandleKey other = profileHandleKey r.update.username then
          some r.update.userId
        else server.ownerOf other := by
      intro other
      simp [ownerOf, Function.update_apply]
    refine sound.setHandle held (some r.update.userId) known.normal owned rfl rfl
      ?_ ?_ ?_ checked ?_ ?_
    · exact fun userId stored => sound.sole held checked named userId stored
    · intro other s different live passed _ both
      have mine := sound.wants (Ne.symm different) held live checked passed named both
      have keeps := (sound.apart session other r s (Ne.symm different) held live).keeps mine
      have kept : r.freed = false := by
        by_contra gone
        exact (known.releasing (.inr (by simpa using gone))).2 keeps.1
      have own := keeps.1.symm.trans known.previous
      rw [own, sound.holds held kept (own ▸ named)]
    · intro other s different live checking _
      refine ⟨_, rfl, fun mine => ?_⟩
      have keeps := (sound.apart session other r s (Ne.symm different) held live).keeps mine
      exact ((sound.running live).checking checking).2 keeps.2.symm
    · intro mine
      rw [owned]
      rcases sound.indexed _ mine with indexed | ⟨other, s, live, ofUser, gone⟩
      · left
        split
        · rfl
        · exact indexed
      · right
        have own : session = other := by
          by_contra different
          have keeps := (sound.apart session other r s different held live).keeps ofUser.symm
          exact ((sound.running live).releasing (.inr gone)).2 keeps.2
        rw [← own, held] at live
        cases live
        rw [same] at gone
        exact gone
    · refine ⟨known.previous, known.own, known.normal, nofun, fun _ => known.applied checked,
        ?_, ?_, ?_, ?_⟩
      · intro _ _ _ owner found
        rw [owned, if_pos rfl] at found
        cases found
        rfl
      · simp only [reduceCtorEq, false_or]
        intro gone
        exact known.releasing (.inr (same.trans gone))
      · simp
      · intro _ _ _
        rw [owned, if_pos rfl]

theorem Sound.save (sound : server.Sound) (held : server.sessions session = .running r)
    {freed : Bool} (phase : r.phase = .saving freed)
    (undisturbed : r.freed = true → outcome = .done) : (server.save session r outcome).Sound := by
  have known := sound.running held
  have checked : r.phase ≠ .checking := by simp [phase]
  have ended : outcome ≠ .done → ∀ r, server.sessions session = .running r → r.freed = false := by
    intro failed other live
    rw [held] at live
    cases live
    by_contra gone
    exact failed (undisturbed (by simpa using gone))
  cases outcome with
  | unavailable error => exact sound.answer (ended (by simp)) _
  | failed error => exact sound.answer (ended (by simp)) _
  | done =>
    have loaded : ∀ userId, (server.save session r .done).loadStoredProfile userId =
        if userId = r.update.userId then r.profile else server.loadStoredProfile userId := by
      intro userId
      unfold ProfileServer.save loadStoredProfile
      dsimp only
      rw [known.own, Function.update_apply]
      by_cases mine : userId = r.update.userId
      · rw [if_pos (congrArg profileUserKey mine), if_pos mine]
        rfl
      · rw [if_neg (fun same => mine (profileUserKey_inj same)), if_neg mine]
    have username : ∀ userId, (server.save session r .done).usernameOf userId =
        if userId = r.update.userId then r.update.username else server.usernameOf userId := by
      intro userId
      unfold usernameOf
      rw [loaded]
      split
      · exact known.applied checked
      · rfl
    have idle : ProfileSession.idle.Sound (server.save session r .done) := trivial
    refine sound.replace rfl ?_ ?_ ?_ idle ?_ ?_ ?_
    · intro userId profile found
      by_cases mine : userId = r.update.userId
      · have same := loadStoredProfile_some found
        rw [loaded, if_pos mine] at same
        rw [← same, known.own, mine, known.applied checked]
        exact ⟨rfl, known.normal⟩
      · apply sound.stored userId profile
        unfold ProfileServer.save storedProfile at found
        dsimp only at found
        rw [known.own, Function.update_of_ne fun same => mine (profileUserKey_inj same)] at found
        exact found
    · intro first second named same
      rw [username] at named
      rw [username, username] at same
      split at named
      · rename_i mine
        rw [if_pos mine] at same
        split at same
        · rename_i too
          rw [mine, too]
        · rw [mine, sound.sole held checked named second same.symm]
      · rename_i other
        rw [if_neg other] at same
        split at same
        · exact absurd (sound.sole held checked (same ▸ named) first same) other
        · exact sound.unique first second named same
    · intro userId named
      rw [username] at named ⊢
      split at named
      · rename_i mine
        left
        rw [if_pos mine, mine]
        exact known.saving freed phase named
      · rename_i other
        rw [if_neg other]
        apply (sound.indexed userId named).imp_right
        intro ⟨elsewhere, s, live, ofUser, gone⟩
        refine .inl ⟨elsewhere, s, ?_, live, ofUser, gone⟩
        intro same
        rw [same, held] at live
        cases live
        exact other ofUser.symm
    · intro other s different live
      have apart := sound.apart session other r s (Ne.symm different) held live
      refine (sound.running live).transfer ?_ fun _ _ => rfl
      rw [username]
      split
      · rename_i mine
        rw [mine, ← known.previous, (apart.keeps mine.symm).1]
      · rfl
    · exact fun _ _ _ _ refused => refused
    · intro other none
      cases none

theorem Sound.step (sound : server.Sound) {action : ProfileAction}
    (undisturbed : server.Undisturbed action) (stepped : server.step action = some next) :
    next.Sound := by
  cases action with
  | begin session userId email request =>
    unfold ProfileServer.step at stepped
    dsimp only at stepped
    split at stepped
    · rename_i idle
      rw [← Option.some.inj stepped]
      exact sound.begin idle userId email request
    · cases stepped
  | advance session outcome =>
    unfold ProfileServer.step at stepped
    dsimp only at stepped
    split at stepped
    · cases stepped
    · rename_i update held
      rw [← Option.some.inj stepped]
      exact sound.load held undisturbed
    · rename_i r held
      have done : r.freed = true → outcome = .done := by
        unfold Undisturbed at undisturbed
        dsimp only at undisturbed
        rw [held] at undisturbed
        exact undisturbed
      split at stepped
      · rename_i phase
        rw [← Option.some.inj stepped]
        exact sound.check held phase outcome
      · rename_i phase
        exact sound.openStore held phase stepped
      · rename_i phase
        exact sound.release held phase stepped
      · rename_i freed phase
        exact sound.claim held phase done stepped
      · rename_i freed phase
        rw [← Option.some.inj stepped]
        exact sound.save held phase done

theorem sound_empty : emptyProfileServer.Sound where
  stored _ _ found := by cases found
  unique _ _ named := absurd rfl named
  indexed _ named := absurd rfl named
  sessions _ := trivial
  apart _ _ _ _ _ held := by cases held

end ProfileServer

namespace ProfileServer

variable {userId : String} {profile : StoredProfile} {outcome : KvOutcome}

theorem usernameOf_some (stored : server.storedProfile userId = some profile) :
    server.usernameOf userId = profile.username := by
  rw [usernameOf, loadStoredProfile_some stored]

theorem Sound.owned (sound : server.Sound) (quiet : server.Quiet)
    (named : server.usernameOf userId ≠ "") :
    server.ownerOf (server.usernameOf userId) = some userId := by
  apply (sound.indexed userId named).resolve_right
  intro ⟨session, r, held, _⟩
  exact quiet session r held

theorem load_handles (update : ProfileUpdate) (outcome : KvOutcome) :
    (server.load session update outcome).handles = server.handles := by
  unfold ProfileServer.load
  split
  · rfl
  · rfl
  · dsimp only
    split
    · rfl
    · split <;> rfl

theorem check_handles (outcome : KvOutcome) :
    (server.check session r outcome).handles = server.handles := by
  unfold ProfileServer.check
  split
  · rfl
  · rfl
  · dsimp only
    split
    · split <;> rfl
    · rfl

theorem openStore_handles (stepped : server.openStore session r outcome = some next) :
    next.handles = server.handles := by
  unfold ProfileServer.openStore at stepped
  split at stepped
  · cases stepped
    rfl
  · cases stepped
  · cases stepped
    rfl

theorem begin_handles (userId : String) (email : Option String) (request : ProfileUpdateRequest) :
    (server.begin session userId email request).handles = server.handles := by
  unfold ProfileServer.begin
  split <;> rfl

theorem Sound.release_keeps (sound : server.Sound) (held : server.sessions session = .running r)
    (phase : r.phase = .releasing) (stepped : server.release session r outcome = some next)
    {key owner : String} (owned : server.handles key = some owner) :
    next.handles key = some owner ∨ r.update.userId = owner := by
  cases outcome with
  | unavailable error => cases stepped
  | failed error =>
    cases stepped
    exact .inl owned
  | done =>
    cases stepped
    dsimp only
    rw [Function.update_apply]
    split
    · rename_i same
      right
      have known := sound.running held
      have named := (known.releasing (.inl phase)).1
      rw [known.previous] at named
      have mine := sound.holds held (freed_eq_false (.inr (.inr phase))) named
      unfold ownerOf at mine
      rw [← known.previous, ← same, owned] at mine
      exact (Option.some.inj mine).symm
    · exact .inl owned

theorem Sound.claim_keeps (sound : server.Sound) (held : server.sessions session = .running r)
    {freed : Bool} (phase : r.phase = .claiming freed)
    (stepped : server.claim session r freed outcome = some next) {key owner : String}
    (owned : server.handles key = some owner) :
    next.handles key = some owner ∨ r.update.userId = owner := by
  cases outcome with
  | unavailable error => cases stepped
  | failed error =>
    cases stepped
    exact .inl owned
  | done =>
    cases stepped
    dsimp only
    rw [Function.update_apply]
    split
    · rename_i same
      right
      have known := sound.running held
      have named := known.claiming freed phase
      rw [same] at owned
      by_cases kept : r.update.username = r.previousUsername
      · have still : r.freed = false := by
          by_contra gone
          exact (known.releasing (.inr (by simpa using gone))).2 kept.symm
        have own := kept.trans known.previous
        have mine := sound.holds held still (own ▸ named)
        unfold ownerOf at mine
        rw [← own, owned] at mine
        exact (Option.some.inj mine).symm
      · exact (known.available (by simp [phase]) named kept owner owned).symm
    · exact .inl owned

theorem Sound.keepsHandles (sound : server.Sound) {action : ProfileAction}
    (stepped : server.step action = some next) : server.KeepsHandles next action := by
  intro key owner owned
  cases action with
  | begin session userId email request =>
    unfold ProfileServer.step at stepped
    dsimp only at stepped
    split at stepped
    · rw [← Option.some.inj stepped, begin_handles]
      exact .inl owned
    · cases stepped
  | advance session outcome =>
    unfold ProfileServer.step at stepped
    dsimp only at stepped
    split at stepped
    · cases stepped
    · rw [← Option.some.inj stepped, load_handles]
      exact .inl owned
    · rename_i r held
      have touched : next.handles key = some owner ∨ r.update.userId = owner := by
        split at stepped
        · rw [← Option.some.inj stepped, check_handles]
          exact .inl owned
        · rw [openStore_handles stepped]
          exact .inl owned
        · rename_i phase
          exact sound.release_keeps held phase stepped owned
        · rename_i freed phase
          exact sound.claim_keeps held phase stepped owned
        · rw [← Option.some.inj stepped]
          left
          unfold ProfileServer.save
          split <;> exact owned
      exact touched.imp_right fun mine => ⟨session, outcome, r, rfl, held, mine⟩

theorem Sound.resolves (sound : server.Sound) (quiet : server.Quiet)
    (stored : server.storedProfile userId = some profile) (named : profile.username ≠ "")
    (visible : profile.isPublic = true) :
    server.getPublicProfileByUsername profile.username = .ok profile.toPublicView := by
  have username := usernameOf_some stored
  have normal := (sound.stored userId profile stored).2
  have owned := sound.owned quiet (username ▸ named)
  unfold ownerOf at owned
  rw [username] at owned
  unfold NormalUsername at normal
  unfold getPublicProfileByUsername
  rw [normal]
  dsimp only
  rw [if_neg named, owned]
  dsimp only
  rw [loadStoredProfile_some stored, if_neg (by simp [visible])]

theorem Sound.consistent (sound : server.Sound) : server.Consistent where
  unique first second profile other stored found named same := by
    apply sound.unique first second
    · rw [usernameOf_some stored]
      exact named
    · rw [usernameOf_some stored, usernameOf_some found, same]
  indexed quiet userId profile stored named := by
    have username := usernameOf_some stored
    have owned := sound.owned quiet (username ▸ named)
    rw [username] at owned
    exact owned
  resolves quiet userId profile stored named visible := sound.resolves quiet stored named visible
  keeps action next stepped := sound.keepsHandles stepped

end ProfileServer

/-- In every run that meets the condition, usernames are unique and resolve, and no update touches
the handle of another user. -/
theorem profileSessions_consistent {actions : List ProfileAction} {last : ProfileServer}
    (ran : profileMachine.run emptyProfileServer actions = some last)
    (undisturbed : profileMachine.Meets ProfileServer.Undisturbed emptyProfileServer actions) :
    last.Consistent := by
  have reached := undisturbed.reachable
    (.start (show (profileMachine.restrict _).start emptyProfileServer from rfl)) ran
  have sound : last.Sound := by
    apply Machine.invariant _ _ reached
    · intro server empty
      rw [show server = emptyProfileServer from empty]
      exact ProfileServer.sound_empty
    · intro server action next _ sound stepped
      obtain ⟨allowed, stepped⟩ := (Machine.restrict_step_iff _ _ _ _).mp stepped
      exact sound.step allowed stepped
  exact sound.consistent

/-- A first profile with nothing but a username. -/
def usernameRequest (username : String) : ProfileUpdateRequest :=
  ⟨"", "", "", username, true, none⟩

namespace ProfileServer

/-- A step of an update changes no other session, and behind its load it is running or done. -/
theorem step_session {outcome : KvOutcome}
    (stepped : server.step (.advance session outcome) = some next) :
    ∃ state, next.sessions = Function.update server.sessions session state ∧
      ∀ update, state ≠ .begun update := by
  unfold ProfileServer.step at stepped
  dsimp only at stepped
  split at stepped
  · cases stepped
  · rename_i update held
    rw [← Option.some.inj stepped]
    unfold ProfileServer.load
    split
    · exact ⟨_, rfl, fun _ => nofun⟩
    · exact ⟨_, rfl, fun _ => nofun⟩
    dsimp only
    split
    · exact ⟨_, rfl, fun _ => nofun⟩
    · split <;> exact ⟨_, rfl, fun _ => nofun⟩
  · rename_i r held
    split at stepped
    · rw [← Option.some.inj stepped]
      unfold ProfileServer.check
      split
      · exact ⟨_, rfl, fun _ => nofun⟩
      · exact ⟨_, rfl, fun _ => nofun⟩
      dsimp only
      split
      · split <;> exact ⟨_, rfl, fun _ => nofun⟩
      · exact ⟨_, rfl, fun _ => nofun⟩
    · cases outcome <;> cases stepped <;> exact ⟨_, rfl, fun _ => nofun⟩
    · cases outcome <;> cases stepped <;> exact ⟨_, rfl, fun _ => nofun⟩
    · cases outcome <;> cases stepped <;> exact ⟨_, rfl, fun _ => nofun⟩
    · rw [← Option.some.inj stepped]
      cases outcome <;> exact ⟨_, rfl, fun _ => nofun⟩

theorem begin_stepped {userId : String} {email : Option String} {request : ProfileUpdateRequest}
    (stepped : server.step (.begin session userId email request) = some next) :
    next = server.begin session userId email request := by
  unfold ProfileServer.step at stepped
  dsimp only at stepped
  split at stepped
  · exact (Option.some.inj stepped).symm
  · cases stepped

/-- What is asked of another session when an update is about to load its profile. -/
def ApartFrom (server : ProfileServer) (update : ProfileUpdate) : ProfileSession → Prop
  | .running running => running.Apart server (server.loaded update)
  | _ => True

instance (server : ProfileServer) (update : ProfileUpdate) :
    DecidablePred (server.ApartFrom update)
  | .running running => inferInstanceAs (Decidable (running.Apart _ _))
  | .idle => .isTrue trivial
  | .begun _ => .isTrue trivial

/-- An update without failures is undisturbed if those that run when it loads are apart from
it. -/
theorem undisturbed_beside (apart : ∀ update, server.sessions session = .begun update →
      ∀ other running, server.sessions other = .running running →
        running.Apart server (server.loaded update))
    (n : Nat) : profileMachine.Meets Undisturbed server
      (List.replicate n (.advance session .done)) := by
  induction n generalizing server with
  | zero => trivial
  | succ n ih =>
    constructor
    · unfold Undisturbed
      dsimp only
      split
      · trivial
      · rename_i update held
        exact fun _ => apart update held
      · exact fun _ => rfl
    · intro next stepped
      obtain ⟨state, changed, further⟩ := step_session stepped
      apply ih
      intro update begun
      rw [changed, Function.update_self] at begun
      exact absurd begun (further update)

variable {actions : List ProfileAction}

/-- A run leaves the sessions that it has no step of as they are. -/
theorem run_elsewhere (ran : profileMachine.run server actions = some next) {other : Nat}
    (untouched : ∀ action ∈ actions, action.session ≠ other) :
    next.sessions other = server.sessions other := by
  induction actions generalizing server with
  | nil =>
    cases ran
    rfl
  | cons action rest ih =>
    obtain ⟨middle, stepped, ran⟩ := Option.bind_eq_some_iff.mp ran
    rw [List.forall_mem_cons] at untouched
    rw [ih ran untouched.2]
    cases action with
    | begin session userId email request =>
      rw [begin_stepped stepped]
      unfold ProfileServer.begin
      split <;> exact Function.update_of_ne (Ne.symm untouched.1) _ _
    | advance session outcome =>
      obtain ⟨state, changed, _⟩ := step_session stepped
      have apart : other ≠ session := Ne.symm untouched.1
      rw [changed, Function.update_of_ne apart]

/-- Behind a run from the empty store an update has to be apart from those in the sessions that
the run has steps of. -/
theorem apart_of_known (ran : profileMachine.run emptyProfileServer actions = some server)
    (known : List Nat) (within : ∀ action ∈ actions, action.session ∈ known)
    {update : ProfileUpdate}
    (apart : ∀ other ∈ known, server.ApartFrom update (server.sessions other)) (other : Nat)
    (running : RunningUpdate) (held : server.sessions other = .running running) :
    running.Apart server (server.loaded update) := by
  by_cases listed : other ∈ known
  · have fits := apart other listed
    rw [held] at fits
    exact fits
  · have untouched : ∀ action ∈ actions, action.session ≠ other :=
      fun action member same => listed (same ▸ within action member)
    have idle : server.sessions other = .idle := run_elsewhere ran untouched
    rw [idle] at held
    cases held

end ProfileServer

/-- A first update that has written the handle and not yet the profile. -/
def firstSteps : List ProfileAction :=
  .begin 1 "u1" none (usernameRequest "alice") :: List.replicate 4 (.advance 1 .done)

/-- The second user is refused the first user's username in the midst of that update. -/
def refusedSteps : List ProfileAction :=
  .begin 2 "u2" none (usernameRequest "alice") :: List.replicate 2 (.advance 2 .done)

/-- The second user takes another username before the first user's update ends. -/
def secondSteps : List ProfileAction :=
  .begin 3 "u2" none (usernameRequest "bob") ::
    (List.replicate 5 (.advance 3 .done) ++ [.advance 1 .done])

def overlappingUpdates : List ProfileAction := firstSteps ++ (refusedSteps ++ secondSteps)

theorem firstSteps_undisturbed :
    profileMachine.Meets ProfileServer.Undisturbed emptyProfileServer firstSteps := by
  have ran : profileMachine.run emptyProfileServer
      [.begin 1 "u1" none (usernameRequest "alice")] = some _ := rfl
  refine .cons trivial rfl (ProfileServer.undisturbed_beside ?_ 4)
  intro update begun
  cases begun
  exact ProfileServer.apart_of_known ran [1] (by decide) (by decide)

theorem overlappingUpdates_undisturbed :
    profileMachine.Meets ProfileServer.Undisturbed emptyProfileServer overlappingUpdates := by
  have first : profileMachine.run emptyProfileServer firstSteps = some _ := rfl
  refine firstSteps_undisturbed.append first (.append (.cons trivial rfl
    (ProfileServer.undisturbed_beside ?_ 2)) rfl (.cons trivial rfl
      (.append (ProfileServer.undisturbed_beside ?_ 5) rfl (.cons ?_ rfl trivial))))
  · intro update begun
    cases begun
    have ran : profileMachine.run emptyProfileServer
        (firstSteps ++ [.begin 2 "u2" none (usernameRequest "alice")]) = some _ := rfl
    exact ProfileServer.apart_of_known ran [1, 2] (by decide) (by decide)
  · intro update begun
    cases begun
    have ran : profileMachine.run emptyProfileServer
        (firstSteps ++ refusedSteps ++ [.begin 3 "u2" none (usernameRequest "bob")]) = some _ :=
      rfl
    exact ProfileServer.apart_of_known ran [1, 2, 3] (by decide) (by decide)
  · exact fun _ => rfl

/-- Both users have the usernames that they claimed. -/
theorem profileSessions_consistent_overlapping : ∃ last,
    profileMachine.run emptyProfileServer overlappingUpdates = some last ∧ last.Consistent ∧
      last.storedProfile "u1" = some ⟨"u1", "", "", "", "alice", true, none⟩ ∧
      last.storedProfile "u2" = some ⟨"u2", "", "", "", "bob", true, none⟩ := by
  have observed : (profileMachine.run emptyProfileServer overlappingUpdates).map
      (fun last => (last.storedProfile "u1", last.storedProfile "u2")) =
        some (some ⟨"u1", "", "", "", "alice", true, none⟩,
          some ⟨"u2", "", "", "", "bob", true, none⟩) := by
    decide
  obtain ⟨last, ran, found⟩ := Option.map_eq_some_iff.mp observed
  exact ⟨last, ran, profileSessions_consistent ran overlappingUpdates_undisturbed,
    congrArg Prod.fst found, congrArg Prod.snd found⟩

/-- Two users claim a free username, and both read its handle before one of them writes it. -/
def racingUpdates : List ProfileAction :=
  [.begin 1 "u1" none (usernameRequest "alice"), .begin 2 "u2" none (usernameRequest "alice")] ++
    (List.replicate 5 [.advance 1 .done, .advance 2 .done]).flatten

theorem profileSessions_duplicate : ∃ last,
    profileMachine.run emptyProfileServer racingUpdates = some last ∧ ¬ last.Consistent := by
  have stored : (profileMachine.run emptyProfileServer racingUpdates).map (fun last =>
      (last.storedProfile "u1", last.storedProfile "u2")) =
        some (some ⟨"u1", "", "", "", "alice", true, none⟩,
          some ⟨"u2", "", "", "", "alice", true, none⟩) := by
    decide
  obtain ⟨last, ran, both⟩ := Option.map_eq_some_iff.mp stored
  obtain ⟨first, second⟩ := Prod.mk.inj both
  refine ⟨last, ran, fun consistent => ?_⟩
  have same := consistent.unique "u1" "u2" _ _ first second (by decide) rfl
  exact absurd same (by decide)

end DddCqrsEs.FullstackApp
