import DddCqrsEs.FullstackApp.VaultRewrites

/- Acknowledged changes of the vault and of the notifications persist exactly in the runs whose
steps replace the rows that their requests have loaded. -/
namespace DddCqrsEs.FullstackApp

open Transition ReplaceAll

namespace Workspace

/-- How a step changes the rows, and whether it is disturbed. -/
inductive Effect (workspace : Workspace) (action : VaultAction) : Organization → Prop where
  | silent (allowed : workspace.Undisturbed action) :
      Effect workspace action workspace.organization
  | rewrites {change : Change String} {loaded rows new : List VaultRow}
      (rewrites : workspace.organization.Rewrites change loaded rows new)
      (decides : workspace.Undisturbed action ↔
        workspace.organization.vault.Current change (loaded.map VaultRow.id)) :
      Effect workspace action (workspace.organization.replaceSecrets rows new change.removed)
  | dismisses {id : String} {loaded : List DashboardNotification}
      (heard : workspace.organization.Heard loaded)
      (decides : workspace.Undisturbed action ↔
        workspace.organization.notices.Current (.remove id)
          (loaded.map DashboardNotification.id)) :
      Effect workspace action (workspace.organization.replaceNotifications
        (loaded.filter fun item => item.id ≠ id) id)

variable {workspace : Workspace} {session : Nat} {input : VaultInput}

theorem load_organization (failure : Option AuthStackError) (loaded : VaultSession) :
    (workspace.load session failure loaded).organization = workspace.organization := by
  cases failure <;> rfl

theorem begin_organization (failure : Option AuthStackError) (request : VaultRequest) :
    (workspace.begin session failure request).organization = workspace.organization := by
  cases request with
  | list => exact load_organization _ _
  | create request =>
    rw [begin]
    cases request.prepare with
    | error error => rfl
    | ok prepared => exact load_organization _ _
  | delete id =>
    rw [begin]
    split
    · rfl
    · exact load_organization _ _
  | dismiss id => exact load_organization _ _

theorem reload_organization (prepared : PreparedSecret) :
    (workspace.reload session prepared input).organization = workspace.organization := by
  simp only [reload]
  split
  · rfl
  · split
    · rfl
    · exact load_organization _ _

/-- Without a failure all rows are replaced by the ones that are saved. -/
theorem save_organization (workspace : Workspace) (session : Nat)
    {secrets : List StoredSecret} (failure : Option AuthStackError) (created : List VaultRow)
    (deleted : List String) (reply : VaultReply)
    (sealed : ∀ secret ∈ secrets, secret.value = "") :
    (failure ≠ none ∧ (workspace.save session failure secrets created deleted reply).organization =
      workspace.organization) ∨
    (failure = none ∧ ∃ rows, rows.map VaultRow.content = secrets.map StoredSecret.content ∧
      (workspace.save session failure secrets created deleted reply).organization =
        workspace.organization.replaceSecrets rows created deleted) := by
  obtain ⟨rows, saved⟩ := saveSecretsRaw_sealed workspace.organization.secrets sealed
  unfold save
  rw [saved]
  cases failure with
  | some error => exact Or.inl ⟨Option.some_ne_none error, rfl⟩
  | none => exact Or.inr ⟨rfl, rows, saveSecretsRaw_contents saved, rfl⟩

variable {prepared : PreparedSecret} {loaded : List VaultRow} {next : Workspace}
  {action : VaultAction} {after : Organization}

theorem seal_eq {stored : StoredSecret} (done : input.seal prepared = .ok stored) :
    stored.id = input.newId ∧ stored.key = prepared.key ∧ stored.value = "" := by
  unfold VaultInput.seal at done
  split at done
  · cases done
  · split at done
    · cases done
    · cases done
      exact ⟨rfl, rfl, rfl⟩

theorem resolved_organization (creation : Option PreparedSecret)
    (result : Except AuthStackError (List StoredSecret)) :
    (workspace.resolved session creation result).organization = workspace.organization := by
  cases result with
  | error error => rfl
  | ok secrets => cases creation <;> rfl

theorem resolve_effect {creation : Option PreparedSecret}
    (running : workspace.sessions session = .resolving creation loaded)
    (known : workspace.organization.Known loaded) :
    workspace.Effect (.advance session input)
      (workspace.resolve session creation loaded input).organization := by
  unfold resolve
  rw [resolved_organization]
  rcases resolveLoadedSecrets_saves input.ring input.now input.failure
    workspace.organization.secrets loaded with ⟨rows, saved, contents, saves⟩ | ⟨saved, silent⟩
  · have rewrites := Organization.Rewrites.of_keep known contents
    rw [saved]
    apply Effect.rewrites rewrites
    simp only [Undisturbed, running]
    exact ⟨fun current => current saves, fun current _ => current⟩
  · rw [saved]
    apply Effect.silent
    simp only [Undisturbed, running]
    exact fun saves => absurd saves silent

theorem create_effect (running : workspace.sessions session = .creating prepared loaded)
    (known : workspace.organization.Known loaded)
    (apart : ∀ row ∈ loaded, ¬ EqIgnoreAsciiCase row.displayKey prepared.key)
    (done : workspace.create session prepared loaded input = some next) :
    workspace.Effect (.advance session input) next.organization := by
  unfold create at done
  cases sealed : input.seal prepared with
  | error error =>
    rw [sealed] at done
    cases done
    apply Effect.silent
    simp [Undisturbed, running, sealed, isValid]
  | ok stored =>
    obtain ⟨id, key, value⟩ := seal_eq sealed
    simp only [sealed] at done
    split at done
    · cases done
    · rename_i fresh
      cases done
      have values : ∀ secret ∈ loaded.map VaultRow.toSecret ++ [stored],
          secret.value = "" := by
        intro secret mem
        rcases List.mem_append.mp mem with old | new
        · exact VaultRow.toSecret_sealed loaded secret old
        · rw [List.mem_singleton.mp new, value]
      rcases save_organization workspace session input.failure [stored.content] []
        (.created stored.toSummary) values with
        ⟨failed, same⟩ | ⟨succeeded, rows, contents, replaced⟩
      · rw [same]
        apply Effect.silent
        simp [Undisturbed, running, failed]
      · rw [replaced]
        have displayed : stored.content.displayKey = prepared.key := by
          rw [StoredSecret.content_displayKey (key ▸ prepared.key_ne_empty), key]
        have rewrites : workspace.organization.Rewrites (.add stored.content.id) loaded rows
            [stored.content] := by
          apply Organization.Rewrites.of_add known _ fresh
          · rwa [displayed]
          · rw [contents, List.map_append, List.map_map]
            rfl
        apply Effect.rewrites rewrites
        simp only [Undisturbed, running, succeeded, sealed, isValid, true_imp_iff]
        rw [← id]
        rfl

theorem delete_effect {id : String} (running : workspace.sessions session = .deleting id loaded)
    (known : workspace.organization.Known loaded) (found : id ∈ loaded.map VaultRow.id) :
    workspace.Effect (.advance session input)
      (workspace.delete session id loaded input).organization := by
  have values : ∀ secret ∈ (loaded.map VaultRow.toSecret).filter fun secret => secret.id ≠ id,
      secret.value = "" :=
    fun secret mem => VaultRow.toSecret_sealed loaded secret (List.mem_of_mem_filter mem)
  unfold delete
  rcases save_organization workspace session input.failure [] [id] .deleted values with
    ⟨failed, same⟩ | ⟨succeeded, rows, contents, replaced⟩
  · rw [same]
    apply Effect.silent
    simp [Undisturbed, running, failed]
  · rw [replaced]
    have rewrites : workspace.organization.Rewrites (.remove id) loaded rows [] := by
      apply Organization.Rewrites.of_remove known found
      rw [contents, List.filter_map, List.map_map]
      rfl
    apply Effect.rewrites rewrites
    simp [Undisturbed, running, succeeded]

theorem dismiss_effect {id : String} {loaded : List DashboardNotification}
    (running : workspace.sessions session = .dismissing id loaded)
    (heard : workspace.organization.Heard loaded) :
    workspace.Effect (.advance session input)
      (workspace.dismiss session id loaded input).organization := by
  unfold dismiss
  cases outcome : input.failure with
  | some error =>
    apply Effect.silent
    simp [Undisturbed, running, outcome]
  | none =>
    apply Effect.dismisses heard
    simp [Undisturbed, running, outcome]

/-- Every request holds what is known. -/
def Backed (workspace : Workspace) : Prop :=
  ∀ session, workspace.organization.Backs (workspace.sessions session)

theorem step_effect (backed : workspace.Backed) (stepped : workspace.step action = some next) :
    workspace.Effect action next.organization := by
  cases action with
  | begin session request failure =>
    simp only [step] at stepped
    split at stepped
    · cases stepped
      rw [begin_organization]
      exact Effect.silent trivial
    · cases stepped
  | advance session input =>
    simp only [step] at stepped
    have backs := backed session
    split at stepped
    · cases stepped
    · rename_i creation loaded running
      rw [running] at backs
      cases stepped
      exact resolve_effect running backs
    · rename_i prepared running
      cases stepped
      rw [reload_organization]
      apply Effect.silent
      simp [Undisturbed, running]
    · rename_i prepared loaded running
      rw [running] at backs
      exact create_effect running backs.1 backs.2 stepped
    · rename_i id loaded running
      rw [running] at backs
      cases stepped
      exact delete_effect running backs.1 backs.2
    · rename_i id loaded running
      rw [running] at backs
      cases stepped
      exact dismiss_effect running backs

/-- Each request is where it was or holds what is known. -/
def Moves (workspace next : Workspace) : Prop :=
  ∀ other, next.sessions other = workspace.sessions other ∨
    workspace.organization.Backs (next.sessions other)

theorem moves_of_update (state : VaultSession) (backs : workspace.organization.Backs state)
    (same : next.sessions = Function.update workspace.sessions session state) :
    workspace.Moves next := by
  intro other
  rw [same]
  by_cases own : other = session
  · subst own
    rw [Function.update_self]
    exact Or.inr backs
  · rw [Function.update_of_ne own]
    exact Or.inl rfl

theorem moves_idle (same : next.sessions = Function.update workspace.sessions session .idle) :
    workspace.Moves next := moves_of_update .idle trivial same

theorem moves_load {failure : Option AuthStackError} {loaded : VaultSession}
    (backs : workspace.organization.Backs loaded) :
    workspace.Moves (workspace.load session failure loaded) := by
  cases failure with
  | some error => exact moves_idle rfl
  | none => exact moves_of_update loaded backs rfl

theorem moves_begin (registered : workspace.organization.Registered)
    (failure : Option AuthStackError) (request : VaultRequest) :
    workspace.Moves (workspace.begin session failure request) := by
  cases request with
  | list => exact moves_load registered.known
  | create request =>
    rw [begin]
    cases request.prepare with
    | error error => exact moves_idle rfl
    | ok prepared => exact moves_load registered.known
  | delete id =>
    rw [begin]
    split
    · exact moves_idle rfl
    · cases failure with
      | some error => exact moves_idle rfl
      | none =>
        rename_i found
        apply moves_load
        exact ⟨registered.known, by simpa using found⟩
  | dismiss id => exact moves_load registered.heard

theorem resolved_sessions (workspace : Workspace) (session : Nat)
    (creation : Option PreparedSecret) (result : Except AuthStackError (List StoredSecret)) :
    ∃ state, (∀ organization : Organization, organization.Backs state) ∧
      (workspace.resolved session creation result).sessions =
        Function.update workspace.sessions session state := by
  cases result with
  | error error => exact ⟨.idle, fun _ => trivial, rfl⟩
  | ok secrets =>
    cases creation with
    | none => exact ⟨.idle, fun _ => trivial, rfl⟩
    | some prepared => exact ⟨.reloading prepared, fun _ => trivial, rfl⟩

theorem moves_resolve (creation : Option PreparedSecret) (loaded : List VaultRow) :
    workspace.Moves (workspace.resolve session creation loaded input) := by
  unfold resolve
  generalize resolveLoadedSecrets input.ring input.now input.failure
    workspace.organization.secrets (loaded.map VaultRow.toSecret) = outcome
  have same : (workspace.saveNormalized outcome.1).sessions = workspace.sessions := by
    cases outcome.1 <;> rfl
  obtain ⟨state, backs, sessions⟩ :=
    resolved_sessions (workspace.saveNormalized outcome.1) session creation outcome.2
  rw [same] at sessions
  exact moves_of_update state (backs _) sessions

theorem moves_reload (registered : workspace.organization.Registered)
    (prepared : PreparedSecret) :
    workspace.Moves (workspace.reload session prepared input) := by
  simp only [reload]
  split
  · exact moves_idle rfl
  · split
    · exact moves_idle rfl
    · rename_i absent
      cases outcome : input.failure with
      | some error => exact moves_idle rfl
      | none =>
        apply moves_load
        refine ⟨registered.known, ?_⟩
        intro row mem same
        exact absent ⟨outcome, row, mem, same⟩

theorem moves_save (failure : Option AuthStackError) (secrets : List StoredSecret)
    (created : List VaultRow) (deleted : List String) (reply : VaultReply) :
    workspace.Moves (workspace.save session failure secrets created deleted reply) := by
  unfold save
  split <;> exact moves_idle rfl

theorem step_moves (registered : workspace.organization.Registered)
    (stepped : workspace.step action = some next) : workspace.Moves next := by
  cases action with
  | begin session request failure =>
    simp only [step] at stepped
    split at stepped
    · cases stepped
      exact moves_begin registered failure request
    · cases stepped
  | advance session input =>
    simp only [step] at stepped
    split at stepped
    · cases stepped
    · cases stepped
      exact moves_resolve _ _
    · cases stepped
      exact moves_reload registered _
    · unfold create at stepped
      split at stepped
      · cases stepped
        exact moves_idle rfl
      · split at stepped
        · cases stepped
        · cases stepped
          exact moves_save _ _ _ _ _
    · cases stepped
      exact moves_save _ _ _ _ _
    · cases stepped
      unfold dismiss
      cases input.failure <;> exact moves_idle rfl

theorem Effect.grows (effect : workspace.Effect action after) :
    workspace.organization.Grows after := by
  cases effect with
  | silent allowed => exact ⟨fun _ mem => mem, rfl, fun _ mem => mem⟩
  | rewrites rewrites decides => exact Organization.Rewrites.grows _ _ _ _
  | dismisses heard decides => exact Organization.Heard.grows _ _ _

theorem Effect.registered (effect : workspace.Effect action after)
    (registered : workspace.organization.Registered) : after.Registered := by
  cases effect with
  | silent allowed => exact registered
  | rewrites rewrites decides => exact rewrites.registered registered
  | dismisses heard decides => exact heard.registered registered _

theorem Effect.persists_iff (effect : workspace.Effect action after)
    (registered : workspace.organization.Registered) (persists : workspace.organization.Persists) :
    after.Persists ↔ workspace.Undisturbed action := by
  cases effect with
  | silent allowed => exact iff_of_true persists allowed
  | rewrites rewrites decides =>
    rw [decides]
    exact rewrites.persists_iff registered persists
  | dismisses heard decides =>
    rw [decides]
    exact heard.persists_iff registered persists _

end Workspace

theorem Organization.Initial.registered {organization : Organization}
    (initial : organization.Initial) : organization.Registered where
  unique := by
    rw [initial.created]
    intro first one second two same
    obtain ⟨row, mem, rfl⟩ := List.mem_map.mp one
    obtain ⟨other, mem', rfl⟩ := List.mem_map.mp two
    rw [List.inj_on_of_nodup_map initial.ids mem mem' same]
  stored row mem := by
    rw [initial.created]
    exact List.mem_map_of_mem mem
  deleted id mem := by
    rw [initial.deleted] at mem
    exact absurd mem List.not_mem_nil
  listed := by
    rw [initial.announced]
    exact fun _ mem => mem
  kept id announced _ := by
    rw [initial.announced] at announced
    exact announced

theorem Organization.Initial.persists {organization : Organization}
    (initial : organization.Initial) : organization.Persists where
  stays secret created _ := by
    rw [initial.created] at created
    exact List.mem_map.mp created
  gone id deleted := by
    rw [initial.deleted] at deleted
    exact absurd deleted List.not_mem_nil
  distinct := initial.distinct
  dismissed id dropped := by
    rw [initial.dismissed] at dropped
    exact absurd dropped List.not_mem_nil

theorem vaultMachine_registered {workspace : Workspace}
    (reached : vaultMachine.Reachable workspace) :
    workspace.organization.Registered ∧ workspace.Backed := by
  induction reached with
  | start begun =>
    refine ⟨begun.1.registered, ?_⟩
    intro session
    rw [begun.2.1 session]
    trivial
  | step _ stepped ih =>
    obtain ⟨registered, backed⟩ := ih
    have effect := Workspace.step_effect backed stepped
    refine ⟨effect.registered registered, ?_⟩
    intro session
    apply Organization.Backs.grows _ effect.grows
    rcases Workspace.step_moves registered stepped session with same | backs
    · rw [same]
      exact backed session
    · exact backs

/-- Exactly the runs without a disturbed step keep all that was acknowledged. -/
theorem acknowledged_changes_persist {first last : Workspace} {actions : List VaultAction}
    (begun : vaultMachine.start first) (ran : vaultMachine.run first actions = some last) :
    vaultMachine.Along (fun workspace => workspace.organization.Persists) first actions ↔
      vaultMachine.Meets Workspace.Undisturbed first actions := by
  refine Machine.along_iff_meets ?_ (.start begun) begun.1.persists ran
  intro workspace action next reached persists stepped
  obtain ⟨registered, backed⟩ := vaultMachine_registered reached
  exact (Workspace.step_effect backed stepped).persists_iff registered persists

/-- A cipher that hides nothing. -/
def plainKey : VaultKey where
  encrypt value := .ok ("nonce", value)
  decrypt secret := .ok secret.ciphertext

def plainInput (newId : String) : VaultInput where
  ring := .ok ⟨"v1", fun _ => some plainKey⟩
  material := .ok ("v1", plainKey)
  now := 1
  newId := newId
  failure := none

def tokenRow : VaultRow :=
  ⟨"sec1", "API_TOKEN", "API_TOKEN", "", "user", "s3cret", "nonce", "v1", 1, 1⟩

def welcomeNote : DashboardNotification := ⟨"n1", "Welcome", "", "info", false, 1⟩

def tokenWorkspace : Workspace where
  organization := ⟨[tokenRow], [welcomeNote], [tokenRow.content], [], ["n1"], []⟩
  sessions _ := .idle
  answers := []

theorem tokenWorkspace_start : vaultMachine.start tokenWorkspace := by
  refine ⟨⟨by decide, ?_, rfl, rfl, rfl, rfl⟩, fun _ => rfl, rfl⟩
  decide

def creation (session : Nat) (key : String) : VaultAction :=
  .begin session (.create ⟨key, "", "s3cret", "", "", ""⟩) none

/-- A secret is created while a notification is dismissed and the secrets are listed, and then
the other secret is deleted. -/
def besideCreation : List VaultAction :=
  [creation 0 "DB_PASSWORD", .begin 1 (.dismiss "n1") none, .advance 0 (plainInput ""),
    .begin 2 .list none, .advance 1 (plainInput ""), .advance 0 (plainInput ""),
    .advance 0 (plainInput "sec2"), .advance 2 (plainInput ""),
    .begin 1 (.delete "sec1") none, .advance 1 (plainInput "")]

theorem tokenRow_complete : ¬ ∃ row ∈ [tokenRow], row.Incomplete := by
  rintro ⟨row, member, incomplete⟩
  rw [List.mem_singleton.mp member] at incomplete
  exact absurd incomplete (by decide)

theorem besideCreation_undisturbed :
    vaultMachine.Meets Workspace.Undisturbed tokenWorkspace besideCreation := by
  refine .cons trivial rfl (.cons trivial rfl (.cons ?_ rfl (.cons trivial rfl (.cons ?_ rfl
    (.cons trivial rfl (.cons ?_ rfl (.cons ?_ rfl (.cons trivial rfl (.cons ?_ rfl trivial)))))))))
  · exact fun _ _ _ => Iff.rfl
  · exact fun _ _ _ => Iff.rfl
  · exact fun _ _ _ _ => Iff.rfl
  · exact fun saves => absurd saves.2.2 tokenRow_complete
  · exact fun _ _ _ => Iff.rfl

/-- All three changes are there in the end. -/
theorem acknowledged_changes_persist_besideCreation :
    vaultMachine.Along (fun workspace => workspace.organization.Persists) tokenWorkspace
        besideCreation ∧
      ∃ last, vaultMachine.run tokenWorkspace besideCreation = some last ∧
        last.organization.secrets.map VaultRow.id = ["sec2"] ∧
        last.organization.deleted = ["sec1"] ∧ last.organization.dismissed = ["n1"] :=
  ⟨(acknowledged_changes_persist tokenWorkspace_start rfl).mpr besideCreation_undisturbed,
    _, rfl, rfl, rfl, rfl⟩

def emptyWorkspace : Workspace where
  organization := ⟨[], [], [], [], [], []⟩
  sessions _ := .idle
  answers := []

/-- Two requests load the empty vault before either of them has saved its secret. -/
def overlappingCreations : List VaultAction :=
  [creation 0 "API_TOKEN", creation 1 "DB_PASSWORD",
    .advance 0 (plainInput ""), .advance 1 (plainInput ""),
    .advance 0 (plainInput ""), .advance 1 (plainInput ""),
    .advance 0 (plainInput "sec1"), .advance 1 (plainInput "sec2")]

/-- The first secret is acknowledged, nobody deletes it, and it is gone. -/
theorem overlapping_creation_lost : ∃ last,
    vaultMachine.run emptyWorkspace overlappingCreations = some last ∧
      vaultMachine.start emptyWorkspace ∧ ¬ last.organization.Persists := by
  have ended : (vaultMachine.run emptyWorkspace overlappingCreations).map (fun workspace =>
      (workspace.organization.secrets.map VaultRow.id,
        workspace.organization.created.map VaultRow.id, workspace.organization.deleted)) =
      some (["sec2"], ["sec1", "sec2"], []) := by decide
  obtain ⟨last, ran, rows⟩ := Option.map_eq_some_iff.mp ended
  obtain ⟨stored, created, deleted⟩ : last.organization.secrets.map VaultRow.id = ["sec2"] ∧
      last.organization.created.map VaultRow.id = ["sec1", "sec2"] ∧
      last.organization.deleted = [] := by simpa using rows
  refine ⟨last, ran, ⟨⟨by decide, by decide, rfl, rfl, rfl, rfl⟩, fun _ => rfl, rfl⟩, ?_⟩
  intro persists
  have lost := persists.kept.stays "sec1"
  simp only [Organization.vault, stored, created, deleted] at lost
  revert lost
  decide

end DddCqrsEs.FullstackApp
