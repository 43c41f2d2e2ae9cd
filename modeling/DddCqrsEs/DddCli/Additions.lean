import DddCqrsEs.DddCli.AggregateFile

/- `ddd add aggregate`, `ddd add event` and `ddd add command`: what they do to the manifest and to
the files of the domain. -/
namespace DddCqrsEs.DddCli

open LineLog

/-- A project: the records of `ddd.toml`, and the files under `src/domain` and `tests`. Of a test
file only its existence counts. -/
structure Project where
  domains : List DomainRecord
  domainMod : Option Text
  modules : Text → Option Text
  tests : Text → Bool

/-- The flags of a call, and what else decides whether it succeeds: the wiring of a full-stack
project, and the file system. -/
structure Call where
  force : Bool
  dryRun : Bool
  otherwise : Except String Unit

inductive AddCommand
  | aggregate (name : Text)
  | event (aggregate name : Text) (fields : List Text) (eventType : Option Text)
  | command (aggregate name : Text) (fields : List Text)

/-- The lexical order of texts. -/
def textLe : Text → Text → Bool
  | [], _ => true
  | _ :: _, [] => false
  | first :: text, second :: other =>
    if first = second then textLe text other else decide (first.toNat < second.toNat)

def addDomain (domains : List DomainRecord) (domain : DomainRecord) : List DomainRecord :=
  if domains.any (fun existing => existing.module == domain.module) then domains
  else (domains ++ [domain]).mergeSort (fun a b => textLe a.module b.module)

def pushUnique (items : List Text) (value : Text) : List Text :=
  if items.contains value then items else (items ++ [value]).mergeSort textLe

/-- The first record of a module, changed. -/
def updateDomain (module : Text) (change : DomainRecord → DomainRecord) :
    List DomainRecord → List DomainRecord
  | [] => []
  | domain :: domains =>
    if domain.module = module then change domain :: domains
    else domain :: updateDomain module change domains

def addEvent (domains : List DomainRecord) (module event : Text) : List DomainRecord :=
  updateDomain module
    (fun domain => { domain with events := pushUnique domain.events event }) domains

def addCommand (domains : List DomainRecord) (module command : Text) : List DomainRecord :=
  updateDomain module
    (fun domain => { domain with commands := pushUnique domain.commands command }) domains

section

variable (heck : Heck)

def resolveDomainModule (domains : List DomainRecord) (input : Text) : Except String Text :=
  let normalized := heck.snake input
  match domains.find? fun domain =>
      domain.module == normalized || domain.aggregate == input ||
        heck.snake domain.aggregate == normalized with
  | some domain => .ok domain.module
  | none => .error ("unknown aggregate `" ++ String.ofList input ++ "`")

def DomainRecord.commandTypeName (domain : DomainRecord) : Text :=
  domain.aggregate ++ code "Command"

def DomainRecord.eventTypeName (domain : DomainRecord) : Text := domain.aggregate ++ code "Event"

def modLine (names : NameParts) : Text := code "pub mod " ++ names.module ++ code ";"

def useLine (names : NameParts) : Text :=
  code "pub use " ++ names.module ++ code "::\x7b" ++ names.aggregate ++ code ", " ++
    names.commandType ++ code ", " ++ names.eventType ++ code ", " ++ names.idType ++ code "\x7d;"

def renderDomainMod (names : NameParts) : Text :=
  unlines [modLine names,
    code "// ddd:domain-modules",
    code "// ddd:domain-modules:end",
    [],
    useLine names,
    code "// ddd:domain-exports",
    code "// ddd:domain-exports:end"]

/-- Ensure `src/domain/mod.rs` exists. -/
def ensureDomainModContent (domainMod : Option Text) (names : NameParts) : Except String Text :=
  match domainMod with
  | none => .ok (renderDomainMod names)
  | some content =>
    match insertBeforeMarker content (code "// ddd:domain-modules:end")
        (modLine names ++ ['\n']) with
    | .error error => .error error
    | .ok content =>
      insertBeforeMarker content (code "// ddd:domain-exports:end") (useLine names ++ ['\n'])

/-- What a call leaves where it succeeds: nothing new in a dry run. -/
def Call.finish (call : Call) (project changed : Project) : Except String Project :=
  match call.otherwise with
  | .error error => .error error
  | .ok () => .ok (if call.dryRun then project else changed)

/-- `bail!` under a condition -/
def refuseIf (condition : Prop) [Decidable condition] (message : String) : Except String Unit :=
  if condition then .error message else .ok ()

def alreadyExists (path : String) : String :=
  path ++ " already exists; rerun with --force to overwrite"

def addAggregate (call : Call) (name : Text) (project : Project) : Except String Project := do
  ensureSnakeIdentifier (heck.snake name) "aggregate name"
  let names := NameParts.new heck name
  ensureRustIdentifier names.aggregate "aggregate name"
  ensureSnakeIdentifier names.module "aggregate module"
  refuseIf ((project.modules names.module).isSome ∧ ¬ call.force)
    ("aggregate module src/domain/" ++ String.ofList names.module ++
      ".rs already exists (use --force to overwrite)")
  let content ← ensureDomainModContent project.domainMod names
  refuseIf (project.tests names.module ∧ ¬ call.force)
    (alreadyExists ("tests/" ++ String.ofList names.module ++ "_domain.rs"))
  call.finish project
    { domains := addDomain project.domains names.domainRecord
      domainMod := some content
      modules := Function.update project.modules names.module (some (renderAggregate names))
      tests := Function.update project.tests names.module true }

def readModule (project : Project) (module : Text) : Except String Text :=
  match project.modules module with
  | some content => .ok content
  | none => .error ("failed to read src/domain/" ++ String.ofList module ++ ".rs")

def findDomain (domains : List DomainRecord) (module : Text) : Except String DomainRecord :=
  match domains.find? fun domain => domain.module == module with
  | some domain => .ok domain
  | none => .error "domain not found"

def alreadyListed (kind : String) (variant : Text) (domain : DomainRecord) : String :=
  kind ++ " `" ++ String.ofList variant ++ "` already exists for aggregate `" ++
    String.ofList domain.aggregate ++ "`"

def addEventTo (call : Call) (aggregate name : Text) (fields : List Text)
    (eventType : Option Text) (project : Project) : Except String Project := do
  ensureSnakeIdentifier (heck.snake aggregate) "aggregate name"
  ensureSnakeIdentifier (heck.snake name) "event name"
  let module ← resolveDomainModule heck project.domains aggregate
  let domain ← findDomain project.domains module
  let fields ← parseFieldSpecs heck fields
  let variant := heck.upperCamel name
  ensureRustIdentifier variant "event name"
  refuseIf (variant ∈ domain.events) (alreadyListed "event" variant domain)
  let eventType := eventType.getD (heck.snake variant)
  ensureEventTypeName eventType "event type"
  let content ← readModule project module
  let content ← insertBeforeMarker content (code "    // ddd:events:end")
    (renderEventVariant heck variant fields)
  let arm ← renderEventTypeArm heck eventType variant
  let content ← insertBeforeMarker content (code "            // ddd:event-types:end") arm
  let content ← insertBeforeMarker content (code "            // ddd:apply-events:end")
    (applyArmLine domain.eventTypeName variant ++ ['\n'])
  call.finish project
    { project with
      domains := addEvent project.domains module variant
      modules := Function.update project.modules module (some content) }

def addCommandTo (call : Call) (aggregate name : Text) (fields : List Text) (project : Project) :
    Except String Project := do
  ensureSnakeIdentifier (heck.snake aggregate) "aggregate name"
  ensureSnakeIdentifier (heck.snake name) "command name"
  let module ← resolveDomainModule heck project.domains aggregate
  let domain ← findDomain project.domains module
  let fields ← parseFieldSpecs heck fields
  let variant := heck.upperCamel name
  ensureRustIdentifier variant "command name"
  refuseIf (variant ∈ domain.commands) (alreadyListed "command" variant domain)
  let content ← readModule project module
  let content ← insertBeforeMarker content (code "    // ddd:commands:end")
    (renderCommandVariant heck variant fields)
  let content ← insertBeforeMarker content (code "            // ddd:handle-commands:end")
    (renderCommandHandleArm heck domain.commandTypeName variant)
  call.finish project
    { project with
      domains := addCommand project.domains module variant
      modules := Function.update project.modules module (some content) }

theorem refuseIf_ok {condition : Prop} [Decidable condition] {message : String} {value : Unit} :
    refuseIf condition message = .ok value ↔ ¬ condition := by
  rw [refuseIf]
  split
  · rename_i refused
    simp [refused]
  · rename_i passed
    simp [passed]

theorem Call.finish_ok {call : Call} {project changed after : Project}
    (finished : call.finish project changed = .ok after) :
    after = if call.dryRun then project else changed := by
  rw [Call.finish] at finished
  split at finished
  · cases finished
  · exact (Except.ok.inj finished).symm

/-- What a successful call for an aggregate has checked and done. -/
theorem addAggregate_ok {call : Call} {name : Text} {project after : Project}
    (added : addAggregate heck call name project = .ok after) :
    IsIdentifier (NameParts.new heck name).aggregate ∧
      IsIdentifier (NameParts.new heck name).module ∧
      ∃ content, ensureDomainModContent project.domainMod (NameParts.new heck name) =
          .ok content ∧
        after = if call.dryRun then project else
          { domains := addDomain project.domains (NameParts.new heck name).domainRecord
            domainMod := some content
            modules := Function.update project.modules (NameParts.new heck name).module
              (some (renderAggregate (NameParts.new heck name)))
            tests := Function.update project.tests (NameParts.new heck name).module true } := by
  rw [addAggregate] at added
  obtain ⟨-, -, added⟩ := ok_of_bind added
  obtain ⟨_, aggregate, added⟩ := ok_of_bind added
  obtain ⟨_, module, added⟩ := ok_of_bind added
  obtain ⟨-, -, added⟩ := ok_of_bind added
  obtain ⟨content, ensured, added⟩ := ok_of_bind added
  obtain ⟨-, -, added⟩ := ok_of_bind added
  exact ⟨isIdentifier_of_rust aggregate, isIdentifier_of_snake module, content, ensured,
    Call.finish_ok added⟩

def addToProject (call : Call) (command : AddCommand) (project : Project) :
    Except String Project :=
  match command with
  | .aggregate name => addAggregate heck call name project
  | .event aggregate name fields eventType =>
    addEventTo heck call aggregate name fields eventType project
  | .command aggregate name fields => addCommandTo heck call aggregate name fields project

end

end DddCqrsEs.DddCli
