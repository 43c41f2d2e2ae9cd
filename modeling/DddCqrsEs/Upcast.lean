import DddCqrsEs.Event
import Mathlib.Data.List.AList
import Mathlib.Order.Basic

/- The registry of upcasters: registration, the shortcut for events that need none, and the
loop that climbs from the stored schema version. -/
namespace DddCqrsEs

/-- The error of an upcaster is kept as its text. -/
structure EventUpcaster where
  sourceVersion : UInt32
  targetVersion : UInt32
  upcast : List UInt8 → Except String (List UInt8)

structure UpcasterRegistrationError where
  eventType : String
  sourceVersion : UInt32
  deriving DecidableEq

abbrev UpcasterVersions : Type := AList (fun _ : UInt32 => EventUpcaster)

abbrev UpcasterRegistry : Type := AList (fun _ : String => UpcasterVersions)

def notAdvancing (eventType : String) (current target : UInt32) : String :=
  s!"upcaster for `{eventType}` maps version {current} to {target}, which does not advance " ++
    "the schema version; refusing a non-terminating upcast chain"

def noUpcastPath (eventType : String) (current maxTarget : UInt32) : String :=
  s!"no upcast path for `{eventType}` from stored version {current} " ++
    s!"to registered version {maxTarget}"

/-- The larger of two 32-bit versions, in the form that the lemmas on `List.max?` ask for. -/
instance lawfulOrderMax_version : Std.LawfulOrderMax UInt32 where
  max_eq_or version other := by
    change (if version ≤ other then other else version) = version ∨
      (if version ≤ other then other else version) = other
    split
    · exact .inr rfl
    · exact .inl rfl
  max_le_iff version other bound := by
    change (if version ≤ other then other else version) ≤ bound ↔ _
    simp only [UInt32.le_iff_toNat_le]
    split <;> omega

/-- The upcasters from one version to another, each registered at the version before it and
each leading to a larger version. -/
inductive UpcastChain (registered : UInt32 → Option EventUpcaster) :
    UInt32 → List EventUpcaster → UInt32 → Prop where
  | done (version : UInt32) : UpcastChain registered version [] version
  | hop (upcaster : EventUpcaster) {hops : List EventUpcaster} {reached : UInt32}
      (found : registered upcaster.sourceVersion = some upcaster)
      (advances : upcaster.sourceVersion < upcaster.targetVersion)
      (later : UpcastChain registered upcaster.targetVersion hops reached) :
      UpcastChain registered upcaster.sourceVersion (upcaster :: hops) reached

/-- The payload conversions of some upcasters, one after the other. -/
def upcastAll (hops : List EventUpcaster) (rawPayload : List UInt8) :
    Except String (List UInt8) :=
  hops.foldlM (fun payload upcaster => upcaster.upcast payload) rawPayload

theorem upcastAll_cons (upcaster : EventUpcaster) (hops : List EventUpcaster)
    (rawPayload : List UInt8) :
    upcastAll (upcaster :: hops) rawPayload = upcaster.upcast rawPayload >>= upcastAll hops :=
  rfl

variable {stored reached : UInt32} {hops : List EventUpcaster}

theorem UpcastChain.le {registered : UInt32 → Option EventUpcaster}
    (chain : UpcastChain registered stored hops reached) : stored ≤ reached := by
  induction chain with
  | done version => exact UInt32.le_refl version
  | hop upcaster found advances later ih => exact UInt32.le_trans (UInt32.le_of_lt advances) ih

theorem UpcastChain.start {registered : UInt32 → Option EventUpcaster}
    (chain : UpcastChain registered stored hops reached) :
    hops = [] ∧ reached = stored ∨
      ∃ upcaster rest, hops = upcaster :: rest ∧ registered stored = some upcaster ∧
        stored < upcaster.targetVersion ∧
          UpcastChain registered upcaster.targetVersion rest reached := by
  cases chain with
  | done version => exact .inl ⟨rfl, rfl⟩
  | hop upcaster found advances later => exact .inr ⟨upcaster, _, rfl, found, advances, later⟩

namespace UpcasterVersions

/-- The largest version that an upcaster leads to. -/
def maxTarget (versions : UpcasterVersions) : Option UInt32 :=
  (versions.entries.map fun entry => entry.2.targetVersion).max?

/-- The loop of `upcast`. It ends because every hop is to a larger 32-bit version. -/
@[grind =]
def climb (versions : UpcasterVersions) (eventType : String) (current : UInt32)
    (rawPayload : List UInt8) : Except String (UInt32 × List UInt8) :=
  match versions.lookup current with
  | none => .ok (current, rawPayload)
  | some upcaster =>
    if _ : upcaster.targetVersion ≤ current then
      .error (notAdvancing eventType current upcaster.targetVersion)
    else
      match upcaster.upcast rawPayload with
      | .error error => .error error
      | .ok upgraded => climb versions eventType upcaster.targetVersion upgraded
  termination_by UInt32.size - current.toNat
  decreasing_by
    have larger := UInt32.lt_iff_toNat_lt.mp (UInt32.not_le.mp ‹¬ _ ≤ _›)
    have bounded := upcaster.targetVersion.toNat_lt_size
    omega

/-- Every upcaster is kept under its own source version. -/
def Keyed (versions : UpcasterVersions) : Prop :=
  ∀ version upcaster, versions.lookup version = some upcaster → upcaster.sourceVersion = version

variable {versions : UpcasterVersions}

theorem maxTarget_eq_some_iff {target : UInt32} :
    versions.maxTarget = some target ↔
      (∃ version upcaster, versions.lookup version = some upcaster ∧
        upcaster.targetVersion = target) ∧
      ∀ version upcaster, versions.lookup version = some upcaster →
        upcaster.targetVersion ≤ target := by
  have listed : ∀ version upcaster, versions.lookup version = some upcaster ↔
      (⟨version, upcaster⟩ : Sigma fun _ : UInt32 => EventUpcaster) ∈ versions.entries :=
    fun version upcaster => AList.mem_lookup_iff
  rw [maxTarget, List.max?_eq_some_iff]
  simp only [List.mem_map, Sigma.exists, listed, forall_exists_index, and_imp]
  refine and_congr Iff.rfl ⟨?_, ?_⟩
  · intro largest version upcaster member
    exact largest _ version upcaster member rfl
  · rintro largest _ version upcaster member rfl
    exact largest version upcaster member

/-- The final check of `upcast`: a version that is not below the largest target is not below
any target, also where nothing is registered. -/
theorem not_lt_maxTarget_iff {reached stored : UInt32} (later : stored ≤ reached) :
    ¬ reached < versions.maxTarget.getD stored ↔
      ∀ version upcaster, versions.lookup version = some upcaster →
        upcaster.targetVersion ≤ reached := by
  rw [UInt32.not_lt]
  cases largest : versions.maxTarget with
  | none =>
    have empty : versions.entries = [] := by
      simpa [maxTarget, List.max?_eq_none_iff] using largest
    refine ⟨fun _ version upcaster found => ?_, fun _ => later⟩
    have member := AList.mem_lookup_iff.mp found
    rw [empty] at member
    cases member
  | some target =>
    obtain ⟨⟨version, upcaster, found, rfl⟩, bound⟩ := maxTarget_eq_some_iff.mp largest
    refine ⟨fun reaches other registered found => ?_, fun all => all version upcaster found⟩
    exact UInt32.le_trans (bound other registered found) reaches

variable {other : UpcasterVersions}

theorem maxTarget_congr (same : ∀ version, versions.lookup version = other.lookup version) :
    versions.maxTarget = other.maxTarget := by
  ext target
  rw [maxTarget_eq_some_iff, maxTarget_eq_some_iff]
  simp only [same]

/-- The loop reads nothing of the registry but what it finds at a version. -/
theorem climb_congr (same : ∀ version, versions.lookup version = other.lookup version)
    (eventType : String) (current : UInt32) (rawPayload : List UInt8) :
    versions.climb eventType current rawPayload = other.climb eventType current rawPayload := by
  induction current, rawPayload using climb.induct versions with
  | case1 current rawPayload absent =>
    rw [climb, climb, ← same, absent]
  | case2 current rawPayload upcaster found stuck =>
    rw [climb, climb, ← same, found]
    simp only [stuck, ↓reduceDIte]
  | case3 current rawPayload upcaster found advances error failed =>
    rw [climb, climb, ← same, found]
    simp only [advances, failed, ↓reduceDIte]
  | case4 current rawPayload upcaster found advances upgraded converted ih =>
    rw [climb, climb, ← same, found]
    simp only [advances, converted, ↓reduceDIte]
    exact ih

/-- The loop succeeds exactly by following a chain to a version with no upcaster. -/
theorem climb_eq_ok_iff (keyed : versions.Keyed) (eventType : String) (current reached : UInt32)
    (rawPayload payload : List UInt8) :
    versions.climb eventType current rawPayload = .ok (reached, payload) ↔
      versions.lookup reached = none ∧
        ∃ hops, UpcastChain versions.lookup current hops reached ∧
          upcastAll hops rawPayload = .ok payload := by
  induction current, rawPayload using climb.induct versions with
  | case1 current rawPayload absent =>
    rw [climb, absent]
    refine ⟨fun ended => ?_, ?_⟩
    · cases ended
      exact ⟨absent, [], .done _, rfl⟩
    · rintro ⟨-, hops, chain, converted⟩
      obtain ⟨rfl, rfl⟩ | ⟨upcaster, rest, -, found, -⟩ := chain.start
      · cases converted
        rfl
      · rw [absent] at found
        cases found
  | case2 current rawPayload upcaster found stuck =>
    rw [climb, found]
    simp only [stuck, ↓reduceDIte, reduceCtorEq, false_iff]
    rintro ⟨ended, hops, chain, -⟩
    obtain ⟨-, rfl⟩ | ⟨first, rest, -, again, advances, -⟩ := chain.start
    · rw [ended] at found
      cases found
    · rw [found] at again
      cases again
      exact UInt32.not_le.mpr advances stuck
  | case3 current rawPayload upcaster found advances error failed =>
    rw [climb, found]
    simp only [advances, failed, ↓reduceDIte, reduceCtorEq, false_iff]
    rintro ⟨ended, hops, chain, converted⟩
    obtain ⟨-, rfl⟩ | ⟨first, rest, rfl, again, -, -⟩ := chain.start
    · rw [ended] at found
      cases found
    · rw [found] at again
      cases again
      rw [upcastAll_cons, failed] at converted
      cases converted
  | case4 current rawPayload upcaster found advances upgraded converted ih =>
    have atSource := keyed current upcaster found
    rw [climb, found]
    simp only [advances, converted, ↓reduceDIte]
    rw [ih]
    refine and_congr_right fun ended => ⟨?_, ?_⟩
    · rintro ⟨hops, chain, composed⟩
      subst atSource
      refine ⟨upcaster :: hops, .hop upcaster found (UInt32.not_le.mp advances) chain, ?_⟩
      rw [upcastAll_cons, bind_of_ok converted, composed]
    · rintro ⟨hops, chain, composed⟩
      obtain ⟨-, rfl⟩ | ⟨first, rest, rfl, again, -, chain⟩ := chain.start
      · rw [ended] at found
        cases found
      · rw [found] at again
        cases again
        rw [upcastAll_cons, bind_of_ok converted] at composed
        exact ⟨rest, chain, composed⟩

end UpcasterVersions

namespace UpcasterRegistry

def isEmpty (registry : UpcasterRegistry) : Bool := registry.entries.isEmpty

def hasUpcasters (registry : UpcasterRegistry) (eventType : String) : Bool :=
  (registry.lookup eventType).isSome

def upcast (registry : UpcasterRegistry) (eventType : String) (currentVersion : UInt32)
    (rawPayload : List UInt8) : Except String (UInt32 × List UInt8) :=
  match registry.lookup eventType with
  | none => .ok (currentVersion, rawPayload)
  | some versions =>
    let maxTarget := versions.maxTarget.getD currentVersion
    match versions.climb eventType currentVersion rawPayload with
    | .error error => .error error
    | .ok (reached, upgraded) =>
      if reached < maxTarget then .error (noUpcastPath eventType reached maxTarget)
      else .ok (reached, upgraded)

def preparePayload (registry : UpcasterRegistry) (eventType : String) (eventVersion : UInt32)
    (payloadBytes : List UInt8) : Except String (UInt32 × List UInt8) :=
  if registry.isEmpty || !registry.hasUpcasters eventType then .ok (eventVersion, payloadBytes)
  else registry.upcast eventType eventVersion payloadBytes

/-- `entry(event_type).or_default()`, read afterwards. -/
def entryOrDefault (registry : UpcasterRegistry) (eventType : String) :
    UpcasterRegistry × UpcasterVersions :=
  match registry.lookup eventType with
  | some versions => (registry, versions)
  | none => (registry.insert eventType ∅, ∅)

def register (registry : UpcasterRegistry) (eventType : String) (upcaster : EventUpcaster) :
    Except UpcasterRegistrationError Unit × UpcasterRegistry :=
  let (registry, versions) := registry.entryOrDefault eventType
  if (versions.lookup upcaster.sourceVersion).isSome then
    (.error ⟨eventType, upcaster.sourceVersion⟩, registry)
  else
    (.ok (), registry.insert eventType (versions.insert upcaster.sourceVersion upcaster))

/-- The upcaster that is registered for an event type at a version. -/
def registered (registry : UpcasterRegistry) (eventType : String) (version : UInt32) :
    Option EventUpcaster :=
  (registry.lookup eventType).bind fun versions => versions.lookup version

/-- The registry after calls of `register`, of which any may be refused. -/
def after (registry : UpcasterRegistry) (calls : List (String × EventUpcaster)) :
    UpcasterRegistry :=
  calls.foldl (fun registry call => (registry.register call.1 call.2).2) registry

/-- The calls among them that return `Ok`. -/
@[grind =]
def accepted (registry : UpcasterRegistry) :
    List (String × EventUpcaster) → List (String × EventUpcaster)
  | [] => []
  | call :: calls =>
    match registry.register call.1 call.2 with
    | (.ok _, registry) => call :: registry.accepted calls
    | (.error _, registry) => registry.accepted calls

/-- Every upcaster is kept under its own source version. -/
def Keyed (registry : UpcasterRegistry) : Prop :=
  ∀ eventType version upcaster, registry.registered eventType version = some upcaster →
    upcaster.sourceVersion = version

variable {registry : UpcasterRegistry} {eventType : String} {upcaster : EventUpcaster}
  {calls other : List (String × EventUpcaster)}

theorem registered_of_some {versions : UpcasterVersions}
    (held : registry.lookup eventType = some versions) (version : UInt32) :
    registry.registered eventType version = versions.lookup version := by
  rw [registered, held, Option.bind_some]

theorem registered_of_none (held : registry.lookup eventType = none) (version : UInt32) :
    registry.registered eventType version = none := by
  rw [registered, held, Option.bind_none]

theorem registered_insert (registry : UpcasterRegistry) (eventType : String)
    (versions : UpcasterVersions) (other : String) (version : UInt32) :
    UpcasterRegistry.registered (registry.insert eventType versions) other version =
      if other = eventType then versions.lookup version
      else registry.registered other version := by
  by_cases here : other = eventType
  · subst here
    rw [registered, AList.lookup_insert, Option.bind_some, if_pos rfl]
  · rw [registered, AList.lookup_insert_ne here, if_neg here, registered]

theorem lookup_insert (versions : UpcasterVersions) (source : UInt32)
    (upcaster : EventUpcaster) (version : UInt32) :
    (versions.insert source upcaster).lookup version =
      if version = source then some upcaster else versions.lookup version := by
  by_cases here : version = source
  · subst here
    rw [AList.lookup_insert, if_pos rfl]
  · rw [AList.lookup_insert_ne here, if_neg here]

/-- What one call of `register` does. It is refused exactly where the version has an upcaster,
and then the registry is left as it was. -/
theorem register_spec (registry : UpcasterRegistry) (eventType : String)
    (upcaster : EventUpcaster) :
    (∃ present, registry.registered eventType upcaster.sourceVersion = some present ∧
      registry.register eventType upcaster =
        (.error ⟨eventType, upcaster.sourceVersion⟩, registry)) ∨
    (registry.registered eventType upcaster.sourceVersion = none ∧
      (registry.register eventType upcaster).1 = .ok () ∧
      ∀ other version, (registry.register eventType upcaster).2.registered other version =
        if other = eventType ∧ version = upcaster.sourceVersion then some upcaster
        else registry.registered other version) := by
  cases held : registry.lookup eventType with
  | some versions =>
    have entry : registry.entryOrDefault eventType = (registry, versions) := by
      rw [entryOrDefault, held]
    have reads := registered_of_some held
    cases occupied : versions.lookup upcaster.sourceVersion with
    | some present =>
      left
      refine ⟨present, by rw [reads, occupied], ?_⟩
      simp only [register, entry, occupied, Option.isSome_some, ↓reduceIte]
    | none =>
      right
      refine ⟨by rw [reads, occupied], ?_, fun other version => ?_⟩
      · simp only [register, entry, occupied, Option.isSome_none, Bool.false_eq_true,
          ↓reduceIte]
      · simp only [register, entry, occupied, Option.isSome_none, Bool.false_eq_true,
          ↓reduceIte]
        rw [registered_insert, lookup_insert]
        by_cases here : other = eventType
        · simp only [here, reads, true_and, ↓reduceIte]
        · simp only [here, false_and, ↓reduceIte]
  | none =>
    have entry : registry.entryOrDefault eventType =
        (registry.insert eventType ∅, ∅) := by rw [entryOrDefault, held]
    right
    refine ⟨registered_of_none held _, ?_, fun other version => ?_⟩
    · simp only [register, entry, AList.lookup_empty, Option.isSome_none, Bool.false_eq_true,
        ↓reduceIte]
    · simp only [register, entry, AList.lookup_empty, Option.isSome_none, Bool.false_eq_true,
        ↓reduceIte]
      rw [registered_insert, lookup_insert, registered_insert, AList.lookup_empty]
      by_cases here : other = eventType
      · simp only [here, registered_of_none held, true_and, ↓reduceIte]
      · simp only [here, false_and, ↓reduceIte]

theorem Keyed.register (keyed : registry.Keyed) (eventType : String) (upcaster : EventUpcaster) :
    (registry.register eventType upcaster).2.Keyed := by
  intro other version found held
  obtain ⟨_, -, refused⟩ | ⟨-, -, kept⟩ := register_spec registry eventType upcaster
  · rw [refused] at held
    exact keyed other version found held
  · rw [kept] at held
    split at held
    · rename_i here
      cases held
      exact here.2.symm
    · exact keyed other version found held

theorem Keyed.after (keyed : registry.Keyed) (calls : List (String × EventUpcaster)) :
    (registry.after calls).Keyed := by
  induction calls generalizing registry with
  | nil => exact keyed
  | cons call calls ih => exact ih (keyed.register call.1 call.2)

theorem keyed_empty : Keyed ∅ := by
  intro eventType version upcaster held
  rw [registered_of_none (AList.lookup_empty eventType)] at held
  cases held

theorem accepted_of_ok (isOk : (registry.register eventType upcaster).1 = .ok ())
    (calls : List (String × EventUpcaster)) :
    registry.accepted ((eventType, upcaster) :: calls) =
      (eventType, upcaster) ::
        UpcasterRegistry.accepted (registry.register eventType upcaster).2 calls := by
  rw [accepted]
  generalize registry.register eventType upcaster = result at isOk
  obtain ⟨outcome, next⟩ := result
  subst isOk
  rfl

/-- A registry holds what it held before and what was accepted since. -/
theorem registered_after_iff (registry : UpcasterRegistry)
    (calls : List (String × EventUpcaster)) (eventType : String) (version : UInt32)
    (upcaster : EventUpcaster) :
    (registry.after calls).registered eventType version = some upcaster ↔
      registry.registered eventType version = some upcaster ∨
        (eventType, upcaster) ∈ registry.accepted calls ∧ upcaster.sourceVersion = version := by
  induction calls generalizing registry with
  | nil => simp [after, accepted]
  | cons call calls ih =>
    have later := ih (registry.register call.1 call.2).2
    obtain ⟨_, -, refused⟩ | ⟨free, isOk, kept⟩ := register_spec registry call.1 call.2
    · have same : registry.accepted (call :: calls) = registry.accepted calls := by
        rw [accepted, refused]
      rw [refused] at later
      rw [same, ← later, after, List.foldl_cons, refused, after]
    · rw [accepted_of_ok isOk, after, List.foldl_cons]
      refine later.trans ?_
      rw [kept, List.mem_cons]
      by_cases here : eventType = call.1 ∧ version = call.2.sourceVersion
      · obtain ⟨rfl, rfl⟩ := here
        simp only [and_self, ↓reduceIte, free, reduceCtorEq, false_or, Option.some.injEq]
        refine ⟨?_, ?_⟩
        · rintro (rfl | ⟨member, atSource⟩)
          · exact ⟨.inl rfl, rfl⟩
          · exact ⟨.inr member, atSource⟩
        · rintro ⟨same | member, atSource⟩
          · exact .inl (congrArg Prod.snd same).symm
          · exact .inr ⟨member, atSource⟩
      · simp only [here, ↓reduceIte]
        refine or_congr_right (and_congr_left fun atSource => ?_)
        refine ⟨.inr, fun member => member.resolve_left ?_⟩
        intro same
        rw [Prod.mk.injEq] at same
        exact here ⟨same.1, by rw [← atSource, same.2]⟩

theorem accepted_sublist (registry : UpcasterRegistry) (calls : List (String × EventUpcaster)) :
    (registry.accepted calls).Sublist calls := by
  induction calls generalizing registry with
  | nil => exact List.Sublist.refl _
  | cons call calls ih =>
    rw [accepted]
    split
    · exact (ih _).cons_cons call
    · exact (ih _).cons call

/-- Every call is accepted exactly where each is for a place that neither the registry nor an
earlier call has taken. -/
theorem accepted_eq_self_iff (registry : UpcasterRegistry)
    (calls : List (String × EventUpcaster)) :
    registry.accepted calls = calls ↔
      (∀ call ∈ calls, registry.registered call.1 call.2.sourceVersion = none) ∧
        calls.Pairwise fun call later =>
          ¬ (call.1 = later.1 ∧ call.2.sourceVersion = later.2.sourceVersion) := by
  induction calls generalizing registry with
  | nil => simp [accepted]
  | cons call calls ih =>
    obtain ⟨present, taken, refused⟩ | ⟨free, isOk, kept⟩ :=
      register_spec registry call.1 call.2
    · have skipped : registry.accepted (call :: calls) = registry.accepted calls := by
        rw [accepted, refused]
      refine ⟨fun all => ?_, fun places => ?_⟩
      · have shorter := (accepted_sublist registry calls).length_le
        rw [← skipped, all, List.length_cons] at shorter
        omega
      · have free := places.1 call List.mem_cons_self
        rw [taken] at free
        cases free
    · rw [accepted_of_ok isOk, List.cons.injEq, ih, List.pairwise_cons]
      have split : (∀ later ∈ calls,
          (registry.register call.1 call.2).2.registered later.1 later.2.sourceVersion =
            none) ↔
          (∀ later ∈ calls, registry.registered later.1 later.2.sourceVersion = none) ∧
            ∀ later ∈ calls,
              ¬ (call.1 = later.1 ∧ call.2.sourceVersion = later.2.sourceVersion) := by
        rw [← forall₂_and]
        refine forall₂_congr fun later member => ?_
        rw [kept]
        by_cases same : later.1 = call.1 ∧ later.2.sourceVersion = call.2.sourceVersion
        · simp only [same, and_self, ↓reduceIte, reduceCtorEq, not_true_eq_false, and_false]
        · have apart : ¬ (call.1 = later.1 ∧
              call.2.sourceVersion = later.2.sourceVersion) :=
            fun taken => same ⟨taken.1.symm, taken.2.symm⟩
          simp only [same, apart, ↓reduceIte, not_false_eq_true, and_true]
      simp only [split, true_and, List.forall_mem_cons, free, and_assoc]

/-- Calls of which none is refused may come in any order. -/
theorem accepted_of_perm (all : registry.accepted calls = calls) (reordered : other.Perm calls) :
    registry.accepted other = other := by
  obtain ⟨free, places⟩ := (accepted_eq_self_iff registry calls).mp all
  refine (accepted_eq_self_iff registry other).mpr ⟨?_, ?_⟩
  · intro call member
    exact free call (reordered.mem_iff.mp member)
  · refine (reordered.pairwise_iff ?_).mpr places
    intro call later apart same
    exact apart ⟨same.1.symm, same.2.symm⟩

/-- What is registered for an event type, with nothing where the type is unknown. -/
def versionsOf (registry : UpcasterRegistry) (eventType : String) : UpcasterVersions :=
  (registry.lookup eventType).getD ∅

theorem lookup_versionsOf (registry : UpcasterRegistry) (eventType : String) (version : UInt32) :
    (registry.versionsOf eventType).lookup version = registry.registered eventType version := by
  rw [versionsOf, registered]
  cases registry.lookup eventType with
  | none => exact AList.lookup_empty version
  | some versions => rfl

/-- An unknown event type is one with no upcasters. -/
theorem upcast_eq (registry : UpcasterRegistry) (eventType : String) (stored : UInt32)
    (rawPayload : List UInt8) :
    registry.upcast eventType stored rawPayload =
      match (registry.versionsOf eventType).climb eventType stored rawPayload with
      | .error error => .error error
      | .ok (reached, upgraded) =>
        if reached < (registry.versionsOf eventType).maxTarget.getD stored then
          .error (noUpcastPath eventType reached
            ((registry.versionsOf eventType).maxTarget.getD stored))
        else .ok (reached, upgraded) := by
  cases held : registry.lookup eventType with
  | some versions => simp only [upcast, held, versionsOf, Option.getD_some]
  | none =>
    have ends : (∅ : UpcasterVersions).climb eventType stored rawPayload =
        .ok (stored, rawPayload) := by rw [UpcasterVersions.climb, AList.lookup_empty]
    have noTarget : (∅ : UpcasterVersions).maxTarget = none := rfl
    simp only [upcast, held, versionsOf, Option.getD_none, ends, noTarget, UInt32.lt_irrefl,
      ↓reduceIte]

/-- What `upcast` returns on success, from the upcasters that are registered. -/
theorem upcast_eq_ok_iff (keyed : registry.Keyed) (eventType : String)
    (stored reached : UInt32) (rawPayload payload : List UInt8) :
    registry.upcast eventType stored rawPayload = .ok (reached, payload) ↔
      registry.registered eventType reached = none ∧
        (∀ version upcaster, registry.registered eventType version = some upcaster →
          upcaster.targetVersion ≤ reached) ∧
        ∃ hops, UpcastChain (registry.registered eventType) stored hops reached ∧
          upcastAll hops rawPayload = .ok payload := by
  have reads : registry.registered eventType =
      fun version => (registry.versionsOf eventType).lookup version := by
    funext version
    exact (lookup_versionsOf registry eventType version).symm
  have keyedVersions : (registry.versionsOf eventType).Keyed := by
    intro version upcaster found
    rw [lookup_versionsOf] at found
    exact keyed eventType version upcaster found
  have loop := UpcasterVersions.climb_eq_ok_iff keyedVersions eventType stored
  rw [upcast_eq, reads]
  refine ⟨fun returned => ?_, ?_⟩
  · split at returned
    · cases returned
    · rename_i version upgraded climbed
      split at returned
      · cases returned
      · rename_i final
        cases returned
        obtain ⟨ended, hops, chain, composed⟩ := (loop _ _ _).mp climbed
        exact ⟨ended, (UpcasterVersions.not_lt_maxTarget_iff chain.le).mp final, hops, chain,
          composed⟩
  · rintro ⟨ended, all, hops, chain, composed⟩
    have final := (UpcasterVersions.not_lt_maxTarget_iff chain.le).mpr all
    rw [(loop _ _ _).mpr ⟨ended, hops, chain, composed⟩]
    exact if_neg final

/-- `upcast` reads nothing of the registry but what is registered for the event type. -/
theorem upcast_congr {other : UpcasterRegistry} (eventType : String)
    (same : ∀ version, registry.registered eventType version = other.registered eventType version)
    (stored : UInt32) (rawPayload : List UInt8) :
    registry.upcast eventType stored rawPayload = other.upcast eventType stored rawPayload := by
  have sameVersions : ∀ version, (registry.versionsOf eventType).lookup version =
      (other.versionsOf eventType).lookup version := by
    intro version
    rw [lookup_versionsOf, lookup_versionsOf, same]
  rw [upcast_eq, upcast_eq, UpcasterVersions.climb_congr sameVersions,
    UpcasterVersions.maxTarget_congr sameVersions]

/-- The shortcut returns what the loop would. -/
theorem preparePayload_eq_upcast (registry : UpcasterRegistry) (eventType : String)
    (stored : UInt32) (rawPayload : List UInt8) :
    registry.preparePayload eventType stored rawPayload =
      registry.upcast eventType stored rawPayload := by
  rw [preparePayload]
  split
  · rename_i shortcut
    have unknown : registry.lookup eventType = none := by
      rcases Bool.or_eq_true _ _ |>.mp shortcut with nothing | notOne
      · cases held : registry.lookup eventType with
        | none => rfl
        | some versions =>
          have member := AList.mem_lookup_iff.mp held
          rw [List.isEmpty_iff.mp nothing] at member
          cases member
      · simpa [hasUpcasters] using notOne
    rw [upcast, unknown]
  · rfl

theorem after_append (registry : UpcasterRegistry) (calls later : List (String × EventUpcaster)) :
    registry.after (calls ++ later) = (registry.after calls).after later := by
  rw [after, List.foldl_append, after, after]

/-- A refused call leaves no trace in what later calls find. -/
theorem after_refused {error : UpcasterRegistrationError}
    (refused : (registry.register eventType upcaster).1 = .error error)
    (later : List (String × EventUpcaster)) :
    registry.after ((eventType, upcaster) :: later) = registry.after later := by
  obtain ⟨present, -, kept⟩ | ⟨-, isOk, -⟩ := register_spec registry eventType upcaster
  · rw [after, List.foldl_cons, kept, after]
  · rw [isOk] at refused
    cases refused

/-- Two orders of registration that accept the same calls agree on every event. -/
theorem upcast_of_accepted_perm (same : (registry.accepted other).Perm (registry.accepted calls))
    (eventType : String) (stored : UInt32) (rawPayload : List UInt8) :
    (registry.after other).upcast eventType stored rawPayload =
      (registry.after calls).upcast eventType stored rawPayload := by
  refine upcast_congr eventType (fun version => ?_) stored rawPayload
  ext upcaster
  rw [registered_after_iff, registered_after_iff, same.mem_iff]

/-- What `upcast` returns is final: upcasting it again changes nothing. -/
theorem upcast_again (keyed : registry.Keyed) {stored reached : UInt32}
    {rawPayload payload : List UInt8}
    (returned : registry.upcast eventType stored rawPayload = .ok (reached, payload)) :
    registry.upcast eventType reached payload = .ok (reached, payload) := by
  obtain ⟨ended, all, -⟩ := (upcast_eq_ok_iff keyed _ _ _ _ _).mp returned
  exact (upcast_eq_ok_iff keyed _ _ _ _ _).mpr ⟨ended, all, [], .done reached, rfl⟩

/-- The upcasters of a registry that was filled by calls of `register`, in any order and with
any versions. The loop ends on every input, as `climb` is a total function. -/
theorem upcast_follows_chain (calls : List (String × EventUpcaster)) (eventType : String)
    (stored : UInt32) (rawPayload : List UInt8) :
    (∀ reached payload,
      (after ∅ calls).upcast eventType stored rawPayload = .ok (reached, payload) →
        stored ≤ reached ∧ (after ∅ calls).registered eventType reached = none ∧
        (∀ version upcaster, (after ∅ calls).registered eventType version = some upcaster →
          upcaster.targetVersion ≤ reached) ∧
        (∃ hops, UpcastChain ((after ∅ calls).registered eventType) stored hops reached ∧
          upcastAll hops rawPayload = .ok payload) ∧
        (after ∅ calls).upcast eventType reached payload = .ok (reached, payload)) ∧
    (after ∅ calls).preparePayload eventType stored rawPayload =
      (after ∅ calls).upcast eventType stored rawPayload ∧
    (∀ other : List (String × EventUpcaster), (accepted ∅ other).Perm (accepted ∅ calls) →
      (after ∅ other).upcast eventType stored rawPayload =
        (after ∅ calls).upcast eventType stored rawPayload) ∧
    (∀ other : List (String × EventUpcaster), other.Perm calls → accepted ∅ calls = calls →
      accepted ∅ other = other ∧ (after ∅ other).upcast eventType stored rawPayload =
        (after ∅ calls).upcast eventType stored rawPayload) ∧
    ∀ otherType upcaster error later,
      ((after ∅ calls).register otherType upcaster).1 = .error error →
        after ∅ (calls ++ (otherType, upcaster) :: later) = after ∅ (calls ++ later) := by
  have keyed : (after ∅ calls).Keyed := keyed_empty.after calls
  refine ⟨fun reached payload returned => ?_, preparePayload_eq_upcast _ _ _ _,
    fun other same => upcast_of_accepted_perm same _ _ _, fun other reordered all => ?_,
    fun otherType upcaster error later refused => ?_⟩
  · obtain ⟨ended, targets, hops, chain, composed⟩ :=
      (upcast_eq_ok_iff keyed _ _ _ _ _).mp returned
    exact ⟨chain.le, ended, targets, ⟨hops, chain, composed⟩, upcast_again keyed returned⟩
  · have everyOne := accepted_of_perm all reordered
    refine ⟨everyOne, upcast_of_accepted_perm ?_ _ _ _⟩
    rw [everyOne, all]
    exact reordered
  · rw [after_append, after_append, after_refused refused]

end UpcasterRegistry

end DddCqrsEs
