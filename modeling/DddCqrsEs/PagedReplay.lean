import DddCqrsEs.CatchUp

/- The provided `load_global_after` of the event store traits, which drains the feed page by
page, in its synchronous and its asynchronous copy. -/
namespace DddCqrsEs

open Replay Paging

universe u v w

def globalReplayPageSize : Nat := 500

/-- `load_global_after_limited` of any store, over the world it works on. -/
abbrev PageRead (σ E Id Error : Type*) :=
  Option Nat → Nat → σ → Except Error (List (EventEnvelope E Id)) × σ

/-- What an `async fn` evaluates to. Each time it is polled the world moves on, whoever
moves it. -/
inductive Future (σ : Type u) (α : Type v) : Type (max u v) where
  | ready (value : α)
  | pending (poll : σ → σ) (resume : σ → Future σ α)

namespace Future

variable {σ : Type u} {α : Type v} {β : Type w}

/-- `await`, and then the rest of the function. -/
def andThen : Future σ α → (α → Future σ β) → Future σ β
  | .ready value, next => next value
  | .pending poll resume, next => .pending poll (fun world => (resume world).andThen next)

/-- Polled until it is ready. -/
def block : Future σ α → σ → α × σ
  | .ready value, world => (value, world)
  | .pending poll resume, world => (resume world).block (poll world)

/-- The same future next to something it does not touch. -/
def beside {τ : Type*} : Future σ α → Future (σ × τ) α
  | .ready value => .ready value
  | .pending poll resume =>
    .pending (fun world => (poll world.1, world.2)) (fun world => (resume world.1).beside)

theorem block_andThen (future : Future σ α) (next : α → Future σ β) (world : σ) :
    (future.andThen next).block world =
      (next (future.block world).1).block (future.block world).2 := by
  induction future generalizing world with
  | ready value => rfl
  | pending poll resume ih => exact ih world (poll world)

theorem block_beside {τ : Type*} (future : Future σ α) (world : σ) (other : τ) :
    future.beside.block (world, other) =
      ((future.block world).1, ((future.block world).2, other)) := by
  induction future generalizing world with
  | ready value => rfl
  | pending poll resume ih => exact ih world (poll world)

end Future

abbrev AsyncPageRead (σ E Id Error : Type*) :=
  Option Nat → Nat → Future σ (Except Error (List (EventEnvelope E Id)))

variable {σ E Id Error : Type*}

/-- `EventStore::load_global_after`. `none` means that the loop was still running after
`fuel` pages. -/
def loadGlobalAfter (read : PageRead σ E Id Error) :
    Nat → Option Nat → List (EventEnvelope E Id) → σ →
    Option (Except Error (List (EventEnvelope E Id))) × σ
  | 0, _, _, world => (none, world)
  | fuel + 1, cursor, all, world =>
    match read cursor globalReplayPageSize world with
    | (.error error, world) => (some (.error error), world)
    | (.ok page, world) =>
      let lastSequence := page.getLast?.bind (·.sequence)
      let all := all ++ page
      if page.length < globalReplayPageSize then (some (.ok all), world)
      else
        match lastSequence with
        | some sequence =>
          if cursor.all (· < sequence) then
            loadGlobalAfter read fuel (some sequence) all world
          else (some (.ok all), world)
        | none => (some (.ok all), world)

/-- `AsyncEventStore::load_global_after`. -/
def asyncLoadGlobalAfter (read : AsyncPageRead σ E Id Error) :
    Nat → Option Nat → List (EventEnvelope E Id) →
    Future σ (Option (Except Error (List (EventEnvelope E Id))))
  | 0, _, _ => .ready none
  | fuel + 1, cursor, all =>
    (read cursor globalReplayPageSize).andThen (fun
      | .error error => .ready (some (.error error))
      | .ok page =>
        let lastSequence := page.getLast?.bind (·.sequence)
        let all := all ++ page
        if page.length < globalReplayPageSize then .ready (some (.ok all))
        else
          match lastSequence with
          | some sequence =>
            if cursor.all (· < sequence) then
              asyncLoadGlobalAfter read fuel (some sequence) all
            else .ready (some (.ok all))
          | none => .ready (some (.ok all)))

def AsyncPageRead.blocking (read : AsyncPageRead σ E Id Error) : PageRead σ E Id Error :=
  fun cursor limit => (read cursor limit).block

/-- The asynchronous copy does what the synchronous one does. -/
theorem asyncLoadGlobalAfter_block (read : AsyncPageRead σ E Id Error) (fuel : Nat)
    (cursor : Option Nat) (all : List (EventEnvelope E Id)) (world : σ) :
    (asyncLoadGlobalAfter read fuel cursor all).block world =
      loadGlobalAfter read.blocking fuel cursor all world := by
  induction fuel generalizing cursor all world with
  | zero => rfl
  | succ fuel ih =>
    rw [asyncLoadGlobalAfter, Future.block_andThen, loadGlobalAfter, AsyncPageRead.blocking]
    cases (read cursor globalReplayPageSize).block world with
    | mk answer next =>
      cases answer with
      | error error => rfl
      | ok page =>
        dsimp only
        by_cases short : page.length < globalReplayPageSize
        · rw [if_pos short, if_pos short]
          rfl
        · rw [if_neg short, if_neg short]
          cases page.getLast?.bind (·.sequence) with
          | none => rfl
          | some sequence =>
            dsimp only
            by_cases later : cursor.all (· < sequence) = true
            · rw [if_pos later, if_pos later]
              exact ih (some sequence) (all ++ page) next
            · rw [if_neg later, if_neg later]
              rfl

/-- Reads of a fixed feed: at most `limit` events after the cursor. -/
def ServesPages (feed : List (EventEnvelope E Id)) (read : PageRead σ E Id Error) : Prop :=
  ∀ cursor limit world,
    (read cursor limit world).1 = .ok ((beyond sequenceOf feed cursor).take limit)

/-- A load that returns all events after the cursor, once it may read enough pages. -/
def LoadsAll (feed : List (EventEnvelope E Id))
    (load : Nat → Option Nat → σ → Option (Except Error (List (EventEnvelope E Id))) × σ) : Prop :=
  ∀ cursor fuel world,
    (beyond sequenceOf feed cursor).length / globalReplayPageSize < fuel →
    (load fuel cursor world).1 = some (.ok (beyond sequenceOf feed cursor))

variable {feed : List (EventEnvelope E Id)} {read : PageRead σ E Id Error} {cursor : Option Nat}

theorem loadGlobalAfter_appends (wellFormed : WellFormedFeed feed) (serves : ServesPages feed read)
    {fuel : Nat} {all : List (EventEnvelope E Id)} {world : σ}
    (enough : (beyond sequenceOf feed cursor).length < fuel * globalReplayPageSize) :
    (loadGlobalAfter read fuel cursor all world).1 =
      some (.ok (all ++ beyond sequenceOf feed cursor)) := by
  induction fuel generalizing cursor all world with
  | zero => omega
  | succ fuel ih =>
    have positive : 0 < globalReplayPageSize := by decide
    have answered := serves cursor globalReplayPageSize world
    rw [loadGlobalAfter]
    cases asked : read cursor globalReplayPageSize world with
    | mk answer next =>
      rw [asked] at answered
      dsimp only at answered ⊢
      rw [answered]
      dsimp only
      by_cases short : (beyond sequenceOf feed cursor).length < globalReplayPageSize
      · have whole : (beyond sequenceOf feed cursor).take globalReplayPageSize =
            beyond sequenceOf feed cursor := List.take_of_length_le (Nat.le_of_lt short)
        rw [whole, if_pos short]
      · have full : globalReplayPageSize ≤ (beyond sequenceOf feed cursor).length :=
          Nat.le_of_not_lt short
        obtain ⟨last, ended, forward, rest⟩ := full_page wellFormed.increasing positive full
        have length : ((beyond sequenceOf feed cursor).take globalReplayPageSize).length =
            globalReplayPageSize := by
          rw [List.length_take]
          omega
        have listed := mem_beyond.mp (List.mem_of_mem_take (List.mem_of_getLast? ended))
        have numbered : (some last).bind (·.sequence) = some (sequenceOf last) :=
          wellFormed.sequenced last listed.1
        have fewer : (beyond sequenceOf feed (some (sequenceOf last))).length <
            fuel * globalReplayPageSize := by
          rw [Nat.succ_mul] at enough
          rw [rest, List.length_drop]
          omega
        have later : cursor.all (· < sequenceOf last) = true := forward
        rw [length, if_neg (Nat.lt_irrefl _), ended, numbered]
        dsimp only
        rw [if_pos later, ih fewer, rest, List.append_assoc, List.take_append_drop]

theorem loadGlobalAfter_loadsAll (wellFormed : WellFormedFeed feed)
    (serves : ServesPages feed read) :
    LoadsAll feed (fun fuel cursor => loadGlobalAfter read fuel cursor []) := by
  intro cursor fuel world enough
  have room : (beyond sequenceOf feed cursor).length < fuel * globalReplayPageSize :=
    (Nat.div_lt_iff_lt_mul (by decide)).mp enough
  exact loadGlobalAfter_appends wellFormed serves room

/-- The sequence of the last event a request is answered with. -/
def lastSequence : Except Error (List (EventEnvelope E Id)) → Option Nat
  | .ok page => page.getLast?.bind (·.sequence)
  | .error _ => none

/-- The same reads with a list of the last sequences they were answered with. -/
def PageRead.recorded (read : PageRead σ E Id Error) :
    PageRead (σ × List (Option Nat)) E Id Error :=
  fun cursor limit world =>
    let out := read cursor limit world.1
    (out.1, out.2, world.2 ++ [lastSequence out.1])

def AsyncPageRead.recorded (read : AsyncPageRead σ E Id Error) :
    AsyncPageRead (σ × List (Option Nat)) E Id Error :=
  fun cursor limit => (read cursor limit).beside.andThen (fun out =>
    .pending (fun world => (world.1, world.2 ++ [lastSequence out])) (fun _ => .ready out))

theorem AsyncPageRead.recorded_blocking (read : AsyncPageRead σ E Id Error) :
    read.recorded.blocking = read.blocking.recorded := by
  funext cursor limit world
  rw [AsyncPageRead.blocking, AsyncPageRead.recorded, Future.block_andThen, Future.block_beside]
  rfl

theorem loadGlobalAfter_requests (read : PageRead σ E Id Error) (fuel : Nat) (cursor : Option Nat)
    (all : List (EventEnvelope E Id)) (world : σ) (earlier : List (Option Nat)) :
    ∃ requests, (loadGlobalAfter read.recorded fuel cursor all (world, earlier)).2.2 =
        earlier ++ requests ∧ requests.length ≤ rises cursor requests + 1 := by
  induction fuel generalizing cursor all world earlier with
  | zero => exact ⟨[], (List.append_nil earlier).symm, by simp⟩
  | succ fuel ih =>
    rw [loadGlobalAfter, PageRead.recorded]
    cases read cursor globalReplayPageSize world with
    | mk answer next =>
      cases answer with
      | error error => exact ⟨[none], rfl, by simp⟩
      | ok page =>
        dsimp only [lastSequence]
        have ended : ∀ last : Option Nat, [last].length ≤ rises cursor [last] + 1 := by
          intro last
          rw [List.length_singleton]
          omega
        by_cases short : page.length < globalReplayPageSize
        · rw [if_pos short]
          exact ⟨_, rfl, ended _⟩
        · rw [if_neg short]
          cases page.getLast?.bind (·.sequence) with
          | none => exact ⟨_, rfl, ended _⟩
          | some sequence =>
            dsimp only
            by_cases later : cursor.all (· < sequence) = true
            · rw [if_pos later]
              obtain ⟨requests, traced, bounded⟩ := ih (some sequence) (all ++ page) next
                (earlier ++ [some sequence])
              refine ⟨some sequence :: requests, ?_, ?_⟩
              · exact traced.trans (by rw [List.append_assoc, List.singleton_append])
              · have risen : above cursor sequence = true := later
                simp only [rises, List.length_cons, Option.any_some, risen, if_true]
                omega
            · rw [if_neg later]
              exact ⟨_, rfl, ended _⟩

/-- The pages requested are one more than the sequences that rose beyond the cursor, or two
more where the first page does not count as a rise. -/
def SparingRequests (cursor : Option Nat) (requests : List (Option Nat)) : Prop :=
  requests.length ≤ rises cursor requests + 1 ∧
    requests.length ≤ rises (requests.headD none) requests.tail + 2

theorem sparingRequests_of_rises {requests : List (Option Nat)}
    (bounded : requests.length ≤ rises cursor requests + 1) : SparingRequests cursor requests := by
  refine ⟨bounded, ?_⟩
  cases requests with
  | nil => simp
  | cons first rest =>
    have one := rises_le cursor first rest
    exact Nat.le_trans bounded (Nat.succ_le_succ one)

theorem loadGlobalAfter_sparing (read : PageRead σ E Id Error) (fuel : Nat)
    (cursor : Option Nat) (world : σ) :
    SparingRequests cursor (loadGlobalAfter read.recorded fuel cursor [] (world, [])).2.2 := by
  obtain ⟨requests, traced, bounded⟩ := loadGlobalAfter_requests read fuel cursor [] world []
  rw [traced]
  exact sparingRequests_of_rises bounded

/-- Both copies of the paged load return all events after the cursor, and request no page
that a risen sequence does not call for. -/
theorem pagedLoad_exact :
    (∀ (feed : List (EventEnvelope E Id)) (read : PageRead σ E Id Error), WellFormedFeed feed →
      ServesPages feed read →
      LoadsAll feed (fun fuel cursor => loadGlobalAfter read fuel cursor [])) ∧
    (∀ (feed : List (EventEnvelope E Id)) (read : AsyncPageRead σ E Id Error),
      WellFormedFeed feed → ServesPages feed read.blocking →
      LoadsAll feed (fun fuel cursor => (asyncLoadGlobalAfter read fuel cursor []).block)) ∧
    (∀ (read : PageRead σ E Id Error) (fuel : Nat) (cursor : Option Nat) (world : σ),
      SparingRequests cursor (loadGlobalAfter read.recorded fuel cursor [] (world, [])).2.2) ∧
    ∀ (read : AsyncPageRead σ E Id Error) (fuel : Nat) (cursor : Option Nat) (world : σ),
      SparingRequests cursor
        ((asyncLoadGlobalAfter read.recorded fuel cursor []).block (world, [])).2.2 := by
  refine ⟨?_, ?_, loadGlobalAfter_sparing, ?_⟩
  · intro feed read wellFormed serves
    exact loadGlobalAfter_loadsAll wellFormed serves
  · intro feed read wellFormed serves cursor fuel world enough
    dsimp only
    rw [asyncLoadGlobalAfter_block]
    exact loadGlobalAfter_loadsAll wellFormed serves cursor fuel world enough
  · intro read fuel cursor world
    rw [asyncLoadGlobalAfter_block, AsyncPageRead.recorded_blocking]
    exact loadGlobalAfter_sparing read.blocking fuel cursor world

/-- The reads of a fixed feed, counting how often they are polled. -/
def polledPages (feed : List (EventEnvelope Unit Unit)) : AsyncPageRead Nat Unit Unit Unit :=
  fun cursor limit => .pending (· + 1) (fun _ =>
    .ready (.ok ((beyond sequenceOf feed cursor).take limit)))

/-- A feed of two whole pages. -/
theorem pagedLoad_exact_counting :
    let feed := RunnerPorts.counting.countingFeed 1000
    (loadGlobalAfter (polledPages feed).blocking 3 none [] 0).1 =
        some (.ok (beyond sequenceOf feed none)) ∧
      ((asyncLoadGlobalAfter (polledPages feed) 3 none []).block 0).1 =
        some (.ok (beyond sequenceOf feed none)) := by
  intro feed
  have wellFormed : WellFormedFeed feed := RunnerPorts.counting_readsFeed.wellFormed (1000, none)
  have serves : ServesPages feed (polledPages feed).blocking := fun _ _ _ => rfl
  have pages : (beyond sequenceOf feed none).length / globalReplayPageSize < 3 := by
    have all : beyond sequenceOf feed none = feed := List.filter_eq_self.mpr (fun _ _ => rfl)
    have length : feed.length = 1000 := by simp [feed, RunnerPorts.counting.countingFeed]
    rw [all, length]
    decide
  exact ⟨pagedLoad_exact.1 feed _ wellFormed serves none 3 0 pages,
    pagedLoad_exact.2.1 feed _ wellFormed serves none 3 0 pages⟩

end DddCqrsEs
