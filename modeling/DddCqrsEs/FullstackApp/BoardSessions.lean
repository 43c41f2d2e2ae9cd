import DddCqrsEs.FullstackApp.BoardEdits
import DddCqrsEs.FullstackApp.BoardStore
import DddCqrsEs.Transition
import Mathlib.Logic.Function.Basic

/- Any number of editors of one board. Each request loads, merges and writes in three atomic
steps, and the steps of different requests interleave. -/
namespace DddCqrsEs.FullstackApp

open Transition

inductive BoardRequest where
  | save (access : AccessContext) (layout : DashboardLayout)
  | note (widgetId text : String)

namespace BoardRequest

/-- What is checked before the load. -/
def check : BoardRequest → Except AuthStackError Unit
  | save _ _ => .ok ()
  | note widgetId text =>
    if trim widgetId = "" then .error (.validation "widget_id is required")
    else if 2000 < text.toList.length then .error (.validation "note is too long")
    else .ok ()

/-- The layout that a request writes on top of the one it loaded, and its guard. -/
def prepare : BoardRequest → DashboardLayout → Except AuthStackError (DashboardLayout × Option Int)
  | save access layout, stored => mergeLayout access layout stored
  | note widgetId text, stored => editNote widgetId text stored

/-- The revision of the layout that the editor works on: the one the client sends along, or the
one that the note is written on. -/
def seen : BoardRequest → DashboardLayout → Int
  | save _ layout, _ => layout.revision
  | note _ _, stored => stored.revision

end BoardRequest

inductive BoardSession where
  | idle
  | loaded (request : BoardRequest) (stored : DashboardLayout)
  | writing (layout : DashboardLayout) (expected : Option Int) (seen : Int)

/-- One write as it went: what the editor had seen, and the row before and after. -/
structure BoardWrite where
  layout : DashboardLayout
  seen : Int
  before : Option BoardRow
  after : Option BoardRow
  result : Except AuthStackError Int

structure BoardServer where
  row : Option BoardRow
  sessions : Nat → BoardSession
  writes : List BoardWrite

inductive BoardAction where
  | load (session : Nat) (request : BoardRequest)
  | merge (session : Nat)
  | write (session : Nat)

namespace BoardServer

def setSession (server : BoardServer) (session : Nat) (phase : BoardSession) : BoardServer :=
  { server with sessions := Function.update server.sessions session phase }

def load (server : BoardServer) (session : Nat) (request : BoardRequest) : BoardServer :=
  match request.check with
  | .error _ => server
  | .ok () =>
    match loadDashboardLayout server.row with
    | .error _ => server
    | .ok stored => server.setSession session (.loaded request stored)

def merge (server : BoardServer) (session : Nat) (request : BoardRequest)
    (stored : DashboardLayout) : BoardServer :=
  match request.prepare stored with
  | .error _ => server.setSession session .idle
  | .ok (layout, expected) =>
    server.setSession session (.writing layout expected (request.seen stored))

def write (server : BoardServer) (session : Nat) (layout : DashboardLayout)
    (expected : Option Int) (seen : Int) : BoardServer :=
  let (result, row) := saveDashboardLayout server.row layout expected
  { row := row
    sessions := Function.update server.sessions session .idle
    writes := server.writes ++ [⟨layout, seen, server.row, row, result⟩] }

def step (server : BoardServer) : BoardAction → Option BoardServer
  | .load session request =>
    match server.sessions session with
    | .idle => some (server.load session request)
    | _ => none
  | .merge session =>
    match server.sessions session with
    | .loaded request stored => some (server.merge session request stored)
    | _ => none
  | .write session =>
    match server.sessions session with
    | .writing layout expected seen => some (server.write session layout expected seen)
    | _ => none

end BoardServer

/-- The board may be missing or stored at first, and no request is under way. -/
def boardMachine : Machine BoardServer BoardAction where
  start server := (∀ session, server.sessions session = .idle) ∧ server.writes = []
  step := BoardServer.step

/-- A write replaces the revision that its editor saw, or it is refused and changes nothing. -/
structure BoardWrite.Faithful (write : BoardWrite) : Prop where
  replaces : ∀ revision, write.result = .ok revision → storedRevision write.before = write.seen
  keeps : ∀ error, write.result = .error error → write.after = write.before
  refuses : write.layout.check = .ok () → storedRevision write.before ≠ write.seen →
    ∃ message, write.result = .error (.conflict message)

/-- A write that passes its checks has no guard only where no board is stored, and has one only
where one is. -/
def BoardServer.GuardFits (server : BoardServer) : BoardAction → Prop
  | .write session => ∀ layout expected seen,
      server.sessions session = .writing layout expected seen → layout.check = .ok () →
        (expected = none ↔ server.row = none)
  | _ => True

/-- The guard of a prepared write is the revision that its editor saw, if that is one. -/
def GuardOf (expected : Option Int) (seen : Int) : Prop :=
  expected = none ∧ seen = 0 ∨ expected = some seen ∧ 0 < seen

variable {stored layout : DashboardLayout} {expected : Option Int} {request : BoardRequest}
  {server : BoardServer}

theorem mergeLayout_guard {access : AccessContext} {request : DashboardLayout}
    (merged : mergeLayout access request stored = .ok (layout, expected)) :
    GuardOf expected request.revision := by
  simp only [mergeLayout, migrateIfNeeded_revision] at merged
  split at merged
  · rename_i fresh
    cases merged
    exact .inl ⟨rfl, fresh.1⟩
  · split at merged
    · cases merged
    · cases merged
      exact .inr ⟨rfl, by omega⟩

theorem editNote_guard {widgetId text : String} (loaded : 0 ≤ stored.revision)
    (edited : editNote widgetId text stored = .ok (layout, expected)) :
    GuardOf expected stored.revision := by
  rw [editNote] at edited
  split at edited
  · cases edited
  · cases edited
  · cases edited
    by_cases missing : stored.revision ≤ 0
    · exact .inl ⟨if_pos missing, by omega⟩
    · exact .inr ⟨if_neg missing, by omega⟩

theorem BoardRequest.prepare_guard (loaded : 0 ≤ stored.revision)
    (prepared : request.prepare stored = .ok (layout, expected)) :
    GuardOf expected (request.seen stored) := by
  cases request with
  | save access own => exact mergeLayout_guard prepared
  | note widgetId text => exact editNote_guard loaded prepared

/-- What is known of a request under way. -/
def BoardSession.Sound : BoardSession → Prop
  | idle => True
  | loaded _ stored => 0 ≤ stored.revision
  | writing _ expected seen => GuardOf expected seen

namespace BoardServer

def Sound (server : BoardServer) : Prop := ∀ session, (server.sessions session).Sound

theorem sound_update {sessions : Nat → BoardSession} (sound : ∀ session, (sessions session).Sound)
    {phase : BoardSession} (fits : phase.Sound) (session : Nat) :
    ∀ other, (Function.update sessions session phase other).Sound := by
  intro other
  rw [Function.update_apply]
  split
  · exact fits
  · exact sound other

theorem Sound.load (sound : server.Sound) (session : Nat) (request : BoardRequest) :
    (server.load session request).Sound := by
  rw [BoardServer.load]
  split
  · exact sound
  · split
    · exact sound
    · rename_i stored loaded
      have known : (BoardSession.loaded request stored).Sound := by
        rw [BoardSession.Sound, loadDashboardLayout_revision loaded]
        exact storedRevision_nonneg _
      exact sound_update sound known session

theorem Sound.merge (sound : server.Sound) {session : Nat} {request : BoardRequest}
    {stored : DashboardLayout} (held : server.sessions session = .loaded request stored) :
    (server.merge session request stored).Sound := by
  have known := sound session
  rw [held] at known
  have idle : BoardSession.idle.Sound := trivial
  rw [BoardServer.merge]
  split
  · exact sound_update sound idle session
  · rename_i layout expected prepared
    have guard : (BoardSession.writing layout expected (request.seen stored)).Sound :=
      BoardRequest.prepare_guard known prepared
    exact sound_update sound guard session

theorem Sound.step {next : BoardServer} (sound : server.Sound) {action : BoardAction}
    (stepped : server.step action = some next) : next.Sound := by
  cases action with
  | load session request =>
    rw [BoardServer.step] at stepped
    split at stepped
    · cases stepped
      exact sound.load session request
    · cases stepped
  | merge session =>
    rw [BoardServer.step] at stepped
    split at stepped
    · rename_i request stored held
      cases stepped
      exact sound.merge held
    · cases stepped
  | write session =>
    rw [BoardServer.step] at stepped
    split at stepped
    · cases stepped
      have idle : BoardSession.idle.Sound := trivial
      exact sound_update sound idle session
    · cases stepped

end BoardServer

/-- A request that has seen a stored board, or that writes with a guard. -/
def BoardSession.Guarded : BoardSession → Prop
  | idle => True
  | loaded _ stored => 0 < stored.revision
  | writing _ expected _ => expected ≠ none

/-- A board is stored, and no request works on another one. -/
structure BoardServer.Stored (server : BoardServer) : Prop where
  row : server.row ≠ none
  sessions : ∀ session, (server.sessions session).Guarded

theorem BoardRequest.prepare_guarded (positive : 0 < stored.revision)
    (prepared : request.prepare stored = .ok (layout, expected)) : expected ≠ none := by
  rintro rfl
  cases request with
  | save access own =>
    simp only [prepare, mergeLayout] at prepared
    split at prepared
    · omega
    · split at prepared <;> cases prepared
  | note widgetId text =>
    simp only [prepare, editNote] at prepared
    split at prepared
    · cases prepared
    · cases prepared
    · have guard := congrArg Prod.snd (Except.ok.inj prepared)
      dsimp only at guard
      rw [if_neg (by omega)] at guard
      cases guard

theorem saveDashboardLayout_stored {row : Option BoardRow} (stored : row ≠ none)
    (layout : DashboardLayout) (expected : Option Int) :
    (saveDashboardLayout row layout expected).2 ≠ none := by
  obtain ⟨error, _, outcome⟩ | ⟨_, current, present, _, outcome⟩ |
    ⟨_, _, written, _, _, outcome⟩ := saveDashboardLayout_spec row layout expected
  · rw [outcome]
    exact stored
  · rw [outcome]
    exact stored
  · rw [outcome]
    exact Option.some_ne_none written

namespace BoardServer

theorem guarded_update {sessions : Nat → BoardSession}
    (guarded : ∀ session, (sessions session).Guarded) {phase : BoardSession}
    (fits : phase.Guarded) (session : Nat) :
    ∀ other, (Function.update sessions session phase other).Guarded := by
  intro other
  rw [Function.update_apply]
  split
  · exact fits
  · exact guarded other

theorem Stored.step {next : BoardServer} (stored : server.Stored) {action : BoardAction}
    (stepped : server.step action = some next) : next.Stored := by
  have idle : BoardSession.idle.Guarded := trivial
  cases action with
  | load session request =>
    rw [BoardServer.step] at stepped
    split at stepped
    · cases stepped
      rw [BoardServer.load]
      split
      · exact stored
      · split
        · exact stored
        · rename_i layout loaded
          obtain ⟨row, present⟩ := Option.ne_none_iff_exists'.mp stored.row
          have seen : (BoardSession.loaded request layout).Guarded := by
            rw [BoardSession.Guarded, loadDashboardLayout_revision loaded, present]
            exact row.positive
          exact ⟨stored.row, guarded_update stored.sessions seen session⟩
    · cases stepped
  | merge session =>
    rw [BoardServer.step] at stepped
    split at stepped
    · rename_i request layout held
      cases stepped
      have seen := stored.sessions session
      rw [held] at seen
      rw [BoardServer.merge]
      split
      · exact ⟨stored.row, guarded_update stored.sessions idle session⟩
      · rename_i written expected prepared
        have guard : (BoardSession.writing written expected (request.seen layout)).Guarded :=
          BoardRequest.prepare_guarded seen prepared
        exact ⟨stored.row, guarded_update stored.sessions guard session⟩
    · cases stepped
  | write session =>
    rw [BoardServer.step] at stepped
    split at stepped
    · rename_i layout expected seen held
      cases stepped
      exact ⟨saveDashboardLayout_stored stored.row layout expected,
        guarded_update stored.sessions idle session⟩
    · cases stepped

/-- Once a board is stored, every guard fits. -/
theorem Stored.guardFits (stored : server.Stored) (action : BoardAction) :
    server.GuardFits action := by
  cases action with
  | load session request => trivial
  | merge session => trivial
  | write session =>
    intro layout expected seen held _
    have guard := stored.sessions session
    rw [held] at guard
    exact iff_of_false guard stored.row

theorem Stored.meets (stored : server.Stored) (actions : List BoardAction) :
    boardMachine.Meets GuardFits server actions :=
  Machine.meets_of_kept (fun _ _ _ stored stepped => stored.step stepped)
    (fun _ action stored => stored.guardFits action) stored actions

end BoardServer

end DddCqrsEs.FullstackApp
