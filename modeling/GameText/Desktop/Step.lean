import GameText.Desktop.Run

/-!
# Steps in the window

A step is one thing that the user does, or that a timer or the engine does on its own. While the
step's run goes on, further things may be due after certain announcements of progress.
-/

namespace GameText

/-- An entry of the menus. -/
inductive MenuAction where
  | openDocuments
  | saveDocument
  | exportDocuments
  | closeDocument
  | saveSession
  | saveSessionAs
  | loadSession
  | quit
  | translateAll
  | translateDocument
  | stop
  | settings
deriving DecidableEq, Repr

namespace MenuAction

/-- The entries in the order of the menus. -/
def order : List MenuAction :=
  [.openDocuments, .saveDocument, .exportDocuments, .closeDocument, .saveSession, .saveSessionAs,
   .loadSession, .quit, .translateAll, .translateDocument, .stop, .settings]

/-- The text of an entry. -/
def text : MenuAction → Text
  | .openDocuments => "&Open Files..."
  | .saveDocument => "&Save Document As..."
  | .exportDocuments => "&Export All to Folder..."
  | .closeDocument => "&Close Document"
  | .saveSession => "Save Session"
  | .saveSessionAs => "Save Session As..."
  | .loadSession => "Load Session..."
  | .quit => "&Quit"
  | .translateAll => "Translate All Documents"
  | .translateDocument => "Translate Current Document"
  | .stop => "Stop"
  | .settings => "&Settings"

/-- The entry with a text. -/
def ofText? (text : Text) : Option MenuAction := order.find? (·.text == text)

end MenuAction

/-- What the user answers to the dialogs of an action. -/
structure DialogReply where
  paths : List Text := []
  path : Text := []
  visit : FormVisit := {}
deriving DecidableEq, Repr

/-- Something that happens in the window. -/
inductive Gesture where
  | choose (action : MenuAction) (reply : DialogReply)
  | document (row : Int)
  | purge (now : Number)
  | clock (now : Number)
  | progress (done total : Int) (preview : Text)
  | target (document unit : Int) (text : Text)
  | close
  | search (text : Text)
  | filterTimeout
  | status (name : Text)
  | select (rows : List Int) (cursor : Int)
  | type (text : Text)
  | edit (cell : CellIndex) (role : CellRole) (text : Text)
  | menu (entry : Option Text)
  /-- A look that changes nothing. -/
  | none
deriving DecidableEq, Repr

namespace Window

/-- An entry of the menus can be chosen. -/
def isEnabled (w : Window) : MenuAction → Bool
  | .openDocuments => true
  | .loadSession => true
  | .quit => true
  | .settings => true
  | .translateAll => w.runEnabled
  | .translateDocument => w.runEnabled
  | .stop => w.stopEnabled
  | _ => !w.documents.isEmpty

/-- The entries that cannot be chosen. -/
def disabled (w : Window) : List MenuAction := MenuAction.order.filter (!w.isEnabled ·)

/-- Closes the window. A run is asked to stop, and the settings are kept. -/
def close : Act Unit := do
  change fun w => { w with engine := w.engine.halt }
  keepSettings

/-- Opens the settings form; saved settings hold at once and are kept. -/
def visitSettings (visit : FormVisit) : Act Unit := do
  let w ← get
  let ((visited, boxes), wire) := SettingsForm.visit w.settings visit w.wire
  change fun w => { w with wire, shown := w.shown ++ boxes.map Shown.box }
  match visited with
  | .error cause => throw (.error (.misfit cause))
  | .ok visited =>
    Window.show (.form visited.before visited.after)
    if visit.save then
      change fun w =>
        { w with
          settings := visited.settings
          store := { w.store with lifetime := .int visited.settings.lifetime } }
      keepSettings
      let _ ← work (·.setDark visited.settings.darkMode)

/-- Carries out an entry of the menus. -/
def carry (launch : List Job → Act Unit) (reply : DialogReply) : MenuAction → Act Unit
  | .openDocuments => openDocuments reply.paths
  | .saveDocument => saveDocument reply.path
  | .exportDocuments => exportDocuments reply.path
  | .closeDocument => closeDocument
  | .saveSession => saveSession reply.path
  | .saveSessionAs => saveSessionAs reply.path
  | .loadSession => loadSession reply.path
  | .quit => close
  | .translateAll => translateAll launch
  | .translateDocument => translateDocument launch
  | .stop => stopRun
  | .settings => visitSettings reply.visit

/-- Opens the menu of the highlighted rows and chooses an entry. -/
def chooseEntry (launch : List Job → Act Unit) (entry : Option Text) : Act Unit := do
  let entries := (← get).bench.menuEntries
  unless entries.isEmpty do Window.show (.menu entries)
  for units in ← work (·.chooseEntry entry) do
    translateUnits launch units

/-- Lets something happen. The arguments are what happens after an announcement of progress, and
what is done with the jobs of a run that is to begin. The answer tells of an edit whether the cell
could be edited. -/
def perform (between : Act Unit) (launch : List Job → Act Unit) : Gesture → Act Bool
  | .choose action reply => do
    if (← get).isEnabled action then carry launch reply action
    return true
  | .document row => do
    let inside := 0 ≤ row ∧ row < (← get).labels.length
    setRow (if inside then some row.toNat else none)
    return true
  | .purge now => do
    change fun w => { w with storeClock := now, store := (w.store.purge now).2 }
    return true
  | .clock now => do
    change fun w => { w with clock := now }
    return true
  | .progress done total preview => do
    progressed between done total preview
    return true
  | .target document unit text => do
    receiveTarget document unit text
    return true
  | .close => do
    close
    return true
  | .search text => do
    let _ ← work (·.search text)
    return true
  | .filterTimeout => do
    let _ ← work (·.filterTimeout)
    return true
  | .status name => do
    let _ ← work (·.chooseStatus name)
    return true
  | .select rows cursor => do
    let _ ← work (·.select rows cursor)
    return true
  | .type text => do
    let _ ← work (·.type text)
    return true
  | .edit cell role text => do
    let (done, bench) := (← get).bench.editCell cell role text
    let _ ← work fun _ => bench
    return done
  | .menu entry => do
    chooseEntry launch entry
    return true
  | .none => return true

/-- Lets something happen, and carries a run that it starts out to its end. -/
def performToEnd (between : Act Unit) : Gesture → Act Bool := perform between (carryOut between)

/-- What is due after an announcement of progress. The first argument bounds how deep runs may
begin within one another; each of them needs something that is due by itself. -/
def due (during : List (Nat × Gesture)) : Nat → Act Unit
  | 0 => pure ()
  | depth + 1 => do
    let count := (← get).progressCount
    for (n, gesture) in during do
      if n = count then
        let _ ← performToEnd (due during depth) gesture

/-- A step: what happens, what is due while its run goes on, and the server's turns. -/
structure Step where
  gesture : Gesture
  during : List (Nat × Gesture) := []
  turns : List ScriptedTurn := []

/-- The window at the beginning of a step. -/
def ready (turns : List ScriptedTurn) (w : Window) : Window :=
  { w with wire := { turns }, shown := [], progressCount := 0 }

/-- Makes a step. -/
def step (s : Step) (w : Window) : Except Fault Bool × Window :=
  performToEnd (due s.during (s.during.length + 1)) s.gesture (w.ready s.turns)

end Window

end GameText
