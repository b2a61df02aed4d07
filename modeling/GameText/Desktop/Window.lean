import GameText.Desktop.Disk
import GameText.Desktop.RemainingTime
import GameText.Desktop.SettingsForm
import GameText.Desktop.Table
import GameText.Document.Store
import GameText.Localization.Engine
import GameText.Session.File

/-!
# The window

The state of the program's window: the workbench, the list of documents beside it, the store that
the documents came from, the engine, and what the user sees around them. What happens in the window
is an action, a function of the state that may fail on its way; what was done before the failure
stays done.
-/

namespace GameText

/-- Which dialog asks for a path. -/
inductive PathDialogKind where
  | openMany
  | openOne
  | save
  | folder
deriving DecidableEq, Repr

/-- Something that is shown to the user in passing. -/
inductive Shown where
  /-- A message in the status bar, and for how many milliseconds. -/
  | message (text : Text) (milliseconds : Nat)
  | box (box : Box)
  /-- A dialog that asks for a path: its title, the path it starts from, and its filter. -/
  | pathDialog (kind : PathDialogKind) (title start : Text) (filter : Option Text)
  | menu (entries : List Text)
  /-- The settings form, as it was when it opened and when it closed. -/
  | form (before after : SettingsForm)

/-- The progress of a run as it is shown. -/
structure ProgressBar where
  visible : Bool := false
  /-- The greatest value, if it was set. -/
  range : Option Nat := none
  value : Option Int := none
  label : Text := []
deriving DecidableEq, Repr

namespace ProgressBar

/-- Sets the value; one outside the range is ignored. -/
def setValue (p : ProgressBar) (value : Int) : ProgressBar :=
  if 0 ≤ value ∧ value ≤ (p.range.getD 100 : Nat) then { p with value := some value } else p

end ProgressBar

/-- The window. -/
structure Window where
  bench : Workbench
  settings : Settings
  store : Store
  /-- The time by which the store ages. -/
  storeClock : Number := .int 0
  /-- The time of day in seconds. -/
  clock : Number := .int 0
  /-- The identifier in the store of each document of the session, if it has one. -/
  documentIds : List (Option Text) := []
  /-- The identity of each document of the session: no two documents that were ever opened have one
  identity, whatever they hold. -/
  identities : List Nat := []
  /-- The identity of the next document. -/
  nextIdentity : Nat := 0
  /-- Where the session was last saved or loaded. -/
  sessionPath : Text := []
  /-- When the last run began. -/
  runStart : Number := .float (.zero false)
  /-- The list of documents: a label for each, and the current row. -/
  labels : List Text := []
  row : Option Nat := none
  title : Text := "Game Script Text Bridge"
  /-- Runs may be started from the menu. -/
  runEnabled : Bool := false
  /-- The run may be stopped from the menu. -/
  stopEnabled : Bool := false
  progress : ProgressBar := {}
  engine : Engine := {}
  /-- The jobs that were dealt out to the workers of the last run. -/
  jobs : List Job := []
  disk : Disk := {}
  wire : Wire := { turns := [] }
  /-- How often the engine has announced progress since the step began. -/
  progressCount : Nat := 0
  /-- What was shown since the step began. -/
  shown : List Shown := []

/-- Why an action fails. -/
inductive Fault where
  | error (cause : Error)
  | file (cause : FileError)
  | breakdown (cause : Breakdown)

/-- What happens in the window. -/
abbrev Act (α : Type) := ExceptT Fault (StateM Window) α

namespace Window

/-- The name of the program. -/
def programName : Text := "Game Script Text Bridge"

/-- The file of the settings. -/
def settingsFile : Text := "settings.json"

/-- The opened documents. -/
def documents (w : Window) : List SessionDocument := w.bench.session.documents

/-- The client that the settings make. -/
def client (w : Window) : Client :=
  { baseUrl := Client.trimSlashes w.settings.serverUrl
    model := w.settings.model
    sourceLanguage := w.settings.sourceLanguage
    targetLanguage := w.settings.targetLanguage }

/-- The label of a document: its name, its format, and how much of it is translated. -/
def label (d : SessionDocument) : Text :=
  d.filename.asText ++ "  [" ++ d.format.asText ++ "]  " ++ Text.ofNat d.translatedCount ++
    '/' :: Text.ofNat d.total

/-- The current document. -/
def current? (w : Window) : Option (Nat × SessionDocument) :=
  w.row.bind fun i => (w.documents[i]?).map fun d => (i, d)

/-- The window over a disk at the start of the program. -/
def ofDisk (disk : Disk) : Except Error Window := do
  let settings ← Settings.load (disk.read settingsFile).toOption
  return { settings, disk
           bench := Workbench.setDark {} settings.darkMode
           store := { lifetime := .int settings.lifetime } }

/-! ## Small actions -/

/-- Changes the window. -/
def change (f : Window → Window) : Act Unit := modify f

/-- Shows something. -/
def «show» (shown : Shown) : Act Unit := change fun w => { w with shown := w.shown ++ [shown] }

/-- Shows a message in the status bar. -/
def say (text : Text) (milliseconds : Nat) : Act Unit := Window.show (.message text milliseconds)

/-- Shows a box. -/
def warn (kind : BoxKind) (title text : Text) : Act Unit := Window.show (.box ⟨kind, title, text⟩)

/-- Keeps the settings in their file. If that cannot be written they are lost, and nobody is
told. -/
def keepSettings : Act Unit := change fun w =>
  match w.disk.write settingsFile (Utf8.encode w.settings.save) with
  | .ok disk => { w with disk }
  | .error _ => w

/-- Brings the labels of the documents up to date. -/
def relabel : Act Unit := change fun w =>
  { w with labels := (w.documents.map label).take w.labels.length ++
      w.labels.drop w.documents.length }

/-- The failure that a table announces. -/
def failure? : TableEvent → Option Misfit
  | .unlisted cause => some cause
  | _ => none

/-- Changes the workbench, and follows what the table announces. The answer is the rows of units
that are to be translated. -/
def work (f : Workbench → Workbench) : Act (List (List Nat)) := do
  let bench := f (← get).bench
  change fun w => { w with bench := { bench with events := [] } }
  if bench.events.contains .changed then relabel
  match bench.events.findSome? failure? with
  | some cause => throw (.error (.misfit cause))
  | none =>
    return bench.events.filterMap fun
      | .translate units => some units
      | _ => none

/-- Makes a row of the list of documents current. The table follows if the row is another one. -/
def setRow (row : Option Nat) : Act Unit := do
  let w ← get
  if row = w.row then return
  change fun w => { w with row }
  let _ ← work (·.showDocument (row.filter (· < w.documents.length)))

/-- Makes the list of documents anew, with a row current that is near the given one. -/
def listDocuments (near : Nat) : Act Unit := do
  change fun w => { w with labels := w.documents.map label, row := none }
  let w ← get
  if w.documents.isEmpty then
    let _ ← work (·.showDocument none)
  else setRow (some (min near (w.documents.length - 1)))
  change fun w => { w with runEnabled := !w.documents.isEmpty }

end Window

end GameText
