import GameText.Json.Order
import GameText.Localization.Client
import GameText.Settings
import GameText.Text.Keyword

/-!
# The settings form

A form in which a copy of the settings is edited. The models to choose from are asked of the server
when the form opens and whenever the user wants them again; what is typed for the model stays.
Saving trims what was typed and puts a default in the place of blank text.
-/

namespace GameText

/-- The form. -/
structure SettingsForm where
  url : Text
  model : Text
  models : List Json := []
  source : Text
  target : Text
  batchSize : Int
  macroTexts : Bool
  lifetime : Int
  darkMode : Bool
  status : Text := []
  style : Text := []

/-- A box with a message. -/
inductive BoxKind where
  | information
  | warning
  | critical
deriving DecidableEq, Repr

/-- A box that is shown: its kind, its title and its text. -/
structure Box where
  kind : BoxKind
  title : Text
  text : Text
deriving DecidableEq, Repr

/-- A change that the user makes in the form. -/
inductive FormEdit where
  | url (text : Text)
  | model (text : Text)
  | source (text : Text)
  | target (text : Text)
  | batchSize (n : Int)
  | lifetime (n : Int)
  | macroTexts (on : Bool)
  | darkMode (on : Bool)
deriving DecidableEq, Repr

/-- A button of the form that asks the server. -/
inductive FormButton where
  | refresh
  | test
deriving DecidableEq, Repr

/-- What the user does with the form. -/
structure FormVisit where
  edits : List FormEdit := []
  presses : List FormButton := []
  save : Bool := false
deriving DecidableEq, Repr

namespace SettingsForm

/-- The languages that are offered. -/
def languages : List Text := Text.wordList
  ["English", "Japanese", "Chinese", "Korean", "Spanish", "French", "German", "Portuguese",
   "Russian", "Vietnamese", "Indonesian", "Thai"]

/-- The server's usual address. -/
def usualUrl : Text := "http://localhost:11434"

/-- The least and the greatest batch size. -/
def batchRange : Int × Int := (1, 30)

/-- The least and the greatest lifetime in seconds. -/
def lifetimeRange : Int × Int := (0, 7 * 24 * 3600)

/-- The number of a range that is nearest. -/
def clampTo (range : Int × Int) (n : Int) : Int := max range.1 (min range.2 n)

/-- The trimmed text, or another one if it is blank. -/
def orElse (text fallback : Text) : Text := if text.trim.isEmpty then fallback else text.trim

/-- The address in the form. -/
def address (f : SettingsForm) : Text := orElse f.url usualUrl

/-- A client for the address in the form. -/
def client (f : SettingsForm) : Client := { baseUrl := Client.trimSlashes f.address }

/-- The form with the settings in it, before the server is asked. -/
def ofSettings (s : Settings) : SettingsForm :=
  { url := s.serverUrl
    model := s.model
    source := s.sourceLanguage
    target := s.targetLanguage
    batchSize := clampTo batchRange s.batchSize
    macroTexts := s.macroTexts
    lifetime := clampTo lifetimeRange s.lifetime
    darkMode := s.darkMode }

/-- The form with the models that the server has. -/
def withModels (f : SettingsForm) (names : List Json) : Except Misfit SettingsForm :=
  if names.isEmpty then
    .ok { f with
      models := [], status := "Could not fetch models -- is Ollama running?"
      style := "color: red;" }
  else
    (Json.sorted names).map fun models =>
      { f with
        models, status := "Found " ++ Text.ofNat names.length ++ " model(s)"
        style := "color: green;" }

/-- Asks the server for its models. -/
def refresh (f : SettingsForm) (wire : Wire) : Except Misfit SettingsForm × Wire :=
  let (names, wire) := f.client.listModels wire
  (names.bind f.withModels, wire)

/-- Makes a change. -/
def edit (f : SettingsForm) : FormEdit → SettingsForm
  | .url text => { f with url := text }
  | .model text => { f with model := text }
  | .source text => { f with source := text }
  | .target text => { f with target := text }
  | .batchSize n => { f with batchSize := clampTo batchRange n }
  | .lifetime n => { f with lifetime := clampTo lifetimeRange n }
  | .macroTexts on => { f with macroTexts := on }
  | .darkMode on => { f with darkMode := on }

/-- The box that tells whether the server can be reached. -/
def testBox (reached : Bool) : Box :=
  if reached then ⟨.information, "Connection OK", "Successfully connected to Ollama!"⟩
  else ⟨.warning, "Connection Failed",
    "Cannot reach Ollama. Make sure it's running:\n  ollama serve"⟩

/-- Presses a button. The answer has the boxes that are shown. -/
def press (f : SettingsForm) (button : FormButton) (wire : Wire) :
    (Except Misfit SettingsForm × List Box) × Wire :=
  match button with
  | .refresh =>
    let (f, wire) := f.refresh wire
    ((f, []), wire)
  | .test =>
    let (reached, wire) := f.client.isAvailable wire
    ((.ok f, [testBox reached]), wire)

/-- Presses buttons one after the other, up to one that fails. -/
def pressAll (f : SettingsForm) : List FormButton → Wire →
    (Except Misfit SettingsForm × List Box) × Wire
  | [], wire => ((.ok f, []), wire)
  | button :: buttons, wire =>
    match f.press button wire with
    | ((.error e, boxes), wire) => ((.error e, boxes), wire)
    | ((.ok f, boxes), wire) =>
      let ((f, more), wire) := f.pressAll buttons wire
      ((f, boxes ++ more), wire)

/-- The settings with what the form holds. -/
def save (f : SettingsForm) (s : Settings) : Settings :=
  { s with
    serverUrl := f.address
    model := orElse f.model s.model
    sourceLanguage := orElse f.source "Japanese"
    targetLanguage := orElse f.target "English"
    batchSize := f.batchSize
    macroTexts := f.macroTexts
    lifetime := f.lifetime
    darkMode := f.darkMode }

/-- A visit to the form: how it was when it opened and when it closed, and the settings
afterwards. -/
structure Visited where
  before : SettingsForm
  after : SettingsForm
  settings : Settings

/-- Lets the user visit the form. The answer has the boxes that are shown. -/
def visit (s : Settings) (v : FormVisit) (wire : Wire) :
    (Except Misfit Visited × List Box) × Wire :=
  match (ofSettings s).refresh wire with
  | (.error e, wire) => ((.error e, []), wire)
  | (.ok before, wire) =>
    let ((after, boxes), wire) := (v.edits.foldl edit before).pressAll v.presses wire
    let visited := after.map fun after =>
      (⟨before, after, if v.save then after.save s else s⟩ : Visited)
    ((visited, boxes), wire)

end SettingsForm

end GameText
