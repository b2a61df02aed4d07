import GameText.Error
import GameText.Json.Order
import GameText.Text.Lines

/-!
# Settings

The settings of the program and the file that keeps them. A value of the wrong kind in the file
leaves the default in its place; truth values and integers are never taken for each other. A file
that is missing or no JSON object gives the defaults. Bytes that are no UTF-8 are an error, and so
is an integer of more digits than are read.
-/

namespace GameText

/-- The settings. -/
structure Settings where
  serverUrl : Text := "http://localhost:11434"
  model : Text := "qwen3:14b"
  targetLanguage : Text := "English"
  sourceLanguage : Text := "Japanese"
  batchSize : Int := 10
  /-- Text inside the macro blocks of scenarios is translated. -/
  macroTexts : Bool := true
  /-- Seconds after which an idle document is dropped; zero for never. -/
  lifetime : Int := 0
  lastFolder : Text := []
  darkMode : Bool := true
deriving DecidableEq, Repr

namespace Settings

/-- The fields of a settings file, in order. -/
def fields (s : Settings) : List (Text × Json) :=
  [("ollama_url", .str s.serverUrl), ("model", .str s.model),
   ("target_language", .str s.targetLanguage), ("source_language", .str s.sourceLanguage),
   ("batch_size", .int s.batchSize), ("extract_macro_text", .bool s.macroTexts),
   ("store_ttl_seconds", .int s.lifetime), ("last_open_dir", .str s.lastFolder),
   ("dark_mode", .bool s.darkMode)].map fun (k, v) => (k.toList, v)

/-- A string that the members hold under a name, else the default. -/
def textOr (members : List (Text × Json)) (name : Text) (fallback : Text) : Text :=
  match lookup? name members with
  | some (.str s) => s
  | _ => fallback

/-- An integer that the members hold under a name, else the default. -/
def intOr (members : List (Text × Json)) (name : Text) (fallback : Int) : Int :=
  match lookup? name members with
  | some (.num (.int n)) => n
  | _ => fallback

/-- A truth value that the members hold under a name, else the default. -/
def boolOr (members : List (Text × Json)) (name : Text) (fallback : Bool) : Bool :=
  match lookup? name members with
  | some (.bool b) => b
  | _ => fallback

/-- The settings with the values that the members hold. -/
def ofMembers (s : Settings) (members : List (Text × Json)) : Settings :=
  { serverUrl := textOr members "ollama_url" s.serverUrl
    model := textOr members "model" s.model
    targetLanguage := textOr members "target_language" s.targetLanguage
    sourceLanguage := textOr members "source_language" s.sourceLanguage
    batchSize := intOr members "batch_size" s.batchSize
    macroTexts := boolOr members "extract_macro_text" s.macroTexts
    lifetime := intOr members "store_ttl_seconds" s.lifetime
    lastFolder := textOr members "last_open_dir" s.lastFolder
    darkMode := boolOr members "dark_mode" s.darkMode }

/-- The settings that a text holds. -/
def ofText (text : Text) : Except Json.Refusal Settings :=
  match Json.read text.unifyNewlines with
  | .ok (.obj members) => .ok (ofMembers {} members)
  | .ok _ => .ok {}
  | .error refusal => if refusal.problem.hasPlace then .ok {} else .error refusal

/-- Reads the settings file. -/
def load (file : Option Bytes) : Except Error Settings := do
  match file with
  | none => return {}
  | some content =>
    let text ← (Utf8.decode content).mapError Error.notUtf8
    (ofText text).mapError fun refusal => .notJson refusal text

/-- The text of a settings file with the given fields. -/
def fileText (fields : List (Text × Json)) : Text := (Json.obj fields).indented

/-- The text of the settings file. -/
def save (s : Settings) : Text := fileText s.fields

/-! ## Fields of any kind -/

/-- The default fields with others in their place; a name that is no field is refused. -/
def override (given : List (Text × Json)) : Except Misfit (List (Text × Json)) :=
  let names := (fields {}).map (·.1)
  if given.any fun (k, _) => !names.contains k then .error .wrongKind
  else .ok ((fields {}).map fun (k, v) => (k, (lookup? k given).getD v))

/-- Reading a file with the given fields gives settings with equal fields. -/
def reloadsEqual (written : List (Text × Json)) : Bool :=
  match ofText (fileText written) with
  | .ok settings => Json.sameMembers written settings.fields
  | .error _ => false

end Settings

end GameText
