import GameText.Session.Basic

/-!
# Session files

A session is kept as a JSON file: for each document its name, its format, its bytes in base64, its
extraction and its target texts. Reading takes missing fields as empty and refuses what cannot be
a session; names and texts may be values of any kind.
-/

namespace GameText

namespace Session

/-- The written form of a document. -/
def documentToJson (d : SessionDocument) : Json :=
  .obj <| [("filename", d.filename), ("format", d.format),
    ("data", .str (Base64.encode d.content)), ("extraction", d.extraction.toJson),
    ("translations", .arr d.targets)].map fun (k, v) => (k.toList, v)

/-- The written form of a session. -/
def toJson (s : Session) : Json :=
  .obj [("documents".toList, .arr (s.documents.map documentToJson))]

/-- The text of a session file. -/
def save (s : Session) : Text := s.toJson.indented

/-- A member of an object, or the value of one that is missing. -/
def memberOr (name : String) (missing : Json) (members : List (Text × Json)) : Json :=
  (lookup? name.toList members).getD missing

/-- Reads a document. Its bytes must be written as text, and its extraction and its target texts
must be some; all else may be of any kind. -/
def documentOfJson (v : Json) : Except Error SessionDocument :=
  match v with
  | .obj members => do
    let encoded ← (memberOr "data" (.str []) members).needText.mapError Error.misfit
    let content ← (Base64.decode encoded).mapError Error.notBase64
    let extraction ← ExtractionRecord.ofJson (memberOr "extraction" (.obj []) members)
    let targets ← (memberOr "translations" (.arr []) members).parts.mapError Error.misfit
    return { filename := memberOr "filename" (.str []) members
             format := memberOr "format" (.str []) members
             content, extraction
             targets := SessionDocument.fillTargets extraction.total targets }
  | _ => .error (.misfit .noSuchPart)

/-- Reads a session. -/
def ofJson (v : Json) : Except Error Session :=
  match v with
  | .obj members => do
    let listed ← (memberOr "documents" (.arr []) members).parts.mapError Error.misfit
    return ⟨← listed.mapM documentOfJson⟩
  | _ => .error (.misfit .noSuchPart)

/-- Reads the text of a session file. -/
def load (text : Text) : Except Error Session := do
  let text := text.unifyNewlines
  let value ← (Json.read text).mapError fun refusal => .notJson refusal text
  ofJson value

/-- Reads the bytes of a session file. -/
def loadBytes (content : Bytes) : Except Error Session := do
  let text ← (Utf8.decode content).mapError Error.notUtf8
  load text

end Session

end GameText
