import GameText.Document.Basic
import GameText.Json.Display

/-!
# Sessions of work on documents

A session is the row of opened documents with the target texts made so far: a unit has a source
text, which was taken out of its document, and a target text, which is empty until the unit is
translated. Saving a document writes the target text where there is one and the source text
elsewhere.

Documents that were opened have texts throughout. A session file may hold values of other kinds in
the places of names and texts; they are kept as they are, and refused only where a text is needed.
-/

namespace GameText

/-- An opened document with its target texts, one for each unit at least. -/
structure SessionDocument where
  filename : Json
  format : Json
  content : Bytes
  extraction : ExtractionRecord
  targets : List Json

namespace SessionDocument

/-- The target texts, filled up with empty ones to one for each unit. -/
def fillTargets (total : Nat) (targets : List Json) : List Json :=
  targets ++ List.replicate (total - targets.length) (.str [])

/-- A document with the given target texts, filled up with empty ones. -/
def new (document : Document) (extraction : Extraction) (targets : List Json) :
    SessionDocument :=
  { filename := .str document.filename
    format := .str document.format.tag
    content := document.content
    extraction := .ofExtraction extraction
    targets := fillTargets extraction.total targets }

/-- The number of text units. -/
def total (d : SessionDocument) : Nat := d.extraction.total

/-- The source texts of the units. -/
def sources (d : SessionDocument) : List Json := d.extraction.texts

/-- The source text of a unit. -/
def source (d : SessionDocument) (unit : Nat) : Json := d.sources.getD unit (.str [])

/-- The target text of a unit. -/
def target (d : SessionDocument) (unit : Nat) : Json := d.targets.getD unit (.str [])

/-- A unit has a target text. -/
def isTranslated (d : SessionDocument) (unit : Nat) : Bool := (d.target unit).truthy

/-- The number of units with a target text. -/
def translatedCount (d : SessionDocument) : Nat := d.targets.countP Json.truthy

/-- The texts to write back: the target text where there is one, else the source text. -/
def editedTexts (d : SessionDocument) : List Json :=
  (d.targets.zip d.sources).map fun (t, o) => if t.truthy then t else o

/-- The bytes of the document with its target texts. -/
def save (d : SessionDocument) : Except Error Bytes :=
  let format := Format.ofTag d.format.asText
  if d.extraction.supported.truthy && format.supported then
    changeSource d.content fun source =>
      format.reinsertValues source d.extraction.mapping d.editedTexts
  else .error (.unsupportedFormat d.format.asText)

/-- Sets the target text of a unit. -/
def setTarget (d : SessionDocument) (unit : Nat) (target : Json) : SessionDocument :=
  { d with targets := d.targets.set unit target }

/-- Sets the target text of a unit that may be counted from the end. -/
def translate? (d : SessionDocument) (unit : Int) (target : Json) : Option SessionDocument :=
  (index? d.targets.length unit).map fun u => d.setTarget u target

end SessionDocument

/-- The opened documents. -/
structure Session where
  documents : List SessionDocument := []

/-- A text unit that waits to be translated, with the units before it as context. -/
structure Job where
  document : Int
  unit : Int
  text : Text
  context : Text
deriving DecidableEq, Repr

/-- The texts of up to `lines` units before a unit, one a line. -/
def contextBefore (sources : List Json) (lines : Int) (unit : Nat) : Except Misfit Text := do
  let first := (max 0 ((unit : Int) - lines)).toNat
  return Text.join ['\n'] (← ((sources.take unit).drop first).mapM Json.needText)

/-- The job of a unit of a document, unless the unit is blank. Only a text can be blank. -/
def jobOf? (document : Nat) (sources : List Json) (lines : Int) (unit : Nat) (source : Json) :
    Except Misfit (Option Job) :=
  match source with
  | .str text => do
    if text.allBlank then return none
    return some ⟨document, unit, text, ← contextBefore sources lines unit⟩
  | _ => .error .noSuchPart

namespace Session

/-- The number of text units. -/
def total (s : Session) : Nat := s.documents.foldl (fun n d => n + d.total) 0

/-- The number of units with a target text. -/
def translatedCount (s : Session) : Nat := s.documents.foldl (fun n d => n + d.translatedCount) 0

/-- The jobs of a document: one for every unit that has no target text and is not blank. -/
def jobsOf (contextLines : Int) (document : Nat) (d : SessionDocument) :
    Except Misfit (List Job) := do
  let waiting := d.sources.zipIdx.filter fun (_, unit) => !d.isTranslated unit
  let jobs ← waiting.mapM fun (source, unit) => jobOf? document d.sources contextLines unit source
  return jobs.filterMap id

/-- A job for every unit that has no target text and is not blank, in document order. -/
def jobs (s : Session) (contextLines : Int) : Except Misfit (List Job) := do
  let jobs ← s.documents.zipIdx.mapM fun (d, i) => jobsOf contextLines i d
  return jobs.flatten

/-- The document at an index that may be counted from the end. -/
def document? (s : Session) (i : Int) : Option (Nat × SessionDocument) :=
  (index? s.documents.length i).bind fun k => (s.documents[k]?).map fun d => (k, d)

/-- Puts a document in the place of another. -/
def setDocument (s : Session) (i : Nat) (d : SessionDocument) : Session :=
  { s with documents := s.documents.set i d }

end Session

end GameText
