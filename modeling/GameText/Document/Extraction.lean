import GameText.LooseAddress.Events
import GameText.LooseAddress.Lines

/-!
# Extractions

An extraction is what was taken out of one document: its text units, each with its address, or the
message that nothing can be taken out of the format. The parsers of the formats meet here in one
pair of functions: from a source to its units, and from a source with edited texts to a new source.
-/

namespace GameText

/-- What the parsers include. -/
structure ExtractionOptions where
  /-- Text inside the macro blocks of a scenario. -/
  macroTexts : Bool := true
  /-- Values embedded in script calls. -/
  scriptCalls : Bool := true
deriving DecidableEq, Repr

/-- A text with its address. -/
abbrev TextUnit := Text × Address

namespace Format

/-- Takes the text units out of a source of a supported format. -/
def extractUnits (options : ExtractionOptions) (source : Text) : Format →
    Except Error (List TextUnit)
  | .eventData =>
    (EventData.extract options.scriptCalls source).map (·.map fun (t, a) => (t, .event a))
  | .renpy => .ok ((Renpy.extract source).map fun (t, a) => (t, .literal a))
  | .tyrano => .ok ((Tyrano.extract source).map fun (t, a) => (t, .prose a))
  | .kag => .ok ((Kag.extract options.macroTexts source).map fun (t, a) => (t, .tagLine a))
  | .other _ => .ok []

/-- Writes edited texts back into a source of a supported format, following loose addresses. -/
def reinsertLoosely (source : Text) (mapping : List Address) (edits : List Json) : Format →
    Except Error Text
  | .eventData => LooseAddress.reinsertEvents source (mapping.map Address.fields) edits
  | .renpy =>
    (LooseAddress.reinsertLiterals source (mapping.map Address.fields) edits).mapError .misfit
  | .tyrano =>
    (LooseAddress.reinsertProse source (mapping.map Address.fields) edits).mapError .misfit
  | .kag =>
    (LooseAddress.reinsertTagLines source (mapping.map Address.fields) edits).mapError .misfit
  | .other name => .error (.unsupportedFormat name)

/-- Writes edited texts back into a source of a supported format. Addresses that are not all of the
format's own kind are followed as loose ones. -/
def reinsertTexts (source : Text) (mapping : List Address) (edits : Edits) (format : Format) :
    Except Error Text :=
  let loosely (_ : Unit) := format.reinsertLoosely source mapping edits.toValues
  match format with
  | .eventData =>
    match mapping.mapM Address.event? with
    | some mapping => EventData.reinsert source mapping edits
    | none => loosely ()
  | .renpy =>
    match mapping.mapM Address.literal? with
    | some mapping => .ok (Renpy.reinsert source mapping edits)
    | none => loosely ()
  | .tyrano =>
    match mapping.mapM Address.prose? with
    | some mapping => .ok (Tyrano.reinsert source mapping edits)
    | none => loosely ()
  | .kag =>
    match mapping.mapM Address.tagLine? with
    | some mapping => .ok (Kag.reinsert source mapping edits)
    | none => loosely ()
  | .other _ => loosely ()

/-- An edited text that a value stands for: a text, or null for a missing one. -/
def editOfValue? : Json → Option (Option Text)
  | .str s => some (some s)
  | .null => some none
  | _ => none

/-- Writes values in the place of edited texts back into a source of a supported format. -/
def reinsertValues (source : Text) (mapping : List Address) (values : List Json)
    (format : Format) : Except Error Text :=
  match values.mapM editOfValue? with
  | some edits => format.reinsertTexts source mapping edits
  | none => format.reinsertLoosely source mapping values

end Format

/-- What was taken out of a document. -/
structure Extraction where
  format : Format
  units : List TextUnit := []
  supported : Bool := true
  message : Text := []

namespace Extraction

/-- The texts of an extraction, in order. -/
def texts (e : Extraction) : List Text := e.units.map (·.1)

/-- The addresses of an extraction, in order. -/
def mapping (e : Extraction) : List Address := e.units.map (·.2)

/-- The number of text units. -/
def total (e : Extraction) : Nat := e.units.length

/-- The message for a format from which nothing is taken. -/
def notSupportedMessage : Text := "This file type is not supported yet."

/-- The extraction from a document of a format without a parser. -/
def unsupported (format : Format) : Extraction :=
  { format, supported := false, message := notSupportedMessage }

end Extraction

/-! ## Extractions in files -/

/-- An extraction as a file holds it, where every field may have a value of any kind. -/
structure ExtractionRecord where
  format : Json
  texts : List Json
  mapping : List Address
  supported : Json
  message : Json

namespace ExtractionRecord

/-- The record of an extraction. -/
def ofExtraction (e : Extraction) : ExtractionRecord :=
  { format := .str e.format.tag
    texts := e.texts.map .str
    mapping := e.mapping
    supported := .bool e.supported
    message := .str e.message }

/-- The written form of a record. -/
def toJson (r : ExtractionRecord) : Json :=
  .obj <| [("format", r.format), ("texts", .arr r.texts),
    ("mapping", .arr (r.mapping.map Address.toJson)), ("supported", r.supported),
    ("message", r.message)].map fun (k, v) => (k.toList, v)

/-- The addresses of a format that a value holds. A format without addresses has none, whatever the
value is. -/
def readMapping (format : Json) (mapping : Option Json) : Except Misfit (List Address) :=
  match format with
  | .arr _ => .error .wrongKind
  | .obj _ => .error .wrongKind
  | .str tag =>
    if (Format.ofTag tag).supported then do
      (← (mapping.getD (.arr [])).parts).mapM (Address.ofJson (Format.ofTag tag) false)
    else .ok []
  | _ => .ok []

/-- Reads a record. It must have as many texts as addresses. -/
def ofJson (v : Json) : Except Error ExtractionRecord :=
  match v with
  | .obj members => do
    let format := (lookup? "format".toList members).getD (.str [])
    let mapping ← (readMapping format (lookup? "mapping".toList members)).mapError Error.misfit
    let texts ← (((lookup? "texts".toList members).getD (.arr [])).parts).mapError Error.misfit
    if texts.length ≠ mapping.length then throw (.unitCount texts.length mapping.length)
    return { format, texts, mapping
             supported := (lookup? "supported".toList members).getD (.bool true)
             message := (lookup? "message".toList members).getD (.str []) }
  | _ => .error (.misfit .noSuchPart)

/-- The number of text units. -/
def total (r : ExtractionRecord) : Nat := r.texts.length

end ExtractionRecord

end GameText
