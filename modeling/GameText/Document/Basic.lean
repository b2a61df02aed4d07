import GameText.Document.Extraction

/-!
# Documents

A document is a file as it was opened: its name, its bytes, and the format told from both. Its text
units are taken out once; edited texts are written back into its bytes, and a byte order mark at
the beginning stays there.
-/

namespace GameText

/-- A file as it was opened. -/
structure Document where
  filename : Text
  content : Bytes
  format : Format
deriving DecidableEq, Repr

/-- The byte order mark as a character. -/
def byteOrderMark : Char := '\uFEFF'

/-- The text of a file without its byte order mark, and whether it had one. -/
def decodeSource (content : Bytes) : Except Error (Text × Bool) :=
  match Utf8.decode content with
  | .error refusal => .error (.source (.notUtf8 refusal))
  | .ok text =>
    match text with
    | c :: rest => .ok (if c = byteOrderMark then (rest, true) else (text, false))
    | [] => .ok ([], false)

/-- The bytes of a file whose source was changed. -/
def changeSource (content : Bytes) (change : Text → Except Error Text) : Except Error Bytes := do
  let (source, marked) ← decodeSource content
  let written ← change source
  return Utf8.encode (if marked then byteOrderMark :: written else written)

namespace Document

/-- Opens a file and takes its text units out. -/
def extract (options : ExtractionOptions) (filename : Text) (content : Bytes) :
    Except Error (Document × Extraction) :=
  let document : Document := ⟨filename, content, Format.detect filename content⟩
  if document.format.supported then do
    let (source, _) ← decodeSource content
    let units ← document.format.extractUnits options source
    return (document, { format := document.format, units })
  else .ok (document, Extraction.unsupported document.format)

/-- The bytes of a document with edited texts in the place of its text units; without edits its own
texts are written back. -/
def reinsert (document : Document) (extraction : Extraction) (edits : Option Edits) :
    Except Error Bytes :=
  if extraction.supported && document.format.supported then
    changeSource document.content fun source =>
      document.format.reinsertTexts source extraction.mapping
        (edits.getD (extraction.texts.map some))
  else .error (.unsupportedFormat document.format.tag)

end Document

end GameText
