import GameText.LooseAddress.Basic
import GameText.Script.Renpy
import GameText.Script.Tyrano
import GameText.Script.Kag

/-!
# Loose addresses of script lines

How the three line formats follow a loose address. The line comes first: an address outside the
script is passed over. The fields that say how the text stands on the line are looked at only when
the line is there, and, for a quoted literal, only when the line has the literal.
-/

namespace GameText

namespace LooseAddress

/-- How one edited text is written on a line: what there is to settle before the line is looked at,
and then the new body of the line. -/
abbrev LineWriter := AddressFields → Json → Except Misfit (Text → Except Misfit Text)

/-- Writes an edited text on the line that an address names. An address outside is passed over. -/
def editLine (write : LineWriter) (ls : List Line) (a : AddressFields) (edit : Json) :
    Except Misfit (List Line) := do
  let number ← field a "line_index"
  if ← number.isNegative then return ls
  if !(← number.isBelow ls.length) then return ls
  let rebuild ← write a edit
  let place ← number.place ls.length
  match ls[place]? with
  | some l =>
    let body ← rebuild l.body
    return Script.editLine (fun _ => body) place ls
  | none => return ls

/-! ## Ren'Py -/

/-- Writes a text into a quoted literal. -/
def writeLiteral : LineWriter := fun a edit => do
  let quote ← field a "quote"
  return fun line => do
    let ordinal := (← field a "string_index").ordinal?.getD (-1)
    if 0 ≤ ordinal ∧ ordinal < (line.tokens Quoted.literal?).length then
      let inside ← edit.escape (quote.text?.getD [])
      let literal := (← quote.needText) ++ inside ++ (← quote.needText)
      return line.mapNthToken Quoted.literal? ordinal fun _ _ => literal
    else return line

/-- Writes edited texts back into a Ren'Py script, in order. -/
def reinsertLiterals (source : Text) (mapping : List AddressFields) (edits : List Json) :
    Except Misfit Text := do
  let ls ← mapping.zipIdx.foldlM (fun ls (a, i) => editLine writeLiteral ls a (editAt edits i))
    source.lines
  return Text.ofLines ls

/-! ## TyranoScript -/

/-- Writes prose between its runs of tags. -/
def writeProse : LineWriter := fun a edit => do
  let lead ← field a "prefix"
  let prose ← edit.needText
  let body := Tyrano.rebuild
    { line := 0, lead := ← lead.needText, tail := ← textField a "suffix" } prose
  return fun _ => .ok body

/-- Writes edited texts back into a TyranoScript scenario, in order. -/
def reinsertProse (source : Text) (mapping : List AddressFields) (edits : List Json) :
    Except Misfit Text := do
  let ls ← mapping.zipIdx.foldlM (fun ls (a, i) => editLine writeProse ls a (editAt edits i))
    source.lines
  return Text.ofLines ls

/-! ## KAG -/

/-- Writes the value of an attribute. Its name is looked at only if a quote can stand around the
value. -/
def writeAttribute (a : AddressFields) (edit : Json) (line : Text) : Except Misfit Text := do
  let new ← edit.needText
  let quote ← textField a "quote"
  if (Kag.usableQuote? (Text.inlineBreaks [' '] new) quote).isNone then return line
  return Kag.rebuildAttribute
    { line := 0, kind := .tagAttribute, quote, attributeName := ← textField a "attribute" } new line

/-- Writes the value of an evaluation. The value is looked at only if the line has the
evaluation. -/
def writeEvaluation (a : AddressFields) (edit : Json) (line : Text) : Except Misfit Text := do
  let quote ← textField a "quote"
  let path ← textField a "variable_path"
  match Text.find? (Kag.evaluationValue? path quote) line with
  | none => return line
  | some (_, (outer, fromValue, fromQuote), _) =>
    if !outer.isEmpty && outer != quote then
      if ← edit.contains outer then return line
    return line.take (line.length - fromValue.length) ++ (← edit.escape quote) ++ fromQuote

/-- Writes a text on a scenario line in the shape that its address names. -/
def writeTagLine : LineWriter := fun a edit => .ok fun line => do
  match TagLineKind.ofName ((← field a "extract_kind").text?.getD []) with
  | .quotation =>
    let new ← edit.needText
    let ordinal := (← field a "string_index").ordinal?.getD (-1)
    return Kag.rebuild { line := 0, kind := .quotation, ordinal } new line
  | .tagAttribute => writeAttribute a edit line
  | .evalVariable => writeEvaluation a edit line
  | kind => return Kag.rebuild { line := 0, kind } (← edit.needText) line

/-- Writes edited texts back into a KAG scenario, from the last to the first. -/
def reinsertTagLines (source : Text) (mapping : List AddressFields) (edits : List Json) :
    Except Misfit Text := do
  let ls ← mapping.zipIdx.reverse.foldlM
    (fun ls (a, i) => editLine writeTagLine ls a (editAt edits i)) source.lines
  return Text.ofLines ls

end LooseAddress

end GameText
