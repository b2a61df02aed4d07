import GameText.Json.Loose
import GameText.ScriptCall.Edit

/-!
# Edits of a script call with values of any kind

An address from a file may give the bounds of a span, the text that the span is to hold, and the
parts of its written form as values of any kind. A bound that is null leaves its side open. Other
values that cannot be used are refused, but only where they are used.
-/

namespace GameText

namespace ScriptCall

/-- The written form of a new value for a unit whose kind, former written form and quote are values
of any kind. What the kind does not need is not looked at. -/
def renderLoose (kind written quote new : Json) : Except Misfit Text := do
  match Kind.ofName (kind.text?.getD []) with
  | .pluginArgument => return new.compact
  | .template => return '`' :: (← new.escape ['`']) ++ ['`']
  | kind =>
    let inside ← new.escape (quote.text?.getD [])
    let literal := (← quote.needText) ++ inside ++ (← quote.needText)
    if kind = .keyValue then return keyHead (← written.needText) ++ literal else return literal

/-- The written form of a new value, whatever the kinds of the four values are. -/
def renderAny (kind written quote new : Json) : Except Misfit Text :=
  match kind, written, quote, new with
  | .str kind, .str written, .str quote, .str new => .ok (render (.ofName kind) written quote new)
  | _, _, _, _ => renderLoose kind written quote new

/-- A replacement of a span by a text, where bounds, expected text and replacement are values of
any kind. -/
structure LooseEdit where
  start : Json
  stop : Json
  expected : Json
  replacement : Json

namespace LooseEdit

/-- An offset, or none for an open side. -/
def bound : Json → Except Misfit (Option Int)
  | .null => .ok none
  | v =>
    match v.integer? with
    | some i => .ok (some i)
    | none => .error .wrongKind

/-- Part of a text can be shown in its place: only texts and arrays can be cut. -/
def canBeCut : Json → Bool
  | .str _ => true
  | .arr _ => true
  | _ => false

/-- Applies an edit to a text, or leaves the text alone if the span holds something else than
expected. The text before an open start and the text after an open stop is the whole text. -/
def apply (source : Text) (e : LooseEdit) : Except Misfit Text := do
  let start ← bound e.start
  let stop ← bound e.stop
  let held := source.slice (start.getD 0) (stop.getD source.length)
  if e.expected.text? = some held then
    return ((start.map source.upTo).getD source) ++ (← e.replacement.needText) ++
      ((stop.map source.since).getD source)
  else if canBeCut e.expected then return source
  else throw .wrongKind

/-- The edits with their starts, from right to left. Several edits can only be put in order by
integer starts. -/
def ordered : List LooseEdit → Except Misfit (List LooseEdit)
  | [] => .ok []
  | [e] => .ok [e]
  | edits => do
    let placed ← edits.mapM fun e =>
      match e.start.integer? with
      | some start => .ok (start, e)
      | none => .error .wrongKind
    return (placed.mergeSort fun a b => b.1 ≤ a.1).map (·.2)

/-- The edit, if its values are of the right kinds. -/
def edit? : LooseEdit → Option Edit
  | ⟨.num (.int start), .num (.int stop), .str expected, .str replacement⟩ =>
    some ⟨start, stop, expected, replacement⟩
  | _ => none

/-- Applies edits from right to left. -/
def applyAll (source : Text) (edits : List LooseEdit) : Except Misfit Text :=
  match edits.mapM edit? with
  | some edits => .ok (applyEdits source edits)
  | none => do (← ordered edits).foldlM apply source

end LooseEdit

end ScriptCall

end GameText
