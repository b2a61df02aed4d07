import GameText.EventData.Reinsert
import GameText.LooseAddress.Basic
import GameText.ScriptCall.LooseEdit

/-!
# Loose addresses of event data

How event data follows a loose address. The container and the command lead to the parameters of a
command, or nowhere: an index leads into an array, a key into an object, and any other value
nowhere. What the address says about the text itself is looked at only when the command is there.
-/

namespace GameText

namespace LooseAddress

open EventData (Shape Progress)

/-! ## The way to a command -/

/-- The parts of a container: the elements of an array or the characters of a text. -/
def containerParts? : Json → Option (List Json)
  | .arr items => some items
  | .str s => some (s.map fun c => .str [c])
  | _ => none

/-- The path of the parameters that a container and a command lead to. Parts of the container after
the second do not matter. -/
def parametersPath? (shape : Shape) (container : List Json) (command : Json) :
    Option Json.Path := do
  let steps ← (container.take 2).mapM Json.asStep?
  EventData.parametersPath? shape steps (← command.asStep?)

/-! ## Script calls -/

/-- The replacements collected for the script call at an index among the parameters of a command,
and its path. -/
structure Call where
  container : List Json
  command : Json
  parameter : Int
  path : Json.Path
  edits : List ScriptCall.LooseEdit

/-- Two script calls are named alike. -/
def Call.isNamedLike (a b : Call) : Bool :=
  Json.sameItems a.container b.container && a.command.same b.command && a.parameter == b.parameter

/-- Adds the replacements for a script call to those that wait for it. -/
def addCall (call : Call) : List Call → List Call
  | [] => [call]
  | other :: rest =>
    if other.isNamedLike call then { call with edits := other.edits ++ call.edits } :: rest
    else other :: addCall call rest

/-- The bounds of a span: the two parts of a value. -/
def span (v : Json) : Except Error (Json × Json) := do
  match ← v.parts.mapError Error.misfit with
  | [start, stop] => return (start, stop)
  | parts => throw (.addressParts parts.length)

/-- The replacements of an embedded value by a text. -/
def replacements (a : AddressFields) (edit : Json) : Except Error (List ScriptCall.LooseEdit) := do
  let value (name : String) : Except Error Json := (field a name).mapError .misfit
  let written ← value "original_match"
  let replacement ← (ScriptCall.renderAny (← value "expression_kind") written (← value "quote")
    edit).mapError Error.misfit
  (← (← value "spans").parts.mapError Error.misfit).mapM fun v => do
    let (start, stop) ← span v
    return ⟨start, stop, written, .str replacement⟩

/-- Collects the replacements of an embedded value that was edited. The name of its script call must
not hold anything that can change. -/
def collect (p : Progress Call) (a : AddressFields) (container : List Json) (command : Json)
    (base : Json.Path) (parameters : List Json) (edit : Json) : Except Error (Progress Call) := do
  if edit.same (← (field a "original_text").mapError Error.misfit) then return p
  match (← (field a "param_index").mapError Error.misfit).integer? with
  | none => return p
  | some i =>
    match (← (EventData.reach parameters.length i).mapError Error.misfit).bind (parameters[·]?) with
    | some (.str _) =>
      if !container.all Json.isKeyPart then throw (.misfit .wrongKind)
      match ← replacements a edit with
      | [] => return p
      | edits =>
        let call : Call := ⟨container, command, i, base ++ [.index i], edits⟩
        return { p with pending := addCall call p.pending }
    | _ => return p

/-- Writes the new values into a script call that waits. -/
def finishCall (p : Progress Call) (call : Call) : Except Misfit (Progress Call) :=
  match p.root.at? call.path with
  | some (.str source) => do
    return p.put call.path (← ScriptCall.LooseEdit.applyAll source call.edits)
  | _ => .ok p

/-! ## Plain texts -/

/-- Writes a plain text into a list among the parameters, at a place of two parts. -/
def writeElement (p : Progress Call) (base : Json.Path) (parameters : List Json)
    (outer inner : Json) (text : Text) : Except Misfit (Progress Call) := do
  if !(← outer.isBelow parameters.length) then return p
  let k ← outer.place parameters.length
  match parameters[k]? with
  | some (.arr items) =>
    if !(← inner.isBelow items.length) then return p
    let _ ← inner.place items.length
    return p.put (base ++ [outer, inner].filterMap Json.asStep?) text
  | _ => return p

/-- Writes a plain text at a place among the parameters: an index, or an array of two parts. Any
other value is no place. -/
def writePlain (p : Progress Call) (base : Json.Path) (parameters : List Json) (place : Json)
    (text : Text) : Except Error (Progress Call) :=
  match place with
  | .arr [outer, inner] => (writeElement p base parameters outer inner text).mapError .misfit
  | .arr parts => .error (.addressParts parts.length)
  | place =>
    match place.integer? with
    | some i => (EventData.writeSingle p base parameters i text).mapError .misfit
    | none => .ok p

/-! ## All texts -/

/-- Writes an edited text at the place that an address names among the parameters of a command. -/
def writeParameter (p : Progress Call) (a : AddressFields) (container : List Json) (command : Json)
    (base : Json.Path) (parameters : List Json) (edit : Json) : Except Error (Progress Call) := do
  let kind ← (field a "extract_kind").mapError Error.misfit
  if kind.text? = some EventTextKind.embedded.name then
    collect p a container command base parameters edit
  else
    let speaker ← (textField a "speaker_prefix").mapError Error.misfit
    let text ← edit.needText.mapError Error.misfit
    writePlain p base parameters (← (field a "param_index").mapError Error.misfit) (speaker ++ text)

/-- Brings one edited text to its place. -/
def writeUnit (shape : Shape) (p : Progress Call) (a : AddressFields) (edit : Json) :
    Except Error (Progress Call) := do
  let container ← (field a "container").mapError Error.misfit
  let command ← (field a "command_index").mapError Error.misfit
  match containerParts? container with
  | none => return p
  | some container =>
    match parametersPath? shape container command with
    | none => return p
    | some base =>
      match p.parameters? base with
      | some parameters => writeParameter p a container command base parameters edit
      | none => return p

/-- Writes edited texts back into event data. -/
def reinsertEvents (source : Text) (mapping : List AddressFields) (edits : List Json) :
    Except Error Text := do
  let (shape, document) ← (EventData.read source).mapError Error.source
  let collected ← mapping.zipIdx.foldlM (fun p (a, i) => writeUnit shape p a (editAt edits i))
    { root := document.value }
  let finished ← (collected.pending.foldlM finishCall collected).mapError Error.misfit
  return finished.written source document

end LooseAddress

end GameText
