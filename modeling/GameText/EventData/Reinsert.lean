import GameText.EventData.Extract

/-!
# Writing texts back into event data

Each edited text goes to the place that its address names; an address that leads nowhere is passed
over. Values embedded in a script call replace their spans after all other texts are in place. In
the source only the string tokens of changed values are written anew, so every other character
stays.
-/

namespace GameText

namespace EventData

/-- The state of a reinsertion: the value with the texts so far, the strings that changed by their
paths, and the script calls that still wait. -/
structure Progress (Call : Type) where
  root : Json
  changed : List (Json.Path × Text) := []
  pending : List Call := []

variable {Call : Type}

/-- An index below a length. One that is negative beyond the length names nothing. -/
def reach (length : Nat) (i : Int) : Except Misfit (Option Nat) :=
  if (length : Int) ≤ i then .ok none
  else
    match index? length i with
    | some k => .ok (some k)
    | none => .error .outside

/-- The value is the given string. -/
def isString (v : Option Json) (s : Text) : Bool := (v.bind Json.text?) == some s

/-- The parameters at a path. -/
def Progress.parameters? (p : Progress Call) (path : Json.Path) : Option (List Json) :=
  match p.root.at? path with
  | some (.arr parameters) => some parameters
  | _ => none

/-- Puts a text at a path, and records it as changed if another value stood there. -/
def Progress.put (p : Progress Call) (path : Json.Path) (text : Text) : Progress Call :=
  if isString (p.root.at? path) text then p
  else
    { p with
      root := p.root.modifyAt (fun _ => .str text) path
      changed := assign path text p.changed }

/-- The strings that changed, as changes of a document. -/
def Progress.changes (p : Progress Call) : Json.Changes := fun path =>
  (lookup? path p.changed).map .str

/-- The source with the strings that changed; the source itself if there are none. -/
def Progress.written (p : Progress Call) (source : Text) (document : Json.Document) : Text :=
  if p.changed.isEmpty then source else (document.splice p.changes).text

/-- Writes a plain text at an index of the parameters. -/
def writeSingle (p : Progress Call) (base : Json.Path) (parameters : List Json) (i : Int)
    (text : Text) : Except Misfit (Progress Call) := do
  match ← reach parameters.length i with
  | some _ => return p.put (base ++ [.index i]) text
  | none => return p

/-- Writes a plain text into a list among the parameters. -/
def writeElement (p : Progress Call) (base : Json.Path) (parameters : List Json)
    (outer inner : Int) (text : Text) : Except Misfit (Progress Call) := do
  match (← reach parameters.length outer).bind (parameters[·]?) with
  | some (.arr items) =>
    match ← reach items.length inner with
    | some _ => return p.put (base ++ [.index outer, .index inner]) text
    | none => return p
  | _ => return p

/-- Writes a plain text at a place among the parameters. -/
def writePlain (p : Progress Call) (base : Json.Path) (parameters : List Json)
    (place : ParameterPlace) (text : Text) : Except Misfit (Progress Call) :=
  match place with
  | .single i => writeSingle p base parameters i text
  | .element outer inner => writeElement p base parameters outer inner text

/-! ## Script calls -/

/-- The script call at an index among the parameters of a command. -/
structure CallSite where
  container : List Json.Step
  command : Int
  parameter : Int
deriving DecidableEq

/-- The replacements collected for one script call, and the path of its parameters. -/
structure PendingCall where
  site : CallSite
  parameters : Json.Path
  edits : List ScriptCall.Edit

/-- Adds replacements to those that wait for a script call. -/
def addPending (site : CallSite) (parameters : Json.Path) (edits : List ScriptCall.Edit) :
    List PendingCall → List PendingCall
  | [] => [⟨site, parameters, edits⟩]
  | call :: rest =>
    if call.site = site then ⟨site, parameters, call.edits ++ edits⟩ :: rest
    else call :: addPending site parameters edits rest

/-- The replacements of an embedded value by a text. -/
def replacements (a : EventAddress) (text : Text) : List ScriptCall.Edit :=
  let replacement := ScriptCall.render a.expression a.written a.quote text
  a.spans.map fun (start, stop) => ⟨start, stop, a.written, replacement⟩

/-- Collects the replacements of an embedded value that was edited. -/
def collect (p : Progress PendingCall) (a : EventAddress) (base : Json.Path)
    (parameters : List Json) (text : Text) : Except Misfit (Progress PendingCall) := do
  match a.parameter with
  | .element _ _ => return p
  | .single i =>
    if text = a.value then return p
    match (← reach parameters.length i).bind (parameters[·]?) with
    | some (.str _) =>
      match replacements a text with
      | [] => return p
      | edits =>
        return { p with pending := addPending ⟨a.container, a.command, i⟩ base edits p.pending }
    | _ => return p

/-- Writes the new values into a script call that waits. -/
def finishCall (p : Progress PendingCall) (call : PendingCall) : Progress PendingCall :=
  let path := call.parameters ++ [.index call.site.parameter]
  match p.root.at? path with
  | some (.str source) => p.put path (ScriptCall.applyEdits source call.edits)
  | _ => p

/-! ## All texts -/

/-- Brings one edited text to its place. -/
def writeUnit (shape : Shape) (p : Progress PendingCall) (a : EventAddress) (text : Text) :
    Except Misfit (Progress PendingCall) :=
  match parametersPath? shape a.container (.index a.command) with
  | none => .ok p
  | some base =>
    match p.parameters? base with
    | some parameters =>
      if a.kind = .embedded then collect p a base parameters text
      else writePlain p base parameters a.parameter (a.speaker ++ text)
    | none => .ok p

/-- Writes edited texts back at their addresses. -/
def reinsert (source : Text) (mapping : List EventAddress) (edits : Edits) : Except Error Text := do
  let (shape, document) ← (read source).mapError Error.source
  let collected ← (mapping.zipIdx.foldlM (fun p (a, i) => writeUnit shape p a (edits.at i))
    { root := document.value }).mapError Error.misfit
  return (collected.pending.foldl finishCall collected).written source document

end EventData

end GameText
