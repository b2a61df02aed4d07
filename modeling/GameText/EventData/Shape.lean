import GameText.Mapping

/-!
# Shapes of event data

Event data is either a row of events, each with a command list of its own or with pages that have
one, or a map whose events have pages. A command is an object with a code and parameters.
-/

namespace GameText

namespace EventData

/-- The shape of a JSON value. -/
inductive Shape where
  | events
  | map
deriving DecidableEq, Repr

/-- The shape of a value, if it is event data. -/
def shape? : Json → Option Shape
  | .arr _ => some .events
  | .obj members =>
    match lookup? "events".toList members with
    | some (.arr _) => some .map
    | some (.obj _) => some .map
    | _ => none
  | _ => none

/-- Reads event data: its shape and the tree that keeps every character. -/
def read (source : Text) : Except SourceError (Shape × Json.Document) :=
  match Json.Document.read source with
  | .error refusal => .error (.notJson refusal source)
  | .ok document =>
    match shape? document.value with
    | some shape => .ok (shape, document)
    | none => .error .unknownShape

/-- The commands of an object that has a list of them. -/
def commands? (v : Json) : Option (List Json) :=
  match v.get? "list" with
  | some (.arr commands) => some commands
  | _ => none

/-- A command list with the steps that lead to its event and page, or the misfit that stands in its
place. -/
abbrev CommandList := Except Misfit (List Json.Step × List Json)

/-- The command lists of an event's pages. Pages that count as absent are none, and neither keys
nor characters are pages. -/
def pageLists (event : Json.Step) (v : Json) : List CommandList :=
  match v.get? "pages" with
  | some (.arr pages) =>
    pages.zipIdx.filterMap fun (page, i) =>
      (commands? page).map fun commands => .ok ([event, .index i], commands)
  | some (.num n) => if n.isZero then [] else [.error .wrongKind]
  | some (.bool true) => [.error .wrongKind]
  | _ => []

/-- The command lists of data of a shape, in order. -/
def commandLists (shape : Shape) (root : Json) : List CommandList :=
  match shape, root with
  | .events, .arr items =>
    items.zipIdx.flatMap fun (item, i) =>
      ((commands? item).map fun commands => .ok ([.index i], commands)).toList ++
        pageLists (.index i) item
  | .map, root =>
    match root.get? "events" with
    | some (.arr events) => events.zipIdx.flatMap fun (event, i) => pageLists (.index i) event
    | some (.obj events) => events.flatMap fun (name, event) => pageLists (.key name) event
    | _ => []
  | _, _ => []

/-- The path of the parameters of an addressed command, if the address fits the shape. -/
def parametersPath? (shape : Shape) (container : List Json.Step) (command : Json.Step) :
    Option Json.Path :=
  match shape, container with
  | .events, [event] => some [event, .key "list", command, .key "parameters"]
  | .events, event :: page :: _ =>
    some [event, .key "pages", page, .key "list", command, .key "parameters"]
  | .map, event :: page :: _ =>
    some [.key "events", event, .key "pages", page, .key "list", command, .key "parameters"]
  | _, _ => none

end EventData

end GameText
