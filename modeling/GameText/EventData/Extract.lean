import GameText.EventData.Shape
import GameText.Classify.Dialogue
import GameText.Classify.Choice

/-!
# Taking the texts out of event data

The code of a command tells which parameter holds text and of what sort: a line of dialogue, a
label, a list of choices, or a script call. The texts come in the order of the commands.
-/

namespace GameText

namespace EventData

/-- What a text parameter holds. -/
inductive Location where
  | dialogue
  | label
  | choices
  | script
deriving DecidableEq, Repr

/-- The parameter of a command that holds text, by the command's code. -/
def location? (code : Int) : Option (Nat × Location) :=
  if code = 401 ∨ code = 405 then some (0, .dialogue)
  else if code = 102 then some (0, .choices)
  else if code = 402 then some (1, .label)
  else if code = 118 ∨ code = 119 then some (0, .label)
  else if code = 320 ∨ code = 324 ∨ code = 325 then some (1, .label)
  else if code = 355 ∨ code = 655 ∨ code = 356 then some (0, .script)
  else none

/-- The text parameter of a command, by a code that may be missing or of any kind. -/
def locationOf (command : Json) : Except Misfit (Option (Nat × Location)) :=
  match command.get? "code" with
  | some (.num n) => .ok (n.toInt?.bind location?)
  | some (.arr _) => .error .wrongKind
  | some (.obj _) => .error .wrongKind
  | _ => .ok none

/-- A parameter of a command. A string stands for its characters, and an object with more entries
than the index has no such key. -/
def parameter (command : Json) (i : Nat) : Except Misfit (Option Json) :=
  match command.get? "parameters" with
  | some (.arr items) => .ok items[i]?
  | some (.str s) => .ok ((s[i]?).map fun c => .str [c])
  | some (.obj members) => if members.length ≤ i then .ok none else .error .noSuchKey
  | some (.num n) => if n.isZero then .ok none else .error .wrongKind
  | some (.bool true) => .error .wrongKind
  | _ => .ok none

/-- A text with its address. -/
abbrev EventUnit := Text × EventAddress

/-- The text of a line of dialogue, without its speaker's name. -/
def dialogueUnit (address : EventAddress) (s : Text) : List EventUnit :=
  if Classify.isDialogue s then
    let (speaker, body) := Classify.splitSpeaker s
    [(body, { address with speaker })]
  else []

/-- The texts of a list of choices. -/
def choiceUnits (address : EventAddress) (i : Nat) (choices : List Json) : List EventUnit :=
  choices.zipIdx.filterMap fun (choice, k) =>
    match choice with
    | .str s =>
      if Classify.isChoice s then some (s, { address with parameter := .element i k }) else none
    | _ => none

/-- The address of a value of a script call. -/
def embeddedAddress (address : EventAddress) (u : ScriptCall.CallUnit) : EventAddress :=
  { address with
    kind := .embedded, value := u.text, written := u.written, expression := u.kind
    quote := [u.quote], spans := u.spans.map fun span => (span.start, span.stop) }

/-- The texts of a parameter. -/
def parameterUnits (scripts : Bool) (address : EventAddress) (i : Nat) (location : Location)
    (value : Json) : List EventUnit :=
  match location, value with
  | .dialogue, .str s => dialogueUnit address s
  | .label, .str s => if Classify.isChoice s then [(s, address)] else []
  | .choices, .arr choices => choiceUnits address i choices
  | .script, .str s =>
    if scripts then (ScriptCall.units s).map fun u => (u.text, embeddedAddress address u) else []
  | _, _ => []

/-- The texts of a command. -/
def commandUnits (scripts : Bool) (container : List Json.Step) (index : Nat) (command : Json) :
    Except Misfit (List EventUnit) := do
  match ← locationOf command with
  | none => return []
  | some (i, location) =>
    match ← parameter command i with
    | none => return []
    | some value =>
      return parameterUnits scripts { container, command := index, parameter := .single i } i
        location value

/-- The texts of event data with their addresses; `scripts` includes those of script calls. -/
def extract (scripts : Bool) (source : Text) : Except Error (List EventUnit) := do
  let (shape, document) ← (read source).mapError Error.source
  let lists ← (commandLists shape document.value).mapM fun list => do
    let (container, commands) ← list.mapError Error.misfit
    let units ← commands.zipIdx.mapM fun (command, index) =>
      (commandUnits scripts container index command).mapError Error.misfit
    return units.flatten
  return lists.flatten

end EventData

end GameText
