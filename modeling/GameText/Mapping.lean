import GameText.Error
import GameText.Format
import GameText.ScriptCall.Edit

/-!
# Addresses of text units

A document's text units are an ordered list of texts with one address each, by which an edited text
finds its way back. Each format has its own kind of address. An address is kept in files as an
object with fixed fields; fields with a default may be missing there.
-/

namespace GameText

/-- An edited text for each unit, in order. A missing edit counts as empty. -/
abbrev Edits := List (Option Text)

/-- The edited text of the unit with an ordinal. -/
def Edits.at (edits : Edits) (i : Nat) : Text := (edits[i]?.join).getD []

/-- The edited texts as values; a missing edit is null. -/
def Edits.toValues (edits : Edits) : List Json := edits.map fun edit => (edit.map .str).getD .null

/-- Where a text stands among the parameters of an event command. -/
inductive ParameterPlace where
  /-- A parameter. -/
  | single (i : Int)
  /-- An element of a parameter that is a list. -/
  | element (outer inner : Int)
deriving DecidableEq, Repr

/-- How a text was taken from an event command. -/
inductive EventTextKind where
  | plain
  | embedded
  /-- A kind by a name that no extraction gives; it counts as plain. -/
  | other (name : Text)
deriving DecidableEq, Repr

namespace EventTextKind

/-- The name of a kind. -/
def name : EventTextKind → Text
  | .plain => "plain"
  | .embedded => "script-embedded"
  | .other name => name

/-- The kind with a name. -/
def ofName (name : Text) : EventTextKind :=
  if name = "plain".toList then .plain
  else if name = "script-embedded".toList then .embedded
  else .other name

end EventTextKind

/-- The address of a text inside a tree of event commands: the event (and its page), the command,
and the parameter. A text embedded in a script call has its value at extraction, its written form,
its kind and quote, and the spans that hold it. -/
structure EventAddress where
  container : List Json.Step
  command : Int
  parameter : ParameterPlace
  kind : EventTextKind := .plain
  value : Text := []
  written : Text := []
  expression : ScriptCall.Kind := .other []
  quote : Text := []
  spans : List (Int × Int) := []
  speaker : Text := []

/-- The address of a quoted literal: its line, its ordinal on the line, and its quote. -/
structure LiteralAddress where
  line : Int
  ordinal : Int
  quote : Text := ['"']
deriving DecidableEq, Repr

/-- The address of the prose of a line: the line, and the tag runs around the prose. -/
structure ProseAddress where
  line : Int
  lead : Text := []
  tail : Text := []
deriving DecidableEq, Repr

/-- The shape of a scenario line from which a text was taken. -/
inductive TagLineKind where
  | evalVariable
  | tagAttribute
  | embText
  | cnameDialogue
  | quotation
  | bareLine
  /-- A kind by a name that no extraction gives; it is rebuilt like a bare line. -/
  | other (name : Text)
deriving DecidableEq, Repr

namespace TagLineKind

/-- The name of a kind. -/
def name : TagLineKind → Text
  | .evalVariable => "eval-variable"
  | .tagAttribute => "tag-attribute"
  | .embText => "emb-text"
  | .cnameDialogue => "cname-dialogue"
  | .quotation => "quotation"
  | .bareLine => "bare-line"
  | .other name => name

/-- The kind with a name. -/
def ofName (name : Text) : TagLineKind :=
  if name = "eval-variable".toList then .evalVariable
  else if name = "tag-attribute".toList then .tagAttribute
  else if name = "emb-text".toList then .embText
  else if name = "cname-dialogue".toList then .cnameDialogue
  else if name = "quotation".toList then .quotation
  else if name = "bare-line".toList then .bareLine
  else .other name

end TagLineKind

/-- The address of a text on a scenario line: the line, its shape, the ordinal among the quotations
of the line, and the quote with the attribute or variable that holds the text. -/
structure TagLineAddress where
  line : Int
  kind : TagLineKind
  ordinal : Int := 0
  quote : Text := ['"']
  attributeName : Text := []
  variablePath : Text := []
deriving DecidableEq, Repr

/-- The fields of an address, with values that may be of any kind. -/
abbrev AddressFields := List (Text × Json)

/-- An address of any format. -/
inductive Address where
  | event (a : EventAddress)
  | literal (a : LiteralAddress)
  | prose (a : ProseAddress)
  | tagLine (a : TagLineAddress)
  /-- An address with values of other kinds than extraction gives. -/
  | loose (fields : AddressFields)

namespace Address

/-! ## Written form -/

/-- A step of a container as a value. -/
def stepToJson : Json.Step → Json
  | .index i => .int i
  | .key k => .str k

/-- A place among parameters as a value. -/
def placeToJson : ParameterPlace → Json
  | .single i => .int i
  | .element outer inner => .arr [.int outer, .int inner]

/-- The fields of an address. -/
def fields : Address → AddressFields
  | .event a =>
    [("container", .arr (a.container.map stepToJson)), ("command_index", .int a.command),
     ("param_index", placeToJson a.parameter), ("extract_kind", .str a.kind.name),
     ("original_text", .str a.value), ("original_match", .str a.written),
     ("expression_kind", .str a.expression.name), ("quote", .str a.quote),
     ("spans", .arr (a.spans.map fun (x, y) => .arr [.int x, .int y])),
     ("speaker_prefix", .str a.speaker)].map fun (k, v) => (k.toList, v)
  | .literal a =>
    [("line_index", .int a.line), ("string_index", .int a.ordinal), ("quote", .str a.quote)].map
      fun (k, v) => (k.toList, v)
  | .prose a =>
    [("line_index", .int a.line), ("prefix", .str a.lead), ("suffix", .str a.tail)].map
      fun (k, v) => (k.toList, v)
  | .tagLine a =>
    [("line_index", .int a.line), ("extract_kind", .str a.kind.name),
     ("string_index", .int a.ordinal), ("quote", .str a.quote), ("attribute", .str a.attributeName),
     ("variable_path", .str a.variablePath)].map fun (k, v) => (k.toList, v)
  | .loose fields => fields

/-- An address as a value. -/
def toJson (a : Address) : Json := .obj a.fields

/-- The address, if it is one of event data. -/
def event? : Address → Option EventAddress
  | .event a => some a
  | _ => none

/-- The address, if it is one of a quoted literal. -/
def literal? : Address → Option LiteralAddress
  | .literal a => some a
  | _ => none

/-- The address, if it is one of prose. -/
def prose? : Address → Option ProseAddress
  | .prose a => some a
  | _ => none

/-- The address, if it is one on a scenario line. -/
def tagLine? : Address → Option TagLineAddress
  | .tagLine a => some a
  | _ => none

/-! ## Reading -/

/-- The field names of a format's addresses, in order, with the defaults of those that may be
missing. -/
def schema? : Format → Option (List (Text × Option Json))
  | .eventData => some
    [("container", none), ("command_index", none), ("param_index", none),
     ("extract_kind", some (.str "plain")), ("original_text", some (.str [])),
     ("original_match", some (.str [])), ("expression_kind", some (.str [])),
     ("quote", some (.str [])), ("spans", some (.arr [])), ("speaker_prefix", some (.str []))]
  | .renpy => some [("line_index", none), ("string_index", none), ("quote", some (.str ['"']))]
  | .tyrano => some [("line_index", none), ("prefix", some (.str [])), ("suffix", some (.str []))]
  | .kag => some
    [("line_index", none), ("extract_kind", none), ("string_index", some (.int 0)),
     ("quote", some (.str ['"'])), ("attribute", some (.str [])),
     ("variable_path", some (.str []))]
  | .other _ => none

/-- The given fields in the order of a schema, with defaults for missing ones. -/
def complete? (schema : List (Text × Option Json)) (given : List (Text × Json)) :
    Option AddressFields :=
  schema.mapM fun (name, fallback) =>
    match lookup? name given with
    | some v => some (name, v)
    | none => fallback.map (name, ·)

/-- An integer value. -/
def int? : Json → Option Int
  | .num (.int n) => some n
  | _ => none

/-- A step of a container. -/
def stepOfJson? : Json → Option Json.Step
  | .num (.int n) => some (.index n)
  | .str s => some (.key s)
  | _ => none

/-- A list of values. -/
def list? : Json → Option (List Json)
  | .arr items => some items
  | _ => none

/-- A pair of integers. -/
def span? : Json → Option (Int × Int)
  | .arr [.num (.int a), .num (.int b)] => some (a, b)
  | _ => none

/-- A place among parameters. -/
def placeOfJson? : Json → Option ParameterPlace
  | .num (.int i) => some (.single i)
  | .arr [.num (.int outer), .num (.int inner)] => some (.element outer inner)
  | _ => none

/-- The address that complete fields make up, if their values are of the right kinds. -/
def ofFields? (format : Format) (fields : AddressFields) : Option Address :=
  match format, fields.map (·.2) with
  | .eventData, [container, command, parameter, kind, value, written, expression, quote, spans,
      speaker] => do
    let container ← (← list? container).mapM stepOfJson?
    let spans ← (← list? spans).mapM span?
    return .event
      { container, command := ← int? command, parameter := ← placeOfJson? parameter
        kind := .ofName (← kind.text?), value := ← value.text?
        written := ← written.text?, expression := .ofName (← expression.text?)
        quote := ← quote.text?, spans, speaker := ← speaker.text? }
  | .renpy, [line, ordinal, quote] => do
    return .literal
      { line := ← int? line, ordinal := ← int? ordinal, quote := ← quote.text? }
  | .tyrano, [line, lead, tail] => do
    return .prose { line := ← int? line, lead := ← lead.text?, tail := ← tail.text? }
  | .kag, [line, kind, ordinal, quote, name, path] => do
    return .tagLine
      { line := ← int? line, kind := .ofName (← kind.text?), ordinal := ← int? ordinal
        quote := ← quote.text?, attributeName := ← name.text?, variablePath := ← path.text? }
  | _, _ => none

/-- The address of a format that an object holds. A field without default must be there; with
`strict` no other field may be. -/
def ofMembers (format : Format) (strict : Bool) (given : List (Text × Json)) :
    Except Misfit Address :=
  match schema? format with
  | none => .error .wrongKind
  | some schema =>
    if strict && given.any fun (name, _) => !schema.any (·.1 == name) then .error .wrongKind
    else
      match complete? schema given with
      | none => .error .wrongKind
      | some fields => .ok ((ofFields? format fields).getD (.loose fields))

/-- The address of a format that a value holds. -/
def ofJson (format : Format) (strict : Bool) : Json → Except Misfit Address
  | .obj members => ofMembers format strict members
  | _ => .error (if strict then .wrongKind else .noSuchPart)

end Address

end GameText
