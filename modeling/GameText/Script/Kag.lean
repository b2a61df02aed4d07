import GameText.Script.KagLine
import GameText.Script.LineEdit
import GameText.Text.Quoted

/-!
# KAG scenarios

A scenario's script blocks hold no text. Macro blocks hold text if asked for; their units are
gathered while the block is open and join the others when it ends. Each mapped line is rebuilt in
the shape that its address names, from the last address to the first, so that an edit cannot shift
the ordinal of a quotation that is still to be replaced.
-/

namespace GameText

namespace Kag

/-- The trimmed line begins a tag or a directive whose name begins with the given name. -/
def beginsBlock (name : Text) (t : Text) : Bool :=
  Text.startsWith ('[' :: name) t || Text.startsWith ('@' :: name) t

/-- Where the lines of a scenario have led: the units so far, and the blocks that are open. -/
structure Reading where
  units : List LineUnit
  pending : List LineUnit
  inScript : Bool
  inMacro : Bool

/-- Goes on with the next line. -/
def Reading.next (macroTexts : Bool) (r : Reading) (number : Nat) (line : Text) : Reading :=
  let t := line.trim
  if beginsBlock "iscript" t then { r with inScript := true }
  else if beginsBlock "endscript" t then { r with inScript := false }
  else if r.inScript then r
  else if beginsBlock "macro" t then { r with inMacro := true }
  else if beginsBlock "endmacro" t then
    { r with inMacro := false, units := r.units ++ r.pending, pending := [] }
  else if r.inMacro && !macroTexts then r
  else if t.isEmpty || t.head? == some ';' || t.head? == some '*' then r
  else if r.inMacro then { r with pending := r.pending ++ lineUnits number line }
  else { r with units := r.units ++ lineUnits number line }

/-- The texts of a scenario with their addresses. -/
def extract (macroTexts : Bool) (source : Text) : List LineUnit :=
  let start : Reading := ⟨[], [], false, false⟩
  let r := (Script.numbered source).foldl
    (fun (r : Reading) (line, number) => r.next macroTexts number line) start
  r.units ++ r.pending

/-! ## Rebuilding lines -/

/-- The mark of a line break inside a line. -/
def breakTag : Text := "[r]"

/-- A quote that can stand around a text: its own quote if the text does not hold it, else the other
one if the text does not hold that. -/
def usableQuote? (text quote : Text) : Option Text :=
  if !Text.occursIn quote text then some quote
  else
    let other? : Option Text :=
      if quote = ['"'] then some ['\''] else if quote = ['\''] then some ['"'] else none
    other?.filter fun other => !Text.occursIn other text

/-- A value up to a closing quote of any length on the same line. -/
def valueUpTo? (quote : Text) : Text → Option (Text × Text)
  | [] => if quote.isEmpty then some ([], []) else none
  | c :: cs =>
    match Text.after? quote (c :: cs) with
    | some rest => some ([], rest)
    | none =>
      if c = '\n' then none else (valueUpTo? quote cs).map fun (text, rest) => (c :: text, rest)

/-- A place before which the text stands in `before` can begin a word that goes on with `next`. -/
def beginsWordAt (before : Option Char) (s : Text) : Bool := atWordEdge before s.head?

/-- Recognises the quoted value of an attribute. -/
def attributeValue? (name quote : Text) : Recognizer PUnit := fun before s =>
  if beginsWordAt before s then do
    let rest ← Text.after? (name ++ '=' :: quote) s
    let (_, rest) ← valueUpTo? quote rest
    return ((), rest)
  else none

/-- The place where an evaluation's value begins: its outer quote if it has one, and the text from
the value on. -/
def evaluationValue? (path quote : Text) : Recognizer (Text × Text × Text) := fun _ s => do
  let expression ← afterEval? s
  let direct := do
    let rest ← Text.after? (path ++ '=' :: quote) expression
    let (_, after) ← valueUpTo? quote rest
    return (([], rest, quote ++ after), after)
  match expression with
  | c :: cs =>
    if c = '"' || c = '\'' then
      (do
        let rest ← Text.after? (path ++ '=' :: quote) cs
        let (_, after) ← valueUpTo? quote rest
        return (([c], rest, quote ++ after), after)) <|> direct
    else direct
  | [] => direct

/-- Rebuilds an attribute's value. Line breaks become blanks; a text that holds both quotes cannot
be written, and leaves the line as it is. -/
def rebuildAttribute (a : TagLineAddress) (text line : Text) : Text :=
  let flat := Text.inlineBreaks [' '] text
  match usableQuote? flat a.quote with
  | none => line
  | some quote =>
    match Text.find? (attributeValue? a.attributeName a.quote) line with
    | none => line
    | some (before, _, after) =>
      before ++ a.attributeName ++ '=' :: quote ++ flat ++ quote ++ after

/-- Rebuilds the value of an evaluation. A text that holds the quote around the whole expression
cannot be written, and leaves the line as it is. -/
def rebuildEvaluation (a : TagLineAddress) (text line : Text) : Text :=
  match Text.find? (evaluationValue? a.variablePath a.quote) line with
  | none => line
  | some (_, (outer, fromValue, fromQuote), _) =>
    if !outer.isEmpty && outer != a.quote && Text.occursIn outer text then line
    else
      line.take (line.length - fromValue.length) ++ Quoted.escape a.quote text ++ fromQuote

/-- Rebuilds a line with an edited text. -/
def rebuild (a : TagLineAddress) (text line : Text) : Text :=
  match a.kind with
  | .quotation =>
    line.mapNthToken quotation? a.ordinal fun _ _ => '「' :: Text.inlineBreaks breakTag text ++ ['」']
  | .tagAttribute => rebuildAttribute a text line
  | .evalVariable => rebuildEvaluation a text line
  | _ =>
    let parts := TagRuns.ofLine line
    parts.lead ++ Text.inlineBreaks breakTag text ++ parts.tail

/-- Writes edited texts back at their addresses, from the last to the first. -/
def reinsert (source : Text) (mapping : List TagLineAddress) (edits : Edits) : Text :=
  Text.ofLines <| mapping.zipIdx.foldr
    (fun (a, i) ls => Script.editLineAt (rebuild a (edits.at i)) a.line ls) source.lines

end Kag

end GameText
