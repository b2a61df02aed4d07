import GameText.ScriptCall.Unit

/-!
# Writing new values into a script call

A new value is written in the form that its unit has in the call, and replaces the unit's spans by
offset. Edits are applied from right to left, so the offsets of those to come stay true; an edit
whose span does not hold what it is to replace is passed over.
-/

namespace GameText

namespace ScriptCall

/-- The key at the head of a written key and value, with its colon and the blanks around it. -/
def keyHead (written : Text) : Text :=
  let word := written.takeWhile isWordChar
  let afterWord := written.dropWhile isWordChar
  let blanksBefore := afterWord.takeWhile isBlank
  match afterWord.dropWhile isBlank with
  | ':' :: rest =>
    if word.head?.any isNameStart then word ++ blanksBefore ++ ':' :: rest.takeWhile isBlank else []
  | _ => []

/-- The written form of a text for a unit with the given kind, former written form and quote. -/
def render (kind : Kind) (written quote text : Text) : Text :=
  match kind with
  | .pluginArgument => Json.quote text
  | .template => '`' :: Quoted.escape ['`'] text ++ ['`']
  | .keyValue => keyHead written ++ quote ++ Quoted.escape quote text ++ quote
  | _ => quote ++ Quoted.escape quote text ++ quote

/-- A replacement of a span that is to hold the text `expected`. Offsets may be negative or too
large. -/
structure Edit where
  start : Int
  stop : Int
  expected : Text
  replacement : Text
deriving DecidableEq, Repr

/-- Applies one edit to a text, or leaves the text alone if the span holds something else. -/
def Edit.apply (source : Text) (e : Edit) : Text :=
  if source.slice e.start e.stop = e.expected then
    source.upTo e.start ++ e.replacement ++ source.since e.stop
  else source

/-- Applies edits from right to left. -/
def applyEdits (source : Text) (edits : List Edit) : Text :=
  (edits.mergeSort fun a b => b.start ≤ a.start).foldl Edit.apply source

end ScriptCall

end GameText
