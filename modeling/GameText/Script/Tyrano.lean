import GameText.Script.LineEdit
import GameText.Text.TagRuns
import GameText.Text.Script

/-!
# TyranoScript scenarios

A text line is prose between runs of tags. The prose is the text unit; the runs are kept in its
address and put around the edited prose again. Labels, comments, directives, tags alone and code
are no text lines.
-/

namespace GameText

namespace Tyrano

/-- One tag with something inside and nothing else. -/
def isTagOnly (t : Text) : Bool :=
  match t with
  | '[' :: cs => (Tag.close? cs matches some (_ :: _, []))
  | _ => false

/-- What stands before the end of the first line of a text. -/
def restOfLine (t : Text) : Text := t.takeWhile (· != '\n')

/-- A condition in parentheses. -/
def isCondition (t : Text) : Bool :=
  match Text.after? "if" t with
  | some rest =>
    match rest.trimStart with
    | '(' :: inside => ((restOfLine inside).drop 1).contains ')'
    | _ => false
  | none => false

/-- A word and something in parentheses, and nothing else, all on one line. -/
def isCall (t : Text) : Bool :=
  match t.dropWhile isWordChar with
  | '(' :: inside =>
    !(t.takeWhile isWordChar).isEmpty && 2 ≤ inside.length && inside.getLast? == some ')' &&
      !inside.contains '\n'
  | _ => false

/-- An identifier and an equals sign. -/
def isAssignment (t : Text) : Bool :=
  t.head?.any isNameStart && (Text.trimStart (t.dropWhile isWordChar)).head? == some '='

/-- Braces around a line. -/
def isBlock (t : Text) : Bool :=
  2 ≤ t.length && t.head? == some '\x7b' && t.getLast? == some '\x7d' && !t.contains '\n'

/-- A number sign and the name of a character. -/
def isSpeakerLine (t : Text) : Bool :=
  match t with
  | '#' :: c :: _ => isNameChar c
  | _ => false

/-- The word `function` and an opening parenthesis. -/
def function? : Recognizer PUnit := fun _ s =>
  match Text.after? "function" s with
  | some rest => if rest.trimStart.head? == some '(' then some ((), rest) else none
  | none => none

/-- A character of program text. -/
def isCodeChar (c : Char) : Bool := "\x7b\x7d();=".toList.contains c

/-- A word, a point, a word and an opening parenthesis. -/
def isMethodCall (t : Text) : Bool :=
  match t.dropWhile isWordChar with
  | '.' :: rest =>
    !(t.takeWhile isWordChar).isEmpty && !(rest.takeWhile isWordChar).isEmpty &&
      (rest.dropWhile isWordChar).head? == some '('
  | _ => false

/-- The line is a text line. Characters of program text count only outside tags. -/
def isTextLine (line : Text) : Bool :=
  let t := line.trim
  match t with
  | [] => false
  | c :: _ =>
    if c = '*' || c = ';' || c = '@' then false
    else if isTagOnly t || isCondition t || isCall t || isAssignment t || isBlock t then false
    else if Text.startsWith "[eval" t || Text.startsWith "eval" t then false
    else if isSpeakerLine t then false
    else
      let prose := t.without Tag.tag?
      !Text.finds function? prose && !prose.any isCodeChar && !isMethodCall prose.trim

/-- The text of a line with its address. -/
def lineUnit? (line : Text) (number : Nat) : Option (Text × ProseAddress) :=
  let parts := TagRuns.ofLine line
  if isTextLine line && parts.center.any isProseLetter then
    some (parts.center, { line := number, lead := parts.lead, tail := parts.tail })
  else none

/-- The texts of a scenario with their addresses. -/
def extract (source : Text) : List (Text × ProseAddress) :=
  (Script.numbered source).filterMap fun (line, number) => lineUnit? line number

/-- The mark of a line break inside a line. -/
def breakTag : Text := "[r]"

/-- The line that an edited text makes with the runs of its address. -/
def rebuild (a : ProseAddress) (text : Text) : Text :=
  a.lead ++ Text.inlineBreaks breakTag text ++ a.tail

/-- Writes edited texts back at their addresses, in order. -/
def reinsert (source : Text) (mapping : List ProseAddress) (edits : Edits) : Text :=
  Text.ofLines <| mapping.zipIdx.foldl
    (fun ls (a, i) => Script.editLineAt (fun _ => rebuild a (edits.at i)) a.line ls) source.lines

end Tyrano

end GameText
