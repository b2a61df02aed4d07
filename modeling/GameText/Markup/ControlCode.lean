import GameText.Text.Word
import GameText.Text.Scan

/-!
# Control codes

The codes of an event text that are no words: a backslash command with a bracketed number or an
angled name, a backslash symbol, an angle tag, and a percent number.
-/

namespace GameText

namespace Markup

/-- Characters up to a closing one that none of the forbidden characters precedes: what stands
before it, and what follows it. -/
def upTo? (close : Char) (forbidden : Char → Bool) : Text → Option (Text × Text)
  | [] => none
  | c :: cs =>
    if c = close then some ([], cs)
    else if forbidden c then none
    else (upTo? close forbidden cs).map fun (inside, rest) => (c :: inside, rest)

/-- Reads a command after its backslash: letters, then a bracketed number or an angled name. -/
def command? (s : Text) : Option Text :=
  let letters := s.takeWhile Char.isAlpha
  if letters.isEmpty then none
  else
    match s.dropWhile Char.isAlpha with
    | '[' :: cs =>
      match cs.dropWhile isDigitChar with
      | ']' :: rest => some rest
      | _ => none
    | '<' :: cs => (upTo? '>' (fun _ => false) cs).map (·.2)
    | _ => none

/-- The symbols that are codes after a backslash. -/
def isCodeSymbol (c : Char) : Bool := "\x7b\x7d$.|!><^".toList.contains c

/-- Recognises a control code. -/
def controlCode? : Recognizer Unit
  | _, '\\' :: cs =>
    match command? cs with
    | some rest => some ((), rest)
    | none =>
      match cs with
      | c :: rest => if isCodeSymbol c then some ((), rest) else none
      | [] => none
  | _, '<' :: c :: cs =>
    if c = '>' then none else (upTo? '>' (fun _ => false) cs).map fun (_, rest) => ((), rest)
  | _, '%' :: cs =>
    if (cs.takeWhile isDigitChar).isEmpty then none else some ((), cs.dropWhile isDigitChar)
  | _, _ => none

end Markup

end GameText
