import GameText.Text.Blank
import GameText.Text.Case
import GameText.Text.Script
import GameText.Markup.ControlCode
import GameText.Text.Keyword

/-!
# Shapes of strings that are no text

Tests on a trimmed string by which the classifiers know numbers, markup, escape codes, punctuation
and names of resources or program values.
-/

namespace GameText

namespace Classify

/-- Nothing, or decimal digits only. -/
def isBlankOrNumeric (t : Text) : Bool := t.isEmpty || t.all isDigitChar

/-- What follows an angle tag that names an element, with attributes or without. -/
def afterElement? (t : Text) : Option Text :=
  match t with
  | '<' :: cs =>
    let named := match cs with
      | '/' :: ds => ds
      | ds => ds
    let rest := named.dropWhile isWordChar
    if (named.takeWhile isWordChar).isEmpty then none
    else
      match rest with
      | '>' :: after => some after
      | c :: _ => if isBlank c then (Markup.upTo? '>' (fun _ => false) rest).map (·.2) else none
      | [] => none
  | _ => none

/-- What follows a line-break tag. -/
def afterBreak? (t : Text) : Option Text :=
  (Text.afterFolded? "<br" t).bind fun cs =>
    match Text.trimStart cs with
    | '/' :: '>' :: rest => some rest
    | '>' :: rest => some rest
    | _ => none

/-- One or more line-break tags and nothing else, tried for at most `fuel` tags. -/
def breaksOnly : Nat → Text → Bool
  | 0, _ => false
  | fuel + 1, t =>
    match afterBreak? t with
    | some [] => true
    | some rest => breaksOnly fuel rest
    | none => false

/-- One angle tag and nothing else. -/
def isAngleTag (t : Text) : Bool :=
  match t with
  | '<' :: c :: cs => c != '>' && (Markup.upTo? '>' (fun _ => false) cs matches some (_, []))
  | _ => false

/-- Nothing but tags. -/
def isMarkupOnly (t : Text) : Bool :=
  (afterElement? t).any Text.allBlank || breaksOnly t.length t || isAngleTag t

/-- A letter for a backslash command, case disregarded. -/
def isCommandLetter (c : Char) : Bool := (foldChar c).isAlpha

/-- A backslash, letters, and a bracketed argument on one line or nothing: also the colouring codes
that enclose a text, which begin and end the same way. -/
def isEscapeCode (t : Text) : Bool :=
  match t with
  | '\\' :: cs =>
    let rest := cs.dropWhile isCommandLetter
    !(cs.takeWhile isCommandLetter).isEmpty &&
      (rest.isEmpty ||
        (rest.head? == some '[' && 2 ≤ rest.length && rest.getLast? == some ']' &&
          !rest.contains '\n'))
  | _ => false

/-- A mark that makes no text by itself. -/
def isMark (c : Char) : Bool :=
  ".…,!?;:-_=+*#@$%^&()[]\x7b\x7d|/\\<>~`'\"".toList.contains c

/-- Nothing but marks. -/
def isPunctuationOnly (t : Text) : Bool := !t.isEmpty && t.all isMark

/-- No letter of real text. -/
def hasNoLetter (t : Text) : Bool := !t.any isProseLetter

end Classify

end GameText
