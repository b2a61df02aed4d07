import GameText.Text.Scan

/-!
# Lines with their own terminators

A text is cut into lines that keep their own terminator, LF or CRLF, so that the lines joined
again are the text, whatever mix of terminators it has. The last line has no terminator and is
empty when the text ends with one. A CR that no LF follows is a character like any other.
-/

namespace GameText

/-- A line: its characters and the terminator that ends it. -/
structure Line where
  body : Text
  ending : Text
deriving Repr, DecidableEq

namespace Line

/-- The characters of a line, terminator included. -/
def text (l : Line) : Text := l.body ++ l.ending

/-- Puts a character in front of the first line. -/
def consBody (c : Char) : List Line → List Line
  | [] => [⟨[c], []⟩]
  | l :: ls => ⟨c :: l.body, l.ending⟩ :: ls

end Line

namespace Text

/-- Cuts a text into its lines. -/
def lines : Text → List Line
  | [] => [⟨[], []⟩]
  | '\r' :: '\n' :: cs => ⟨[], ['\r', '\n']⟩ :: lines cs
  | '\n' :: cs => ⟨[], ['\n']⟩ :: lines cs
  | c :: cs => Line.consBody c (lines cs)

/-- Joins lines with their terminators. -/
def ofLines (ls : List Line) : Text := ls.flatMap Line.text


/-- Every line terminator becomes `mark`, so that the text stays on one line. -/
def inlineBreaks (mark : Text) : Text → Text
  | [] => []
  | '\r' :: '\n' :: cs => mark ++ inlineBreaks mark cs
  | '\n' :: cs => mark ++ inlineBreaks mark cs
  | c :: cs => c :: inlineBreaks mark cs

/-- Line terminators as a text file reads them: CRLF and a lone CR both become LF. -/
def unifyNewlines : Text → Text
  | [] => []
  | '\r' :: '\n' :: cs => '\n' :: unifyNewlines cs
  | '\r' :: cs => '\n' :: unifyNewlines cs
  | c :: cs => c :: unifyNewlines cs

end Text

end GameText
