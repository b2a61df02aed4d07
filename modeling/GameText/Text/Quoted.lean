import GameText.Text.Scan

/-!
# Quoted literals on a script line

A quoted literal is what stands between two equal quote characters, single or double; a backslash
protects any character after it except a line feed. A quote that no equal quote closes begins no
literal. `escape` writes a text so that it can stand between two quotes: escape sequences that are
already there are kept, so the raw inside of a literal escapes to itself.
-/

namespace GameText

namespace Quoted

/-- Reads the rest of a literal after its opening quote: the inside with the closing quote, and
what follows. -/
def close? (quote : Char) : Text → Option (Text × Text)
  | [] => none
  | '\\' :: [] => none
  | '\\' :: c :: cs =>
    if c = '\n' then none
    else (close? quote cs).map fun (inside, rest) => ('\\' :: c :: inside, rest)
  | c :: cs =>
    if c = quote then some ([c], cs)
    else (close? quote cs).map fun (inside, rest) => (c :: inside, rest)

/-- Recognises a quoted literal; the answer is its whole text, quotes included. -/
def literal? : Recognizer Text
  | _, c :: cs =>
    if c = '"' || c = '\'' then (close? c cs).map fun (inside, rest) => (c :: inside, rest)
    else none
  | _, [] => none

/-- The inside of a literal. -/
def inner (literal : Text) : Text := (literal.drop 1).dropLast

/-- Writes a text for the inside of a literal whose quote is the text `quote`: escape sequences are
kept; a bare quote, a backslash that protects nothing, and real line breaks are escaped. -/
def escape (quote : Text) : Text → Text
  | [] => []
  | '\\' :: [] => ['\\', '\\']
  | '\\' :: c :: cs =>
    if c = '\r' || c = '\n' then '\\' :: '\\' :: escape quote (c :: cs)
    else '\\' :: c :: escape quote cs
  | '\r' :: '\n' :: cs =>
    if ['\r'] = quote then '\\' :: quote ++ escape quote ('\n' :: cs)
    else '\\' :: 'n' :: escape quote cs
  | c :: cs =>
    if [c] = quote then '\\' :: quote ++ escape quote cs
    else if c = '\r' || c = '\n' then '\\' :: 'n' :: escape quote cs
    else c :: escape quote cs

end Quoted

/-- The quote that is open at a place of a line, and the character before the place. -/
structure CommentScan where
  opened : Option Char
  before : Option Char

namespace Text

/-- A line up to its first comment mark outside quotes, continued from a scan. A quote after a
backslash neither opens nor closes; if it is the mark itself it begins a comment. -/
def beforeCommentFrom (mark : Text) (scan : CommentScan) : Text → Text
  | [] => []
  | c :: cs =>
    if (c = '\'' || c = '"') && scan.before != some '\\' then
      c :: beforeCommentFrom mark
        ⟨match scan.opened with
          | none => some c
          | some quote => if quote = c then none else some quote, some c⟩ cs
    else if [c] = mark && scan.opened.isNone then []
    else c :: beforeCommentFrom mark ⟨scan.opened, some c⟩ cs

/-- A line up to its first comment mark outside quotes. -/
def beforeComment (mark line : Text) : Text := beforeCommentFrom mark ⟨none, none⟩ line

end Text

end GameText
