import GameText.Text.Quoted

/-!
# Literals of a script call

A script call is a small expression of program text. Its literals stand in single quotes, double
quotes or backquotes, and a backslash protects any character. The literals are found from left to
right; one that is not closed ends the search, so what follows it holds none.
-/

namespace GameText

namespace ScriptCall

/-- A character that opens and closes literals. -/
def isQuote (c : Char) : Bool := c == '\'' || c == '"' || c == '`'

/-- The inside of a literal after its opening quote, and what follows its closing quote. -/
def close? (quote : Char) : Text → Option (Text × Text)
  | [] => none
  | '\\' :: [] => none
  | '\\' :: c :: cs => (close? quote cs).map fun (inside, rest) => ('\\' :: c :: inside, rest)
  | c :: cs =>
    if c = quote then some ([], cs)
    else (close? quote cs).map fun (inside, rest) => (c :: inside, rest)

/-- A literal: where it begins, its quote, and what stands between its quotes. -/
structure Literal where
  start : Nat
  quote : Char
  inner : Text
deriving DecidableEq, Repr

namespace Literal

/-- Where a literal ends. -/
def stop (l : Literal) : Nat := l.start + l.inner.length + 2

/-- The characters of a literal. -/
def raw (l : Literal) : Text := l.quote :: l.inner ++ [l.quote]

end Literal

/-- The literals of a text that begins at an offset; `skip` characters belong to a literal that is
already found. -/
def literalsFrom (offset skip : Nat) : Text → List Literal
  | [] => []
  | c :: cs =>
    match skip with
    | k + 1 => literalsFrom (offset + 1) k cs
    | 0 =>
      if isQuote c then
        match close? c cs with
        | some (inner, _) => ⟨offset, c, inner⟩ :: literalsFrom (offset + 1) (inner.length + 1) cs
        | none => []
      else literalsFrom (offset + 1) 0 cs

/-- The literals of a script call. -/
def literals (source : Text) : List Literal := literalsFrom 0 0 source

end ScriptCall

end GameText
