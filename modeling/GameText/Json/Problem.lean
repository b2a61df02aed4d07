import GameText.Text.Basic

/-!
# What is wrong with a JSON text

A JSON text is refused at the first place where it goes wrong. A refusal holds what is left of the
text from that place on; with the whole text it becomes a message that names line, column and
offset.
-/

namespace GameText

namespace Json

/-- What is wrong at a place of a JSON text. -/
inductive Problem where
  | byteOrderMark
  | noValue
  | noKey
  | noColon
  | noComma
  | openString
  | controlCharacter
  | badEscape
  | badCodeEscape
  | trailingText
  /-- An integer has more digits than are read. -/
  | longInteger (digits : Nat)
deriving DecidableEq, Repr

/-- The words for a problem. -/
def Problem.message : Problem → Text
  | .byteOrderMark => "Unexpected UTF-8 BOM (decode using utf-8-sig)"
  | .noValue => "Expecting value"
  | .noKey => "Expecting property name enclosed in double quotes"
  | .noColon => "Expecting ':' delimiter"
  | .noComma => "Expecting ',' delimiter"
  | .openString => "Unterminated string starting at"
  | .controlCharacter => "Invalid control character at"
  | .badEscape => "Invalid \\escape"
  | .badCodeEscape => "Invalid \\uXXXX escape"
  | .trailingText => "Extra data"
  | .longInteger digits =>
    "Exceeds the limit (4300 digits) for integer string conversion: value has " ++
      Text.ofNat digits ++
      " digits; use sys.set_int_max_str_digits() to increase the limit"

/-- The place of the problem is told. -/
def Problem.hasPlace : Problem → Bool
  | .longInteger _ => false
  | _ => true

/-- A problem and what is left of the text from its place on. -/
structure Refusal where
  problem : Problem
  rest : Text
deriving DecidableEq, Repr

/-- The message of a refusal of `source`: the words, and if the place is told, line and column
counted from one and the offset counted from zero. -/
def Refusal.message (r : Refusal) (source : Text) : Text :=
  let offset := source.length - r.rest.length
  let before := source.take offset
  let line := before.count '\n' + 1
  let column := (before.reverse.takeWhile (· != '\n')).length + 1
  r.problem.message ++
    if r.problem.hasPlace then
      ": line " ++ Text.ofNat line ++ " column " ++ Text.ofNat column ++
        " (char " ++ Text.ofNat offset ++ ")"
    else []

end Json

end GameText
