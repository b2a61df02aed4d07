import GameText.Json.Writer
import GameText.Text.Printable

/-!
# Values in messages

How a value reads inside a message: strings in single quotes, or in double quotes when they hold a
single quote and no double one, with backslash, the quote in use, the usual line blanks and every
character that is not shown as itself escaped.
A string shown by itself is its bare text.
-/

namespace GameText

namespace Json

/-- The quote that a string is shown in. -/
def displayQuote (s : Text) : Char := if s.contains '\'' && !s.contains '"' then '"' else '\''

/-- The lower-case hexadecimal digits of a number, with leading zeros up to a width. -/
def hexDigits : Nat → Nat → Text
  | 0, _ => []
  | width + 1, n => hexDigits width (n / 16) ++ [hexDigit (n % 16)]

/-- A character inside a shown string. -/
def displayChar (quote c : Char) : Text :=
  if c = '\\' then ['\\', '\\']
  else if c = quote then ['\\', c]
  else if c = '\n' then ['\\', 'n']
  else if c = '\r' then ['\\', 'r']
  else if c = '\t' then ['\\', 't']
  else if isShown c then [c]
  else if c.toNat < 0x100 then '\\' :: 'x' :: hexDigits 2 c.toNat
  else if c.toNat < 0x10000 then '\\' :: 'u' :: hexDigits 4 c.toNat
  else '\\' :: 'U' :: hexDigits 8 c.toNat

/-- A string as it is shown inside another value. -/
def displayString (s : Text) : Text :=
  let quote := displayQuote s
  quote :: s.flatMap (displayChar quote) ++ [quote]

/-- A number as it is shown. -/
def displayNumber : Number → Text
  | .int n => Text.ofInt n
  | .float .nan => "nan"
  | .float (.infinite negative) => if negative then "-inf" else "inf"
  | .float (.finite negative significand exponent) =>
    Binary64.finiteText negative significand exponent

mutual

/-- A value as it is shown inside another value. -/
def display : Json → Text
  | .null => "None"
  | .bool b => if b then "True" else "False"
  | .num n => displayNumber n
  | .str s => displayString s
  | .arr items => '[' :: displayItems items ++ [']']
  | .obj members => '\x7b' :: displayMembers members ++ ['\x7d']

/-- The elements of a shown array. -/
def displayItems : List Json → Text
  | [] => []
  | [v] => display v
  | v :: vs => display v ++ ", " ++ displayItems vs

/-- The members of a shown object. -/
def displayMembers : List (Text × Json) → Text
  | [] => []
  | [(k, v)] => displayString k ++ ": " ++ display v
  | (k, v) :: rest => displayString k ++ ": " ++ display v ++ ", " ++ displayMembers rest

end

/-- A value as text: a string is its own text, anything else is shown. -/
def asText : Json → Text
  | .str s => s
  | v => display v

end Json

end GameText
