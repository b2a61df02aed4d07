import GameText.Json.Basic

/-!
# Writing JSON

Strings are written with the shortest escapes for the seven characters that have one and `\u00xx`
for the other control characters; everything else stands as it is. A document is written on one
line or with an indentation of two blanks, where empty arrays and objects close at once.
-/

namespace GameText

namespace Json

/-- A hexadecimal digit in lower case. -/
def hexDigit (n : Nat) : Char := Nat.digitChar n

/-- How a character stands inside a string token. -/
def escapeChar (c : Char) : Text :=
  if c = '"' then ['\\', '"']
  else if c = '\\' then ['\\', '\\']
  else if c = '\n' then ['\\', 'n']
  else if c = '\r' then ['\\', 'r']
  else if c = '\t' then ['\\', 't']
  else if c = '\x08' then ['\\', 'b']
  else if c = '\x0C' then ['\\', 'f']
  else if c.toNat < 0x20 then
    ['\\', 'u', '0', '0', hexDigit (c.toNat / 16), hexDigit (c.toNat % 16)]
  else [c]

/-- A string token, quotes included. -/
def quote (s : Text) : Text := '"' :: s.flatMap escapeChar ++ ['"']

/-- A number token. -/
def numberToken : Number → Text
  | .int n => Text.ofInt n
  | .float .nan => "NaN"
  | .float (.infinite negative) => if negative then "-Infinity" else "Infinity"
  | .float (.finite negative significand exponent) =>
    Binary64.finiteText negative significand exponent

mutual

/-- A document on one line, with a blank after every comma and colon. -/
def compact : Json → Text
  | .null => "null"
  | .bool b => if b then "true" else "false"
  | .num n => numberToken n
  | .str s => quote s
  | .arr items => '[' :: compactItems items ++ [']']
  | .obj members => '\x7b' :: compactMembers members ++ ['\x7d']

/-- The elements of an array on one line. -/
def compactItems : List Json → Text
  | [] => []
  | [v] => compact v
  | v :: vs => compact v ++ ", " ++ compactItems vs

/-- The members of an object on one line. -/
def compactMembers : List (Text × Json) → Text
  | [] => []
  | [(k, v)] => quote k ++ ": " ++ compact v
  | (k, v) :: rest => quote k ++ ": " ++ compact v ++ ", " ++ compactMembers rest

end

/-- A new line with an indentation of two blanks a level. -/
def newLine (level : Nat) : Text := '\n' :: List.replicate (2 * level) ' '

mutual

/-- A document at a level of indentation. -/
def indentedAt (level : Nat) : Json → Text
  | .arr [] => "[]"
  | .arr items => '[' :: newLine (level + 1) ++ indentedItems (level + 1) items ++
      newLine level ++ [']']
  | .obj [] => ['\x7b', '\x7d']
  | .obj members => '\x7b' :: newLine (level + 1) ++ indentedMembers (level + 1) members ++
      newLine level ++ ['\x7d']
  | .null => "null"
  | .bool b => if b then "true" else "false"
  | .num n => numberToken n
  | .str s => quote s

/-- The elements of an array, each on a line of its own. -/
def indentedItems (level : Nat) : List Json → Text
  | [] => []
  | [v] => indentedAt level v
  | v :: vs => indentedAt level v ++ ',' :: newLine level ++ indentedItems level vs

/-- The members of an object, each on a line of its own. -/
def indentedMembers (level : Nat) : List (Text × Json) → Text
  | [] => []
  | [(k, v)] => quote k ++ ": " ++ indentedAt level v
  | (k, v) :: rest =>
    quote k ++ ": " ++ indentedAt level v ++ ',' :: newLine level ++ indentedMembers level rest

end

/-- A document with an indentation of two blanks. -/
def indented (v : Json) : Text := indentedAt 0 v

end Json

end GameText
