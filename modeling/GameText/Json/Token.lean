import GameText.Json.Basic
import GameText.Json.Problem

/-!
# Tokens of JSON

Strings, numbers and words as they are written. A token keeps its characters beside what it stands
for, and reading one gives the token with the text after it, so that the characters and the rest
together are what was read. Besides the words of the standard, `NaN`, `Infinity` and `-Infinity`
are numbers.
-/

namespace GameText

namespace Json

/-! ## Strings -/

/-- The value of a hexadecimal digit. -/
def hexValue? (c : Char) : Option Nat :=
  if c.isDigit then some (c.toNat - '0'.toNat)
  else if 'a' ≤ c ∧ c ≤ 'f' then some (c.toNat - 'a'.toNat + 10)
  else if 'A' ≤ c ∧ c ≤ 'F' then some (c.toNat - 'A'.toNat + 10)
  else none

/-- The value of four hexadecimal digits. -/
def hexCode? (a b c d : Char) : Option Nat := do
  let a ← hexValue? a
  let b ← hexValue? b
  let c ← hexValue? c
  let d ← hexValue? d
  return ((a * 16 + b) * 16 + c) * 16 + d

/-- The first half of a code pair. -/
def isHighHalf (n : Nat) : Bool := 0xD800 ≤ n && n ≤ 0xDBFF

/-- The second half of a code pair. -/
def isLowHalf (n : Nat) : Bool := 0xDC00 ≤ n && n ≤ 0xDFFF

/-- The character that two halves of a code pair stand for. -/
def joinHalves (high low : Nat) : Char :=
  Char.ofNat (0x10000 + (high - 0xD800) * 0x400 + (low - 0xDC00))

/-- The character of a code; half of a pair by itself becomes the replacement character. -/
def charOfCode (n : Nat) : Char :=
  if isHighHalf n || isLowHalf n then '\uFFFD' else Char.ofNat n

/-- The character that a one-letter escape stands for. -/
def shortEscape? (c : Char) : Option Char :=
  if c = '"' then some '"'
  else if c = '\\' then some '\\'
  else if c = '/' then some '/'
  else if c = 'b' then some '\x08'
  else if c = 'f' then some '\x0C'
  else if c = 'n' then some '\n'
  else if c = 'r' then some '\r'
  else if c = 't' then some '\t'
  else none

/-- A string as it is written: its characters after the opening quote, the closing quote included,
and the text it stands for. -/
structure StringToken where
  written : Text
  text : Text
deriving DecidableEq, Repr

namespace StringToken

/-- The characters of a token. -/
def raw (t : StringToken) : Text := '"' :: t.written

end StringToken

/-- Puts a character, as it is written, before those of a token that was read. -/
def putBefore (written : Text) (c : Char) : StringToken × Text → StringToken × Text
  | (t, rest) => (⟨written ++ t.written, c :: t.text⟩, rest)

/-- Reads the rest of a string token after its opening quote. `opened` is the text from the opening
quote on. -/
def readString (opened : Text) : Text → Except Refusal (StringToken × Text)
  | [] => .error ⟨.openString, opened⟩
  | '"' :: rest => .ok (⟨['"'], []⟩, rest)
  | '\\' :: [] => .error ⟨.openString, opened⟩
  | '\\' :: 'u' :: a :: b :: c :: d :: '\\' :: 'u' :: a' :: b' :: c' :: d' :: e :: rest =>
    let second := 'u' :: a' :: b' :: c' :: d' :: e :: rest
    match hexCode? a b c d with
    | none => .error ⟨.badCodeEscape, 'u' :: a :: b :: c :: d :: '\\' :: second⟩
    | some high =>
      if isHighHalf high then
        match hexCode? a' b' c' d' with
        | none => .error ⟨.badCodeEscape, second⟩
        | some low =>
          if isLowHalf low then
            (readString opened (e :: rest)).map <|
              putBefore ['\\', 'u', a, b, c, d, '\\', 'u', a', b', c', d'] (joinHalves high low)
          else
            (readString opened ('\\' :: 'u' :: a' :: b' :: c' :: d' :: e :: rest)).map <|
              putBefore ['\\', 'u', a, b, c, d] (charOfCode high)
      else
        (readString opened ('\\' :: 'u' :: a' :: b' :: c' :: d' :: e :: rest)).map <|
          putBefore ['\\', 'u', a, b, c, d] (charOfCode high)
  | '\\' :: 'u' :: a :: b :: c :: d :: e :: rest =>
    match hexCode? a b c d with
    | none => .error ⟨.badCodeEscape, 'u' :: a :: b :: c :: d :: e :: rest⟩
    | some code =>
      (readString opened (e :: rest)).map <| putBefore ['\\', 'u', a, b, c, d] (charOfCode code)
  | '\\' :: 'u' :: rest => .error ⟨.badCodeEscape, 'u' :: rest⟩
  | '\\' :: c :: rest =>
    match shortEscape? c with
    | none => .error ⟨.badEscape, '\\' :: c :: rest⟩
    | some value => (readString opened rest).map (putBefore ['\\', c] value)
  | c :: rest =>
    if c.toNat < 0x20 then .error ⟨.controlCharacter, c :: rest⟩
    else (readString opened rest).map (putBefore [c] c)

/-! ## Numbers -/

/-- Digits at the beginning of a text, and what follows them. -/
def digits (s : Text) : Text × Text := (s.takeWhile Char.isDigit, s.dropWhile Char.isDigit)

/-- The natural number that decimal digits stand for. -/
def natOfDigits (ds : Text) : Nat := ds.foldl (fun n c => n * 10 + (c.toNat - '0'.toNat)) 0

/-- An exponent as it is written: its letter, its sign if it has one, and its digits. -/
structure Exponent where
  letter : Char
  sign : Option Char
  digits : Text
deriving DecidableEq, Repr

namespace Exponent

/-- The characters of an exponent. -/
def raw (e : Exponent) : Text := e.letter :: e.sign.toList ++ e.digits

/-- The power of ten that an exponent stands for. -/
def power (e : Exponent) : Int :=
  if e.sign = some '-' then -(natOfDigits e.digits : Int) else natOfDigits e.digits

end Exponent

/-- A number as it is written: its sign, the digits before and after its point, and its exponent. -/
structure NumberToken where
  negative : Bool
  whole : Text
  fraction : Text
  exponent : Option Exponent
deriving DecidableEq, Repr

namespace NumberToken

/-- The characters of a number. -/
def raw (t : NumberToken) : Text :=
  (if t.negative then ['-'] else []) ++ t.whole ++
    (if t.fraction.isEmpty then [] else '.' :: t.fraction) ++
    (t.exponent.map Exponent.raw).getD []

/-- The number is an integer: it is written without fraction and exponent. -/
def isInteger (t : NumberToken) : Bool := t.fraction.isEmpty && t.exponent.isNone

/-- The number: an integer or the nearest floating point number. -/
def value (t : NumberToken) : Number :=
  if t.isInteger then
    let n : Int := natOfDigits t.whole
    .int (if t.negative then -n else n)
  else
    .float (.ofDecimal t.negative (natOfDigits (t.whole ++ t.fraction))
      ((t.exponent.map Exponent.power).getD 0 - t.fraction.length))

end NumberToken

/-- The digits before a number's point; they do not begin with a needless zero. -/
def readWhole : Text → Text × Text
  | '0' :: s => (['0'], s)
  | s => digits s

/-- The digits of a number after its point, if it has any. -/
def readFraction : Text → Text × Text
  | '.' :: s => if (digits s).1.isEmpty then ([], '.' :: s) else digits s
  | s => ([], s)

/-- The sign at the beginning of an exponent's digits, if it has one. -/
def readSign : Text → Option Char × Text
  | '-' :: s => (some '-', s)
  | '+' :: s => (some '+', s)
  | s => (none, s)

/-- The exponent of a number, if it has one. -/
def readExponent : Text → Option Exponent × Text
  | [] => (none, [])
  | c :: s =>
    if (c = 'e' || c = 'E') && !(digits (readSign s).2).1.isEmpty then
      (some ⟨c, (readSign s).1, (digits (readSign s).2).1⟩, (digits (readSign s).2).2)
    else (none, c :: s)

/-- Reads a number. -/
def readNumber (s : Text) : Option (NumberToken × Text) :=
  let (negative, unsigned) := match s with
    | '-' :: t => (true, t)
    | t => (false, t)
  let (whole, afterWhole) := readWhole unsigned
  if whole.isEmpty then none
  else
    let (fraction, afterFraction) := readFraction afterWhole
    let (exponent, rest) := readExponent afterFraction
    some (⟨negative, whole, fraction, exponent⟩, rest)

/-! ## Words -/

/-- The words that are values by themselves. -/
def words : List (Text × Json) :=
  [("null", .null), ("true", .bool true), ("false", .bool false), ("NaN", .num (.float .nan)),
   ("Infinity", .num (.float (.infinite false))),
   ("-Infinity", .num (.float (.infinite true)))].map fun (word, value) => (word.toList, value)

/-- Reads a word: its characters, its value, and what follows it. -/
def readWord (s : Text) : Option ((Text × Json) × Text) :=
  words.findSome? fun (word, value) =>
    (Text.after? word s).map fun rest => ((word, value), rest)

end Json

end GameText
