import GameText.Text.Basic

/-!
# Blanks

The blank characters, and trimming, splitting and squeezing by them. Besides the ASCII blanks the
class holds the four separators U+001C to U+001F, the next-line control, and the space and line
separators of Unicode.
-/

namespace GameText

/-- A blank character. -/
def isBlank (c : Char) : Bool :=
  let n := c.toNat
  (0x09 ≤ n && n ≤ 0x0D) || (0x1C ≤ n && n ≤ 0x20) || n == 0x85 || n == 0xA0 || n == 0x1680 ||
    (0x2000 ≤ n && n ≤ 0x200A) || n == 0x2028 || n == 0x2029 || n == 0x202F || n == 0x205F ||
    n == 0x3000

namespace Text

/-- The text without its leading blanks. -/
def trimStart (s : Text) : Text := s.dropWhile isBlank

/-- The text without its trailing blanks. -/
def trimEnd (s : Text) : Text := (s.reverse.dropWhile isBlank).reverse

/-- The text without blanks at either end. -/
def trim (s : Text) : Text := trimEnd (trimStart s)

/-- The trailing blanks of a text. -/
def blanksAtEnd (s : Text) : Text := (s.reverse.takeWhile isBlank).reverse

/-- Nothing but blanks. -/
def allBlank (s : Text) : Bool := s.all isBlank

/-- The runs of non-blank characters, the first of which begins with the characters so far. -/
def wordsFrom (soFar : Text) : Text → List Text
  | [] => if soFar.isEmpty then [] else [soFar.reverse]
  | c :: cs =>
    if isBlank c then (if soFar.isEmpty then [] else [soFar.reverse]) ++ wordsFrom [] cs
    else wordsFrom (c :: soFar) cs

/-- The runs of non-blank characters. -/
def words (s : Text) : List Text := wordsFrom [] s

/-- Squeezes runs of blanks; `inRun` tells that the character before was blank. -/
def squeezeFrom (inRun : Bool) : Text → Text
  | [] => []
  | c :: cs =>
    if isBlank c then (if inRun then [] else [' ']) ++ squeezeFrom true cs
    else c :: squeezeFrom false cs

/-- Every run of blanks becomes one space. -/
def squeeze (s : Text) : Text := squeezeFrom false s

end Text

end GameText
