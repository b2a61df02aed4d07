import GameText.Text.Word

/-!
# Japanese characters and letters of real text

The classes by which the classifiers tell prose from program text: kana and kanji, and the letters
that count as text at all.
-/

namespace GameText

/-- Hiragana, katakana (half-width included) and kanji. -/
def isJapanese (c : Char) : Bool :=
  let n := c.toNat
  (0x3040 ≤ n && n ≤ 0x30FF) || (0x4E00 ≤ n && n ≤ 0x9FFF) || (0x3400 ≤ n && n ≤ 0x4DBF) ||
    (0xFF65 ≤ n && n ≤ 0xFF9F)

/-- Latin letters with and without accents and marks, kana and the common kanji. -/
def isProseLetter (c : Char) : Bool :=
  let n := c.toNat
  c.isAlpha || (0xC0 ≤ n && n ≤ 0x1EF9) || (0x3040 ≤ n && n ≤ 0x30FF) ||
    (0x4E00 ≤ n && n ≤ 0x9FFF)

/-- A letter, digit or underscore of ASCII. -/
def isNameChar (c : Char) : Bool := c.isAlphanum || c == '_'

/-- An ASCII letter or underscore, which may begin an identifier. -/
def isNameStart (c : Char) : Bool := c.isAlpha || c == '_'

namespace Text

/-- At least `count` Japanese characters stand side by side. -/
def hasJapaneseRun (count : Nat) : Text → Bool
  | [] => count == 0
  | c :: cs => (((c :: cs).take count).length == count && ((c :: cs).take count).all isJapanese) ||
      hasJapaneseRun count cs

end Text

end GameText
