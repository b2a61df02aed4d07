import GameText.Classify.Garbage

/-!
# Choices, labels and names

The lighter rules for short strings that a player sees: menu choices, branch labels and names. The
first rule that holds for the trimmed string rejects it.
-/

namespace GameText

namespace Classify

/-- Why a string is no choice. -/
inductive ChoiceRejection where
  | blankOrNumeric
  | punctuationOnly
  | escapeCode
  | markupOnly
  | noLetter
  | identifier
  | nonChoiceWord
  | assetPath
deriving DecidableEq, Repr

namespace ChoiceRejection

/-- The order in which the rules are tried. -/
def order : List ChoiceRejection :=
  [.blankOrNumeric, .punctuationOnly, .escapeCode, .markupOnly, .noLetter, .identifier,
   .nonChoiceWord, .assetPath]

/-- The name of a rule. -/
def name : ChoiceRejection → String
  | .blankOrNumeric => "blank-or-numeric"
  | .punctuationOnly => "punctuation-only"
  | .escapeCode => "escape-code"
  | .markupOnly => "markup-only"
  | .noLetter => "no-letter"
  | .identifier => "identifier"
  | .nonChoiceWord => "non-choice-word"
  | .assetPath => "asset-path"

end ChoiceRejection

/-- A lower-case letter stands directly before a capital. -/
def hasHump : Text → Bool
  | a :: b :: cs => (a.isLower && b.isUpper) || hasHump (b :: cs)
  | _ => false

/-- One token with an underscore, a digit or a hump, as identifiers of programs have. -/
def isIdentifier (t : Text) : Bool :=
  t.head?.any isNameStart && t.all isNameChar &&
    (t.any (fun c => c == '_' || c.isDigit) || hasHump t)

/-- Words of programs. -/
def nonChoiceWords : List Text := Text.wordList
  ["true", "false", "null", "undefined", "none", "nan", "default"]

/-- Endings of files that hold pictures, sounds, films and data. -/
def assetEndings : List Text := Text.wordList
  [".png", ".jpg", ".jpeg", ".gif", ".webp", ".bmp", ".ogg", ".m4a", ".mp3", ".wav", ".mp4",
   ".webm", ".json", ".js"]

/-- A path without blanks, or the name of an asset file. -/
def isAssetPath (t : Text) : Bool :=
  (t.all (!isBlank ·) && t.any (fun c => c == '/' || c == '\\')) ||
    assetEndings.any (Text.endsWith · t.fold)

/-- When a rule holds for a trimmed string. -/
def ChoiceRejection.holds : ChoiceRejection → Text → Bool
  | .blankOrNumeric => isBlankOrNumeric
  | .punctuationOnly => isPunctuationOnly
  | .escapeCode => isEscapeCode
  | .markupOnly => isMarkupOnly
  | .noLetter => hasNoLetter
  | .identifier => isIdentifier
  | .nonChoiceWord => fun t => nonChoiceWords.contains t.lower
  | .assetPath => isAssetPath

/-- The first rule that rejects a string as a choice. -/
def choiceRejection? (s : Text) : Option ChoiceRejection :=
  ChoiceRejection.order.find? (·.holds s.trim)

/-- The string can be a choice. -/
def isChoice (s : Text) : Bool := (choiceRejection? s).isNone

/-- The first rule that rejects a value as a choice; what is no string counts as blank. -/
def choiceRejectionOfValue? : Json → Option ChoiceRejection
  | .str s => choiceRejection? s
  | _ => some .blankOrNumeric

end Classify

end GameText
