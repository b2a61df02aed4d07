import GameText.Classify.Shape
import GameText.Json.Basic

/-!
# Strings that are no real text

An ordered table of rules, the first of which that holds for the trimmed string tells why the
string is control or structure and not text.
-/

namespace GameText

namespace Classify

/-- Short words of interfaces and flow control. -/
def uiTokens : List Text := Text.wordList
  ["retry", "correct", "start", "skip", "skipit", "again", "player", "end", "fail", "flag",
   "options", "theend", "greet", "menu", "title", "continue", "load", "save", "settings",
   "config", "credits", "back", "next", "yes", "no", "ok", "cancel", "exit", "quit", "help"]

/-- Words of one or two letters that are words. -/
def shortWords : List Text := Text.wordList
  ["ok", "no", "go", "up", "hi", "me", "we", "he", "it", "is", "am", "an", "at", "be", "by", "do",
   "if", "in", "of", "on", "or", "so", "to", "us", "oh", "ah"]

/-- The kinds that resource identifiers begin with. -/
def resourceKinds : List Text := Text.wordList
  ["tileset", "poptext", "se", "bgm", "bgs", "me", "anim", "common", "var", "switch", "actor",
   "class", "skill", "item", "weapon", "armor", "enemy", "troop", "state", "event", "map", "sys"]

/-- How program text begins. -/
def codeBeginnings : List Text :=
  ["this.", "self.", "game_", "$game", "@", "undefined", "null", "true", "false", "var ", "let ",
   "const "].map String.toList

/-- Why a string is no text. -/
inductive GarbageReason where
  | blankOrNumeric
  | uiToken
  | resourceId
  | markupOnly
  | escapeCode
  | punctuationOnly
  | codeLike
  | noLetter
  | tooShort
  | singleGlyph
deriving DecidableEq, Repr

namespace GarbageReason

/-- The order in which the rules are tried. -/
def order : List GarbageReason :=
  [.blankOrNumeric, .uiToken, .resourceId, .markupOnly, .escapeCode, .punctuationOnly, .codeLike,
   .noLetter, .tooShort, .singleGlyph]

/-- The name of a rule. -/
def name : GarbageReason → String
  | .blankOrNumeric => "blank-or-numeric"
  | .uiToken => "ui-token"
  | .resourceId => "resource-id"
  | .markupOnly => "markup-only"
  | .escapeCode => "escape-code"
  | .punctuationOnly => "punctuation-only"
  | .codeLike => "code-like"
  | .noLetter => "no-letter"
  | .tooShort => "too-short"
  | .singleGlyph => "single-glyph"

end GarbageReason

/-- A word of interfaces, or `flag` with one digit. -/
def isUiToken (t : Text) : Bool :=
  uiTokens.contains t.lower ||
    match Text.afterFolded? "flag" t with
    | some [d] => d.isDigit
    | _ => false

/-- A kind of resource and a hyphen. -/
def isResourceId (t : Text) : Bool :=
  resourceKinds.any fun kind => ((Text.afterFolded? kind t).bind List.head?) == some '-'

/-- The string begins as program text does. -/
def isCodeLike (t : Text) : Bool := codeBeginnings.any (Text.startsWith · t)

/-- At most two characters that are no short word. -/
def isTooShort (t : Text) : Bool := t.length ≤ 2 && !shortWords.contains t.lower

/-- At most one character that is not blank. -/
def isSingleGlyph (t : Text) : Bool := (t.filter (!isBlank ·)).length ≤ 1

/-- When a rule holds for a trimmed string. -/
def GarbageReason.holds : GarbageReason → Text → Bool
  | .blankOrNumeric => isBlankOrNumeric
  | .uiToken => isUiToken
  | .resourceId => isResourceId
  | .markupOnly => isMarkupOnly
  | .escapeCode => isEscapeCode
  | .punctuationOnly => isPunctuationOnly
  | .codeLike => isCodeLike
  | .noLetter => hasNoLetter
  | .tooShort => isTooShort
  | .singleGlyph => isSingleGlyph

/-- The first rule by which a string is no text. -/
def garbageReason? (s : Text) : Option GarbageReason :=
  GarbageReason.order.find? (·.holds s.trim)

/-- The string is control or structure and not text. -/
def isGarbage (s : Text) : Bool := (garbageReason? s).isSome

/-- The first rule by which a value is no text; what is no string counts as blank. -/
def garbageReasonOfValue? : Json → Option GarbageReason
  | .str s => garbageReason? s
  | _ => some .blankOrNumeric

end Classify

end GameText
