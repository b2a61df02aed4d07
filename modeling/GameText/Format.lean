import GameText.Text.Keyword
import GameText.Text.Script
import GameText.Text.TagRuns
import GameText.Bytes.Utf8

/-!
# Formats of game scripts

A document's format is told by the ending of its file name; scenario files of two engines share
one ending and are told apart by their content. Text is taken from four formats. Formats that only
hold packed data are known by name.
-/

namespace GameText

/-- The format of a document. -/
inductive Format where
  | eventData
  | renpy
  | tyrano
  | kag
  /-- A format by name from which no text is taken. -/
  | other (name : Text)
deriving DecidableEq, Repr

namespace Format

/-- The tag of a format. -/
def tag : Format → Text
  | .eventData => "rpgmv-json"
  | .renpy => "renpy-script"
  | .tyrano => "tyrano-ks"
  | .kag => "kag-ks"
  | .other name => name

/-- The format with a tag. -/
def ofTag (tag : Text) : Format :=
  if tag = "rpgmv-json".toList then .eventData
  else if tag = "renpy-script".toList then .renpy
  else if tag = "tyrano-ks".toList then .tyrano
  else if tag = "kag-ks".toList then .kag
  else .other tag

/-- Text can be taken from documents of the format. -/
def supported : Format → Bool
  | .other _ => false
  | _ => true

/-- File name endings of packed formats. -/
def packedEndings : List (Text × Text) :=
  [(".rpyc", "renpy-compiled"), (".rpa", "renpy-archive"), (".rvdata2", "rgss-data"),
   (".rvdata", "rgss-data"), (".rxdata", "rgss-data"), (".xp3", "kirikiri-archive"),
   (".rpgmvp", "rpgmv-encrypted"), (".rpgmvo", "rpgmv-encrypted"), (".rpgmvm", "rpgmv-encrypted"),
   (".rpgmvw", "rpgmv-encrypted"), (".png_", "rpgmz-encrypted"), (".ogg_", "rpgmz-encrypted")].map
    fun (ending, name) => (ending.toList, name.toList)

/-- An at-sign and a name character. -/
def atDirective? : Recognizer Unit
  | _, '@' :: c :: rest => if isNameChar c then some ((), rest) else none
  | _, _ => none

/-- A quotation in Japanese marks with something inside. -/
def quotation? : Recognizer Unit
  | _, '「' :: c :: cs =>
    if c = '」' then none
    else if cs.contains '」' then some ((), cs) else none
  | _, _ => none


/-- The format of a scenario by its content. A scenario without any sign of the one engine belongs
to the other. -/
def ofScenario (s : Text) : Format :=
  if Text.finds atDirective? s || Text.finds quotation? s then .kag else .tyrano

/-- The ending of a file name: its last point and what follows, if the name before it holds more
than points. -/
def ending (name : Text) : Text :=
  let base := (name.reverse.takeWhile (· != '/')).reverse
  let extension := base.reverse.takeWhile (· != '.')
  let before := base.take (base.length - extension.length - 1)
  if base.contains '.' && before.any (· != '.') then '.' :: extension.reverse else []

/-- The format of a document. -/
def detect (filename : Text) (content : Bytes) : Format :=
  let ending := ending filename.lower
  if ending = ".json".toList then .eventData
  else if ending = ".rpy".toList then .renpy
  else if ending = ".ks".toList then ofScenario (Utf8.decodeLenient content)
  else .other ((lookup? ending packedEndings).getD "unknown".toList)

end Format

end GameText
