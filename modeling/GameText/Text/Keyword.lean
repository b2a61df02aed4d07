import GameText.Text.Case
import GameText.Text.Scan

/-!
# Keywords in a text

A keyword stands at a place when the text goes on with it, letter case disregarded, and no word
character touches it on either side.
-/

namespace GameText

namespace Text

/-- Recognises one of some lower-case keywords as a word of its own. -/
def keyword? (words : List Text) : Recognizer Unit := fun before s =>
  if before.any isWordChar then none
  else
    words.findSome? fun word =>
      match afterFolded? word s with
      | some rest => if rest.head?.any isWordChar then none else some ((), rest)
      | none => none

/-- The text begins with one of the keywords. -/
def beginsWithKeyword (words : List Text) (s : Text) : Bool := (keyword? words none s).isSome

/-- One of the keywords stands somewhere in the text. -/
def hasKeyword (words : List Text) (s : Text) : Bool := finds (keyword? words) s

/-- A row of words as texts. -/
def wordList (ws : List String) : List Text := ws.map String.toList

end Text

end GameText
