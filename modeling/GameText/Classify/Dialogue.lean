import GameText.Classify.Garbage

/-!
# Lines of dialogue

A line of an event message counts as dialogue when it is no garbage and something speaks for it:
a pronoun, the punctuation of sentences, the length of a sentence, or Japanese. Codes and tags do
not count, and a speaker's name glued to the front is set apart first.
-/

namespace GameText

namespace Classify

/-- A character of a speaker's name after its first letter. -/
def isSpeakerChar (c : Char) : Bool := isNameChar c || c == '-'

/-- Sets a speaker's name with its point apart from the line it is glued to. A name begins with a
capital and has at most 24 characters; text that is neither blank nor a point follows its point. -/
def splitSpeaker (s : Text) : Text × Text :=
  match s with
  | c :: cs =>
    let name := cs.takeWhile isSpeakerChar
    if c.isUpper && name.length ≤ 23 then
      match cs.dropWhile isSpeakerChar with
      | '.' :: d :: rest =>
        if isBlank d || d = '.' then ([], s) else (c :: name ++ ['.'], d :: rest)
      | _ => ([], s)
    else ([], s)
  | [] => ([], s)

/-- The line with every control code made blank and every run of blanks one space. -/
def normalizeDialogue (s : Text) : Text :=
  (Text.squeeze (Text.mapTokens Markup.controlCode? (fun _ _ => [' ']) s)).trim

/-- Pronouns of English. -/
def pronouns : List Text := Text.wordList
  ["i", "i'm", "i'll", "i've", "i'd", "me", "my", "mine", "myself", "you", "your", "yours",
   "yourself", "we", "us", "our", "ours", "he", "him", "his", "she", "her", "hers", "they",
   "them", "their", "theirs", "it", "its"]

/-- Pronouns of Japanese, which need no word edge. -/
def japanesePronouns : List Text := Text.wordList
  ["私", "僕", "俺", "あなた", "お前", "君", "彼女", "彼", "わたし", "ぼく", "おれ"]

/-- What speaks for dialogue. -/
inductive Evidence where
  | pronoun
  | sentencePunctuation
  | longSentence
  | japaneseRun
deriving DecidableEq, Repr

namespace Evidence

/-- The order in which evidence is looked for. -/
def order : List Evidence := [.pronoun, .sentencePunctuation, .longSentence, .japaneseRun]

/-- The name of a kind of evidence. -/
def name : Evidence → String
  | .pronoun => "pronoun"
  | .sentencePunctuation => "sentence-punctuation"
  | .longSentence => "long-sentence"
  | .japaneseRun => "japanese-run"

end Evidence

/-- A pronoun stands in the text. -/
def hasPronoun (t : Text) : Bool :=
  Text.hasKeyword pronouns t || japanesePronouns.any (Text.occursIn · t)

/-- A mark that ends a sentence. -/
def isTerminalMark (c : Char) : Bool := "!?…！？。".toList.contains c

/-- A mark within sentences, blanks, and a capital stand side by side. -/
def hasSentenceJoint : Text → Bool
  | [] => false
  | c :: cs =>
    (".,;:".toList.contains c && cs.head?.any isBlank &&
        (Text.trimStart cs).head?.any Char.isUpper) || hasSentenceJoint cs

/-- The text has the punctuation of sentences. -/
def hasSentencePunctuation (t : Text) : Bool :=
  t.any isTerminalMark || Text.occursIn "..." t || hasSentenceJoint t

/-- When evidence is found in a text. -/
def Evidence.holds : Evidence → Text → Bool
  | .pronoun => hasPronoun
  | .sentencePunctuation => hasSentencePunctuation
  | .longSentence => fun t => 16 ≤ t.length && 3 ≤ t.words.length
  | .japaneseRun => Text.hasJapaneseRun 2

/-- The first evidence in a text. -/
def evidence? (t : Text) : Option Evidence := Evidence.order.find? (·.holds t)

/-- A slash and one word. -/
def isBareCommand (t : Text) : Bool :=
  match t with
  | '/' :: cs => !cs.isEmpty && cs.all isWordChar
  | _ => false

/-- The line is dialogue. -/
def isDialogue (s : Text) : Bool :=
  let (speaker, body) := splitSpeaker s
  if !speaker.isEmpty && (body.trim.isEmpty || isBareCommand body.trim) then false
  else if isGarbage body then false
  else
    let normalized := normalizeDialogue body
    !normalized.isEmpty && (evidence? normalized).isSome

/-- The value is a string that is dialogue. -/
def isDialogueValue : Json → Bool
  | .str s => isDialogue s
  | _ => false

end Classify

end GameText
