import GameText.Script.LineEdit
import GameText.Text.Quoted
import GameText.Text.Blank
import GameText.Text.Keyword
import GameText.Text.Script

/-!
# Ren'Py scripts

A line of a Ren'Py script carries dialogue when it looks like a say statement, an attribute that
holds dialogue, a narration string, or text with tags, and not like a statement, an assignment or
a reference to an asset. Each quoted literal on such a line, comments aside, is a text unit; its
address is the line and the literal's ordinal.
-/

namespace GameText

namespace Renpy

/-- Statement keywords. -/
def keywords : List Text := Text.wordList
  ["label", "key", "style", "text_font", "font", "if", "else", "at", "align", "easeout", "size",
   "hovered", "unhovered", "import", "config", "with", "def", "move", "background", "text", "add",
   "action", "screen", "sound", "outlines", "outline_scaling", "menu", "jump", "scene", "init",
   "show", "hide", "stop", "play", "queue", "transform", "define", "image", "window", "voice",
   "pause", "call", "return", "renpy", "python"]

/-- A single or double quote. -/
def isQuote (c : Char) : Bool := c == '"' || c == '\''

/-- An identifier, blanks, and a quote: what a say statement begins with. -/
def beginsAsSay (t : Text) : Bool :=
  let rest : Text := t.dropWhile isWordChar
  t.head?.any isNameStart && rest.head?.any isBlank && rest.trimStart.head?.any isQuote

/-- Words, an equals sign, and something that is no quote. -/
def isAssignment (t : Text) : Bool :=
  match t.dropWhile fun c => isWordChar c || isBlank c with
  | '=' :: c :: _ => !(isQuote c || c == '`')
  | _ => false

/-- Endings of asset files. -/
def assetEndings : List Text := Text.wordList
  [".png", ".jpg", ".jpeg", ".gif", ".webp", ".mp3", ".ogg", ".wav", ".mp4", ".webm", ".m4a",
   ".avi", ".mov", ".ttf", ".otf", ".pfb", ".pfm", ".ps", ".woff", ".woff2", ".eot", ".svg"]

/-- The line ends with the name of an asset file, and a quote perhaps. -/
def endsWithAsset (t : Text) : Bool :=
  let unquoted : Text := if t.getLast?.any isQuote then t.dropLast else t
  assetEndings.any (Text.endsWith · unquoted.fold)

/-- Folders of assets. -/
def assetFolders : List Text := Text.wordList
  ["image/", "images/", "audio/", "music/", "voice/", "bg/", "sfx/", "movie/", "video/", "sound/",
   "sounds/"]

/-- A quote directly before the name of an asset folder stands in the line. -/
def hasAssetPath : Text → Bool
  | [] => false
  | c :: cs => (isQuote c && assetFolders.any fun folder => (Text.afterFolded? folder cs).isSome) ||
      hasAssetPath cs

/-- The characters of a text up to the end of its line. -/
def restOfLine (t : Text) : Text := t.takeWhile (· != '\n')

/-- Words, a colon, and something between quotes. -/
def isAttributeDialogue (t : Text) : Bool :=
  let words := t.takeWhile fun c => isWordChar c || isBlank c
  match t.dropWhile fun c => isWordChar c || isBlank c with
  | ':' :: rest =>
    !words.isEmpty &&
      match Text.trimStart rest with
      | q :: inside => isQuote q && (restOfLine inside).any isQuote
      | [] => false
  | _ => false

/-- Recognises a double-quoted literal; the answer is its whole text. -/
def doubleQuoted? : Recognizer Text
  | _, '"' :: cs => (Quoted.close? '"' cs).map fun (inside, rest) => ('"' :: inside, rest)
  | _, _ => none

/-- One double-quoted literal and nothing else. -/
def isWholeString (t : Text) : Bool := doubleQuoted? none t matches some (_, [])

/-- A word, blanks, and something between two equal quotes. -/
def isSay (t : Text) : Bool :=
  let rest : Text := t.dropWhile isWordChar
  !(t.takeWhile isWordChar).isEmpty && rest.head?.any isBlank &&
    match rest.trimStart with
    | q :: c :: inside => isQuote q && c != '\n' && (restOfLine inside).contains q
    | _ => false

/-- Braces around anything on one line. -/
def hasBraceTag : Text → Bool
  | [] => false
  | c :: cs => (c == '\x7b' && (restOfLine cs).contains '\x7d') || hasBraceTag cs

/-- A letter or digit as it occurs in dialogue. -/
def isDialogueChar (c : Char) : Bool :=
  c.isAlphanum || (0xC0 ≤ c.toNat && c.toNat ≤ 0x1EF9)

/-- The code of a line without its comment, trimmed. -/
def codeOf (line : Text) : Text := (Text.beforeComment ['#'] line.trim).trim

/-- The line carries dialogue. -/
def isDialogueLine (line : Text) : Bool :=
  let t := codeOf line
  let opensSay := beginsAsSay t
  if t.isEmpty then false
  else if Text.beginsWithKeyword keywords t && !opensSay then false
  else if isAssignment t then false
  else if endsWithAsset t || hasAssetPath t then false
  else if Text.hasKeyword keywords (t.without Quoted.literal?) && !opensSay then false
  else if isAttributeDialogue t || isWholeString t || isSay t then true
  else
    match Text.find? doubleQuoted? t with
    | some (_, literal, _) =>
      let text := (Quoted.inner literal).trim
      !text.isEmpty && !text.all fun c => c == '.' || isBlank c
    | none => hasBraceTag t && t.any isDialogueChar

/-- The literals of a line that stand before its comment, with their ordinals. -/
def literalsOf (line : Text) : List (Text × Nat) :=
  let codeLength := (Text.beforeComment ['#'] line).length
  ((line.spans Quoted.literal?).zipIdx.takeWhile fun ((start, _, _), _) => start < codeLength).map
    fun ((_, _, literal), n) => (literal, n)

/-- The texts of a line of dialogue with their addresses. -/
def lineUnits (line : Text) (number : Nat) : List (Text × LiteralAddress) :=
  if isDialogueLine line then
    (literalsOf line).map fun (literal, n) =>
      (Quoted.inner literal, { line := number, ordinal := n, quote := literal.take 1 })
  else []

/-- The texts of a script with their addresses. -/
def extract (source : Text) : List (Text × LiteralAddress) :=
  (Script.numbered source).flatMap fun (line, number) => lineUnits line number

/-- Writes a text into the literal at an address. -/
def writeLiteral (a : LiteralAddress) (text : Text) (line : Text) : Text :=
  line.mapNthToken Quoted.literal? a.ordinal fun _ _ =>
    a.quote ++ Quoted.escape a.quote text ++ a.quote

/-- Writes edited texts back at their addresses, in order. -/
def reinsert (source : Text) (mapping : List LiteralAddress) (edits : Edits) : Text :=
  Text.ofLines <| mapping.zipIdx.foldl
    (fun ls (a, i) => Script.editLineAt (writeLiteral a (edits.at i)) a.line ls) source.lines

end Renpy

end GameText
