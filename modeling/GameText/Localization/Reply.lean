import GameText.Json.Display
import GameText.Json.Reader
import GameText.Text.Blank
import GameText.Text.Case
import GameText.Text.Scan

/-!
# Replies of a language model

A reply is cleaned of what is no target text: blocks of thinking, and notes of the translator after
it. A batch reply is a JSON object, found as it is, between fences, or inside prose.
-/

namespace GameText

namespace Reply

/-! ## Thinking and notes -/

/-- Recognises a block of thinking with the blanks after it. -/
def thinking? : Recognizer Unit := fun _ s => do
  let inside ← Text.after? "<think>" s
  let (_, rest) ← Text.splitAt? "</think>" inside
  return ((), rest.trimStart)

/-- A dash that separates notes. -/
def isDash (c : Char) : Bool := c == '-' || c == '—' || c == '–'

/-- A rule of two or more marks on lines of their own begins here. -/
def isRule (mark : Char → Bool) (s : Text) : Bool :=
  let rest := s.dropWhile mark
  2 ≤ (s.takeWhile mark).length && (rest.takeWhile isBlank).contains '\n'

/-- What begins a note of the translator. -/
def noteWords : List Text :=
  ["note", "notes", "translation note", "translator note", "translator' note", "translators note",
   "translator's note", "tl note"].map String.toList

/-- What begins a note in parentheses. -/
def bracketedNoteWords : List Text :=
  ["note", "notes", "translation note", "tl note"].map String.toList

/-- What follows the colon of a note that begins here, if one of the words does. -/
def afterNote? (words : List Text) (s : Text) : Option Text :=
  words.findSome? fun word =>
    (Text.afterFolded? word s).bind fun rest =>
      let unplural := match rest with
        | c :: cs => if foldChar c = 's' then cs else rest
        | [] => []
      match Text.trimStart unplural with
      | c :: after => if c = ':' || c = '：' then some after else none
      | [] => none

/-- Notes begin after a line break: a rule, a note, or a note in parentheses up to the end. -/
def beginsNotes (s : Text) : Bool :=
  let t := s.trimStart
  isRule isDash t || isRule (· == '*') t || (afterNote? noteWords t).isSome ||
    match t with
    | '(' :: inside =>
      match afterNote? bracketedNoteWords inside with
      | some rest => rest.trimEnd.getLast? == some ')'
      | none => false
    | _ => false

/-- The text before its notes. -/
def beforeNotes : Text → Text
  | [] => []
  | c :: cs => if c = '\n' && beginsNotes cs then [] else c :: beforeNotes cs

/-- The reply without thinking and notes. -/
def clean (s : Text) : Text := (beforeNotes (s.without thinking?).trim).trimEnd

/-! ## Batch replies -/

/-- Recognises a fence, with its language perhaps. -/
def fence? : Recognizer Unit := fun _ s =>
  (Text.after? "```" s).map fun rest => ((), (Text.after? "json" rest).getD rest)

/-- A brace of either kind. -/
def isBrace (c : Char) : Bool := c == '\x7b' || c == '\x7d'

/-- What follows the closing brace of an object whose inner objects hold no further ones. The
argument bounds the number of inner objects. -/
def closeObject? : Nat → Text → Option Text
  | 0, _ => none
  | fuel + 1, s =>
    match s.dropWhile (!isBrace ·) with
    | '\x7d' :: rest => some rest
    | '\x7b' :: inner =>
      match inner.dropWhile (!isBrace ·) with
      | '\x7d' :: rest => closeObject? fuel rest
      | _ => none
    | _ => none

/-- Recognises an object that holds inner objects at most one deep. -/
def object? : Recognizer Unit
  | _, '\x7b' :: cs => (closeObject? (cs.length + 1) cs).map fun rest => ((), rest)
  | _, _ => none

/-- The first object inside a text. -/
def embeddedObject? (s : Text) : Option Text :=
  (Text.find? object? s).map fun (before, _, after) => consumed (s.drop before.length) after

/-- The texts in which the value of a batch reply is looked for. -/
def candidates (raw : Text) : List Text :=
  [raw, (raw.without fence?).trim] ++ (embeddedObject? raw).toList

/-- Why a batch reply is of no use. -/
inductive BatchProblem where
  /-- No JSON object is found. -/
  | noObject (raw : Text)
  /-- An integer cannot be read. -/
  | unreadable (problem : Json.Problem)
  /-- None of the expected keys has a value. -/
  | noKeys (expected found : List Text)
deriving DecidableEq, Repr

/-- The value of the first of some texts that is JSON. -/
def firstValue? : List Text → Except BatchProblem (Option Json)
  | [] => .ok none
  | text :: texts =>
    match Json.read text with
    | .ok value => .ok (some value)
    | .error refusal =>
      if refusal.problem.hasPlace then firstValue? texts else .error (.unreadable refusal.problem)

/-- A list of strings as it is shown. -/
def displayList (strings : List Text) : Text := (Json.arr (strings.map .str)).display

/-- The words for a problem. -/
def BatchProblem.message : BatchProblem → Text
  | .noObject raw => "Could not parse JSON from LLM response: " ++ raw.take 200
  | .unreadable problem => problem.message
  | .noKeys expected found =>
    "No expected keys found in response. Expected " ++ displayList expected ++ ", got " ++
      displayList found

/-- The value of a key as trimmed text, if it is neither missing nor null nor blank. -/
def textOf? (members : List (Text × Json)) (key : Text) : Option Text :=
  match lookup? key members with
  | none => none
  | some .null => none
  | some v => if v.asText.trim.isEmpty then none else some v.asText.trim

/-- The texts of the expected keys of a batch reply. -/
def parseBatch (raw : Text) (keys : List Text) : Except BatchProblem (List (Text × Text)) :=
  match firstValue? (candidates raw) with
  | .error problem => .error problem
  | .ok (some (.obj members)) =>
    let found := keys.foldl (fun found key =>
      match textOf? members key with
      | some text => assign key text found
      | none => found) []
    if found.isEmpty then .error (.noKeys keys (members.map (·.1))) else .ok found
  | _ => .error (.noObject raw)

end Reply

end GameText
