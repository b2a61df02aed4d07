import GameText.Mapping
import GameText.Text.Lines
import GameText.Text.TagRuns
import GameText.Text.Keyword
import GameText.Text.Script

/-!
# Lines of KAG scenarios

A line is tried against shapes in a fixed order: an evaluation that sets a name or label, a `text=`
or `name=` attribute, an embedded expression with text behind it, a character's name tag,
quotations in Japanese marks, and a bare line. The first shape that fits decides what text the
line holds, if any.
-/

namespace GameText

namespace Kag

/-- A text with its address. -/
abbrev LineUnit := Text × TagLineAddress

/-! ## Scenario syntax that is no text -/

/-- Words of program text that are no text alone. -/
def codeWords : List Text := Text.wordList
  ["return", "break", "continue", "if", "else", "while", "for", "function", "var", "const", "let"]

/-- A character and at least one more on its line. -/
def beginsLine (c : Char) (t : Text) : Bool :=
  match t with
  | d :: e :: _ => d == c && e != '\n'
  | _ => false

/-- The trimmed text is scenario syntax: a comment, label, tag, directive or speaker mark, marks
or digits alone, or a word of program text. -/
def isSyntax (t : Text) : Bool :=
  t.head? == some ';' || beginsLine '*' t ||
    (3 ≤ t.length && t.head? == some '[' && t.getLast? == some ']' && !t.contains '\n') ||
    beginsLine '@' t ||
    (2 ≤ t.length && t.head? == some '【' && t.getLast? == some '】' && !t.contains '\n') ||
    t == "「§」".toList || t == "§".toList ||
    (!t.isEmpty && t.all fun c => "[]\x7b\x7d()".toList.contains c) ||
    (!t.isEmpty && t.all fun c => "=><+-*/".toList.contains c) ||
    t.head? == some '#' ||
    (!t.isEmpty && t.all Char.isDigit) ||
    codeWords.contains t.fold

/-- The text is scenario syntax or blank. -/
def isGarbage (s : Text) : Bool := s.trim.isEmpty || isSyntax s.trim

/-! ## Quoted values -/

/-- A value up to its closing quote on the same line, and what follows the quote. -/
def value? (quote : Char) : Text → Option (Text × Text)
  | [] => none
  | c :: cs =>
    if c = quote then some ([], cs)
    else if c = '\n' then none
    else (value? quote cs).map fun (text, rest) => (c :: text, rest)

/-- A quoted value: its quote and its text. -/
def quotedValue? (s : Text) : Option ((Char × Text) × Text) :=
  match s with
  | q :: cs =>
    if q = '"' || q = '\'' then (value? q cs).map fun (text, rest) => ((q, text), rest) else none
  | [] => none

/-- The variable name of an evaluation holds a name or a label. -/
def namesText (word : Text) : Bool :=
  Text.occursIn "name" word || Text.occursIn "label" word ||
    match Text.after? "hnam" word with
    | some [] => true
    | some [d] => isDigitChar d
    | _ => false

/-- The variable that an evaluation sets: its path, up to the equals sign. -/
def pathBeforeEquals? (s : Text) : Option (Text × Text) :=
  let scope := s.takeWhile Char.isLower
  match s.drop scope.length with
  | '.' :: cs =>
    let word := cs.takeWhile isWordChar
    match cs.dropWhile isWordChar with
    | '=' :: rest =>
      if ["sf", "f", "tf"].any (·.toList == scope) && namesText word then
        some (scope ++ '.' :: word, rest)
      else none
    | _ => none
  | _ => none

/-- An evaluation that sets a text: the path of its variable, the quote, and the text. -/
structure Evaluation where
  path : Text
  quote : Char
  text : Text

/-- What follows the beginning of an evaluation, up to its expression. -/
def afterEval? (s : Text) : Option Text :=
  (Text.after? "@eval" s).bind fun rest =>
    if rest.head?.any isBlank then Text.after? "exp=" rest.trimStart else none

/-- Recognises an evaluation that sets a text. -/
def evaluation? : Recognizer Evaluation := fun _ s => do
  let expression ← afterEval? s
  let inner := match expression with
    | c :: cs => if c = '"' || c = '\'' then cs else c :: cs
    | [] => []
  let (path, rest) ← pathBeforeEquals? inner
  let ((quote, text), rest) ← quotedValue? rest
  return (⟨path, quote, text⟩, rest)

/-- An attribute that holds text: its name, its quote and its text. -/
structure Attribute where
  name : Text
  quote : Char
  text : Text
deriving DecidableEq

/-- Recognises a `text=` or `name=` attribute with a quoted value. -/
def attribute? : Recognizer Attribute := fun before s =>
  if before.any isWordChar then none
  else
    (Text.wordList ["text", "name"]).findSome? fun name =>
      match Text.after? (name ++ ['=']) s with
      | some rest =>
        (quotedValue? rest).map fun ((quote, text), rest) => (⟨name, quote, text⟩, rest)
      | none => none

/-- Recognises an embedded expression with text behind it. -/
def embedded? : Recognizer PUnit := fun _ s => do
  let rest ← Text.after? "[emb" s
  if rest.head?.any isBlank then
    let rest ← Text.after? "exp=" rest.trimStart
    let (_, rest) ← Tag.close? rest
    match rest.trimStart with
    | c :: cs => if c = '[' then none else some ((), cs)
    | [] => none
  else none

/-- The line begins with the name tag of a character. -/
def beginsWithName (line : Text) : Bool :=
  (do
    let rest ← Text.after? "[cname" line.trimStart
    if rest.head?.any isBlank then
      let rest ← Text.after? "chara=" rest.trimStart
      Tag.close? rest
    else none).isSome

/-- Recognises a quotation in Japanese marks; the answer is its inside. -/
def quotation? : Recognizer Text
  | _, '「' :: cs => value? '」' cs
  | _, _ => none

/-! ## Tags inside prose -/

/-- Tags that break, wait and clear. -/
def controlTags : List Text := Text.wordList
  ["np", "r", "l", "p", "lr", "plc", "pcm", "cm", "er", "ct", "w"]

/-- Recognises a tag that breaks, waits or clears. -/
def controlTag? : Recognizer PUnit := fun before s =>
  match Tag.tag? before s with
  | some (inside, rest) =>
    if controlTags.contains inside.fold || (Text.afterFolded? "wait" inside).isSome then
      some ((), rest)
    else none
  | none => none

/-- The prose without tags that break, wait and clear. -/
def spoken (prose : Text) : Text := (prose.without controlTag?).trim

/-- A character that bare syntax is made of. -/
def isSyntaxChar (c : Char) : Bool := isNameChar c || "\\[]<>/=".toList.contains c

/-- Three Latin letters stand side by side. -/
def hasLatinWord : Text → Bool
  | a :: b :: c :: cs => (a.isAlpha && b.isAlpha && c.isAlpha) || hasLatinWord (b :: c :: cs)
  | _ => false

/-! ## The shapes in order -/

/-- The unit of an evaluation. -/
def evaluationUnits? (number : Int) (line : Text) : Option (List LineUnit) :=
  (Text.find? evaluation? line).map fun (_, e, _) =>
    if isGarbage e.text then []
    else
      [(e.text,
        { line := number, kind := .evalVariable, quote := [e.quote], variablePath := e.path })]

/-- The unit of an attribute. On a line of tags or directives alone only `text=` counts. -/
def attributeUnits? (number : Int) (line : Text) : Option (List LineUnit) :=
  let named := !isGarbage line
  ((line.tokens attribute?).find? fun a => named || a.name == "text".toList).map fun a =>
    if isGarbage a.text then []
    else
      [(a.text,
        { line := number, kind := .tagAttribute, quote := [a.quote], attributeName := a.name })]

/-- The unit of a line's prose between its tag runs. -/
def centerUnits (number : Int) (line : Text) (kind : TagLineKind) : List LineUnit :=
  let center := (TagRuns.ofLine line).center
  if isGarbage (spoken center) then [] else [(center, { line := number, kind })]

/-- The unit of a line with an embedded expression. -/
def embeddedUnits? (number : Int) (line : Text) : Option (List LineUnit) :=
  if Text.finds embedded? line then some (centerUnits number line .embText) else none

/-- The unit of a line that begins with a name tag. -/
def nameUnits? (number : Int) (line : Text) : Option (List LineUnit) :=
  if beginsWithName line then some (centerUnits number line .cnameDialogue) else none

/-- The units of a line's quotations. -/
def quotationUnits? (number : Int) (line : Text) : Option (List LineUnit) :=
  let insides := line.tokens quotation?
  if insides.isEmpty then none
  else
    some <| insides.zipIdx.filterMap fun (inside, n) =>
      if isGarbage inside then none
      else some (inside, { line := number, kind := .quotation, ordinal := n, quote := ['「'] })

/-- The unit of a bare line. -/
def bareUnits? (number : Int) (line : Text) : Option (List LineUnit) :=
  let t := line.trim
  let center := (TagRuns.ofLine line).center
  let said := spoken center
  if !t.isEmpty && t.all isSyntaxChar then none
  else if isGarbage said then none
  else if said.any isJapanese || hasLatinWord said then
    some [(center, { line := number, kind := .bareLine })]
  else none

/-- The units of a line, by the first shape that fits. -/
def lineUnits (number : Int) (line : Text) : List LineUnit :=
  (evaluationUnits? number line <|> attributeUnits? number line <|> embeddedUnits? number line <|>
    nameUnits? number line <|> quotationUnits? number line <|> bareUnits? number line).getD []

end Kag

end GameText
