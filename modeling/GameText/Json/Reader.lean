import GameText.Json.Token
import GameText.Json.Tree

/-!
# Reading JSON

A JSON text is read into the tree that keeps every character, or refused at the first place where
it goes wrong.
-/

namespace GameText

namespace Json

/-- The blanks of JSON. -/
def isSpace (c : Char) : Bool := c == ' ' || c == '\t' || c == '\n' || c == '\r'

/-- Blanks at the beginning of a text, and what follows them. -/
def spaces (s : Text) : Text × Text := (s.takeWhile isSpace, s.dropWhile isSpace)

/-- The greatest number of digits of an integer that is read. -/
def maxDigits : Nat := 4300

/-- Reads a number or a word. -/
def readScalar (s : Text) : Except Refusal (Node × Text) :=
  match readWord s with
  | some ((word, value), rest) => .ok (.scalar word value, rest)
  | none =>
    match readNumber s with
    | some (token, rest) =>
      if token.isInteger && maxDigits < token.whole.length then
        .error ⟨.longInteger token.whole.length, s⟩
      else .ok (.scalar token.raw (.num token.value), rest)
    | none => .error ⟨.noValue, s⟩

mutual

/-- Reads a value that begins here. The first argument bounds the depth of the recursion and is
never used up if it exceeds the length of the text. -/
def readNode : Nat → Text → Except Refusal (Node × Text)
  | 0, s => .error ⟨.noValue, s⟩
  | fuel + 1, s =>
    match s with
    | '"' :: cs => do
      let (token, rest) ← readString s cs
      return (.string token.raw token.text, rest)
    | '[' :: cs =>
      let (blanks, inside) := spaces cs
      match inside with
      | ']' :: rest => .ok (.array blanks .nil, rest)
      | _ => do
        let (items, rest) ← readElements fuel blanks inside
        return (.array [] items, rest)
    | '\x7b' :: cs =>
      let (blanks, inside) := spaces cs
      match inside with
      | '\x7d' :: rest => .ok (.object blanks .nil, rest)
      | _ => do
        let (members, rest) ← readMembers fuel blanks inside
        return (.object [] members, rest)
    | _ => readScalar s

/-- Reads the elements of an array from one on, up to and with the closing bracket. -/
def readElements : Nat → Text → Text → Except Refusal (Elements × Text)
  | 0, _, s => .error ⟨.noValue, s⟩
  | fuel + 1, before, s => do
    let (node, rest) ← readNode fuel s
    let (after, rest) := spaces rest
    match rest with
    | ']' :: rest => return (.cons before node after .nil, rest)
    | ',' :: rest =>
      let (blanks, rest) := spaces rest
      let (items, rest) ← readElements fuel blanks rest
      return (.cons before node after items, rest)
    | _ => .error ⟨.noComma, rest⟩

/-- Reads the members of an object from one on, up to and with the closing brace. -/
def readMembers : Nat → Text → Text → Except Refusal (Members × Text)
  | 0, _, s => .error ⟨.noValue, s⟩
  | fuel + 1, before, s =>
    match s with
    | '"' :: cs => do
      let (token, rest) ← readString s cs
      let (afterKey, rest) := spaces rest
      match rest with
      | ':' :: rest =>
        let (beforeValue, rest) := spaces rest
        let (node, rest) ← readNode fuel rest
        let (after, rest) := spaces rest
        match rest with
        | '\x7d' :: rest =>
          return (.cons before token.raw token.text afterKey beforeValue node after .nil, rest)
        | ',' :: rest =>
          let (blanks, rest) := spaces rest
          let (members, rest) ← readMembers fuel blanks rest
          return (.cons before token.raw token.text afterKey beforeValue node after members, rest)
        | _ => .error ⟨.noComma, rest⟩
      | _ => .error ⟨.noColon, rest⟩
    | _ => .error ⟨.noKey, s⟩

end

/-- Reads a whole JSON text. -/
def Document.read (source : Text) : Except Refusal Document :=
  match source with
  | '\uFEFF' :: _ => .error ⟨.byteOrderMark, source⟩
  | _ => do
    let (before, s) := spaces source
    let (root, rest) ← readNode (2 * source.length + 2) s
    let (after, rest) := spaces rest
    if rest.isEmpty then return ⟨before, root, after⟩
    else .error ⟨.trailingText, rest⟩

/-- The value of a JSON text. -/
def read (source : Text) : Except Refusal Json := (Document.read source).map Document.value

/-- The value of a JSON text, if it is one. -/
def read? (source : Text) : Option Json := (read source).toOption

end Json

end GameText
