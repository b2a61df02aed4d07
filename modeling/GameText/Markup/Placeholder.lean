import GameText.Markup.ControlCode
import GameText.Text.Script

/-!
# Placeholders for markup

Before a text is sent to be translated, each piece of markup in it gives way to a numbered
placeholder: control codes, tags in braces, and tags or interpolations in brackets. Afterwards the
placeholders are put back.
-/

namespace GameText

namespace Markup

/-- A character that a tag in braces begins with. -/
def isBraceTagStart (c : Char) : Bool := c.isAlpha || "_#=".toList.contains c

/-- Recognises a tag in braces. -/
def braceTag? : Recognizer Unit
  | _, '\x7b' :: cs =>
    let named := match cs with
      | '/' :: ds => ds
      | ds => ds
    match named with
    | c :: rest =>
      if isBraceTagStart c then (upTo? '\x7d' (· == '\x7b') rest).map fun (_, after) => ((), after)
      else none
    | [] => none
  | _, _ => none

/-- Recognises a tag or interpolation in brackets. -/
def bracketTag? : Recognizer Unit
  | _, '[' :: cs => (upTo? ']' (· == '[') cs).map fun (_, after) => ((), after)
  | _, _ => none

/-- Recognises markup of any kind. -/
def markup? : Recognizer Unit := fun before s =>
  controlCode? before s <|> braceTag? before s <|> bracketTag? before s

/-- The placeholder with a number. -/
def placeholder (n : Nat) : Text := "«CODE" ++ Text.ofNat n ++ ['»']

/-- Recognises a placeholder, whatever its number. -/
def placeholder? : Recognizer Unit := fun _ s => do
  let rest ← Text.after? "«CODE" s
  if (rest.takeWhile isDigitChar).isEmpty then none
  else
    match rest.dropWhile isDigitChar with
    | '»' :: after => some ((), after)
    | _ => none

/-- Placeholders with the markup that each stands for, in order. -/
abbrev Placeholders := List (Text × Text)

/-- Puts placeholders in the place of markup, numbered from one more than `used` on. -/
def protectPieces (used : Nat) : List (Piece Unit) → Text × Placeholders
  | [] => ([], [])
  | .gap c :: ps =>
    let (text, marks) := protectPieces used ps
    (c :: text, marks)
  | .token _ raw :: ps =>
    let (text, marks) := protectPieces (used + 1) ps
    (placeholder (used + 1) ++ text, (placeholder (used + 1), raw) :: marks)

/-- Puts placeholders in the place of markup. -/
def protect (s : Text) : Text × Placeholders := protectPieces 0 (pieces markup? s)

/-- Puts markup back in the place of its placeholders, one placeholder after the other. -/
def restore (s : Text) (marks : Placeholders) : Text :=
  marks.foldl (fun s (mark, raw) => Text.replaceAll mark raw s) s

/-- The text without markup. -/
def strip (s : Text) : Text := s.without markup?

end Markup

end GameText
