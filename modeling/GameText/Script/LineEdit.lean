import GameText.Mapping
import GameText.Text.Lines

/-!
# Editing the lines of a script

Scripts are edited line by line. An edit is a function of one line's body; the terminators stay as
they are, and an edit of a line that is not there changes nothing.
-/

namespace GameText

namespace Script

/-- Changes the body of the line with a number. -/
def editLine (f : Text → Text) : Nat → List Line → List Line
  | _, [] => []
  | 0, l :: ls => { l with body := f l.body } :: ls
  | n + 1, l :: ls => l :: editLine f n ls

/-- Changes the body of the line with a number that may lie outside. -/
def editLineAt (f : Text → Text) (number : Int) (ls : List Line) : List Line :=
  if number < 0 then ls else editLine f number.toNat ls

/-- The bodies of a text's lines with their numbers. -/
def numbered (source : Text) : List (Text × Nat) := (source.lines.map Line.body).zipIdx

end Script

end GameText
