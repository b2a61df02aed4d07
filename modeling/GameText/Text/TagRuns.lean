import GameText.Text.Blank
import GameText.Text.Scan

/-!
# Tag runs at the ends of a line

A tag is a bracketed word such as `[wait]`. The runs of tags and blanks at the two ends of a line
are set apart from what lies between, and the three parts together are the line.
-/

namespace GameText

namespace Tag

/-- Reads the rest of a tag after its opening bracket: its inside, and what follows the bracket
that closes it. -/
def close? : Text → Option (Text × Text)
  | [] => none
  | c :: cs =>
    if c = ']' then some ([], cs) else (close? cs).map fun (inside, rest) => (c :: inside, rest)

/-- Recognises a tag; the answer is its inside. -/
def tag? : Recognizer Text
  | _, '[' :: cs => close? cs
  | _, _ => none

theorem length_close? {s inside rest : Text} (h : close? s = some (inside, rest)) :
    rest.length < s.length := by
  induction s generalizing inside with
  | nil => simp [close?] at h
  | cons c cs ih =>
    simp only [close?] at h
    split at h
    · simp only [Option.some.injEq, Prod.mk.injEq] at h
      simp [← h.2]
    · simp only [Option.map_eq_some_iff, Prod.mk.injEq] at h
      obtain ⟨_, h1, _, rfl⟩ := h
      have := ih h1
      simp only [List.length_cons]
      omega

/-- What follows the longest run of tags and blanks at the beginning of a text. -/
def afterRun : Text → Text
  | [] => []
  | c :: cs =>
    if isBlank c then afterRun cs
    else if c = '[' then
      match _closed : close? cs with
      | some (_, rest) => afterRun rest
      | none => c :: cs
    else c :: cs
termination_by s => s.length
decreasing_by
  · simp
  · have := length_close? _closed
    simp only [List.length_cons]
    omega

end Tag

/-- A line in three parts. -/
structure TagRuns where
  lead : Text
  center : Text
  tail : Text
deriving Repr, DecidableEq

namespace TagRuns

/-- The part of a text before its trailing run of tags and blanks. -/
def beforeTrailing : Text → Text
  | [] => []
  | c :: cs => if (Tag.afterRun (c :: cs)).isEmpty then [] else c :: beforeTrailing cs

/-- Sets the outer runs of a line apart. Blanks at the ends of the center belong to the runs. -/
def ofLine (line : Text) : TagRuns :=
  let rest := Tag.afterRun line
  let center := beforeTrailing rest
  let trimmed := center.trimStart
  { lead := consumed line rest ++ consumed center trimmed
    center := trimmed.trimEnd
    tail := trimmed.blanksAtEnd ++ rest.drop center.length }

/-- The line that the three parts make up. -/
def text (r : TagRuns) : Text := r.lead ++ r.center ++ r.tail

end TagRuns

end GameText
