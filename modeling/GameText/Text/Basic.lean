/-!
# Texts

A text is the list of its characters. Offsets and lengths count characters, so a position in a
text is the length of what stands before it, and cutting a text is `List.take` and `List.drop`.

This module holds what every other module does with texts: looking at the beginning, looking
inside, replacing, joining, and cutting by offsets that may be negative or too large.
-/

namespace GameText

/-- A text is its characters in order. -/
abbrev Text := List Char

instance : Coe String Text := ⟨String.toList⟩

namespace Text

/-- What follows `lead` in a text that begins with it. -/
def after? : Text → Text → Option Text
  | [], s => some s
  | _ :: _, [] => none
  | p :: ps, c :: cs => if c = p then after? ps cs else none

/-- The text begins with `lead`. -/
def startsWith (lead s : Text) : Bool := (after? lead s).isSome

/-- The text ends with `tail`. -/
def endsWith (tail s : Text) : Bool := startsWith tail.reverse s.reverse

/-- `part` stands somewhere in the text. -/
def occursIn (part : Text) : Text → Bool
  | [] => part.isEmpty
  | c :: cs => startsWith part (c :: cs) || occursIn part cs

/-- The first place of `mark`: what stands before it and what follows it. -/
def splitAt? (mark : Text) : Text → Option (Text × Text)
  | [] => if mark.isEmpty then some ([], []) else none
  | c :: cs =>
    match after? mark (c :: cs) with
    | some rest => some ([], rest)
    | none => (splitAt? mark cs).map fun (before, rest) => (c :: before, rest)

theorem length_after? {lead s rest : Text} (h : after? lead s = some rest) :
    rest.length + lead.length = s.length := by
  induction lead generalizing s with
  | nil => simp [after?] at h; simp [h]
  | cons p ps ih =>
    cases s with
    | nil => simp [after?] at h
    | cons c cs =>
      simp only [after?] at h
      split at h
      · have := ih h
        simp only [List.length_cons]
        omega
      · simp at h

/-- Every occurrence of a non-empty `old`, from left to right and without overlap, becomes `new`.
An empty `old` stands before every character and at the end. -/
def replaceAll (old new : Text) : Text → Text
  | [] => if old.isEmpty then new else []
  | c :: cs =>
    if old.isEmpty then new ++ c :: replaceAll old new cs
    else
      match _found : after? old (c :: cs) with
      | some rest => new ++ replaceAll old new rest
      | none => c :: replaceAll old new cs
termination_by s => s.length
decreasing_by
  · simp
  · have := length_after? _found
    have : old.length ≠ 0 := by
      intro h0
      simp_all
    simp only [List.length_cons] at *
    omega
  · simp

/-- The parts with `separator` between each two. -/
def join (separator : Text) (parts : List Text) : Text := List.intercalate separator parts

/-- The decimal digits of a natural number. -/
def ofNat (n : Nat) : Text := Nat.toDigits 10 n

/-- The decimal digits of an integer after its sign. -/
def ofInt : Int → Text
  | .ofNat n => ofNat n
  | .negSucc n => '-' :: ofNat (n + 1)

/-- The place that an offset names in a row of `length` things: counted from the end if negative,
and never outside. -/
def clampOffset (length : Nat) (offset : Int) : Nat :=
  if offset < 0 then (offset + length).toNat else min offset.toNat length

/-- The characters before an offset. -/
def upTo (s : Text) (offset : Int) : Text := s.take (clampOffset s.length offset)

/-- The characters from an offset on. -/
def since (s : Text) (offset : Int) : Text := s.drop (clampOffset s.length offset)

/-- The characters from `start` up to `stop`. -/
def slice (s : Text) (start stop : Int) : Text :=
  (s.take (clampOffset s.length stop)).drop (clampOffset s.length start)

end Text

/-- The place that an index names in a row of `length` things, counted from the end if negative. -/
def index? (length : Nat) (i : Int) : Option Nat :=
  if 0 ≤ i then (if i.toNat < length then some i.toNat else none)
  else if 0 ≤ i + length then some (i + length).toNat else none

end GameText
