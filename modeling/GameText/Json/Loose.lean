import GameText.Json.Order
import GameText.Text.Quoted

/-!
# Values of any kind

What can be done with a value whose kind is not known: a number of things can be compared with it,
it can be taken as a place among them, taken apart, or written as text. Each answer is the value's
own, or the misfit of a value that is of no use there.
-/

namespace GameText

namespace Json

/-- A value that must be a text. -/
def needText : Json → Except Misfit Text
  | .str s => .ok s
  | _ => .error .wrongKind

/-- The integer that a value is as an index, a truth value as zero or one. -/
def integer? : Json → Option Int
  | .num (.int i) => some i
  | .bool b => some (if b then 1 else 0)
  | _ => none

/-- The number that a value is equal to as an ordinal. -/
def ordinal? : Json → Option Int
  | .num n => n.toInt?
  | v => v.integer?

/-- The value lies below a number of things. Only numbers and truth values can be compared. -/
def isBelow (length : Nat) : Json → Except Misfit Bool
  | .num n => .ok (n.lt (.int length))
  | .bool b => .ok ((if b then 1 else 0) < length)
  | _ => .error .wrongKind

/-- The value lies below zero. -/
def isNegative (v : Json) : Except Misfit Bool := v.isBelow 0

/-- The place that a value names in a row of `length` things. Only integers and truth values are
places, and they may count from the end. -/
def place (length : Nat) (v : Json) : Except Misfit Nat :=
  match v.integer? with
  | none => .error .wrongKind
  | some i =>
    match index? length i with
    | some k => .ok k
    | none => .error .outside

/-- The step that a value is, if it can be one. -/
def asStep? : Json → Option Step
  | .str s => some (.key s)
  | v => v.integer?.map .index

/-- The things that a value is made of: elements, keys or characters. -/
def parts : Json → Except Misfit (List Json)
  | .arr items => .ok items
  | .str s => .ok (s.map fun c => .str [c])
  | .obj members => .ok (members.map fun (k, _) => .str k)
  | _ => .error .wrongKind

/-- The value can be part of a key: it holds nothing that can change. -/
def isKeyPart : Json → Bool
  | .arr _ => false
  | .obj _ => false
  | _ => true

/-- The path that a row of values stands for. A value that is no key and equals no integer leads
nowhere. -/
def path (steps : List Json) : Except Misfit (Option Path) :=
  if steps.all isKeyPart then
    .ok <| steps.mapM fun
      | .str k => some (.key k)
      | v => v.ordinal?.map .index
  else .error .wrongKind

/-- A text stands in a value: as a part of a text, as an element, or as a key. -/
def contains (part : Text) : Json → Except Misfit Bool
  | .str s => .ok (Text.occursIn part s)
  | .arr items => .ok (items.any fun v => v.text? == some part)
  | .obj members => .ok (members.any fun (k, _) => k == part)
  | _ => .error .wrongKind

/-- Writes a row of texts for the inside of a literal as `Quoted.escape` does with the characters of
a text. An escape sequence cannot be taken out of a row. -/
def escapeRow (quote : Text) : List Text → Except Misfit Text
  | [] => .ok []
  | c :: cs => do
    if c = ['\\'] then
      if cs.head?.any fun next => !Text.occursIn next ['\r', '\n'] then throw .wrongKind
      return '\\' :: '\\' :: (← escapeRow quote cs)
    else if c = quote then return '\\' :: quote ++ (← escapeRow quote cs)
    else if c = ['\r'] then
      let rest := if cs.head? = some ['\n'] then cs.drop 1 else cs
      return '\\' :: 'n' :: (← escapeRow quote rest)
    else if c = ['\n'] then return '\\' :: 'n' :: (← escapeRow quote cs)
    else return c ++ (← escapeRow quote cs)
termination_by row => row.length
decreasing_by
  all_goals simp only [List.length_cons]
  all_goals (try split) <;> (try simp only [List.length_drop]) <;> omega

/-- Writes a value for the inside of a literal. A row of texts counts as a text; an object has no
first character. -/
def escape (quote : Text) : Json → Except Misfit Text
  | .str s => .ok (Quoted.escape quote s)
  | .arr items => do escapeRow quote (← items.mapM needText)
  | .obj [] => .ok []
  | .obj _ => .error .noSuchKey
  | _ => .error .wrongKind

end Json

end GameText
