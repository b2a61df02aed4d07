import GameText.Error

/-!
# Equality and order of values

Values are equal by what they stand for: numbers by their value, whatever their kind, truth values
as zero and one, and objects whatever the order of their members. Only some values have an order,
so sorting can fail.
-/

namespace GameText

namespace Json

mutual

/-- Two values are equal: numbers by value, whatever their kind, and truth values as zero and
one. -/
def same : Json → Json → Bool
  | .null, .null => true
  | .str s, .str t => s == t
  | .arr xs, .arr ys => sameItems xs ys
  | .obj xs, .obj ys => xs.length == ys.length && sameMembers xs ys
  | .bool b, .bool c => b == c
  | .num m, .num n => m.same n
  | .bool b, .num n => n.same (.int (if b then 1 else 0))
  | .num n, .bool b => n.same (.int (if b then 1 else 0))
  | _, _ => false

/-- Two rows of values are equal one by one. -/
def sameItems : List Json → List Json → Bool
  | [], [] => true
  | x :: xs, y :: ys => same x y && sameItems xs ys
  | _, _ => false

/-- Every member is among others with an equal value. -/
def sameMembers : List (Text × Json) → List (Text × Json) → Bool
  | [], _ => true
  | (k, v) :: rest, others =>
    (match lookup? k others with
      | some w => same v w
      | none => false) && sameMembers rest others

end

mutual

/-- The first value comes before the second. Only numbers and truth values, strings, and arrays
have an order among their like. -/
def precedes : Json → Json → Except Misfit Bool
  | .str s, .str t => .ok (s < t)
  | .num m, .num n => .ok (m.lt n)
  | .bool b, .num n => .ok (Number.lt (.int (if b then 1 else 0)) n)
  | .num m, .bool c => .ok (m.lt (.int (if c then 1 else 0)))
  | .bool b, .bool c => .ok (!b && c)
  | .arr xs, .arr ys => precedesItems xs ys
  | _, _ => .error .wrongKind

/-- The first row of values comes before the second: at the first place where they differ, or
because it is shorter. -/
def precedesItems : List Json → List Json → Except Misfit Bool
  | [], ys => .ok (!ys.isEmpty)
  | _ :: _, [] => .ok false
  | x :: xs, y :: ys =>
    if same x y then precedesItems xs ys else precedes x y

end

/-- Puts a value into a sorted row, after those that are equal. -/
def insertSorted (v : Json) : List Json → Except Misfit (List Json)
  | [] => .ok [v]
  | w :: ws => do
    if ← precedes v w then return v :: w :: ws
    else return w :: (← insertSorted v ws)

/-- The values in order. -/
def sorted (vs : List Json) : Except Misfit (List Json) :=
  vs.foldlM (fun done v => insertSorted v done) []

end Json

end GameText
