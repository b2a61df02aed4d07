import GameText.Number.Shortest

/-!
# Numbers of documents and clocks

A number is an integer of any size or a binary floating point number, and the two stay apart: `1`
and `1.0` are equal but are written differently. A sum or difference of integers is an integer;
as soon as one side is a floating point number, so is the result.
-/

namespace GameText

/-- An integer or a floating point number. -/
inductive Number where
  | int (n : Int)
  | float (x : Binary64)
deriving DecidableEq, Repr

namespace Number

/-- The nearest floating point number. -/
def toFloat : Number → Binary64
  | .int n => .ofInt n
  | .float x => x

/-- The sum. -/
def add : Number → Number → Number
  | .int a, .int b => .int (a + b)
  | a, b => .float (a.toFloat.add b.toFloat)

/-- The difference. -/
def sub : Number → Number → Number
  | .int a, .int b => .int (a - b)
  | a, b => .float (a.toFloat.sub b.toFloat)

/-- The product. -/
def mul : Number → Number → Number
  | .int a, .int b => .int (a * b)
  | a, b => .float (a.toFloat.mul b.toFloat)

/-- The quotient as a floating point number. -/
def div (a b : Number) : Binary64 := a.toFloat.div b.toFloat

/-- The first number lies below the second, whatever their kinds. -/
def lt : Number → Number → Bool
  | .int a, .int b => a < b
  | .int a, .float y => Binary64.intLt a y
  | .float x, .int b => x.ltInt b
  | .float x, .float y => x.lt y

/-- The number is zero. -/
def isZero : Number → Bool
  | .int n => n == 0
  | .float x => x.same (.zero false)

/-- The two numbers are equal, whatever their kinds. -/
def same : Number → Number → Bool
  | .int a, .int b => a == b
  | .int a, .float y => y.toInt? == some a
  | .float x, .int b => x.toInt? == some b
  | .float x, .float y => x.same y

/-- The integer that the number is equal to, if there is one. -/
def toInt? : Number → Option Int
  | .int n => some n
  | .float x => x.toInt?

end Number

end GameText
