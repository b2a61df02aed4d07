import GameText.Number.Rounding

/-!
# Binary floating point numbers with 53 significant bits

A finite number is a sign and `significand * 2 ^ exponent`, in the one form where the significand
lies below `2 ^ 53` and the exponent is as small as that allows, but not below -1074. Every
operation computes the exact quotient and rounds it once, to nearest with ties to even, so an
operation's result is fixed by its real value alone.
-/

namespace GameText

/-- A binary floating point number. -/
inductive Binary64 where
  | nan
  | infinite (negative : Bool)
  | finite (negative : Bool) (significand : Nat) (exponent : Int)
deriving DecidableEq, Repr

namespace Binary64

/-- The least exponent of a finite number. -/
def minExponent : Int := -1074

/-- The greatest exponent of a finite number. -/
def maxExponent : Int := 971

/-- A zero with a sign. -/
def zero (negative : Bool) : Binary64 := .finite negative 0 minExponent

/-- Numerator and denominator of `num / den * 2 ^ (-shift)`. -/
def shifted (num den : Nat) (shift : Int) : Nat × Nat :=
  if 0 ≤ shift then (num, den * Nat.pow 2 shift.toNat) else (num * Nat.pow 2 (-shift).toNat, den)

/-- The number nearest to `num / den` with the given sign, for a denominator that is not zero. -/
def ofRatio (negative : Bool) (num den : Nat) : Binary64 :=
  if num = 0 then zero negative
  else
    let low : Int := (Nat.log2 num : Int) - (Nat.log2 den : Int) - 53
    let guess := shifted num den low
    let exponent := max minExponent (if guess.1 / guess.2 < Nat.pow 2 53 then low else low + 1)
    let exact := shifted num den exponent
    let rounded := roundHalfEven exact.1 exact.2
    let (significand, exponent) :=
      if rounded = Nat.pow 2 53 then (Nat.pow 2 52, exponent + 1) else (rounded, exponent)
    if maxExponent < exponent then .infinite negative else .finite negative significand exponent

/-- The number nearest to an integer. -/
def ofInt (n : Int) : Binary64 := ofRatio (n < 0) n.natAbs 1

/-- The number nearest to `digits * 10 ^ scale`. Numbers far outside the range are not computed. -/
def ofDecimal (negative : Bool) (digits : Nat) (scale : Int) : Binary64 :=
  if digits = 0 then zero negative
  else if 400 < scale + decimalLength digits then .infinite negative
  else if scale + decimalLength digits < -400 then zero negative
  else if 0 ≤ scale then ofRatio negative (digits * Nat.pow 10 scale.toNat) 1
  else ofRatio negative digits (Nat.pow 10 (-scale).toNat)

/-- Numerator and denominator of the size of `significand * 2 ^ exponent`. -/
def ratio (significand : Nat) (exponent : Int) : Nat × Nat := shifted significand 1 (-exponent)

/-- The size of a finite number with its sign, as a numerator over `2 ^ 1074`. -/
def scaled (negative : Bool) (significand : Nat) (exponent : Int) : Int :=
  let size : Int := significand * Nat.pow 2 (exponent - minExponent).toNat
  if negative then -size else size

/-- The number nearest to `n / 2 ^ 1074`, a zero being given the sign asked for. -/
def ofScaled (zeroNegative : Bool) (n : Int) : Binary64 :=
  if n = 0 then zero zeroNegative else ofRatio (n < 0) n.natAbs (Nat.pow 2 (-minExponent).toNat)

/-- The number with the opposite sign. -/
def neg : Binary64 → Binary64
  | .nan => .nan
  | .infinite s => .infinite (!s)
  | .finite s m e => .finite (!s) m e

/-- The rounded sum. -/
def add : Binary64 → Binary64 → Binary64
  | .nan, _ => .nan
  | _, .nan => .nan
  | .infinite s, .infinite t => if s = t then .infinite s else .nan
  | .infinite s, .finite .. => .infinite s
  | .finite .., .infinite t => .infinite t
  | .finite s m e, .finite t n f => ofScaled (s && t) (scaled s m e + scaled t n f)

/-- The rounded difference. -/
def sub (x y : Binary64) : Binary64 := add x (neg y)

/-- The rounded product. -/
def mul : Binary64 → Binary64 → Binary64
  | .nan, _ => .nan
  | _, .nan => .nan
  | .infinite s, .infinite t => .infinite (s != t)
  | .infinite s, .finite t m _ => if m = 0 then .nan else .infinite (s != t)
  | .finite s m _, .infinite t => if m = 0 then .nan else .infinite (s != t)
  | .finite s m e, .finite t n f =>
    let (a, b) := ratio m e
    let (c, d) := ratio n f
    ofRatio (s != t) (a * c) (b * d)

/-- The rounded quotient; a zero divisor gives no number. -/
def div : Binary64 → Binary64 → Binary64
  | .nan, _ => .nan
  | _, .nan => .nan
  | .infinite _, .infinite _ => .nan
  | .infinite s, .finite t _ _ => .infinite (s != t)
  | .finite s _ _, .infinite t => zero (s != t)
  | .finite s m e, .finite t n f =>
    if n = 0 then .nan
    else
      let (a, b) := ratio m e
      let (c, d) := ratio n f
      ofRatio (s != t) (a * d) (b * c)

/-- The first number lies below the second. -/
def lt : Binary64 → Binary64 → Bool
  | .nan, _ => false
  | _, .nan => false
  | .infinite s, .infinite t => s && !t
  | .infinite s, .finite .. => s
  | .finite .., .infinite t => !t
  | .finite s m e, .finite t n f => scaled s m e < scaled t n f

/-- An integer in units of `2 ^ -1074`. -/
def scaledInt (n : Int) : Int := n * Nat.pow 2 (-minExponent).toNat

/-- An integer lies below a number. -/
def intLt (n : Int) : Binary64 → Bool
  | .nan => false
  | .infinite s => !s
  | .finite s m e => scaledInt n < scaled s m e

/-- A number lies below an integer. -/
def ltInt : Binary64 → Int → Bool
  | .nan, _ => false
  | .infinite s, _ => s
  | .finite s m e, n => scaled s m e < scaledInt n

/-- Two numbers have the same value; zeros of either sign do. -/
def same : Binary64 → Binary64 → Bool
  | .nan, _ => false
  | _, .nan => false
  | .infinite s, .infinite t => s == t
  | .infinite _, .finite .. => false
  | .finite .., .infinite _ => false
  | .finite s m e, .finite t n f => scaled s m e == scaled t n f

/-- The integer that the number is, if it is one. -/
def toInt? : Binary64 → Option Int
  | .finite s m e =>
    let (a, b) := ratio m e
    if a % b = 0 then some (if s then -(a / b : Nat) else (a / b : Nat)) else none
  | _ => none

end Binary64

end GameText
