import GameText.Number.Binary64
import GameText.Text.Basic

/-!
# Decimal texts of binary numbers

The shortest text is the one with the fewest digits that reads back as the number, and of those
the nearest to it. A fixed text rounds the exact value to a number of decimal places, ties to even.
-/

namespace GameText

namespace Binary64

/-- A decimal with `digits` significant digits next to `num / den`, where the number of digits
before the point is `point`: the lower neighbour, or the upper one. -/
def neighbour (num den : Nat) (digits : Nat) (point : Int) (upper : Bool) : Nat × Int :=
  let scale : Int := point - digits
  let exact :=
    if 0 ≤ scale then (num, den * Nat.pow 10 scale.toNat) else (num * Nat.pow 10 (-scale).toNat, den)
  (exact.1 / exact.2 + (if upper then 1 else 0), scale)

/-- How far `digits * 10 ^ scale` lies from `num / den`, as a numerator over a denominator that
depends only on `den` and `scale`. -/
def distance (num den digits : Nat) (scale : Int) : Nat :=
  let a : Int := if 0 ≤ scale then digits * Nat.pow 10 scale.toNat * den else digits * den
  let b : Int := if 0 ≤ scale then num else num * Nat.pow 10 (-scale).toNat
  (a - b).natAbs

/-- The number of digits before the decimal point of `num / den`, for a positive quotient. It is
zero or less when zeros follow the point. -/
def pointOf (num den : Nat) : Int :=
  if den ≤ num then (decimalLength (num / den) : Int)
  else
    let k := decimalLength den - decimalLength num
    if den ≤ num * Nat.pow 10 k then 1 - (k : Int) else -(k : Int)

/-- The shortest decimal that reads back as the number, tried from `tried + 1` digits on. -/
def shortestFrom (x : Binary64) (num den : Nat) (point : Int) : Nat → Nat → Nat × Int
  | 0, tried => neighbour num den (tried + 1) point false
  | more + 1, tried =>
    let low := neighbour num den (tried + 1) point false
    let high := neighbour num den (tried + 1) point true
    let lowReads := ofDecimal false low.1 low.2 == x
    let highReads := ofDecimal false high.1 high.2 == x
    if lowReads && highReads then
      let a := distance num den low.1 low.2
      let b := distance num den high.1 high.2
      if a < b || (a == b && low.1 % 2 == 0) then low else high
    else if lowReads then low
    else if highReads then high
    else shortestFrom x num den point more (tried + 1)

/-- Digits without trailing zeros, with the exponent they need. -/
def stripZeros : Nat → Nat → Int → Nat × Int
  | 0, digits, scale => (digits, scale)
  | fuel + 1, digits, scale =>
    if digits ≠ 0 ∧ digits % 10 = 0 then stripZeros fuel (digits / 10) (scale + 1)
    else (digits, scale)

/-- The shortest digits and their exponent of ten for a positive finite number. -/
def shortestDecimal (significand : Nat) (exponent : Int) : Nat × Int :=
  let (num, den) := ratio significand exponent
  let found :=
    shortestFrom (.finite false significand exponent) num den (pointOf num den) 17 0
  stripZeros 20 found.1 found.2

/-- Zeros in front of digits, up to a width. -/
def padZeros (width : Nat) (digits : Text) : Text :=
  List.replicate (width - digits.length) '0' ++ digits

/-- Lays out digits: positional for points from -3 to 16, with an exponent of at least two digits
otherwise. A whole number keeps one zero after the point. -/
def layout (digits : Text) (point : Int) : Text :=
  if -3 ≤ point ∧ point ≤ 16 then
    if point ≤ 0 then '0' :: '.' :: List.replicate (-point).toNat '0' ++ digits
    else if digits.length ≤ point.toNat then
      digits ++ List.replicate (point.toNat - digits.length) '0' ++ ['.', '0']
    else digits.take point.toNat ++ '.' :: digits.drop point.toNat
  else
    let power := point - 1
    let mantissa := match digits with
      | [] => []
      | [d] => [d]
      | d :: ds => d :: '.' :: ds
    mantissa ++ ['e', if power < 0 then '-' else '+'] ++ padZeros 2 (Text.ofNat power.natAbs)

/-- The shortest text of a finite number. -/
def finiteText (negative : Bool) (significand : Nat) (exponent : Int) : Text :=
  (if negative then ['-'] else []) ++
    if significand = 0 then ['0', '.', '0']
    else
      let (digits, scale) := shortestDecimal significand exponent
      let text := Text.ofNat digits
      layout text (scale + text.length)

/-- Rounds `num / den` to a number of decimal places and writes it. -/
def fixedRatio (places num den : Nat) : Text :=
  let digits := padZeros (places + 1) (Text.ofNat (roundHalfEven (num * Nat.pow 10 places) den))
  let whole := digits.take (digits.length - places)
  if places = 0 then whole else whole ++ '.' :: digits.drop (digits.length - places)

/-- The text of a number with a fixed number of decimal places. -/
def fixedText (places : Nat) : Binary64 → Text
  | .nan => "nan"
  | .infinite negative => if negative then "-inf" else "inf"
  | .finite negative significand exponent =>
    let (num, den) := ratio significand exponent
    (if negative then ['-'] else []) ++ fixedRatio places num den

end Binary64

end GameText
