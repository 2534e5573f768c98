import PetClient.Decimal.Binary64

/-!
The shortest decimal of a floating-point value: the fewest digits that read back as the value, and
of those the nearest.
-/

namespace PetClient.Decimal

/-- Digits, the most significant first, with the point before the first digit moved by `point`
places to the right. -/
structure Digits where
  digits : List Nat
  point : Int
  deriving DecidableEq, Repr

def digitsOfNat (n : Nat) : List Nat :=
  (Nat.toDigits 10 n).map fun c => c.toNat - '0'.toNat

def dropTrailingZeros (digits : List Nat) : List Nat :=
  (digits.reverse.dropWhile (· = 0)).reverse

namespace Binary64

/-- The reals that round to a positive value, as `(low, value, high, exponent)` over a common power
of two. -/
def interval (x : Binary64) : Nat × Nat × Nat × Int :=
  let m := x.significand
  if m = leastFull && minExponent < x.exponent then (4 * m - 1, 4 * m, 4 * m + 2, x.exponent - 2)
  else (4 * m - 2, 4 * m, 4 * m + 2, x.exponent - 2)

/-- The power `p` with `10 ^ (p - 1) ≤ numerator / denominator < 10 ^ p`, searched upwards. -/
def decimalPoint (numerator denominator : Nat) (fuel : Nat) (p : Int) : Int :=
  match fuel with
  | 0 => p
  | fuel + 1 =>
    let below :=
      if 0 ≤ p then numerator < denominator * Nat.pow 10 p.toNat
      else numerator * Nat.pow 10 (-p).toNat < denominator
    if below then p else decimalPoint numerator denominator fuel (p + 1)

/-- The grid point with `count` digits that reads back as the value, the nearer of the two
neighbours (a tie goes to the even one). -/
def onGrid? (x : Binary64) (point : Int) (count : Nat) : Option Nat :=
  let (low, value, high, exponent) := x.interval
  -- everything is measured in units of one common denominator
  let step : Int := point - count
  let two := if 0 ≤ exponent then Nat.pow 2 exponent.toNat else 1
  let half := if 0 ≤ exponent then 1 else Nat.pow 2 (-exponent).toNat
  let ten := if 0 ≤ step then Nat.pow 10 step.toNat else 1
  let tenth := if 0 ≤ step then 1 else Nat.pow 10 (-step).toNat
  let unit := ten * half
  let low := low * two * tenth
  let value := value * two * tenth
  let high := high * two * tenth
  let closed := x.significand % 2 = 0
  let inside (n : Nat) : Bool :=
    0 < n && (low < n * unit || (closed && low = n * unit)) &&
      (n * unit < high || (closed && n * unit = high))
  let below := value / unit
  let above := below + 1
  let toBelow := value - below * unit
  let toAbove := above * unit - value
  let preferBelow := toBelow < toAbove || (toBelow = toAbove && below % 2 = 0)
  if inside below && (preferBelow || !inside above) then some below
  else if inside above then some above
  else none

def shortest (x : Binary64) : Digits :=
  if x.significand = 0 then ⟨[0], 1⟩
  else
    let numerator :=
      if 0 ≤ x.exponent then x.significand * Nat.pow 2 x.exponent.toNat else x.significand
    let denominator := if 0 ≤ x.exponent then 1 else Nat.pow 2 (-x.exponent).toNat
    -- the binary logarithm gives the power of ten within one from below
    let start : Int := ((numerator.log2 - denominator.log2 - 1 : Int) * 30103).fdiv 100000 - 1
    let point := decimalPoint numerator denominator 8 start
    match ((List.range 18).drop 1).findSome? fun count =>
        (x.onGrid? point count).map fun n => (count, n) with
    | none => ⟨[0], 1⟩
    | some (count, n) =>
      -- a point rounded up may have reached the next power of ten
      let digits := digitsOfNat n
      ⟨dropTrailingZeros digits, point + digits.length - count⟩

end Binary64

end PetClient.Decimal
