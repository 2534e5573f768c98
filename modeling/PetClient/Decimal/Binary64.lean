/-!
Binary floating point with 53 significant bits, computed exactly on natural numbers.  A quotient of
two natural numbers is rounded to the nearest representable value, a tie to the even one.
-/

namespace PetClient.Decimal

/-- The value `± significand * 2 ^ exponent`.  Zero keeps its sign. -/
structure Binary64 where
  negative : Bool
  significand : Nat
  exponent : Int
  deriving DecidableEq, Repr

namespace Binary64

def minExponent : Int := -1074

def maxExponent : Int := 971

def leastFull : Nat := 0x10000000000000

def zero : Binary64 := ⟨false, 0, minExponent⟩

def negate (x : Binary64) : Binary64 :=
  { x with negative := !x.negative }

def isZero (x : Binary64) : Bool :=
  x.significand = 0

def scaled (numerator denominator : Nat) (exponent : Int) : Nat × Nat :=
  if 0 ≤ exponent then (numerator, denominator * Nat.pow 2 exponent.toNat)
  else (numerator * Nat.pow 2 (-exponent).toNat, denominator)

def roundHalfEven (numerator denominator : Nat) : Nat :=
  let quotient := numerator / denominator
  let twice := 2 * (numerator % denominator)
  if denominator < twice || (twice = denominator && quotient % 2 = 1) then quotient + 1
  else quotient

/-- The exponent at which a positive quotient has 53 bits before the point, or the smallest one. -/
def exponentOf (numerator denominator : Nat) : Int :=
  let guess := max (numerator.log2 - denominator.log2 - 53 : Int) minExponent
  let (n, d) := scaled numerator denominator guess
  if n / d < 2 * leastFull then guess else guess + 1

def ofRatio (numerator denominator : Nat) : Option Binary64 :=
  if numerator = 0 then some zero
  else
    let exponent := exponentOf numerator denominator
    let (n, d) := scaled numerator denominator exponent
    let rounded := roundHalfEven n d
    let (significand, exponent) :=
      if rounded = 2 * leastFull then (leastFull, exponent + 1) else (rounded, exponent)
    if maxExponent < exponent then none else some ⟨false, significand, exponent⟩

def ofNat (n : Nat) : Option Binary64 :=
  ofRatio n 1

def mul (x y : Binary64) : Option Binary64 :=
  let exponent := x.exponent + y.exponent
  if 0 ≤ exponent then ofRatio (x.significand * y.significand * Nat.pow 2 exponent.toNat) 1
  else ofRatio (x.significand * y.significand) (Nat.pow 2 (-exponent).toNat)

def div (x y : Binary64) : Option Binary64 :=
  let exponent := x.exponent - y.exponent
  if 0 ≤ exponent then ofRatio (x.significand * Nat.pow 2 exponent.toNat) y.significand
  else ofRatio x.significand (y.significand * Nat.pow 2 (-exponent).toNat)

end Binary64

end PetClient.Decimal
