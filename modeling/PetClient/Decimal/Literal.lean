import PetClient.Decimal.Binary64

/-!
Number literals: whole digits, fraction digits and a power of ten.  A literal without fraction and
exponent that fits 64 bits is an integer; every other one is a floating-point value.
-/

namespace PetClient.Decimal

inductive Number
  | integer (value : Int)
  | float (value : Binary64)
  deriving DecidableEq, Repr

structure Literal where
  negative : Bool
  whole : List Nat
  fraction : List Nat := []
  power : Option (Bool × List Nat) := none
  deriving DecidableEq, Repr

def natOfDigits (digits : List Nat) : Nat :=
  digits.foldl (fun n d => n * 10 + d) 0

/-- Adds digits to a number as long as it stays below a bound, and counts those that were added. -/
def absorb (bound : Nat) (n : Nat) : List Nat → Nat × Nat
  | [] => (n, 0)
  | d :: rest =>
    if n * 10 + d < bound then
      let (total, count) := absorb bound (n * 10 + d) rest
      (total, count + 1)
    else (n, 0)

namespace Literal

def wordBound : Nat := UInt64.size

def powerBound : Nat := 0x80000000

def powerValue (l : Literal) : Int :=
  match l.power with
  | none => 0
  | some (false, digits) => natOfDigits digits
  | some (true, digits) => - (natOfDigits digits : Int)

/-- How many digits of the power of ten stand behind the one that made it too large. -/
def powerSurplus (l : Literal) : Nat :=
  match l.power with
  | none => 0
  | some (_, digits) => digits.length - (absorb powerBound 0 digits).2 - 1

def maxPower : Nat := 308

def powerOfTen (power : Nat) : Option Binary64 :=
  Binary64.ofNat (Nat.pow 10 power)

def shrink (x : Binary64) : Nat → Option Binary64
  | 0 => some x
  | steps + 1 =>
    if x.isZero then some x
    else ((powerOfTen maxPower).bind x.div).bind fun y => shrink y steps

/-- `x * 10 ^ power`, rounded once for each factor of at most `10 ^ 308`; nothing when it is too
large. -/
def scale (x : Binary64) (power : Int) : Option Binary64 :=
  if power < 0 then
    let places := (-power).toNat
    let steps := (places - 1) / maxPower
    (shrink x steps).bind fun y => (powerOfTen (places - maxPower * steps)).bind y.div
  else if x.isZero then some x
  else if power ≤ maxPower then (powerOfTen power.toNat).bind x.mul
  else none

def signed (negative : Bool) (x : Binary64) : Binary64 :=
  if negative then x.negate else x

/-- The number that a literal stands for, or nothing when it is too large.  Digits that no longer
fit a word count as zeros. -/
def toNumber (l : Literal) : Option Number :=
  let (whole, taken) := absorb wordBound 0 l.whole
  let dropped := l.whole.length - taken
  let isWhole := l.fraction.isEmpty && l.power.isNone && dropped = 0
  if isWhole && !l.negative then some (.integer whole)
  else if isWhole && 0 < whole && whole ≤ 0x8000000000000000 then some (.integer (-whole))
  else
    let (significand, places) := absorb wordBound whole l.fraction
    match Binary64.ofNat significand with
    | none => none
    | some x =>
      (scale x (dropped - places + l.powerValue)).map fun y => .float (signed l.negative y)

end Literal

end PetClient.Decimal
