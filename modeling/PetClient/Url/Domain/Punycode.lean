import PetClient.Text.Utf8

/-!
Labels of a domain name in letters, digits and hyphens alone.  The ASCII characters come first, and
behind the last hyphen the others follow as differences in a number notation of variable length.
-/

namespace PetClient.Url.Punycode

def base : Nat := 36

def initialPoint : Nat := 128

def initialBias : Nat := 72

/-- The bias after a difference, for `count` characters. -/
def adapt (difference count : Nat) (isFirst : Bool) : Nat :=
  let scaled := if isFirst then difference / 700 else difference / 2
  let total := scaled + scaled / count
  let rec reduce (fuel k total : Nat) : Nat :=
    match fuel with
    | 0 => k
    | fuel + 1 =>
      if 455 < total then reduce fuel (k + base) (total / 35) else k + 36 * total / (total + 38)
  reduce total 0 total

def threshold (place bias : Nat) : Nat :=
  if place ≤ bias then 1 else min (place - bias) 26

def digitChar (d : Nat) : Char :=
  if d < 26 then Char.ofNat ('a'.toNat + d) else Char.ofNat ('0'.toNat + (d - 26))

def digitValue? (c : Char) : Option Nat :=
  if 'a' ≤ c && c ≤ 'z' then some (c.toNat - 'a'.toNat)
  else if 'A' ≤ c && c ≤ 'Z' then some (c.toNat - 'A'.toNat)
  else if '0' ≤ c && c ≤ '9' then some (c.toNat - '0'.toNat + 26)
  else none

def encodeDifference (fuel bias place n : Nat) : List Char :=
  match fuel with
  | 0 => []
  | fuel + 1 =>
    let t := threshold place bias
    if n < t then [digitChar n]
    else digitChar (t + (n - t) % (base - t)) ::
      encodeDifference fuel bias (place + base) ((n - t) / (base - t))

structure Writing where
  difference : Nat := 0
  point : Nat := initialPoint
  bias : Nat := initialBias
  handled : Nat
  digits : List Char := []

/-- Writes one place at which the current point stands, or counts a place in front of one. -/
def Writing.visit (basic : Nat) (w : Writing) (c : Char) : Writing :=
  if c.toNat < w.point then { w with difference := w.difference + 1 }
  else if c.toNat = w.point then
    { w with
      difference := 0
      bias := adapt w.difference (w.handled + 1) (w.handled = basic)
      handled := w.handled + 1
      digits := w.digits ++ encodeDifference (w.difference + 1) w.bias base w.difference }
  else w

def Writing.visitAll (label : List Char) (basic : Nat) (w : Writing) (n : Nat) : Writing :=
  let w := { w with difference := w.difference + (n - w.point) * (w.handled + 1), point := n }
  let w := label.foldl (Writing.visit basic) w
  { w with difference := w.difference + 1, point := n + 1 }

def encode (label : List Char) : List Char :=
  let basic := label.filter fun c => c.toNat < 0x80
  let points := ((label.filter fun c => 0x80 ≤ c.toNat).map Char.toNat).mergeSort.eraseDups
  let w := points.foldl (Writing.visitAll label basic.length) { handled := basic.length }
  basic ++ (if basic.isEmpty then [] else ['-']) ++ w.digits

/-- One difference from the start of digits, added to `i`, and the digits behind it. -/
def decodeDifference (bias place weight i : Nat) : List Char → Option (Nat × List Char)
  | [] => none
  | c :: rest => do
    let d ← digitValue? c
    let i := i + d * weight
    let t := threshold place bias
    if d < t then some (i, rest)
    else decodeDifference bias (place + base) (weight * (base - t)) i rest

def decodeDigits (fuel i point bias : Nat) (label digits : List Char) : Option (List Char) :=
  match fuel, digits with
  | 0, _ => none
  | _, [] => some label
  | fuel + 1, digits => do
    let (next, rest) ← decodeDifference bias base 1 i digits
    let size := label.length + 1
    let point := point + next / size
    if 0x10FFFF < point || (0xD800 ≤ point && point ≤ 0xDFFF) then none
    else
      let position := next % size
      decodeDigits fuel (position + 1) point (adapt (next - i) size (i = 0))
        (label.take position ++ Char.ofNat point :: label.drop position) rest

def decode? (text : List Char) : Option (List Char) :=
  let digits := (text.reverse.takeWhile (· != '-')).reverse
  let front := text.take (text.length - digits.length)
  -- a hyphen at the very start separates nothing
  if front.length = 1 || !front.all fun c => c.toNat < 0x80 then none
  else decodeDigits (digits.length + 1) 0 initialPoint initialBias front.dropLast digits

end PetClient.Url.Punycode
