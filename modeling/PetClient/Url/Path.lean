import PetClient.Url.Percent

/-!
Paths: the segments between slashes, without the ones that mean "here" and "one up".
-/

namespace PetClient.Url

def segments (isSeparator : Char → Bool) : List Char → List (List Char)
  | [] => [[]]
  | c :: rest =>
    if isSeparator c then [] :: segments isSeparator rest
    else
      match segments isSeparator rest with
      | [] => [[c]]
      | segment :: others => (c :: segment) :: others

/-- A segment with its encoded points written as points, if it is made of points alone. -/
def points? : List Char → Option Nat
  | [] => some 0
  | '.' :: rest => (points? rest).map (· + 1)
  | '%' :: '2' :: 'e' :: rest => (points? rest).map (· + 1)
  | '%' :: '2' :: 'E' :: rest => (points? rest).map (· + 1)
  | _ => none

def isDrive : List Char → Bool
  | [letter, sign] => letter.isAlpha && (sign = ':' || sign = '|')
  | _ => false

/-- The segments, reversed, without the last one; a drive stays. -/
def oneUp : List (List Char) → List (List Char)
  | [] => []
  | last :: before => if isDrive last then last :: before else before

/-- Adds one segment to reversed ones; one that names a place leaves an empty one at the end. -/
def addSegment (before : List (List Char)) (segment : List Char) (isLast : Bool) :
    List (List Char) :=
  let place (segments : List (List Char)) : List (List Char) :=
    if isLast then [] :: segments else segments
  match points? segment with
  | some 1 => place before
  | some 2 => place (oneUp before)
  | _ => segment :: before

def resolveFrom (before : List (List Char)) : List (List Char) → List (List Char)
  | [] => before
  | [segment] => addSegment before segment true
  | segment :: next :: rest => resolveFrom (addSegment before segment false) (next :: rest)

def resolve (segments : List (List Char)) : List (List Char) :=
  (resolveFrom [] segments).reverse

def joinSegments (segments : List (List Char)) : List Char :=
  segments.flatMap ('/' :: ·)

def pathOf (isSeparator : Char → Bool) (text : List Char) : List Char :=
  joinSegments (resolve ((segments isSeparator text).map (percentEncode encodedInPath)))

end PetClient.Url
