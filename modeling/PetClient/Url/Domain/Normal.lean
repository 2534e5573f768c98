import PetClient.Url.Domain.Composition

/-!
The composed normal form of text: characters are taken apart, the marks behind each base are put in
the order of their classes, and what can be composed is composed again.
-/

namespace PetClient.Url.Domain

open Text (natOfHex charsOfHex)

def markClass (c : Char) : Nat :=
  ((markClasses.find? c).map natOfHex).getD 0

/-! ### Syllables of the Korean script, which are composed by rule -/

def firstSyllable : Nat := 0xAC00

def firstLead : Nat := 0x1100

def firstVowel : Nat := 0x1161

def firstTail : Nat := 0x11A7

def leadCount : Nat := 19

def vowelCount : Nat := 21

def tailCount : Nat := 28

def isSyllable (n : Nat) : Bool :=
  firstSyllable ≤ n && n < firstSyllable + leadCount * vowelCount * tailCount

def syllableLetters (n : Nat) : List Char :=
  let index := n - firstSyllable
  let tail := index % tailCount
  [Char.ofNat (firstLead + index / (vowelCount * tailCount)),
    Char.ofNat (firstVowel + index / tailCount % vowelCount)] ++
    if tail = 0 then [] else [Char.ofNat (firstTail + tail)]

/-- The syllable of a lead and a vowel, or of a syllable without tail and a tail. -/
def composeSyllable? (a b : Nat) : Option Char :=
  if firstLead ≤ a && a < firstLead + leadCount &&
      firstVowel ≤ b && b < firstVowel + vowelCount then
    some (Char.ofNat
      (firstSyllable + ((a - firstLead) * vowelCount + (b - firstVowel)) * tailCount))
  else if isSyllable a && (a - firstSyllable) % tailCount = 0 && firstTail < b &&
      b < firstTail + tailCount then
    some (Char.ofNat (a + (b - firstTail)))
  else none

/-! ### Taking apart -/

def partsOf? (c : Char) : Option (List Char) :=
  (decompositions.find? c).map fun value =>
    charsOfHex (if value.head? = some '!' then value.tail else value)

def decomposeChar (partsOf? : Char → Option (List Char)) (fuel : Nat) (c : Char) : List Char :=
  match fuel with
  | 0 => [c]
  | fuel + 1 =>
    if isSyllable c.toNat then syllableLetters c.toNat
    else
      match partsOf? c with
      | none => [c]
      | some parts => parts.flatMap (decomposeChar partsOf? fuel)

/-- Puts a character behind reversed text, a mark in front of the marks with a larger class. -/
def placeMark (c : Char) : List Char → List Char
  | [] => [c]
  | other :: before =>
    if markClass c != 0 && markClass c < markClass other then other :: placeMark c before
    else c :: other :: before

def decompose (text : List Char) : List Char :=
  ((text.flatMap (decomposeChar partsOf? 8)).foldl (fun before c => placeMark c before) []).reverse

/-! ### Composing -/

def compositions : Array (Char × Char × Char) :=
  decompositions.entries.filterMap fun (start, _, value) =>
    match charsOfHex value with
    | [a, b] => if value.head? = some '!' then none else some (a, b, Char.ofNat start)
    | _ => none

def compose? (a b : Char) : Option Char :=
  match composeSyllable? a.toNat b.toNat with
  | some c => some c
  | none => (compositions.find? fun (x, y, _) => x = a && y = b).map fun (_, _, c) => c

/-- Text under composition: what is finished and the marks behind the last base, both reversed. -/
structure Composing where
  finished : List Char := []
  base : Option Char := none
  marks : List Char := []

namespace Composing

def close (s : Composing) : List Char :=
  s.marks ++ s.base.toList ++ s.finished

/-- Whether no mark stands between the base and a character that would keep them apart. -/
def reaches (s : Composing) (c : Char) : Bool :=
  match s.marks with
  | [] => true
  | mark :: _ => markClass mark < markClass c

def add (s : Composing) (c : Char) : Composing :=
  let composed := if s.reaches c then s.base.bind fun base => compose? base c else none
  match composed with
  | some base => { s with base := some base }
  | none =>
    if markClass c = 0 then { finished := s.close, base := some c }
    else { s with marks := c :: s.marks }

end Composing

def normalize (text : List Char) : List Char :=
  ((decompose text).foldl Composing.add {}).close.reverse

end PetClient.Url.Domain
