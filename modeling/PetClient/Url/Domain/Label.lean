import PetClient.Url.Domain.Direction
import PetClient.Url.Domain.Joining
import PetClient.Url.Domain.Mapping
import PetClient.Url.Domain.Normal
import PetClient.Url.Domain.Punycode

/-!
Domain names in any script and their form in ASCII.  A name is mapped to lower case and plain
letters and split at its points; each label with other characters than ASCII is checked and written
in letters, digits and hyphens.
-/

namespace PetClient.Url.Domain

open Text (charsOfHex natOfHex splitAt)

def isForbidden (c : Char) : Bool :=
  c.toNat ≤ 0x20 || c.toNat = 0x7F || "%#/:<>?@[\\]^|".contains c

def mapChar (c : Char) : Option (List Char) :=
  if refused.contains c then none
  else if ignored.contains c then some []
  else
    match replacements.find? c with
    | none => some [c]
    | some ('+' :: up) => some [Char.ofNat (c.toNat + natOfHex up)]
    | some ('~' :: down) => some [Char.ofNat (c.toNat - natOfHex down)]
    | some sequence => some (charsOfHex sequence)

def mapName (name : List Char) : Option (List Char) :=
  (name.mapM mapChar).map fun parts => normalize parts.flatten

def standsForItself (c : Char) : Bool :=
  mapChar c = some [c]

/-! ### Joiners -/

def nonJoiner : Char := '\u200C'

def joiner : Char := '\u200D'

def joinsConsonants (c : Char) : Bool :=
  markClass c = 9

def joins (side : Char) (text : List Char) : Bool :=
  match text.dropWhile fun c => joiningTypes.find? c = some ['T'] with
  | [] => false
  | c :: _ => joiningTypes.find? c = some [side] || joiningTypes.find? c = some ['D']

/-- Whether each joiner stands where it makes a difference: behind a sign that joins consonants, or,
for the one that separates, between letters that would join.  `before` is reversed. -/
def joinersFit (before : List Char) : List Char → Bool
  | [] => true
  | c :: rest =>
    let behindSign := (before.head?.map joinsConsonants).getD false
    let fits :=
      if c = nonJoiner then behindSign || (joins 'L' before && joins 'R' rest)
      else if c = joiner then behindSign
      else true
    fits && joinersFit (c :: before) rest

/-! ### Directions -/

def direction (c : Char) : String :=
  String.ofList ((directions.find? c).getD ['L'])

def hasRightToLeft (label : List Char) : Bool :=
  label.any fun c => ["R", "AL", "AN"].contains (direction c)

def directionsFit (label : List Char) : Bool :=
  match label with
  | [] => true
  | first :: _ =>
    let classes := label.map direction
    let end? := (classes.reverse.dropWhile (· = "NSM")).head?
    let endsIn (allowed : List String) : Bool := (end?.map allowed.contains).getD false
    let neutral := ["EN", "ES", "CS", "ET", "ON", "BN", "NSM"]
    if ["R", "AL"].contains (direction first) then
      classes.all (["R", "AL", "AN"] ++ neutral).contains && endsIn ["R", "AL", "EN", "AN"] &&
        !(classes.contains "EN" && classes.contains "AN")
    else if direction first = "L" then
      classes.all ("L" :: neutral).contains && endsIn ["L", "EN"]
    else false

/-! ### Labels -/

def isAscii (text : List Char) : Bool :=
  text.all fun c => c.toNat < 0x80

def marker : List Char := ['x', 'n', '-', '-']

structure Label where
  read : List Char
  written : List Char

def isValid (label : List Char) : Bool :=
  !label.any isForbidden && !(label.head?.map marks.contains).getD false && joinersFit [] label

def Label.ofText? (text : List Char) : Option Label :=
  if marker.isPrefixOf text then do
    let label ← Punycode.decode? (text.drop marker.length)
    if !isAscii label && label.all standsForItself && normalize label = label && isValid label then
      some ⟨label, text⟩
    else none
  else if !isValid text then none
  else if isAscii text then some ⟨text, text⟩
  else some ⟨text, marker ++ Punycode.encode text⟩

def toAscii? (name : List Char) : Option (List Char) := do
  let mapped ← mapName name
  let labels ← (splitAt '.' mapped).mapM Label.ofText?
  if labels.any (fun l => hasRightToLeft l.read) && !labels.all (fun l => directionsFit l.read) then
    none
  else some (List.intercalate ['.'] (labels.map Label.written))

end PetClient.Url.Domain
