import PetClient.Text.Basic

/-!
Sets and properties of characters given by ranges, and their written form: one word a range, in
increasing order.  A word is the gap since the range before it, behind a dash how many characters
follow the first one, and behind a colon the value, if the property has values.
-/

namespace PetClient.Text

/-- A property of characters: ranges of their numbers, ends included, each with a value. -/
structure CharTable where
  entries : Array (Nat × Nat × List Char)

namespace CharTable

def addWord (before : Array (Nat × Nat × List Char) × Nat) (word : List Char) :
    Array (Nat × Nat × List Char) × Nat :=
  let range := word.takeWhile (· != ':')
  let value := (word.dropWhile (· != ':')).drop 1
  let gap := range.takeWhile (· != '-')
  let extra := (range.dropWhile (· != '-')).drop 1
  let start := before.2 + natOfHex gap
  let stop := start + natOfHex extra
  (before.1.push (start, stop, value), stop + 1)

def ofText (text : String) : CharTable :=
  ⟨((words text.toList).foldl addWord (#[], 0)).1⟩

/-- The entry of a number among the entries from `low` on and below `high`, by halving. -/
def search (table : CharTable) (n : Nat) (fuel low high : Nat) : Option (List Char) :=
  match fuel with
  | 0 => none
  | fuel + 1 =>
    if high ≤ low then none
    else
      let middle := (low + high) / 2
      match table.entries[middle]? with
      | none => none
      | some (start, stop, value) =>
        if n < start then table.search n fuel low middle
        else if stop < n then table.search n fuel (middle + 1) high
        else some value

def find? (table : CharTable) (c : Char) : Option (List Char) :=
  table.search c.toNat (table.entries.size + 1) 0 table.entries.size

def contains (table : CharTable) (c : Char) : Bool :=
  (table.find? c).isSome

end CharTable

/-- A sequence of characters written as hexadecimal numbers with points between them. -/
def charsOfHex (text : List Char) : List Char :=
  (splitAt '.' text).map fun digits => Char.ofNat (natOfHex digits)

end PetClient.Text
