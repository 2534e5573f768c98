import PetClient.Json.Reader

/-!
Reading a value of any shape.  The members of an object come out in the order of their names; of
several members with one name the last counts.
-/

namespace PetClient.Json

/-- How deep lists and objects may be nested, with one to spare. -/
def nestingLimit : Nat := 128

def insertMember (name : String) (value : Json) : List (String × Json) → List (String × Json)
  | [] => [(name, value)]
  | (other, old) :: rest =>
    if name < other then (name, value) :: (other, old) :: rest
    else if name = other then (name, value) :: rest
    else (other, old) :: insertMember name value rest

mutual

def readTree (fuel depth : Nat) (bytes : Bytes) : Except Fault (Json × Bytes) :=
  match fuel with
  | 0 => faultAt .valueEnds []
  | fuel + 1 =>
    match skipBlanks bytes with
    | [] => faultAt .valueEnds []
    | b :: rest =>
      if b = 0x6E then do
        let rest ← readWord ['u', 'l', 'l'] rest
        return (.null, rest)
      else if b = 0x74 then do
        let rest ← readWord ['r', 'u', 'e'] rest
        return (.bool true, rest)
      else if b = 0x66 then do
        let rest ← readWord ['a', 'l', 's', 'e'] rest
        return (.bool false, rest)
      else if b = 0x2D then do
        let (n, rest) ← readNumber true rest
        return (.number n, rest)
      else if isDigit b then do
        let (n, rest) ← readNumber false (b :: rest)
        return (.number n, rest)
      else if b = 0x22 then do
        let (s, rest) ← readString rest
        return (.string s, rest)
      else if b = 0x5B then
        if depth ≤ 1 then faultAt .nestingTooDeep (b :: rest)
        else do
          let (items, rest) ← readItems fuel (depth - 1) true rest
          let rest ← closeList rest
          return (.array items, rest)
      else if b = 0x7B then
        if depth ≤ 1 then faultAt .nestingTooDeep (b :: rest)
        else do
          let (members, rest) ← readMembers fuel (depth - 1) true [] rest
          let rest ← closeObject rest
          return (.object members, rest)
      else faultAt .valueMissing (b :: rest)

def readItems (fuel depth : Nat) (first : Bool) (bytes : Bytes) :
    Except Fault (List Json × Bytes) :=
  match fuel with
  | 0 => faultAt .valueEnds []
  | fuel + 1 => do
    match ← nextItem first bytes with
    | none => return ([], bytes)
    | some rest =>
      let (item, rest) ← readTree fuel depth rest
      let (items, rest) ← readItems fuel depth false rest
      return (item :: items, rest)

def readMembers (fuel depth : Nat) (first : Bool) (before : List (String × Json)) (bytes : Bytes) :
    Except Fault (List (String × Json) × Bytes) :=
  match fuel with
  | 0 => faultAt .valueEnds []
  | fuel + 1 => do
    match ← nextKey first bytes with
    | none => return (before, bytes)
    | some rest =>
      let (name, rest) ← readString rest
      let rest ← readColon rest
      let (value, rest) ← readTree fuel depth rest
      readMembers fuel depth false (insertMember name value before) rest

end

def readAny : Reader Json := fun bytes =>
  readTree (2 * bytes.length + 2) nestingLimit bytes

end PetClient.Json
