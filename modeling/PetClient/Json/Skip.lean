import PetClient.Json.Reader

/-!
Passing over a value that nobody asked for.  Its form is checked, but its strings are not decoded,
its numbers have no range and it may be nested to any depth.
-/

namespace PetClient.Json

def skipEscape : Bytes → Except Fault Bytes
  | [] => faultAfter .stringEnds []
  | b :: rest =>
    if (shortEscape? b).isSome then .ok rest
    else if b = 0x75 then (readUnit rest).map fun (_, rest) => rest
    else faultAfter .escapeInvalid rest

def skipStringTail (budget bytes : Bytes) : Except Fault Bytes :=
  match budget with
  | [] => faultAfter .stringEnds []
  | _ :: budget =>
    match bytes.dropWhile isPlain with
    | [] => faultAfter .stringEnds []
    | b :: rest =>
      if b = 0x22 then .ok rest
      else if b = 0x5C then do
        let rest ← skipEscape rest
        skipStringTail budget rest
      else faultAfter .controlCharacter (b :: rest)

def skipString (bytes : Bytes) : Except Fault Bytes :=
  skipStringTail bytes bytes

inductive Bracket
  | list
  | object
  deriving DecidableEq, Repr

def skipStart : Bytes → Except Fault (Option Bracket × Bytes)
  | [] => faultAt .valueEnds []
  | b :: rest =>
    let scalar (r : Except Fault Bytes) : Except Fault (Option Bracket × Bytes) :=
      r.map fun rest => (none, rest)
    let number (negative : Bool) (bytes : Bytes) : Except Fault Bytes :=
      (readLiteral .numberInvalid negative bytes).map fun (_, rest) => rest
    if b = 0x6E then scalar (readWord ['u', 'l', 'l'] rest)
    else if b = 0x74 then scalar (readWord ['r', 'u', 'e'] rest)
    else if b = 0x66 then scalar (readWord ['a', 'l', 's', 'e'] rest)
    else if b = 0x2D then scalar (number true rest)
    else if isDigit b then scalar (number false (b :: rest))
    else if b = 0x22 then scalar (skipString rest)
    else if b = 0x5B then .ok (some .list, rest)
    else if b = 0x7B then .ok (some .object, rest)
    else faultAt .valueMissing (b :: rest)

def Bracket.closedBy (b : UInt8) : Bracket → Bool
  | list => b = 0x5D
  | object => b = 0x7D

/-- Closes brackets until one of them goes on with another value, behind its comma if it has had one
(`begun`).  Returns the brackets that stay open, the innermost first. -/
def closeBrackets : List Bracket → (begun : Bool) → Bytes → Except Fault (List Bracket × Bytes)
  | [], _, bytes => .ok ([], bytes)
  | bracket :: outer, begun, bytes =>
    match skipBlanks bytes with
    | [] => faultAt (match bracket with | .list => .listEnds | .object => .objectEnds) []
    | b :: rest =>
      if begun && b = 0x2C then .ok (bracket :: outer, rest)
      else if bracket.closedBy b then closeBrackets outer true rest
      else if begun then
        faultAt (match bracket with | .list => .listNotContinued | .object => .objectNotContinued)
          (b :: rest)
      else .ok (bracket :: outer, b :: rest)

def skipKey (bracket : Bracket) (bytes : Bytes) : Except Fault Bytes :=
  match bracket with
  | .list => .ok bytes
  | .object =>
    match skipBlanks bytes with
    | [] => faultAt .objectEnds []
    | 0x22 :: rest => do
      let rest ← skipString rest
      readColon rest
    | rest => faultAt .keyNotString rest

/-- Passes over the next value inside open brackets, and over all that follows until they are
closed.  Each value takes a byte off the budget. -/
def skipInside (budget : Bytes) (brackets : List Bracket) (bytes : Bytes) : Except Fault Bytes :=
  match budget with
  | [] => faultAt .valueEnds []
  | _ :: budget => do
    let (opened, rest) ← skipStart (skipBlanks bytes)
    let (brackets, rest) ← closeBrackets (opened.toList ++ brackets) opened.isNone rest
    match brackets with
    | [] => return rest
    | bracket :: outer => do
      let rest ← skipKey bracket rest
      skipInside budget (bracket :: outer) rest

def skipValue (bytes : Bytes) : Except Fault Bytes :=
  skipInside bytes [] bytes

end PetClient.Json
