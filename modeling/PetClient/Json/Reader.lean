import PetClient.Json.Fault

/-!
Reading JSON from bytes, value by value.  A reader returns what it read and the bytes behind it, or
the first fault; the number of bytes left tells where the fault is.
-/

namespace PetClient.Json

abbrev Reader (α : Type) := Bytes → Except Fault (α × Bytes)

/-- A fault found at the last byte that was read. -/
def faultAfter {α : Type} (problem : Problem) (rest : Bytes) : Except Fault α :=
  .error ⟨problem, rest.length⟩

/-- A fault found at the next byte, or at the end when there is none. -/
def faultAt {α : Type} (problem : Problem) (rest : Bytes) : Except Fault α :=
  .error ⟨problem, rest.length - 1⟩

def isBlank (b : UInt8) : Bool :=
  b = 0x20 || b = 0x0A || b = 0x0D || b = 0x09

def skipBlanks (bytes : Bytes) : Bytes :=
  bytes.dropWhile isBlank

def readWord : List Char → Bytes → Except Fault Bytes
  | [], rest => .ok rest
  | _ :: _, [] => faultAfter .valueEnds []
  | c :: word, b :: rest =>
    if b.toNat = c.toNat then readWord word rest else faultAfter .wordMisspelt rest

/-! ### Numbers -/

def isDigit (b : UInt8) : Bool :=
  0x30 ≤ b && b ≤ 0x39

def digitValue (b : UInt8) : Nat :=
  b.toNat - 0x30

def spanDigits (bytes : Bytes) : List Nat × Bytes :=
  ((bytes.takeWhile isDigit).map digitValue, bytes.dropWhile isDigit)

def startsWithDigit : Bytes → Bool
  | [] => false
  | b :: _ => isDigit b

def readWhole (atEnd : Problem) : Bytes → Except Fault (List Nat × Bytes)
  | [] => faultAfter atEnd []
  | b :: rest =>
    if b = 0x30 then
      if startsWithDigit rest then faultAt .numberInvalid rest else .ok ([0], rest)
    else if isDigit b then .ok (spanDigits (b :: rest))
    else faultAfter .numberInvalid rest

def readFraction (atEnd : Problem) : Bytes → Except Fault (List Nat × Bytes)
  | 0x2E :: rest =>
    match spanDigits rest with
    | ([], []) => faultAt atEnd []
    | ([], b :: rest) => faultAt .numberInvalid (b :: rest)
    | (digits, rest) => .ok (digits, rest)
  | rest => .ok ([], rest)

def readPowerDigits (atEnd : Problem) (negative : Bool) :
    Bytes → Except Fault (Option (Bool × List Nat) × Bytes)
  | [] => faultAfter atEnd []
  | b :: rest =>
    if isDigit b then
      let (digits, rest) := spanDigits (b :: rest)
      .ok (some (negative, digits), rest)
    else faultAfter .numberInvalid rest

def readPower (atEnd : Problem) : Bytes → Except Fault (Option (Bool × List Nat) × Bytes)
  | [] => .ok (none, [])
  | b :: rest =>
    if b = 0x65 || b = 0x45 then
      match rest with
      | 0x2B :: rest => readPowerDigits atEnd false rest
      | 0x2D :: rest => readPowerDigits atEnd true rest
      | rest => readPowerDigits atEnd false rest
    else .ok (none, b :: rest)

/-- A number literal behind its sign.  `atEnd` is the fault of a text that ends inside it. -/
def readLiteral (atEnd : Problem) (negative : Bool) (bytes : Bytes) :
    Except Fault (Decimal.Literal × Bytes) := do
  let (whole, rest) ← readWhole atEnd bytes
  let (fraction, rest) ← readFraction atEnd rest
  let (power, rest) ← readPower atEnd rest
  return (⟨negative, whole, fraction, power⟩, rest)

def readNumber (negative : Bool) (bytes : Bytes) : Except Fault (Decimal.Number × Bytes) := do
  let (literal, rest) ← readLiteral .valueEnds negative bytes
  match literal.toNumber with
  | some n => return (n, rest)
  | none => .error ⟨.numberTooLarge, rest.length + literal.powerSurplus⟩

/-! ### Strings -/

def hexValue? (b : UInt8) : Option Nat :=
  Text.hexDigit? (Char.ofNat b.toNat)

def readUnit : Bytes → Except Fault (Nat × Bytes)
  | a :: b :: c :: d :: rest =>
    match hexValue? a, hexValue? b, hexValue? c, hexValue? d with
    | some a, some b, some c, some d => .ok (((a * 16 + b) * 16 + c) * 16 + d, rest)
    | _, _, _, _ => faultAfter .escapeInvalid rest
  | _ => faultAfter .stringEnds []

def isHighSurrogate (unit : Nat) : Bool :=
  0xD800 ≤ unit && unit ≤ 0xDBFF

def isLowSurrogate (unit : Nat) : Bool :=
  0xDC00 ≤ unit && unit ≤ 0xDFFF

/-- The character of a numeric escape, behind its `u`; a high surrogate takes the next escape. -/
def readNumericEscape (bytes : Bytes) : Except Fault (Char × Bytes) := do
  let (unit, rest) ← readUnit bytes
  if isLowSurrogate unit then faultAfter .surrogateAlone rest
  else if isHighSurrogate unit then
    match rest with
    | [] => faultAfter .stringEnds []
    | 0x5C :: [] => faultAfter .stringEnds []
    | 0x5C :: 0x75 :: rest =>
      let (low, rest) ← readUnit rest
      if isLowSurrogate low then
        return (Char.ofNat ((unit - 0xD800) * 0x400 + (low - 0xDC00) + 0x10000), rest)
      else faultAfter .surrogateAlone rest
    | 0x5C :: _ :: rest => faultAfter .surrogateUnpaired rest
    | _ :: rest => faultAfter .surrogateUnpaired rest
  else return (Char.ofNat unit, rest)

def shortEscape? (b : UInt8) : Option Char :=
  if b = 0x22 then some '"'
  else if b = 0x5C then some '\\'
  else if b = 0x2F then some '/'
  else if b = 0x62 then some '\x08'
  else if b = 0x66 then some '\x0c'
  else if b = 0x6E then some '\n'
  else if b = 0x72 then some '\r'
  else if b = 0x74 then some '\t'
  else none

def readEscape : Bytes → Except Fault (Char × Bytes)
  | [] => faultAfter .stringEnds []
  | b :: rest =>
    match shortEscape? b with
    | some c => .ok (c, rest)
    | none => if b = 0x75 then readNumericEscape rest else faultAfter .escapeInvalid rest

def isPlain (b : UInt8) : Bool :=
  b != 0x22 && b != 0x5C && 0x20 ≤ b

def readPlain (bytes rest : Bytes) : Except Fault (List Char) :=
  match Utf8.decodeStart bytes with
  | (text, []) => .ok text
  | (_, _ :: tail) => faultAfter .textIllFormed (tail ++ rest)

/-- The text of a string behind its opening quote.  Each escape takes a byte off the budget, so the
bytes themselves are a budget that suffices. -/
def readStringTail (budget bytes : Bytes) : Except Fault (List Char × Bytes) :=
  match budget with
  | [] => faultAfter .stringEnds []
  | _ :: budget =>
    match bytes.dropWhile isPlain with
    | [] => faultAfter .stringEnds []
    | b :: rest =>
      if b = 0x22 then do
        let text ← readPlain (bytes.takeWhile isPlain) (b :: rest)
        return (text, rest)
      else if b = 0x5C then do
        let text ← readPlain (bytes.takeWhile isPlain) (b :: rest)
        let (c, rest) ← readEscape rest
        let (tail, rest) ← readStringTail budget rest
        return (text ++ c :: tail, rest)
      else faultAfter .controlCharacter rest

def readString (bytes : Bytes) : Except Fault (String × Bytes) := do
  let (text, rest) ← readStringTail bytes bytes
  return (String.ofList text, rest)

/-! ### Punctuation -/

def readColon (bytes : Bytes) : Except Fault Bytes :=
  match skipBlanks bytes with
  | [] => faultAt .objectEnds []
  | 0x3A :: rest => .ok rest
  | rest => faultAt .colonMissing rest

/-- Whether a list goes on: the bytes of its next item, or nothing when the next byte closes it. -/
def nextItem (first : Bool) (bytes : Bytes) : Except Fault (Option Bytes) :=
  match skipBlanks bytes with
  | [] => faultAt .listEnds []
  | 0x5D :: _ => .ok none
  | b :: rest =>
    if first then .ok (some (b :: rest))
    else if b = 0x2C then
      match skipBlanks rest with
      | [] => faultAt .valueEnds []
      | 0x5D :: rest => faultAt .commaTrailing (0x5D :: rest)
      | rest => .ok (some rest)
    else faultAt .listNotContinued (b :: rest)

def nextKey (first : Bool) (bytes : Bytes) : Except Fault (Option Bytes) :=
  match skipBlanks bytes with
  | [] => faultAt .objectEnds []
  | 0x7D :: _ => .ok none
  | b :: rest =>
    if first then
      if b = 0x22 then .ok (some rest) else faultAt .keyNotString (b :: rest)
    else if b = 0x2C then
      match skipBlanks rest with
      | [] => faultAt .valueEnds []
      | 0x22 :: rest => .ok (some rest)
      | 0x7D :: rest => faultAt .commaTrailing (0x7D :: rest)
      | rest => faultAt .keyNotString rest
    else faultAt .objectNotContinued (b :: rest)

def closeList (bytes : Bytes) : Except Fault Bytes :=
  match skipBlanks bytes with
  | [] => faultAt .listEnds []
  | 0x5D :: rest => .ok rest
  | 0x2C :: rest =>
    match skipBlanks rest with
    | 0x5D :: rest => faultAt .commaTrailing (0x5D :: rest)
    | rest => faultAt .textTrailing rest
  | rest => faultAt .textTrailing rest

def closeObject (bytes : Bytes) : Except Fault Bytes :=
  match skipBlanks bytes with
  | [] => faultAt .objectEnds []
  | 0x7D :: rest => .ok rest
  | 0x2C :: rest => faultAt .commaTrailing (0x2C :: rest)
  | rest => faultAt .textTrailing rest

/-- A fault of a list as a whole is reported behind its closing bracket, if that is found. -/
def faultOfList {α : Type} (problem : Problem) (bytes : Bytes) : Except Fault α :=
  match skipBlanks bytes with
  | 0x5D :: rest => faultAfter problem rest
  | 0x2C :: rest => faultAfter problem (skipBlanks rest)
  | rest => faultAfter problem rest

def faultOfObject {α : Type} (problem : Problem) (bytes : Bytes) : Except Fault α :=
  match skipBlanks bytes with
  | 0x7D :: rest => faultAfter problem rest
  | rest => faultAfter problem rest

/-! ### Values of another kind -/

/-- The fault for a value that is not of the wanted kind; a literal is read before it is refused. -/
def refuse {α : Type} (wanted : String) : Bytes → Except Fault α
  | [] => faultAt .valueEnds []
  | b :: rest =>
    if b = 0x6E then do
      let rest ← readWord ['u', 'l', 'l'] rest
      faultAfter (.wrongType .null wanted) rest
    else if b = 0x74 then do
      let rest ← readWord ['r', 'u', 'e'] rest
      faultAfter (.wrongType (.bool true) wanted) rest
    else if b = 0x66 then do
      let rest ← readWord ['a', 'l', 's', 'e'] rest
      faultAfter (.wrongType (.bool false) wanted) rest
    else if b = 0x2D then do
      let (n, rest) ← readNumber true rest
      faultAfter (.wrongType (.number n) wanted) rest
    else if isDigit b then do
      let (n, rest) ← readNumber false (b :: rest)
      faultAfter (.wrongType (.number n) wanted) rest
    else if b = 0x22 then do
      let (s, rest) ← readString rest
      faultAfter (.wrongType (.string s) wanted) rest
    else if b = 0x5B then faultAfter (.wrongType .sequence wanted) (b :: rest)
    else if b = 0x7B then faultAfter (.wrongType .map wanted) (b :: rest)
    else faultAt .valueMissing (b :: rest)

end PetClient.Json
