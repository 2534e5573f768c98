import PetClient.Json.Printer
import PetClient.Text.Quoted
import PetClient.Text.Utf8

/-!
Why a JSON text is refused, and where.  A fault is either one of form (the text ends early or is no
JSON) or one of content (well-formed JSON of a shape that was not asked for).
-/

namespace PetClient.Json

inductive Found
  | null
  | bool (value : Bool)
  | number (value : Decimal.Number)
  | string (text : String)
  | sequence
  | map

namespace Found

def describe : Found → String
  | null => "null"
  | bool b => "boolean `" ++ String.ofList (boolChars b) ++ "`"
  | number (.integer n) => "integer `" ++ String.ofList (intChars n) ++ "`"
  | number (.float x) => "floating point `" ++ String.ofList (floatChars x) ++ "`"
  | string s => "string " ++ Text.inQuotes s
  | sequence => "sequence"
  | map => "map"

end Found

inductive Category
  /-- The text ends early. -/
  | ended
  /-- The text is no JSON. -/
  | form
  /-- The text is JSON of another shape. -/
  | content
  deriving DecidableEq, Repr

inductive Problem
  | valueEnds
  | listEnds
  | objectEnds
  | stringEnds
  | colonMissing
  | listNotContinued
  | objectNotContinued
  | wordMisspelt
  | valueMissing
  | escapeInvalid
  | numberInvalid
  | numberTooLarge
  | textIllFormed
  | controlCharacter
  | keyNotString
  | surrogateAlone
  | surrogateUnpaired
  | commaTrailing
  | textTrailing
  | nestingTooDeep
  | wrongType (found : Found) (wanted : String)
  | wrongValue (found : Found) (wanted : String)
  | wrongLength (length : Nat) (wanted : String)
  | unknownVariant (name : String) (known : List String)
  | memberMissing (name : String)
  | memberRepeated (name : String)

namespace Problem

def category : Problem → Category
  | valueEnds | listEnds | objectEnds | stringEnds => .ended
  | wrongType .. | wrongValue .. | wrongLength .. | unknownVariant .. | memberMissing _
  | memberRepeated _ => .content
  | _ => .form

def ticked (name : String) : String :=
  "`" ++ name ++ "`"

def message : Problem → String
  | valueEnds => "EOF while parsing a value"
  | listEnds => "EOF while parsing a list"
  | objectEnds => "EOF while parsing an object"
  | stringEnds => "EOF while parsing a string"
  | colonMissing => "expected `:`"
  | listNotContinued => "expected `,` or `]`"
  | objectNotContinued => "expected `,` or `\x7d`"
  | wordMisspelt => "expected ident"
  | valueMissing => "expected value"
  | escapeInvalid => "invalid escape"
  | numberInvalid => "invalid number"
  | numberTooLarge => "number out of range"
  | textIllFormed => "invalid unicode code point"
  | controlCharacter => "control character (\\u0000-\\u001F) found while parsing a string"
  | keyNotString => "key must be a string"
  | surrogateAlone => "lone leading surrogate in hex escape"
  | surrogateUnpaired => "unexpected end of hex escape"
  | commaTrailing => "trailing comma"
  | textTrailing => "trailing characters"
  | nestingTooDeep => "recursion limit exceeded"
  | wrongType found wanted => "invalid type: " ++ found.describe ++ ", expected " ++ wanted
  | wrongValue found wanted => "invalid value: " ++ found.describe ++ ", expected " ++ wanted
  | wrongLength length wanted =>
    "invalid length " ++ toString length ++ ", expected " ++ wanted
  | unknownVariant name known =>
    "unknown variant " ++ ticked name ++ ", expected one of " ++
      ", ".intercalate (known.map ticked)
  | memberMissing name => "missing field " ++ ticked name
  | memberRepeated name => "duplicate field " ++ ticked name

end Problem

/-- A refusal, with the number of bytes that follow the place it is reported at. -/
structure Fault where
  problem : Problem
  left : Nat

/-- A line and a column; the column counts the bytes that were read on the line. -/
structure Place where
  line : Nat
  column : Nat
  deriving DecidableEq, Repr

def Place.before (text : Bytes) (left : Nat) : Place :=
  let read := text.take (text.length - left)
  ⟨1 + read.count 10, (read.reverse.takeWhile (· != 10)).length⟩

/-- A refusal as it is reported: for a text with its place, for a value without one. -/
structure Refusal where
  problem : Problem
  place : Option Place

namespace Refusal

def ofFault (text : Bytes) (fault : Fault) : Refusal :=
  ⟨fault.problem, some (.before text fault.left)⟩

def category (r : Refusal) : Category :=
  r.problem.category

def message (r : Refusal) : String :=
  match r.place with
  | none => r.problem.message
  | some place =>
    r.problem.message ++ " at line " ++ toString place.line ++ " column " ++
      toString place.column

end Refusal

end PetClient.Json
