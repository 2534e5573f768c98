import PetClient.Text.Utf8

/-!
Header fields.  Names are tokens and count without regard to case; they are kept in lower case.
Values hold any bytes but controls, and tabs.
-/

namespace PetClient.Http

def lowerCase (text : String) : String :=
  text.map Char.toLower

def isTokenChar (c : Char) : Bool :=
  c.isAlphanum || "!#$%&'*+-.^_`|~".contains c

def maxNameLength : Nat := 65535

def fieldName? (text : String) : Option String :=
  if text.isEmpty || !text.all isTokenChar || maxNameLength < text.utf8ByteSize then none
  else some (lowerCase text)

def isValueByte (b : UInt8) : Bool :=
  b = 0x09 || (0x20 ≤ b && b ≠ 0x7F)

def isFieldValue (text : String) : Bool :=
  (Utf8.bytesOf text).all isValueByte

structure Field where
  name : String
  value : String
  /-- The value is not to be shown. -/
  sensitive : Bool := false
  deriving DecidableEq, Repr

/-- The header fields of a message, each name once. -/
abbrev Fields := List Field

namespace Fields

def contains (fields : Fields) (name : String) : Bool :=
  fields.any fun f => f.name == name

def erase (fields : Fields) (name : String) : Fields :=
  fields.filter fun f => f.name != name

def set (fields : Fields) (field : Field) : Fields :=
  fields.erase field.name ++ [field]

def setDefault (fields : Fields) (field : Field) : Fields :=
  if fields.contains field.name then fields else fields ++ [field]

end Fields

end PetClient.Http
