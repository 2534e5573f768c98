import PetClient.Decimal.Literal

/-!
JSON values.  The members of an object keep the order in which they are to be written.
-/

namespace PetClient

inductive Json
  | null
  | bool (value : Bool)
  | number (value : Decimal.Number)
  | string (text : String)
  | array (items : List Json)
  | object (members : List (String × Json))

namespace Json

def integer (n : Int) : Json :=
  .number (.integer n)

def optionalMember {α : Type} (name : String) (encode : α → Json) : Option α → List (String × Json)
  | none => []
  | some value => [(name, encode value)]

end Json

end PetClient
