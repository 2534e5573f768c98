import PetClient.Http.Header
import PetClient.Http.Status
import PetClient.Http.Target

/-!
Requests and answers with their bodies.
-/

namespace PetClient.Http

inductive Method
  | get
  | post
  | put
  | delete
  deriving DecidableEq, Repr

def Method.name : Method → String
  | get => "GET"
  | post => "POST"
  | put => "PUT"
  | delete => "DELETE"

structure Request where
  method : Method
  target : Target
  fields : Fields
  body : Bytes

structure Response where
  status : Status
  body : Bytes

end PetClient.Http
