import PetClient.Json.Fault

/-!
Objects from entries whose keys are values of any kind.
-/

namespace PetClient.Json

/-- The name that a key is written under: strings, numbers and truth values have one. -/
def keyName : Json → Except Problem String
  | string s => .ok s
  | number n => .ok (String.ofList (numberChars n))
  | bool b => .ok (String.ofList (boolChars b))
  | _ => .error .keyNotString

def ofEntries (entries : List (Json × Json)) : Except Problem Json := do
  let members ← entries.mapM fun (key, value) => (keyName key).map fun name => (name, value)
  return .object members

end PetClient.Json
