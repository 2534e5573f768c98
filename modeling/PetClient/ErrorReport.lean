import PetClient.Json.Record

/-!
The report that the API sends along with a failure.
-/

namespace PetClient

open Json (Shape Record Member)

structure ErrorReport where
  message : String
  code : String
  deriving DecidableEq, Repr

namespace ErrorReport

structure Draft where
  message : Option String := none
  code : Option String := none

def Draft.build (draft : Draft) : Except String ErrorReport := do
  let message ← Json.required "message" draft.message
  let code ← Json.required "code" draft.code
  return { message, code }

def members : List (Member Draft) := [
  .mk "message" (·.message.isSome) fun d =>
    Json.readInto Json.text.read fun v => { d with message := v },
  .mk "code" (·.code.isSome) fun d =>
    Json.readInto Json.text.read fun v => { d with code := v }]

def record : Record Draft ErrorReport where
  name := "ErrorResponse"
  members := members
  blank := {}
  build := Draft.build
  write := fun report => [("message", .string report.message), ("code", .string report.code)]

def shape : Shape ErrorReport :=
  record.shape

end ErrorReport

end PetClient
