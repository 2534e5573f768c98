import PetClient.Config.Basic
import PetClient.Json.Record

/-!
Configurations as JSON.
-/

namespace PetClient.Config

open Json (Shape Record Member)

structure Draft where
  baseUrl : Option String := none
  headers : Option (Dict String) := none
  token : Option (Option String) := none
  timeoutSecs : Option (Option UInt64) := none

def Draft.build (draft : Draft) : Except String Config := do
  let baseUrl ← Json.required "base_url" draft.baseUrl
  return {
    baseUrl
    headers := draft.headers.getD ∅
    token := draft.token.getD none
    timeoutSecs := draft.timeoutSecs.getD none }

def members : List (Member Draft) := [
  .mk "base_url" (·.baseUrl.isSome) fun d =>
    Json.readInto Json.text.read fun v => { d with baseUrl := v },
  .mk "headers" (·.headers.isSome) fun d =>
    Json.readInto (Json.readDict Json.text.read) fun v => { d with headers := v },
  .mk "token" (·.token.isSome) fun d =>
    Json.readInto (Json.optional Json.text).read fun v => { d with token := v },
  .mk "timeout_secs" (·.timeoutSecs.isSome) fun d =>
    Json.readInto (Json.optional Json.word64).read fun v => { d with timeoutSecs := v }]

def record : Record Draft Config where
  name := "ClientConfig"
  members := members
  blank := {}
  build := Draft.build
  write := fun config =>
    ("base_url", .string config.baseUrl) ::
      ("headers", Json.writeDict .string config.headers) ::
      (Json.optionalMember "token" .string config.token ++
        Json.optionalMember "timeout_secs" Json.word64.write config.timeoutSecs)

def shape : Shape Config :=
  record.shape

end PetClient.Config
