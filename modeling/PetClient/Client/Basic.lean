import PetClient.Client.Error
import PetClient.Config.Basic
import PetClient.Log
import PetClient.Url.Form

/-!
The client: a base address and the header fields that every request carries.  A call builds one
request, hands it to a transport and decodes the answer.
-/

namespace PetClient

structure Reply (σ : Type) where
  answer : Except TransportError Http.Response
  log : List LogRecord
  state : σ

structure Transport (σ : Type) where
  send : Http.Request → σ → Reply σ

structure Outcome (σ α : Type) where
  result : Except ClientError α
  log : List LogRecord
  state : σ

namespace Outcome

variable {σ α β : Type}

def refused (error : ClientError) (state : σ) : Outcome σ α :=
  ⟨.error error, [], state⟩

def map (f : α → β) (outcome : Outcome σ α) : Outcome σ β :=
  ⟨outcome.result.map f, outcome.log, outcome.state⟩

end Outcome

structure Client where
  baseUrl : String
  fields : Http.Fields
  deriving DecidableEq, Repr

namespace Client

variable {σ α : Type}

def authorizationField : String := "authorization"

def acceptField : String := "accept"

def contentTypeField : String := "content-type"

def jsonType : String := "application/json"

/-- The field that a configured name and value make; the one that holds credentials is sensitive. -/
def fieldOf (name value : String) : Except ClientError Http.Field :=
  match Http.fieldName? name with
  | none => .error (.invalidHeader name)
  | some fieldName =>
    if Http.isFieldValue value then .ok ⟨fieldName, value, fieldName == authorizationField⟩
    else .error (.invalidHeader name)

def addHeader (fields : Http.Fields) (header : String × String) :
    Except ClientError Http.Fields :=
  (fieldOf header.1 header.2).map fields.set

def ofConfig (config : Config) : Except ClientError Client := do
  let fields ← config.effectiveHeaders.entries.foldlM addHeader []
  return ⟨config.trimmedBaseUrl, fields⟩

def ofToken (baseUrl : String) (token : Option String) : Except ClientError Client :=
  ofConfig { baseUrl, token }

def address (client : Client) (path : String) (pairs : List (String × String)) :
    Except ClientError Url :=
  let text := client.baseUrl ++ path
  match Url.parse text with
  | .error problem => .error (.invalidUrl text problem)
  | .ok url => .ok (url.addPairs pairs)

def requestFields (client : Client) (hasBody : Bool) : Http.Fields :=
  let fields := client.fields.setDefault { name := acceptField, value := jsonType }
  if hasBody then fields.set { name := contentTypeField, value := jsonType } else fields

def request (client : Client) (method : Http.Method) (url : Url) (body : Option Bytes) :
    Except ClientError Http.Request :=
  match Http.Target.parse url.text with
  | .error problem => .error (.invalidRequest problem)
  | .ok target => .ok ⟨method, target, client.requestFields body.isSome, body.getD []⟩

def isBlank (b : UInt8) : Bool :=
  b = 0x20 || (0x09 ≤ b && b ≤ 0x0D && b ≠ 0x0B)

/-- The value of a body.  A body without content counts as `null`. -/
def decodeBody (shape : Json.Shape α) (body : Bytes) : Except ClientError α :=
  (if body.all isBlank then shape.decodeNull else shape.decode body).mapError .decode

def resultOf (shape : Json.Shape α) (response : Http.Response) : Except ClientError α :=
  if response.status.isFailure then .error (.http response.status response.body)
  else decodeBody shape response.body

def requestLine (method : Http.Method) (url : Url) : String :=
  method.name ++ " " ++ url.text

def answerLog (method : Http.Method) (url : Url) (response : Http.Response) : List LogRecord :=
  if response.status.isFailure then
    [⟨.warn, requestLine method url ++ " failed with " ++ response.status.text⟩]
  else []

def execute (client : Client) (transport : Transport σ) (shape : Json.Shape α)
    (method : Http.Method) (url : Url) (body : Option Bytes) (state : σ) : Outcome σ α :=
  match client.request method url body with
  | .error error => .refused error state
  | .ok request =>
    let reply := transport.send request state
    let log := ⟨.debug, requestLine method url⟩ :: reply.log
    match reply.answer with
    | .error error => ⟨.error (.transport error), log, reply.state⟩
    | .ok response =>
      ⟨resultOf shape response, log ++ answerLog method url response, reply.state⟩

def call (client : Client) (transport : Transport σ) (shape : Json.Shape α)
    (method : Http.Method) (path : String) (pairs : List (String × String)) (state : σ) :
    Outcome σ α :=
  match client.address path pairs with
  | .error error => .refused error state
  | .ok url => client.execute transport shape method url none state

/-- A call with a body, which is encoded before anything else is looked at. -/
def callWith (client : Client) (transport : Transport σ) (shape : Json.Shape α)
    (method : Http.Method) (path : String) (payload : Except Json.Problem Json) (state : σ) :
    Outcome σ α :=
  match payload with
  | .error problem => .refused (.encode problem) state
  | .ok payload =>
    match client.address path [] with
    | .error error => .refused error state
    | .ok url =>
      client.execute transport shape method url (some (Utf8.bytesOf payload.compact)) state

def get (client : Client) (transport : Transport σ) (shape : Json.Shape α) (path : String)
    (state : σ) : Outcome σ α :=
  client.call transport shape .get path [] state

def getWithQuery (client : Client) (transport : Transport σ) (shape : Json.Shape α)
    (path : String) (pairs : List (String × String)) (state : σ) : Outcome σ α :=
  client.call transport shape .get path pairs state

def delete (client : Client) (transport : Transport σ) (shape : Json.Shape α) (path : String)
    (state : σ) : Outcome σ α :=
  client.call transport shape .delete path [] state

def post (client : Client) (transport : Transport σ) (shape : Json.Shape α) (path : String)
    (payload : Except Json.Problem Json) (state : σ) : Outcome σ α :=
  client.callWith transport shape .post path payload state

def put (client : Client) (transport : Transport σ) (shape : Json.Shape α) (path : String)
    (payload : Except Json.Problem Json) (state : σ) : Outcome σ α :=
  client.callWith transport shape .put path payload state

end Client

end PetClient
