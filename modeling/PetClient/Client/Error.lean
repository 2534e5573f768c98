import PetClient.ErrorReport
import PetClient.Http.Message
import PetClient.Url.Parser

/-!
How a call can fail.  A failure has a message of its own and may have a cause, whose message says
more.
-/

namespace PetClient

inductive TransportError
  | exchange (message : String) (timedOut : Bool)
  /-- The server's answer has no valid status. -/
  | malformedResponse
  | other (message : String)
  deriving DecidableEq, Repr

namespace TransportError

def message : TransportError → String
  | exchange message _ => message
  | malformedResponse => "malformed response"
  | other message => message

def chain : TransportError → List String
  | malformedResponse => ["malformed response", Http.Status.invalidMessage]
  | e => [e.message]

end TransportError

def Http.Response.ofParts (code : Nat) (body : Bytes) : Except TransportError Http.Response :=
  match Http.Status.ofNat? code with
  | some status => .ok ⟨status, body⟩
  | none => .error .malformedResponse

inductive FileError
  | notFound
  | isDirectory
  | notDirectory
  | notText
  | nameInvalid
  deriving DecidableEq, Repr

def FileError.message : FileError → String
  | notFound => "No such file or directory (os error 2)"
  | isDirectory => "Is a directory (os error 21)"
  | notDirectory => "Not a directory (os error 20)"
  | notText => "stream did not contain valid UTF-8"
  | nameInvalid => "file name contained an unexpected NUL byte"

inductive LoadError
  | file (error : FileError)
  | json (refusal : Json.Refusal)
  /-- Told in the words of the library that reads YAML. -/
  | yaml {message : String}

def LoadError.message : LoadError → String
  | file error => error.message
  | json refusal => refusal.message
  | @yaml message => message

inductive ClientError
  | http (status : Http.Status) (body : Bytes)
  | transport (error : TransportError)
  | decode (refusal : Json.Refusal)
  | encode (problem : Json.Problem)
  | invalidUrl (url : String) (problem : Url.Problem)
  | invalidRequest (problem : Http.TargetProblem)
  /-- A configured header field, under the name it was configured with. -/
  | invalidHeader (name : String)
  | config (path : String) (error : LoadError)

namespace ClientError

def message : ClientError → String
  | http status _ => "HTTP " ++ status.text ++ " returned by server"
  | transport _ => "transport error"
  | decode _ => "failed to decode JSON response body"
  | encode _ => "failed to encode JSON request body"
  | invalidUrl url _ => "invalid URL '" ++ url ++ "'"
  | invalidRequest _ => "invalid request"
  | invalidHeader name => "invalid header '" ++ name ++ "'"
  | config path _ => "failed to load configuration from " ++ Text.inQuotes path

def causes : ClientError → List String
  | http .. => []
  | transport error => error.chain
  | decode refusal => [refusal.message]
  | encode problem => [problem.message]
  | invalidUrl _ problem => [problem.message]
  | invalidRequest problem => [problem.message]
  | invalidHeader _ => []
  | config _ error => [error.message]

def status : ClientError → Option Http.Status
  | http status _ => some status
  | _ => none

def bodyText : ClientError → Option String
  | http _ body => some (String.ofList (Utf8.decodeLossy body))
  | _ => none

def report : ClientError → Option ErrorReport
  | http _ body => (ErrorReport.shape.decode body).toOption
  | _ => none

end ClientError

end PetClient
