import PetClient.Client.Basic
import PetClient.Http.Wire
import PetClient.Text.Base64

/-!
The transport over HTTP/1.1: each request goes over a connection of its own, what the protocol asks
for is added to its header fields, and redirections are followed.
-/

namespace PetClient.Http.Exchange

structure Sent where
  method : Method
  /-- Path and query. -/
  target : String
  fields : Fields
  body : Bytes

def Sent.line (s : Sent) : String :=
  s.method.name ++ " " ++ s.target ++ " HTTP/1.1"

inductive Connection
  | refused
  | silent
  | answered (bytes : Bytes)

structure Server (σ : Type) where
  connect : Sent → σ → Connection × σ
  host : Host
  port : Nat

/-! ### Header fields -/

def userAgentField : String := "user-agent"

def userAgent : String := "petstore-client/0.1.0"

def hostField : String := "host"

def lengthField : String := "content-length"

def refererField : String := "referer"

def locationField : String := "location"

def bodyFields : List String :=
  [Client.contentTypeField, lengthField, "content-encoding", "transfer-encoding"]

def privateFields : List String :=
  [Client.authorizationField, "cookie", "cookie2", "proxy-authorization", "www-authenticate"]

def basicCredentials (username password : String) : String :=
  "Basic " ++ String.ofList (Text.Base64.encode (Utf8.bytesOf (username ++ ":" ++ password)))

def decodedPart (text : String) : Option String :=
  Utf8.string? (Url.percentDecode (Utf8.bytesOf text))

/-- The address without credentials, and the credentials as a field value if it had any. -/
def takeCredentials (url : Url) : Url × Option String :=
  match url.authority with
  | none => (url, none)
  | some a =>
    if a.username = "" && a.password = "" then (url, none)
    else
      match decodedPart a.username with
      | none => (url, none)
      | some username =>
        let password := (decodedPart a.password).getD ""
        ({ url with authority := some { a with username := "", password := "" } },
          some (basicCredentials username password))

def hostValue (url : Url) : String :=
  match url.authority with
  | none => ""
  | some a => String.ofList (a.hostChars ++ a.portChars)

def trimmedValue (field : Field) : Field :=
  let isBlank (c : Char) : Bool := c = ' ' || c = '\t'
  let value := ((field.value.toList.dropWhile isBlank).reverse.dropWhile isBlank).reverse
  { field with value := String.ofList value }

/-- A request on its way: where it goes, without fragment and credentials, and what it carries. -/
structure Journey where
  method : Method
  url : Url
  fields : Fields
  body : Bytes

def Journey.sent (j : Journey) : Sent :=
  let fields := (j.fields.setDefault { name := userAgentField, value := userAgent }).setDefault
    { name := hostField, value := hostValue j.url }
  let fields :=
    if j.body.isEmpty then fields
    else fields.setDefault { name := lengthField, value := toString j.body.length }
  { method := j.method
    target := j.url.path ++ String.ofList (Url.partChars '?' j.url.query)
    fields := fields.map trimmedValue
    body := j.body }

/-! ### Redirections -/

def isRedirection (status : Status) : Bool :=
  [301, 302, 303, 307, 308].contains status.code

/-- Whether the method changes and the body is left behind. -/
def dropsBody (status : Status) : Bool :=
  status.code ≤ 303

def isLocationChar (c : Char) : Bool :=
  c.isAlphanum || "-._~:/?#[]@!$&'()*+,;=%".contains c

def directoryOf (path : String) : List Char :=
  (path.toList.reverse.dropWhile (· != '/')).reverse

def resolveText (url : Url) (location : List Char) : List Char :=
  let origin := url.originChars
  match location with
  | [] => url.targetChars
  | '#' :: _ => url.targetChars
  | '?' :: _ => origin ++ url.path.toList ++ location
  | '/' :: '/' :: _ => url.scheme.toList ++ ':' :: location
  | '/' :: _ => origin ++ location
  | _ => origin ++ directoryOf url.path ++ location

def resolve? (url : Url) (location : Bytes) : Option Url := do
  let text ← Utf8.decode? location
  if !text.all isLocationChar then none
  else
    let absolute := if (Url.splitScheme? text).isSome then text else resolveText url text
    let next ← (Url.parse (String.ofList absolute)).toOption
    some { next with fragment := none }

def effectivePort (url : Url) : Option Nat :=
  match url.authority.bind Authority.port with
  | some port => some port
  | none => Url.defaultPort? url.scheme

def sameServer (a b : Url) : Bool :=
  a.authority.map Authority.host = b.authority.map Authority.host &&
    effectivePort a = effectivePort b

/-- What is told about where a request comes from; nothing on the way out of a protected place. -/
def referer? (previous next : Url) : Option String :=
  if previous.scheme = "https" && next.scheme = "http" then none
  else some (takeCredentials previous).1.text

def Journey.redirected (j : Journey) (status : Status) (next : Url) : Journey :=
  let bare := dropsBody status && j.method != .get
  let fields := if bare then j.fields.filter fun f => !bodyFields.contains f.name else j.fields
  let fields :=
    if sameServer j.url next then fields
    else fields.filter fun f => !privateFields.contains f.name
  let fields :=
    match referer? j.url next with
    | none => fields
    | some value => Fields.set fields { name := refererField, value }
  { method := if bare then .get else j.method
    url := next
    fields
    body := if bare then [] else j.body }

/-! ### Sending -/

def maxRedirections : Nat := 10

def failure (what : String) (url : Url) (timedOut : Bool) : TransportError :=
  .exchange (what ++ " for url (" ++ url.text ++ ")") timedOut

def sendingFailed (url : Url) (timedOut : Bool) : TransportError :=
  failure "error sending request" url timedOut

def buildingFailed (url : Url) : TransportError :=
  failure "builder error" url false

def redirectingFailed (url : Url) : TransportError :=
  failure "error following redirect" url false

def bodyFailed : TransportError :=
  .exchange "error decoding response body" false

variable {σ : Type}

def Server.answersFor (server : Server σ) (url : Url) : Bool :=
  url.scheme = "http" && url.authority.bind Authority.host = some server.host &&
    effectivePort url = some server.port

def receivedLog (status : Status) (url : Url) : List LogRecord :=
  [⟨.trace, "received " ++ status.text ++ " from " ++ url.text⟩]

def replyOf (url : Url) (answer : Wire.Answer) (state : σ) : Reply σ where
  answer :=
    match answer.body with
    | some body => .ok ⟨answer.status, body⟩
    | none => .error bodyFailed
  log := receivedLog answer.status url
  state := state

/-- Sends a request and follows redirections, at most as many as are `left`. -/
def follow (server : Server σ) (left : Nat) (j : Journey) (state : σ) : Reply σ :=
  if !server.answersFor j.url then ⟨.error (sendingFailed j.url false), [], state⟩
  else
    match server.connect j.sent state with
    | (.refused, state) => ⟨.error (sendingFailed j.url false), [], state⟩
    | (.silent, state) => ⟨.error (sendingFailed j.url true), [], state⟩
    | (.answered bytes, state) =>
      match Wire.answer? bytes with
      | none => ⟨.error (sendingFailed j.url false), [], state⟩
      | some answer =>
        let location := (Wire.valuesOf answer.headers locationField).head?
        match if isRedirection answer.status then location.bind (resolve? j.url) else none with
        | none => replyOf j.url answer state
        | some next =>
          if next.scheme ≠ "http" && next.scheme ≠ "https" then
            ⟨.error (buildingFailed next), [], state⟩
          else
            match left with
            | 0 => ⟨.error (redirectingFailed j.url), [], state⟩
            | left + 1 => follow server left (j.redirected answer.status next) state

/-- The transport to a server, with a limit of time in seconds.  In no time nothing is sent. -/
def transport (server : Server σ) (timeout : Option UInt64) : Transport σ where
  send request state :=
    match Url.parse request.target.text with
    | .error _ => ⟨.error (.exchange "builder error" false), [], state⟩
    | .ok url =>
      let (url, credentials) := takeCredentials url
      if url.scheme ≠ "http" && url.scheme ≠ "https" then
        ⟨.error (buildingFailed url), [], state⟩
      else if timeout = some 0 then ⟨.error (sendingFailed url true), [], state⟩
      else
        let fields :=
          match credentials with
          | none => request.fields
          | some value =>
            request.fields.setDefault
              { name := Client.authorizationField, value, sensitive := true }
        follow server maxRedirections ⟨request.method, url, fields, request.body⟩ state

end PetClient.Http.Exchange
