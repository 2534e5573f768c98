import PetClient.Url.Host
import PetClient.Url.Path

/-!
Taking an address apart.  Blanks around it and line breaks within it count for nothing.  Known kinds
of addresses need a host, take backslashes for slashes and always have a path.
-/

namespace PetClient.Url

inductive Kind
  | web
  | file
  | unknown
  deriving DecidableEq, Repr

def defaultPort? (scheme : String) : Option Nat :=
  [("http", 80), ("https", 443), ("ws", 80), ("wss", 443), ("ftp", 21)].lookup scheme

def kindOf (scheme : String) : Kind :=
  if (defaultPort? scheme).isSome then .web else if scheme = "file" then .file else .unknown

def Kind.isSpecial : Kind → Bool
  | .unknown => false
  | _ => true

def Kind.isSeparator (kind : Kind) (c : Char) : Bool :=
  c = '/' || (kind.isSpecial && c = '\\')

/-- Blanks and controls, which are cut off at both ends. -/
def isOuterBlank (c : Char) : Bool :=
  c.toNat ≤ 0x20

def isLineBreak (c : Char) : Bool :=
  c = '\t' || c = '\n' || c = '\r'

def clean (text : List Char) : List Char :=
  (((text.dropWhile isOuterBlank).reverse.dropWhile isOuterBlank).reverse).filter
    fun c => !isLineBreak c

def isSchemeChar (c : Char) : Bool :=
  c.isAlphanum || c = '+' || c = '-' || c = '.'

def splitScheme? (text : List Char) : Option (String × List Char) :=
  match text with
  | [] => none
  | c :: _ =>
    if !c.isAlpha then none
    else
      match text.dropWhile isSchemeChar with
      | ':' :: rest => some (String.ofList ((text.takeWhile isSchemeChar).map Char.toLower), rest)
      | _ => none

def Kind.endsAuthority (kind : Kind) (c : Char) : Bool :=
  c = '?' || c = '#' || kind.isSeparator c

def splitCredentials? (text : List Char) : Option (List Char × List Char) :=
  if text.contains '@' then
    let host := (text.reverse.takeWhile (· != '@')).reverse
    some (text.take (text.length - host.length - 1), host)
  else none

def credentials (text : List Char) : String × String :=
  let encode (part : List Char) : String := String.ofList (percentEncode encodedInCredentials part)
  (encode (text.takeWhile (· != ':')), encode ((text.dropWhile (· != ':')).drop 1))

/-- The host and what follows it, from the first colon outside of brackets on. -/
def spanHost (inBrackets : Bool) : List Char → List Char × List Char
  | [] => ([], [])
  | c :: rest =>
    if c = ':' && !inBrackets then ([], c :: rest)
    else
      let (host, tail) := spanHost ((inBrackets || c = '[') && c != ']') rest
      (c :: host, tail)

def natOfDigits (digits : List Char) : Nat :=
  digits.foldl (fun n c => n * 10 + (c.toNat - '0'.toNat)) 0

/-- The port, if it is not the one that the scheme stands for, and what follows it. -/
def portOf (scheme : String) (text : List Char) : Except Problem (Option Nat × List Char) :=
  match text with
  | ':' :: text =>
    let digits := text.takeWhile Char.isDigit
    let port := natOfDigits digits
    match text.dropWhile Char.isDigit with
    | rest =>
      if 65535 < port || (!rest.isEmpty && rest.head? ≠ some '\\') then .error .portInvalid
      else if digits.isEmpty || defaultPort? scheme = some port then .ok (none, rest)
      else .ok (some port, rest)
  | rest => .ok (none, rest)

def splitAuthority (scheme : String) (text : List Char) :
    Except Problem (Authority × List Char) := do
  let kind := kindOf scheme
  let inside := text.takeWhile fun c => !kind.endsAuthority c
  let after := text.dropWhile fun c => !kind.endsAuthority c
  let (login, address) := (splitCredentials? inside).getD ([], inside)
  let (username, password) := credentials login
  let (hostText, tail) := spanHost false address
  if hostText.isEmpty && (inside.getLast? = some '@' && login.isEmpty && !after.isEmpty) then
    throw .hostEmpty
  else if hostText.isEmpty && (kind.isSpecial || !tail.isEmpty) then throw .hostEmpty
  let host ← if kind.isSpecial then (knownHost hostText).map some else unknownHost hostText
  let (port, rest) ← portOf scheme tail
  if host.isNone && (username ≠ "" || password ≠ "") then throw .hostEmpty
  return ({ username, password, host, port }, rest ++ after)

structure Tail where
  path : List Char
  query : Option (List Char)
  fragment : Option (List Char)

def Tail.ofText (text : List Char) : Tail :=
  let front := text.takeWhile (· != '#')
  let fragment :=
    match text.dropWhile (· != '#') with
    | [] => none
    | _ :: rest => some rest
  let path := front.takeWhile (· != '?')
  let query :=
    match front.dropWhile (· != '?') with
    | [] => none
    | _ :: rest => some rest
  ⟨path, query, fragment⟩

def Tail.encodedQuery (tail : Tail) (kind : Kind) : Option String :=
  tail.query.map fun query =>
    String.ofList (percentEncode (encodedInQuery kind.isSpecial) query)

def Tail.encodedFragment (tail : Tail) : Option String :=
  tail.fragment.map fun fragment => String.ofList (percentEncode encodedInFragment fragment)

def Tail.url (tail : Tail) (scheme : String) (authority : Option Authority) (path : List Char) :
    Url where
  scheme := scheme
  authority := authority
  path := String.ofList path
  query := tail.encodedQuery (kindOf scheme)
  fragment := tail.encodedFragment

def dropSlash (isSeparator : Char → Bool) : List Char → List Char
  | [] => []
  | c :: rest => if isSeparator c then rest else c :: rest

def Kind.pathAfterAuthority (kind : Kind) (text : List Char) : List Char :=
  if text.isEmpty && !kind.isSpecial then []
  else pathOf kind.isSeparator (dropSlash kind.isSeparator text)

def parseWeb (scheme : String) (text : List Char) : Except Problem Url := do
  let (authority, rest) ← splitAuthority scheme (text.dropWhile (kindOf scheme).isSeparator)
  let tail := Tail.ofText rest
  return tail.url scheme (some authority) ((kindOf scheme).pathAfterAuthority tail.path)

def parseUnknown (scheme : String) (text : List Char) : Except Problem Url :=
  match text with
  | '/' :: '/' :: text => do
    let (authority, rest) ← splitAuthority scheme text
    let tail := Tail.ofText rest
    return tail.url scheme (some authority) (Kind.unknown.pathAfterAuthority tail.path)
  | '/' :: text =>
    let tail := Tail.ofText text
    .ok (tail.url scheme none (pathOf Kind.unknown.isSeparator tail.path))
  | text =>
    let tail := Tail.ofText text
    .ok (tail.url scheme none (percentEncode isControl tail.path))

/-! ### Files -/

def fileHost (text : List Char) : Except Problem (Option Host) := do
  if text.isEmpty then return none
  let host ← knownHost text
  return if host = .name "localhost" then none else some host

/-- The path of a file without empty segments at its start, and whether it starts with a drive. -/
def filePath (text : List Char) : List Char × Bool :=
  let isSeparator := Kind.file.isSeparator
  match (segments isSeparator (dropSlash isSeparator text)).map (percentEncode encodedInPath) with
  | first :: rest =>
    let named := isDrive first
    let first := if named then first.take 1 ++ [':'] else first
    let path := joinSegments (resolve (first :: rest))
    ('/' :: path.dropWhile (· = '/'), named)
  | [] => (['/'], false)

def parseFile (text : List Char) : Except Problem Url :=
  let isSeparator := Kind.file.isSeparator
  let build (host : Option Host) (rest : List Char) : Url :=
    let tail := Tail.ofText rest
    let (path, onDrive) := filePath tail.path
    tail.url "file" (some { host := if onDrive then none else host }) path
  match text with
  | a :: b :: rest =>
    if isSeparator a && isSeparator b then
      let inside := rest.takeWhile fun c => !Kind.file.endsAuthority c
      let after := rest.dropWhile fun c => !Kind.file.endsAuthority c
      if isDrive inside then .ok (build none rest)
      else do
        let host ← fileHost inside
        return build host after
    else .ok (build none text)
  | text => .ok (build none text)

def parse (text : String) : Except Problem Url :=
  match splitScheme? (clean text.toList) with
  | none => .error .schemeMissing
  | some (scheme, rest) =>
    match kindOf scheme with
    | .web => parseWeb scheme rest
    | .file => parseFile rest
    | .unknown => parseUnknown scheme rest

end PetClient.Url
