import PetClient.Text.Utf8

/-!
Targets of requests: an address as it is taken apart for sending, without its fragment.  Only some
characters may stand in each part.
-/

namespace PetClient.Http

inductive TargetProblem
  | tooLong
  | schemeTooLong
  | characterInvalid
  | authorityInvalid
  | authorityMissing
  deriving DecidableEq, Repr

def TargetProblem.message : TargetProblem → String
  | tooLong => "uri too long"
  | schemeTooLong => "scheme too long"
  | characterInvalid => "invalid uri character"
  | authorityInvalid => "invalid authority"
  | authorityMissing => "invalid format"

/-- Where a request goes.  A target without scheme is an authority alone. -/
structure Target where
  scheme : Option String
  authority : String
  path : String
  deriving DecidableEq, Repr

namespace Target

def maxLength : Nat := 65534

def maxSchemeLength : Nat := 64

def isSchemeChar (c : Char) : Bool :=
  c.isAlphanum || c = '+' || c = '-' || c = '.'

def splitScheme (text : List Char) : Except TargetProblem (Option (List Char) × List Char) :=
  let scheme := text.takeWhile isSchemeChar
  match text.dropWhile isSchemeChar with
  | ':' :: '/' :: '/' :: rest =>
    if maxSchemeLength < scheme.length then .error .schemeTooLong else .ok (some scheme, rest)
  | _ => .ok (none, text)

def endsAuthority (c : Char) : Bool :=
  c = '/' || c = '?' || c = '#'

def isAuthorityChar (c : Char) : Bool :=
  c.isAlphanum || "!$&'()*+,-.;=_~".contains c

structure Seen where
  colons : Nat := 0
  opened : Bool := false
  closed : Bool := false
  percent : Bool := false
  endsInAt : Bool := false

/-- The greatest number of colons: those of an address of version 6 and its port. -/
def maxColons : Nat := 8

def Seen.add (s : Seen) (c : Char) : Except TargetProblem Seen :=
  let s := { s with endsInAt := false }
  if c = ':' then
    if maxColons ≤ s.colons then .error .authorityInvalid else .ok { s with colons := s.colons + 1 }
  else if c = '[' then
    if s.percent || s.opened then .error .authorityInvalid else .ok { s with opened := true }
  else if c = ']' then
    if !s.opened || s.closed then .error .authorityInvalid
    else .ok { s with closed := true, colons := 0, percent := false }
  else if c = '@' then .ok { s with colons := 0, percent := false, endsInAt := true }
  else if c = '%' then .ok { s with percent := true }
  else if isAuthorityChar c then .ok s
  else .error .characterInvalid

def Seen.isComplete (s : Seen) : Bool :=
  s.opened == s.closed && s.colons ≤ 1 && !s.endsInAt && !s.percent

def checkAuthority (text : List Char) : Except TargetProblem Unit := do
  let s ← text.foldlM Seen.add {}
  if s.isComplete then return () else throw .authorityInvalid

def isPathChar (c : Char) : Bool :=
  let n := c.toNat
  n = 0x21 || n = 0x22 || (0x24 ≤ n && n ≤ 0x3B) || n = 0x3D || (0x40 ≤ n && n ≤ 0x5F) ||
    (0x61 ≤ n && n ≤ 0x7E) || 0x7F ≤ n

def isQueryChar (c : Char) : Bool :=
  let n := c.toNat
  n = 0x21 || (0x24 ≤ n && n ≤ 0x3B) || n = 0x3D || 0x3F ≤ n

def readPath (text : List Char) : Except TargetProblem (List Char) :=
  let text := text.takeWhile (· != '#')
  let path := text.takeWhile (· != '?')
  let query := text.dropWhile (· != '?')
  if path.all isPathChar && (query.drop 1).all isQueryChar then
    .ok ((if path.isEmpty then ['/'] else path) ++ query)
  else .error .characterInvalid

def parse (text : String) : Except TargetProblem Target := do
  if maxLength < text.utf8ByteSize then throw .tooLong
  let (scheme, rest) ← splitScheme text.toList
  let authority := rest.takeWhile fun c => !endsAuthority c
  let path := rest.dropWhile fun c => !endsAuthority c
  checkAuthority authority
  match scheme with
  | none =>
    if !path.isEmpty then throw .authorityMissing
    return ⟨none, String.ofList authority, ""⟩
  | some scheme =>
    if authority.isEmpty then throw .authorityMissing
    let path ← readPath path
    return ⟨some (String.ofList scheme), String.ofList authority, String.ofList path⟩

def text (t : Target) : String :=
  match t.scheme with
  | none => t.authority
  | some scheme => scheme ++ "://" ++ t.authority ++ t.path

end Target

end PetClient.Http
