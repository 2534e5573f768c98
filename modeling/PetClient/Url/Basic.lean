import PetClient.Text.Utf8

/-!
Web addresses, taken apart, and their text.
-/

namespace PetClient

inductive Host
  | name (text : String)
  | ipv4 (address : UInt32)
  | ipv6 (groups : List Nat)
  deriving DecidableEq, Repr

namespace Host

def ipv4Chars (address : UInt32) : List Char :=
  let n := address.toNat
  let part (k : Nat) : List Char := Nat.toDigits 10 (n / Nat.pow 256 k % 256)
  part 3 ++ '.' :: part 2 ++ '.' :: part 1 ++ '.' :: part 0

def zeroRun (groups : List Nat) : Nat :=
  (groups.takeWhile (· = 0)).length

/-- Where the longest run of zero groups starts, and its length; of several the first. -/
def longestZeroRun : List Nat → Nat × Nat
  | [] => (0, 0)
  | g :: rest =>
    let here := zeroRun (g :: rest)
    let (start, length) := longestZeroRun rest
    if length ≤ here then (0, here) else (start + 1, length)

def groupChars (groups : List Nat) : List Char :=
  List.intercalate [':'] (groups.map fun g => Nat.toDigits 16 g)

/-- Eight groups, the longest run of at least two zeros left out. -/
def ipv6Chars (groups : List Nat) : List Char :=
  let (start, length) := longestZeroRun groups
  if length < 2 then groupChars groups
  else groupChars (groups.take start) ++ [':', ':'] ++ groupChars (groups.drop (start + length))

def chars : Host → List Char
  | name text => text.toList
  | ipv4 address => ipv4Chars address
  | ipv6 groups => '[' :: (ipv6Chars groups ++ [']'])

def text (host : Host) : String :=
  String.ofList host.chars

end Host

structure Authority where
  username : String := ""
  password : String := ""
  host : Option Host
  port : Option Nat := none
  deriving DecidableEq, Repr

namespace Authority

def credentialChars (a : Authority) : List Char :=
  if a.username = "" && a.password = "" then []
  else
    a.username.toList ++ (if a.password = "" then [] else ':' :: a.password.toList) ++ ['@']

def hostChars (a : Authority) : List Char :=
  (a.host.map Host.chars).getD []

def portChars (a : Authority) : List Char :=
  match a.port with
  | none => []
  | some port => ':' :: Nat.toDigits 10 port

def chars (a : Authority) : List Char :=
  a.credentialChars ++ a.hostChars ++ a.portChars

end Authority

/-- An address, taken apart.  Its parts are as they stand in its text. -/
structure Url where
  scheme : String
  authority : Option Authority
  path : String
  query : Option String := none
  fragment : Option String := none
  deriving DecidableEq, Repr

namespace Url

def partChars (sign : Char) : Option String → List Char
  | none => []
  | some part => sign :: part.toList

def originChars (u : Url) : List Char :=
  u.scheme.toList ++ ':' ::
    match u.authority with
    | some a => '/' :: '/' :: a.chars
    | none => if u.path.startsWith "//" then ['/', '.'] else []

def targetChars (u : Url) : List Char :=
  u.originChars ++ u.path.toList ++ partChars '?' u.query

def chars (u : Url) : List Char :=
  u.targetChars ++ partChars '#' u.fragment

def text (u : Url) : String :=
  String.ofList u.chars

end Url

end PetClient
