import PetClient.Url.Basic
import PetClient.Url.Domain.Label
import PetClient.Url.Ipv4
import PetClient.Url.Ipv6
import PetClient.Url.Percent

/-!
The host of an address: an internet address of either version, a domain name in ASCII form, or, in
an address of an unknown kind, any text without signs that have a meaning.
-/

namespace PetClient.Url

inductive Problem
  | schemeMissing
  | hostEmpty
  | portInvalid
  | ipv4Invalid
  | ipv6Invalid
  | domainInvalid
  | hostCharacter
  deriving DecidableEq, Repr

def Problem.message : Problem → String
  | schemeMissing => "relative URL without a base"
  | hostEmpty => "empty host"
  | portInvalid => "invalid port number"
  | ipv4Invalid => "invalid IPv4 address"
  | ipv6Invalid => "invalid IPv6 address"
  | domainInvalid => "invalid international domain name"
  | hostCharacter => "invalid domain character"

def bracketedHost (text : List Char) : Except Problem Host :=
  if text.getLast? = some ']' then
    match Ipv6.groups? text.dropLast with
    | some groups => .ok (.ipv6 groups)
    | none => .error .ipv6Invalid
  else .error .ipv6Invalid

def domainOf (text : List Char) : Except Problem (List Char) :=
  match (Utf8.decode? (percentDecode (Utf8.encode text))).bind Domain.toAscii? with
  | some domain => .ok domain
  | none => .error .domainInvalid

def knownHost (text : List Char) : Except Problem Host :=
  match text with
  | '[' :: rest => bracketedHost rest
  | text => do
    let domain ← domainOf text
    if domain.isEmpty then .error .hostEmpty
    else if Ipv4.endsInNumber domain then
      match Ipv4.address? domain with
      | some address => .ok (.ipv4 address)
      | none => .error .ipv4Invalid
    else .ok (.name (String.ofList domain))

def isHostSign (c : Char) : Bool :=
  c.toNat = 0 || "\t\n\r #/:<>?@[\\]^|".contains c

/-- The host of an address of an unknown kind; an empty text is no host. -/
def unknownHost (text : List Char) : Except Problem (Option Host) :=
  match text with
  | [] => .ok none
  | '[' :: rest => (bracketedHost rest).map some
  | text =>
    if text.any isHostSign then .error .hostCharacter
    else .ok (some (.name (String.ofList (percentEncode isControl text))))

end PetClient.Url
