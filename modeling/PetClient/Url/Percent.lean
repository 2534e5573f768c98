import PetClient.Text.Basic
import PetClient.Text.Utf8

/-!
Percent-encoding: bytes that may not stand in a part of an address are written as `%` and two
hexadecimal digits.
-/

namespace PetClient.Url

def percentByte (b : UInt8) : List Char :=
  ['%', (Nat.digitChar (b.toNat / 16)).toUpper, (Nat.digitChar (b.toNat % 16)).toUpper]

/-- Encodes the characters outside ASCII and those for which `encoded` holds. -/
def percentEncode (encoded : Char → Bool) (text : List Char) : List Char :=
  text.flatMap fun c =>
    if c.toNat < 0x80 && !encoded c then [c]
    else (String.utf8EncodeChar c).flatMap percentByte

def isControl (c : Char) : Bool :=
  c.toNat < 0x20 || 0x7F ≤ c.toNat

def encodedInFragment (c : Char) : Bool :=
  isControl c || " \"<>`".contains c

def encodedInPath (c : Char) : Bool :=
  encodedInFragment c || "#?\x7b\x7d".contains c

def encodedInCredentials (c : Char) : Bool :=
  encodedInPath c || "/:;=@[\\]^|".contains c

/-- The characters that are encoded in a query; in a web address a single quote is, too. -/
def encodedInQuery (special : Bool) (c : Char) : Bool :=
  isControl c || " \"#<>".contains c || (special && c = '\'')

def percentDecode : Bytes → Bytes
  | 0x25 :: a :: b :: rest =>
    match Text.hexDigit? (Char.ofNat a.toNat), Text.hexDigit? (Char.ofNat b.toNat) with
    | some high, some low => UInt8.ofNat (high * 16 + low) :: percentDecode rest
    | _, _ => 0x25 :: percentDecode (a :: b :: rest)
  | b :: rest => b :: percentDecode rest
  | [] => []

end PetClient.Url
