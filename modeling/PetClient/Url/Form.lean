import PetClient.Url.Basic
import PetClient.Url.Percent

/-!
Queries made of names and values, and adding such pairs to an address.
-/

namespace PetClient.Url.Form

def isPlain (c : Char) : Bool :=
  c.isAlphanum || c = '*' || c = '-' || c = '.' || c = '_'

def encodeByte (b : UInt8) : List Char :=
  let c := Char.ofNat b.toNat
  if b < 0x80 && isPlain c then [c] else if b = 0x20 then ['+'] else percentByte b

def encodeText (text : String) : List Char :=
  (Utf8.bytesOf text).flatMap encodeByte

def encodePair (pair : String × String) : List Char :=
  encodeText pair.1 ++ '=' :: encodeText pair.2

def addPair (query : List Char) (pair : String × String) : List Char :=
  query ++ (if query.isEmpty then [] else ['&']) ++ encodePair pair

end PetClient.Url.Form

namespace PetClient.Url

/-- Adds pairs to the query of an address; without pairs nothing changes. -/
def addPairs (u : Url) (pairs : List (String × String)) : Url :=
  if pairs.isEmpty then u
  else
    let query := pairs.foldl Form.addPair ((u.query.map String.toList).getD [])
    { u with query := some (String.ofList query) }

end PetClient.Url
