import PetClient.Dict
import PetClient.Http.Header
import PetClient.Text.Basic

/-!
Everything that is needed to set up a client, and the header fields that follow from it.
-/

namespace PetClient

structure Config where
  baseUrl : String
  headers : Dict String := ∅
  token : Option String := none
  timeoutSecs : Option UInt64 := none

namespace Config

def withHeader (c : Config) (name value : String) : Config :=
  { c with headers := c.headers.insert name value }

def withToken (c : Config) (token : String) : Config :=
  { c with token := some token }

def withTimeout (c : Config) (secs : UInt64) : Config :=
  { c with timeoutSecs := some secs }

/-- The value of the `Authorization` field that the token implies; an empty token implies none. -/
def authorization (c : Config) : Option String :=
  match c.token with
  | none => none
  | some token => if token.isEmpty then none else some ("Bearer " ++ token)

def sameName (a b : String) : Bool :=
  Http.lowerCase a == Http.lowerCase b

/-- Sets a field in place of every one whose name differs in case alone. -/
def mergeHeader (headers : Dict String) (header : String × String) : Dict String :=
  (headers.filterKeys fun name => !sameName name header.1).insert header.1 header.2

def headerSources (c : Config) : List (String × String) :=
  c.headers.entries ++ (c.authorization.map fun value => ("Authorization", value)).toList

/-- The fields that a client sends with every request.  A later one replaces an earlier one whose
name differs in case alone, and the token's replaces any configured one. -/
def effectiveHeaders (c : Config) : Dict String :=
  c.headerSources.foldl mergeHeader ∅

def trimmedBaseUrl (c : Config) : String :=
  String.ofList (Text.trimEnd '/' c.baseUrl.toList)

end Config

end PetClient
