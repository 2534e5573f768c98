import PetClient.Api
import PetClient.Demo.Resolve

/-!
Listing the first pets of an API, one line a pet.
-/

namespace PetClient.Demo

variable {σ : Type}

structure Listing (σ : Type) where
  output : String
  failure : Option Failure
  log : List LogRecord
  state : σ

def petsAddress (config : Config) : String :=
  config.trimmedBaseUrl ++ "/pets"

def listingLine (config : Config) : String :=
  "Listing " ++ petsAddress config ++ " ...\n"

def petLine (pet : Pet) : String :=
  "  - #" ++ toString pet.id.toInt ++ " " ++ pet.name ++ " (" ++ pet.status.name ++ ")\n"

def petLines (pets : List Pet) : String :=
  "Found " ++ toString pets.length ++ " pets\n" ++ String.join (pets.map petLine)

def firstPets : PetQuery where
  limit := some 10

def list (config : Config) (transport : Transport σ) (state : σ) : Listing σ :=
  match Client.ofConfig config with
  | .error error =>
    ⟨listingLine config, some (.ofClient "failed to set up the API client" error), [], state⟩
  | .ok client =>
    let outcome := Api.listPets client transport firstPets state
    match outcome.result with
    | .error error =>
      ⟨listingLine config, some (.ofClient ("GET " ++ petsAddress config ++ " failed") error),
        outcome.log, outcome.state⟩
    | .ok pets => ⟨listingLine config ++ petLines pets, none, outcome.log, outcome.state⟩

end PetClient.Demo
