import PetClient.Config.Load
import PetClient.Demo.Arguments

/-!
The configuration that the demo works with: flags go before the configuration file, and that before
the defaults.
-/

namespace PetClient.Demo

open Config (YamlWording)
open Files (Path Tree)

def defaultBaseUrl : String := "https://api.petstore.example.com/v1"

def defaultToken : String := "your-api-token"

/-- A failure as it is told: what was attempted, and the causes from the outermost on. -/
structure Failure where
  message : String
  causes : List String
  deriving DecidableEq, Repr

def Failure.ofClient (attempt : String) (error : ClientError) : Failure :=
  ⟨attempt, error.message :: error.causes⟩

def errorLine (error : ClientError) : String :=
  ": ".intercalate (error.message :: error.causes)

def Arguments.override (a : Arguments) (config : Config) : Config :=
  { config with
    baseUrl := a.baseUrl.getD config.baseUrl
    token := a.token.or config.token }

def defaultConfig : Config where
  baseUrl := defaultBaseUrl
  token := some defaultToken

/-- The configuration of a file, if one is named or found.  One that is named has to be loaded; one
that is found is ignored if it cannot be. -/
def fileConfig (tree : Tree) (a : Arguments) (cwd : Path) (stop : Option Path)
    (wording : YamlWording) : Except Failure (Option Config) :=
  match a.config with
  | some path =>
    (Config.load tree path wording).map some
      |>.mapError (.ofClient ("failed to load " ++ path.text))
  | none =>
    match Config.discover tree cwd stop wording with
    | .ok found => .ok found
    | .error _ => .ok none

def resolve (tree : Tree) (a : Arguments) (cwd : Path) (stop : Option Path)
    (wording : YamlWording := .mark) : Except Failure Config :=
  (fileConfig tree a cwd stop wording).map fun found => a.override (found.getD defaultConfig)

def fileLog (tree : Tree) (a : Arguments) (cwd : Path) (stop : Option Path)
    (wording : YamlWording) : List LogRecord :=
  match a.config with
  | some path => Config.loadLog path (Config.load tree path wording)
  | none =>
    match Config.discover tree cwd stop wording with
    | .ok _ => Config.discoverLog tree cwd stop wording
    | .error error => [⟨.warn, "ignoring configuration file: " ++ errorLine error⟩]

def resolveLog (tree : Tree) (a : Arguments) (cwd : Path) (stop : Option Path)
    (wording : YamlWording := .mark) : List LogRecord :=
  fileLog tree a cwd stop wording ++
    match resolve tree a cwd stop wording with
    | .ok config => [⟨.debug, "using base URL " ++ config.baseUrl⟩]
    | .error _ => []

end PetClient.Demo
