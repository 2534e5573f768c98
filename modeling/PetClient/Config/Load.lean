import PetClient.Config.Yaml
import PetClient.Files.Tree
import PetClient.Log

/-!
Configuration files: where they are looked for, and how they are loaded.  The words in which the
YAML library refuses a text are its own, and they are passed on as they are.
-/

namespace PetClient.Config

open Files (Path Tree)

/-- The names of configuration files, the preferred one first. -/
def fileNames : List String :=
  [".petstorerc.json", ".petstorerc", "petstore.config.json", "petstore.config.yaml"]

def yamlExtensions : List String := ["yaml", "yml"]

def isYaml (path : Path) : Bool :=
  (path.extension?.map yamlExtensions.contains).getD false

/-- What the YAML library says of each text that it refuses. -/
def YamlWording : Type :=
  List Char → String

/-- A mark in place of the words, for where they are not known. -/
def YamlWording.mark : YamlWording := fun _ =>
  "(yaml error)"

def ofText (wording : YamlWording) (yaml : Bool) (text : List Char) : Except LoadError Config :=
  if yaml then
    match ofYaml? text with
    | some config => .ok config
    | none => .error (@LoadError.yaml (wording text))
  else (shape.decode (Utf8.encode text)).mapError .json

def load (tree : Tree) (path : Path) (wording : YamlWording := .mark) :
    Except ClientError Config :=
  let content : Except LoadError Config := do
    let text ← (tree.readText path).mapError .file
    ofText wording (isYaml path) text
  content.mapError (.config path.text)

def loadLog (path : Path) : Except ClientError Config → List LogRecord
  | .ok _ => [⟨.debug, "loaded client configuration from " ++ path.text⟩]
  | .error _ => []

def fileIn? (tree : Tree) (directory : Path) : Option Path :=
  (fileNames.map directory.join).find? tree.isFile

/-- The directories that are searched: the first one and those around it, as far as they lie in the
last one. -/
def searched (start : Path) (stop : Option Path) : List Path :=
  start.ancestors.takeWhile fun directory =>
    match stop with
    | none => true
    | some stop => directory.startsWith stop

def findFile (tree : Tree) (start : Path) (stop : Option Path) : Option Path :=
  (searched start stop).findSome? (fileIn? tree)

def discover (tree : Tree) (start : Path) (stop : Option Path) (wording : YamlWording := .mark) :
    Except ClientError (Option Config) :=
  match findFile tree start stop with
  | none => .ok none
  | some path => (load tree path wording).map some

def discoverLog (tree : Tree) (start : Path) (stop : Option Path) (wording : YamlWording := .mark) :
    List LogRecord :=
  match findFile tree start stop with
  | none => []
  | some path => loadLog path (load tree path wording)

end PetClient.Config
