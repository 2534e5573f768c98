import PetClient.Client.Error
import PetClient.Files.Path

/-!
A tree of files and directories, and finding one's way in it.
-/

namespace PetClient.Files

inductive Entry
  | file (content : Bytes)
  | directory
  deriving DecidableEq, Repr

abbrev Place := List (List Char)

/-- A tree, as the places that hold something; the root is a directory. -/
structure Tree where
  entries : List (Place × Entry) := []
  /-- Where paths start that do not start at the root. -/
  cwd : Place := []

namespace Tree

def entry? (tree : Tree) (place : Place) : Option Entry :=
  if place.isEmpty then some .directory else tree.entries.lookup place

def enter (tree : Tree) (place : Place) (part : List Char) : Except FileError Place :=
  match tree.entry? place with
  | none => .error .notFound
  | some (.file _) => .error .notDirectory
  | some .directory =>
    match part with
    | [] => .ok place
    | ['.'] => .ok place
    | ['.', '.'] => .ok place.dropLast
    | name => .ok (place ++ [name])

def locate (tree : Tree) (path : Path) : Except FileError Place :=
  let text := path.text.toList
  if text.any fun c => c.toNat = 0 then .error .nameInvalid
  else if text.isEmpty then .error .notFound
  else
    (Text.splitAt '/' text).foldlM tree.enter (if path.isAbsolute then [] else tree.cwd)

def find (tree : Tree) (path : Path) : Except FileError Entry := do
  let place ← tree.locate path
  match tree.entry? place with
  | some entry => return entry
  | none => throw .notFound

def isFile (tree : Tree) (path : Path) : Bool :=
  match tree.find path with
  | .ok (.file _) => true
  | _ => false

def read (tree : Tree) (path : Path) : Except FileError Bytes := do
  match ← tree.find path with
  | .file content => return content
  | .directory => throw .isDirectory

def readText (tree : Tree) (path : Path) : Except FileError (List Char) := do
  match Utf8.decode? (← tree.read path) with
  | some text => return text
  | none => throw .notText

/-! ### Changing a tree -/

def step (place : Place) : Component → Place
  | .root => []
  | .here => place
  | .up => place.dropLast
  | .name text => place ++ [text]

/-- The place that a path names, whether or not there is anything. -/
def placeOf (tree : Tree) (path : Path) : Place :=
  path.components.foldl step tree.cwd

def placesOn (tree : Tree) (path : Path) : List Place :=
  let ways := (List.range (path.components.length + 1)).map path.components.take
  let ends := ways.map fun way => way.foldl step tree.cwd
  ends.flatMap fun place => (List.range (place.length + 1)).map place.take

def set (tree : Tree) (place : Place) (entry : Entry) : Tree :=
  { tree with
    entries := (place, entry) :: tree.entries.filter fun (other, _) => other != place }

def ensureDirectory (tree : Tree) (place : Place) : Tree :=
  if (tree.entry? place).isSome then tree else tree.set place .directory

def put (tree : Tree) (path : Path) (entry : Entry) : Tree :=
  let place := tree.placeOf path
  let around := (List.range place.length).map place.take
  (around.foldl ensureDirectory tree).set place entry

def remove (tree : Tree) (path : Path) : Tree :=
  let place := tree.placeOf path
  { tree with entries := tree.entries.filter fun (other, _) => !place.isPrefixOf other }

end Tree

end PetClient.Files
