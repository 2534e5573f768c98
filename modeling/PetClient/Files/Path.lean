import PetClient.Text.Basic

/-!
Paths of files: names between slashes.  Empty names and points between slashes count for nothing,
but a point in front is kept, and two points are not resolved.
-/

namespace PetClient.Files

structure Path where
  text : String
  deriving DecidableEq, Repr

inductive Component
  | root
  | here
  | up
  | name (text : List Char)
  deriving DecidableEq, Repr

namespace Path

def componentOf (isFirst : Bool) (part : List Char) : Option Component :=
  match part with
  | [] => none
  | ['.'] => if isFirst then some .here else none
  | ['.', '.'] => some .up
  | part => some (.name part)

/-- The components of parts between slashes, each with the place where it ends. -/
def locate (start : Nat) (isFirst : Bool) : List (List Char) → List (Component × Nat)
  | [] => []
  | part :: rest =>
    let stop := start + part.length
    ((componentOf isFirst part).map fun c => (c, stop)).toList ++ locate (stop + 1) false rest

def located (p : Path) : List (Component × Nat) :=
  match p.text.toList with
  | [] => []
  | '/' :: rest => (.root, 1) :: locate 1 false (Text.splitAt '/' rest)
  | text => locate 0 true (Text.splitAt '/' text)

def components (p : Path) : List Component :=
  p.located.map Prod.fst

def isAbsolute (p : Path) : Bool :=
  p.components.head? = some .root

def cut (p : Path) (stop : Nat) : Path :=
  ⟨String.ofList (p.text.toList.take stop)⟩

/-- The path, the directory that holds it, the one that holds that, and so on.  The last one is the
root, or the empty path. -/
def ancestors (p : Path) : List Path :=
  let stops := p.located.map Prod.snd
  let stops := if p.isAbsolute then stops else if stops.isEmpty then [] else 0 :: stops
  p :: (stops.dropLast.reverse.map p.cut)

def startsWith (p start : Path) : Bool :=
  start.components.isPrefixOf p.components

def join (directory : Path) (name : String) : Path :=
  if directory.text.isEmpty then ⟨name⟩
  else if directory.text.endsWith "/" then ⟨directory.text ++ name⟩
  else ⟨directory.text ++ "/" ++ name⟩

def extension? (p : Path) : Option String :=
  match p.components.getLast? with
  | some (.name text) =>
    let ending := (text.reverse.takeWhile (· != '.')).reverse
    if ending.length + 1 < text.length then some (String.ofList ending) else none
  | _ => none

end Path

end PetClient.Files
