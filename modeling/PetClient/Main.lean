import PetClient.Demo.Run
import PetClient.Http.Exchange

/-!
The demo as a command.  Files are looked up once, before the run, at every place that the run may
ask for.  The command opens no connections of its own, so every call finds its server closed.
-/

namespace PetClient.Main

open Files (Path Place Tree Entry)

def textOf (place : Place) : String :=
  String.ofList ('/' :: List.intercalate ['/'] place)

def directoryError : UInt32 := 21

def look (place : Place) : IO (Option Entry) := do
  try
    let content ← IO.FS.readBinFile (textOf place)
    return some (.file content.toList)
  catch
    | .inappropriateType _ code _ => return if code = directoryError then some .directory else none
    | _ => return none

def survey (cwd : Place) (paths : List Path) : IO Tree := do
  let start : Tree := { cwd }
  let places := (paths.flatMap start.placesOn).eraseDups
  let mut tree := start
  for place in places do
    match ← look place with
    | some entry => tree := tree.set place entry
    | none => pure ()
  return tree

def pathsOf (cwd : Path) (arguments : Except Demo.Refusal Demo.Arguments) : List Path :=
  let searched := (Config.searched cwd none).flatMap fun directory =>
    Config.fileNames.map directory.join
  match arguments with
  | .error _ => []
  | .ok a => (a.config.map fun path => [path]).getD searched

def closed : Http.Exchange.Server Unit where
  connect _ state := (.refused, state)
  host := .name ""
  port := 0

end PetClient.Main

open PetClient in
def main (line : List String) : IO UInt32 := do
  let environment : Demo.Environment :=
    ⟨← IO.getEnv "PETSTORE_BASE_URL", ← IO.getEnv "PETSTORE_TOKEN"⟩
  let cwd : Files.Path := ⟨toString (← IO.currentDir)⟩
  let place := ({} : Files.Tree).placeOf cwd
  let tree ← Main.survey place (Main.pathsOf cwd (Demo.Arguments.read environment line))
  let transport (config : Config) := Http.Exchange.transport Main.closed config.timeoutSecs
  let run := Demo.run tree cwd environment line transport ()
  IO.print run.output
  IO.eprint run.errors
  return run.exitCode.toUInt32
