import PetClient.Demo.Listing
import PetClient.Demo.Text

/-!
The demo as a program: what it writes and how it exits.
-/

namespace PetClient.Demo

open Config (YamlWording)
open Files (Path Tree)

variable {σ : Type}

structure Run (σ : Type) where
  exitCode : UInt8
  output : String
  errors : String
  state : σ

def hanging (width : Nat) (text : String) : String :=
  text.replace "\n" ("\n" ++ String.ofList (List.replicate width ' '))

def causeLines : List String → List String
  | [] => []
  | [cause] => ["    " ++ hanging 4 cause]
  | causes => causes.zipIdx.map fun (cause, i) =>
    let number := toString i
    String.ofList (List.replicate (5 - number.length) ' ') ++ number ++ ": " ++ hanging 7 cause

def Failure.report (failure : Failure) : String :=
  "Error: " ++ failure.message ++ "\n" ++
    if failure.causes.isEmpty then ""
    else "\nCaused by:\n" ++ String.join ((causeLines failure.causes).map (· ++ "\n"))

def failed (output : String) (failure : Failure) (state : σ) : Run σ :=
  ⟨1, output, failure.report, state⟩

def Arguments.options (a : Arguments) : Options where
  style := a.style
  json := a.json
  generator := a.generator

/-- Runs the demo with arguments that have been read.  The transport may depend on the
configuration. -/
def runWith (tree : Tree) (cwd : Path) (a : Arguments) (transport : Config → Transport σ)
    (state : σ) (wording : YamlWording) : Run σ :=
  match resolve tree a cwd none wording with
  | .error failure => failed "" failure state
  | .ok config =>
    let text := render config a.options
    if !a.listPets then ⟨0, text, "", state⟩
    else
      let listing := list config (transport config) state
      let output := text ++ "\n" ++ listing.output
      match listing.failure with
      | some failure => failed output failure listing.state
      | none => ⟨0, output, "", listing.state⟩

def run (tree : Tree) (cwd : Path) (environment : Environment) (line : List String)
    (transport : Config → Transport σ) (state : σ) (wording : YamlWording := .mark) : Run σ :=
  match Arguments.read environment line with
  | .ok a => runWith tree cwd a transport state wording
  | .error refusal =>
    let text := refusal.message environment
    if refusal = .help then ⟨refusal.exitCode, text, "", state⟩
    else ⟨refusal.exitCode, "", text, state⟩

end PetClient.Demo
