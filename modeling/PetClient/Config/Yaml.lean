import PetClient.Config.Wire
import PetClient.Yaml.Document

/-!
Configurations as YAML.
-/

namespace PetClient.Config

open Yaml (Document NodeReader)

def readHeaders (doc : Document) : NodeReader (Dict String) :=
  doc.readMapping (fun headers name position => do
    let (value, next) ← doc.readText position
    some (headers.insert name value, next)) ∅

def fill {α : Type} (read : NodeReader α) (old : Option α) (set : Option α → Draft)
    (position : Nat) : Option (Draft × Nat) :=
  if old.isSome then none else (read position).map fun (value, next) => (set (some value), next)

/-- Reads one member into a draft; a member of another name is passed over. -/
def readMember (doc : Document) (draft : Draft) (name : String) (position : Nat) :
    Option (Draft × Nat) :=
  match name with
  | "base_url" => fill doc.readText draft.baseUrl (fun v => { draft with baseUrl := v }) position
  | "headers" =>
    fill (readHeaders doc) draft.headers (fun v => { draft with headers := v }) position
  | "token" =>
    fill (doc.readOptional doc.readText) draft.token (fun v => { draft with token := v }) position
  | "timeout_secs" =>
    fill (doc.readOptional doc.readWord) draft.timeoutSecs
      (fun v => { draft with timeoutSecs := v }) position
  | _ => (doc.skipNode position).map fun next => (draft, next)

def ofYaml? (text : List Char) : Option Config := do
  let doc ← Yaml.document? text
  let (draft, _) ← doc.readMapping (readMember doc) {} 0
  draft.build.toOption

end PetClient.Config
