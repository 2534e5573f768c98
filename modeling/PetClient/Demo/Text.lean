import PetClient.Config.Basic
import PetClient.Demo.Usage
import PetClient.Json.Printer

/-!
The text of the demo, piece by piece, and writing it where there may be too little room.
-/

namespace PetClient.Demo

structure Sheet where
  written : List Char := []
  room : Option Nat := none
  deriving DecidableEq, Repr

namespace Sheet

/-- Writes a text.  When the room ends, what fits is written and the sheet is given back as full. -/
def put (sheet : Sheet) (text : List Char) : Except Sheet Sheet :=
  match sheet.room with
  | none => .ok { sheet with written := sheet.written ++ text }
  | some room =>
    let next : Sheet := ⟨sheet.written ++ text.take room, some (room - text.length)⟩
    if text.length ≤ room then .ok next else .error next

def putAll (sheet : Sheet) (texts : List (List Char)) : Except Sheet Sheet :=
  texts.foldlM put sheet

end Sheet

def fullMessage : String :=
  "an error occurred when formatting an argument"

structure Options where
  style : Style
  json : Bool := false
  generator : String
  deriving DecidableEq, Repr

def width : Nat := 40

def padded (width : Nat) (text : String) : String :=
  text ++ String.ofList (List.replicate (width - text.length) ' ')

def rule (c : Char) : String :=
  String.ofList (List.replicate width c)

def headersJson (config : Config) : Json :=
  .object (config.effectiveHeaders.entries.map fun (name, value) => (name, .string value))

def configJson (config : Config) : Json :=
  .object [("base_url", .string config.baseUrl), ("headers", headersJson config)]

def configLines (config : Config) (json : Bool) : List String :=
  if json then ["Configuration: " ++ (configJson config).pretty]
  else ["Configuration:", "  base_url: " ++ config.baseUrl,
    "  headers: " ++ (headersJson config).compact]

def operationLine (style : Style) (operation : Operation) : String :=
  "  - " ++ padded 6 operation.method ++ " " ++ padded 16 operation.path ++ " → " ++
    operation.call style

def instructionLines (options : Options) : List String := [
  "To run this example with a real API:",
  "1. Run: " ++ options.generator ++ " generate -s ../specs/petstore.yaml -l " ++
    options.style.name ++ " -o ./generated",
  "2. " ++ importStep options.style,
  "3. Update the base_url and token",
  "4. Run: " ++ runStep options.style]

def divider : List String := ["", rule '-', ""]

/-- The lines of the demo; some of them hold several lines of text. -/
def lines (config : Config) (options : Options) : List String :=
  ["Petstore API Client Example (" ++ options.style.name ++ ")", rule '=', ""] ++
    configLines config options.json ++ divider ++
    "Available Operations:" :: operations.map (operationLine options.style) ++ divider ++
    ["Example Usage Patterns:", usage options.style] ++ instructionLines options

def pieces (config : Config) (options : Options) : List (List Char) :=
  (lines config options).map fun line => line.toList ++ ['\n']

def write (sheet : Sheet) (config : Config) (options : Options) : Except Sheet Sheet :=
  sheet.putAll (pieces config options)

def render (config : Config) (options : Options) : String :=
  String.ofList (pieces config options).flatten

end PetClient.Demo
