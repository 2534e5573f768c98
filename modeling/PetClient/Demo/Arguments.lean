import PetClient.Demo.Operation
import PetClient.Demo.Similar
import PetClient.Files.Path

/-!
The command line of the demo.  Options are read one after the other; a value that stands by itself
is looked at when the next option comes or the line ends, so an unknown argument is reported before
it.
-/

namespace PetClient.Demo

structure Arguments where
  baseUrl : Option String := none
  token : Option String := none
  style : Style := .rust
  json : Bool := false
  listPets : Bool := false
  config : Option Files.Path := none
  generator : String := "api-tool"
  deriving DecidableEq, Repr

structure Environment where
  baseUrl : Option String := none
  token : Option String := none
  deriving DecidableEq, Repr

inductive Flag
  | baseUrl
  | token
  | style
  | json
  | listPets
  | config
  | generator
  | help
  deriving DecidableEq, Repr

namespace Flag

def all : List Flag := [baseUrl, token, style, json, listPets, config, generator, help]

def long : Flag → String
  | baseUrl => "base-url"
  | token => "token"
  | style => "style"
  | json => "json"
  | listPets => "list-pets"
  | config => "config"
  | generator => "generator"
  | help => "help"

def short? : Flag → Option Char
  | config => some 'c'
  | help => some 'h'
  | _ => none

def valueName? : Flag → Option String
  | baseUrl => some "BASE_URL"
  | token => some "TOKEN"
  | style => some "STYLE"
  | config => some "CONFIG"
  | generator => some "GENERATOR"
  | _ => none

def takesValue (flag : Flag) : Bool :=
  flag.valueName?.isSome

def shown (flag : Flag) : String :=
  "--" ++ flag.long ++ (flag.valueName?.map fun name => " <" ++ name ++ ">").getD ""

def ofLong? (name : String) : Option Flag :=
  all.find? fun flag => flag.long == name

def ofShort? (c : Char) : Option Flag :=
  all.find? fun flag => flag.short? == some c

def allowedValues : Flag → List String
  | style => styles.map Prod.fst
  | _ => []

def allowsEmpty : Flag → Bool
  | style => false
  | config => false
  | _ => true

end Flag

inductive Refusal
  | unknown (argument : String) (guess : Option Flag) (before : List Flag)
  | valueMissing (flag : Flag)
  | valueInvalid (flag : Flag) (value : String)
  | repeated (flag : Flag)
  | valueUnexpected (flag : Flag) (value : String) (before : List Flag)
  /-- Not a mistake: the help is asked for. -/
  | help
  deriving DecidableEq, Repr

/-! ### Reading -/

structure Reading where
  arguments : Arguments := {}
  given : List Flag := []
  /-- An option that waits for its value, or for being looked at with it. -/
  pending : Option (Flag × Option String) := none

namespace Reading

def assign (a : Arguments) (flag : Flag) (value : String) : Arguments :=
  match flag with
  | .baseUrl => { a with baseUrl := some value }
  | .token => { a with token := some value }
  | .style => { a with style := (styles.lookup value).getD a.style }
  | .json => { a with json := true }
  | .listPets => { a with listPets := true }
  | .config => { a with config := some ⟨value⟩ }
  | .generator => { a with generator := value }
  | .help => a

def valueProblem? (flag : Flag) (value : String) : Option Refusal :=
  if value.isEmpty && !flag.allowsEmpty then some (.valueMissing flag)
  else if !flag.allowedValues.isEmpty && !flag.allowedValues.contains value then
    some (.valueInvalid flag value)
  else none

def apply (r : Reading) (flag : Flag) (value : Option String) : Except Refusal Reading :=
  if flag = .help then .error .help
  else if flag.takesValue && value.isNone then .error (.valueMissing flag)
  else if r.given.contains flag then .error (.repeated flag)
  else
    match valueProblem? flag (value.getD "") with
    | some refusal => .error refusal
    | none =>
      .ok { r with
        arguments := assign r.arguments flag (value.getD "")
        given := r.given ++ [flag] }

def settle (r : Reading) : Except Refusal Reading :=
  match r.pending with
  | none => .ok r
  | some (flag, value) => { r with pending := none }.apply flag value

/-- The options that count as given when an unknown argument is met. -/
def givenSoFar (r : Reading) : List Flag :=
  match r.pending with
  | some (flag, some _) => if r.given.contains flag then r.given else r.given ++ [flag]
  | _ => r.given

def readFlag (r : Reading) (flag : Flag) (value : Option String) : Except Refusal Reading := do
  let r ← r.settle
  if flag.takesValue && value.isNone then return { r with pending := some (flag, none) }
  else r.apply flag value

def splitValue (text : List Char) : List Char × Option String :=
  match text.dropWhile (· != '=') with
  | [] => (text, none)
  | _ :: value => (text.takeWhile (· != '='), some (String.ofList value))

def readLong (r : Reading) (text : List Char) : Except Refusal Reading :=
  let (name, value) := splitValue text
  let name := String.ofList name
  match Flag.ofLong? name with
  | none =>
    let guess := (Similar.guess? name (Flag.all.map Flag.long)).bind Flag.ofLong?
    .error (.unknown ("--" ++ name) guess r.givenSoFar)
  | some flag =>
    match flag.takesValue, value with
    | false, some value => .error (.valueUnexpected flag value r.given)
    | _, value => r.readFlag flag value

def readShort (r : Reading) (text : List Char) : Except Refusal Reading :=
  match text with
  | [] => .ok r
  | c :: rest =>
    match Flag.ofShort? c with
    | none => .error (.unknown (String.ofList ['-', c]) none r.givenSoFar)
    | some flag =>
      if flag.takesValue then
        let value :=
          match rest with
          | [] => none
          | '=' :: value => some (String.ofList value)
          | value => some (String.ofList value)
        r.readFlag flag value
      else do
        let r ← r.readFlag flag none
        readShort r rest

/-- Reads the arguments; behind two hyphens alone there may be none. -/
def readAll (r : Reading) : List String → Except Refusal Reading
  | [] => r.settle
  | argument :: rest =>
    match argument.toList with
    | ['-', '-'] =>
      match rest with
      | [] => r.settle
      | next :: _ => .error (.unknown next none [])
    | '-' :: '-' :: text => do
      let r ← r.readLong text
      readAll r rest
    | '-' :: c :: text => do
      let r ← r.readShort (c :: text)
      readAll r rest
    | _ =>
      match r.pending with
      | some (flag, none) => readAll { r with pending := some (flag, some argument) } rest
      | _ => .error (.unknown argument none [])

end Reading

/-- The arguments of a command line.  An environment variable counts where its option is absent. -/
def Arguments.read (environment : Environment) (line : List String) : Except Refusal Arguments := do
  let r ← Reading.readAll {} line
  let a := r.arguments
  return { a with
    baseUrl := a.baseUrl.or environment.baseUrl
    token := a.token.or environment.token }

/-! ### Messages -/

structure HelpLine where
  flag : Flag
  about : String
  note : String := ""

def variableNote (name : String) (value : Option String) : String :=
  " [env: " ++ name ++ "=" ++ value.getD "" ++ "]"

def helpLines (environment : Environment) : List HelpLine := [
  ⟨.baseUrl, "Base URL of the Petstore API", variableNote "PETSTORE_BASE_URL" environment.baseUrl⟩,
  ⟨.token, "Bearer token sent with every request", variableNote "PETSTORE_TOKEN" environment.token⟩,
  ⟨.style, "Language of the usage snippets",
    " [default: rust] [possible values: rust, python, typescript]"⟩,
  ⟨.json, "Print the configuration as JSON", ""⟩,
  ⟨.listPets, "Call GET /pets on the configured API after printing the example", ""⟩,
  ⟨.config, "Client configuration file; searched for from the working directory if omitted", ""⟩,
  ⟨.generator, "Name of the client generator mentioned in the instructions",
    " [default: api-tool]"⟩,
  ⟨.help, "Print help", ""⟩]

def Flag.column (flag : Flag) : String :=
  match flag.short? with
  | some c => "  -" ++ String.singleton c ++ ", " ++ flag.shown
  | none => "      " ++ flag.shown

def columnWidth : Nat :=
  (Flag.all.map fun flag => flag.column.length).foldl max 0

def HelpLine.text (line : HelpLine) : String :=
  let column := line.flag.column
  let blanks := String.ofList (List.replicate (columnWidth - column.length) ' ')
  column ++ blanks ++ "  " ++ line.about ++ line.note ++ "\n"

def usageLine : String := "Usage: petstore-demo [OPTIONS]"

def usageWith (flags : List Flag) : String :=
  if flags.isEmpty then usageLine
  else "Usage: petstore-demo " ++ " ".intercalate (flags.eraseDups.map Flag.shown)

def helpText (environment : Environment) : String :=
  "Shows how to configure and use the Petstore API client\n\n" ++ usageLine ++ "\n\nOptions:\n" ++
    String.join ((helpLines environment).map HelpLine.text)

namespace Refusal

def headline : Refusal → String
  | unknown argument _ _ => "error: unexpected argument '" ++ argument ++ "' found"
  | valueMissing flag =>
    "error: a value is required for '" ++ flag.shown ++ "' but none was supplied"
  | valueInvalid flag value => "error: invalid value '" ++ value ++ "' for '" ++ flag.shown ++ "'"
  | repeated flag => "error: the argument '" ++ flag.shown ++ "' cannot be used multiple times"
  | valueUnexpected flag value _ =>
    "error: unexpected value '" ++ value ++ "' for '" ++ flag.shown ++
      "' found; no more were expected"
  | help => ""

def valuesLine (flag : Flag) : String :=
  if flag.allowedValues.isEmpty then ""
  else "\n  [possible values: " ++ ", ".intercalate flag.allowedValues ++ "]"

def tip (what : String) : Option String → String
  | none => ""
  | some guess => "\n\n  tip: a similar " ++ what ++ " exists: '" ++ guess ++ "'"

def details : Refusal → String
  | unknown _ guess before =>
    tip "argument" (guess.map fun flag => "--" ++ flag.long) ++ "\n\n" ++
      usageWith (before ++ guess.toList)
  | valueMissing flag => valuesLine flag
  | valueInvalid flag value =>
    valuesLine flag ++ tip "value" (Similar.guess? value flag.allowedValues)
  | repeated _ => "\n\n" ++ usageLine
  | valueUnexpected flag _ before => "\n\n" ++ usageWith (before ++ [flag])
  | help => ""

def message (environment : Environment) : Refusal → String
  | help => helpText environment
  | refusal =>
    refusal.headline ++ refusal.details ++ "\n\nFor more information, try '--help'.\n"

def exitCode : Refusal → UInt8
  | help => 0
  | _ => 2

end Refusal

end PetClient.Demo
