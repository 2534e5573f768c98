import PetClient.Yaml.Scanner

/-!
Events of a document: its nodes in the order of the text.  The parser keeps the places at which it
goes on once a node is complete.
-/

namespace PetClient.Yaml

structure Properties where
  anchor : Option (List Char) := none
  tag : Option (List Char) := none
  deriving DecidableEq, Repr

inductive Event
  | alias (name : List Char)
  | scalar (properties : Properties) (text : List Char) (style : ScalarStyle)
  | sequenceStart (properties : Properties)
  | sequenceEnd
  | mappingStart (properties : Properties)
  | mappingEnd
  deriving DecidableEq, Repr

def Event.empty : Event :=
  .scalar {} [] .plain

inductive State
  | blockEntry
  | indentlessEntry
  | blockKey
  | blockValue
  | flowEntry (first : Bool)
  | pairKey
  | pairValue
  | pairEnd
  | flowKey (first : Bool)
  | flowValue
  | flowEmptyValue
  | node (inBlock indentless : Bool)
  | documentEnd
  deriving DecidableEq, Repr

abbrev TagHandles := List (List Char × List Char)

/-- A parser: what is left of the tokens, what it goes on with, and what after that. -/
structure Parser where
  tokens : List Token
  state : State
  later : List State
  handles : TagHandles

namespace Parser

def goOn (p : Parser) (state : State) (tokens : List Token) : Parser :=
  { p with state, tokens }

def complete (p : Parser) (tokens : List Token) : Parser :=
  match p.later with
  | [] => { p with state := .documentEnd, tokens }
  | state :: later => { p with state, later, tokens }

def enter (p : Parser) (state : State) (inBlock indentless : Bool) (tokens : List Token) : Parser :=
  { p with state := .node inBlock indentless, later := state :: p.later, tokens }

def readProperties : List Token → Option (List Char) × Option (List Char × List Char) × List Token
  | .anchor a :: .tag h r :: tokens => (some a, some (h, r), tokens)
  | .tag h r :: .anchor a :: tokens => (some a, some (h, r), tokens)
  | .anchor a :: tokens => (some a, none, tokens)
  | .tag h r :: tokens => (none, some (h, r), tokens)
  | tokens => (none, none, tokens)

def resolveTag (handles : TagHandles) : Option (List Char × List Char) →
    Option (Option (List Char))
  | none => some none
  | some ([], rest) => some (some rest)
  | some (handle, rest) => (handles.lookup handle).map fun start => some (start ++ rest)

/-- A scalar with the tag that says nothing is one without a tag. -/
def scalarProperties (properties : Properties) : Properties :=
  if properties.tag = some ['!'] then { properties with tag := none } else properties

abbrev Step := Option (Option Event × Parser)

def emit (event : Event) (p : Parser) : Step :=
  some (some event, p)

def proceed (p : Parser) : Step :=
  some (none, p)

def stepNode (p : Parser) (inBlock indentless : Bool) : Step :=
  match p.tokens with
  | .alias name :: tokens => emit (.alias name) (p.complete tokens)
  | tokens => do
    let (anchor, tag, rest) := readProperties tokens
    let tag ← resolveTag p.handles tag
    let properties : Properties := { anchor, tag }
    match rest with
    | .scalar text style :: rest =>
      emit (.scalar (scalarProperties properties) text style) (p.complete rest)
    | .flowSequenceStart :: rest => emit (.sequenceStart properties) (p.goOn (.flowEntry true) rest)
    | .flowMappingStart :: rest => emit (.mappingStart properties) (p.goOn (.flowKey true) rest)
    | rest =>
      match inBlock, indentless, rest with
      | _, true, .blockEntry :: _ =>
        emit (.sequenceStart properties) (p.goOn .indentlessEntry rest)
      | true, _, .blockSequenceStart :: rest =>
        emit (.sequenceStart properties) (p.goOn .blockEntry rest)
      | true, _, .blockMappingStart :: rest =>
        emit (.mappingStart properties) (p.goOn .blockKey rest)
      | _, _, rest =>
        if anchor.isSome || tag.isSome then
          emit (.scalar properties [] .plain) (p.complete rest)
        else none

def nodeOr (p : Parser) (isEnd : Token → Bool) (state : State) (inBlock indentless : Bool)
    (tokens : List Token) : Step :=
  match tokens with
  | token :: _ =>
    if isEnd token then emit .empty (p.goOn state tokens)
    else proceed (p.enter state inBlock indentless tokens)
  | [] => none

/-- Goes on with what stands in a mapping of one pair inside of a flow sequence. -/
def stepPair (p : Parser) : Step :=
  let isEnd (t : Token) : Bool := t = .flowEntry || t = .flowSequenceEnd
  match p.state, p.tokens with
  | .pairKey, token :: tokens =>
    if token = .value || isEnd token then emit .empty (p.goOn .pairValue tokens)
    else proceed (p.enter .pairValue false false p.tokens)
  | .pairValue, .value :: tokens => nodeOr p isEnd .pairEnd false false tokens
  | .pairValue, tokens => emit .empty (p.goOn .pairEnd tokens)
  | _, tokens => emit .mappingEnd (p.goOn (.flowEntry false) tokens)

def stepFlowItem (p : Parser) (tokens : List Token) : Step :=
  match tokens with
  | .key :: tokens => emit (.mappingStart {}) (p.goOn .pairKey tokens)
  | .flowSequenceEnd :: tokens => emit .sequenceEnd (p.complete tokens)
  | tokens => proceed (p.enter (.flowEntry false) false false tokens)

def stepFlowKey (p : Parser) (tokens : List Token) : Step :=
  let isEnd (t : Token) : Bool := t = .value || t = .flowEntry || t = .flowMappingEnd
  match tokens with
  | .key :: tokens => nodeOr p isEnd .flowValue false false tokens
  | .flowMappingEnd :: tokens => emit .mappingEnd (p.complete tokens)
  | tokens => proceed (p.enter .flowEmptyValue false false tokens)

def step (p : Parser) : Step :=
  match p.state, p.tokens with
  | .node inBlock indentless, _ => p.stepNode inBlock indentless
  | .blockEntry, .blockEntry :: tokens =>
    nodeOr p (fun t => t = .blockEntry || t = .blockEnd) .blockEntry true false tokens
  | .blockEntry, .blockEnd :: tokens => emit .sequenceEnd (p.complete tokens)
  | .blockEntry, _ => none
  | .indentlessEntry, .blockEntry :: tokens =>
    nodeOr p (fun t => t = .blockEntry || t = .key || t = .value || t = .blockEnd) .indentlessEntry
      true false tokens
  | .indentlessEntry, tokens => emit .sequenceEnd (p.complete tokens)
  | .blockKey, .key :: tokens =>
    nodeOr p (fun t => t = .key || t = .value || t = .blockEnd) .blockValue true true tokens
  | .blockKey, .blockEnd :: tokens => emit .mappingEnd (p.complete tokens)
  | .blockKey, _ => none
  | .blockValue, .value :: tokens =>
    nodeOr p (fun t => t = .key || t = .value || t = .blockEnd) .blockKey true true tokens
  | .blockValue, tokens => emit .empty (p.goOn .blockKey tokens)
  | .flowEntry _, .flowSequenceEnd :: tokens => emit .sequenceEnd (p.complete tokens)
  | .flowEntry true, tokens => p.stepFlowItem tokens
  | .flowEntry false, .flowEntry :: tokens => p.stepFlowItem tokens
  | .flowEntry false, _ => none
  | .flowKey _, .flowMappingEnd :: tokens => emit .mappingEnd (p.complete tokens)
  | .flowKey true, tokens => p.stepFlowKey tokens
  | .flowKey false, .flowEntry :: tokens => p.stepFlowKey tokens
  | .flowKey false, _ => none
  | .flowValue, .value :: tokens =>
    nodeOr p (fun t => t = .flowEntry || t = .flowMappingEnd) (.flowKey false) false false tokens
  | .flowValue, tokens => emit .empty (p.goOn (.flowKey false) tokens)
  | .flowEmptyValue, tokens => emit .empty (p.goOn (.flowKey false) tokens)
  | .pairKey, _ => p.stepPair
  | .pairValue, _ => p.stepPair
  | .pairEnd, _ => p.stepPair
  | .documentEnd, _ => none

def run (fuel : Nat) (p : Parser) (events : Array Event) : Option (List Event × List Token) :=
  match fuel with
  | 0 => none
  | fuel + 1 =>
    if p.state = .documentEnd then some (events.toList, p.tokens)
    else do
      let (event, next) ← p.step
      run fuel next (event.elim events events.push)

end Parser

/-! ### Documents -/

def defaultHandles : TagHandles :=
  [(['!'], ['!']), (['!', '!'], "tag:yaml.org,2002:".toList)]

/-- The directives in front of a document: at most one version, which must be known, and handles,
each once. -/
def readDirectives (version : Bool) (handles : TagHandles) :
    List Token → Option (Bool × TagHandles × List Token)
  | .versionDirective major minor :: tokens =>
    if version || major ≠ 1 || (minor ≠ 1 && minor ≠ 2) then none
    else readDirectives true handles tokens
  | .tagDirective handle start :: tokens =>
    if (handles.lookup handle).isSome then none
    else readDirectives version ((handle, start) :: handles) tokens
  | tokens => some (version, handles, tokens)

def isDocumentEnd : Token → Bool
  | .versionDirective .. | .tagDirective .. | .documentStart | .documentEnd | .streamEnd => true
  | _ => false

/-- The events of the one document of a text; none when the text holds nothing. -/
def events? (text : List Char) : Option (List Event) := do
  let tokens ← tokens? text
  if tokens = [.streamEnd] then return []
  let (version, handles, content) ← readDirectives false [] tokens
  let parse (tokens : List Token) : Option (List Event × List Token) :=
    let parser : Parser := ⟨tokens, .node true false, [], handles ++ defaultHandles⟩
    parser.run (8 * tokens.length + 8) #[]
  let (events, rest) ←
    match content with
    | .documentStart :: token :: rest =>
      if isDocumentEnd token then some ([Event.empty], token :: rest) else parse (token :: rest)
    | content => if version || !handles.isEmpty then none else parse content
  if rest.dropWhile (· = .documentEnd) = [.streamEnd] then some events else none

end PetClient.Yaml
