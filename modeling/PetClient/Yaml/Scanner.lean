import PetClient.Text.Utf8
import PetClient.Yaml.Scalar
import PetClient.Yaml.Token

/-!
Tokens of a text.  Indentation opens and closes blocks; a node that a colon follows on its line
turns out to be a key, and its tokens are put behind a key token then.
-/

namespace PetClient.Yaml

structure KeyStart where
  /-- How many tokens stand in front of it. -/
  position : Nat
  index : Nat
  line : Nat
  column : Nat
  /-- Nothing but a key can stand here. -/
  required : Bool

structure Scanner where
  cursor : Cursor
  /-- The depth of the block, and of the blocks around it. -/
  indent : Int := -1
  outer : List Int := []
  keyAllowed : Bool := true
  /-- Where a key may have started, and outside of each open bracket. -/
  keyStart : Option KeyStart := none
  outerKeys : List (Option KeyStart) := []
  tokens : Array Token := #[]

namespace Scanner

def inFlow (s : Scanner) : Bool :=
  !s.outerKeys.isEmpty

def push (s : Scanner) (token : Token) : Scanner :=
  { s with tokens := s.tokens.push token }

def insert (s : Scanner) (position : Nat) (token : Token) : Scanner :=
  { s with tokens := s.tokens.extract 0 position ++ #[token] ++ s.tokens.extract position }

def unroll (s : Scanner) (column : Int) : Scanner :=
  if s.inFlow then s
  else
    let closed := (s.indent :: s.outer).takeWhile fun depth => column < depth
    match (s.indent :: s.outer).drop closed.length with
    | [] => s
    | indent :: outer =>
      { s with indent, outer, tokens := s.tokens ++ Array.replicate closed.length Token.blockEnd }

def roll (s : Scanner) (column position : Nat) (token : Token) : Scanner :=
  if s.inFlow || (column : Int) ≤ s.indent then s
  else { (s.insert position token) with indent := column, outer := s.indent :: s.outer }

def rollHere (s : Scanner) (token : Token) : Scanner :=
  s.roll s.cursor.column s.tokens.size token

/-- Gives up the key that may have started, unless nothing but a key can stand there. -/
def dropKey (s : Scanner) : Option Scanner :=
  match s.keyStart with
  | some start => if start.required then none else some { s with keyStart := none }
  | none => some s

def saveKey (s : Scanner) : Option Scanner :=
  if !s.keyAllowed then some s
  else do
    let s ← s.dropKey
    let c := s.cursor
    let required := !s.inFlow && s.indent = c.column
    let start : KeyStart := ⟨s.tokens.size, c.index, c.line, c.column, required⟩
    some { s with keyStart := some start }

def maxKeyLength : Nat := 1024

def isStale (c : Cursor) (start : KeyStart) : Bool :=
  start.line < c.line || start.index + maxKeyLength < c.index

def refresh (c : Cursor) : Option KeyStart → Option (Option KeyStart)
  | none => some none
  | some start =>
    if !isStale c start then some (some start) else if start.required then none else some none

def dropStaleKeys (s : Scanner) : Option Scanner := do
  let keyStart ← refresh s.cursor s.keyStart
  let outerKeys ← s.outerKeys.mapM (refresh s.cursor)
  some { s with keyStart, outerKeys }

/-- Passes blanks, comments and line ends up to the next token.  Each line takes a character off the
budget. -/
def skipToToken (budget : List Char) (s : Scanner) : Scanner :=
  match budget with
  | [] => s
  | _ :: budget =>
    let c := s.cursor
    let c := if c.column = 0 && c.rest.head? = some byteOrderMark then c.skip 1 else c
    let tabs := s.inFlow || !s.keyAllowed
    let c := c.skipWhile fun ch => ch = ' ' || (tabs && ch = '\t')
    let c := if c.rest.head? = some '#' then c.skipWhile fun ch => !isBreak ch else c
    match c.rest with
    | [] => { s with cursor := c }
    | ch :: _ =>
      if isBreak ch then
        skipToToken budget { s with cursor := c.skipBreak, keyAllowed := !s.inFlow || s.keyAllowed }
      else { s with cursor := c }

/-! ### Tags and directives -/

def isTagChar (inBrackets : Bool) (c : Char) : Bool :=
  isNameChar c || ";/?:@&=+$.!~*'()".contains c || (inBrackets && ",[]".contains c)

def escapedBytes : List Char → Bytes
  | '%' :: a :: b :: rest =>
    match Text.hexDigit? a, Text.hexDigit? b with
    | some high, some low => UInt8.ofNat (high * 16 + low) :: escapedBytes rest
    | _, _ => []
  | _ => []

/-- The rest of a tag, with escapes of single characters replaced.  Each character takes one off the
budget. -/
def readTagText (budget : List Char) (inBrackets : Bool) (c : Cursor) :
    Option (List Char × Cursor) :=
  match budget, c.rest with
  | _ :: budget, ch :: _ =>
    let goOn (ch : Char) (width : Nat) : Option (List Char × Cursor) := do
      let (text, c) ← readTagText budget inBrackets (c.skip width)
      some (ch :: text, c)
    if ch = '%' then do
      let decoded ← Utf8.first? ((escapedBytes c.rest).take 4)
      goOn decoded (3 * decoded.utf8Size)
    else if isTagChar inBrackets ch then goOn ch 1
    else some ([], c)
  | _, _ => some ([], c)

def readTagRest (inBrackets : Bool) (start : List Char) (c : Cursor) :
    Option (List Char × Cursor) := do
  let (text, c) ← readTagText c.rest inBrackets c
  if start.isEmpty && text.isEmpty then none else some (start.drop 1 ++ text, c)

def readTagHandle (c : Cursor) : Option (List Char × Cursor) :=
  match c.rest with
  | '!' :: _ =>
    let (name, c) := (c.skip 1).span isNameChar
    match c.rest with
    | '!' :: _ => some ('!' :: name ++ ['!'], c.skip 1)
    | _ => some ('!' :: name, c)
  | _ => none

def isClosedHandle (handle : List Char) : Bool :=
  1 < handle.length && handle.getLast? = some '!'

def readTag (c : Cursor) : Option (Token × Cursor) :=
  match c.rest with
  | '!' :: '<' :: _ => do
    let (rest, c) ← readTagRest true [] (c.skip 2)
    if c.rest.head? = some '>' then some (.tag [] rest, c.skip 1) else none
  | _ => do
    let (handle, c) ← readTagHandle c
    if isClosedHandle handle then
      let (rest, c) ← readTagRest false [] c
      some (.tag handle rest, c)
    else
      let (rest, c) ← readTagRest false handle c
      if rest.isEmpty then some (.tag [] ['!'], c) else some (.tag ['!'] rest, c)

def maxVersionLength : Nat := 9

def readVersionNumber (c : Cursor) : Option (Nat × Cursor) :=
  let (digits, c) := c.span Char.isDigit
  if digits.isEmpty || maxVersionLength < digits.length then none
  else some (digits.foldl (fun n d => n * 10 + (d.toNat - '0'.toNat)) 0, c)

def readVersion (c : Cursor) : Option (Token × Cursor) := do
  let (major, c) ← readVersionNumber (c.skipWhile isBlank)
  if c.rest.head? ≠ some '.' then none
  else do
    let (minor, c) ← readVersionNumber (c.skip 1)
    some (.versionDirective major minor, c)

def readTagDirective (c : Cursor) : Option (Token × Cursor) := do
  let (handle, c) ← readTagHandle (c.skipWhile isBlank)
  if !(isClosedHandle handle || handle = ['!']) then none
  else if !(c.rest.head?.map isBlank).getD false then none
  else do
    let (start, c) ← readTagRest true [] (c.skipWhile isBlank)
    if atGap c.rest then some (.tagDirective handle start, c) else none

def readDirective (c : Cursor) : Option (Token × Cursor) := do
  let (name, c) := c.span isNameChar
  if name.isEmpty || !atGap c.rest then none
  else do
    let (token, c) ←
      if name = "YAML".toList then readVersion c
      else if name = "TAG".toList then readTagDirective c
      else none
    let c := c.skipComment
    if atLineEnd c.rest then some (token, c.skipBreak) else none

def readAnchorName (c : Cursor) : Option (List Char × Cursor) :=
  let (name, c) := c.span isNameChar
  let ends := atGap c.rest || (c.rest.head?.map fun ch => "?:,]\x7d%@`".contains ch).getD true
  if name.isEmpty || !ends then none else some (name, c)

/-! ### Tokens -/

def take (s : Scanner) (width : Nat) (token : Token) : Scanner :=
  { (s.push token) with cursor := s.cursor.skip width }

/-- A token of its own line: a directive or the start or end of a document. -/
def fetchAtMargin (s : Scanner) (token : Token) (cursor : Cursor) : Option Scanner := do
  let s ← (s.unroll (-1)).dropKey
  some { (s.push token) with cursor, keyAllowed := false }

def fetchFlowStart (s : Scanner) (token : Token) : Option Scanner := do
  let s ← s.saveKey
  let s := s.take 1 token
  some { s with outerKeys := s.keyStart :: s.outerKeys, keyStart := none, keyAllowed := true }

def fetchFlowEnd (s : Scanner) (token : Token) : Option Scanner := do
  let s ← s.dropKey
  let s := { (s.take 1 token) with keyAllowed := false }
  match s.outerKeys with
  | [] => some s
  | keyStart :: outerKeys => some { s with keyStart, outerKeys }

def fetchFlowEntry (s : Scanner) : Option Scanner := do
  let s ← s.dropKey
  some { (s.take 1 .flowEntry) with keyAllowed := true }

def fetchBlockEntry (s : Scanner) : Option Scanner :=
  if !s.inFlow && !s.keyAllowed then none
  else do
    let s ← (s.rollHere .blockSequenceStart).dropKey
    some { (s.take 1 .blockEntry) with keyAllowed := true }

def fetchKey (s : Scanner) : Option Scanner :=
  if !s.inFlow && !s.keyAllowed then none
  else do
    let s ← (s.rollHere .blockMappingStart).dropKey
    some { (s.take 1 .key) with keyAllowed := !s.inFlow }

def fetchValue (s : Scanner) : Option Scanner :=
  match s.keyStart with
  | some start =>
    let s := (s.insert start.position .key).roll start.column start.position .blockMappingStart
    some { (s.take 1 .value) with keyStart := none, keyAllowed := false }
  | none =>
    if !s.inFlow && !s.keyAllowed then none
    else
      let s := s.rollHere .blockMappingStart
      some { (s.take 1 .value) with keyAllowed := !s.inFlow }

def fetchNode (s : Scanner) (read : Scanner → Option (Token × Cursor)) : Option Scanner := do
  let s ← s.saveKey
  let (token, cursor) ← read s
  some { (s.push token) with cursor, keyAllowed := false }

def fetchBlockScalar (s : Scanner) (folded : Bool) : Option Scanner := do
  let s ← s.dropKey
  let (text, cursor) ← readBlock folded s.indent (s.cursor.skip 1)
  some { (s.push (.scalar text (if folded then .folded else .literal))) with
    cursor, keyAllowed := true }

def fetchPlain (s : Scanner) : Option Scanner := do
  let s ← s.saveKey
  let c := s.cursor
  let (text, cursor, broken) ←
    readPlain c.rest s.inFlow (s.indent + 1) {} c
  some { (s.push (.scalar text .plain)) with cursor, keyAllowed := broken }

def startsPlain (inFlow : Bool) (c : Char) (rest : List Char) : Bool :=
  if c = '-' then !(rest.head?.map isBlank).getD false
  else if c = '?' || c = ':' then !inFlow && !atGap rest
  else !(isBlank c || isBreak c || ",[]\x7b\x7d#&*!|>'\"%@`".contains c)

def quotedToken (quote : Char) (style : ScalarStyle) (s : Scanner) : Option (Token × Cursor) :=
  (readQuoted s.cursor.rest quote (s.cursor.skip 1)).map fun (text, c) =>
    (.scalar text style, c)

def namedToken (token : List Char → Token) (s : Scanner) : Option (Token × Cursor) :=
  (readAnchorName (s.cursor.skip 1)).map fun (name, c) => (token name, c)

def fetchFrom (s : Scanner) (c : Char) (rest : List Char) : Option Scanner :=
  let cursor := s.cursor
  if cursor.column = 0 && c = '%' then do
    let (token, next) ← readDirective (cursor.skip 1)
    s.fetchAtMargin token next
  else if cursor.atMarker '-' then s.fetchAtMargin .documentStart (cursor.skip 3)
  else if cursor.atMarker '.' then s.fetchAtMargin .documentEnd (cursor.skip 3)
  else if c = '[' then s.fetchFlowStart .flowSequenceStart
  else if c = '{' then s.fetchFlowStart .flowMappingStart
  else if c = ']' then s.fetchFlowEnd .flowSequenceEnd
  else if c = '}' then s.fetchFlowEnd .flowMappingEnd
  else if c = ',' then s.fetchFlowEntry
  else if c = '-' && atGap rest then s.fetchBlockEntry
  else if c = '?' && (s.inFlow || atGap rest) then s.fetchKey
  else if c = ':' && (s.inFlow || atGap rest) then s.fetchValue
  else if c = '*' then s.fetchNode (namedToken .alias)
  else if c = '&' then s.fetchNode (namedToken .anchor)
  else if c = '!' then s.fetchNode fun s => do
    let (token, next) ← readTag s.cursor
    let ends := atGap next.rest || (s.inFlow && next.rest.head? = some ',')
    if ends then some (token, next) else none
  else if c = '|' && !s.inFlow then s.fetchBlockScalar false
  else if c = '>' && !s.inFlow then s.fetchBlockScalar true
  else if c = '\'' then s.fetchNode (quotedToken '\'' .singleQuoted)
  else if c = '"' then s.fetchNode (quotedToken '"' .doubleQuoted)
  else if startsPlain s.inFlow c rest then s.fetchPlain
  else none

def finish (s : Scanner) : Option Scanner := do
  let s ← (s.unroll (-1)).dropKey
  some (s.push .streamEnd)

def run (fuel : Nat) (s : Scanner) : Option Scanner :=
  match fuel with
  | 0 => none
  | fuel + 1 => do
    let s := skipToToken s.cursor.rest s
    let s ← s.dropStaleKeys
    let s := s.unroll s.cursor.column
    match s.cursor.rest with
    | [] => s.finish
    | c :: rest => do
      let s ← s.fetchFrom c rest
      run fuel s

end Scanner

def tokens? (text : List Char) : Option (List Token) :=
  if !text.all isAllowed then none
  else
    let text := if text.head? = some byteOrderMark then text.drop 1 else text
    let s : Scanner := { cursor := { rest := text } }
    (s.run (text.length + 1)).map fun s => s.tokens.toList

end PetClient.Yaml
