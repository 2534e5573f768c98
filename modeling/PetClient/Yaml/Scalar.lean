import PetClient.Text.Basic
import PetClient.Yaml.Cursor

/-!
Scalars: plain, quoted, and in blocks.  Between words a line end counts for one blank, and further
line ends for themselves.  Each step of a loop takes a character off its budget, so the characters
that are left to read are a budget that suffices.
-/

namespace PetClient.Yaml

structure Gap where
  blanks : List Char := []
  broken : Bool := false
  firstBreak : List Char := []
  moreBreaks : List Char := []

def Gap.text (gap : Gap) : List Char :=
  if !gap.broken then gap.blanks
  else if gap.firstBreak = ['\n'] then
    if gap.moreBreaks.isEmpty then [' '] else gap.moreBreaks
  else gap.firstBreak ++ gap.moreBreaks

/-- Reads blanks and line ends.  A tab may not stand left of `indent` at the start of a line. -/
def readGap (budget : List Char) (indent : Int) (gap : Gap) (c : Cursor) : Option (Gap × Cursor) :=
  match budget, c.rest with
  | _ :: budget, ch :: _ =>
    if isBlank ch then
      if !gap.broken then readGap budget indent { gap with blanks := gap.blanks ++ [ch] } (c.skip 1)
      else if ch = '\t' && (c.column : Int) < indent then none
      else readGap budget indent gap (c.skip 1)
    else if isBreak ch then
      let (text, c) := c.readBreak
      if gap.broken then readGap budget indent { gap with moreBreaks := gap.moreBreaks ++ text } c
      else readGap budget indent { blanks := [], broken := true, firstBreak := text } c
    else some (gap, c)
  | _, _ => some (gap, c)

/-! ### Plain scalars -/

def isFlowSign (c : Char) : Bool :=
  c = ',' || c = '[' || c = ']' || c = '{' || c = '}'

/-- The characters of a plain scalar up to a gap or a sign that ends it.  Inside of brackets a colon
may not stand in front of another sign. -/
def readPlainWord (inFlow : Bool) : List Char → Option (List Char)
  | [] => some []
  | c :: rest =>
    if isBlank c || isBreak c then some []
    else if c = ':' && inFlow && (rest.head?.map fun c => isFlowSign c || c = '?').getD false then
      none
    else if c = ':' && atGap rest then some []
    else if inFlow && isFlowSign c then some []
    else (readPlainWord inFlow rest).map (c :: ·)

/-- A plain scalar behind a gap.  Returns its text, the place behind it, and whether lines ended
behind it. -/
def readPlain (budget : List Char) (inFlow : Bool) (indent : Int) (gap : Gap) (c : Cursor) :
    Option (List Char × Cursor × Bool) :=
  match budget with
  | [] => some ([], c, gap.broken)
  | _ :: budget =>
    if c.atDocument || c.rest.head? = some '#' then some ([], c, gap.broken)
    else do
      let word ← readPlainWord inFlow c.rest
      let (text, gap) := if word.isEmpty then ([], gap) else (gap.text ++ word, {})
      let c := c.skip word.length
      match c.rest with
      | [] => some (text, c, gap.broken)
      | ch :: _ =>
        if !(isBlank ch || isBreak ch) then some (text, c, gap.broken)
        else do
          let (gap, c) ← readGap c.rest indent gap c
          if !inFlow && (c.column : Int) < indent then some (text, c, gap.broken)
          else do
            let (tail, c, broken) ← readPlain budget inFlow indent gap c
            some (text ++ tail, c, broken)

/-! ### Quoted scalars -/

def shortEscape? (c : Char) : Option Char :=
  [('0', '\x00'), ('a', '\x07'), ('b', '\x08'), ('t', '\t'), ('\t', '\t'), ('n', '\n'),
    ('v', '\x0b'), ('f', '\x0c'), ('r', '\r'), ('e', '\x1b'), (' ', ' '), ('"', '"'), ('/', '/'),
    ('\\', '\\'), ('N', '\u0085'), ('_', '\u00a0'), ('L', '\u2028'), ('P', '\u2029')].lookup c

def escapeWidth? (c : Char) : Option Nat :=
  [('x', 2), ('u', 4), ('U', 8)].lookup c

def charOfHex? (digits : List Char) : Option Char :=
  if digits.all fun c => (Text.hexDigit? c).isSome then
    let n := Text.natOfHex digits
    if h : n.isValidChar then some (Char.ofNatAux n h) else none
  else none

def readEscape : List Char → Option (Char × Nat)
  | [] => none
  | c :: rest =>
    match shortEscape? c, escapeWidth? c with
    | some ch, _ => some (ch, 1)
    | none, some width =>
      if rest.length < width then none
      else (charOfHex? (rest.take width)).map fun ch => (ch, width + 1)
    | none, none => none

inductive WordEnd
  | gap
  | escapedBreak
  | quote
  deriving DecidableEq, Repr

def readQuotedWord (budget : List Char) (quote : Char) (c : Cursor) :
    Option (List Char × WordEnd × Cursor) :=
  match budget, c.rest with
  | _ :: budget, ch :: rest =>
    let goOn (ch : Char) (width : Nat) : Option (List Char × WordEnd × Cursor) := do
      let (text, wordEnd, c) ← readQuotedWord budget quote (c.skip width)
      some (ch :: text, wordEnd, c)
    if isBlank ch || isBreak ch then some ([], .gap, c)
    else if ch = '\'' && quote = '\'' && rest.head? = some '\'' then goOn '\'' 2
    else if ch = quote then some ([], .quote, c)
    else if ch = '\\' && quote = '"' then
      if (rest.head?.map isBreak).getD false then some ([], .escapedBreak, (c.skip 1).skipBreak)
      else
        match readEscape rest with
        | none => none
        | some (ch, width) => goOn ch (width + 1)
    else goOn ch 1
  | _, _ => some ([], .gap, c)

def readQuoted (budget : List Char) (quote : Char) (c : Cursor) : Option (List Char × Cursor) :=
  match budget with
  | [] => none
  | _ :: budget =>
    if c.atDocument || c.rest.isEmpty then none
    else do
      let (word, wordEnd, c) ← readQuotedWord c.rest quote c
      if wordEnd = .quote then some (word, c.skip 1)
      else do
        let start : Gap := { broken := wordEnd = .escapedBreak }
        let (gap, c) ← readGap c.rest 0 start c
        -- an escaped line end may stand right in front of the closing quote
        let (tail, c) ← readQuoted budget quote c
        some (word ++ gap.text ++ tail, c)

/-! ### Block scalars -/

inductive Chomping
  | strip
  | clip
  | keep
  deriving DecidableEq, Repr

structure BlockHeader where
  chomping : Chomping := .clip
  /-- How much deeper than its surroundings the block is, if that is said. -/
  increment : Option Nat := none

def chomping? (c : Char) : Option Chomping :=
  if c = '+' then some .keep else if c = '-' then some .strip else none

def increment? (c : Char) : Option Nat :=
  if '1' ≤ c && c ≤ '9' then some (c.toNat - '0'.toNat) else none

def readBlockHeader : List Char → BlockHeader × Nat
  | [] => ({}, 0)
  | [a] =>
    match chomping? a, increment? a with
    | some chomping, _ => ({ chomping }, 1)
    | none, some n => ({ increment := some n }, 1)
    | none, none => ({}, 0)
  | a :: b :: _ =>
    match chomping? a, increment? a with
    | some chomping, _ =>
      match increment? b with
      | some n => (⟨chomping, some n⟩, 2)
      | none => ({ chomping }, 1)
    | none, some n =>
      match chomping? b with
      | some chomping => (⟨chomping, some n⟩, 2)
      | none => ({ increment := some n }, 1)
    | none, none => ({}, 0)

/-- Reads empty lines and the blanks in front of the next line that is not empty.  Without a known
depth it is that of the deepest of these lines. -/
def readEmptyLines (budget : List Char) (indent : Option Nat) (deepest : Nat) (breaks : List Char)
    (c : Cursor) : Option (Nat × List Char × Cursor) :=
  match budget with
  | [] => some (max deepest c.column, breaks, c)
  | _ :: budget =>
    let spaces := (c.rest.takeWhile (· = ' ')).length
    let c := c.skip (match indent with | none => spaces | some n => min spaces (n - c.column))
    let deepest := max deepest c.column
    let isInside := match indent with | none => false | some n => n ≤ c.column
    match c.rest with
    | [] => some (deepest, breaks, c)
    | ch :: _ =>
      if !isInside && ch = '\t' then none
      else if isBreak ch then
        let (text, c) := c.readBreak
        readEmptyLines budget indent deepest (breaks ++ text) c
      else some (deepest, breaks, c)

structure BlockGap where
  lastBreak : List Char := []
  emptyLines : List Char
  afterBlank : Bool := false

def startsBlank (line : List Char) : Bool :=
  (line.head?.map isBlank).getD false

/-- What the gap in front of a line counts for.  It is folded if neither the line nor the one before
it starts with a blank. -/
def BlockGap.text (gap : BlockGap) (folded : Bool) (line : List Char) : List Char :=
  if folded && gap.lastBreak = ['\n'] && !gap.afterBlank && !startsBlank line then
    if gap.emptyLines.isEmpty then [' '] else gap.emptyLines
  else gap.lastBreak ++ gap.emptyLines

def BlockGap.chomp (gap : BlockGap) : Chomping → List Char
  | .strip => []
  | .clip => gap.lastBreak
  | .keep => gap.lastBreak ++ gap.emptyLines

def readBlockLines (budget : List Char) (folded : Bool) (chomping : Chomping) (indent : Nat)
    (gap : BlockGap) (c : Cursor) : Option (List Char × Cursor) :=
  match budget with
  | [] => some (gap.chomp chomping, c)
  | _ :: budget =>
    if c.column != indent || c.rest.isEmpty then some (gap.chomp chomping, c)
    else do
      let (line, c) := c.span fun ch => !isBreak ch
      let (lastBreak, c) := c.readBreak
      let (_, emptyLines, c) ← readEmptyLines c.rest (some indent) 0 [] c
      let next : BlockGap := { lastBreak, emptyLines, afterBlank := startsBlank line }
      let (tail, c) ← readBlockLines budget folded chomping indent next c
      some (gap.text folded line ++ line ++ tail, c)

def readBlock (folded : Bool) (outer : Int) (c : Cursor) : Option (List Char × Cursor) := do
  let (header, width) := readBlockHeader c.rest
  let c := (c.skip width).skipComment
  if !atLineEnd c.rest then none
  else do
    let c := c.skipBreak
    let known := header.increment.map fun n => (max outer 0).toNat + n
    let (deepest, emptyLines, c) ← readEmptyLines c.rest known 0 [] c
    let indent := known.getD (max deepest (max (outer + 1).toNat 1))
    readBlockLines c.rest folded header.chomping indent { emptyLines } c

end PetClient.Yaml
