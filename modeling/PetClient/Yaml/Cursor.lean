/-!
A place in a text, and the characters that matter to it.
-/

namespace PetClient.Yaml

def isBlank (c : Char) : Bool :=
  c = ' ' || c = '\t'

def isBreak (c : Char) : Bool :=
  c = '\r' || c = '\n' || c = '\u0085' || c = '\u2028' || c = '\u2029'

def isNameChar (c : Char) : Bool :=
  c.isAlphanum || c = '_' || c = '-'

def isAllowed (c : Char) : Bool :=
  let n := c.toNat
  n = 0x09 || n = 0x0A || n = 0x0D || (0x20 ≤ n && n ≤ 0x7E) || n = 0x85 ||
    (0xA0 ≤ n && n ≤ 0xFFFD) || 0x10000 ≤ n

def byteOrderMark : Char := '\uFEFF'

def atGap : List Char → Bool
  | [] => true
  | c :: _ => isBlank c || isBreak c

def atLineEnd : List Char → Bool
  | [] => true
  | c :: _ => isBreak c

structure Cursor where
  rest : List Char
  index : Nat := 0
  line : Nat := 0
  column : Nat := 0

namespace Cursor

def skip (c : Cursor) (count : Nat) : Cursor :=
  { c with rest := c.rest.drop count, index := c.index + count, column := c.column + count }

def span (c : Cursor) (p : Char → Bool) : List Char × Cursor :=
  let text := c.rest.takeWhile p
  (text, c.skip text.length)

def skipWhile (c : Cursor) (p : Char → Bool) : Cursor :=
  (c.span p).2

def newLine (c : Cursor) (width : Nat) : Cursor where
  rest := c.rest.drop width
  index := c.index + width
  line := c.line + 1
  column := 0

/-- The end of a line as it counts in a text, if there is one here, and the start of the next. -/
def readBreak (c : Cursor) : List Char × Cursor :=
  match c.rest with
  | '\r' :: '\n' :: _ => (['\n'], c.newLine 2)
  | ch :: _ =>
    if ch = '\u2028' || ch = '\u2029' then ([ch], c.newLine 1)
    else if isBreak ch then (['\n'], c.newLine 1)
    else ([], c)
  | [] => ([], c)

def skipBreak (c : Cursor) : Cursor :=
  c.readBreak.2

def skipComment (c : Cursor) : Cursor :=
  let c := c.skipWhile isBlank
  match c.rest with
  | '#' :: _ => c.skipWhile fun ch => !isBreak ch
  | _ => c

/-- Whether three equal characters stand alone at the start of a line. -/
def atMarker (c : Cursor) (sign : Char) : Bool :=
  c.column = 0 &&
    match c.rest with
    | x :: y :: z :: rest => x = sign && y = sign && z = sign && atGap rest
    | _ => false

def atDocument (c : Cursor) : Bool :=
  c.atMarker '-' || c.atMarker '.'

end Cursor

end PetClient.Yaml
