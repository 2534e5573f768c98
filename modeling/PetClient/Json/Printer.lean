import PetClient.Decimal.Shortest
import PetClient.Json.Value

/-!
The text of a JSON value: compact, without any blanks, or laid out with one member or item a line.
Only quotes, backslashes and characters below the space are escaped.
-/

namespace PetClient.Json

def hexPair (n : Nat) : List Char :=
  [Nat.digitChar (n / 16), Nat.digitChar (n % 16)]

def escapeChar (c : Char) : List Char :=
  if c = '"' then ['\\', '"']
  else if c = '\\' then ['\\', '\\']
  else if c = '\x08' then ['\\', 'b']
  else if c = '\x0c' then ['\\', 'f']
  else if c = '\n' then ['\\', 'n']
  else if c = '\r' then ['\\', 'r']
  else if c = '\t' then ['\\', 't']
  else if c.toNat < 0x20 then ['\\', 'u', '0', '0'] ++ hexPair c.toNat
  else [c]

def quoted (text : List Char) : List Char :=
  '"' :: (text.flatMap escapeChar ++ ['"'])

structure FloatLayout where
  /-- The leftmost place of the point that is still written positionally. -/
  leastPoint : Int
  greatestPoint : Int

/-- Positional from `1e-5` up and below `1e16`. -/
def floatLayout : FloatLayout := ⟨-4, 16⟩

def digitChars (digits : List Nat) : List Char :=
  digits.map Nat.digitChar

def intChars (n : Int) : List Char :=
  (toString n).toList

/-- The shortest text of a floating-point number, which always has a point or an exponent. -/
def floatChars (x : Decimal.Binary64) : List Char :=
  let ⟨digits, point⟩ := x.shortest
  let sign := if x.negative then ['-'] else []
  let body :=
    if x.isZero then ['0', '.', '0']
    else if floatLayout.leastPoint ≤ point && point ≤ 0 then
      ['0', '.'] ++ List.replicate (-point).toNat '0' ++ digitChars digits
    else if 0 < point && point ≤ floatLayout.greatestPoint then
      let whole := digits.take point.toNat
      let fraction := digits.drop point.toNat
      digitChars whole ++ List.replicate (point.toNat - whole.length) '0' ++ ['.'] ++
        (if fraction.isEmpty then ['0'] else digitChars fraction)
    else
      let exponent := point - 1
      digitChars (digits.take 1) ++
        (if digits.length ≤ 1 then [] else '.' :: digitChars (digits.drop 1)) ++
        ['e'] ++ (if exponent < 0 then [] else ['+']) ++ intChars exponent
  sign ++ body

def numberChars : Decimal.Number → List Char
  | .integer n => intChars n
  | .float x => floatChars x

def boolChars (b : Bool) : List Char :=
  if b then ['t', 'r', 'u', 'e'] else ['f', 'a', 'l', 's', 'e']

mutual

def compactChars : Json → List Char
  | null => ['n', 'u', 'l', 'l']
  | bool b => boolChars b
  | number n => numberChars n
  | string s => quoted s.toList
  | array items => '[' :: (compactItems items ++ [']'])
  | object members => '{' :: (compactMembers members ++ ['}'])

def compactItems : List Json → List Char
  | [] => []
  | [item] => compactChars item
  | item :: next :: rest => compactChars item ++ ',' :: compactItems (next :: rest)

def compactMembers : List (String × Json) → List Char
  | [] => []
  | [(name, value)] => quoted name.toList ++ ':' :: compactChars value
  | (name, value) :: next :: rest =>
    quoted name.toList ++ ':' :: (compactChars value ++ ',' :: compactMembers (next :: rest))

end

def compact (value : Json) : String :=
  String.ofList value.compactChars

def newLine (depth : Nat) : List Char :=
  '\n' :: List.replicate (2 * depth) ' '

mutual

def prettyChars (depth : Nat) : Json → List Char
  | array [] => ['[', ']']
  | array (item :: items) =>
    '[' :: (prettyItems (depth + 1) (item :: items) ++ newLine depth ++ [']'])
  | object [] => ['{', '}']
  | object (member :: members) =>
    '{' :: (prettyMembers (depth + 1) (member :: members) ++ newLine depth ++ ['}'])
  | null => ['n', 'u', 'l', 'l']
  | bool b => boolChars b
  | number n => numberChars n
  | string s => quoted s.toList

def prettyItems (depth : Nat) : List Json → List Char
  | [] => []
  | [item] => newLine depth ++ prettyChars depth item
  | item :: next :: rest =>
    newLine depth ++ prettyChars depth item ++ ',' :: prettyItems depth (next :: rest)

def prettyMembers (depth : Nat) : List (String × Json) → List Char
  | [] => []
  | [(name, value)] =>
    newLine depth ++ quoted name.toList ++ [':', ' '] ++ prettyChars depth value
  | (name, value) :: next :: rest =>
    newLine depth ++ quoted name.toList ++ [':', ' '] ++ prettyChars depth value ++
      ',' :: prettyMembers depth (next :: rest)

end

def pretty (value : Json) : String :=
  String.ofList (value.prettyChars 0)

end PetClient.Json
