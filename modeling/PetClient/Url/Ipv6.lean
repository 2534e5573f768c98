import PetClient.Text.Basic

/-!
Internet addresses of version 6: eight groups of up to four hexadecimal digits, one run of groups
written `::`, and the last two groups possibly in the notation of version 4.
-/

namespace PetClient.Url.Ipv6

def byte? (digits : List Char) : Option Nat :=
  if digits.isEmpty || !digits.all Char.isDigit then none
  else if digits.head? = some '0' && digits.length ≠ 1 then none
  else if 3 < digits.length then none
  else
    let n := digits.foldl (fun n c => n * 10 + (c.toNat - '0'.toNat)) 0
    if n < 256 then some n else none

def embedded? (text : List Char) : Option (List Nat) := do
  match ← (Text.splitAt '.' text).mapM byte? with
  | [a, b, c, d] => some [a * 256 + b, c * 256 + d]
  | _ => none

/-- The groups read so far, and how many of them stand in front of the `::`. -/
structure Groups where
  read : List Nat := []
  gapAfter : Option Nat := none

def Groups.push (g : Groups) (group : Nat) : Groups :=
  { g with read := g.read ++ [group] }

/-- How many groups are taken; a run counts for one. -/
def Groups.count (g : Groups) : Nat :=
  g.read.length + (if g.gapAfter.isSome then 1 else 0)

def readGroups (fuel : Nat) (g : Groups) (text : List Char) : Option Groups :=
  match fuel with
  | 0 => none
  | fuel + 1 =>
    match text with
    | [] => some g
    | c :: rest =>
      if g.count = 8 then none
      else if c = ':' then
        if g.gapAfter.isSome then none
        else readGroups fuel { g with gapAfter := g.read.length } rest
      else
        let isHex (c : Char) : Bool := (Text.hexDigit? c).isSome
        let digits := (text.take 4).takeWhile isHex
        match text.drop digits.length with
        | [] => some (g.push (Text.natOfHex digits))
        | ':' :: [] => none
        | ':' :: rest => readGroups fuel (g.push (Text.natOfHex digits)) rest
        | '.' :: _ =>
          if digits.isEmpty || 6 < g.count then none
          else (embedded? text).map fun groups => { g with read := g.read ++ groups }
        | _ => none

def Groups.fill? (g : Groups) : Option (List Nat) :=
  match g.gapAfter with
  | none => if g.read.length = 8 then some g.read else none
  | some n =>
    some (g.read.take n ++ List.replicate (8 - g.read.length) 0 ++ g.read.drop n)

def groups? (text : List Char) : Option (List Nat) :=
  match text with
  | ':' :: ':' :: rest =>
    (readGroups (text.length + 1) { gapAfter := some 0 } rest).bind Groups.fill?
  | ':' :: _ => none
  | [_] => none
  | text => (readGroups (text.length + 1) {} text).bind Groups.fill?

end PetClient.Url.Ipv6
