import PetClient.Text.Basic

/-!
Internet addresses of version 4 in a host.  A host is one when its last part is a number; the parts
may be decimal, octal or hexadecimal, and the last part fills the bytes that are left.
-/

namespace PetClient.Url.Ipv4

def natOfBase? (base : Nat) (digits : List Char) : Option Nat :=
  digits.foldlM (fun n c => do
    let d ← Text.hexDigit? c
    if d < base then some (n * base + d) else none) 0

def number? (part : List Char) : Option Nat :=
  match part with
  | [] => none
  | '0' :: 'x' :: digits => natOfBase? 16 digits
  | '0' :: 'X' :: digits => natOfBase? 16 digits
  | '0' :: d :: digits => natOfBase? 8 (d :: digits)
  | digits => natOfBase? 10 digits

/-- The parts between points, without an empty part at the end. -/
def parts (host : List Char) : List (List Char) :=
  let all := Text.splitAt '.' host
  match all.getLast? with
  | some [] => all.dropLast
  | _ => all

def endsInNumber (host : List Char) : Bool :=
  match (parts host).getLast? with
  | none => false
  | some part => (!part.isEmpty && part.all Char.isDigit) || (number? part).isSome

/-- The bytes of an address in front of its last part, weighted by their places. -/
def leading (numbers : List Nat) : Nat :=
  (numbers.zipIdx.map fun (n, i) => n * Nat.pow 256 (3 - i)).foldl (· + ·) 0

def address? (host : List Char) : Option UInt32 := do
  let numbers ← (parts host).mapM number?
  let last ← numbers.getLast?
  let first := numbers.dropLast
  if numbers.length ≤ 4 && last < Nat.pow 256 (4 - first.length) && first.all (· < 256) then
    some (UInt32.ofNat (leading first + last))
  else none

end PetClient.Url.Ipv4
