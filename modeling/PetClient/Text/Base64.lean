import PetClient.Text.Utf8

/-!
Bytes in 64 characters: three bytes make four characters, and `=` fills up the last four.
-/

namespace PetClient.Text.Base64

def digit (n : Nat) : Char :=
  if n < 26 then Char.ofNat ('A'.toNat + n)
  else if n < 52 then Char.ofNat ('a'.toNat + (n - 26))
  else if n < 62 then Char.ofNat ('0'.toNat + (n - 52))
  else if n = 62 then '+'
  else '/'

def place (n k : Nat) : Char :=
  digit (n / Nat.pow 64 (3 - k) % 64)

def encode : Bytes → List Char
  | a :: b :: c :: rest =>
    let n := (a.toNat * 256 + b.toNat) * 256 + c.toNat
    place n 0 :: place n 1 :: place n 2 :: place n 3 :: encode rest
  | [a, b] =>
    let n := (a.toNat * 256 + b.toNat) * 256
    [place n 0, place n 1, place n 2, '=']
  | [a] =>
    let n := a.toNat * 65536
    [place n 0, place n 1, '=', '=']
  | [] => []

end PetClient.Text.Base64
