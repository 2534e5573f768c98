import PetClient.Proofs.Text.Number
import PetClient.Proofs.Text.Parts
import PetClient.Url.Basic
import PetClient.Url.Ipv4

/-!
Internet addresses of version 4 that are read again: four bytes in decimal stand for the address
that they are the bytes of.
-/

namespace PetClient.Url.Ipv4

open Host (ipv4Chars)

/-! ### Parts -/

theorem natOfBase?_toDigits (n : Nat) : natOfBase? 10 (Nat.toDigits 10 n) = some n := by
  refine Text.toDigits_induction (p := fun n digits => natOfBase? 10 digits = some n) (by decide)
    ?_ ?_ n
  · intro n small
    unfold natOfBase?
    rw [List.foldlM_cons, Text.hexDigit?_digitChar (by omega)]
    simp [small]
  · intro n _ front
    have digit : n % 10 < 10 := Nat.mod_lt n (by decide)
    unfold natOfBase? at front ⊢
    rw [List.foldlM_append, front, Option.bind_eq_bind, Option.bind_some, List.foldlM_cons,
      Text.hexDigit?_digitChar (by omega)]
    simp [digit, Nat.div_add_mod']

theorem number?_eq_decimal {part : List Char} (nonempty : part ≠ [])
    (nonzero : part.head? ≠ some '0') : number? part = natOfBase? 10 part := by
  unfold number?
  split
  · exact absurd rfl nonempty
  · exact absurd rfl nonzero
  · exact absurd rfl nonzero
  · exact absurd rfl nonzero
  · rfl

/-- A number is read from its decimal digits, which are not taken for octal ones. -/
theorem number?_toDigits (n : Nat) : number? (Nat.toDigits 10 n) = some n := by
  by_cases zero : n = 0
  · rw [zero]
    decide
  · rw [number?_eq_decimal Nat.toDigits_ne_nil
      (Text.head?_toDigits (by decide) (by decide) zero)]
    exact natOfBase?_toDigits n

/-! ### Addresses -/

def bytesOf (address : UInt32) : List Nat :=
  [3, 2, 1, 0].map fun k => address.toNat / Nat.pow 256 k % 256

theorem ipv4Chars_eq (address : UInt32) :
    ipv4Chars address = List.intercalate ['.'] ((bytesOf address).map (Nat.toDigits 10)) := by
  simp [ipv4Chars, bytesOf]

theorem parts_ipv4Chars (address : UInt32) :
    parts (ipv4Chars address) = (bytesOf address).map (Nat.toDigits 10) := by
  have split : Text.splitAt '.' (ipv4Chars address) = (bytesOf address).map (Nat.toDigits 10) := by
    rw [ipv4Chars_eq]
    refine Text.splitAt_intercalate (List.cons_ne_nil _ _) fun part mem point => ?_
    obtain ⟨n, -, rfl⟩ := List.mem_map.1 mem
    cases Text.isDigit_of_mem_toDigits point
  unfold parts
  simp only [split]
  split
  · rename_i last
    simp [bytesOf] at last
  · rfl

theorem endsInNumber_ipv4Chars (address : UInt32) : endsInNumber (ipv4Chars address) = true := by
  unfold endsInNumber
  rw [parts_ipv4Chars]
  simp [bytesOf, number?_toDigits]

theorem address?_ipv4Chars (address : UInt32) : address? (ipv4Chars address) = some address := by
  have numbers : ((bytesOf address).map (Nat.toDigits 10)).mapM number? =
      some (bytesOf address) := by
    rw [Text.mapM_eq_some_iff, List.forall₂_map_left_iff, List.forall₂_same]
    exact fun n _ => number?_toDigits n
  have last : (bytesOf address).getLast? = some (address.toNat % 256) := by
    simp [bytesOf]
  have first : ((bytesOf address).dropLast.all (· < 256)) = true := by
    simp [bytesOf, Nat.mod_lt]
  have whole : leading (bytesOf address).dropLast + address.toNat % 256 = address.toNat := by
    have small : address.toNat < 2 ^ 32 := address.toNat_lt
    change 0 + address.toNat / 0x1000000 % 0x100 * 0x1000000 +
      address.toNat / 0x10000 % 0x100 * 0x10000 + address.toNat / 0x100 % 0x100 * 0x100 +
      address.toNat % 0x100 = address.toNat
    omega
  have fits : ((bytesOf address).length ≤ 4 &&
      address.toNat % 256 < Nat.pow 256 (4 - (bytesOf address).dropLast.length)) = true := by
    simp [bytesOf, Nat.mod_lt]
  unfold address?
  rw [parts_ipv4Chars, numbers]
  simp only [Option.bind_eq_bind, Option.bind_some, last, first, fits, whole, Bool.and_self, if_true,
    UInt32.ofNat_toNat]

end PetClient.Url.Ipv4
