import Mathlib
import PetClient.Text.Basic

/-!
Numbers in text: the digits of a number, read again, give that number.
-/

namespace PetClient.Text

/-- A number is its last digit behind the digits of the others. -/
theorem toDigits_induction {base : Nat} (many : 1 < base) {p : Nat → List Char → Prop}
    (single : ∀ n, n < base → p n [n.digitChar])
    (behind : ∀ n, base ≤ n → p (n / base) (Nat.toDigits base (n / base)) →
      p n (Nat.toDigits base (n / base) ++ [(n % base).digitChar])) (n : Nat) :
    p n (Nat.toDigits base n) := by
  induction n using Nat.strongRecOn with
  | _ n ih =>
    by_cases small : n < base
    · rw [Nat.toDigits_of_lt_base small]
      exact single n small
    · have large := Nat.le_of_not_lt small
      rw [Nat.toDigits_of_base_le many large]
      exact behind n large (ih _ (Nat.div_lt_self (by omega) many))

theorem hexDigit?_digitChar {d : Nat} (bound : d < 16) : hexDigit? d.digitChar = some d := by
  interval_cases d <;> decide

theorem hexDigit?_lt {c : Char} {d : Nat} (found : hexDigit? c = some d) : d < 16 := by
  unfold hexDigit? at found
  simp only [Char.le_def, UInt32.le_iff_toNat_le, Bool.and_eq_true, decide_eq_true_iff] at found
  change (if 48 ≤ c.toNat ∧ c.toNat ≤ 57 then some (c.toNat - 48)
    else if 97 ≤ c.toNat ∧ c.toNat ≤ 102 then some (c.toNat - 97 + 10)
    else if 65 ≤ c.toNat ∧ c.toNat ≤ 70 then some (c.toNat - 65 + 10) else none) = some d at found
  split_ifs at found <;> cases found <;> omega

theorem natOfHex_lt (digits : List Char) : natOfHex digits < 16 ^ digits.length := by
  induction digits using List.reverseRecOn with
  | nil => decide
  | append_singleton front c ih =>
    have digit : (hexDigit? c).getD 0 < 16 := by
      cases found : hexDigit? c with
      | none => decide
      | some d => exact hexDigit?_lt found
    unfold natOfHex at ih ⊢
    rw [List.foldl_append, List.foldl_cons, List.foldl_nil, List.length_append, List.length_singleton,
      Nat.pow_succ]
    omega

theorem natOfHex_toDigits (n : Nat) : natOfHex (Nat.toDigits 16 n) = n := by
  refine toDigits_induction (p := fun n digits => natOfHex digits = n) (by decide) ?_ ?_ n
  · intro n small
    unfold natOfHex
    rw [List.foldl_cons, hexDigit?_digitChar small]
    exact Nat.zero_add n
  · intro n _ front
    unfold natOfHex at front ⊢
    rw [List.foldl_append, front, List.foldl_cons,
      hexDigit?_digitChar (Nat.mod_lt n (by decide))]
    exact Nat.div_add_mod' n 16

theorem foldl_toDigits (n : Nat) :
    (Nat.toDigits 10 n).foldl (fun n c => n * 10 + (c.toNat - '0'.toNat)) 0 = n := by
  have read := Nat.ofDigitChars_ten_toDigits (n := n)
  simp only [Nat.ofDigitChars, Nat.mul_comm 10] at read
  exact read

/-- A number that does not start with zero has no zero in front. -/
theorem head?_toDigits {base n : Nat} (many : 1 < base) (small : base ≤ 16) (nonzero : n ≠ 0) :
    (Nat.toDigits base n).head? ≠ some '0' := by
  have other {d : Nat} (bound : d < 16) (positive : d ≠ 0) : d.digitChar ≠ '0' := by
    intro zero
    have value := hexDigit?_digitChar bound
    rw [zero] at value
    cases value
    exact positive rfl
  refine toDigits_induction (p := fun n digits => n ≠ 0 → digits.head? ≠ some '0') many ?_ ?_ n
    nonzero
  · intro n bound positive first
    exact other (by omega) positive (Option.some.inj first)
  · intro n large front positive first
    have quotient : n / base ≠ 0 := by
      have positive := Nat.div_pos large (by omega)
      omega
    rw [List.head?_append_of_ne_nil _ (by simp)] at first
    exact front quotient first

end PetClient.Text
