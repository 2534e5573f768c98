import PetClient.Proofs.Json.Scalar
import PetClient.Proofs.Result

/-!
Number literals: the parts that they are written in, how they are read, and which of them stand for
whole numbers.
-/

namespace PetClient.Decimal

theorem taken_le_length (bound n : Nat) (digits : List Nat) :
    (absorb bound n digits).2 ≤ digits.length := by
  induction digits generalizing n with
  | nil => exact Nat.le_refl 0
  | cons d digits ih =>
    unfold absorb
    split
    · exact Nat.succ_le_succ (ih (n * 10 + d))
    · exact Nat.zero_le _

theorem lt_of_taken_eq_length {bound n : Nat} {digits : List Nat} (below : n < bound)
    (all : (absorb bound n digits).2 = digits.length) :
    digits.foldl (fun n d => n * 10 + d) n < bound := by
  induction digits generalizing n with
  | nil => exact below
  | cons d digits ih =>
    unfold absorb at all
    split at all
    · rename_i fits
      exact ih fits (Nat.succ.inj all)
    · cases all

namespace Literal

/-- A literal is a whole number only if it has neither fraction nor power and fits a word of 64
bits with its sign; a negative zero is none. -/
def IsInteger (l : Literal) (n : Int) : Prop :=
  l.fraction = [] ∧ l.power = none ∧
    if l.negative then
      0 < natOfDigits l.whole ∧ natOfDigits l.whole ≤ 2 ^ 63 ∧ n = -natOfDigits l.whole
    else natOfDigits l.whole < 2 ^ 64 ∧ n = natOfDigits l.whole

theorem toNumber_of_isInteger {l : Literal} {n : Int} (isInteger : l.IsInteger n) :
    l.toNumber = some (.integer n) := by
  obtain ⟨negative, whole, fraction, power⟩ := l
  obtain ⟨rfl, rfl, fits⟩ := isInteger
  cases negative with
  | true =>
    obtain ⟨positive, small, rfl⟩ := fits
    exact toNumber_negative positive small
  | false =>
    obtain ⟨small, rfl⟩ := fits
    exact toNumber_whole small

/-- What is read through a floating-point number is no whole number. -/
theorem isInteger_of_toNumber {l : Literal} {n : Int} (read : l.toNumber = some (.integer n)) :
    l.IsInteger n := by
  obtain ⟨negative, whole, fraction, power⟩ := l
  -- All digits are taken, so they stay below the bound and stand for what they were added up to.
  have total (all : whole.length - (absorb wordBound 0 whole).2 = 0) :
      natOfDigits whole < wordBound ∧ (absorb wordBound 0 whole).1 = natOfDigits whole := by
    have taken := taken_le_length wordBound 0 whole
    have every : (absorb wordBound 0 whole).2 = whole.length := by omega
    have fits := lt_of_taken_eq_length (by decide) every
    exact ⟨fits, congrArg Prod.fst (absorb_of_lt fits)⟩
  unfold toNumber at read
  simp only [Bool.and_eq_true, List.isEmpty_iff, Option.isNone_iff_eq_none, decide_eq_true_eq,
    Bool.not_eq_eq_eq_not, Bool.not_true] at read
  split at read
  · rename_i isWhole
    obtain ⟨⟨⟨rfl, rfl⟩, all⟩, rfl⟩ := isWhole
    obtain ⟨fits, sum⟩ := total all
    cases read
    exact ⟨rfl, rfl, fits, congrArg Nat.cast sum⟩
  · rename_i noWhole
    split at read
    · rename_i isNegative
      obtain ⟨⟨⟨⟨rfl, rfl⟩, all⟩, positive⟩, small⟩ := isNegative
      obtain ⟨fits, sum⟩ := total all
      rw [sum] at positive small read
      cases negative with
      | true =>
        cases read
        exact ⟨rfl, rfl, positive, small, rfl⟩
      | false => exact absurd ⟨⟨⟨rfl, rfl⟩, all⟩, rfl⟩ noWhole
    · -- What is left is a float, if anything.
      split at read
      · cases read
      · obtain ⟨x, -, impossible⟩ := Option.map_eq_some_iff.1 read
        cases impossible

theorem toNumber_eq_integer {l : Literal} {n : Int} :
    l.toNumber = some (.integer n) ↔ l.IsInteger n :=
  ⟨isInteger_of_toNumber, toNumber_of_isInteger⟩

end Literal

end PetClient.Decimal

namespace PetClient.Json

open Result (bind_eq_ok)

/-! ### Parts of a number -/

def powerDigits : Bytes → Option (Bool × List Nat)
  | [] => none
  | _ :: 0x2D :: digits => some (true, digits.map digitValue)
  | _ :: 0x2B :: digits => some (false, digits.map digitValue)
  | _ :: digits => some (false, digits.map digitValue)

theorem noDigit_fraction {fraction power rest : Bytes} (isFraction : IsFraction fraction)
    (isPower : IsPower power) (stops : Stops rest) :
    startsWithDigit (fraction ++ (power ++ rest)) = false := by
  cases isFraction with
  | digits => rfl
  | none =>
    cases isPower with
    | none => exact stops.noDigit
    | digits letter => rcases letter with rfl | rfl <;> rfl

theorem noDigit_power {power rest : Bytes} (isPower : IsPower power) (stops : Stops rest) :
    startsWithDigit (power ++ rest) = false :=
  noDigit_fraction .none isPower stops

theorem readFraction_append {fraction power rest : Bytes} (isFraction : IsFraction fraction)
    (isPower : IsPower power) (stops : Stops rest) (atEnd : Problem) :
    readFraction atEnd (fraction ++ (power ++ rest)) =
      .ok (fraction.tail.map digitValue, power ++ rest) := by
  cases isFraction with
  | none =>
    cases isPower with
    | none => exact stops.noFraction atEnd
    | digits letter => rcases letter with rfl | rfl <;> rfl
  | @digits digits nonempty areDigits =>
    have span := spanDigits_append areDigits (noDigit_power isPower stops)
    cases digits with
    | nil => contradiction
    | cons b digits =>
      rw [List.cons_append]
      unfold readFraction
      simp only [span, List.map_cons, List.tail_cons]

theorem readPowerDigits_append {digits rest : Bytes} (nonempty : digits ≠ [])
    (areDigits : AreDigits digits) (stops : Stops rest) (atEnd : Problem) (negative : Bool) :
    readPowerDigits atEnd negative (digits ++ rest) =
      .ok (some (negative, digits.map digitValue), rest) := by
  have span := spanDigits_append areDigits stops.noDigit
  cases digits with
  | nil => contradiction
  | cons b digits =>
    have digit := areDigits b (List.mem_cons_self ..)
    rw [List.cons_append] at span ⊢
    unfold readPowerDigits
    simp only [digit, ↓reduceIte, span]

theorem ne_sign_of_isDigit {b : UInt8} (digit : isDigit b = true) : b ≠ 0x2B ∧ b ≠ 0x2D := by
  constructor
  · rintro rfl
    exact absurd digit (by decide)
  · rintro rfl
    exact absurd digit (by decide)

theorem powerDigits_unsigned {b d : UInt8} (digit : isDigit d = true) (digits : Bytes) :
    powerDigits (b :: d :: digits) = some (false, (d :: digits).map digitValue) := by
  obtain ⟨noPlus, noMinus⟩ := ne_sign_of_isDigit digit
  unfold powerDigits
  split
  · contradiction
  · rename_i same
    cases same
    contradiction
  · rename_i same
    cases same
    contradiction
  · rename_i same
    cases same
    rfl

theorem readPower_append {power rest : Bytes} (isPower : IsPower power) (stops : Stops rest)
    (atEnd : Problem) : readPower atEnd (power ++ rest) = .ok (powerDigits power, rest) := by
  cases isPower with
  | none => exact stops.noPower atEnd
  | @digits b sign digits letter signed nonempty areDigits =>
    have taken := readPowerDigits_append nonempty areDigits stops atEnd
    have isLetter : (decide (b = 0x65) || decide (b = 0x45)) = true := by simpa using letter
    unfold readPower
    rw [List.cons_append, List.append_assoc]
    simp only [isLetter, ↓reduceIte]
    rcases signed with rfl | rfl | rfl
    · cases digits with
      | nil => contradiction
      | cons d digits =>
        have digit := areDigits d (List.mem_cons_self ..)
        obtain ⟨noPlus, noMinus⟩ := ne_sign_of_isDigit digit
        rw [List.nil_append, List.nil_append, powerDigits_unsigned digit, ← taken false,
          List.cons_append]
        split
        · rename_i same
          cases same
          contradiction
        · rename_i same
          cases same
          contradiction
        · rfl
    · exact taken false
    · exact taken true

/-! ### Whole literals -/

structure NumberText where
  negative : Bool
  whole : Bytes
  fraction : Bytes
  power : Bytes
  isWhole : IsWhole whole
  isFraction : IsFraction fraction
  isPower : IsPower power

namespace NumberText

def digits (t : NumberText) : Bytes :=
  t.whole ++ (t.fraction ++ t.power)

def bytes (t : NumberText) : Bytes :=
  if t.negative then 0x2D :: t.digits else t.digits

def literal (t : NumberText) : Decimal.Literal :=
  ⟨t.negative, t.whole.map digitValue, t.fraction.tail.map digitValue, powerDigits t.power⟩

theorem isNumber (t : NumberText) : IsNumber t.digits :=
  .parts t.isWhole t.isFraction t.isPower

theorem isValue (t : NumberText) : IsValue t.bytes := by
  unfold bytes
  split
  · exact .negative t.isNumber
  · exact .number t.isNumber

theorem exists_digits_eq {number : Bytes} (isNumber : IsNumber number) (negative : Bool) :
    ∃ t : NumberText, t.negative = negative ∧ t.digits = number := by
  obtain ⟨isWhole, isFraction, isPower⟩ := isNumber
  exact ⟨⟨negative, _, _, _, isWhole, isFraction, isPower⟩, rfl, rfl⟩

/-- A literal is read part by part, in front of anything that may follow a value. -/
theorem readLiteral_append (t : NumberText) {rest : Bytes} (stops : Stops rest)
    (atEnd : Problem) :
    readLiteral atEnd t.negative (t.digits ++ rest) = .ok (t.literal, rest) := by
  have whole := readWhole_append t.isWhole atEnd (noDigit_fraction t.isFraction t.isPower stops)
  have fraction := readFraction_append t.isFraction t.isPower stops atEnd
  have power := readPower_append t.isPower stops atEnd
  unfold readLiteral digits
  rw [List.append_assoc, List.append_assoc]
  simp only [bind, Except.bind, whole, fraction, power]
  rfl

/-! ### What literals stand for -/

def value (t : NumberText) : Int :=
  let whole : Nat := Nat.ofDigits 10 (t.whole.reverse.map digitValue)
  if t.negative then -whole else whole

theorem natOfDigits_eq (digits : Bytes) :
    Decimal.natOfDigits (digits.map digitValue) =
      Nat.ofDigits 10 (digits.reverse.map digitValue) := by
  rw [Nat.ofDigits_eq_foldr, List.map_reverse, List.foldr_reverse]
  unfold Decimal.natOfDigits
  congr 1
  funext n d
  rw [Nat.cast_id, Nat.mul_comm, Nat.add_comm]

theorem natOfDigits_eq_zero {whole : Bytes} (isWhole : IsWhole whole) :
    Decimal.natOfDigits (whole.map digitValue) = 0 ↔ whole = [0x30] := by
  constructor
  · intro zero
    cases isWhole with
    | zero => rfl
    | @digits b digits digit nonzero _ =>
      have least := Decimal.le_foldl_digits (digitValue b) (digits.map digitValue)
      have first : Decimal.natOfDigits ((b :: digits).map digitValue) =
          (digits.map digitValue).foldl (fun n d => n * 10 + d) (digitValue b) := by
        simp [Decimal.natOfDigits]
      have bounds := bounds_of_isDigit digit
      have different : b.toNat ≠ 0x30 := fun same => nonzero (UInt8.toNat_inj.1 same)
      have positive : 0 < digitValue b := by
        unfold digitValue
        omega
      omega
  · rintro rfl
    rfl

theorem fraction_eq_nil (t : NumberText) : t.literal.fraction = [] ↔ t.fraction = [] := by
  change t.fraction.tail.map digitValue = [] ↔ _
  have isFraction := t.isFraction
  generalize t.fraction = fraction at isFraction
  cases isFraction with
  | none => simp
  | digits nonempty _ => simpa using nonempty

theorem power_eq_none (t : NumberText) : t.literal.power = none ↔ t.power = [] := by
  change powerDigits t.power = none ↔ _
  unfold powerDigits
  split <;> simp_all

/-- A literal is a whole number if it has neither fraction nor power, is no negative zero and fits
a word of 64 bits with its sign. -/
theorem isInteger_iff (t : NumberText) {n : Int} :
    t.literal.IsInteger n ↔ t.fraction = [] ∧ t.power = [] ∧ t.bytes ≠ [0x2D, 0x30] ∧
      n = t.value ∧ -2 ^ 63 ≤ n ∧ n < 2 ^ 64 := by
  unfold Decimal.Literal.IsInteger
  rw [t.fraction_eq_nil, t.power_eq_none]
  refine and_congr_right fun noFraction => and_congr_right fun noPower => ?_
  have digits : t.digits = t.whole := by simp [NumberText.digits, noFraction, noPower]
  have zero := natOfDigits_eq_zero t.isWhole
  unfold value bytes
  dsimp only [literal]
  rw [digits, ← natOfDigits_eq]
  generalize Decimal.natOfDigits (t.whole.map digitValue) = m at zero ⊢
  by_cases sign : t.negative = true
  · simp only [sign, ↓reduceIte, ne_eq, List.cons.injEq, true_and, ← zero]
    omega
  · have noSign : t.whole ≠ [0x2D, 0x30] := by
      intro same
      have isWhole := t.isWhole
      rw [same] at isWhole
      cases isWhole with
      | digits digit => exact absurd digit (by decide)
    rw [Bool.not_eq_true] at sign
    simp only [sign, Bool.false_eq_true, ↓reduceIte, ne_eq, noSign, not_false_eq_true, true_and]
    omega

end NumberText

/-! ### What is read -/

theorem spanDigits_eq {bytes rest : Bytes} {values : List Nat}
    (span : spanDigits bytes = (values, rest)) :
    ∃ digits, AreDigits digits ∧ bytes = digits ++ rest ∧ values = digits.map digitValue := by
  obtain ⟨rfl, rfl⟩ := Prod.mk.inj span
  exact ⟨bytes.takeWhile isDigit, fun _ => List.mem_takeWhile_imp,
    List.takeWhile_append_dropWhile.symm, rfl⟩

theorem spanDigits_cons_eq {b : UInt8} {bytes rest : Bytes} {values : List Nat}
    (digit : isDigit b = true) (span : spanDigits (b :: bytes) = (values, rest)) :
    ∃ digits, AreDigits digits ∧ bytes = digits ++ rest ∧
      values = (b :: digits).map digitValue := by
  obtain ⟨rfl, rfl⟩ := Prod.mk.inj span
  rw [List.takeWhile_cons_of_pos digit, List.dropWhile_cons_of_pos digit]
  exact ⟨bytes.takeWhile isDigit, fun _ => List.mem_takeWhile_imp,
    List.takeWhile_append_dropWhile.symm, rfl⟩

theorem isWhole_of_readWhole {atEnd : Problem} {bytes rest : Bytes} {values : List Nat}
    (read : readWhole atEnd bytes = .ok (values, rest)) :
    ∃ whole, IsWhole whole ∧ bytes = whole ++ rest ∧ values = whole.map digitValue := by
  unfold readWhole at read
  split at read
  · cases read
  · rename_i b behind
    split at read
    · rename_i zero
      subst zero
      split at read
      · cases read
      · cases read
        exact ⟨[0x30], .zero, rfl, rfl⟩
    · rename_i nonzero
      split at read
      · rename_i digit
        obtain ⟨digits, areDigits, rfl, rfl⟩ := spanDigits_cons_eq digit (Except.ok.inj read)
        exact ⟨b :: digits, .digits digit nonzero areDigits, rfl, rfl⟩
      · cases read

theorem isFraction_of_readFraction {atEnd : Problem} {bytes rest : Bytes} {values : List Nat}
    (read : readFraction atEnd bytes = .ok (values, rest)) :
    ∃ fraction, IsFraction fraction ∧ bytes = fraction ++ rest ∧
      values = fraction.tail.map digitValue := by
  unfold readFraction at read
  split at read
  · split at read
    · cases read
    · cases read
    · rename_i noEnd noOther span
      cases read
      obtain ⟨digits, areDigits, rfl, rfl⟩ := spanDigits_eq span
      refine ⟨_, .digits ?_ areDigits, rfl, rfl⟩
      rintro rfl
      cases rest with
      | nil => exact noEnd rfl rfl
      | cons b rest => exact noOther b rest rfl rfl
  · cases read
    exact ⟨[], .none, rfl, rfl⟩

theorem digits_of_readPowerDigits {atEnd : Problem} {negative : Bool} {bytes rest : Bytes}
    {value : Option (Bool × List Nat)}
    (read : readPowerDigits atEnd negative bytes = .ok (value, rest)) :
    ∃ digits, digits ≠ [] ∧ AreDigits digits ∧ bytes = digits ++ rest ∧
      value = some (negative, digits.map digitValue) := by
  unfold readPowerDigits at read
  split at read
  · cases read
  · rename_i b behind
    split at read
    · rename_i digit
      cases read
      obtain ⟨digits, areDigits, parts, values⟩ := spanDigits_cons_eq digit rfl
      exact ⟨b :: digits, List.cons_ne_nil _ _, List.forall_mem_cons.2 ⟨digit, areDigits⟩,
        congrArg (b :: ·) parts, congrArg (fun values => some (negative, values)) values⟩
    · cases read

theorem isPower_of_readPower {atEnd : Problem} {bytes rest : Bytes}
    {value : Option (Bool × List Nat)} (read : readPower atEnd bytes = .ok (value, rest)) :
    ∃ power, IsPower power ∧ bytes = power ++ rest ∧ value = powerDigits power := by
  unfold readPower at read
  split at read
  · cases read
    exact ⟨[], .none, rfl, rfl⟩
  · rename_i b behind
    split at read
    · rename_i letter
      simp only [Bool.or_eq_true, decide_eq_true_eq] at letter
      split at read
      · obtain ⟨digits, nonempty, areDigits, rfl, rfl⟩ := digits_of_readPowerDigits read
        exact ⟨_, .digits letter (.inr (.inl rfl)) nonempty areDigits, rfl, rfl⟩
      · obtain ⟨digits, nonempty, areDigits, rfl, rfl⟩ := digits_of_readPowerDigits read
        exact ⟨_, .digits letter (.inr (.inr rfl)) nonempty areDigits, rfl, rfl⟩
      · obtain ⟨digits, nonempty, areDigits, rfl, rfl⟩ := digits_of_readPowerDigits read
        refine ⟨_, .digits letter (.inl rfl) nonempty areDigits, rfl, ?_⟩
        cases digits with
        | nil => contradiction
        | cons d digits =>
          exact (powerDigits_unsigned (areDigits d (List.mem_cons_self ..)) digits).symm
    · cases read
      exact ⟨[], .none, rfl, rfl⟩

theorem exists_of_readLiteral {atEnd : Problem} {negative : Bool} {bytes rest : Bytes}
    {literal : Decimal.Literal} (read : readLiteral atEnd negative bytes = .ok (literal, rest)) :
    ∃ t : NumberText, t.negative = negative ∧ t.literal = literal ∧ bytes = t.digits ++ rest := by
  unfold readLiteral at read
  obtain ⟨⟨values, behind⟩, first, later⟩ := bind_eq_ok.1 read
  obtain ⟨⟨values', behind'⟩, second, last⟩ := bind_eq_ok.1 later
  obtain ⟨⟨power, behind''⟩, third, made⟩ := bind_eq_ok.1 last
  cases made
  obtain ⟨whole, isWhole, rfl, rfl⟩ := isWhole_of_readWhole first
  obtain ⟨fraction, isFraction, rfl, rfl⟩ := isFraction_of_readFraction second
  obtain ⟨power, isPower, rfl, rfl⟩ := isPower_of_readPower third
  refine ⟨⟨negative, whole, fraction, power, isWhole, isFraction, isPower⟩, rfl, rfl, ?_⟩
  simp [NumberText.digits]

end PetClient.Json
