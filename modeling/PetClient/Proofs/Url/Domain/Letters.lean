import PetClient.Proofs.Text.Basic
import PetClient.Proofs.Url.Domain.Tables

/-!
Single characters of a domain name: what they are replaced by, taken apart into and composed to.
Two characters that are composed are what the result is taken apart into.
-/

namespace PetClient.Url.Domain

open Text (CharTable charsOfHex natOfHex)

/-! ### Replacing -/

/-- Whether no table says anything about a character in a name, so that it stands for itself. -/
def Plain (c : Char) : Prop :=
  IsOutside refused ignored replacements c.toNat

theorem Plain.mapChar_eq {c : Char} (plain : Plain c) : mapChar c = some [c] := by
  obtain ⟨allowed, kept, same⟩ := plain
  unfold mapChar
  rw [CharTable.contains_eq_false allowed, CharTable.contains_eq_false kept,
    CharTable.find?_eq_none same]
  rfl

theorem Plain.standsForItself_eq {c : Char} (plain : Plain c) : standsForItself c = true :=
  decide_eq_true plain.mapChar_eq

theorem plain_of_ascii {c : Char} (ascii : c.toNat < 0x80)
    (small : ¬(0x41 ≤ c.toNat ∧ c.toNat ≤ 0x5A)) : Plain c :=
  areClosed_tables.ascii _ ascii small

theorem refused_ordered : refused.Ordered :=
  CharTable.ordered_ofText _

theorem ignored_ordered : ignored.Ordered :=
  CharTable.ordered_ofText _

theorem replacements_ordered : replacements.Ordered :=
  CharTable.ordered_ofText _

theorem plain_of_mapChar {c d : Char} {text : List Char} (maps : mapChar c = some text)
    (mem : d ∈ text) : Plain d := by
  unfold mapChar CharTable.contains at maps
  cases allowed : refused.find? c with
  | some _ =>
    rw [allowed] at maps
    cases maps
  | none =>
    cases kept : ignored.find? c with
    | some _ =>
      rw [allowed, kept] at maps
      cases maps
      cases mem
    | none =>
      cases found : replacements.find? c with
      | none =>
        rw [allowed, kept, found] at maps
        cases maps
        rw [List.mem_singleton] at mem
        exact mem ▸ ⟨refused_ordered.not_covers allowed, ignored_ordered.not_covers kept,
          replacements_ordered.not_covers found⟩
      | some value =>
        obtain ⟨start, stop, range, starts, ends⟩ := CharTable.mem_of_find?_eq_some found
        have plain := areClosed_tables.replaced _ range _ starts ends d
        rw [allowed, kept, found] at maps
        simp only [Option.isSome_none, Bool.false_eq_true, if_false] at maps
        split at maps <;> rename_i same <;> cases same <;> cases maps
        · exact plain mem
        · exact plain mem
        · rename_i up down
          apply plain
          unfold replacementOf
          split
          · rename_i spelled
            exact (up _ spelled).elim
          · rename_i spelled
            exact (down _ spelled).elim
          · exact mem

/-! ### Taking apart -/

theorem decompositions_ordered : decompositions.Ordered :=
  CharTable.ordered_ofText _

theorem partsOf?_eq_some {c : Char} {parts : List Char} (taken : partsOf? c = some parts) :
    ∃ range ∈ decompositions.entries, range.1 = c.toNat ∧ partsOf range.2.2 = parts := by
  unfold partsOf? at taken
  obtain ⟨value, found, same⟩ := Option.map_eq_some_iff.1 taken
  obtain ⟨start, stop, range, starts, ends⟩ := CharTable.mem_of_find?_eq_some found
  have single : start = stop := (areParts_decompositions.single _ range).1
  exact ⟨_, range, by simp only; omega, same⟩

theorem partsOf?_of_mem {range : Nat × Nat × List Char} (mem : range ∈ decompositions.entries) :
    partsOf? (Char.ofNat range.1) = some (partsOf range.2.2) := by
  obtain ⟨single, valid⟩ := areParts_decompositions.single _ mem
  unfold partsOf?
  rw [decompositions_ordered.find?_eq_some mem (Nat.le_of_eq valid.symm)
    (Nat.le_of_eq (valid.trans single))]
  rfl

theorem plain_of_partsOf? {c d : Char} {parts : List Char} (plain : Plain c)
    (taken : partsOf? c = some parts) (mem : d ∈ parts) : Plain d := by
  obtain ⟨range, mem_range, start, rfl⟩ := partsOf?_eq_some taken
  exact areClosed_tables.apart range mem_range (start ▸ plain) d mem

def IsLetter (c : Char) : Prop :=
  isSyllable c.toNat = false ∧ partsOf? c = none

theorem IsLetter.decomposeChar_eq {c : Char} (letter : IsLetter c) (fuel : Nat) :
    decomposeChar partsOf? fuel c = [c] := by
  cases fuel with
  | zero => rfl
  | succ fuel => rw [decomposeChar, letter.1, letter.2, if_neg Bool.false_ne_true]

theorem not_isSyllable_of_low {n : Nat} (low : n < firstSyllable) : isSyllable n = false := by
  unfold isSyllable
  rw [decide_eq_false (Nat.not_le.2 low)]
  rfl

theorem partsOf?_of_ruled {c : Char} {range : Nat × Nat × List Char} (mem : range ∈ ruledRanges)
    (starts : range.1 ≤ c.toNat) (ends : c.toNat ≤ range.2.1) : partsOf? c = none := by
  unfold partsOf?
  rw [CharTable.find?_eq_none (areParts_decompositions.ruled range mem _ starts ends)]
  rfl

theorem isLetter_of_ascii {c : Char} (ascii : c.toNat < 0x80) : IsLetter c := by
  refine ⟨not_isSyllable_of_low (Nat.lt_of_lt_of_le ascii (by decide)), ?_⟩
  unfold partsOf?
  rw [CharTable.find?_eq_none (areParts_decompositions.ascii _ ascii)]
  rfl

theorem toNat_ofNat_of_low {n : Nat} (low : n < 0xD800) : (Char.ofNat n).toNat = n := by
  rw [Char.toNat_ofNat, if_pos (.inl low)]

def IsRuled (c : Char) : Prop :=
  c.toNat < firstSyllable ∧ ∃ range ∈ ruledRanges, range.1 ≤ c.toNat ∧ c.toNat ≤ range.2.1

theorem IsRuled.isLetter {c : Char} (ruled : IsRuled c) : IsLetter c := by
  obtain ⟨low, range, mem, starts, ends⟩ := ruled
  exact ⟨not_isSyllable_of_low low, partsOf?_of_ruled mem starts ends⟩

theorem IsRuled.plain {c : Char} (ruled : IsRuled c) : Plain c := by
  obtain ⟨-, range, mem, starts, ends⟩ := ruled
  exact areClosed_tables.ruled range mem _ starts ends

theorem isRuled_ofNat {n : Nat} {range : Nat × Nat × List Char} (mem : range ∈ ruledRanges)
    (starts : range.1 ≤ n) (ends : n ≤ range.2.1) (low : n < firstSyllable) :
    IsRuled (Char.ofNat n) := by
  have same : (Char.ofNat n).toNat = n :=
    toNat_ofNat_of_low (Nat.lt_of_lt_of_le low (by decide))
  rw [IsRuled, same]
  exact ⟨low, range, mem, starts, ends⟩

theorem isRuled_lead {lead : Nat} (bound : lead < leadCount) :
    IsRuled (Char.ofNat (firstLead + lead)) := by
  apply isRuled_ofNat (show (firstLead, firstLead + leadCount - 1, []) ∈ ruledRanges by decide)
  all_goals simp only [firstLead, leadCount, firstSyllable] at *; omega

theorem isRuled_vowel {vowel : Nat} (bound : vowel < vowelCount) :
    IsRuled (Char.ofNat (firstVowel + vowel)) := by
  apply isRuled_ofNat (show (firstVowel, firstVowel + vowelCount - 1, []) ∈ ruledRanges by decide)
  all_goals simp only [firstVowel, vowelCount, firstSyllable] at *; omega

theorem isRuled_tail {tail : Nat} (positive : tail ≠ 0) (bound : tail < tailCount) :
    IsRuled (Char.ofNat (firstTail + tail)) := by
  apply isRuled_ofNat (show (firstTail + 1, firstTail + tailCount - 1, []) ∈ ruledRanges by decide)
  all_goals simp only [firstTail, tailCount, firstSyllable] at *; omega

def syllableOf (lead vowel tail : Nat) : Nat :=
  firstSyllable + (lead * vowelCount + vowel) * tailCount + tail

theorem exists_syllableOf {n : Nat} (syllable : isSyllable n = true) :
    ∃ lead < leadCount, ∃ vowel < vowelCount, ∃ tail < tailCount, n = syllableOf lead vowel tail := by
  unfold isSyllable at syllable
  rw [Bool.and_eq_true, decide_eq_true_iff, decide_eq_true_iff] at syllable
  obtain ⟨index, rfl⟩ := Nat.exists_eq_add_of_le syllable.1
  refine ⟨index / tailCount / vowelCount, ?_, index / tailCount % vowelCount,
    Nat.mod_lt _ (by decide), index % tailCount, Nat.mod_lt _ (by decide), ?_⟩
  all_goals
    simp only [syllableOf, leadCount, vowelCount, tailCount] at *
    omega

theorem syllableLetters_syllableOf {lead vowel tail : Nat} (vowel_bound : vowel < vowelCount)
    (tail_bound : tail < tailCount) :
    syllableLetters (syllableOf lead vowel tail) =
      [Char.ofNat (firstLead + lead), Char.ofNat (firstVowel + vowel)] ++
        if tail = 0 then [] else [Char.ofNat (firstTail + tail)] := by
  have index : syllableOf lead vowel tail - firstSyllable =
      (lead * vowelCount + vowel) * tailCount + tail := by
    unfold syllableOf
    omega
  have tail_eq : ((lead * vowelCount + vowel) * tailCount + tail) % tailCount = tail := by
    simp only [tailCount] at *
    omega
  have vowel_eq :
      ((lead * vowelCount + vowel) * tailCount + tail) / tailCount % vowelCount = vowel := by
    simp only [vowelCount, tailCount] at *
    omega
  have lead_eq :
      ((lead * vowelCount + vowel) * tailCount + tail) / (vowelCount * tailCount) = lead := by
    simp only [vowelCount, tailCount] at *
    omega
  unfold syllableLetters
  simp only [index, tail_eq, vowel_eq, lead_eq]

theorem isSyllable_syllableOf {lead vowel tail : Nat} (lead_bound : lead < leadCount)
    (vowel_bound : vowel < vowelCount) (tail_bound : tail < tailCount) :
    isSyllable (syllableOf lead vowel tail) = true ∧
      (Char.ofNat (syllableOf lead vowel tail)).toNat = syllableOf lead vowel tail := by
  have bounds : firstSyllable ≤ syllableOf lead vowel tail ∧
      syllableOf lead vowel tail < firstSyllable + leadCount * vowelCount * tailCount := by
    simp only [syllableOf, firstSyllable, leadCount, vowelCount, tailCount] at *
    omega
  constructor
  · unfold isSyllable
    rw [decide_eq_true bounds.1, decide_eq_true bounds.2]
    rfl
  · exact toNat_ofNat_of_low (Nat.lt_of_lt_of_le bounds.2 (by decide))

theorem isRuled_of_mem_syllableLetters {n : Nat} (syllable : isSyllable n = true) {c : Char}
    (mem : c ∈ syllableLetters n) : IsRuled c := by
  obtain ⟨lead, lead_bound, vowel, vowel_bound, tail, tail_bound, rfl⟩ := exists_syllableOf syllable
  rw [syllableLetters_syllableOf vowel_bound tail_bound, List.mem_append] at mem
  rcases mem with front | last
  · rcases List.mem_pair.1 front with rfl | rfl
    · exact isRuled_lead lead_bound
    · exact isRuled_vowel vowel_bound
  · split at last
    · cases last
    · rename_i positive
      rw [List.mem_singleton.1 last]
      exact isRuled_tail positive tail_bound

/-- A character is a syllable, a letter, or listed with its parts. -/
theorem decomposeChar_cases (c : Char) :
    (isSyllable c.toNat = true ∧ ∀ fuel,
        decomposeChar partsOf? (fuel + 1) c = syllableLetters c.toNat) ∨
      IsLetter c ∨
      ∃ range ∈ decompositions.entries, range.1 = c.toNat ∧ partsOf? c = some (partsOf range.2.2) ∧
        ∀ fuel, decomposeChar partsOf? (fuel + 1) c =
          (partsOf range.2.2).flatMap (decomposeChar partsOf? fuel) := by
  by_cases syllable : isSyllable c.toNat = true
  · exact .inl ⟨syllable, fun fuel => by rw [decomposeChar, if_pos syllable]⟩
  · cases taken : partsOf? c with
    | none => exact .inr (.inl ⟨Bool.not_eq_true _ ▸ syllable, taken⟩)
    | some parts =>
      obtain ⟨range, mem, start, rfl⟩ := partsOf?_eq_some taken
      exact .inr (.inr ⟨range, mem, start, rfl,
        fun fuel => by rw [decomposeChar, if_neg syllable, taken]⟩)

theorem isLetter_of_parts {c : Char} {fuel : Nat}
    (parts : ∀ range ∈ decompositions.entries, range.1 = c.toNat → ∀ part ∈ partsOf range.2.2,
      ∀ d ∈ decomposeChar partsOf? fuel part, IsLetter d)
    {d : Char} (mem : d ∈ decomposeChar partsOf? (fuel + 1) c) : IsLetter d := by
  rcases decomposeChar_cases c with ⟨syllable, taken⟩ | letter | ⟨range, listed, start, -, taken⟩
  · rw [taken] at mem
    exact (isRuled_of_mem_syllableLetters syllable mem).isLetter
  · rw [letter.decomposeChar_eq, List.mem_singleton] at mem
    exact mem ▸ letter
  · rw [taken, List.mem_flatMap] at mem
    obtain ⟨part, mem_part, mem⟩ := mem
    exact parts range listed start part mem_part d mem

/-- What is taken apart more often than it has parts with parts is taken apart into letters. -/
theorem isLetter_of_shallow {depth : Nat} {c : Char}
    (shallow : (deeper decompositions.entries.toList depth).testBit c.toNat = false) {fuel : Nat}
    (enough : depth < fuel) {d : Char} (mem : d ∈ decomposeChar partsOf? fuel c) : IsLetter d := by
  obtain ⟨fuel, rfl⟩ := Nat.exists_eq_succ_of_ne_zero (Nat.ne_of_gt (Nat.zero_lt_of_lt enough))
  induction depth generalizing c d fuel with
  | zero =>
    refine isLetter_of_parts (fun range listed start => ?_) mem
    have single := (areParts_decompositions.single _ listed).1
    have covered : decompositions.Covers c.toNat := ⟨range, listed, by omega, by omega⟩
    rw [deeper, CharTable.testBit_entries.2 covered] at shallow
    cases shallow
  | succ depth ih =>
    obtain ⟨fuel, rfl⟩ := Nat.exists_eq_succ_of_ne_zero
      (Nat.ne_of_gt (Nat.zero_lt_of_lt (Nat.lt_of_succ_lt_succ enough)))
    refine isLetter_of_parts (fun range listed start part mem_part e mem_e => ?_) mem
    refine ih ?_ fuel (Nat.lt_of_succ_lt_succ enough) mem_e
    by_contra deep
    rw [Bool.not_eq_false] at deep
    have single := (areParts_decompositions.single _ listed).1
    have covered : (deeper decompositions.entries.toList (depth + 1)).testBit c.toNat = true := by
      rw [deeper, CharTable.testBit_bits]
      refine ⟨range, List.mem_filter.2 ⟨Array.mem_toList_iff.2 listed, ?_⟩, by omega, by omega⟩
      exact List.any_eq_true.2 ⟨part, mem_part, deep⟩
    rw [covered] at shallow
    cases shallow

theorem decomposeChar_succ {fuel : Nat} {c : Char}
    (letters : ∀ d ∈ decomposeChar partsOf? fuel c, IsLetter d) :
    decomposeChar partsOf? (fuel + 1) c = decomposeChar partsOf? fuel c := by
  induction fuel generalizing c with
  | zero => exact (letters c (List.mem_singleton_self c)).decomposeChar_eq 1
  | succ fuel ih =>
    rcases decomposeChar_cases c with ⟨-, taken⟩ | letter | ⟨range, -, -, -, taken⟩
    · rw [taken, taken]
    · rw [letter.decomposeChar_eq, letter.decomposeChar_eq]
    · rw [taken] at letters
      rw [taken, taken]
      refine List.flatMap_congr fun part mem => ih fun d mem_d => ?_
      exact letters d (List.mem_flatMap.2 ⟨part, mem, mem_d⟩)

def lettersOf (c : Char) : List Char :=
  decomposeChar partsOf? 8 c

theorem isLetter_of_mem_decomposeChar {c d : Char} {fuel : Nat} (enough : 4 < fuel)
    (mem : d ∈ decomposeChar partsOf? fuel c) : IsLetter d := by
  refine isLetter_of_shallow ?_ enough mem
  rw [areParts_decompositions.shallow, Nat.zero_testBit]

theorem isLetter_of_mem_lettersOf {c d : Char} (mem : d ∈ lettersOf c) : IsLetter d :=
  isLetter_of_mem_decomposeChar (by decide) mem

theorem lettersOf_of_partsOf? {c : Char} {parts : List Char} (syllable : isSyllable c.toNat = false)
    (taken : partsOf? c = some parts) : lettersOf c = parts.flatMap lettersOf := by
  unfold lettersOf
  rw [decomposeChar, if_neg (by simp [syllable]), taken]
  exact List.flatMap_congr fun part _ => (decomposeChar_succ fun d mem =>
    isLetter_of_mem_decomposeChar (by decide) mem).symm

theorem plain_of_mem_decomposeChar {c d : Char} (plain : Plain c) {fuel : Nat}
    (mem : d ∈ decomposeChar partsOf? fuel c) : Plain d := by
  induction fuel generalizing c with
  | zero => exact List.mem_singleton.1 mem ▸ plain
  | succ fuel ih =>
    rcases decomposeChar_cases c with ⟨syllable, taken⟩ | letter | ⟨range, -, -, listed, taken⟩
    · rw [taken] at mem
      exact (isRuled_of_mem_syllableLetters syllable mem).plain
    · rw [letter.decomposeChar_eq, List.mem_singleton] at mem
      exact mem ▸ plain
    · rw [taken, List.mem_flatMap] at mem
      obtain ⟨part, mem_part, mem⟩ := mem
      exact ih (plain_of_partsOf? plain listed mem_part) mem

def IsSign (c : Char) : Prop :=
  0x20 < c.toNat ∧ c ≠ '.'

theorem isSign_of_late {c : Char} (late : 0x80 ≤ c.toNat) : IsSign c := by
  refine ⟨by omega, ?_⟩
  rintro rfl
  exact absurd late (by decide)

theorem IsRuled.late {c : Char} (ruled : IsRuled c) : 0x80 ≤ c.toNat := by
  obtain ⟨-, range, mem, starts, -⟩ := ruled
  have all : ∀ range ∈ ruledRanges, 0x80 ≤ range.1 := by decide
  exact Nat.le_trans (all range mem) starts

theorem isSign_of_mem_decomposeChar {c d : Char} {fuel : Nat}
    (mem : d ∈ decomposeChar partsOf? fuel c) : d = c ∨ IsSign d := by
  induction fuel generalizing c with
  | zero => exact .inl (List.mem_singleton.1 mem)
  | succ fuel ih =>
    rcases decomposeChar_cases c with ⟨syllable, taken⟩ | letter | ⟨range, listed, -, -, taken⟩
    · rw [taken] at mem
      exact .inr (isSign_of_late (isRuled_of_mem_syllableLetters syllable mem).late)
    · rw [letter.decomposeChar_eq, List.mem_singleton] at mem
      exact .inl mem
    · rw [taken, List.mem_flatMap] at mem
      obtain ⟨part, mem_part, mem⟩ := mem
      have sign : IsSign part := areParts_decompositions.signs _ listed _ mem_part
      rcases ih mem with rfl | other
      · exact .inr sign
      · exact .inr other

/-! ### Composing -/

theorem composeSyllable?_cases {a b c : Char}
    (composed : composeSyllable? a.toNat b.toNat = some c) :
    ∃ lead < leadCount, ∃ vowel < vowelCount, ∃ tail < tailCount,
      c = Char.ofNat (syllableOf lead vowel tail) ∧
        (tail = 0 ∧ a = Char.ofNat (firstLead + lead) ∧ b = Char.ofNat (firstVowel + vowel) ∨
          tail ≠ 0 ∧ a = Char.ofNat (syllableOf lead vowel 0) ∧
            b = Char.ofNat (firstTail + tail)) := by
  unfold composeSyllable? at composed
  split at composed
  · rename_i bounds
    simp only [Bool.and_eq_true, decide_eq_true_iff] at bounds
    obtain ⟨lead, a_eq⟩ := Nat.exists_eq_add_of_le bounds.1.1.1
    obtain ⟨vowel, b_eq⟩ := Nat.exists_eq_add_of_le bounds.1.2
    have lead_bound : lead < leadCount := by omega
    have vowel_bound : vowel < vowelCount := by omega
    obtain rfl := Option.some.inj composed
    refine ⟨lead, lead_bound, vowel, vowel_bound, 0, by decide, ?_, .inl ⟨rfl, ?_, ?_⟩⟩
    · rw [a_eq, b_eq, Nat.add_sub_cancel_left, Nat.add_sub_cancel_left]
      rfl
    · rw [← a_eq, Char.ofNat_toNat]
    · rw [← b_eq, Char.ofNat_toNat]
  · split at composed
    · rename_i bounds
      simp only [Bool.and_eq_true, decide_eq_true_iff] at bounds
      obtain ⟨⟨⟨syllable, bare⟩, after⟩, before⟩ := bounds
      obtain ⟨lead, lead_bound, vowel, vowel_bound, tail, tail_bound, a_eq⟩ :=
        exists_syllableOf syllable
      obtain ⟨other, b_eq⟩ := Nat.exists_eq_add_of_lt after
      have zero : tail = 0 := by
        rw [a_eq] at bare
        simp only [syllableOf, tailCount] at *
        omega
      subst zero
      obtain rfl := Option.some.inj composed
      refine ⟨lead, lead_bound, vowel, vowel_bound, other + 1, by omega, ?_,
        .inr ⟨by omega, ?_, ?_⟩⟩
      · apply congrArg Char.ofNat
        rw [a_eq, b_eq]
        unfold syllableOf
        omega
      · rw [← a_eq, Char.ofNat_toNat]
      · rw [← Nat.add_assoc, ← b_eq, Char.ofNat_toNat]
    · cases composed

theorem mem_compositions {a b c : Char} (mem : (a, b, c) ∈ compositions) :
    ∃ range ∈ decompositions.entries, isComposed range.2.2 = true ∧
      partsOf range.2.2 = [a, b] ∧ c = Char.ofNat range.1 := by
  obtain ⟨⟨start, stop, value⟩, listed, kept⟩ := Array.mem_filterMap.1 mem
  refine ⟨_, listed, ?_⟩
  simp only at kept
  split at kept
  · rename_i first second chars
    by_cases single : value.head? = some '!'
    · rw [if_pos single] at kept
      cases kept
    · rw [if_neg single] at kept
      cases kept
      have parts : partsOf value = [a, b] := by
        unfold partsOf
        rw [if_neg single, chars]
      refine ⟨?_, parts, rfl⟩
      unfold isComposed
      rw [parts]
      simpa using single
  · cases kept

/-- What two characters compose to. -/
theorem compose?_cases {a b c : Char} (composed : compose? a b = some c) :
    composeSyllable? a.toNat b.toNat = some c ∨ (a, b, c) ∈ compositions := by
  unfold compose? at composed
  cases syllable : composeSyllable? a.toNat b.toNat with
  | some d =>
    rw [syllable] at composed
    exact .inl composed
  | none =>
    rw [syllable] at composed
    obtain ⟨⟨x, y, z⟩, found, rfl⟩ := Option.map_eq_some_iff.1 composed
    have same := Array.find?_some found
    simp only [Bool.and_eq_true, decide_eq_true_iff] at same
    obtain ⟨rfl, rfl⟩ := same
    exact .inr (Array.mem_of_find?_eq_some found)

theorem mem_ruledRanges_syllables :
    (firstSyllable, firstSyllable + leadCount * vowelCount * tailCount - 1, []) ∈ ruledRanges := by
  decide

theorem bounds_of_isSyllable {n : Nat} (syllable : isSyllable n = true) :
    firstSyllable ≤ n ∧ n ≤ firstSyllable + leadCount * vowelCount * tailCount - 1 := by
  unfold isSyllable at syllable
  rw [Bool.and_eq_true, decide_eq_true_iff, decide_eq_true_iff] at syllable
  omega

theorem not_isSyllable_of_mem {range : Nat × Nat × List Char}
    (mem : range ∈ decompositions.entries) : isSyllable range.1 = false := by
  by_contra syllable
  rw [Bool.not_eq_false] at syllable
  obtain ⟨starts, ends⟩ := bounds_of_isSyllable syllable
  have single := (areParts_decompositions.single _ mem).1
  exact areParts_decompositions.ruled _ mem_ruledRanges_syllables range.1 starts ends
    ⟨range, mem, Nat.le_refl _, Nat.le_of_eq single⟩

theorem lettersOf_syllableOf {lead vowel tail : Nat} (lead_bound : lead < leadCount)
    (vowel_bound : vowel < vowelCount) (tail_bound : tail < tailCount) :
    lettersOf (Char.ofNat (syllableOf lead vowel tail)) =
      [Char.ofNat (firstLead + lead), Char.ofNat (firstVowel + vowel)] ++
        if tail = 0 then [] else [Char.ofNat (firstTail + tail)] := by
  obtain ⟨syllable, same⟩ := isSyllable_syllableOf lead_bound vowel_bound tail_bound
  unfold lettersOf
  rw [decomposeChar, same, if_pos syllable, syllableLetters_syllableOf vowel_bound tail_bound]

/-- The letters of what two characters compose to are their letters. -/
theorem lettersOf_of_compose? {a b c : Char} (letter : IsLetter b)
    (composed : compose? a b = some c) : lettersOf c = lettersOf a ++ [b] := by
  rcases compose?_cases composed with syllable | listed
  · obtain ⟨lead, lead_bound, vowel, vowel_bound, tail, tail_bound, rfl, parts⟩ :=
      composeSyllable?_cases syllable
    rw [lettersOf_syllableOf lead_bound vowel_bound tail_bound]
    rcases parts with ⟨rfl, rfl, rfl⟩ | ⟨positive, rfl, rfl⟩
    · unfold lettersOf
      rw [(isRuled_lead lead_bound).isLetter.decomposeChar_eq, if_pos rfl]
      rfl
    · rw [lettersOf_syllableOf lead_bound vowel_bound (by decide), if_pos rfl, if_neg positive,
        List.append_nil]
  · obtain ⟨range, mem, -, parts, rfl⟩ := mem_compositions listed
    have valid := (areParts_decompositions.single _ mem).2
    have taken := partsOf?_of_mem mem
    rw [parts] at taken
    rw [lettersOf_of_partsOf? (by rw [valid, not_isSyllable_of_mem mem]) taken]
    simp only [List.flatMap_cons, List.flatMap_nil, List.append_nil]
    rw [show lettersOf b = [b] from letter.decomposeChar_eq 8]

theorem plain_of_compose? {a b c : Char} (plain_a : Plain a) (plain_b : Plain b)
    (composed : compose? a b = some c) : Plain c := by
  rcases compose?_cases composed with syllable | listed
  · obtain ⟨lead, lead_bound, vowel, vowel_bound, tail, tail_bound, rfl, -⟩ :=
      composeSyllable?_cases syllable
    obtain ⟨syllable, same⟩ := isSyllable_syllableOf lead_bound vowel_bound tail_bound
    obtain ⟨starts, ends⟩ := bounds_of_isSyllable syllable
    unfold Plain
    rw [same]
    exact areClosed_tables.ruled _ mem_ruledRanges_syllables _ starts ends
  · obtain ⟨range, mem, joins, parts, rfl⟩ := mem_compositions listed
    unfold Plain
    rw [(areParts_decompositions.single _ mem).2]
    refine areClosed_tables.composed range mem joins ?_
    rw [parts]
    exact List.forall_mem_cons.2 ⟨plain_a, List.forall_mem_singleton.2 plain_b⟩

/-- What is composed are signs, and the second is not in ASCII, nor is the result. -/
theorem late_of_compose? {a b c : Char} (composed : compose? a b = some c) :
    IsSign a ∧ 0x80 ≤ b.toNat ∧ 0x80 ≤ c.toNat := by
  rcases compose?_cases composed with syllable | listed
  · obtain ⟨lead, lead_bound, vowel, vowel_bound, tail, tail_bound, rfl, parts⟩ :=
      composeSyllable?_cases syllable
    have late {other : Nat} (bound : other < tailCount) :
        0x80 ≤ (Char.ofNat (syllableOf lead vowel other)).toNat := by
      obtain ⟨syllable, same⟩ := isSyllable_syllableOf lead_bound vowel_bound bound
      rw [same]
      exact Nat.le_trans (by decide) (bounds_of_isSyllable syllable).1
    rcases parts with ⟨rfl, rfl, rfl⟩ | ⟨positive, rfl, rfl⟩
    · exact ⟨isSign_of_late (isRuled_lead lead_bound).late, (isRuled_vowel vowel_bound).late,
        late tail_bound⟩
    · exact ⟨isSign_of_late (late (by decide)), (isRuled_tail positive tail_bound).late,
        late tail_bound⟩
  · obtain ⟨range, mem, joins, parts, rfl⟩ := mem_compositions listed
    obtain ⟨single, valid⟩ := areParts_decompositions.single _ mem
    refine ⟨?_, areParts_decompositions.behind _ mem joins a b parts, ?_⟩
    · exact areParts_decompositions.signs _ mem a (by rw [parts]; exact List.mem_cons_self ..)
    · by_contra ascii
      rw [valid] at ascii
      exact areParts_decompositions.ascii _ (Nat.lt_of_not_le ascii)
        ⟨range, mem, Nat.le_refl _, Nat.le_of_eq single⟩

end PetClient.Url.Domain
