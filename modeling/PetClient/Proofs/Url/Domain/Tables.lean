import PetClient.Proofs.Text.CharTable
import PetClient.Url.Parser

/-!
How the tables of characters fit together.  Characters are replaced by ones that stand for
themselves, and what stands for itself is taken apart into such characters and composed to them.
-/

namespace PetClient.Url.Domain

open Text (CharTable charsOfHex natOfHex)
open Text.CharTable (below bits)

/-! ### What is looked up -/

def replacementOf (n : Nat) (value : List Char) : List Char :=
  match value with
  | '+' :: up => [Char.ofNat (n + natOfHex up)]
  | '~' :: down => [Char.ofNat (n - natOfHex down)]
  | sequence => charsOfHex sequence

def partsOf (value : List Char) : List Char :=
  charsOfHex (if value.head? = some '!' then value.tail else value)

def isComposed (value : List Char) : Bool :=
  value.head? ≠ some '!' && (partsOf value).length = 2

/-! ### Checks -/

/-- The letters and syllables of the Korean script, which are taken apart and composed by rule. -/
def ruledRanges : List (Nat × Nat × List Char) :=
  [(firstLead, firstLead + leadCount - 1, []), (firstVowel, firstVowel + vowelCount - 1, []),
    (firstTail + 1, firstTail + tailCount - 1, []),
    (firstSyllable, firstSyllable + leadCount * vowelCount * tailCount - 1, [])]

def limit : Nat := 0x30000

/-- Whether the characters outside of three tables, which are those of ASCII but for capital letters
and those that have a rule among others, are closed under the replacements of the last table, and
under taking apart and composing. -/
def areClosed (refused ignored replacements decompositions : List (Nat × Nat × List Char)) : Bool :=
  let tabled := bits (below limit refused) ||| bits (below limit ignored) |||
    bits (below limit replacements)
  tabled &&& bits ((0, 0x40, []) :: (0x5B, 0x7F, []) :: ruledRanges) = 0 &&
    replacements.all (fun range =>
      (List.range' range.1 (range.2.1 + 1 - range.1)).all fun n =>
        (replacementOf n range.2.2).all fun c => c.toNat < limit && !tabled.testBit c.toNat) &&
    decompositions.all fun range =>
      let plain := (partsOf range.2.2).all fun c => !tabled.testBit c.toNat
      range.1 < limit && ((partsOf range.2.2).all fun c => c.toNat < limit) &&
        (tabled.testBit range.1 || plain) &&
        (!tabled.testBit range.1 || !plain || !isComposed range.2.2)

/-- The characters of ranges that have parts with parts, so many times. -/
def deeper (ranges : List (Nat × Nat × List Char)) : Nat → Nat
  | 0 => bits ranges
  | depth + 1 => bits <| ranges.filter fun range =>
    (partsOf range.2.2).any fun c => (deeper ranges depth).testBit c.toNat

/-- Whether ranges list the parts of single characters outside of ASCII that have no rule, so that
no part is a blank or a point, nothing in ASCII is composed with what stands in front of it, and no
character is taken apart more than four times. -/
def areParts (ranges : List (Nat × Nat × List Char)) : Bool :=
  bits ranges &&& bits ((0, 0x7F, []) :: ruledRanges) = 0 && deeper ranges 4 = 0 &&
    ranges.all fun range =>
      range.1 = range.2.1 && (Char.ofNat range.1).toNat = range.1 &&
        ((partsOf range.2.2).all fun c => 0x20 < c.toNat && c ≠ '.') &&
        (!isComposed range.2.2 || ((partsOf range.2.2).drop 1).all fun c => 0x80 ≤ c.toNat)

section Tables

variable {refused ignored replacements decompositions : CharTable}

def IsOutside (refused ignored replacements : CharTable) (n : Nat) : Prop :=
  ¬refused.Covers n ∧ ¬ignored.Covers n ∧ ¬replacements.Covers n

theorem isOutside_iff {n : Nat} (small : n < limit) :
    IsOutside refused ignored replacements n ↔
      (bits (below limit refused.entries.toList) ||| bits (below limit ignored.entries.toList) |||
        bits (below limit replacements.entries.toList)).testBit n = false := by
  simp only [IsOutside, ← CharTable.testBit_below small, Nat.testBit_or, Bool.or_eq_false_iff,
    Bool.not_eq_true, and_assoc]

structure AreClosed (refused ignored replacements decompositions : CharTable) : Prop where
  ascii : ∀ n < 0x80, ¬(0x41 ≤ n ∧ n ≤ 0x5A) → IsOutside refused ignored replacements n
  ruled : ∀ range ∈ ruledRanges, ∀ n, range.1 ≤ n → n ≤ range.2.1 →
    IsOutside refused ignored replacements n
  replaced : ∀ range ∈ replacements.entries, ∀ n, range.1 ≤ n → n ≤ range.2.1 →
    ∀ c ∈ replacementOf n range.2.2, IsOutside refused ignored replacements c.toNat
  apart : ∀ range ∈ decompositions.entries, IsOutside refused ignored replacements range.1 →
    ∀ c ∈ partsOf range.2.2, IsOutside refused ignored replacements c.toNat
  composed : ∀ range ∈ decompositions.entries, isComposed range.2.2 = true →
    (∀ c ∈ partsOf range.2.2, IsOutside refused ignored replacements c.toNat) →
      IsOutside refused ignored replacements range.1

theorem AreClosed.of_check
    (check : areClosed refused.entries.toList ignored.entries.toList replacements.entries.toList
      decompositions.entries.toList = true) :
    AreClosed refused ignored replacements decompositions := by
  unfold areClosed at check
  generalize known : bits _ ||| bits _ ||| bits _ = tabled at check
  have outside_iff {n : Nat} (small : n < limit) :
      IsOutside refused ignored replacements n ↔ tabled.testBit n = false := by
    rw [isOutside_iff small, known]
  simp only [Bool.and_eq_true, decide_eq_true_iff, List.all_eq_true, Array.mem_toList_iff,
    Bool.not_eq_true'] at check
  obtain ⟨⟨apart, replaced⟩, parts⟩ := check
  constructor
  · intro n ascii small
    rw [outside_iff (Nat.lt_trans ascii (by decide))]
    rcases Nat.lt_or_ge n 0x41 with low | high
    · exact CharTable.testBit_eq_false_of_apart apart (List.mem_cons_self ..) (Nat.zero_le n)
        (Nat.le_of_lt_succ low)
    · refine CharTable.testBit_eq_false_of_apart apart
        (List.mem_cons_of_mem _ (List.mem_cons_self ..)) ?_ (Nat.le_of_lt_succ ascii)
      change 0x5B ≤ n
      omega
  · intro range mem n starts ends
    have ruled : ∀ range ∈ ruledRanges, range.2.1 < limit := by decide
    rw [outside_iff (Nat.lt_of_le_of_lt ends (ruled range mem))]
    exact CharTable.testBit_eq_false_of_apart apart
      (List.mem_cons_of_mem _ (List.mem_cons_of_mem _ mem)) starts ends
  · intro range mem n starts ends c mem_c
    have listed : n ∈ List.range' range.1 (range.2.1 + 1 - range.1) := by
      rw [List.mem_range'_1]
      omega
    obtain ⟨small, plain⟩ := replaced range mem n listed c mem_c
    exact (outside_iff small).2 plain
  · intro range mem outside c mem_c
    obtain ⟨⟨⟨small, small_parts⟩, both⟩, -⟩ := parts range mem
    rw [(outside_iff small).1 outside, Bool.false_or, List.all_eq_true] at both
    exact (outside_iff (small_parts c mem_c)).2 (by simpa using both c mem_c)
  · intro range mem composed outside
    obtain ⟨⟨⟨small, small_parts⟩, -⟩, both⟩ := parts range mem
    have plain : ((partsOf range.2.2).all fun c => !tabled.testBit c.toNat) = true := by
      rw [List.all_eq_true]
      intro c mem_c
      rw [(outside_iff (small_parts c mem_c)).1 (outside c mem_c)]
      rfl
    rw [plain, composed] at both
    exact (outside_iff small).2 (by simpa using both)

structure AreParts (decompositions : CharTable) : Prop where
  ascii : ∀ n < 0x80, ¬decompositions.Covers n
  ruled : ∀ range ∈ ruledRanges, ∀ n, range.1 ≤ n → n ≤ range.2.1 → ¬decompositions.Covers n
  shallow : deeper decompositions.entries.toList 4 = 0
  single : ∀ range ∈ decompositions.entries,
    range.1 = range.2.1 ∧ (Char.ofNat range.1).toNat = range.1
  signs : ∀ range ∈ decompositions.entries, ∀ c ∈ partsOf range.2.2, 0x20 < c.toNat ∧ c ≠ '.'
  behind : ∀ range ∈ decompositions.entries, isComposed range.2.2 = true →
    ∀ a b, partsOf range.2.2 = [a, b] → 0x80 ≤ b.toNat

theorem AreParts.of_check (check : areParts decompositions.entries.toList = true) :
    AreParts decompositions := by
  unfold areParts at check
  rw [Bool.and_eq_true, Bool.and_eq_true, decide_eq_true_iff, decide_eq_true_iff,
    List.all_eq_true] at check
  obtain ⟨⟨apart, shallow⟩, parts⟩ := check
  simp only [Bool.and_eq_true, decide_eq_true_iff] at parts
  have none {range : Nat × Nat × List Char} (mem : range ∈ (0, 0x7F, []) :: ruledRanges) (n : Nat)
      (starts : range.1 ≤ n) (ends : n ≤ range.2.1) : ¬decompositions.Covers n := by
    rw [← CharTable.testBit_entries, CharTable.testBit_eq_false_of_apart apart mem starts ends]
    exact Bool.false_ne_true
  constructor
  · exact fun n low => none (List.mem_cons_self ..) n (Nat.zero_le n) (Nat.le_of_lt_succ low)
  · exact fun range mem => none (List.mem_cons_of_mem _ mem)
  · exact shallow
  · exact fun range mem => (parts range (Array.mem_toList_iff.2 mem)).1.1
  · intro range mem c mem_c
    simpa using List.all_eq_true.1 (parts range (Array.mem_toList_iff.2 mem)).1.2 c mem_c
  · intro range mem composed a b listed
    have last := (parts range (Array.mem_toList_iff.2 mem)).2
    rw [composed, listed] at last
    simpa using last

end Tables

section Check

set_option maxRecDepth 100000

theorem tables_fit :
    areClosed refused.entries.toList ignored.entries.toList replacements.entries.toList
      decompositions.entries.toList = true ∧ areParts decompositions.entries.toList = true := by
  unfold refused ignored replacements decompositions
  rw [CharTable.toList_ofText, show (String.toList _) = _ from String.toList_ofList,
    CharTable.toList_ofText, show (String.toList _) = _ from String.toList_ofList,
    CharTable.toList_ofText, show (String.toList _) = _ from String.toList_ofList,
    CharTable.toList_ofText, show (String.toList _) = _ from String.toList_ofList]
  -- Two evaluations one after the other take less memory than a single one.
  constructor
  · decide +kernel
  · decide +kernel

end Check

theorem areClosed_tables : AreClosed refused ignored replacements decompositions :=
  .of_check tables_fit.1

theorem areParts_decompositions : AreParts decompositions :=
  .of_check tables_fit.2

end PetClient.Url.Domain
