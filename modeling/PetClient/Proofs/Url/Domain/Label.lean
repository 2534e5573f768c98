import PetClient.Proofs.Url.Domain.Normal
import PetClient.Proofs.Url.Domain.Punycode

/-!
Domain names in ASCII hold no sign that ends a host or spoils it, and no name with a blank or a
control has such a form.
-/

namespace PetClient.Url.Domain

open Text (splitAt)

theorem isForbidden_eq (c : Char) :
    isForbidden c = (decide (c.toNat ≤ 0x20) || decide (c.toNat = 0x7F) ||
      decide (c ∈ ['%', '#', '/', ':', '<', '>', '?', '@', '[', '\\', ']', '^', '|'])) := by
  unfold isForbidden
  rw [String.contains_char_eq, String.toList_ofList]

theorem isForbidden_of_isOuterBlank {c : Char} (low : isOuterBlank c = true) :
    isForbidden c = true := by
  unfold isOuterBlank at low
  unfold isForbidden
  rw [low]
  rfl

theorem toNat_lt_of_isDigit {c : Char} (digit : Punycode.isDigit c = true) : c.toNat < 0x80 := by
  unfold Punycode.isDigit Punycode.digitValue? at digit
  simp only [Char.le_def, UInt32.le_iff_toNat_le, Bool.and_eq_true, decide_eq_true_iff] at digit
  change c.val.toNat < 0x80
  split at digit
  · rename_i range
    exact Nat.lt_of_le_of_lt range.2 (by decide)
  · split at digit
    · rename_i range
      exact Nat.lt_of_le_of_lt range.2 (by decide)
    · split at digit
      · rename_i range
        exact Nat.lt_of_le_of_lt range.2 (by decide)
      · cases digit

theorem not_isForbidden_of_isDigit {c : Char} (digit : Punycode.isDigit c = true) :
    isForbidden c = false := by
  refine Text.forall_ascii (q := fun c => Punycode.isDigit c = true → isForbidden c = false) ?_
    (toNat_lt_of_isDigit digit) digit
  simp only [isForbidden_eq]
  decide +kernel

theorem not_isForbidden_hyphen : isForbidden '-' = false := by
  rw [isForbidden_eq]
  decide

theorem not_isForbidden_point : isForbidden '.' = false := by
  rw [isForbidden_eq]
  decide

theorem not_isForbidden_of_isValid {label : List Char} {c : Char} (valid : isValid label = true)
    (mem : c ∈ label) : isForbidden c = false := by
  unfold isValid at valid
  rw [Bool.and_eq_true, Bool.and_eq_true, Bool.not_eq_true'] at valid
  exact Bool.eq_false_iff.2 (List.any_eq_false.1 valid.1.1 c mem)

theorem not_isForbidden_of_cases {label : List Char} {c : Char} (valid : isValid label = true)
    (cases : c ∈ label ∨ c = '-' ∨ Punycode.isDigit c = true) : isForbidden c = false := by
  rcases cases with mem | rfl | digit
  · exact not_isForbidden_of_isValid valid mem
  · exact not_isForbidden_hyphen
  · exact not_isForbidden_of_isDigit digit

theorem not_isForbidden_of_mem_marker {c : Char} (mem : c ∈ marker) : isForbidden c = false := by
  have all : ∀ d ∈ marker, isForbidden d = false := Text.forall_of_all <| by
    simp only [isForbidden_eq]
    decide
  exact all c mem

/-- A label is made of characters that may stand in a host, and so is its written form. -/
theorem Label.not_isForbidden {text : List Char} {label : Label}
    (made : Label.ofText? text = some label) {c : Char} (mem : c ∈ text ∨ c ∈ label.written) :
    isForbidden c = false := by
  unfold Label.ofText? at made
  by_cases marked : marker.isPrefixOf text = true
  · rw [if_pos marked] at made
    obtain ⟨read, decoded, made⟩ := Option.bind_eq_some_iff.1 made
    split at made
    · rename_i good
      cases made
      have valid : isValid read = true := (Bool.and_eq_true_iff.1 good).2
      have parts := List.prefix_iff_eq_append.1 (List.isPrefixOf_iff_prefix.1 marked)
      rw [or_self, ← parts, List.mem_append] at mem
      rcases mem with front | rest
      · exact not_isForbidden_of_mem_marker front
      · exact not_isForbidden_of_cases valid (Punycode.mem_of_decode?_eq_some decoded rest)
    · cases made
  · rw [if_neg marked] at made
    split at made
    · cases made
    · rename_i valid
      rw [Bool.not_eq_true', Bool.not_eq_false] at valid
      split at made
      · cases made
        exact not_isForbidden_of_isValid valid (mem.elim id id)
      · cases made
        rcases mem with mem_text | mem_written
        · exact not_isForbidden_of_isValid valid mem_text
        · rcases List.mem_append.1 mem_written with front | rest
          · exact not_isForbidden_of_mem_marker front
          · exact not_isForbidden_of_cases valid <|
              (Punycode.mem_encode rest).imp And.left (.imp_right Punycode.IsWritten.isDigit)

theorem toAscii?_eq_some {name domain : List Char} :
    toAscii? name = some domain ↔
      ∃ mapped labels, mapName name = some mapped ∧
        (splitAt '.' mapped).mapM Label.ofText? = some labels ∧
        (labels.any (fun l => hasRightToLeft l.read) && !labels.all fun l => directionsFit l.read) =
          false ∧
        domain = List.intercalate ['.'] (labels.map Label.written) := by
  unfold toAscii?
  constructor
  · intro ascii
    obtain ⟨mapped, maps, ascii⟩ := Option.bind_eq_some_iff.1 ascii
    obtain ⟨labels, made, ascii⟩ := Option.bind_eq_some_iff.1 ascii
    split at ascii
    · cases ascii
    · rename_i fit
      exact ⟨mapped, labels, maps, made, Bool.not_eq_true _ ▸ fit, (Option.some.inj ascii).symm⟩
  · rintro ⟨mapped, labels, maps, made, fit, rfl⟩
    simp only [maps, made, Option.bind_eq_bind, Option.bind_some]
    rw [if_neg (by rw [fit]; exact Bool.false_ne_true)]

/-- A domain in ASCII holds no sign that has a meaning in an address. -/
theorem not_isForbidden_of_mem_toAscii? {name domain : List Char} {c : Char}
    (ascii : toAscii? name = some domain) (mem : c ∈ domain) : isForbidden c = false := by
  obtain ⟨mapped, labels, -, made, -, rfl⟩ := toAscii?_eq_some.1 ascii
  rcases Text.mem_intercalate mem with rfl | ⟨part, mem_parts, mem_part⟩
  · exact not_isForbidden_point
  · obtain ⟨label, mem_labels, rfl⟩ := List.mem_map.1 mem_parts
    obtain ⟨text, -, read⟩ := Text.exists_source_of_mapM made mem_labels
    exact Label.not_isForbidden read (.inr mem_part)

theorem not_isOuterBlank_of_mem_name {name domain : List Char} {c : Char}
    (ascii : toAscii? name = some domain) (mem : c ∈ name) : isOuterBlank c = false := by
  by_contra low
  rw [Bool.not_eq_false] at low
  obtain ⟨mapped, labels, maps, made, -⟩ := toAscii?_eq_some.1 ascii
  have sign : c ≠ '.' := by
    rintro rfl
    exact absurd low (by decide)
  obtain ⟨part, mem_parts, mem_part⟩ :=
    Text.exists_part_of_mem sign (mem_of_mapName_eq_some low maps mem)
  obtain ⟨label, -, read⟩ := Text.exists_result_of_mapM made mem_parts
  have allowed := Label.not_isForbidden read (.inl mem_part)
  rw [isForbidden_of_isOuterBlank low] at allowed
  cases allowed

end PetClient.Url.Domain
