import PetClient.Proofs.Url.Domain.Canonical
import PetClient.Proofs.Url.Domain.Label
import PetClient.Proofs.Url.Domain.Reading

/-!
Domain names that are their own form in ASCII: the forms of others, whose labels are read as they
were before they were written, and names in lower case without marked labels.
-/

namespace PetClient.Url.Domain

open Text (CharTable splitAt)

/-! ### Mapped text -/

theorem mapName_eq_some {name mapped : List Char} (maps : mapName name = some mapped) :
    (∀ c ∈ mapped, Plain c) ∧ normalize mapped = mapped := by
  unfold mapName at maps
  obtain ⟨parts, mapsAll, rfl⟩ := Option.map_eq_some_iff.1 maps
  refine ⟨plain_normalize fun c mem => ?_, normalize_normalize _⟩
  obtain ⟨part, mem_parts, mem_part⟩ := List.mem_flatten.1 mem
  obtain ⟨d, -, replaced⟩ := Text.exists_source_of_mapM mapsAll mem_parts
  exact plain_of_mapChar replaced mem_part

theorem mapName_of_plain {text : List Char} (plain : ∀ c ∈ text, Plain c) :
    mapName text = some (normalize text) := by
  have maps : text.mapM mapChar = some (text.map fun c => [c]) := by
    induction text with
    | nil => rfl
    | cons c text ih =>
      obtain ⟨here, rest⟩ := List.forall_mem_cons.1 plain
      exact Text.mapM_cons_eq_some.2 ⟨_, _, here.mapChar_eq, ih rest, rfl⟩
  have flat : (text.map fun c => [c]).flatten = text := by
    rw [← List.flatMap_def, List.flatMap_singleton']
  unfold mapName
  rw [maps, Option.map_some, flat]

/-! ### Labels -/

def IsWrittenForm (text : List Char) : Prop :=
  ∀ c ∈ text, c.toNat < 0x80 ∧ Plain c ∧ c ≠ '.'

theorem isWrittenForm_encode {label : List Char} (plain : ∀ c ∈ label, Plain c)
    (free : '.' ∉ label) : IsWrittenForm (marker ++ Punycode.encode label) := by
  have sign {c : Char} (holds : c.toNat < 0x80 ∧ ¬(0x41 ≤ c.toNat ∧ c.toNat ≤ 0x5A) ∧ c ≠ '.') :
      c.toNat < 0x80 ∧ Plain c ∧ c ≠ '.' :=
    ⟨holds.1, plain_of_ascii holds.1 holds.2.1, holds.2.2⟩
  intro c mem
  rcases List.mem_append.1 mem with front | rest
  · have all : ∀ c ∈ marker, c.toNat < 0x80 ∧ ¬(0x41 ≤ c.toNat ∧ c.toNat ≤ 0x5A) ∧ c ≠ '.' :=
      Text.forall_of_all (by decide)
    exact sign (all c front)
  · rcases Punycode.mem_encode rest with ⟨mem_label, ascii⟩ | rfl | digit
    · refine ⟨ascii, plain c mem_label, ?_⟩
      rintro rfl
      exact free mem_label
    · exact sign (by decide)
    · exact sign (digit.of_all (p := fun c =>
        c.toNat < 0x80 ∧ ¬(0x41 ≤ c.toNat ∧ c.toNat ≤ 0x5A) ∧ c ≠ '.') (by decide))

/-- A label of mapped text is read again from its written form. -/
theorem Label.ofText?_written {text : List Char} {label : Label}
    (read : Label.ofText? text = some label) (plain : ∀ c ∈ text, Plain c)
    (normal : normalize text = text) (free : '.' ∉ text) :
    Label.ofText? label.written = some label ∧ IsWrittenForm label.written := by
  have form (ascii : ∀ c ∈ text, c.toNat < 0x80) : IsWrittenForm text := by
    intro c mem
    refine ⟨ascii c mem, plain c mem, ?_⟩
    rintro rfl
    exact free mem
  have again := read
  unfold Label.ofText? at read
  by_cases marked : marker.isPrefixOf text = true
  · rw [if_pos marked] at read
    obtain ⟨label, decoded, read⟩ := Option.bind_eq_some_iff.1 read
    split at read
    · cases read
      refine ⟨again, form fun c mem => ?_⟩
      have parts := List.prefix_iff_eq_append.1 (List.isPrefixOf_iff_prefix.1 marked)
      rw [← parts, List.mem_append] at mem
      rcases mem with front | rest
      · have all : ∀ d ∈ marker, d.toNat < 0x80 := Text.forall_of_all (by decide)
        exact all c front
      · exact (Punycode.ascii_or_isDigit_of_decode? decoded rest).elim id toNat_lt_of_isDigit
    · cases read
  · rw [if_neg marked] at read
    split at read
    · cases read
    · rename_i valid
      rw [Bool.not_eq_true', Bool.not_eq_false] at valid
      by_cases ascii : isAscii text = true
      · rw [if_pos ascii] at read
        cases read
        exact ⟨again, form fun c mem => of_decide_eq_true (List.all_eq_true.1 ascii c mem)⟩
      · rw [if_neg ascii] at read
        cases read
        refine ⟨?_, isWrittenForm_encode plain free⟩
        have stands : ∀ c ∈ text, standsForItself c = true := fun c mem =>
          (plain c mem).standsForItself_eq
        have starts : marker.isPrefixOf (marker ++ Punycode.encode text) = true :=
          List.isPrefixOf_iff_prefix.2 (List.prefix_append ..)
        unfold Label.ofText?
        rw [if_pos starts, List.drop_left, Punycode.decode?_encode]
        simpa [Bool.not_eq_true _ ▸ ascii, normal, valid] using stands

/-! ### Names -/

/-- The form of a name in ASCII has itself as its form in ASCII. -/
theorem toAscii?_of_toAscii? {name domain : List Char} (ascii : toAscii? name = some domain) :
    toAscii? domain = some domain := by
  obtain ⟨mapped, labels, maps, made, fit, rfl⟩ := toAscii?_eq_some.1 ascii
  obtain ⟨plain, normal⟩ := mapName_eq_some maps
  have read : ∀ label ∈ labels,
      Label.ofText? label.written = some label ∧ IsWrittenForm label.written := by
    intro label mem
    obtain ⟨part, mem_parts, known⟩ := Text.exists_source_of_mapM made mem
    exact Label.ofText?_written known
      (fun c mem_part => plain c (Text.mem_of_mem_splitAt mem_parts mem_part))
      (normalize_of_mem_splitAt normal mem_parts) (Text.not_mem_of_mem_splitAt mem_parts)
  have signs : ∀ c ∈ List.intercalate ['.'] (labels.map Label.written), c.toNat < 0x80 ∧ Plain c := by
    intro c mem
    rcases Text.mem_intercalate mem with rfl | ⟨part, mem_parts, mem_part⟩
    · exact ⟨by decide, plain_of_ascii (by decide) (by decide)⟩
    · obtain ⟨label, mem_labels, rfl⟩ := List.mem_map.1 mem_parts
      obtain ⟨low, stands, -⟩ := (read label mem_labels).2 c mem_part
      exact ⟨low, stands⟩
  have parts : splitAt '.' (List.intercalate ['.'] (labels.map Label.written)) =
      labels.map Label.written := by
    apply Text.splitAt_intercalate
    · rw [ne_eq, List.map_eq_nil_iff]
      rintro rfl
      have none := List.forall₂_nil_right_iff.1 (Text.mapM_eq_some_iff.1 made)
      rw [Text.splitAt_eq_splitOn] at none
      exact List.splitOnP_ne_nil _ _ none
    · intro part mem
      obtain ⟨label, mem_labels, rfl⟩ := List.mem_map.1 mem
      exact fun point => ((read label mem_labels).2 '.' point).2.2 rfl
  refine toAscii?_eq_some.2 ⟨_, labels, mapName_of_plain fun c mem => (signs c mem).2, ?_, fit, rfl⟩
  rw [normalize_of_ascii fun c mem => (signs c mem).1, parts]
  rw [Text.mapM_eq_some_iff, List.forall₂_map_left_iff, List.forall₂_same]
  exact fun label mem => (read label mem).1

/-! ### Names in ASCII -/

section Check

set_option maxRecDepth 100000

theorem directions_ascii :
    (directions.entries.toList.all fun range =>
      0x80 ≤ range.1 || !([['R'], ['A', 'L'], ['A', 'N']].contains range.2.2)) = true := by
  unfold directions
  rw [CharTable.toList_ofText, show (String.toList _) = _ from String.toList_ofList]
  decide +kernel

theorem marks_above : marks.Above 0x7F := by
  refine (CharTable.ordered_ofText _).above ?_
  rw [CharTable.toList_ofText, show (String.toList _) = _ from String.toList_ofList]
  decide +kernel

end Check

theorem hasRightToLeft_of_ascii {text : List Char} (ascii : ∀ c ∈ text, c.toNat < 0x80) :
    hasRightToLeft text = false := by
  unfold hasRightToLeft
  rw [List.any_eq_false]
  intro c mem
  unfold direction
  cases found : directions.find? c with
  | none => decide
  | some value =>
    obtain ⟨start, stop, range, starts, -⟩ := CharTable.mem_of_find?_eq_some found
    have listed := List.all_eq_true.1 directions_ascii _ (Array.mem_toList_iff.2 range)
    have low : ¬0x80 ≤ start := Nat.not_le.2 (Nat.lt_of_le_of_lt starts (ascii c mem))
    simpa [low, ← String.toList_inj] using listed

theorem joinersFit_of_ascii {text : List Char} (ascii : ∀ c ∈ text, c.toNat < 0x80)
    (before : List Char) : joinersFit before text = true := by
  induction text generalizing before with
  | nil => rfl
  | cons c rest ih =>
    obtain ⟨low, later⟩ := List.forall_mem_cons.1 ascii
    have other {d : Char} (high : 0x80 ≤ d.toNat) : c ≠ d := by
      rintro rfl
      omega
    unfold joinersFit
    simp only [if_neg (other (d := nonJoiner) (by decide)), if_neg (other (d := joiner) (by decide)),
      ih later, Bool.true_and]

theorem isValid_of_ascii {text : List Char} (ascii : ∀ c ∈ text, c.toNat < 0x80)
    (allowed : ∀ c ∈ text, isForbidden c = false) : isValid text = true := by
  have unmarked : (text.head?.map marks.contains).getD false = false := by
    cases text with
    | nil => rfl
    | cons c rest =>
      rw [List.head?_cons, Option.map_some, Option.getD_some]
      exact CharTable.contains_eq_false
        (marks_above.not_covers (Nat.le_of_lt_succ (ascii c (List.mem_cons_self ..))))
  unfold isValid
  rw [unmarked, joinersFit_of_ascii ascii,
    List.any_eq_false.2 fun c mem => Bool.not_eq_true _ ▸ allowed c mem]
  rfl

/-- A name in lower case without marked labels is its own form in ASCII. -/
theorem toAscii?_of_lowerCase {name : List Char}
    (signs : ∀ c ∈ name,
      c.toNat < 0x80 ∧ ¬(0x41 ≤ c.toNat ∧ c.toNat ≤ 0x5A) ∧ isForbidden c = false)
    (unmarked : ∀ part ∈ splitAt '.' name, marker.isPrefixOf part = false) :
    toAscii? name = some name := by
  let label (part : List Char) : Label := ⟨part, part⟩
  have sign {part : List Char} (mem : part ∈ splitAt '.' name) {c : Char} (mem_part : c ∈ part) :=
    signs c (Text.mem_of_mem_splitAt mem mem_part)
  have read : ∀ part ∈ splitAt '.' name, Label.ofText? part = some (label part) := by
    intro part mem
    have ascii : isAscii part = true :=
      List.all_eq_true.2 fun c mem_part => decide_eq_true (sign mem mem_part).1
    have valid : isValid part = true :=
      isValid_of_ascii (fun c mem_part => (sign mem mem_part).1)
        fun c mem_part => (sign mem mem_part).2.2
    unfold Label.ofText?
    rw [if_neg (by rw [unmarked part mem]; exact Bool.false_ne_true), valid, if_neg (by decide),
      if_pos ascii]
  refine toAscii?_eq_some.2 ⟨name, (splitAt '.' name).map label, ?_, ?_, ?_, ?_⟩
  · rw [mapName_of_plain fun c mem => plain_of_ascii (signs c mem).1 (signs c mem).2.1,
      normalize_of_ascii fun c mem => (signs c mem).1]
  · rw [Text.mapM_eq_some_iff, List.forall₂_map_right_iff, List.forall₂_same]
    exact read
  · rw [Bool.and_eq_false_iff, List.any_map, List.any_eq_false]
    refine .inl fun part mem => ?_
    rw [Function.comp_apply, hasRightToLeft_of_ascii fun c mem_part => (sign mem mem_part).1]
    exact Bool.false_ne_true
  · rw [List.map_map, show Label.written ∘ label = id from rfl, List.map_id,
      Text.intercalate_splitAt]

end PetClient.Url.Domain
