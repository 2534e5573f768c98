import PetClient.Proofs.Text.Basic
import PetClient.Proofs.Url.Percent
import PetClient.Url.Path

/-!
Paths: the segments of a joined text are those of both parts, and plain segments behind a path are
put behind whatever the path resolves to.
-/

namespace PetClient.Url

/-! ### Segments -/

section Segments

variable {isSeparator : Char → Bool}

theorem segments_cons (c : Char) (rest : List Char) :
    segments isSeparator (c :: rest) =
      if isSeparator c then [] :: segments isSeparator rest
      else
        match segments isSeparator rest with
        | [] => [[c]]
        | segment :: others => (c :: segment) :: others :=
  rfl

theorem segments_ne_nil (text : List Char) : segments isSeparator text ≠ [] := by
  cases text with
  | nil => exact List.cons_ne_nil _ _
  | cons c rest =>
    rw [segments_cons]
    split
    · exact List.cons_ne_nil _ _
    · split <;> exact List.cons_ne_nil _ _

theorem segments_of_free {text : List Char} (free : ∀ c ∈ text, isSeparator c = false) :
    segments isSeparator text = [text] := by
  induction text with
  | nil => rfl
  | cons c rest ih =>
    have others := ih fun d mem => free d (List.mem_cons_of_mem _ mem)
    rw [segments_cons, free c (List.mem_cons_self ..), others]
    rfl

theorem segments_append (front rest : List Char) {sign : Char} (separates : isSeparator sign) :
    segments isSeparator (front ++ sign :: rest) =
      segments isSeparator front ++ segments isSeparator rest := by
  induction front with
  | nil =>
    rw [List.nil_append, segments_cons, if_pos separates]
    rfl
  | cons c front ih =>
    rw [List.cons_append, segments_cons, segments_cons c front, ih]
    split
    · rfl
    · cases parts : segments isSeparator front with
      | nil => exact absurd parts (segments_ne_nil front)
      | cons segment others => rfl

theorem not_isSeparator_of_mem_segments {text part : List Char} {c : Char}
    (mem : part ∈ segments isSeparator text) (mem_part : c ∈ part) : isSeparator c = false := by
  induction text generalizing part with
  | nil =>
    rw [List.mem_singleton.1 mem] at mem_part
    cases mem_part
  | cons d rest ih =>
    rw [segments_cons] at mem
    by_cases separates : isSeparator d = true
    · rw [if_pos separates] at mem
      rcases List.mem_cons.1 mem with rfl | later
      · cases mem_part
      · exact ih later mem_part
    · rw [if_neg separates] at mem
      cases parts : segments isSeparator rest with
      | nil => exact absurd parts (segments_ne_nil rest)
      | cons first others =>
        simp only [parts, List.mem_cons] at mem
        rcases mem with rfl | later
        · rcases List.mem_cons.1 mem_part with rfl | inside
          · exact Bool.not_eq_true _ ▸ separates
          · exact ih (parts ▸ List.mem_cons_self ..) inside
        · exact ih (parts ▸ List.mem_cons_of_mem _ later) mem_part

theorem exists_last_segment {text : List Char} (nonempty : text ≠ [])
    (ends : ∀ c ∈ text.getLast?, isSeparator c = false) :
    ∃ front last, segments isSeparator text = front ++ [last] ∧ last ≠ [] := by
  induction text with
  | nil => exact absurd rfl nonempty
  | cons c rest ih =>
    by_cases alone : rest = []
    · rw [alone]
      refine ⟨[], [c], segments_of_free ?_, List.cons_ne_nil _ _⟩
      rw [alone] at ends
      exact List.forall_mem_singleton.2 (ends c rfl)
    · rw [← List.singleton_append, List.getLast?_append_of_ne_nil _ alone] at ends
      obtain ⟨front, last, parts, visible⟩ := ih alone ends
      rw [segments_cons, parts]
      split
      · exact ⟨[] :: front, last, rfl, visible⟩
      · cases front with
        | nil => exact ⟨[], c :: last, rfl, List.cons_ne_nil _ _⟩
        | cons first others => exact ⟨(c :: first) :: others, last, rfl, visible⟩

end Segments

/-! ### Resolving -/

theorem oneUp_subset (segments : List (List Char)) : oneUp segments ⊆ segments := by
  intro part mem
  unfold oneUp at mem
  split at mem
  · cases mem
  · split at mem
    · exact mem
    · exact List.mem_cons_of_mem _ mem

theorem mem_addSegment {before : List (List Char)} {segment part : List Char} {isLast : Bool}
    (mem : part ∈ addSegment before segment isLast) :
    part ∈ before ∨ part = segment ∨ part = [] := by
  have place {segments : List (List Char)}
      (mem : part ∈ if isLast then [] :: segments else segments) :
      part ∈ segments ∨ part = [] := by
    split at mem
    · exact (List.mem_cons.1 mem).symm
    · exact .inl mem
  unfold addSegment at mem
  simp only at mem
  split at mem
  · exact (place mem).imp_right .inr
  · exact (place mem).imp (fun mem_up => oneUp_subset _ mem_up) .inr
  · rcases List.mem_cons.1 mem with same | later
    · exact .inr (.inl same)
    · exact .inl later

theorem mem_resolveFrom {before segments : List (List Char)} {part : List Char}
    (mem : part ∈ resolveFrom before segments) :
    part ∈ before ∨ part ∈ segments ∨ part = [] := by
  fun_induction resolveFrom before segments with
  | case1 before => exact .inl mem
  | case2 before segment =>
    rw [List.mem_singleton]
    exact mem_addSegment mem
  | case3 before segment next rest ih =>
    rcases ih mem with added | later | empty
    · rcases mem_addSegment added with old | same | empty
      · exact .inl old
      · exact .inr (.inl (same ▸ List.mem_cons_self ..))
      · exact .inr (.inr empty)
    · exact .inr (.inl (List.mem_cons_of_mem _ later))
    · exact .inr (.inr empty)

theorem mem_resolve {segments : List (List Char)} {part : List Char}
    (mem : part ∈ resolve segments) : part ∈ segments ∨ part = [] := by
  rcases mem_resolveFrom (List.mem_reverse.1 mem) with none | written | empty
  · cases none
  · exact .inl written
  · exact .inr empty

theorem forall_mem_resolve {p : Char → Prop} (slash : p '/') {segments : List (List Char)}
    (holds : ∀ part ∈ segments, ∀ c ∈ part, p c) : ∀ c ∈ joinSegments (resolve segments), p c := by
  intro c mem
  obtain ⟨part, mem_parts, mem⟩ := List.mem_flatMap.1 mem
  rcases List.mem_cons.1 mem with rfl | inside
  · exact slash
  · rcases mem_resolve mem_parts with written | rfl
    · exact holds part written c inside
    · cases inside

theorem forall_mem_pathOf {p : Char → Prop} {isSeparator : Char → Bool} {text : List Char}
    (slash : p '/') (holds : ∀ segment, ∀ c ∈ percentEncode encodedInPath segment, p c) :
    ∀ c ∈ pathOf isSeparator text, p c := by
  refine forall_mem_resolve slash fun part mem => ?_
  obtain ⟨segment, -, rfl⟩ := List.mem_map.1 mem
  exact holds segment

theorem resolveFrom_append {before rest : List (List Char)} (front : List (List Char))
    (nonempty : rest ≠ []) :
    resolveFrom before (front ++ rest) =
      resolveFrom (front.foldl (fun kept segment => addSegment kept segment false) before) rest := by
  induction front generalizing before with
  | nil => rfl
  | cons segment front ih =>
    rw [List.foldl_cons, ← ih]
    cases behind : front ++ rest with
    | nil => exact absurd (List.append_eq_nil_iff.1 behind).2 nonempty
    | cons next others =>
      rw [List.cons_append, behind, resolveFrom]

/-- What the last segment leaves is what a further one starts from, or that and an empty one. -/
theorem addSegment_last (before : List (List Char)) (segment : List Char) :
    addSegment before segment true = addSegment before segment false ∧
        addSegment before segment false = segment :: before ∨
      addSegment before segment true = [] :: addSegment before segment false := by
  unfold addSegment
  simp only
  split
  · exact .inr rfl
  · exact .inr rfl
  · exact .inl ⟨rfl, rfl⟩

theorem pathOf_ne_nil (isSeparator : Char → Bool) (text : List Char) :
    pathOf isSeparator text ≠ [] := by
  have parts : (segments isSeparator text).map (percentEncode encodedInPath) ≠ [] := by
    simpa using segments_ne_nil text
  obtain ⟨front, last, split⟩ := (List.eq_nil_or_concat' _).resolve_left parts
  unfold pathOf resolve
  rw [split, resolveFrom_append _ (List.cons_ne_nil _ _)]
  change joinSegments (addSegment _ last true).reverse ≠ []
  rcases addSegment_last (front.foldl (fun kept segment => addSegment kept segment false) []) last
    with ⟨same, kept⟩ | place
  · rw [same, kept]
    simp [joinSegments]
  · rw [place]
    simp [joinSegments]

/-! ### Segments that stay as they are -/

/-- Whether a segment is kept as it is: it is its own encoding and names no place. -/
structure IsSettled (part : List Char) : Prop where
  encoded : percentEncode encodedInPath part = part
  ordinary : points? part ≠ some 1 ∧ points? part ≠ some 2

theorem IsSettled.addSegment_eq {part : List Char} (settled : IsSettled part)
    (before : List (List Char)) (isLast : Bool) : addSegment before part isLast = part :: before := by
  unfold addSegment
  simp only
  split
  · rename_i here
    exact absurd here settled.ordinary.1
  · rename_i up
    exact absurd up settled.ordinary.2
  · rfl

theorem resolveFrom_settled {parts : List (List Char)} (settled : ∀ part ∈ parts, IsSettled part)
    (before : List (List Char)) : resolveFrom before parts = parts.reverse ++ before := by
  fun_induction resolveFrom before parts with
  | case1 before => rfl
  | case2 before segment =>
    exact (settled segment (List.mem_cons_self ..)).addSegment_eq before true
  | case3 before segment next rest ih =>
    have kept := (settled segment (List.mem_cons_self ..)).addSegment_eq before false
    rw [ih fun part mem => settled part (List.mem_cons_of_mem _ mem), kept]
    simp

/-! ### Plain segments behind a path -/

structure IsPlain (part : List Char) : Prop where
  nonempty : part ≠ []
  chars : ∀ c ∈ part, c.isAlphanum = true ∨ c = '-'

def withoutSlash (text : List Char) : List Char :=
  if text.getLast? = some '/' then text.dropLast else text

theorem withoutSlash_append_slash (text : List Char) : withoutSlash (text ++ ['/']) = text := by
  unfold withoutSlash
  rw [if_pos List.getLast?_concat, List.dropLast_concat]

theorem withoutSlash_of_ne {text : List Char} (ends : text.getLast? ≠ some '/') :
    withoutSlash text = text :=
  if_neg ends

theorem withoutSlash_append (front : List Char) {text : List Char} (nonempty : text ≠ []) :
    withoutSlash (front ++ text) = front ++ withoutSlash text := by
  unfold withoutSlash
  rw [List.getLast?_append_of_ne_nil _ nonempty, List.dropLast_append_of_ne_nil nonempty]
  split <;> rfl

theorem joinSegments_append (front rest : List (List Char)) :
    joinSegments (front ++ rest) = joinSegments front ++ joinSegments rest :=
  List.flatMap_append

theorem joinSegments_concat (front : List (List Char)) (last : List Char) :
    joinSegments (front ++ [last]) = joinSegments front ++ '/' :: last := by
  rw [joinSegments_append]
  exact congrArg (joinSegments front ++ ·) (List.append_nil _)

/-- Without its last slash a path is what a further segment is put behind. -/
theorem withoutSlash_addSegment (before : List (List Char)) {last : List Char}
    (nonempty : last ≠ []) (free : '/' ∉ last) :
    withoutSlash (joinSegments (addSegment before last true).reverse) =
      joinSegments (addSegment before last false).reverse := by
  rcases addSegment_last before last with ⟨same, kept⟩ | place
  · rw [same, kept, List.reverse_cons, joinSegments_concat]
    apply withoutSlash_of_ne
    rw [List.getLast?_append_of_ne_nil _ (List.cons_ne_nil _ _), ← List.singleton_append,
      List.getLast?_append_of_ne_nil _ nonempty]
    exact fun ends => free (List.mem_of_getLast? ends)
  · rw [place, List.reverse_cons, joinSegments_concat, withoutSlash_append_slash]

theorem toNat_bounds_of_isAlphanum {c : Char} (plain : c.isAlphanum = true) :
    0x30 ≤ c.toNat ∧ c.toNat < 0x7B := by
  have first : 'A'.val.toNat = 65 ∧ 'a'.val.toNat = 97 ∧ '0'.val.toNat = 48 := ⟨rfl, rfl, rfl⟩
  have last : 'Z'.val.toNat = 90 ∧ 'z'.val.toNat = 122 ∧ '9'.val.toNat = 57 := ⟨rfl, rfl, rfl⟩
  simp only [Char.isAlphanum, Char.isAlpha, Char.isUpper, Char.isLower, Char.isDigit,
    Bool.or_eq_true, Bool.and_eq_true, decide_eq_true_iff, UInt32.le_iff_toNat_le,
    ge_iff_le] at plain
  change 0x30 ≤ c.val.toNat ∧ c.val.toNat < 0x7B
  omega

def pathSigns : List Char :=
  [' ', '"', '<', '>', '`', '#', '?', '\x7b', '\x7d']

theorem encodedInPath_eq (c : Char) :
    encodedInPath c = (isControl c || decide (c ∈ pathSigns)) := by
  simp [encodedInPath, encodedInFragment, pathSigns, Bool.or_assoc]

namespace IsPlain

variable {part : List Char}

theorem visible_of_isAlphanum {c : Char} (plain : c.isAlphanum = true ∨ c = '-') :
    c.toNat < 0x80 ∧ encodedInPath c = false ∧ c ≠ '.' ∧ c ≠ '%' := by
  have others : ∀ d ∈ '.' :: '%' :: pathSigns, ¬(d.isAlphanum = true ∨ d = '-') :=
    Text.forall_of_all (by decide)
  have absent (d : Char) (listed : d ∈ '.' :: '%' :: pathSigns) : c ≠ d := by
    rintro rfl
    exact others c listed plain
  have bounds : 0x20 ≤ c.toNat ∧ c.toNat < 0x7F := by
    rcases plain with plain | rfl
    · have bounds := toNat_bounds_of_isAlphanum plain
      omega
    · decide
  refine ⟨by omega, ?_, absent '.' (by decide), absent '%' (by decide)⟩
  rw [encodedInPath_eq, Bool.or_eq_false_iff, decide_eq_false_iff_not]
  refine ⟨?_, fun mem => others c (by simp [mem]) plain⟩
  unfold isControl
  rw [Bool.or_eq_false_iff, decide_eq_false_iff_not, decide_eq_false_iff_not]
  omega

theorem percentEncode_eq (plain : IsPlain part) : percentEncode encodedInPath part = part :=
  percentEncode_of_plain fun c mem =>
    have visible := visible_of_isAlphanum (plain.chars c mem)
    ⟨visible.1, visible.2.1⟩

theorem settled (plain : IsPlain part) : IsSettled part := by
  have no_points : points? part = none := by
    obtain ⟨nonempty, chars⟩ := plain
    cases part with
    | nil => exact absurd rfl nonempty
    | cons c rest =>
      have visible := visible_of_isAlphanum (chars c (List.mem_cons_self ..))
      unfold points?
      split
      · contradiction
      · rename_i same
        cases same
        exact absurd rfl visible.2.2.1
      · rename_i same
        cases same
        exact absurd rfl visible.2.2.2
      · rename_i same
        cases same
        exact absurd rfl visible.2.2.2
      · rfl
  refine ⟨plain.percentEncode_eq, ?_⟩
  rw [no_points]
  exact ⟨nofun, nofun⟩

end IsPlain

section Behind

variable {isSeparator : Char → Bool} {parts : List (List Char)}

theorem segments_append_join (slash : isSeparator '/' = true)
    (free : ∀ part ∈ parts, ∀ c ∈ part, isSeparator c = false) (front : List Char) :
    segments isSeparator (front ++ joinSegments parts) = segments isSeparator front ++ parts := by
  induction parts generalizing front with
  | nil => simp [joinSegments]
  | cons part rest ih =>
    have part_free := free part (List.mem_cons_self ..)
    have others := ih fun next mem => free next (List.mem_cons_of_mem _ mem)
    calc
      segments isSeparator (front ++ joinSegments (part :: rest)) =
          segments isSeparator (front ++ '/' :: (part ++ joinSegments rest)) := rfl
      _ = segments isSeparator front ++ segments isSeparator (part ++ joinSegments rest) :=
        segments_append _ _ slash
      _ = segments isSeparator front ++ part :: rest := by
        rw [others, segments_of_free part_free]
        rfl

theorem map_percentEncode (settled : ∀ part ∈ parts, IsSettled part) :
    parts.map (percentEncode encodedInPath) = parts := by
  rw [List.map_congr_left fun part mem => (settled part mem).encoded]
  exact List.map_id parts

theorem pathOf_join {part : List Char} (slash : isSeparator '/' = true)
    (free : ∀ next ∈ part :: parts, ∀ c ∈ next, isSeparator c = false)
    (settled : ∀ next ∈ part :: parts, IsSettled next) :
    pathOf isSeparator (part ++ joinSegments parts) = joinSegments (part :: parts) := by
  have split : segments isSeparator (part ++ joinSegments parts) = part :: parts := by
    rw [segments_append_join slash (fun next mem => free next (List.mem_cons_of_mem _ mem)),
      segments_of_free (free part (List.mem_cons_self ..))]
    rfl
  unfold pathOf resolve
  rw [split, map_percentEncode settled, resolveFrom_settled settled, List.append_nil,
    List.reverse_reverse]

/-- Plain segments behind a text are put behind the path of the text, whatever it resolves to. -/
theorem pathOf_append {text : List Char} (slash : isSeparator '/' = true) (nonempty : text ≠ [])
    (ends : ∀ c ∈ text.getLast?, isSeparator c = false) (some_parts : parts ≠ [])
    (free : ∀ part ∈ parts, ∀ c ∈ part, isSeparator c = false)
    (plain : ∀ part ∈ parts, IsPlain part) :
    pathOf isSeparator (text ++ joinSegments parts) =
      withoutSlash (pathOf isSeparator text) ++ joinSegments parts := by
  have settled := fun part mem => (plain part mem).settled
  obtain ⟨front, last, split, visible⟩ := exists_last_segment nonempty ends
  have no_slash : '/' ∉ percentEncode encodedInPath last := by
    intro mem
    rcases mem_of_mem_percentEncode mem with written | percent | digit
    · have mem_last : last ∈ segments isSeparator text := by simp [split]
      rw [not_isSeparator_of_mem_segments mem_last written] at slash
      cases slash
    · exact absurd percent (by decide)
    · exact absurd digit (by decide)
  -- All but the last segment of the text leave the same, with and without the parts behind it.
  let before := (front.map (percentEncode encodedInPath)).foldl
    (fun kept segment => addSegment kept segment false) []
  have alone : pathOf isSeparator text =
      joinSegments (addSegment before (percentEncode encodedInPath last) true).reverse := by
    unfold pathOf resolve
    rw [split, List.map_append, List.map_singleton, resolveFrom_append _ (List.cons_ne_nil _ _)]
    rfl
  have whole : pathOf isSeparator (text ++ joinSegments parts) =
      joinSegments ((addSegment before (percentEncode encodedInPath last) false).reverse ++
        parts) := by
    unfold pathOf resolve
    rw [segments_append_join slash free, split, List.map_append, List.map_append,
      List.map_singleton, map_percentEncode settled, resolveFrom_append _ some_parts,
      List.foldl_append, resolveFrom_settled settled, List.reverse_append, List.reverse_reverse]
    rfl
  rw [whole, alone, joinSegments_append,
    withoutSlash_addSegment _ (percentEncode_ne_nil visible) no_slash]

end Behind

end PetClient.Url
