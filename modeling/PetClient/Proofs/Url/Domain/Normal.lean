import PetClient.Proofs.Url.Domain.Letters

/-!
Blanks and controls in domain names: they stand for themselves, are not composed with anything, and
so are never lost.
-/

namespace PetClient.Url

theorem toNat_lt_of_isOuterBlank {c : Char} (low : isOuterBlank c = true) : c.toNat < 0x21 :=
  Nat.lt_succ_of_le (of_decide_eq_true low)

namespace Domain

theorem mapChar_of_isOuterBlank {c : Char} (low : isOuterBlank c = true) :
    mapChar c = some [c] := by
  have bound := toNat_lt_of_isOuterBlank low
  exact (plain_of_ascii (by omega) (by omega)).mapChar_eq

theorem lettersOf_of_ascii {c : Char} (ascii : c.toNat < 0x80) : lettersOf c = [c] :=
  (isLetter_of_ascii ascii).decomposeChar_eq 8

theorem mem_placeMark {c d : Char} {text : List Char} :
    c ∈ placeMark d text ↔ c = d ∨ c ∈ text := by
  induction text with
  | nil => simp [placeMark]
  | cons other before ih =>
    unfold placeMark
    split
    · rw [List.mem_cons, ih, List.mem_cons, or_left_comm]
    · rw [List.mem_cons]

theorem mem_foldl_placeMark {c : Char} {text before : List Char} :
    c ∈ text.foldl (fun before c => placeMark c before) before ↔ c ∈ text ∨ c ∈ before := by
  induction text generalizing before with
  | nil => simp
  | cons d rest ih =>
    rw [List.foldl_cons, ih, mem_placeMark, List.mem_cons]
    exact or_left_comm.trans (or_assoc.symm)

theorem mem_decompose_of_isOuterBlank {c : Char} {text : List Char} (low : isOuterBlank c = true)
    (mem : c ∈ text) : c ∈ decompose text := by
  unfold decompose
  rw [List.mem_reverse, mem_foldl_placeMark]
  refine .inl (List.mem_flatMap.2 ⟨c, mem, ?_⟩)
  have bound := toNat_lt_of_isOuterBlank low
  rw [show decomposeChar partsOf? 8 c = [c] from lettersOf_of_ascii (by omega)]
  exact List.mem_singleton_self c

namespace Composing

def joined (s : Composing) (c : Char) : Option Char :=
  if s.reaches c then s.base.bind fun base => compose? base c else none

theorem joined_eq_some {s : Composing} {c whole : Char} (joins : s.joined c = some whole) :
    s.reaches c = true ∧ ∃ base, s.base = some base ∧ compose? base c = some whole := by
  unfold joined at joins
  split at joins
  · rename_i reaches
    exact ⟨reaches, Option.bind_eq_some_iff.1 joins⟩
  · cases joins

theorem add_of_joined {s : Composing} {c whole : Char} (joins : s.joined c = some whole) :
    s.add c = { s with base := some whole } := by
  unfold joined at joins
  unfold add
  rw [joins]

theorem add_starter {s : Composing} {c : Char} (apart : s.joined c = none)
    (starter : markClass c = 0) : s.add c = { finished := s.close, base := some c } := by
  unfold joined at apart
  unfold add
  rw [apart]
  exact if_pos starter

theorem add_mark {s : Composing} {c : Char} (apart : s.joined c = none)
    (mark : markClass c ≠ 0) : s.add c = { s with marks := c :: s.marks } := by
  unfold joined at apart
  unfold add
  rw [apart]
  exact if_neg mark

/-- A character is composed with the base, or put behind the text so far. -/
theorem add_cases (s : Composing) (c : Char) :
    (∃ base whole, s.reaches c = true ∧ s.base = some base ∧ compose? base c = some whole ∧
        s.add c = { s with base := some whole }) ∨
      (s.add c).close = c :: s.close ∧
        (markClass c = 0 ∧ s.add c = { finished := s.close, base := some c } ∨
          markClass c ≠ 0 ∧ s.add c = { s with marks := c :: s.marks }) := by
  cases joins : s.joined c with
  | some whole =>
    obtain ⟨reaches, base, known, composed⟩ := joined_eq_some joins
    exact .inl ⟨base, whole, reaches, known, composed, add_of_joined joins⟩
  | none =>
    right
    by_cases starter : markClass c = 0
    · rw [add_starter joins starter]
      exact ⟨rfl, .inl ⟨starter, rfl⟩⟩
    · rw [add_mark joins starter]
      exact ⟨rfl, .inr ⟨starter, rfl⟩⟩

theorem mem_close_add {s : Composing} {c d : Char} (low : isOuterBlank c = true)
    (mem : c = d ∨ c ∈ s.close) : c ∈ (s.add d).close := by
  rcases s.add_cases d with ⟨base, composed, -, known, joined, added⟩ | ⟨behind, -⟩
  · have bound := toNat_lt_of_isOuterBlank low
    obtain ⟨⟨sign, -⟩, late, -⟩ := late_of_compose? joined
    have other : c ≠ base ∧ c ≠ d := by
      constructor
      · rintro rfl
        omega
      · rintro rfl
        omega
    have kept : c ∈ s.marks ∨ c ∈ s.finished := by
      simpa [close, known, other] using mem
    rw [added]
    simp only [close, List.mem_append]
    exact kept.imp_left .inl
  · rw [behind, List.mem_cons]
    exact mem

theorem mem_close_foldl {s : Composing} {c : Char} {text : List Char} (low : isOuterBlank c = true)
    (mem : c ∈ text ∨ c ∈ s.close) : c ∈ (text.foldl add s).close := by
  induction text generalizing s with
  | nil => simpa using mem
  | cons d rest ih =>
    rw [List.foldl_cons]
    rw [List.mem_cons] at mem
    apply ih
    rcases mem with (here | later) | before
    · exact .inr (mem_close_add low (.inl here))
    · exact .inl later
    · exact .inr (mem_close_add low (.inr before))

end Composing

theorem mem_normalize_of_isOuterBlank {c : Char} {text : List Char} (low : isOuterBlank c = true)
    (mem : c ∈ text) : c ∈ normalize text := by
  unfold normalize
  rw [List.mem_reverse]
  exact Composing.mem_close_foldl low (.inl (mem_decompose_of_isOuterBlank low mem))

theorem mem_of_mapName_eq_some {c : Char} {name mapped : List Char} (low : isOuterBlank c = true)
    (maps : mapName name = some mapped) (mem : c ∈ name) : c ∈ mapped := by
  unfold mapName at maps
  obtain ⟨parts, mapsAll, rfl⟩ := Option.map_eq_some_iff.1 maps
  apply mem_normalize_of_isOuterBlank low
  obtain ⟨part, mem_parts, same⟩ := Text.exists_result_of_mapM mapsAll mem
  rw [mapChar_of_isOuterBlank low] at same
  cases same
  exact List.mem_flatten.2 ⟨[c], mem_parts, List.mem_singleton_self c⟩

end Domain

end PetClient.Url
