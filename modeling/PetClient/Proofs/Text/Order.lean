import PetClient.Proofs.Text.Utf8

/-!
The order of texts: texts are ordered by their characters as their bytes are.
-/

namespace PetClient.Utf8

private theorem ofNat_lt_iff {m n : Nat} (small : m < 256) (small' : n < 256) :
    UInt8.ofNat m < UInt8.ofNat n ↔ m < n := by
  rw [UInt8.lt_iff_toNat_lt, UInt8.toNat_ofNat_of_lt' small, UInt8.toNat_ofNat_of_lt' small']

private theorem ofNat_eq_iff {m n : Nat} (small : m < 256) (small' : n < 256) :
    UInt8.ofNat m = UInt8.ofNat n ↔ m = n := by
  rw [← UInt8.toNat_inj, UInt8.toNat_ofNat_of_lt' small, UInt8.toNat_ofNat_of_lt' small']

theorem encodeChar_append_lt {c d : Char} (lower : c < d) (rest others : Bytes) :
    String.utf8EncodeChar c ++ rest < String.utf8EncodeChar d ++ others := by
  have below : c.val.toNat < d.val.toNat := lower
  have bound : d.val.toNat < 0x110000 := d.valid.elim (by omega) (by omega)
  -- Fewer bytes mean a lower first byte; with as many bytes, the first that differ decide.
  unfold String.utf8EncodeChar
  generalize c.val.toNat = m at below
  generalize d.val.toNat = n at below bound
  have fourths (k : Nat) : k / 262144 = k / 64 / 64 / 64 := by omega
  have thirds (k : Nat) : k / 4096 = k / 64 / 64 := by omega
  dsimp only
  repeat' split
  all_goals
    simp (disch := omega) only [List.cons_append, List.cons_lt_cons_iff, ofNat_lt_iff,
      ofNat_eq_iff, fourths, thirds]
    omega

private theorem encodeChar_ne_nil (c : Char) : String.utf8EncodeChar c ≠ [] := by
  rw [← List.length_pos_iff, String.length_utf8EncodeChar]
  exact c.utf8Size_pos

theorem encode_lt_encode {first second : List Char} (lower : first < second) :
    encode first < encode second := by
  induction first generalizing second with
  | nil =>
    cases second with
    | nil => exact absurd lower (List.lt_irrefl [])
    | cons d others =>
      have first := encodeChar_ne_nil d
      rw [encode_nil, encode_cons]
      cases bytes : String.utf8EncodeChar d with
      | nil => exact absurd bytes first
      | cons b more => exact List.nil_lt_cons b _
  | cons c rest ih =>
    cases second with
    | nil => exact absurd lower (List.not_lt_nil _)
    | cons d others =>
      rw [encode_cons, encode_cons]
      rcases List.cons_lt_cons_iff.1 lower with here | ⟨rfl, later⟩
      · exact encodeChar_append_lt here _ _
      · exact List.append_left_lt (ih later)

/-- The order of strings is the order of their bytes. -/
theorem bytesOf_lt_iff {a b : String} : bytesOf a < bytesOf b ↔ a < b := by
  rw [String.lt_iff_toList_lt]
  refine ⟨fun lower => ?_, encode_lt_encode⟩
  rcases lt_trichotomy a.toList b.toList with below | same | above
  · exact below
  · unfold bytesOf at lower
    rw [same] at lower
    exact absurd lower (List.lt_irrefl _)
  · exact absurd lower (List.lt_asymm (encode_lt_encode above))

end PetClient.Utf8
