import PetClient.Proofs.Text.Utf8
import PetClient.Url.Percent

/-!
Percent-encoding: which characters an encoded text is made of, and which bytes decoding keeps.
-/

namespace PetClient.Url

def hexSigns : List Char :=
  (List.range 16).map fun n => (Nat.digitChar n).toUpper

theorem mem_hexSigns {n : Nat} (bound : n < 16) : (Nat.digitChar n).toUpper ∈ hexSigns :=
  List.mem_map.2 ⟨n, List.mem_range.2 bound, rfl⟩

theorem mem_percentByte {b : UInt8} {c : Char} (mem : c ∈ percentByte b) :
    c = '%' ∨ c ∈ hexSigns := by
  have byte : b.toNat < 256 := b.toNat_lt
  simp only [percentByte, List.mem_cons, List.not_mem_nil, or_false] at mem
  rcases mem with percent | rfl | rfl
  · exact .inl percent
  · exact .inr (mem_hexSigns (by omega))
  · exact .inr (mem_hexSigns (by omega))

theorem mem_percentEncode {encoded : Char → Bool} {text : List Char} {c : Char}
    (mem : c ∈ percentEncode encoded text) :
    c.toNat < 0x80 ∧ encoded c = false ∨ c = '%' ∨ c ∈ hexSigns := by
  obtain ⟨d, -, mem⟩ := List.mem_flatMap.1 mem
  by_cases plain : (d.toNat < 0x80 && !encoded d) = true
  · rw [if_pos plain, List.mem_singleton] at mem
    rw [Bool.and_eq_true, decide_eq_true_iff, Bool.not_eq_true'] at plain
    rw [mem]
    exact .inl plain
  · rw [if_neg plain] at mem
    obtain ⟨b, -, mem⟩ := List.mem_flatMap.1 mem
    exact .inr (mem_percentByte mem)

theorem percentEncode_of_plain {encoded : Char → Bool} {text : List Char}
    (plain : ∀ c ∈ text, c.toNat < 0x80 ∧ encoded c = false) :
    percentEncode encoded text = text := by
  unfold percentEncode
  induction text with
  | nil => rfl
  | cons c rest ih =>
    obtain ⟨ascii, kept⟩ := plain c (List.mem_cons_self ..)
    rw [List.flatMap_cons, ih fun d mem => plain d (List.mem_cons_of_mem _ mem)]
    simp [ascii, kept]

theorem percentEncode_ne_nil {encoded : Char → Bool} {text : List Char} (nonempty : text ≠ []) :
    percentEncode encoded text ≠ [] := by
  cases text with
  | nil => exact absurd rfl nonempty
  | cons c rest =>
    unfold percentEncode
    rw [List.flatMap_cons]
    split
    · exact List.cons_ne_nil _ _
    · have size := String.length_utf8EncodeChar c
      have positive := c.utf8Size_pos
      cases bytes : String.utf8EncodeChar c with
      | nil =>
        rw [bytes, List.length_nil] at size
        omega
      | cons b others => exact List.cons_ne_nil _ _

/-- What comes out of encoding was there before, or is a percent sign or a digit. -/
theorem mem_of_mem_percentEncode {encoded : Char → Bool} {text : List Char} {c : Char}
    (mem : c ∈ percentEncode encoded text) : c ∈ text ∨ c = '%' ∨ c ∈ hexSigns := by
  obtain ⟨d, mem_text, mem⟩ := List.mem_flatMap.1 mem
  split at mem
  · rw [List.mem_singleton] at mem
    exact .inl (mem ▸ mem_text)
  · obtain ⟨b, -, mem⟩ := List.mem_flatMap.1 mem
    exact .inr (mem_percentByte mem)

theorem not_mem_percentEncode {encoded : Char → Bool} {text : List Char} {c : Char}
    (always : encoded c = true) (sign : c ≠ '%') (no_digit : c ∉ hexSigns) :
    c ∉ percentEncode encoded text := by
  intro mem
  rcases mem_percentEncode mem with ⟨-, plain⟩ | percent | digit
  · rw [always] at plain
    cases plain
  · exact sign percent
  · exact no_digit digit

theorem mem_percentDecode {bytes : Bytes} {b : UInt8} (mem : b ∈ bytes) (sign : b ≠ 0x25)
    (no_digit : Text.hexDigit? (Char.ofNat b.toNat) = none) : b ∈ percentDecode bytes := by
  fun_induction percentDecode bytes with
  | case1 first second rest high low found_low found_high ih =>
    rcases List.mem_cons.1 mem with rfl | mem
    · exact absurd rfl sign
    · rcases List.mem_cons.1 mem with rfl | mem
      · rw [no_digit] at found_high
        cases found_high
      · rcases List.mem_cons.1 mem with rfl | mem
        · rw [no_digit] at found_low
          cases found_low
        · exact List.mem_cons_of_mem _ (ih mem)
  | case2 first second rest not_both ih =>
    rcases List.mem_cons.1 mem with rfl | mem
    · exact absurd rfl sign
    · exact List.mem_cons_of_mem _ (ih mem)
  | case3 first rest other ih =>
    rcases List.mem_cons.1 mem with rfl | mem
    · exact List.mem_cons_self ..
    · exact List.mem_cons_of_mem _ (ih mem)
  | case4 => cases mem

theorem percentDecode_of_not_mem {bytes : Bytes} (plain : 0x25 ∉ bytes) :
    percentDecode bytes = bytes := by
  fun_induction percentDecode bytes with
  | case1 => exact absurd (List.mem_cons_self ..) plain
  | case2 => exact absurd (List.mem_cons_self ..) plain
  | case3 b rest _ ih => rw [ih (List.not_mem_of_not_mem_cons plain)]
  | case4 => rfl

end PetClient.Url
