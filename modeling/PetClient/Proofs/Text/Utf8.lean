import Mathlib
import PetClient.Text.Utf8

/-!
Text as bytes and back: reading the bytes of a text gives that text, and bytes that can be read are
the bytes of what is read.
-/

namespace PetClient.Utf8

@[simp]
theorem encode_nil : encode [] = [] :=
  rfl

@[simp]
theorem encode_cons (c : Char) (text : List Char) :
    encode (c :: text) = String.utf8EncodeChar c ++ encode text :=
  rfl

@[simp]
theorem encode_append (first second : List Char) :
    encode (first ++ second) = encode first ++ encode second :=
  List.flatMap_append

theorem length_le_length_encode (text : List Char) : text.length ≤ (encode text).length := by
  induction text with
  | nil => exact Nat.le_refl 0
  | cons c text ih =>
    have size_pos := c.utf8Size_pos
    simp only [encode_cons, List.length_cons, List.length_append, String.length_utf8EncodeChar]
    omega

theorem length_bytesOf (text : String) : (bytesOf text).length = text.utf8ByteSize := by
  rw [← String.size_toByteArray, ← String.utf8Encode_toList]
  exact (List.size_toByteArray).symm

theorem encodeChar_of_ascii {c : Char} (ascii : c.toNat < 0x80) :
    String.utf8EncodeChar c = [UInt8.ofNat c.toNat] := by
  have small : c.val.toNat ≤ 0x7f := by
    change c.val.toNat < 0x80 at ascii
    omega
  simp only [String.utf8EncodeChar, small, ↓reduceIte, Char.toNat]

theorem le_toNat_of_mem_encodeChar {c : Char} (wide : 0x80 ≤ c.toNat) {b : UInt8}
    (mem : b ∈ String.utf8EncodeChar c) : 0x80 ≤ b.toNat := by
  change 0x80 ≤ c.val.toNat at wide
  simp only [String.utf8EncodeChar, show ¬c.val.toNat ≤ 0x7f by omega, ↓reduceIte] at mem
  split at mem
  · simp only [List.mem_cons, List.not_mem_nil, or_false] at mem
    rcases mem with rfl | rfl <;> simp only [UInt8.toNat_ofNat'] <;> omega
  · split at mem
    · simp only [List.mem_cons, List.not_mem_nil, or_false] at mem
      rcases mem with rfl | rfl | rfl <;> simp only [UInt8.toNat_ofNat'] <;> omega
    · simp only [List.mem_cons, List.not_mem_nil, or_false] at mem
      rcases mem with rfl | rfl | rfl | rfl <;> simp only [UInt8.toNat_ofNat'] <;> omega

theorem mem_encode_ascii {text : List Char} {c : Char} (ascii : c.toNat < 0x80) :
    UInt8.ofNat c.toNat ∈ encode text ↔ c ∈ text := by
  have byte : (UInt8.ofNat c.toNat).toNat = c.toNat := by
    rw [UInt8.toNat_ofNat']
    omega
  unfold encode
  rw [List.mem_flatMap]
  constructor
  · rintro ⟨d, mem, mem_bytes⟩
    by_cases small : d.toNat < 0x80
    · rw [encodeChar_of_ascii small, List.mem_singleton] at mem_bytes
      have same : c.toNat = d.toNat := by
        have numbers := congrArg UInt8.toNat mem_bytes
        rw [byte, UInt8.toNat_ofNat'] at numbers
        omega
      rwa [Char.toNat_inj.1 same]
    · have wide := le_toNat_of_mem_encodeChar (Nat.le_of_not_lt small) mem_bytes
      rw [byte] at wide
      omega
  · intro mem
    refine ⟨c, mem, ?_⟩
    rw [encodeChar_of_ascii ascii]
    exact List.mem_singleton_self _

theorem first?_encodeChar_append (c : Char) (rest : Bytes) :
    first? (String.utf8EncodeChar c ++ rest) = some c := by
  have fits : (String.utf8EncodeChar c).length ≤ 4 := by
    rw [String.length_utf8EncodeChar]
    exact c.utf8Size_le_four
  unfold first?
  rw [List.take_append, List.take_of_length_le fits, List.toByteArray_append]
  exact ByteArray.utf8DecodeChar?_utf8EncodeChar_append

theorem eq_of_first? {bytes : Bytes} {c : Char} (found : first? bytes = some c) :
    bytes = String.utf8EncodeChar c ++ bytes.drop c.utf8Size := by
  unfold first? at found
  have start := congrArg (fun b => b.data.toList)
    (String.toByteArray_utf8EncodeChar_of_utf8DecodeChar?_eq_some found)
  have bound : min c.utf8Size 4 = c.utf8Size := Nat.min_eq_left c.utf8Size_le_four
  simp only [ByteArray.data_extract, Array.toList_extract, List.extract_eq_take_drop,
    List.drop_zero, Nat.sub_zero, List.data_toByteArray, List.take_take, bound] at start
  calc
    bytes = bytes.take c.utf8Size ++ bytes.drop c.utf8Size := (List.take_append_drop ..).symm
    _ = String.utf8EncodeChar c ++ bytes.drop c.utf8Size := by rw [start]

theorem drop_encodeChar_append (c : Char) (rest : Bytes) :
    (String.utf8EncodeChar c ++ rest).drop c.utf8Size = rest := by
  rw [← String.length_utf8EncodeChar c, List.drop_left]

theorem decodeStart_encode (text : List Char) : decodeStart (encode text) = (text, []) := by
  induction text with
  | nil =>
    unfold decodeStart
    split
    · rfl
    · rename_i c found
      rw [encode_nil, first?_nil] at found
      cases found
  | cons c text ih =>
    have found := first?_encodeChar_append c (encode text)
    have rest := drop_encodeChar_append c (encode text)
    unfold decodeStart
    split
    · rename_i absent
      rw [encode_cons, found] at absent
      cases absent
    · rename_i first present
      rw [encode_cons, found] at present
      cases present
      simp only [encode_cons, rest, ih]

theorem encode_decodeStart (bytes : Bytes) :
    encode (decodeStart bytes).1 ++ (decodeStart bytes).2 = bytes := by
  fun_induction decodeStart bytes with
  | case1 bytes absent => rfl
  | case2 bytes c found tail ih =>
    rw [encode_cons, List.append_assoc, ih]
    exact (eq_of_first? found).symm

/-- Bytes are read as a text exactly when they are its bytes. -/
theorem decode?_eq_some_iff {bytes : Bytes} {text : List Char} :
    decode? bytes = some text ↔ bytes = encode text := by
  unfold decode?
  constructor
  · intro read
    have parts := encode_decodeStart bytes
    split at read
    · rename_i start whole
      cases read
      rw [← parts, whole, List.append_nil]
    · cases read
  · rintro rfl
    rw [decodeStart_encode]

/-- Lenient reading gives back what is well formed. -/
theorem decodeLossy_encode (text : List Char) : decodeLossy (encode text) = text := by
  induction text with
  | nil =>
    unfold decodeLossy
    rfl
  | cons c text ih =>
    have found := first?_encodeChar_append c (encode text)
    have rest := drop_encodeChar_append c (encode text)
    rw [encode_cons]
    cases bytes : String.utf8EncodeChar c ++ encode text with
    | nil =>
      rw [bytes, first?_nil] at found
      cases found
    | cons b others =>
      rw [bytes] at found rest
      unfold decodeLossy
      simp only [found, rest, ih]

end PetClient.Utf8
