import PetClient.Proofs.Text.Parts
import PetClient.Proofs.Url.Path
import PetClient.Url.Form

/-!
Reading the pairs of a query.  A query is split at the signs between its pairs, and each pair at its
first equals sign.  Pairs that are added to a query are read behind those that it held before.
-/

namespace PetClient.Url.Form

def plusToBlank (c : Char) : Char :=
  if c = '+' then ' ' else c

def decodeText (text : List Char) : String :=
  String.ofList (Utf8.decodeLossy (percentDecode (Utf8.encode (text.map plusToBlank))))

def decodePair (part : List Char) : String × String :=
  (decodeText (part.takeWhile (· != '=')), decodeText ((part.dropWhile (· != '=')).drop 1))

/-- The pairs of a query.  Empty parts count for nothing. -/
def decode (query : List Char) : List (String × String) :=
  ((Text.splitAt '&' query).filter fun part => !part.isEmpty).map decodePair

/-! ### Names and values -/

theorem percentDecode_cons {b : UInt8} (plain : b ≠ 0x25) (rest : Bytes) :
    percentDecode (b :: rest) = b :: percentDecode rest := by
  rw [percentDecode]
  intro first second others same
  exact absurd same plain

theorem encodeByte_cases (b : UInt8) :
    (b.toNat < 0x80 ∧ isPlain (Char.ofNat b.toNat) ∧ encodeByte b = [Char.ofNat b.toNat]) ∨
      (b = 0x20 ∧ encodeByte b = ['+']) ∨ encodeByte b = percentByte b := by
  unfold encodeByte
  simp only
  by_cases plain : (b < 0x80 && isPlain (Char.ofNat b.toNat)) = true
  · rw [if_pos plain]
    rw [Bool.and_eq_true, decide_eq_true_iff] at plain
    exact .inl ⟨UInt8.lt_iff_toNat_lt.1 plain.1, plain.2, rfl⟩
  · rw [if_neg plain]
    by_cases blank : b = 0x20
    · rw [if_pos blank]
      exact .inr (.inl ⟨blank, rfl⟩)
    · rw [if_neg blank]
      exact .inr (.inr rfl)

theorem hexDigit?_digit {n : Nat} (bound : n < 16) :
    Text.hexDigit? (Nat.digitChar n).toUpper = some n ∧
      (Nat.digitChar n).toUpper.toNat < 0x80 ∧ (Nat.digitChar n).toUpper ≠ '+' := by
  interval_cases n <;> decide

theorem not_isPlain_signs : ∀ c ∈ ['+', '%', '&', '='], isPlain c = false :=
  Text.forall_of_all (by decide)

theorem percentDecode_percentByte (b : UInt8) (rest : Bytes) :
    percentDecode (Utf8.encode (percentByte b) ++ rest) = b :: percentDecode rest := by
  have byte : b.toNat < 256 := b.toNat_lt
  obtain ⟨high, high_ascii, -⟩ := hexDigit?_digit (n := b.toNat / 16) (by omega)
  obtain ⟨low, low_ascii, -⟩ := hexDigit?_digit (n := b.toNat % 16) (by omega)
  have number (c : Char) (ascii : c.toNat < 0x80) :
      Char.ofNat (UInt8.ofNat c.toNat).toNat = c := by
    rw [UInt8.toNat_ofNat', Nat.mod_eq_of_lt (by omega), Char.ofNat_toNat]
  have whole : b.toNat / 16 * 16 + b.toNat % 16 = b.toNat := Nat.div_add_mod' _ _
  unfold percentByte
  rw [Utf8.encode_cons, Utf8.encode_cons, Utf8.encode_cons, Utf8.encode_nil,
    Utf8.encodeChar_of_ascii high_ascii, Utf8.encodeChar_of_ascii low_ascii]
  change percentDecode (0x25 :: _ :: _ :: rest) = _
  rw [percentDecode]
  simp only [number _ high_ascii, number _ low_ascii, high, low, whole, UInt8.ofNat_toNat]

theorem percentDecode_encodeByte (b : UInt8) (rest : Bytes) :
    percentDecode (Utf8.encode ((encodeByte b).map plusToBlank) ++ rest) =
      b :: percentDecode rest := by
  rcases encodeByte_cases b with ⟨ascii, plain, encoded⟩ | ⟨rfl, encoded⟩ | encoded
  · have other (sign : Char) (mem : sign ∈ ['+', '%', '&', '=']) :
        Char.ofNat b.toNat ≠ sign := by
      rintro same
      rw [same, not_isPlain_signs sign mem] at plain
      cases plain
    have number : (Char.ofNat b.toNat).toNat = b.toNat := by
      rw [Char.toNat_ofNat, if_pos (.inl (by omega))]
    have kept : plusToBlank (Char.ofNat b.toNat) = Char.ofNat b.toNat :=
      if_neg (other '+' (by decide))
    have noSign : b ≠ 0x25 := by
      rintro rfl
      exact other '%' (by decide) rfl
    rw [encoded, List.map_singleton, kept, Utf8.encode_cons, Utf8.encode_nil,
      Utf8.encodeChar_of_ascii (by omega), number, UInt8.ofNat_toNat]
    exact percentDecode_cons noSign rest
  · rw [encoded]
    exact percentDecode_cons (by decide) rest
  · have kept : (percentByte b).map plusToBlank = percentByte b := by
      have byte : b.toNat < 256 := b.toNat_lt
      have high := (hexDigit?_digit (n := b.toNat / 16) (by omega)).2.2
      have low := (hexDigit?_digit (n := b.toNat % 16) (by omega)).2.2
      simp [percentByte, plusToBlank, high, low]
    rw [encoded, kept]
    exact percentDecode_percentByte b rest

theorem percentDecode_encodeBytes (bytes : Bytes) :
    percentDecode (Utf8.encode ((bytes.flatMap encodeByte).map plusToBlank)) = bytes := by
  induction bytes with
  | nil => rw [List.flatMap_nil, List.map_nil, Utf8.encode_nil, percentDecode]
  | cons b rest ih =>
    rw [List.flatMap_cons, List.map_append, Utf8.encode_append, percentDecode_encodeByte, ih]

theorem decodeText_encodeText (text : String) : decodeText (encodeText text) = text := by
  unfold decodeText encodeText
  rw [percentDecode_encodeBytes]
  unfold Utf8.bytesOf
  rw [Utf8.decodeLossy_encode, String.ofList_toList]

theorem encodeText_of_plain {text : String}
    (plain : ∀ c ∈ text.toList, c.toNat < 0x80 ∧ isPlain c = true) :
    encodeText text = text.toList := by
  unfold encodeText Utf8.bytesOf
  revert plain
  generalize text.toList = chars
  intro plain
  induction chars with
  | nil => rfl
  | cons c rest ih =>
    obtain ⟨ascii, stays⟩ := plain c (List.mem_cons_self ..)
    have byte : (UInt8.ofNat c.toNat).toNat = c.toNat := by
      rw [UInt8.toNat_ofNat']
      omega
    have small : UInt8.ofNat c.toNat < 0x80 := by
      rw [UInt8.lt_iff_toNat_lt, byte]
      exact ascii
    have kept : encodeByte (UInt8.ofNat c.toNat) = [c] := by
      unfold encodeByte
      simp [byte, small, Char.ofNat_toNat, stays]
    rw [Utf8.encode_cons, Utf8.encodeChar_of_ascii ascii, List.flatMap_append,
      List.flatMap_singleton, kept, ih fun d mem => plain d (List.mem_cons_of_mem _ mem)]
    rfl

/-! ### Pairs -/

theorem mem_encodeText {text : String} {c : Char} (mem : c ∈ encodeText text) :
    isPlain c ∨ c = '+' ∨ c = '%' ∨ c ∈ hexSigns := by
  obtain ⟨b, -, mem⟩ := List.mem_flatMap.1 mem
  rcases encodeByte_cases b with ⟨-, plain, encoded⟩ | ⟨-, encoded⟩ | encoded
  · rw [encoded, List.mem_singleton] at mem
    exact .inl (mem ▸ plain)
  · rw [encoded, List.mem_singleton] at mem
    exact .inr (.inl mem)
  · rw [encoded] at mem
    exact .inr (.inr (mem_percentByte mem))

theorem not_mem_encodeText {text : String} {c : Char} (sign : c ∈ ['&', '=', '#']) :
    c ∉ encodeText text := by
  have others : ∀ d ∈ ['&', '=', '#'], isPlain d = false ∧ d ≠ '+' ∧ d ≠ '%' ∧ d ∉ hexSigns :=
    Text.forall_of_all (by decide)
  obtain ⟨notPlain, noPlus, noPercent, noDigit⟩ := others c sign
  intro mem
  rcases mem_encodeText mem with plain | plus | percent | digit
  · rw [notPlain] at plain
    cases plain
  · exact noPlus plus
  · exact noPercent percent
  · exact noDigit digit

theorem decodePair_encodePair (pair : String × String) : decodePair (encodePair pair) = pair := by
  have free : '=' ∉ encodeText pair.1 := not_mem_encodeText (by decide)
  have plain := Text.forall_bne_of_not_mem free
  unfold decodePair encodePair
  rw [List.takeWhile_append_of_pos plain, List.dropWhile_append_of_pos plain]
  simp [decodeText_encodeText]

theorem not_mem_encodePair {pair : String × String} {c : Char} (sign : c ∈ ['&', '#']) :
    c ∉ encodePair pair := by
  have listed : ∀ d ∈ ['&', '#'], d ∈ ['&', '=', '#'] ∧ d ≠ '=' := Text.forall_of_all (by decide)
  obtain ⟨listed_c, other⟩ := listed c sign
  unfold encodePair
  rw [List.mem_append, List.mem_cons]
  exact not_or.2 ⟨not_mem_encodeText listed_c, not_or.2 ⟨other, not_mem_encodeText listed_c⟩⟩

theorem decode_encodePair (pair : String × String) : decode (encodePair pair) = [pair] := by
  have nonempty : (encodePair pair).isEmpty = false := by
    simp [encodePair]
  unfold decode
  rw [Text.splitAt_of_not_mem (not_mem_encodePair (by decide)), List.filter_cons, nonempty]
  exact congrArg (fun p => [p]) (decodePair_encodePair pair)

theorem decode_append (front rest : List Char) :
    decode (front ++ '&' :: rest) = decode front ++ decode rest := by
  unfold decode
  rw [Text.splitAt_append, List.filter_append, List.map_append]

/-- A pair that is added to a query is read behind all others. -/
theorem decode_addPair (query : List Char) (pair : String × String) :
    decode (addPair query pair) = decode query ++ [pair] := by
  unfold addPair
  cases query with
  | nil => exact decode_encodePair pair
  | cons c rest =>
    change decode ((c :: rest) ++ ['&'] ++ encodePair pair) = _
    rw [List.append_assoc, List.singleton_append, decode_append, decode_encodePair]

/-- Pairs are added behind the query, which stays as it is, and are read behind those before. -/
theorem foldl_addPair (query : List Char) (pairs : List (String × String)) :
    (∃ more, pairs.foldl addPair query = query ++ more) ∧
      decode (pairs.foldl addPair query) = decode query ++ pairs := by
  -- The query grows with each pair, so the induction is for all queries.
  induction pairs generalizing query with
  | nil => exact ⟨⟨[], (List.append_nil query).symm⟩, (List.append_nil _).symm⟩
  | cons pair rest ih =>
    obtain ⟨⟨more, grown⟩, read⟩ := ih (addPair query pair)
    rw [List.foldl_cons]
    constructor
    · refine ⟨(if query.isEmpty then [] else ['&']) ++ encodePair pair ++ more, ?_⟩
      rw [grown]
      simp [addPair]
    · rw [read, decode_addPair, List.append_assoc]
      rfl

theorem foldl_addPair_of_ne {query : List Char} (nonempty : query ≠ [])
    (pairs : List (String × String)) :
    pairs.foldl addPair query = query ++ pairs.flatMap fun pair => '&' :: encodePair pair := by
  induction pairs generalizing query with
  | nil => exact (List.append_nil query).symm
  | cons pair rest ih =>
    have grown : addPair query pair = query ++ '&' :: encodePair pair := by
      unfold addPair
      rw [if_neg (by simpa using nonempty), List.append_assoc]
      rfl
    rw [List.foldl_cons, grown, ih (by simp), List.flatMap_cons, List.append_assoc]

theorem foldl_addPair_nil (pairs : List (String × String)) :
    pairs.foldl addPair [] = List.intercalate ['&'] (pairs.map encodePair) := by
  cases pairs with
  | nil => rfl
  | cons pair rest =>
    have first : addPair [] pair = encodePair pair := rfl
    have nonempty : encodePair pair ≠ [] := by simp [encodePair]
    rw [List.foldl_cons, first, foldl_addPair_of_ne nonempty, List.map_cons,
      Text.intercalate_cons, List.flatMap_map]

theorem forall_mem_foldl_addPair {p : Char → Prop} {query : List Char} (before : ∀ c ∈ query, p c)
    (joint : p '&') (holds : ∀ pair, ∀ c ∈ encodePair pair, p c)
    (pairs : List (String × String)) : ∀ c ∈ pairs.foldl addPair query, p c := by
  induction pairs generalizing query with
  | nil => exact before
  | cons pair rest ih =>
    apply ih
    intro c mem
    unfold addPair at mem
    rcases List.mem_append.1 mem with front | added
    · rcases List.mem_append.1 front with old | sign
      · exact before c old
      · split at sign
        · cases sign
        · rw [List.mem_singleton.1 sign]
          exact joint
    · exact holds pair c added

theorem not_mem_foldl_addPair {query : List Char} (free : '#' ∉ query)
    (pairs : List (String × String)) : '#' ∉ pairs.foldl addPair query := by
  have others : ∀ c ∈ pairs.foldl addPair query, c ≠ '#' := by
    refine forall_mem_foldl_addPair ?_ (by decide) ?_ pairs
    · rintro c mem rfl
      exact free mem
    · rintro pair c mem rfl
      exact not_mem_encodePair (by decide) mem
  exact fun mem => others '#' mem rfl

end PetClient.Url.Form
