import PetClient.Json.Shape
import PetClient.Proofs.Json.Grammar
import PetClient.Proofs.Text.Basic
import PetClient.Proofs.Text.Number
import PetClient.Proofs.Text.Utf8

/-!
Reading what was written, for strings and whole numbers.  A value is read back wherever its text
stands, as long as something follows that cannot belong to it.
-/

namespace PetClient.Json

variable {α β : Type}

def bytes (json : Json) : Bytes :=
  Utf8.encode json.compactChars

/-- What may follow a value: nothing, a comma or a closing bracket. -/
def Ends (rest : Bytes) : Prop :=
  ∀ b ∈ rest.head?, b = 0x2C ∨ b = 0x5D ∨ b = 0x7D

theorem Ends.stops {rest : Bytes} (ends : Ends rest) : Stops rest :=
  fun b first => .inr (ends b first)

def Begins (bytes : Bytes) : Prop :=
  ∃ b rest, bytes = b :: rest ∧ isBlank b = false ∧ b ≠ 0x5D ∧ b ≠ 0x6E

structure Reads (read : Reader α) (json : Json) (value : α) : Prop where
  begins : Begins json.bytes
  reads : ∀ rest, Ends rest → read (json.bytes ++ rest) = .ok (value, rest)

/-- A reader takes a text for a value behind any blanks and in front of anything that may follow. -/
structure Takes (read : Reader α) (text : Bytes) (value : α) : Prop where
  starts : Starts text
  reads : ∀ blanks rest, Blank blanks → Stops rest →
    read (blanks ++ (text ++ rest)) = .ok (value, rest)

def Shape.Lawful (shape : Shape α) : Prop :=
  ∀ value, Reads shape.read (shape.write value) value

theorem skipBlanks_cons {b : UInt8} {rest : Bytes} (visible : isBlank b = false) :
    skipBlanks (b :: rest) = b :: rest :=
  List.dropWhile_cons_of_neg (by simp [visible])

theorem skipBlanks_append {blanks : Bytes} (blank : Blank blanks) {b : UInt8}
    (visible : isBlank b = false) (rest : Bytes) :
    skipBlanks (blanks ++ b :: rest) = b :: rest := by
  unfold skipBlanks
  rw [List.dropWhile_append_of_pos blank]
  exact skipBlanks_cons visible

theorem Takes.compact {read : Reader α} {json : Json} {value : α}
    (takes : Takes read json.bytes value) (begins : Begins json.bytes) : Reads read json value :=
  ⟨begins, fun rest ends => takes.reads [] rest nofun ends.stops⟩

theorem Takes.map {read : Reader α} {text : Bytes} {value : α} (takes : Takes read text value)
    (f : α → β) :
    Takes (fun bytes => (read bytes).map fun (value, rest) => (f value, rest)) text (f value) := by
  refine ⟨takes.starts, fun blanks rest blank stops => ?_⟩
  dsimp only
  rw [takes.reads blanks rest blank stops]
  rfl

/-! ### Strings -/

theorem isPlain_iff {b : UInt8} :
    isPlain b ↔ b.toNat ≠ 0x22 ∧ b.toNat ≠ 0x5C ∧ 0x20 ≤ b.toNat := by
  simp only [isPlain, Bool.and_eq_true, bne_iff_ne, ne_eq, decide_eq_true_eq, UInt8.le_iff_toNat_le,
    ← UInt8.toNat_inj, and_assoc]
  rfl

theorem isPlain_of_mem_encodeChar {c : Char} (visible : 0x20 ≤ c.toNat) (noQuote : c ≠ '"')
    (noBackslash : c ≠ '\\') {b : UInt8} (mem : b ∈ String.utf8EncodeChar c) :
    isPlain b := by
  rw [isPlain_iff]
  by_cases ascii : c.toNat < 0x80
  · rw [Utf8.encodeChar_of_ascii ascii, List.mem_singleton] at mem
    have value : b.toNat = c.toNat := by
      rw [mem, UInt8.toNat_ofNat']
      omega
    have quote : c.toNat ≠ 0x22 := fun same => noQuote (Char.toNat_inj.1 same)
    have backslash : c.toNat ≠ 0x5C := fun same => noBackslash (Char.toNat_inj.1 same)
    omega
  · have wide := Utf8.le_toNat_of_mem_encodeChar (by omega) mem
    omega

theorem shortEscape_listed {b : UInt8} {c : Char} (listed : (b, c) ∈ escapeLetters) :
    shortEscape? b = some c := by
  have all : ∀ letter ∈ escapeLetters, shortEscape? letter.1 = some letter.2 := by decide
  exact all (b, c) listed

theorem readEscape_letter {b : UInt8} {c : Char} (listed : (b, c) ∈ escapeLetters)
    (rest : Bytes) : readEscape (b :: rest) = .ok (c, rest) := by
  unfold readEscape
  simp only [shortEscape_listed listed]

theorem readUnit_append {digits : Bytes} {unit : Nat} (written : IsUnit digits unit)
    (rest : Bytes) : readUnit (digits ++ rest) = .ok (unit, rest) := by
  obtain ⟨a, b, c, d, i, j, k, l, rfl, first, second, third, fourth, rfl⟩ := written
  change readUnit (a :: b :: c :: d :: rest) = _
  unfold readUnit
  simp only [first, second, third, fourth]

theorem readEscape_unit {c : Char} {digits : Bytes} (written : IsUnit digits c.toNat)
    (rest : Bytes) : readEscape (0x75 :: (digits ++ rest)) = .ok (c, rest) := by
  have scalar : c.toNat < 0xD800 ∨ 0xDFFF < c.toNat ∧ c.toNat < 0x110000 := c.valid
  have notLow : isLowSurrogate c.toNat = false := by
    simp only [isLowSurrogate, Bool.and_eq_false_iff, decide_eq_false_iff_not]
    omega
  have notHigh : isHighSurrogate c.toNat = false := by
    simp only [isHighSurrogate, Bool.and_eq_false_iff, decide_eq_false_iff_not]
    omega
  change readNumericEscape (digits ++ rest) = _
  unfold readNumericEscape
  simp only [readUnit_append written, bind, Except.bind, notLow, notHigh, Bool.false_eq_true,
    ↓reduceIte, Char.ofNat_toNat]
  rfl

theorem readEscape_pair {c : Char} {first second : Bytes} {high low : Nat}
    (written : IsUnit first high) (written' : IsUnit second low)
    (isHigh : isHighSurrogate high = true) (isLow : isLowSurrogate low = true)
    (value : c.toNat = (high - 0xD800) * 0x400 + (low - 0xDC00) + 0x10000) (rest : Bytes) :
    readEscape (0x75 :: (first ++ 0x5C :: 0x75 :: (second ++ rest))) = .ok (c, rest) := by
  have notLow : isLowSurrogate high = false := by
    simp only [isHighSurrogate, Bool.and_eq_true, decide_eq_true_eq] at isHigh
    simp only [isLowSurrogate, Bool.and_eq_false_iff, decide_eq_false_iff_not]
    omega
  change readNumericEscape _ = _
  unfold readNumericEscape
  simp only [readUnit_append written, readUnit_append written', bind, Except.bind, notLow, isHigh,
    isLow, Bool.false_eq_true, ↓reduceIte, ← value, Char.ofNat_toNat]
  rfl

/-- A character between quotes is its own bytes, which stand for themselves, or an escape. -/
theorem WritesChar.cases {c : Char} {piece : Bytes} (writes : WritesChar c piece) :
    (piece = String.utf8EncodeChar c ∧ ∀ b ∈ String.utf8EncodeChar c, isPlain b) ∨
      ∃ letters, piece = 0x5C :: letters ∧
        ∀ rest, readEscape (letters ++ rest) = .ok (c, rest) := by
  cases writes with
  | plain visible noQuote noBackslash =>
    exact .inl ⟨rfl, fun _ => isPlain_of_mem_encodeChar visible noQuote noBackslash⟩
  | @letter b listed => exact .inr ⟨[b], rfl, fun rest => readEscape_letter listed rest⟩
  | unit written => exact .inr ⟨_, rfl, fun rest => readEscape_unit written rest⟩
  | pair written written' isHigh isLow value =>
    refine .inr ⟨_, rfl, fun rest => ?_⟩
    rw [List.cons_append, List.append_assoc]
    exact readEscape_pair written written' isHigh isLow value rest

theorem span_isPlain {text : List Char} (plain : ∀ b ∈ Utf8.encode text, isPlain b) {b : UInt8}
    (stop : isPlain b = false) (rest : Bytes) :
    (Utf8.encode text ++ b :: rest).takeWhile isPlain = Utf8.encode text ∧
      (Utf8.encode text ++ b :: rest).dropWhile isPlain = b :: rest := by
  have ends : ∀ c ∈ (b :: rest).head?, isPlain c = false := by
    rintro c ⟨⟩
    exact stop
  exact ⟨Text.takeWhile_append_of_ends plain ends, Text.dropWhile_append_of_ends plain ends⟩

theorem readPlain_encode (text : List Char) (rest : Bytes) :
    readPlain (Utf8.encode text) rest = .ok text := by
  unfold readPlain
  rw [Utf8.decodeStart_encode]

/-- A string is read behind plain text that has not been looked at yet. -/
theorem readStringTail_written {text : List Char} {written : Bytes}
    (writes : WritesText text written) (plain : List Char) (budget rest : Bytes)
    (isPlain_plain : ∀ b ∈ Utf8.encode plain, isPlain b) (enough : written.length < budget.length) :
    readStringTail budget (Utf8.encode plain ++ (written ++ 0x22 :: rest)) =
      .ok (plain ++ text, rest) := by
  -- Only an escape or the closing quote ends a stretch of plain text, so a plain character joins
  -- the text in front and takes nothing off the budget.
  induction writes generalizing plain budget with
  | nil =>
    cases budget with
    | nil => cases enough
    | cons _ budget =>
      obtain ⟨front, back⟩ := span_isPlain isPlain_plain (show isPlain 0x22 = false from rfl) rest
      unfold readStringTail
      simp only [List.nil_append, front, back, ↓reduceIte, readPlain_encode, List.append_nil]
      rfl
  | @cons c text piece written char writes ih =>
    rw [List.length_append] at enough
    rw [List.append_assoc]
    rcases char.cases with ⟨rfl, isPlain_c⟩ | ⟨letters, rfl, read⟩
    · have isPlain_longer : ∀ b ∈ Utf8.encode (plain ++ [c]), isPlain b := by
        simpa [or_imp, forall_and] using ⟨isPlain_plain, isPlain_c⟩
      have longer := ih (plain ++ [c]) budget isPlain_longer (by omega)
      simpa using longer
    · cases budget with
      | nil => cases enough
      | cons _ budget =>
        rw [List.length_cons, List.length_cons] at enough
        have tail := ih [] budget (by simp) (by omega)
        obtain ⟨front, back⟩ := span_isPlain isPlain_plain (show isPlain 0x5C = false from rfl)
          (letters ++ (written ++ 0x22 :: rest))
        have noQuote : ¬(0x5C : UInt8) = 0x22 := by decide
        rw [List.cons_append]
        unfold readStringTail
        simp only [front, back, noQuote, ↓reduceIte, readPlain_encode]
        change (readEscape (letters ++ _) >>= fun p => readStringTail budget p.2 >>=
          fun q => pure (plain ++ p.1 :: q.1, q.2)) = _
        rw [read]
        change (readStringTail budget _ >>= fun q => pure (plain ++ c :: q.1, q.2)) = _
        rw [Utf8.encode_nil, List.nil_append, List.nil_append] at tail
        rw [tail]
        rfl

theorem readString_written {text : List Char} {written : Bytes} (writes : WritesText text written)
    (rest : Bytes) : readString (written ++ 0x22 :: rest) = .ok (String.ofList text, rest) := by
  have enough : written.length < (written ++ 0x22 :: rest).length := by
    rw [List.length_append, List.length_cons]
    omega
  have tail := readStringTail_written writes [] _ rest (by simp) enough
  rw [Utf8.encode_nil, List.nil_append, List.nil_append] at tail
  unfold readString
  rw [tail]
  rfl

theorem isUnit_hexPair {n : Nat} (control : n < 0x20) :
    IsUnit (Utf8.encode (['0', '0'] ++ hexPair n)) n := by
  interval_cases n <;> exact ⟨_, _, _, _, _, _, _, _, rfl, rfl, rfl, rfl, rfl, rfl⟩

theorem writesChar_escapeChar (c : Char) : WritesChar c (Utf8.encode (escapeChar c)) := by
  unfold escapeChar
  split
  · exact .letter (b := 0x22) (by subst c; decide)
  split
  · exact .letter (b := 0x5C) (by subst c; decide)
  split
  · exact .letter (b := 0x62) (by subst c; decide)
  split
  · exact .letter (b := 0x66) (by subst c; decide)
  split
  · exact .letter (b := 0x6E) (by subst c; decide)
  split
  · exact .letter (b := 0x72) (by subst c; decide)
  split
  · exact .letter (b := 0x74) (by subst c; decide)
  split
  · rename_i control
    exact .unit (isUnit_hexPair control)
  · rename_i noQuote noBackslash _ _ _ _ _ visible
    rw [Utf8.encode_cons, Utf8.encode_nil, List.append_nil]
    exact .plain (by omega) noQuote noBackslash

theorem writesText_escaped (text : List Char) :
    WritesText text (Utf8.encode (text.flatMap escapeChar)) := by
  induction text with
  | nil => exact .nil
  | cons c text ih =>
    rw [List.flatMap_cons, Utf8.encode_append]
    exact .cons (writesChar_escapeChar c) ih

theorem readString_escaped (text : List Char) (rest : Bytes) :
    readString (Utf8.encode (text.flatMap escapeChar) ++ 0x22 :: rest) =
      .ok (String.ofList text, rest) :=
  readString_written (writesText_escaped text) rest

theorem encode_quoted (text : List Char) :
    Utf8.encode (quoted text) = 0x22 :: (Utf8.encode (text.flatMap escapeChar) ++ [0x22]) := by
  unfold quoted
  rw [Utf8.encode_cons, Utf8.encode_append]
  rfl

def WritesString (s : String) (text : Bytes) : Prop :=
  ∃ written, WritesText s.toList written ∧ text = 0x22 :: (written ++ [0x22])

theorem readText_written {s : String} {text : Bytes} (writes : WritesString s text)
    {blanks : Bytes} (blank : Blank blanks) (rest : Bytes) :
    readText (blanks ++ (text ++ rest)) = .ok (s, rest) := by
  obtain ⟨written, writes, rfl⟩ := writes
  have string := readString_written writes rest
  rw [String.ofList_toList] at string
  rw [List.cons_append, List.append_assoc, List.singleton_append]
  unfold readText
  rw [skipBlanks_append blank rfl]
  exact string

theorem WritesString.starts {s : String} {text : Bytes} (writes : WritesString s text) :
    Starts text := by
  obtain ⟨written, -, rfl⟩ := writes
  exact ⟨0x22, _, rfl, by decide⟩

theorem takes_text {s : String} {text : Bytes} (writes : WritesString s text) :
    Takes readText text s :=
  ⟨writes.starts, fun _ rest blank _ => readText_written writes blank rest⟩

theorem writesString_quoted (s : String) : WritesString s (Utf8.encode (quoted s.toList)) :=
  ⟨_, writesText_escaped s.toList, encode_quoted s.toList⟩

theorem begins_string (s : String) : Begins (Json.string s).bytes :=
  ⟨0x22, _, encode_quoted s.toList, rfl, by decide, by decide⟩

theorem text_lawful : text.Lawful := fun s =>
  (takes_text (writesString_quoted s)).compact (begins_string s)

/-! ### Whole numbers -/

theorem intChars_natCast (m : Nat) : intChars m = Nat.toDigits 10 m := by
  unfold intChars
  rw [Int.toString_eq_repr, Int.repr_eq_if, if_pos (Int.natCast_nonneg m), Int.toNat_natCast]
  exact Nat.toList_repr

theorem intChars_neg {m : Nat} (positive : 0 < m) :
    intChars (-m) = '-' :: Nat.toDigits 10 m := by
  unfold intChars
  rw [Int.toString_eq_repr, Int.repr_eq_if, if_neg (by omega), Int.neg_neg, Int.toNat_natCast,
    String.toList_append, Nat.toList_repr]
  rfl

theorem toDigits_cases (m : Nat) :
    Nat.toDigits 10 m = ['0'] ∨ ∃ d digits, Nat.toDigits 10 m = d :: digits ∧ d ≠ '0' := by
  by_cases zero : m = 0
  · exact .inl (by rw [zero]; rfl)
  · have first : (Nat.toDigits 10 m).head? ≠ some '0' :=
      Text.head?_toDigits (by decide) (by decide) zero
    obtain ⟨d, digits, starts⟩ := List.exists_cons_of_ne_nil (Nat.toDigits_ne_nil (b := 10) (n := m))
    rw [starts] at first
    exact .inr ⟨d, digits, starts, fun same => first (congrArg some same)⟩

def digitOf (c : Char) : Nat :=
  c.toNat - '0'.toNat

theorem encodeChar_digit {c : Char} (digit : c.isDigit) :
    ∃ b, String.utf8EncodeChar c = [b] ∧ isDigit b ∧ digitValue b = digitOf c ∧
      (b = 0x30 → c = '0') := by
  refine ⟨UInt8.ofNat c.toNat, Text.forall_digit (q := fun c =>
    String.utf8EncodeChar c = [UInt8.ofNat c.toNat] ∧ isDigit (UInt8.ofNat c.toNat) ∧
      digitValue (UInt8.ofNat c.toNat) = digitOf c ∧ (UInt8.ofNat c.toNat = 0x30 → c = '0'))
    (by decide) digit⟩

theorem encode_digits {digits : List Char} (areDigits : ∀ c ∈ digits, c.isDigit) :
    (∀ b ∈ Utf8.encode digits, isDigit b) ∧
      (Utf8.encode digits).map digitValue = digits.map digitOf := by
  induction digits with
  | nil => simp
  | cons c digits ih =>
    obtain ⟨b, encoded, isDigit_b, value, -⟩ := encodeChar_digit (areDigits c (by simp))
    obtain ⟨isDigit_rest, values⟩ := ih fun d mem => areDigits d (List.mem_cons_of_mem _ mem)
    rw [Utf8.encode_cons, encoded]
    simpa [values, value, isDigit_b] using isDigit_rest

theorem natOfDigits_toDigits (m : Nat) :
    Decimal.natOfDigits ((Nat.toDigits 10 m).map digitOf) = m := by
  unfold Decimal.natOfDigits
  rw [List.foldl_map]
  exact Text.foldl_toDigits m

theorem Stops.cases {rest : Bytes} (stops : Stops rest) :
    rest = [] ∨ ∃ b tail, rest = b :: tail ∧
      b ∈ ([0x20, 0x0A, 0x0D, 0x09, 0x2C, 0x5D, 0x7D] : List UInt8) := by
  cases rest with
  | nil => exact .inl rfl
  | cons b tail =>
    refine .inr ⟨b, tail, rfl, ?_⟩
    rcases stops b rfl with blank | rfl | rfl | rfl
    · simp only [isBlank, Bool.or_eq_true, decide_eq_true_eq] at blank
      simp only [List.mem_cons]
      tauto
    · decide
    · decide
    · decide

theorem Stops.noDigit {rest : Bytes} (stops : Stops rest) : startsWithDigit rest = false := by
  rcases stops.cases with rfl | ⟨b, tail, rfl, listed⟩
  · rfl
  · fin_cases listed <;> rfl

theorem Stops.noFraction {rest : Bytes} (stops : Stops rest) (atEnd : Problem) :
    readFraction atEnd rest = .ok ([], rest) := by
  rcases stops.cases with rfl | ⟨b, tail, rfl, listed⟩
  · rfl
  · fin_cases listed <;> rfl

theorem Stops.noPower {rest : Bytes} (stops : Stops rest) (atEnd : Problem) :
    readPower atEnd rest = .ok (none, rest) := by
  rcases stops.cases with rfl | ⟨b, tail, rfl, listed⟩
  · rfl
  · fin_cases listed <;> rfl

theorem spanDigits_append {digits : Bytes} (areDigits : AreDigits digits) {rest : Bytes}
    (noDigit : startsWithDigit rest = false) :
    spanDigits (digits ++ rest) = (digits.map digitValue, rest) := by
  have ends : ∀ b ∈ rest.head?, isDigit b = false := by
    intro b first
    obtain ⟨others, rfl⟩ := List.head?_eq_some_iff.1 first
    exact noDigit
  unfold spanDigits
  rw [Text.takeWhile_append_of_ends areDigits ends, Text.dropWhile_append_of_ends areDigits ends]

theorem readWhole_append {whole : Bytes} (isWhole : IsWhole whole) (atEnd : Problem) {rest : Bytes}
    (noDigit : startsWithDigit rest = false) :
    readWhole atEnd (whole ++ rest) = .ok (whole.map digitValue, rest) := by
  cases isWhole with
  | zero =>
    change (if startsWithDigit rest then faultAt .numberInvalid rest else .ok ([0], rest)) = _
    rw [noDigit]
    rfl
  | @digits b digits digit nonzero areDigits =>
    have span := spanDigits_append (List.forall_mem_cons.2 ⟨digit, areDigits⟩) noDigit
    rw [List.cons_append] at span ⊢
    unfold readWhole
    simp only [nonzero, digit, ↓reduceIte, span]

theorem isWhole_toDigits (m : Nat) : IsWhole (Utf8.encode (Nat.toDigits 10 m)) := by
  have areDigits : ∀ c ∈ Nat.toDigits 10 m, c.isDigit := fun _ => Text.isDigit_of_mem_toDigits
  rcases toDigits_cases m with zero | ⟨d, digits, starts, nonzero⟩
  · rw [zero]
    exact .zero
  · rw [starts] at areDigits ⊢
    obtain ⟨areDigits_d, areDigits_rest⟩ := List.forall_mem_cons.1 areDigits
    obtain ⟨b, encoded, isDigit_b, -, onlyZero⟩ := encodeChar_digit areDigits_d
    rw [Utf8.encode_cons, encoded]
    exact .digits isDigit_b (mt onlyZero nonzero) (encode_digits areDigits_rest).1

theorem readLiteral_toDigits (atEnd : Problem) (negative : Bool) (m : Nat) {rest : Bytes}
    (stops : Stops rest) :
    readLiteral atEnd negative (Utf8.encode (Nat.toDigits 10 m) ++ rest) =
      .ok (⟨negative, (Nat.toDigits 10 m).map digitOf, [], none⟩, rest) := by
  have values := (encode_digits fun _ => Text.isDigit_of_mem_toDigits (n := m)).2
  unfold readLiteral
  rw [readWhole_append (isWhole_toDigits m) atEnd stops.noDigit, values]
  change (readFraction atEnd rest >>= _) = _
  rw [stops.noFraction]
  change (readPower atEnd rest >>= _) = _
  rw [stops.noPower]
  rfl

end PetClient.Json

namespace PetClient.Decimal

theorem le_foldl_digits (n : Nat) (digits : List Nat) :
    n ≤ digits.foldl (fun n d => n * 10 + d) n := by
  induction digits generalizing n with
  | nil => exact Nat.le_refl n
  | cons d digits ih => exact Nat.le_trans (by omega) (ih (n * 10 + d))

theorem absorb_of_lt {bound n : Nat} {digits : List Nat}
    (fits : digits.foldl (fun n d => n * 10 + d) n < bound) :
    absorb bound n digits = (digits.foldl (fun n d => n * 10 + d) n, digits.length) := by
  induction digits generalizing n with
  | nil => rfl
  | cons d digits ih =>
    have next_fits : n * 10 + d < bound :=
      Nat.lt_of_le_of_lt (le_foldl_digits (n * 10 + d) digits) fits
    simp only [absorb, next_fits, ↓reduceIte, List.foldl_cons, List.length_cons]
    rw [ih fits]

theorem toNumber_whole {digits : List Nat} (fits : natOfDigits digits < Literal.wordBound) :
    Literal.toNumber ⟨false, digits, [], none⟩ = some (.integer (natOfDigits digits)) := by
  unfold Literal.toNumber
  rw [absorb_of_lt fits]
  simp [natOfDigits]

theorem toNumber_negative {digits : List Nat} (positive : 0 < natOfDigits digits)
    (fits : natOfDigits digits ≤ 2 ^ 63) :
    Literal.toNumber ⟨true, digits, [], none⟩ = some (.integer (-natOfDigits digits)) := by
  have below : natOfDigits digits < Literal.wordBound := Nat.lt_of_le_of_lt fits (by decide)
  have small : natOfDigits digits ≤ 9223372036854775808 := fits
  unfold Literal.toNumber
  rw [absorb_of_lt below]
  unfold natOfDigits at positive small ⊢
  simp [positive, small]

end PetClient.Decimal

namespace PetClient.Json

theorem readNumber_toDigits {m : Nat} (fits : m < 2 ^ 64) {rest : Bytes} (stops : Stops rest) :
    readNumber false (Utf8.encode (Nat.toDigits 10 m) ++ rest) = .ok (.integer m, rest) := by
  have small :
      Decimal.natOfDigits ((Nat.toDigits 10 m).map digitOf) < Decimal.Literal.wordBound := by
    rw [natOfDigits_toDigits]
    exact fits
  unfold readNumber
  rw [readLiteral_toDigits .valueEnds false m stops]
  simp only [bind, Except.bind, Decimal.toNumber_whole small, natOfDigits_toDigits]
  rfl

theorem readNumber_negative {m : Nat} (positive : 0 < m) (fits : m ≤ 2 ^ 63) {rest : Bytes}
    (stops : Stops rest) :
    readNumber true (Utf8.encode (Nat.toDigits 10 m) ++ rest) = .ok (.integer (-m), rest) := by
  have value := natOfDigits_toDigits m
  rw [← value] at positive fits
  unfold readNumber
  rw [readLiteral_toDigits .valueEnds true m stops]
  simp only [bind, Except.bind, Decimal.toNumber_negative positive fits, value]
  rfl

theorem encode_toDigits (m : Nat) :
    ∃ b rest, Utf8.encode (Nat.toDigits 10 m) = b :: rest ∧ isDigit b := by
  have isDigit_bytes := (encode_digits fun _ => Text.isDigit_of_mem_toDigits (n := m)).1
  cases bytes : Utf8.encode (Nat.toDigits 10 m) with
  | nil =>
    have longer := Utf8.length_le_length_encode (Nat.toDigits 10 m)
    have nonempty := Nat.length_toDigits_pos (b := 10) (n := m)
    rw [bytes, List.length_nil] at longer
    omega
  | cons b rest => exact ⟨b, rest, rfl, isDigit_bytes b (by rw [bytes]; simp)⟩

theorem visible_of_isDigit {b : UInt8} (digit : isDigit b) :
    isBlank b = false ∧ b ≠ 0x5D ∧ b ≠ 0x6E ∧ b ≠ 0x2D :=
  of_isDigit digit (by decide)

theorem encode_intChars (n : Int) :
    (∃ m : Nat, n = m ∧ Utf8.encode (intChars n) = Utf8.encode (Nat.toDigits 10 m)) ∨
      ∃ m : Nat, n = -m ∧ 0 < m ∧
        Utf8.encode (intChars n) = 0x2D :: Utf8.encode (Nat.toDigits 10 m) := by
  by_cases sign : 0 ≤ n
  · obtain ⟨m, rfl⟩ := Int.eq_ofNat_of_zero_le sign
    exact .inl ⟨m, rfl, congrArg Utf8.encode (intChars_natCast m)⟩
  · obtain ⟨m, rfl⟩ : ∃ m : Nat, n = -m := ⟨n.natAbs, by omega⟩
    exact .inr ⟨m, rfl, by omega, congrArg Utf8.encode (intChars_neg (m := m) (by omega))⟩

theorem takes_integer {range : Range} {n : Int} (holds : range.Holds n) (least : -2 ^ 63 ≤ n)
    (greatest : n < 2 ^ 64) : Takes range.read (Utf8.encode (intChars n)) n := by
  rcases encode_intChars n with ⟨m, rfl, written⟩ | ⟨m, rfl, positive, written⟩
  · obtain ⟨b, tail, starts, digit⟩ := encode_toDigits m
    obtain ⟨visible, -, -, noSign⟩ := visible_of_isDigit digit
    rw [written]
    refine ⟨starts ▸ starts_of_isDigit digit tail, fun blanks rest blank stops => ?_⟩
    have number := readNumber_toDigits (m := m) (by omega) stops
    rw [starts, List.cons_append] at number ⊢
    unfold Range.read
    rw [skipBlanks_append blank visible]
    simp only [noSign, digit, ↓reduceIte, number]
    exact if_pos holds
  · rw [written]
    refine ⟨⟨0x2D, _, rfl, by decide⟩, fun blanks rest blank stops => ?_⟩
    have number := readNumber_negative positive (by omega) stops
    rw [List.cons_append]
    unfold Range.read
    rw [skipBlanks_append blank rfl]
    simp only [↓reduceIte, number]
    exact if_pos holds

theorem begins_integer (n : Int) : Begins (integer n).bytes := by
  rcases encode_intChars n with ⟨m, rfl, written⟩ | ⟨m, rfl, -, written⟩
  · obtain ⟨b, tail, starts, digit⟩ := encode_toDigits m
    obtain ⟨visible, noBracket, noNull, -⟩ := visible_of_isDigit digit
    exact ⟨b, tail, written.trans starts, visible, noBracket, noNull⟩
  · exact ⟨0x2D, _, written, rfl, by decide, by decide⟩

theorem Takes.via {range : Range} {n : Int} {text : Bytes} (takes : Takes range.read text n)
    (ofInt : Int → α) : Takes (readVia range ofInt) text (ofInt n) :=
  takes.map ofInt

def WritesInteger (n : Int) (text : Bytes) : Prop :=
  text = Utf8.encode (intChars n)

theorem takes_int64 {n : Int64} {text : Bytes} (writes : WritesInteger n.toInt text) :
    Takes int64.read text n := by
  have least := n.le_toInt
  have greatest := n.toInt_lt
  have holds : Range.int64.Holds n.toInt := ⟨least, Int.le_sub_one_of_lt greatest⟩
  have via := (takes_integer holds least (by omega)).via Int64.ofInt
  rwa [Int64.ofInt_toInt, ← writes] at via

theorem takes_word32 {n : UInt32} {text : Bytes} (writes : WritesInteger n.toNat text) :
    Takes word32.read text n := by
  have greatest : (n.toNat : Int) < 2 ^ 32 := by exact_mod_cast n.toNat_lt
  have holds : Range.word32.Holds n.toNat :=
    ⟨Int.natCast_nonneg _, Int.le_sub_one_of_lt greatest⟩
  have via := (takes_integer holds (by omega) (by omega)).via fun n => UInt32.ofNat n.toNat
  rwa [Int.toNat_natCast, UInt32.ofNat_toNat, ← writes] at via

theorem takes_word64 {n : UInt64} {text : Bytes} (writes : WritesInteger n.toNat text) :
    Takes word64.read text n := by
  have greatest : (n.toNat : Int) < 2 ^ 64 := by exact_mod_cast n.toNat_lt
  have holds : Range.word64.Holds n.toNat :=
    ⟨Int.natCast_nonneg _, Int.le_sub_one_of_lt greatest⟩
  have via := (takes_integer holds (by omega) greatest).via fun n => UInt64.ofNat n.toNat
  rwa [Int.toNat_natCast, UInt64.ofNat_toNat, ← writes] at via

theorem int64_lawful : int64.Lawful := fun n =>
  (takes_int64 rfl).compact (begins_integer n.toInt)

theorem word32_lawful : word32.Lawful := fun n =>
  (takes_word32 rfl).compact (begins_integer n.toNat)

theorem word64_lawful : word64.Lawful := fun n =>
  (takes_word64 rfl).compact (begins_integer n.toNat)

end PetClient.Json
