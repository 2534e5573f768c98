import PetClient.Json.Record
import PetClient.Proofs.Json.Skip
import PetClient.Proofs.Result

/-!
How far values reach.  What a reader takes is what is passed over as one value, whatever it is read
for.
-/

namespace PetClient.Json

open Result (bind_eq_ok map_eq_ok)

variable {α δ : Type}

def PassesOver (read : Reader α) : Prop :=
  ∀ bytes value rest, read bytes = .ok (value, rest) → ∃ n, PassesIn n bytes rest

theorem refuse_ne_ok {wanted : String} {bytes : Bytes} {value : α} :
    refuse wanted bytes ≠ .ok value := by
  intro ok
  unfold refuse at ok
  split at ok
  · cases ok
  -- A value of another kind is read at most, and then it is refused.
  · repeat' split at ok
    all_goals first
      | cases ok
      | obtain ⟨taken, -, fault⟩ := bind_eq_ok.1 ok
        cases fault

/-! ### Strings -/

theorem IsString.behind {plain bytes : Bytes} (isPlain_plain : ∀ b ∈ plain, isPlain b = true)
    (isString : IsString bytes) : IsString (plain ++ bytes) := by
  induction plain with
  | nil => exact isString
  | cons b plain ih =>
    obtain ⟨itself, others⟩ := List.forall_mem_cons.1 isPlain_plain
    exact .plain itself (ih others)

theorem WritesText.isString {text : List Char} {written : Bytes}
    (writes : WritesText text written) : IsString (written ++ [0x22]) := by
  induction writes with
  | nil => exact .close
  | cons char _ ih =>
    rw [List.append_assoc]
    cases char with
    | plain visible noQuote noBackslash =>
      exact .behind (fun _ => isPlain_of_mem_encodeChar visible noQuote noBackslash) ih
    | letter listed => exact .letter listed ih
    | unit written => exact .unit written ih
    | pair written written' =>
      rw [List.cons_append, List.cons_append, List.append_assoc]
      exact .unit written (.unit written' ih)

theorem listed_of_shortEscape {b : UInt8} {c : Char} (short : shortEscape? b = some c) :
    (b, c) ∈ escapeLetters := by
  unfold shortEscape? at short
  repeat' split at short
  all_goals first | cases short; subst b; decide | cases short

theorem isUnit_of_readUnit {bytes rest : Bytes} {unit : Nat}
    (read : readUnit bytes = .ok (unit, rest)) :
    ∃ digits, IsUnit digits unit ∧ bytes = digits ++ rest := by
  unfold readUnit at read
  split at read
  · rename_i a b c d rest
    split at read
    · rename_i first second third fourth
      cases read
      exact ⟨[a, b, c, d], ⟨a, b, c, d, _, _, _, _, rfl, first, second, third, fourth, rfl⟩, rfl⟩
    · cases read
  · cases read

theorem bounds_of_hexValue {b : UInt8} {n : Nat} (value : hexValue? b = some n) :
    n < 16 ∧ (48 ≤ b.toNat ∧ b.toNat ≤ 57 ∨ 97 ≤ b.toNat ∧ b.toNat ≤ 102 ∨
      65 ≤ b.toNat ∧ b.toNat ≤ 70) := by
  have upTo {c d : Char} (bound : c ≤ d) : c.toNat ≤ d.toNat := UInt32.le_iff_toNat_le.1 bound
  have digits : '9'.toNat = 57 ∧ '0'.toNat = 48 := ⟨rfl, rfl⟩
  have small : 'f'.toNat = 102 ∧ 'a'.toNat = 97 := ⟨rfl, rfl⟩
  have capital : 'F'.toNat = 70 ∧ 'A'.toNat = 65 := ⟨rfl, rfl⟩
  have byte : b.toNat < 256 := b.toNat_lt
  have number : (Char.ofNat b.toNat).toNat = b.toNat := by
    rw [Char.toNat_ofNat, if_pos (.inl (by omega))]
  unfold hexValue? Text.hexDigit? at value
  simp only [Bool.and_eq_true, decide_eq_true_eq] at value
  split at value
  · rename_i bounds
    have least := upTo bounds.1
    have greatest := upTo bounds.2
    cases value
    omega
  split at value
  · rename_i bounds
    have least := upTo bounds.1
    have greatest := upTo bounds.2
    cases value
    omega
  split at value
  · rename_i bounds
    have least := upTo bounds.1
    have greatest := upTo bounds.2
    cases value
    omega
  · cases value

theorem IsUnit.lt {digits : Bytes} {unit : Nat} (written : IsUnit digits unit) :
    unit < 0x10000 := by
  obtain ⟨a, b, c, d, i, j, k, l, -, first, second, third, fourth, rfl⟩ := written
  have first := (bounds_of_hexValue first).1
  have second := (bounds_of_hexValue second).1
  have third := (bounds_of_hexValue third).1
  have fourth := (bounds_of_hexValue fourth).1
  omega

/-- A numeric escape that is read is a way to write the character that it is read as. -/
theorem writesChar_of_readNumericEscape {bytes rest : Bytes} {c : Char}
    (read : readNumericEscape bytes = .ok (c, rest)) :
    ∃ letters, bytes = letters ++ rest ∧ WritesChar c (0x5C :: 0x75 :: letters) := by
  unfold readNumericEscape at read
  obtain ⟨⟨unit, behind⟩, first, later⟩ := bind_eq_ok.1 read
  obtain ⟨digits, written, rfl⟩ := isUnit_of_readUnit first
  have small := written.lt
  dsimp only at later
  split at later
  · cases later
  split at later
  · rename_i isHigh
    split at later
    · cases later
    · cases later
    · rename_i second
      obtain ⟨⟨low, behind'⟩, second, last⟩ := bind_eq_ok.1 later
      obtain ⟨digits', written', rfl⟩ := isUnit_of_readUnit second
      dsimp only at last
      split at last
      · rename_i isLow
        obtain ⟨same, rfl⟩ := Prod.mk.inj (Except.ok.inj last)
        refine ⟨digits ++ 0x5C :: 0x75 :: digits', by simp, .pair written written' isHigh isLow ?_⟩
        simp only [isHighSurrogate, isLowSurrogate, Bool.and_eq_true, decide_eq_true_eq]
          at isHigh isLow
        rw [← same, Char.toNat_ofNat, if_pos (.inr (by omega))]
      · cases last
    · cases later
    · cases later
  · rename_i noLow noHigh
    cases later
    refine ⟨digits, rfl, .unit ?_⟩
    simp only [isHighSurrogate, isLowSurrogate, Bool.and_eq_true, decide_eq_true_eq]
      at noHigh noLow
    rwa [Char.toNat_ofNat, if_pos (by unfold Nat.isValidChar; omega)]

theorem writesChar_of_readEscape {bytes rest : Bytes} {c : Char}
    (read : readEscape bytes = .ok (c, rest)) :
    ∃ letters, bytes = letters ++ rest ∧ WritesChar c (0x5C :: letters) := by
  unfold readEscape at read
  split at read
  · cases read
  · rename_i b rest'
    split at read
    · rename_i short
      cases read
      exact ⟨[b], rfl, .letter (listed_of_shortEscape short)⟩
    · split at read
      · rename_i letter
        subst letter
        obtain ⟨letters, rfl, writes⟩ := writesChar_of_readNumericEscape read
        exact ⟨0x75 :: letters, rfl, writes⟩
      · cases read

theorem WritesText.append {text text' : List Char} {written written' : Bytes}
    (writes : WritesText text written) (writes' : WritesText text' written') :
    WritesText (text ++ text') (written ++ written') := by
  induction writes with
  | nil => exact writes'
  | cons char _ ih =>
    rw [List.append_assoc]
    exact .cons char ih

theorem writesText_of_readPlain {plain rest : Bytes} {text : List Char}
    (isPlain_plain : ∀ b ∈ plain, isPlain b = true) (read : readPlain plain rest = .ok text) :
    WritesText text plain := by
  have parts := Utf8.encode_decodeStart plain
  unfold readPlain at read
  split at read
  · rename_i decoded
    cases read
    rw [decoded, List.append_nil] at parts
    subst parts
    clear decoded
    induction text with
    | nil => exact .nil
    | cons c text ih =>
      rw [Utf8.encode_cons] at isPlain_plain ⊢
      obtain ⟨plain_c, plain_text⟩ := List.forall_mem_append.1 isPlain_plain
      refine .cons ?_ (ih plain_text)
      by_cases ascii : c.toNat < 0x80
      · have itself := plain_c (UInt8.ofNat c.toNat) (by simp [Utf8.encodeChar_of_ascii ascii])
        rw [isPlain_iff, UInt8.toNat_ofNat', Nat.mod_eq_of_lt (by omega)] at itself
        obtain ⟨noQuote, noBackslash, visible⟩ := itself
        exact .plain visible (fun same => noQuote (same ▸ rfl)) fun same => noBackslash (same ▸ rfl)
      · refine .plain (by omega) ?_ ?_
        · rintro rfl
          exact ascii (by decide)
        · rintro rfl
          exact ascii (by decide)
  · cases read

/-- What is read as a text is a way to write it. -/
theorem writesText_of_readStringTail {budget bytes rest : Bytes} {text : List Char}
    (read : readStringTail budget bytes = .ok (text, rest)) :
    ∃ written, WritesText text written ∧ bytes = written ++ 0x22 :: rest := by
  induction budget generalizing bytes text with
  | nil => cases read
  | cons b budget ih =>
    have parts := List.takeWhile_append_dropWhile (p := isPlain) (l := bytes)
    have isPlain_plain : ∀ b ∈ bytes.takeWhile isPlain, isPlain b = true := fun _ =>
      List.mem_takeWhile_imp
    unfold readStringTail at read
    split at read
    · cases read
    · rename_i b others stop
      rw [stop] at parts
      split at read
      · rename_i quote
        obtain ⟨plain, read_plain, read⟩ := bind_eq_ok.1 read
        cases read
        subst quote
        exact ⟨_, writesText_of_readPlain isPlain_plain read_plain, parts.symm⟩
      · split at read
        · rename_i backslash
          obtain ⟨plain, read_plain, read⟩ := bind_eq_ok.1 read
          obtain ⟨⟨c, behind⟩, escape, read⟩ := bind_eq_ok.1 read
          obtain ⟨⟨tail, rest'⟩, later, read⟩ := bind_eq_ok.1 read
          cases read
          subst backslash
          obtain ⟨letters, rfl, writes_escape⟩ := writesChar_of_readEscape escape
          obtain ⟨written, writes, rfl⟩ := ih later
          refine ⟨_, (writesText_of_readPlain isPlain_plain read_plain).append
            (.cons writes_escape writes), ?_⟩
          simpa using parts.symm
        · cases read

theorem writesText_of_readString {bytes rest : Bytes} {s : String}
    (read : readString bytes = .ok (s, rest)) :
    ∃ written, WritesText s.toList written ∧ bytes = written ++ 0x22 :: rest := by
  obtain ⟨⟨text, rest'⟩, tail, made⟩ := bind_eq_ok.1 read
  cases made
  rw [String.toList_ofList]
  exact writesText_of_readStringTail tail

theorem skipString_of_readString {bytes rest : Bytes} {s : String}
    (read : readString bytes = .ok (s, rest)) : skipString bytes = .ok rest := by
  obtain ⟨written, writes, rfl⟩ := writesText_of_readString read
  have skipped := skipString_append writes.isString rest
  rwa [← List.append_cons] at skipped

theorem passesOver_text : PassesOver readText := by
  intro bytes value rest read
  unfold readText at read
  split at read
  · rename_i others quote
    refine ⟨1, .scalar ?_⟩
    rw [quote]
    change (skipString others).map _ = _
    rw [skipString_of_readString read]
    rfl
  · exact absurd read refuse_ne_ok

/-! ### Numbers -/

theorem readWhole_ok {atEnd : Problem} {bytes : Bytes} {result : List Nat × Bytes}
    (read : readWhole atEnd bytes = .ok result) (atEnd' : Problem) :
    readWhole atEnd' bytes = .ok result := by
  cases bytes with
  | nil => cases read
  | cons b rest => exact read

theorem readFraction_ok {atEnd : Problem} {bytes : Bytes} {result : List Nat × Bytes}
    (read : readFraction atEnd bytes = .ok result) (atEnd' : Problem) :
    readFraction atEnd' bytes = .ok result := by
  unfold readFraction at read ⊢
  split at read
  · split at read
    · cases read
    · cases read
    · exact read
  · exact read

theorem readPowerDigits_ok {atEnd : Problem} {negative : Bool} {bytes : Bytes}
    {result : Option (Bool × List Nat) × Bytes}
    (read : readPowerDigits atEnd negative bytes = .ok result) (atEnd' : Problem) :
    readPowerDigits atEnd' negative bytes = .ok result := by
  cases bytes with
  | nil => cases read
  | cons b rest => exact read

theorem readPower_ok {atEnd : Problem} {bytes : Bytes} {result : Option (Bool × List Nat) × Bytes}
    (read : readPower atEnd bytes = .ok result) (atEnd' : Problem) :
    readPower atEnd' bytes = .ok result := by
  unfold readPower at read ⊢
  split at read
  · exact read
  · split at read
    · rename_i letter
      simp only [letter, ↓reduceIte]
      split at read <;> exact readPowerDigits_ok read atEnd'
    · rename_i noLetter
      simp only [noLetter]
      exact read

/-- A number that is read is read whatever fault its end would be. -/
theorem readLiteral_ok {atEnd : Problem} {negative : Bool} {bytes : Bytes}
    {result : Decimal.Literal × Bytes} (read : readLiteral atEnd negative bytes = .ok result)
    (atEnd' : Problem) : readLiteral atEnd' negative bytes = .ok result := by
  unfold readLiteral at read ⊢
  obtain ⟨⟨whole, rest⟩, first, later⟩ := bind_eq_ok.1 read
  obtain ⟨⟨fraction, rest'⟩, second, last⟩ := bind_eq_ok.1 later
  obtain ⟨⟨power, rest''⟩, third, made⟩ := bind_eq_ok.1 last
  simp only [bind, Except.bind, readWhole_ok first atEnd', readFraction_ok second atEnd',
    readPower_ok third atEnd']
  exact made

theorem readLiteral_of_readNumber {negative : Bool} {bytes rest : Bytes} {n : Decimal.Number}
    (read : readNumber negative bytes = .ok (n, rest)) :
    ∃ literal, readLiteral .numberInvalid negative bytes = .ok (literal, rest) := by
  unfold readNumber at read
  obtain ⟨⟨literal, rest'⟩, first, later⟩ := bind_eq_ok.1 read
  dsimp only at later
  split at later
  · cases later
    exact ⟨literal, readLiteral_ok first _⟩
  · cases later

theorem rest_of_accept {range : Range} {n : Decimal.Number} {bytes rest : Bytes} {value : Int}
    (accepts : range.accept n bytes = .ok (value, rest)) : bytes = rest := by
  unfold Range.accept at accepts
  repeat' split at accepts
  all_goals
    cases accepts
    try rfl

theorem passesOver_range (range : Range) : PassesOver range.read := by
  intro bytes value rest read
  unfold Range.read at read
  split at read
  · cases read
  · rename_i b others start
    split at read
    · rename_i sign
      obtain ⟨⟨n, rest'⟩, number, accepts⟩ := bind_eq_ok.1 read
      obtain rfl := rest_of_accept accepts
      obtain ⟨literal, read_literal⟩ := readLiteral_of_readNumber number
      exact ⟨1, .scalar (by rw [start, sign]; exact skipStart_sign read_literal)⟩
    · split at read
      · rename_i digit
        obtain ⟨⟨n, rest'⟩, number, accepts⟩ := bind_eq_ok.1 read
        obtain rfl := rest_of_accept accepts
        obtain ⟨literal, read_literal⟩ := readLiteral_of_readNumber number
        exact ⟨1, .scalar (by rw [start]; exact skipStart_digit digit read_literal)⟩
      · exact absurd read refuse_ne_ok

theorem PassesOver.map {read : Reader α} (passes : PassesOver read) (f : α → δ) :
    PassesOver fun bytes => (read bytes).map fun (value, rest) => (f value, rest) := by
  intro bytes value rest read_map
  obtain ⟨⟨first, rest'⟩, read_first, same⟩ := map_eq_ok.1 read_map
  cases same
  exact passes bytes first rest read_first

theorem passesOver_via (range : Range) (ofInt : Int → α) : PassesOver (readVia range ofInt) :=
  (passesOver_range range).map ofInt

theorem passesOver_int64 : PassesOver int64.read :=
  passesOver_via .int64 Int64.ofInt

theorem passesOver_word32 : PassesOver word32.read :=
  passesOver_via .word32 fun n => UInt32.ofNat n.toNat

theorem passesOver_word64 : PassesOver word64.read :=
  passesOver_via .word64 fun n => UInt64.ofNat n.toNat

theorem PassesOver.into {read : Reader α} (passes : PassesOver read) (fill : Option α → δ) :
    PassesOver (readInto read fill) :=
  passes.map fun value => fill (some value)

/-! ### Words -/

theorem skipStart_null {bytes rest : Bytes} (word : readWord ['u', 'l', 'l'] bytes = .ok rest) :
    skipStart (0x6E :: bytes) = .ok (none, rest) := by
  change (readWord ['u', 'l', 'l'] bytes).map _ = _
  rw [word]
  rfl

theorem skipStart_yes {bytes rest : Bytes} (word : readWord ['r', 'u', 'e'] bytes = .ok rest) :
    skipStart (0x74 :: bytes) = .ok (none, rest) := by
  change (readWord ['r', 'u', 'e'] bytes).map _ = _
  rw [word]
  rfl

theorem skipStart_no {bytes rest : Bytes} (word : readWord ['a', 'l', 's', 'e'] bytes = .ok rest) :
    skipStart (0x66 :: bytes) = .ok (none, rest) := by
  change (readWord ['a', 'l', 's', 'e'] bytes).map _ = _
  rw [word]
  rfl

theorem passesOver_bool : PassesOver readBool := by
  intro bytes value rest read
  unfold readBool at read
  split at read
  · rename_i start
    obtain ⟨rest', word, same⟩ := map_eq_ok.1 read
    cases same
    exact ⟨1, .scalar (by rw [start]; exact skipStart_yes word)⟩
  · rename_i start
    obtain ⟨rest', word, same⟩ := map_eq_ok.1 read
    cases same
    exact ⟨1, .scalar (by rw [start]; exact skipStart_no word)⟩
  · exact absurd read refuse_ne_ok

theorem passesOver_unit : PassesOver unit.read := by
  intro bytes value rest read
  unfold unit at read
  dsimp only at read
  split at read
  · rename_i start
    obtain ⟨rest', word, same⟩ := map_eq_ok.1 read
    cases same
    exact ⟨1, .scalar (by rw [start]; exact skipStart_null word)⟩
  · exact absurd read refuse_ne_ok

theorem PassesOver.optional {read : Reader α} (passes : PassesOver read) :
    PassesOver (readOptional read) := by
  intro bytes value rest read_optional
  unfold readOptional at read_optional
  split at read_optional
  · rename_i start
    obtain ⟨rest', word, same⟩ := map_eq_ok.1 read_optional
    cases same
    exact ⟨1, .scalar (by rw [start]; exact skipStart_null word)⟩
  · obtain ⟨⟨inner, rest'⟩, read_inner, same⟩ := map_eq_ok.1 read_optional
    cases same
    obtain ⟨n, passed⟩ := passes _ inner rest read_inner
    exact ⟨n, passed.congr (skipBlanks_skipBlanks bytes).symm⟩

/-! ### Lists, dictionaries and enumerations -/

theorem next_of_closeList {bytes rest : Bytes} (closes : closeList bytes = .ok rest) :
    skipBlanks bytes = 0x5D :: rest := by
  unfold closeList at closes
  split at closes
  · cases closes
  · rename_i bracket
    cases closes
    exact bracket
  · split at closes <;> cases closes
  · cases closes

theorem next_of_closeObject {bytes rest : Bytes} (closes : closeObject bytes = .ok rest) :
    skipBlanks bytes = 0x7D :: rest := by
  unfold closeObject at closes
  split at closes
  · cases closes
  · rename_i brace
    cases closes
    exact brace
  · cases closes
  · cases closes

theorem closesIn_readListTail {read : Reader α} (passes : PassesOver read) {budget : Bytes}
    {first : Bool} {bytes last rest : Bytes} {items : List α}
    (tail : readListTail read budget first bytes = .ok (items, last))
    (closes : closeList last = .ok rest) : ∃ n, ClosesIn n .list (!first) bytes rest := by
  induction budget generalizing first bytes items with
  | nil => cases tail
  | cons b budget ih =>
    unfold readListTail at tail
    obtain ⟨next, step, tail⟩ := bind_eq_ok.1 tail
    cases next with
    | none =>
      cases tail
      exact ⟨0, .close (b := 0x5D) _ (next_of_closeList closes) rfl⟩
    | some value =>
      obtain ⟨⟨item, behind⟩, taken, tail⟩ := bind_eq_ok.1 tail
      obtain ⟨⟨others, last'⟩, later, tail⟩ := bind_eq_ok.1 tail
      cases tail
      obtain ⟨n, passed⟩ := passes value item behind taken
      obtain ⟨m, closed⟩ := ih later
      exact ⟨n + m, .value (goOn_item step) passed closed⟩

theorem PassesOver.list {read : Reader α} (passes : PassesOver read) :
    PassesOver (readList read) := by
  intro bytes value rest read_list
  unfold readList at read_list
  split at read_list
  · rename_i inside start
    obtain ⟨⟨items, last⟩, tail, later⟩ := bind_eq_ok.1 read_list
    obtain ⟨rest', closes, made⟩ := bind_eq_ok.1 later
    cases made
    obtain ⟨n, closed⟩ := closesIn_readListTail passes tail closes
    exact ⟨n + 1, .opened (by rw [start]; rfl) closed⟩
  · exact absurd read_list refuse_ne_ok

theorem closesIn_readDictTail {read : Reader α} (passes : PassesOver read) {budget : Bytes}
    {first : Bool} {bytes last rest : Bytes} {before entries : Dict α}
    (tail : readDictTail read budget first before bytes = .ok (entries, last))
    (closes : closeObject last = .ok rest) : ∃ n, ClosesIn n .object (!first) bytes rest := by
  induction budget generalizing first bytes before with
  | nil => cases tail
  | cons b budget ih =>
    unfold readDictTail at tail
    obtain ⟨next, step, tail⟩ := bind_eq_ok.1 tail
    cases next with
    | none =>
      cases tail
      exact ⟨0, .close (b := 0x7D) _ (next_of_closeObject closes) rfl⟩
    | some key =>
      obtain ⟨⟨name, gap⟩, string, tail⟩ := bind_eq_ok.1 tail
      obtain ⟨start, colon, tail⟩ := bind_eq_ok.1 tail
      obtain ⟨⟨value, behind⟩, taken, later⟩ := bind_eq_ok.1 tail
      obtain ⟨n, passed⟩ := passes start value behind taken
      obtain ⟨m, closed⟩ := ih later
      exact ⟨n + m, .value (goOn_member step (skipString_of_readString string) colon) passed closed⟩

theorem PassesOver.dict {read : Reader α} (passes : PassesOver read) :
    PassesOver (readDict read) := by
  intro bytes value rest read_dict
  unfold readDict at read_dict
  split at read_dict
  · rename_i inside start
    obtain ⟨⟨entries, last⟩, tail, later⟩ := bind_eq_ok.1 read_dict
    obtain ⟨rest', closes, made⟩ := bind_eq_ok.1 later
    cases made
    obtain ⟨n, closed⟩ := closesIn_readDictTail passes tail closes
    exact ⟨n + 1, .opened (by rw [start]; rfl) closed⟩
  · exact absurd read_dict refuse_ne_ok

theorem skipString_of_readName {variants : Variants α} {bytes rest : Bytes} {value : α}
    (read : variants.readName bytes = .ok (value, rest)) : skipString bytes = .ok rest := by
  unfold Variants.readName at read
  obtain ⟨⟨name, rest'⟩, string, later⟩ := bind_eq_ok.1 read
  dsimp only at later
  split at later
  · cases later
    exact skipString_of_readString string
  · cases later

theorem passesOver_variants (variants : Variants α) : PassesOver variants.read := by
  intro bytes value rest read
  unfold Variants.read at read
  split at read
  · cases read
  · rename_i name start
    refine ⟨1, .scalar ?_⟩
    rw [start]
    change (skipString name).map _ = _
    rw [skipString_of_readName read]
    rfl
  · rename_i inside start
    dsimp only at read
    split at read
    · rename_i name quote
      obtain ⟨⟨value', gap⟩, string, read⟩ := bind_eq_ok.1 read
      obtain ⟨null, colon, read⟩ := bind_eq_ok.1 read
      obtain ⟨⟨⟨⟩, behind⟩, none, read⟩ := bind_eq_ok.1 read
      obtain ⟨n, passed⟩ := passesOver_unit null () behind none
      have next : nextKey true inside = .ok (some name) := by
        unfold nextKey
        rw [quote]
        rfl
      have enters := goOn_member next (skipString_of_readName string) colon
      dsimp only at read
      split at read
      · cases read
      · rename_i brace
        cases read
        have closed : ClosesIn 0 .object true behind rest := .close (b := 0x7D) _ brace rfl
        exact ⟨n + 0 + 1, .opened (by rw [start]; rfl)
          (.value enters passed closed)⟩
      · cases read
    · obtain ⟨taken, string, -⟩ := bind_eq_ok.1 read
      exact absurd string refuse_ne_ok
  · cases read

end PetClient.Json
