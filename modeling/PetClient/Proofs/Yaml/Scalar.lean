import Mathlib.Tactic.IntervalCases
import PetClient.Json.Printer
import PetClient.Proofs.Json.Scalar
import PetClient.Proofs.Text.Basic
import PetClient.Yaml.Document

/-!
Scalars of YAML that are written as JSON: quoted texts and whole numbers.  A blank inside of a quoted
text is the gap between two words to YAML, and everything else that JSON leaves as it is or escapes
is part of a word.
-/

namespace PetClient.Yaml

open Json (escapeChar)

namespace Cursor

@[simp]
theorem rest_skip (c : Cursor) (count : Nat) : (c.skip count).rest = c.rest.drop count :=
  rfl

@[simp]
theorem index_skip (c : Cursor) (count : Nat) : (c.skip count).index = c.index + count :=
  rfl

@[simp]
theorem line_skip (c : Cursor) (count : Nat) : (c.skip count).line = c.line :=
  rfl

@[simp]
theorem column_skip (c : Cursor) (count : Nat) : (c.skip count).column = c.column + count :=
  rfl

@[simp]
theorem skip_skip (c : Cursor) (first second : Nat) :
    (c.skip first).skip second = c.skip (first + second) := by
  simp [skip, List.drop_drop, Nat.add_assoc]

@[simp]
theorem skip_zero (c : Cursor) : c.skip 0 = c :=
  rfl

theorem rest_skip_append {c : Cursor} {front rest : List Char} (parts : c.rest = front ++ rest) :
    (c.skip front.length).rest = rest := by
  rw [rest_skip, parts, List.drop_left]

theorem atMarker_of_column {c : Cursor} (inside : 0 < c.column) (sign : Char) :
    c.atMarker sign = false := by
  unfold atMarker
  rw [decide_eq_false (Nat.ne_of_gt inside), Bool.false_and]

theorem atDocument_of_column {c : Cursor} (inside : 0 < c.column) : c.atDocument = false := by
  rw [atDocument, atMarker_of_column inside, atMarker_of_column inside, Bool.or_false]

end Cursor

/-! ### Words of quoted texts -/

def IsPlain (c : Char) : Prop :=
  c.toNat ≤ 0x7E

theorem charOfHex?_hexPair {c : Char} (control : c.toNat < 0x20) :
    charOfHex? ('0' :: '0' :: Json.hexPair c.toNat) = some c :=
  Text.forall_ascii (q := fun c => charOfHex? ('0' :: '0' :: Json.hexPair c.toNat) = some c)
    (by decide) control

/-- What JSON makes of a character other than a blank: the character itself where it has no meaning
to YAML, or an escape that YAML reads alike. -/
theorem escapeChar_cases {c : Char} (plain : IsPlain c) (solid : c ≠ ' ') :
    (escapeChar c = [c] ∧ isBlank c = false ∧ isBreak c = false ∧ c ≠ '"' ∧ c ≠ '\\') ∨
      ∃ letter digits, escapeChar c = '\\' :: letter :: digits ∧ isBreak letter = false ∧
        ∀ rest, readEscape (letter :: digits ++ rest) = some (c, digits.length + 1) := by
  by_cases control : c.toNat < 0x20
  · right
    unfold escapeChar
    split_ifs with quote backslash backspace formFeed lineFeed carriageReturn tab
    all_goals first
      | exact ⟨_, _, rfl, by decide, fun rest => by simp only [*]; rfl⟩
      | skip
    refine ⟨'u', '0' :: '0' :: Json.hexPair c.toNat, rfl, by decide, fun rest => ?_⟩
    change (charOfHex? ('0' :: '0' :: Json.hexPair c.toNat)).map _ = _
    rw [charOfHex?_hexPair control]
    rfl
  · by_cases escaped : c = '"' ∨ c = '\\'
    · right
      rcases escaped with rfl | rfl
      · exact ⟨'"', [], rfl, by decide, fun rest => rfl⟩
      · exact ⟨'\\', [], rfl, by decide, fun rest => rfl⟩
    · left
      rw [not_or] at escaped
      have visible : 0x20 < c.toNat := by
        refine lt_of_le_of_ne (not_lt.1 control) fun same => solid ?_
        rw [← Char.ofNat_toNat c, ← same]
      have itself : escapeChar c = [c] ∧ isBlank c = false ∧ isBreak c = false :=
        Text.forall_ascii (q := fun c => 0x20 < c.toNat → c ≠ '"' → c ≠ '\\' →
            escapeChar c = [c] ∧ isBlank c = false ∧ isBreak c = false)
          (by decide) (Nat.lt_succ_of_le plain) visible escaped.1 escaped.2
      exact ⟨itself.1, itself.2.1, itself.2.2, escaped⟩

theorem readQuotedWord_escapeChar {ch : Char} (plain : IsPlain ch) (solid : ch ≠ ' ')
    {c : Cursor} {rest : List Char} (parts : c.rest = escapeChar ch ++ rest) (b : Char)
    (budget : List Char) :
    readQuotedWord (b :: budget) '"' c =
      (readQuotedWord budget '"' (c.skip (escapeChar ch).length)).map fun (text, wordEnd, c) =>
        (ch :: text, wordEnd, c) := by
  rcases escapeChar_cases plain solid with
    ⟨itself, notBlank, notBreak, notQuote, notBackslash⟩ | ⟨letter, digits, written, line, escape⟩
  · have other : decide ('"' = '\'') = false := by decide
    rw [itself] at parts ⊢
    rw [readQuotedWord.eq_def, parts]
    simp only [List.singleton_append, List.length_singleton, notBlank, notBreak, notQuote,
      notBackslash, other, Bool.or_self, Bool.and_false, Bool.false_and, Bool.false_eq_true,
      if_false, decide_false]
    cases readQuotedWord budget '"' (c.skip 1) <;> rfl
  · have start : (isBlank '\\' || isBreak '\\') = false := by decide
    have goesOn := escape rest
    rw [List.cons_append] at goesOn
    rw [written] at parts ⊢
    rw [readQuotedWord.eq_def, parts]
    simp [line, start, goesOn]
    cases readQuotedWord budget '"' (c.skip (digits.length + 1 + 1)) <;> rfl

/-- How a word of a quoted text that is written as JSON ends. -/
inductive Stops : List Char → WordEnd → Prop
  | blank (rest : List Char) : Stops (' ' :: rest) .gap
  | quote (rest : List Char) : Stops ('"' :: rest) .quote

theorem readQuotedWord_escaped {word : List Char} (plain : ∀ ch ∈ word, IsPlain ch ∧ ch ≠ ' ')
    {rest : List Char} {wordEnd : WordEnd} (stops : Stops rest wordEnd) {c : Cursor}
    (parts : c.rest = word.flatMap escapeChar ++ rest) {budget : List Char}
    (enough : word.length < budget.length) :
    readQuotedWord budget '"' c =
      some (word, wordEnd, c.skip (word.flatMap escapeChar).length) := by
  induction word generalizing c budget with
  | nil =>
    cases budget with
    | nil => cases enough
    | cons b budget =>
      rw [List.flatMap_nil, List.nil_append] at parts
      rw [readQuotedWord.eq_def, parts]
      cases stops <;> rfl
  | cons ch word ih =>
    cases budget with
    | nil => cases enough
    | cons b budget =>
      obtain ⟨⟨plain_ch, solid⟩, plain_word⟩ := List.forall_mem_cons.1 plain
      rw [List.flatMap_cons, List.append_assoc] at parts
      rw [readQuotedWord_escapeChar plain_ch solid parts,
        ih plain_word (Cursor.rest_skip_append parts) (Nat.lt_of_succ_lt_succ enough),
        List.flatMap_cons, List.length_append, Option.map_some, Cursor.skip_skip]

/-! ### Gaps -/

theorem readGap_blanks {next : Char} (solid : isBlank next = false) (line : isBreak next = false)
    (rest : List Char) (count : Nat) {c : Cursor}
    (parts : c.rest = List.replicate count ' ' ++ next :: rest) {budget : List Char}
    (enough : count < budget.length) (indent : Int) (blanks : List Char) :
    readGap budget indent { blanks } c =
      some ({ blanks := blanks ++ List.replicate count ' ' }, c.skip count) := by
  induction count generalizing c budget blanks with
  | zero =>
    cases budget with
    | nil => cases enough
    | cons b budget =>
      rw [List.replicate_zero, List.nil_append] at parts
      rw [readGap.eq_def, parts]
      simp [solid, line]
  | succ count ih =>
    cases budget with
    | nil => cases enough
    | cons b budget =>
      rw [List.replicate_succ, List.cons_append] at parts
      have blank : isBlank ' ' = true := by decide
      have later := ih (c := c.skip 1) (by rw [Cursor.rest_skip, parts]; rfl)
        (Nat.lt_of_succ_lt_succ enough) (blanks ++ [' '])
      rw [readGap.eq_def, parts]
      simp only [blank, if_true, Bool.not_false]
      rw [later, List.append_assoc, Cursor.skip_skip, Nat.add_comm, List.replicate_succ]
      rfl

/-! ### Quoted texts -/

/-- A text is a word, or a word, a gap and another text. -/
theorem word_or_gap (text : List Char) :
    (∀ ch ∈ text, ch ≠ ' ') ∨
      ∃ word count behind, text = word ++ (List.replicate (count + 1) ' ' ++ behind) ∧
        (∀ ch ∈ word, ch ≠ ' ') ∧ behind.head? ≠ some ' ' := by
  induction text with
  | nil => exact .inl (List.forall_mem_nil _)
  | cons ch text ih =>
    rcases ih with solid | ⟨word, count, behind, rfl, solid, starts⟩
    · by_cases blank : ch = ' '
      · refine .inr ⟨[], 0, text, by rw [blank]; rfl, List.forall_mem_nil _, fun starts => ?_⟩
        exact solid ' ' (List.mem_of_head? starts) rfl
      · exact .inl (List.forall_mem_cons.2 ⟨blank, solid⟩)
    · by_cases blank : ch = ' '
      · cases word with
        | nil =>
          refine .inr ⟨[], count + 1, behind, ?_, List.forall_mem_nil _, starts⟩
          rw [blank]
          rfl
        | cons first word =>
          refine .inr ⟨[], 0, _, by rw [blank]; rfl, List.forall_mem_nil _, fun starts => ?_⟩
          exact solid first (List.mem_cons_self ..) (Option.some.inj starts)
      · exact .inr ⟨ch :: word, count, behind, rfl, List.forall_mem_cons.2 ⟨blank, solid⟩, starts⟩

theorem length_le_escaped {text : List Char} (plain : ∀ ch ∈ text, IsPlain ch) :
    text.length ≤ (text.flatMap escapeChar).length := by
  induction text with
  | nil => exact Nat.le_refl 0
  | cons ch text ih =>
    have some_char : 1 ≤ (escapeChar ch).length := by
      by_cases solid : ch = ' '
      · rw [solid]
        decide
      · rcases escapeChar_cases (plain ch (List.mem_cons_self ..)) solid with
          ⟨written, -⟩ | ⟨letter, digits, written, -⟩
        · simp [written]
        · simp [written]
    have others := ih fun ch mem => plain ch (List.mem_cons_of_mem _ mem)
    rw [List.flatMap_cons, List.length_append, List.length_cons]
    omega

/-- What is left of a quoted text does not start with a blank or a line end if the text does not
start with a blank. -/
theorem starts_solid {text : List Char} (plain : ∀ ch ∈ text, IsPlain ch)
    (solid : text.head? ≠ some ' ') (rest : List Char) :
    ∃ next more, text.flatMap escapeChar ++ '"' :: rest = next :: more ∧
      isBlank next = false ∧ isBreak next = false := by
  cases text with
  | nil => exact ⟨'"', rest, rfl, by decide, by decide⟩
  | cons ch text =>
    have solid_ch : ch ≠ ' ' := fun blank => solid (congrArg some blank)
    rcases escapeChar_cases (plain ch (List.mem_cons_self ..)) solid_ch with
      ⟨written, notBlank, notBreak, -⟩ | ⟨letter, digits, written, -⟩
    · exact ⟨ch, _, by rw [List.flatMap_cons, written]; rfl, notBlank, notBreak⟩
    · exact ⟨'\\', _, by rw [List.flatMap_cons, written]; rfl, by decide, by decide⟩

theorem flatMap_blanks (count : Nat) :
    (List.replicate count ' ').flatMap escapeChar = List.replicate count ' ' := by
  induction count with
  | zero => rfl
  | succ count ih => rw [List.replicate_succ, List.flatMap_cons, ih]; rfl

theorem readQuoted_gap {word behind : List Char} (plain_word : ∀ ch ∈ word, IsPlain ch)
    (solid : ∀ ch ∈ word, ch ≠ ' ') (plain_behind : ∀ ch ∈ behind, IsPlain ch)
    (starts : behind.head? ≠ some ' ') (count : Nat) (rest : List Char) {c : Cursor}
    (parts : c.rest = word.flatMap escapeChar ++
      (List.replicate (count + 1) ' ' ++ (behind.flatMap escapeChar ++ '"' :: rest)))
    (inside : 0 < c.column) (b : Char) (budget : List Char) :
    readQuoted (b :: budget) '"' c =
      (readQuoted budget '"' (c.skip ((word.flatMap escapeChar).length + (count + 1)))).map
        fun (tail, c) => (word ++ (List.replicate (count + 1) ' ' ++ tail), c) := by
  have filled : c.rest.isEmpty = false := by simp [parts]
  have budget_left : word.length < c.rest.length := by
    have least := length_le_escaped plain_word
    rw [parts, List.length_append, List.length_append, List.length_replicate]
    omega
  have read_word := readQuotedWord_escaped (fun ch mem => ⟨plain_word ch mem, solid ch mem⟩)
    (.blank _) parts budget_left
  obtain ⟨next, more, start, notBlank, notBreak⟩ := starts_solid plain_behind starts rest
  have behind_word := Cursor.rest_skip_append parts
  have gap_left : count + 1 < (c.skip (word.flatMap escapeChar).length).rest.length := by
    rw [behind_word, start, List.length_append, List.length_replicate, List.length_cons]
    omega
  rw [start] at behind_word
  have read_gap := readGap_blanks notBlank notBreak more (count + 1) behind_word gap_left 0 []
  have text : Gap.text { blanks := [] ++ List.replicate (count + 1) ' ' } =
      List.replicate (count + 1) ' ' := rfl
  rw [readQuoted, Cursor.atDocument_of_column inside, filled, read_word]
  simp only [Bool.or_self, Bool.false_eq_true, if_false, Option.bind_eq_bind, Option.bind_some,
    reduceCtorEq, decide_false, read_gap, text, Cursor.skip_skip, List.append_assoc]
  cases readQuoted budget '"' (c.skip ((word.flatMap escapeChar).length + (count + 1))) <;> rfl

/-- A text that JSON has quoted is read as that text. -/
theorem readQuoted_escaped {text : List Char} (plain : ∀ ch ∈ text, IsPlain ch) (rest : List Char)
    {c : Cursor} (parts : c.rest = text.flatMap escapeChar ++ '"' :: rest) (inside : 0 < c.column)
    {budget : List Char} (enough : text.length < budget.length) :
    readQuoted budget '"' c = some (text, c.skip ((text.flatMap escapeChar).length + 1)) := by
  -- Each step reads a word and the gap behind it, which is not empty.
  induction budget generalizing text c with
  | nil => cases enough
  | cons b budget ih =>
    rcases word_or_gap text with solid | ⟨word, count, behind, rfl, solid, starts⟩
    · have filled : c.rest.isEmpty = false := by simp [parts]
      have budget_left : text.length < c.rest.length := by
        have least := length_le_escaped plain
        rw [parts, List.length_append, List.length_cons]
        omega
      rw [readQuoted, Cursor.atDocument_of_column inside, filled,
        readQuotedWord_escaped (fun ch mem => ⟨plain ch mem, solid ch mem⟩) (.quote rest) parts
          budget_left]
      simp
    · rw [List.forall_mem_append, List.forall_mem_append] at plain
      obtain ⟨plain_word, -, plain_behind⟩ := plain
      rw [List.flatMap_append, List.flatMap_append, flatMap_blanks] at parts ⊢
      rw [List.append_assoc, List.append_assoc] at parts
      have later := ih (c := c.skip ((word.flatMap escapeChar).length + (count + 1))) plain_behind
        (by rw [← Cursor.skip_skip, Cursor.rest_skip, Cursor.rest_skip_append parts]; simp)
        (Nat.lt_of_lt_of_le inside (Nat.le_add_right ..))
        (by simp only [List.length_append, List.length_replicate, List.length_cons] at enough; omega)
      have width : (word.flatMap escapeChar).length +
          (count + 1 + (behind.flatMap escapeChar).length) + 1 =
          (word.flatMap escapeChar).length + (count + 1) +
            ((behind.flatMap escapeChar).length + 1) := by omega
      rw [readQuoted_gap plain_word solid plain_behind starts count rest parts inside, later,
        Option.map_some, Cursor.skip_skip, List.length_append, List.length_append,
        List.length_replicate, width]

/-! ### Whole numbers -/

structure IsDigit (ch : Char) : Prop where
  solid : (isBlank ch || isBreak ch) = false
  notColon : ch ≠ ':'
  notHash : ch ≠ '#'
  notPlus : ch ≠ '+'
  notSign : isFlowSign ch = false
  value : Text.hexDigit? ch = some (ch.toNat - '0'.toNat)
  small : ch.toNat - '0'.toNat < 10

theorem isDigit_of_isDigit {ch : Char} (digit : ch.isDigit) : IsDigit ch := by
  obtain ⟨solid, notColon, notHash, notPlus, notSign, value, small⟩ :=
    Text.forall_digit (q := fun ch =>
      (isBlank ch || isBreak ch) = false ∧ ch ≠ ':' ∧ ch ≠ '#' ∧ ch ≠ '+' ∧ isFlowSign ch = false ∧
        Text.hexDigit? ch = some (ch.toNat - '0'.toNat) ∧ ch.toNat - '0'.toNat < 10)
      (by decide) digit
  exact ⟨solid, notColon, notHash, notPlus, notSign, value, small⟩

theorem readPlainWord_digits {digits : List Char} (areDigits : ∀ ch ∈ digits, IsDigit ch)
    {next : Char} (ends : isFlowSign next) (rest : List Char) :
    readPlainWord true (digits ++ next :: rest) = some digits := by
  induction digits with
  | nil =>
    have sign : (isBlank next || isBreak next) = false ∧ next ≠ ':' := by
      simp only [isFlowSign, Bool.or_eq_true, decide_eq_true_eq] at ends
      rcases ends with (((rfl | rfl) | rfl) | rfl) | rfl <;> decide
    simp [readPlainWord, sign, ends]
  | cons ch digits ih =>
    obtain ⟨digit, others⟩ := List.forall_mem_cons.1 areDigits
    rw [List.cons_append, readPlainWord, ih others]
    simp [digit.solid, digit.notColon, digit.notSign]

theorem readPlain_digits {digits : List Char} (nonempty : digits ≠ [])
    (areDigits : ∀ ch ∈ digits, IsDigit ch) {next : Char} (ends : isFlowSign next)
    (rest : List Char) {c : Cursor} (parts : c.rest = digits ++ next :: rest)
    (inside : 0 < c.column) (b : Char) (budget : List Char) (indent : Int) :
    readPlain (b :: budget) true indent {} c = some (digits, c.skip digits.length, false) := by
  have notHash : c.rest.head? ≠ some '#' := by
    obtain ⟨ch, others, rfl⟩ := List.exists_cons_of_ne_nil nonempty
    rw [parts]
    exact fun same => (areDigits ch (List.mem_cons_self ..)).notHash (Option.some.inj same)
  have sign : (isBlank next || isBreak next) = false := by
    simp only [isFlowSign, Bool.or_eq_true, decide_eq_true_eq] at ends
    rcases ends with (((rfl | rfl) | rfl) | rfl) | rfl <;> decide
  have word := readPlainWord_digits areDigits ends rest
  rw [← parts] at word
  have notEmpty : digits.isEmpty = false := by simpa using nonempty
  have front : Gap.text {} ++ digits = digits := rfl
  rw [readPlain, Cursor.atDocument_of_column inside, word]
  simp only [Bool.false_or, decide_eq_true_eq, notHash, if_false, Option.bind_eq_bind,
    Option.bind_some, notEmpty, Bool.false_eq_true, front, Cursor.rest_skip_append parts, sign,
    Bool.not_false, if_true]

theorem natOfBase?_digits {digits : List Char} (nonempty : digits ≠ [])
    (areDigits : ∀ ch ∈ digits, IsDigit ch) :
    Document.natOfBase? 10 digits = some (Nat.ofDigitChars 10 digits 0) := by
  have fold (start : Nat) : digits.foldlM (fun n c => do
      let d ← Text.hexDigit? c
      if d < 10 then some (n * 10 + d) else none) start =
        some (Nat.ofDigitChars 10 digits start) := by
    clear nonempty
    induction digits generalizing start with
    | nil => rfl
    | cons ch digits ih =>
      obtain ⟨digit, others⟩ := List.forall_mem_cons.1 areDigits
      have step := ih others (start * 10 + (ch.toNat - '0'.toNat))
      rw [List.foldlM_cons, digit.value]
      simp only [Option.bind_eq_bind, Option.bind_some, digit.small, if_true]
      rw [Nat.mul_comm] at step ⊢
      exact step
  unfold Document.natOfBase?
  rw [if_neg (by simpa using nonempty), fold 0]

theorem natOf?_toDigits (n : Nat) : Document.natOf? (Nat.toDigits 10 n) = some n := by
  have areDigits : ∀ ch ∈ Nat.toDigits 10 n, IsDigit ch := fun ch mem =>
    isDigit_of_isDigit (Text.isDigit_of_mem_toDigits mem)
  have value := Nat.ofDigitChars_ten_toDigits (n := n)
  rcases Json.toDigits_cases n with zero | ⟨d, digits, starts, nonzero⟩
  · rw [zero] at value ⊢
    rw [← value]
    rfl
  · rw [starts] at value areDigits ⊢
    have notPlus := (areDigits d (List.mem_cons_self ..)).notPlus
    have base := natOfBase?_digits (List.cons_ne_nil d digits) areDigits
    rw [value] at base
    unfold Document.natOf?
    simp [notPlus, nonzero, base]

end PetClient.Yaml
