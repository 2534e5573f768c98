import PetClient.Json.Skip
import PetClient.Proofs.Json.Layout
import PetClient.Proofs.Json.Literal

/-!
Passing over values.  A value that is passed takes no more off the budget than it has bytes, and the
brackets around it stay open, so what is nested to any depth is passed value by value.
-/

namespace PetClient.Json

/-! ### From item to item -/

theorem skipBlanks_skipBlanks (bytes : Bytes) : skipBlanks (skipBlanks bytes) = skipBlanks bytes :=
  List.dropWhile_idempotent (p := isBlank) bytes

theorem skipBlanks_blanks {blanks : Bytes} (blank : Blank blanks) (bytes : Bytes) :
    skipBlanks (blanks ++ bytes) = skipBlanks bytes :=
  List.dropWhile_append_of_pos blank

theorem nextItem_spaced {item : Spaced} (fits : item.Fits) (starts : Starts item.text)
    {blanks : Bytes} (blank : Blank blanks) (first : Bool) (items : List Spaced)
    (closing : Bytes) :
    nextItem first (blanks ++ (piecesFrom Spaced.bytes first (item :: items) ++ closing)) =
      .ok (some (item.text ++
        (item.after ++ (piecesFrom Spaced.bytes false items ++ closing)))) := by
  obtain ⟨before, text, after⟩ := item
  obtain ⟨b, tail, rfl, visible, -, noBracket, -⟩ := starts
  cases first with
  | true =>
    simp only [piecesFrom, Spaced.bytes, List.append_assoc, List.cons_append]
    rw [← List.append_assoc]
    exact nextItem_first (blank.append fits.before) visible noBracket _
  | false =>
    simp only [piecesFrom, Spaced.bytes, List.append_assoc, List.cons_append]
    exact nextItem_comma blank fits.before visible noBracket _

theorem nextItem_close {blanks : Bytes} (blank : Blank blanks) (first : Bool) (rest : Bytes) :
    nextItem first (blanks ++ 0x5D :: rest) = .ok none := by
  unfold nextItem
  rw [skipBlanks_append blank rfl]
  rfl

theorem closeList_blanks {blanks : Bytes} (blank : Blank blanks) (rest : Bytes) :
    closeList (blanks ++ 0x5D :: rest) = .ok rest := by
  unfold closeList
  rw [skipBlanks_append blank rfl]
  rfl

theorem nextKey_entry {entry : Entry} (fits : entry.Fits) {blanks : Bytes} (blank : Blank blanks)
    (first : Bool) (entries : List Entry) (closing : Bytes) :
    nextKey first (blanks ++ (piecesFrom Entry.bytes first (entry :: entries) ++ closing)) =
      .ok (some (entry.name ++ (entry.gap ++ 0x3A :: (entry.value.before ++ (entry.value.text ++
        (entry.value.after ++ (piecesFrom Entry.bytes false entries ++ closing))))))) := by
  cases first with
  | true =>
    simp only [piecesFrom, Entry.bytes, Entry.tail, Spaced.bytes, List.append_assoc,
      List.cons_append]
    rw [← List.append_assoc]
    exact nextKey_first (blank.append fits.before) _
  | false =>
    simp only [piecesFrom, Entry.bytes, Entry.tail, Spaced.bytes, List.append_assoc,
      List.cons_append]
    exact nextKey_comma blank fits.before _

theorem length_lt_entries (entries : List Entry) (inner rest : Bytes) :
    entries.length <
      (piecesFrom Entry.bytes true entries ++ (inner ++ 0x7D :: rest)).length := by
  have nonempty : ∀ e ∈ entries, 0 < e.bytes.length := fun e _ => by simp [Entry.bytes]
  exact length_lt_budget entries nonempty inner 0x7D rest

theorem readColon_blanks {blanks : Bytes} (blank : Blank blanks) (rest : Bytes) :
    readColon (blanks ++ 0x3A :: rest) = .ok rest := by
  unfold readColon
  rw [skipBlanks_append blank rfl]
  rfl

/-! ### Counting values -/

def goOn (budget : Bytes) (brackets : List Bracket) (begun : Bool) (bytes : Bytes) :
    Except Fault Bytes := do
  let (brackets, rest) ← closeBrackets brackets begun bytes
  match brackets with
  | [] => return rest
  | bracket :: outer => do
    let rest ← skipKey bracket rest
    skipInside budget (bracket :: outer) rest

theorem skipInside_cons (spent : UInt8) (budget : Bytes) (brackets : List Bracket)
    (bytes : Bytes) : skipInside (spent :: budget) brackets bytes =
      (skipStart (skipBlanks bytes)).bind fun (opened, rest) =>
        goOn budget (opened.toList ++ brackets) opened.isNone rest := by
  rw [skipInside]
  rfl

/-- Passing over a value takes so many bytes off the budget, and leads to the bytes `rest`. -/
def PassesIn (n : Nat) (bytes rest : Bytes) : Prop :=
  ∀ spent budget brackets, spent.length = n →
    skipInside (spent ++ budget) brackets bytes = goOn budget brackets true rest

/-- Passing over what is inside a bracket takes so many bytes off the budget, and leads to the bytes
behind the closing bracket. -/
def ClosesIn (n : Nat) (bracket : Bracket) (begun : Bool) (bytes rest : Bytes) : Prop :=
  ∀ spent budget brackets, spent.length = n →
    goOn (spent ++ budget) (bracket :: brackets) begun bytes = goOn budget brackets true rest

theorem skipInside_skipBlanks (budget : Bytes) (brackets : List Bracket) (bytes : Bytes) :
    skipInside budget brackets (skipBlanks bytes) = skipInside budget brackets bytes := by
  cases budget with
  | nil => rfl
  | cons b budget => rw [skipInside_cons, skipInside_cons, skipBlanks_skipBlanks]

/-- Only what stands behind the blanks matters. -/
theorem PassesIn.congr {n : Nat} {bytes bytes' rest : Bytes} (passes : PassesIn n bytes rest)
    (same : skipBlanks bytes' = skipBlanks bytes) : PassesIn n bytes' rest := by
  intro spent budget brackets size
  rw [← skipInside_skipBlanks, same, skipInside_skipBlanks]
  exact passes spent budget brackets size

theorem PassesIn.behind {n : Nat} {bytes rest : Bytes} (passes : PassesIn n bytes rest)
    {blanks : Bytes} (blank : Blank blanks) : PassesIn n (blanks ++ bytes) rest :=
  passes.congr (skipBlanks_blanks blank bytes)

theorem PassesIn.scalar {bytes rest : Bytes}
    (start : skipStart (skipBlanks bytes) = .ok (none, rest)) : PassesIn 1 bytes rest := by
  intro spent budget brackets size
  obtain ⟨b, rfl⟩ := List.length_eq_one_iff.1 size
  rw [List.singleton_append, skipInside_cons, start]
  rfl

theorem PassesIn.opened {n : Nat} {bracket : Bracket} {bytes inside rest : Bytes}
    (start : skipStart (skipBlanks bytes) = .ok (some bracket, inside))
    (closes : ClosesIn n bracket false inside rest) : PassesIn (n + 1) bytes rest := by
  intro spent budget brackets size
  obtain ⟨b, spent, rfl⟩ := List.exists_cons_of_length_eq_add_one size
  rw [List.cons_append, skipInside_cons, start]
  exact closes spent budget brackets (Nat.succ.inj size)

theorem closeBrackets_close {bracket : Bracket} {b : UInt8} {bytes rest : Bytes}
    (next : skipBlanks bytes = b :: rest) (closed : bracket.closedBy b = true)
    (outer : List Bracket) (begun : Bool) :
    closeBrackets (bracket :: outer) begun bytes = closeBrackets outer true rest := by
  have noComma : b ≠ 0x2C := by
    rintro rfl
    cases bracket <;> exact absurd closed (by decide)
  conv_lhs => unfold closeBrackets
  simp [next, noComma, closed]

theorem closeBrackets_comma {bytes rest : Bytes} (next : skipBlanks bytes = 0x2C :: rest)
    (bracket : Bracket) (outer : List Bracket) :
    closeBrackets (bracket :: outer) true bytes = .ok (bracket :: outer, rest) := by
  unfold closeBrackets
  simp [next]

theorem closeBrackets_first {bracket : Bracket} {b : UInt8} {bytes rest : Bytes}
    (next : skipBlanks bytes = b :: rest) (stays : bracket.closedBy b = false)
    (outer : List Bracket) :
    closeBrackets (bracket :: outer) false bytes = .ok (bracket :: outer, b :: rest) := by
  unfold closeBrackets
  simp [next, stays]

theorem ClosesIn.close {bracket : Bracket} {b : UInt8} {bytes rest : Bytes} (begun : Bool)
    (next : skipBlanks bytes = b :: rest) (closed : bracket.closedBy b = true) :
    ClosesIn 0 bracket begun bytes rest := by
  intro spent budget brackets size
  rw [List.length_eq_zero_iff.1 size, List.nil_append]
  unfold goOn
  rw [closeBrackets_close next closed]

/-- A bracket goes on with a value, and then with what is behind that value. -/
theorem ClosesIn.value {n m : Nat} {bracket : Bracket} {begun : Bool}
    {bytes value next rest : Bytes}
    (enters : ∀ budget brackets, goOn budget (bracket :: brackets) begun bytes =
      skipInside budget (bracket :: brackets) value)
    (passes : PassesIn n value next) (closes : ClosesIn m bracket true next rest) :
    ClosesIn (n + m) bracket begun bytes rest := by
  intro spent budget brackets size
  have first : (spent.take n).length = n := by
    rw [List.length_take]
    omega
  have second : (spent.drop n).length = m := by
    rw [List.length_drop]
    omega
  rw [enters, ← List.take_append_drop n spent, List.append_assoc, passes _ _ _ first]
  exact closes _ _ _ second

theorem nextItem_eq_some {first : Bool} {bytes value : Bytes}
    (next : nextItem first bytes = .ok (some value)) :
    (first = true ∧ ∃ b rest, skipBlanks bytes = b :: rest ∧ b ≠ 0x5D ∧ value = b :: rest) ∨
      first = false ∧ ∃ rest, skipBlanks bytes = 0x2C :: rest ∧ value = skipBlanks rest := by
  unfold nextItem at next
  split at next
  · cases next
  · cases next
  · rename_i b rest noBracket same
    cases first with
    | true =>
      rw [if_pos rfl] at next
      cases next
      exact .inl ⟨rfl, b, rest, same, noBracket, rfl⟩
    | false =>
      rw [if_neg Bool.false_ne_true] at next
      split at next
      · rename_i comma
        split at next
        · cases next
        · cases next
        · cases next
          exact .inr ⟨rfl, rest, comma ▸ same, rfl⟩
      · cases next

theorem nextKey_eq_some {first : Bool} {bytes name : Bytes}
    (next : nextKey first bytes = .ok (some name)) :
    (first = true ∧ skipBlanks bytes = 0x22 :: name) ∨
      first = false ∧ ∃ rest, skipBlanks bytes = 0x2C :: rest ∧ skipBlanks rest = 0x22 :: name := by
  unfold nextKey at next
  split at next
  · cases next
  · cases next
  · rename_i b rest noBrace same
    cases first with
    | true =>
      rw [if_pos rfl] at next
      split at next
      · rename_i quote
        cases next
        exact .inl ⟨rfl, quote ▸ same⟩
      · cases next
    | false =>
      rw [if_neg Bool.false_ne_true] at next
      split at next
      · rename_i comma
        split at next
        · cases next
        · rename_i behind
          cases next
          exact .inr ⟨rfl, rest, comma ▸ same, behind⟩
        · cases next
        · cases next
      · cases next

theorem goOn_item {first : Bool} {bytes value : Bytes}
    (next : nextItem first bytes = .ok (some value)) (budget : Bytes) (brackets : List Bracket) :
    goOn budget (.list :: brackets) (!first) bytes =
      skipInside budget (.list :: brackets) value := by
  unfold goOn
  rcases nextItem_eq_some next with ⟨rfl, b, rest, start, noBracket, rfl⟩ | ⟨rfl, rest, start, rfl⟩
  · have stays : Bracket.list.closedBy b = false := decide_eq_false noBracket
    rw [Bool.not_true, closeBrackets_first start stays]
    rfl
  · rw [Bool.not_false, closeBrackets_comma start, skipInside_skipBlanks]
    rfl

theorem goOn_member {first : Bool} {bytes name gap value : Bytes}
    (next : nextKey first bytes = .ok (some name)) (string : skipString name = .ok gap)
    (colon : readColon gap = .ok value) (budget : Bytes) (brackets : List Bracket) :
    goOn budget (.object :: brackets) (!first) bytes =
      skipInside budget (.object :: brackets) value := by
  have key {rest : Bytes} (quote : skipBlanks rest = 0x22 :: name) :
      skipKey .object rest = .ok value := by
    unfold skipKey
    simp only [quote, string, bind, Except.bind, colon]
  unfold goOn
  rcases nextKey_eq_some next with ⟨rfl, start⟩ | ⟨rfl, rest, start, quote⟩
  · have stays : Bracket.object.closedBy 0x22 = false := by decide
    rw [Bool.not_true, closeBrackets_first start stays]
    simp only [bind, Except.bind, key (start ▸ skipBlanks_skipBlanks bytes)]
  · rw [Bool.not_false, closeBrackets_comma start]
    simp only [bind, Except.bind, key quote]

/-- Passing over a value leads to one place only. -/
theorem PassesIn.unique {n m : Nat} {bytes rest rest' : Bytes} (passes : PassesIn n bytes rest)
    (passes' : PassesIn m bytes rest') : rest = rest' := by
  have here := passes (List.replicate n 0) (List.replicate m 0) [] List.length_replicate
  have there := passes' (List.replicate m 0) (List.replicate n 0) [] List.length_replicate
  rw [List.replicate_append_replicate] at here there
  rw [Nat.add_comm m n, here] at there
  exact Except.ok.inj there

theorem PassesIn.skipValue {n : Nat} {bytes rest : Bytes} (passes : PassesIn n bytes rest)
    (enough : n ≤ bytes.length) : skipValue bytes = .ok rest := by
  have size : (bytes.take n).length = n := by
    rw [List.length_take]
    omega
  have whole := passes (bytes.take n) (bytes.drop n) [] size
  rw [List.take_append_drop] at whole
  exact whole

/-! ### Strings and numbers -/

theorem skipEscape_letter {b : UInt8} {c : Char} (listed : (b, c) ∈ escapeLetters)
    (rest : Bytes) : skipEscape (b :: rest) = .ok rest := by
  unfold skipEscape
  simp [shortEscape_listed listed]

theorem skipEscape_unit {digits : Bytes} {unit : Nat} (written : IsUnit digits unit)
    (rest : Bytes) : skipEscape (0x75 :: (digits ++ rest)) = .ok rest := by
  change (readUnit (digits ++ rest)).map _ = _
  rw [readUnit_append written]
  rfl

theorem skipStringTail_append {text : Bytes} (isString : IsString text) (plain budget rest : Bytes)
    (isPlain_plain : ∀ b ∈ plain, isPlain b) (enough : text.length ≤ budget.length) :
    skipStringTail budget (plain ++ (text ++ rest)) = .ok rest := by
  induction isString generalizing plain budget with
  | close =>
    cases budget with
    | nil => cases enough
    | cons _ budget =>
      unfold skipStringTail
      rw [List.dropWhile_append_of_pos isPlain_plain]
      rfl
  | @plain b text itself isString ih =>
    have isPlain_longer : ∀ c ∈ plain ++ [b], isPlain c := by
      simpa [or_imp, forall_and] using ⟨isPlain_plain, itself⟩
    have longer := ih (plain ++ [b]) budget isPlain_longer (Nat.le_of_succ_le enough)
    simpa using longer
  | letter listed isString ih =>
    cases budget with
    | nil => cases enough
    | cons _ budget =>
      simp only [List.length_cons] at enough
      unfold skipStringTail
      rw [List.dropWhile_append_of_pos isPlain_plain]
      change (skipEscape (_ :: (_ ++ rest)) >>= fun rest => skipStringTail budget rest) = _
      rw [skipEscape_letter listed]
      exact ih [] budget nofun (by omega)
  | unit written isString ih =>
    cases budget with
    | nil => cases enough
    | cons _ budget =>
      simp only [List.length_cons, List.length_append] at enough
      unfold skipStringTail
      rw [List.dropWhile_append_of_pos isPlain_plain]
      change (skipEscape (0x75 :: (_ ++ _ ++ rest)) >>= fun rest => skipStringTail budget rest) = _
      rw [List.append_assoc, skipEscape_unit written]
      exact ih [] budget nofun (by omega)

theorem skipString_append {text : Bytes} (isString : IsString text) (rest : Bytes) :
    skipString (text ++ rest) = .ok rest :=
  skipStringTail_append isString [] _ rest nofun (by rw [List.length_append]; omega)

theorem skipStart_digit {b : UInt8} {bytes rest : Bytes} {literal : Decimal.Literal}
    (digit : isDigit b = true)
    (read : readLiteral .numberInvalid false (b :: bytes) = .ok (literal, rest)) :
    skipStart (b :: bytes) = .ok (none, rest) := by
  have bounds := bounds_of_isDigit digit
  have other {c : UInt8} (beyond : 0x39 < c.toNat ∨ c.toNat < 0x30) : b ≠ c := by
    rintro rfl
    omega
  unfold skipStart
  simp only [other (c := 0x6E) (by decide), other (c := 0x74) (by decide),
    other (c := 0x66) (by decide), other (c := 0x2D) (by decide), digit, ↓reduceIte, read]
  rfl

theorem skipStart_sign {bytes rest : Bytes} {literal : Decimal.Literal}
    (read : readLiteral .numberInvalid true bytes = .ok (literal, rest)) :
    skipStart (0x2D :: bytes) = .ok (none, rest) := by
  change ((readLiteral .numberInvalid true bytes).map _).map _ = _
  rw [read]
  rfl

theorem skipStart_number {number rest : Bytes} (isNumber : IsNumber number) (stops : Stops rest) :
    skipStart (number ++ rest) = .ok (none, rest) := by
  obtain ⟨t, positive, rfl⟩ := NumberText.exists_digits_eq isNumber false
  have read := t.readLiteral_append stops .numberInvalid
  rw [positive] at read
  obtain ⟨b, tail, begins, digit⟩ := isNumber.starts_with_digit
  rw [begins] at read ⊢
  exact skipStart_digit digit read

theorem skipStart_negative {number rest : Bytes} (isNumber : IsNumber number)
    (stops : Stops rest) : skipStart (0x2D :: (number ++ rest)) = .ok (none, rest) := by
  obtain ⟨t, negative, rfl⟩ := NumberText.exists_digits_eq isNumber true
  have read := t.readLiteral_append stops .numberInvalid
  rw [negative] at read
  exact skipStart_sign read

theorem skipStart_string {text : Bytes} (isString : IsString text) (rest : Bytes) :
    skipStart (0x22 :: (text ++ rest)) = .ok (none, rest) := by
  change (skipString (text ++ rest)).map _ = _
  rw [skipString_append isString]
  rfl

/-! ### Values -/

/-- A text is passed wherever it stands, and takes no more off the budget than it has bytes. -/
def IsPassed (text : Bytes) : Prop :=
  ∀ rest, Stops rest → ∃ n ≤ text.length, PassesIn n (text ++ rest) rest

theorem closesIn_items {items : List Spaced} (fit : ∀ i ∈ items, i.Fits)
    (starts : ∀ i ∈ items, Starts i.text) (passed : ∀ i ∈ items, IsPassed i.text)
    {blanks inner : Bytes} (blank : Blank blanks) (blank' : Blank inner) (first : Bool)
    (rest : Bytes) :
    ∃ n ≤ (piecesFrom Spaced.bytes first items).length,
      ClosesIn n .list (!first)
        (blanks ++ (piecesFrom Spaced.bytes first items ++ (inner ++ 0x5D :: rest))) rest := by
  induction items generalizing blanks first with
  | nil =>
    refine ⟨0, Nat.zero_le _, ClosesIn.close (b := 0x5D) _ ?_ (by decide)⟩
    rw [piecesFrom, List.nil_append, ← List.append_assoc]
    exact skipBlanks_append (blank.append blank') (by decide) rest
  | cons item items ih =>
    obtain ⟨fits, fit⟩ := List.forall_mem_cons.1 fit
    obtain ⟨starts_item, starts⟩ := List.forall_mem_cons.1 starts
    obtain ⟨passed_item, passed⟩ := List.forall_mem_cons.1 passed
    have stops := stops_after Spaced.bytes items fits.after blank' (.inl rfl) rest
    obtain ⟨n, small, passes⟩ := passed_item _ stops
    obtain ⟨m, small', closes⟩ := ih fit starts passed fits.after false
    have next := nextItem_spaced fits starts_item blank first items (inner ++ 0x5D :: rest)
    refine ⟨n + m, ?_, .value (goOn_item next) passes closes⟩
    cases first <;>
      simp only [piecesFrom, Spaced.bytes, List.length_append, List.length_cons] <;> omega

theorem closesIn_entries {entries : List Entry} (fit : ∀ e ∈ entries, e.Fits)
    (names : ∀ e ∈ entries, IsString e.name) (passed : ∀ e ∈ entries, IsPassed e.value.text)
    {blanks inner : Bytes} (blank : Blank blanks) (blank' : Blank inner) (first : Bool)
    (rest : Bytes) :
    ∃ n ≤ (piecesFrom Entry.bytes first entries).length,
      ClosesIn n .object (!first)
        (blanks ++ (piecesFrom Entry.bytes first entries ++ (inner ++ 0x7D :: rest))) rest := by
  induction entries generalizing blanks first with
  | nil =>
    refine ⟨0, Nat.zero_le _, ClosesIn.close (b := 0x7D) _ ?_ (by decide)⟩
    rw [piecesFrom, List.nil_append, ← List.append_assoc]
    exact skipBlanks_append (blank.append blank') (by decide) rest
  | cons entry entries ih =>
    obtain ⟨fits, fit⟩ := List.forall_mem_cons.1 fit
    obtain ⟨name, names⟩ := List.forall_mem_cons.1 names
    obtain ⟨passed_entry, passed⟩ := List.forall_mem_cons.1 passed
    have stops := stops_after Entry.bytes entries fits.value.after blank' (.inr rfl) rest
    obtain ⟨n, small, passes⟩ := passed_entry _ stops
    obtain ⟨m, small', closes⟩ := ih fit names passed fits.value.after false
    have next := nextKey_entry fits blank first entries (inner ++ 0x7D :: rest)
    have enters := goOn_member next (skipString_append name _) (readColon_blanks fits.gap _)
    refine ⟨n + m, ?_, .value enters (passes.behind fits.value.before) closes⟩
    cases first <;>
      simp only [piecesFrom, Entry.bytes, Entry.tail, Spaced.bytes, List.length_append,
        List.length_cons] <;> omega

theorem passes_list {items : List Spaced} (fit : ∀ i ∈ items, i.Fits)
    (starts : ∀ i ∈ items, Starts i.text) (passed : ∀ i ∈ items, IsPassed i.text) {inner : Bytes}
    (blank : Blank inner) (rest : Bytes) :
    ∃ n ≤ (listBytes items inner).length, PassesIn n (listBytes items inner ++ rest) rest := by
  obtain ⟨n, small, closes⟩ := closesIn_items fit starts passed .nil blank true rest
  refine ⟨n + 1, ?_, .opened ?_ closes⟩
  · simp only [listBytes, List.length_cons, List.length_append]
    omega
  · unfold listBytes
    rw [List.cons_append, skipBlanks_cons (by decide)]
    simp only [List.append_assoc, List.singleton_append, List.nil_append]
    rfl

theorem passes_object {entries : List Entry} (fit : ∀ e ∈ entries, e.Fits)
    (names : ∀ e ∈ entries, IsString e.name) (passed : ∀ e ∈ entries, IsPassed e.value.text)
    {inner : Bytes} (blank : Blank inner) (rest : Bytes) :
    ∃ n ≤ (objectBytes entries inner).length,
      PassesIn n (objectBytes entries inner ++ rest) rest := by
  obtain ⟨n, small, closes⟩ := closesIn_entries fit names passed .nil blank true rest
  refine ⟨n + 1, ?_, .opened ?_ closes⟩
  · simp only [objectBytes, List.length_cons, List.length_append]
    omega
  · unfold objectBytes
    rw [List.cons_append, skipBlanks_cons (by decide)]
    simp only [List.append_assoc, List.singleton_append, List.nil_append]
    rfl

/-- Every value is passed, however deep it is nested. -/
theorem IsValue.passed {text : Bytes} (value : IsValue text) : IsPassed text := by
  have scalar {text : Bytes} (starts : Starts text) {rest : Bytes}
      (start : skipStart (text ++ rest) = .ok (none, rest)) :
      ∃ n ≤ text.length, PassesIn n (text ++ rest) rest := by
    obtain ⟨b, tail, rfl, visible, -⟩ := starts
    refine ⟨1, Nat.succ_pos _, .scalar ?_⟩
    rwa [List.cons_append, skipBlanks_cons visible]
  induction value with
  | null => exact fun rest _ => scalar IsValue.null.starts rfl
  | yes => exact fun rest _ => scalar IsValue.yes.starts rfl
  | no => exact fun rest _ => scalar IsValue.no.starts rfl
  | number isNumber =>
    exact fun rest stops =>
      scalar (IsValue.number isNumber).starts (skipStart_number isNumber stops)
  | negative isNumber =>
    exact fun rest stops =>
      scalar (IsValue.negative isNumber).starts (skipStart_negative isNumber stops)
  | string isString =>
    exact fun rest _ => scalar (IsValue.string isString).starts (skipStart_string isString rest)
  | list blank fit values ih =>
    exact fun rest _ => passes_list fit (fun i mem => (values i mem).starts) ih blank rest
  | object blank fit names _ ih => exact fun rest _ => passes_object fit names ih blank rest

theorem IsValue.skipped {text : Bytes} (value : IsValue text) {blanks rest : Bytes}
    (blank : Blank blanks) (stops : Stops rest) :
    skipValue (blanks ++ (text ++ rest)) = .ok rest := by
  obtain ⟨n, small, passes⟩ := value.passed rest stops
  refine (passes.behind blank).skipValue ?_
  simp only [List.length_append]
  omega

end PetClient.Json
