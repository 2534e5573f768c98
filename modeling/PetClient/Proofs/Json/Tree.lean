import PetClient.Proofs.Json.Exact

/-!
Values of any shape.  The fuel of the reader is spent along the text, two units for each byte at
most, so a value that was read somewhere is read wherever its text stands.
-/

namespace PetClient.Json

open Result (bind_eq_ok map_eq_ok)

/-- A text is read as a value with some levels left, by all the fuel that its length asks for. -/
structure TakesTree (depth : Nat) (text : Bytes) (value : Json) : Prop where
  starts : Starts text
  reads : ∀ fuel blanks rest, 2 * text.length ≤ fuel → Blank blanks → Stops rest →
    readTree fuel depth (blanks ++ (text ++ rest)) = .ok (value, rest)

theorem readTree_blanks {blanks : Bytes} (blank : Blank blanks) (fuel depth : Nat)
    (bytes : Bytes) : readTree fuel depth (blanks ++ bytes) = readTree fuel depth bytes := by
  cases fuel with
  | zero => rfl
  | succ fuel =>
    unfold readTree
    rw [skipBlanks_blanks blank]

theorem TakesTree.of_step {depth : Nat} {text : Bytes} {value : Json} (starts : Starts text)
    (reads : ∀ fuel rest, 2 * text.length ≤ fuel + 1 → Stops rest →
      readTree (fuel + 1) depth (text ++ rest) = .ok (value, rest)) :
    TakesTree depth text value := by
  refine ⟨starts, fun fuel blanks rest enough blank stops => ?_⟩
  rw [readTree_blanks blank]
  cases fuel with
  | zero =>
    obtain ⟨b, tail, rfl, -⟩ := starts
    cases enough
  | succ fuel => exact reads fuel rest enough stops

/-! ### Scalars -/

theorem readTree_string (fuel depth : Nat) (bytes : Bytes) :
    readTree (fuel + 1) depth (0x22 :: bytes) =
      readString bytes >>= fun (s, rest) => pure (.string s, rest) := by
  unfold readTree
  rfl

theorem readTree_negative (fuel depth : Nat) (bytes : Bytes) :
    readTree (fuel + 1) depth (0x2D :: bytes) =
      readNumber true bytes >>= fun (n, rest) => pure (.number n, rest) := by
  unfold readTree
  rfl

theorem readTree_digit {b : UInt8} (digit : isDigit b = true) (fuel depth : Nat) (bytes : Bytes) :
    readTree (fuel + 1) depth (b :: bytes) =
      readNumber false (b :: bytes) >>= fun (n, rest) => pure (.number n, rest) := by
  have bounds := bounds_of_isDigit digit
  have other {c : UInt8} (beyond : 0x39 < c.toNat ∨ c.toNat < 0x30) : b ≠ c := by
    rintro rfl
    omega
  unfold readTree
  rw [skipBlanks_cons (visible_of_isDigit digit).1]
  simp only [other (c := 0x6E) (by decide), other (c := 0x74) (by decide),
    other (c := 0x66) (by decide), other (c := 0x2D) (by decide), digit, ↓reduceIte]

theorem takesTree_number (depth : Nat) (t : NumberText) {n : Decimal.Number}
    (value : t.literal.toNumber = some n) : TakesTree depth t.bytes (.number n) := by
  refine .of_step t.isValue.starts fun fuel rest _ stops => ?_
  have number : readNumber t.negative (t.digits ++ rest) = .ok (n, rest) :=
    readNumber_eq_ok.2 ⟨_, t.readLiteral_append stops .valueEnds, value⟩
  unfold NumberText.bytes
  cases sign : t.negative with
  | true =>
    rw [sign] at number
    rw [if_pos rfl, List.cons_append, readTree_negative, number]
    rfl
  | false =>
    obtain ⟨b, tail, begins, digit⟩ := t.isNumber.starts_with_digit
    rw [sign, begins, List.cons_append] at number
    rw [if_neg Bool.false_ne_true, begins, List.cons_append, readTree_digit digit, number]
    rfl

theorem takesTree_string (depth : Nat) {s : String} {text : Bytes} (writes : WritesString s text) :
    TakesTree depth text (.string s) := by
  refine .of_step writes.starts fun fuel rest _ _ => ?_
  obtain ⟨written, writes, rfl⟩ := writes
  have string := readString_written writes rest
  rw [String.ofList_toList] at string
  rw [List.cons_append, List.append_assoc, List.singleton_append, readTree_string, string]
  rfl

theorem takesTree_null (depth : Nat) :
    TakesTree depth (Utf8.encode ['n', 'u', 'l', 'l']) .null :=
  .of_step ⟨0x6E, _, rfl, by decide⟩ fun fuel rest _ _ => by
    unfold readTree
    rfl

theorem takesTree_bool (depth : Nat) (b : Bool) :
    TakesTree depth (Utf8.encode (boolChars b)) (.bool b) := by
  cases b with
  | true =>
    refine .of_step ⟨0x74, _, rfl, by decide⟩ fun fuel rest _ _ => ?_
    unfold readTree
    rfl
  | false =>
    refine .of_step ⟨0x66, _, rfl, by decide⟩ fun fuel rest _ _ => ?_
    unfold readTree
    rfl

/-! ### Lists and objects -/

theorem readItems_spaced {depth : Nat} {values : List Json} {items : List Spaced}
    (takes : List.Forall₂ (fun value (i : Spaced) => TakesTree depth i.text value) values items)
    (fit : ∀ i ∈ items, i.Fits) {blanks inner : Bytes} (blank : Blank blanks)
    (blank' : Blank inner) (first : Bool) (fuel : Nat) (rest : Bytes)
    (enough : 2 * (piecesFrom Spaced.bytes first items).length < fuel) :
    ∃ last, Blank last ∧ readItems fuel depth first
      (blanks ++ (piecesFrom Spaced.bytes first items ++ (inner ++ 0x5D :: rest))) =
        .ok (values, last ++ 0x5D :: rest) := by
  induction takes generalizing blanks first fuel with
  | nil =>
    cases fuel with
    | zero => cases enough
    | succ fuel =>
      refine ⟨blanks ++ inner, blank.append blank', ?_⟩
      unfold readItems
      rw [piecesFrom, List.nil_append, ← List.append_assoc,
        nextItem_close (blank.append blank') first]
      rfl
  | @cons value item values items takes takes_rest ih =>
    cases fuel with
    | zero => cases enough
    | succ fuel =>
      obtain ⟨fits, fit⟩ := List.forall_mem_cons.1 fit
      have stops := stops_after Spaced.bytes items fits.after blank' (.inl rfl) rest
      have size : item.text.length + (piecesFrom Spaced.bytes false items).length ≤
          (piecesFrom Spaced.bytes first (item :: items)).length := by
        cases first <;> simp only [piecesFrom, Spaced.bytes, List.length_append, List.length_cons]
          <;> omega
      have nonempty : 0 < item.text.length := by
        obtain ⟨b, tail, begins, -⟩ := takes.starts
        simp [begins]
      have taken := takes.reads fuel [] _ (by omega) .nil stops
      obtain ⟨last, blank_last, later⟩ := ih fit fits.after false fuel (by omega)
      refine ⟨last, blank_last, ?_⟩
      unfold readItems
      rw [nextItem_spaced fits takes.starts blank]
      rw [List.nil_append] at taken
      simp only [bind, Except.bind, taken, later]
      rfl

theorem readMembers_spaced {depth : Nat} {entries : List ((String × Json) × Entry)}
    (fit : ∀ e ∈ entries, e.2.Fits) (names : ∀ e ∈ entries, WritesName e.1.1 e.2.name)
    (takes : ∀ e ∈ entries, TakesTree depth e.2.value.text e.1.2) {blanks inner : Bytes}
    (blank : Blank blanks) (blank' : Blank inner) (first : Bool) (before : List (String × Json))
    (fuel : Nat) (rest : Bytes)
    (enough : 2 * (piecesFrom Entry.bytes first (entries.map Prod.snd)).length < fuel) :
    ∃ last, Blank last ∧ readMembers fuel depth first before
      (blanks ++ (piecesFrom Entry.bytes first (entries.map Prod.snd) ++ (inner ++ 0x7D :: rest))) =
        .ok ((entries.map Prod.fst).foldl (fun members e => insertMember e.1 e.2 members) before,
          last ++ 0x7D :: rest) := by
  induction entries generalizing blanks first before fuel with
  | nil =>
    cases fuel with
    | zero => cases enough
    | succ fuel =>
      refine ⟨blanks ++ inner, blank.append blank', ?_⟩
      unfold readMembers
      rw [List.map_nil, piecesFrom, List.nil_append, ← List.append_assoc,
        nextKey_close (blank.append blank') first]
      rfl
  | cons e entries ih =>
    cases fuel with
    | zero => cases enough
    | succ fuel =>
      obtain ⟨fits, fit⟩ := List.forall_mem_cons.1 fit
      obtain ⟨name, names⟩ := List.forall_mem_cons.1 names
      obtain ⟨takes_value, takes⟩ := List.forall_mem_cons.1 takes
      have stops := stops_after Entry.bytes (entries.map Prod.snd) fits.value.after blank' (.inr rfl) rest
      have size : e.2.value.text.length +
          (piecesFrom Entry.bytes false (entries.map Prod.snd)).length <
            (piecesFrom Entry.bytes first ((e :: entries).map Prod.snd)).length := by
        cases first <;> simp only [List.map_cons, piecesFrom, Entry.bytes, Entry.tail, Spaced.bytes,
          List.length_append, List.length_cons] <;> omega
      have taken := takes_value.reads fuel _ _ (by omega) fits.value.before stops
      obtain ⟨last, blank_last, later⟩ := ih fit names takes fits.value.after false
        (insertMember e.1.1 e.1.2 before) fuel (by omega)
      refine ⟨last, blank_last, ?_⟩
      unfold readMembers
      rw [List.map_cons, nextKey_entry fits blank]
      simp only [bind, Except.bind, readString_name name, readColon_blanks fits.gap, taken]
      exact later

theorem takesTree_list {depth : Nat} (deep : 1 < depth) {values : List Json} {items : List Spaced}
    (takes : List.Forall₂ (fun value (i : Spaced) => TakesTree (depth - 1) i.text value)
      values items)
    (fit : ∀ i ∈ items, i.Fits) {inner : Bytes} (blank' : Blank inner) :
    TakesTree depth (listBytes items inner) (.array values) := by
  refine .of_step ⟨0x5B, _, rfl, by decide⟩ fun fuel rest enough _ => ?_
  have spare : 2 * (piecesFrom Spaced.bytes true items).length < fuel := by
    simp only [listBytes, List.length_cons, List.length_append] at enough
    omega
  obtain ⟨last, blank_last, tail⟩ := readItems_spaced takes fit .nil blank' true fuel rest spare
  rw [List.nil_append] at tail
  unfold listBytes readTree
  rw [List.cons_append, skipBlanks_cons rfl]
  simp only [List.append_assoc, List.singleton_append, Nat.not_le.2 deep, ↓reduceIte, tail, bind,
    Except.bind, closeList_blanks blank_last]
  rfl

theorem takesTree_object {depth : Nat} (deep : 1 < depth)
    {entries : List ((String × Json) × Entry)} (fit : ∀ e ∈ entries, e.2.Fits)
    (names : ∀ e ∈ entries, WritesName e.1.1 e.2.name)
    (takes : ∀ e ∈ entries, TakesTree (depth - 1) e.2.value.text e.1.2) {inner : Bytes}
    (blank' : Blank inner) :
    TakesTree depth (objectBytes (entries.map Prod.snd) inner) (.object
      ((entries.map Prod.fst).foldl (fun members e => insertMember e.1 e.2 members) [])) := by
  refine .of_step ⟨0x7B, _, rfl, by decide⟩ fun fuel rest enough _ => ?_
  have spare : 2 * (piecesFrom Entry.bytes true (entries.map Prod.snd)).length < fuel := by
    simp only [objectBytes, List.length_cons, List.length_append] at enough
    omega
  obtain ⟨last, blank_last, tail⟩ :=
    readMembers_spaced fit names takes .nil blank' true [] fuel rest spare
  rw [List.nil_append] at tail
  unfold objectBytes readTree
  rw [List.cons_append, skipBlanks_cons rfl]
  simp only [List.append_assoc, List.singleton_append, Nat.not_le.2 deep, ↓reduceIte, tail, bind,
    Except.bind, closeObject_blanks blank_last]
  rfl

/-! ### What is read -/

/-- What is read with some fuel is a value behind some blanks, which is read wherever it stands. -/
def ExactTree (fuel : Nat) : Prop :=
  ∀ depth bytes value rest, readTree fuel depth bytes = .ok (value, rest) →
    ∃ text, skipBlanks bytes = text ++ rest ∧ IsValue text ∧ TakesTree depth text value

theorem itemized_of_readItems {fuel depth : Nat} (exact : ∀ n < fuel, ExactTree n)
    {first : Bool} {bytes last : Bytes} {values : List Json}
    (tail : readItems fuel depth first bytes = .ok (values, last)) :
    ∃ items, Itemized first bytes items last ∧ (∀ i ∈ items, IsValue i.text) ∧
      List.Forall₂ (fun value (i : Spaced) => TakesTree depth i.text value) values items := by
  induction fuel generalizing first bytes values with
  | zero => cases tail
  | succ fuel ih =>
    unfold readItems at tail
    obtain ⟨next, step, tail⟩ := bind_eq_ok.1 tail
    cases next with
    | none =>
      cases tail
      exact ⟨[], .nil, List.forall_mem_nil _, .nil⟩
    | some start =>
      obtain ⟨⟨value, behind⟩, read_item, tail⟩ := bind_eq_ok.1 tail
      obtain ⟨⟨others, last'⟩, later, tail⟩ := bind_eq_ok.1 tail
      cases tail
      obtain ⟨text, taken, isValue, takes⟩ :=
        exact fuel (Nat.lt_succ_self _) depth start value behind read_item
      obtain ⟨items, itemized, areValues, takes_items⟩ :=
        ih (fun n less => exact n (Nat.lt_succ_of_lt less)) later
      obtain ⟨item, rfl, itemized⟩ := itemized.cons (leads_of_nextItem step) taken
      exact ⟨item :: items, itemized, List.forall_mem_cons.2 ⟨isValue, areValues⟩,
        .cons takes takes_items⟩

theorem keyed_of_readMembers {fuel depth : Nat} (exact : ∀ n < fuel, ExactTree n)
    {first : Bool} {bytes last : Bytes} {before result : List (String × Json)}
    (tail : readMembers fuel depth first before bytes = .ok (result, last)) :
    ∃ entries : List ((String × Json) × Entry), Keyed first bytes (entries.map Prod.snd) last ∧
      (∀ e ∈ entries, WritesName e.1.1 e.2.name) ∧ (∀ e ∈ entries, IsValue e.2.value.text) ∧
      (∀ e ∈ entries, TakesTree depth e.2.value.text e.1.2) ∧
      result =
        (entries.map Prod.fst).foldl (fun members e => insertMember e.1 e.2 members) before := by
  induction fuel generalizing first bytes before with
  | zero => cases tail
  | succ fuel ih =>
    unfold readMembers at tail
    obtain ⟨next, step, tail⟩ := bind_eq_ok.1 tail
    cases next with
    | none =>
      cases tail
      exact ⟨[], .nil, List.forall_mem_nil _, List.forall_mem_nil _, List.forall_mem_nil _, rfl⟩
    | some key =>
      obtain ⟨⟨name, gap⟩, string, tail⟩ := bind_eq_ok.1 tail
      obtain ⟨start, colon, tail⟩ := bind_eq_ok.1 tail
      obtain ⟨⟨value, behind⟩, read_value, later⟩ := bind_eq_ok.1 tail
      obtain ⟨written, writes, rfl⟩ := writesName_of_readString string
      obtain ⟨text, taken, isValue, takes⟩ :=
        exact fuel (Nat.lt_succ_self _) depth start value behind read_value
      obtain ⟨entries, keyed, names, areValues, takes_entries, rfl⟩ :=
        ih (fun n less => exact n (Nat.lt_succ_of_lt less)) later
      obtain ⟨entry, rfl, rfl, keyed⟩ := keyed.cons (leads_of_nextKey step) colon taken
      exact ⟨((name, value), entry) :: entries, keyed, List.forall_mem_cons.2 ⟨writes, names⟩,
        List.forall_mem_cons.2 ⟨isValue, areValues⟩,
        List.forall_mem_cons.2 ⟨takes, takes_entries⟩, rfl⟩

def HeadTree (depth : Nat) (bytes : Bytes) (value : Json) (rest : Bytes) : Prop :=
  ∃ text, bytes = text ++ rest ∧ IsValue text ∧ TakesTree depth text value

section HeadTree

variable {depth : Nat} {behind rest : Bytes} {value : Json}

theorem headTree_word {b : UInt8} {word : List Char} {known : Json}
    (read : (readWord word behind >>= fun last => pure (known, last)) = .ok (value, rest))
    (isValue : IsValue (b :: wordBytes word))
    (takes : TakesTree depth (b :: wordBytes word) known) :
    HeadTree depth (b :: behind) value rest := by
  obtain ⟨last, spelled, same⟩ := bind_eq_ok.1 read
  cases same
  exact ⟨_, by rw [parts_of_readWord spelled, List.cons_append], isValue, takes⟩

theorem headTree_number {negative : Bool}
    (read : (readNumber negative behind >>= fun p => pure (Json.number p.1, p.2)) =
      .ok (value, rest)) :
    HeadTree depth (if negative then 0x2D :: behind else behind) value rest := by
  obtain ⟨⟨n, last⟩, number, same⟩ := bind_eq_ok.1 read
  cases same
  obtain ⟨literal, first, toNumber⟩ := readNumber_eq_ok.1 number
  obtain ⟨t, rfl, rfl, rfl⟩ := exists_of_readLiteral first
  refine ⟨t.bytes, ?_, t.isValue, takesTree_number depth t toNumber⟩
  unfold NumberText.bytes
  split <;> rfl

theorem headTree_string
    (read : (readString behind >>= fun p => pure (Json.string p.1, p.2)) = .ok (value, rest)) :
    HeadTree depth (0x22 :: behind) value rest := by
  obtain ⟨⟨s, last⟩, string, same⟩ := bind_eq_ok.1 read
  cases same
  obtain ⟨written, writes, rfl⟩ := writesText_of_readString string
  refine ⟨0x22 :: (written ++ [0x22]), ?_, .string writes.isString,
    takesTree_string depth ⟨_, writes, rfl⟩⟩
  rw [List.cons_append, ← List.append_cons]

variable {fuel : Nat} (exact : ∀ n < fuel, ExactTree n) (deep : 1 < depth)

include exact deep

theorem headTree_list
    (read : (readItems fuel (depth - 1) true behind >>= fun p =>
      closeList p.2 >>= fun last => pure (Json.array p.1, last)) = .ok (value, rest)) :
    HeadTree depth (0x5B :: behind) value rest := by
  obtain ⟨⟨values, last⟩, tail, later⟩ := bind_eq_ok.1 read
  obtain ⟨rest', closes, same⟩ := bind_eq_ok.1 later
  cases same
  obtain ⟨items, itemized, areValues, takes⟩ := itemized_of_readItems exact tail
  obtain ⟨inner, blank, parts⟩ := itemized.closed (next_of_closeList closes)
  exact ⟨listBytes items inner, parts, .list blank itemized.fit areValues,
    takesTree_list deep takes itemized.fit blank⟩

theorem headTree_object
    (read : (readMembers fuel (depth - 1) true [] behind >>= fun p =>
      closeObject p.2 >>= fun last => pure (Json.object p.1, last)) = .ok (value, rest)) :
    HeadTree depth (0x7B :: behind) value rest := by
  obtain ⟨⟨members, last⟩, tail, later⟩ := bind_eq_ok.1 read
  obtain ⟨rest', closes, same⟩ := bind_eq_ok.1 later
  cases same
  obtain ⟨entries, keyed, names, areValues, takes, rfl⟩ := keyed_of_readMembers exact tail
  obtain ⟨inner, blank, parts⟩ := keyed.closed (next_of_closeObject closes)
  refine ⟨objectBytes (entries.map Prod.snd) inner, parts, .object blank keyed.fit ?_ ?_, ?_⟩
  · exact List.forall_mem_map.2 fun e mem => (names e mem).isString
  · exact List.forall_mem_map.2 areValues
  · exact takesTree_object deep (List.forall_mem_map.1 keyed.fit) names takes blank

end HeadTree

theorem exactTree (fuel : Nat) : ExactTree fuel := by
  induction fuel using Nat.strongRecOn with
  | ind fuel ih =>
    intro depth bytes value rest read
    change HeadTree depth (skipBlanks bytes) value rest
    cases fuel with
    | zero => cases read
    | succ fuel =>
      have shorter : ∀ n < fuel, ExactTree n := fun n less => ih n (Nat.lt_succ_of_lt less)
      unfold readTree at read
      split at read
      · cases read
      rename_i b behind start
      rw [start]
      split at read
      · subst b
        exact headTree_word read .null (takesTree_null depth)
      split at read
      · subst b
        exact headTree_word read .yes (takesTree_bool depth true)
      split at read
      · subst b
        exact headTree_word read .no (takesTree_bool depth false)
      split at read
      · subst b
        exact headTree_number read
      split at read
      · exact headTree_number read
      split at read
      · subst b
        exact headTree_string read
      split at read
      · subst b
        split at read
        · cases read
        · rename_i deep
          exact headTree_list shorter (Nat.not_le.1 deep) read
      split at read
      · subst b
        split at read
        · cases read
        · rename_i deep
          exact headTree_object shorter (Nat.not_le.1 deep) read
      · cases read

theorem TakesTree.takes {text : Bytes} {value : Json} (takes : TakesTree nestingLimit text value) :
    Takes any.read text value := by
  refine ⟨takes.starts, fun blanks rest blank stops => takes.reads _ blanks rest ?_ blank stops⟩
  simp only [List.length_append]
  omega

theorem exact_any : Exact any.read := by
  intro bytes value rest read
  obtain ⟨text, taken, isValue, takes⟩ := exactTree _ _ bytes value rest read
  exact ⟨text, taken, isValue, takes.takes⟩

end PetClient.Json
