import PetClient.Proofs.Json.Feeding
import PetClient.Proofs.Json.Passed

/-!
Readers that take nothing but values.  Whatever such a reader takes is the text of one value, and it
takes that text for the same wherever it stands.
-/

namespace PetClient.Json

open Result (bind_eq_ok map_eq_ok)

variable {α β δ : Type}

/-- What a reader takes is a value behind some blanks, which it takes wherever it stands. -/
def Exact (read : Reader α) : Prop :=
  ∀ bytes value rest, read bytes = .ok (value, rest) →
    ∃ text, skipBlanks bytes = text ++ rest ∧ IsValue text ∧ Takes read text value

theorem Exact.takes_alone {read : Reader α} (exact : Exact read) {text : Bytes}
    (isValue : IsValue text) {value : α} (taken : read text = .ok (value, [])) :
    Takes read text value := by
  obtain ⟨core, whole, -, takes⟩ := exact text value [] taken
  obtain ⟨b, tail, begins, visible, -⟩ := isValue.starts
  rw [begins, skipBlanks_cons visible, ← begins, List.append_nil] at whole
  exact whole ▸ takes

/-! ### Names -/

theorem WritesName.isString {name : String} {written : Bytes} (writes : WritesName name written) :
    IsString written := by
  obtain ⟨text, writes, rfl⟩ := writes
  exact writes.isString

theorem WritesName.unique {name name' : String} {written : Bytes} (writes : WritesName name written)
    (writes' : WritesName name' written) : name = name' := by
  have read := readString_name writes []
  rw [readString_name writes' []] at read
  exact (congrArg Prod.fst (Except.ok.inj read)).symm

theorem writesName_of_readString {bytes rest : Bytes} {name : String}
    (read : readString bytes = .ok (name, rest)) :
    ∃ written, WritesName name written ∧ bytes = written ++ rest := by
  obtain ⟨text, writes, rfl⟩ := writesText_of_readString read
  exact ⟨_, ⟨text, writes, rfl⟩, List.append_cons ..⟩

theorem IsString.name_of_readString {text bytes rest : Bytes} {name : String}
    (isString : IsString text) (read : readString (text ++ bytes) = .ok (name, rest)) :
    WritesName name text ∧ rest = bytes := by
  have ended := (skipString_of_readString read).symm.trans (skipString_append isString bytes)
  cases ended
  obtain ⟨written, writes, same⟩ := writesName_of_readString read
  obtain rfl := List.append_cancel_right same
  exact ⟨writes, rfl⟩

/-! ### Scalars -/

theorem exact_text : Exact readText := by
  intro bytes value rest read
  unfold readText at read
  split at read
  · rename_i behind start
    obtain ⟨written, writes, rfl⟩ := writesText_of_readString read
    refine ⟨0x22 :: (written ++ [0x22]), ?_, .string writes.isString, takes_text ⟨_, writes, rfl⟩⟩
    rw [start, List.cons_append, ← List.append_cons]
  · exact absurd read refuse_ne_ok

theorem parts_of_readBool {bytes rest : Bytes} {b : Bool}
    (read : readBool bytes = .ok (b, rest)) :
    skipBlanks bytes = Utf8.encode (boolChars b) ++ rest := by
  unfold readBool at read
  split at read
  · rename_i start
    obtain ⟨last, word, same⟩ := map_eq_ok.1 read
    cases same
    rw [start, parts_of_readWord word]
    rfl
  · rename_i start
    obtain ⟨last, word, same⟩ := map_eq_ok.1 read
    cases same
    rw [start, parts_of_readWord word]
    rfl
  · exact absurd read refuse_ne_ok

theorem exact_bool : Exact readBool := by
  intro bytes value rest read
  refine ⟨_, parts_of_readBool read, ?_, takes_bool rfl⟩
  cases value with
  | true => exact .yes
  | false => exact .no

theorem exact_unit : Exact unit.read := by
  intro bytes value rest read
  unfold unit at read
  dsimp only at read
  split at read
  · rename_i start
    obtain ⟨last, word, same⟩ := map_eq_ok.1 read
    cases same
    refine ⟨Utf8.encode ['n', 'u', 'l', 'l'], ?_, .null, takes_unit⟩
    rw [start, parts_of_readWord word]
    rfl
  · exact absurd read refuse_ne_ok

theorem Exact.map {read : Reader α} (exact : Exact read) (f : α → β) :
    Exact fun bytes => (read bytes).map fun (value, rest) => (f value, rest) := by
  intro bytes value rest read_map
  obtain ⟨⟨first, rest'⟩, read_first, same⟩ := map_eq_ok.1 read_map
  cases same
  obtain ⟨text, taken, isValue, takes⟩ := exact bytes first rest read_first
  exact ⟨text, taken, isValue, takes.map f⟩

theorem Exact.into {read : Reader α} (exact : Exact read) (fill : Option α → δ) :
    Exact (readInto read fill) :=
  exact.map fun value => fill (some value)

/-! ### Ranges -/

theorem Range.accept_eq_ok {range : Range} {number : Decimal.Number} {bytes rest : Bytes}
    {n : Int} :
    range.accept number bytes = .ok (n, rest) ↔
      number = .integer n ∧ range.Holds n ∧ bytes = rest := by
  unfold Range.accept
  cases number with
  | float x => exact ⟨nofun, nofun⟩
  | integer m =>
    dsimp only
    split
    · rename_i holds
      constructor
      · intro accepts
        cases accepts
        exact ⟨rfl, holds, rfl⟩
      · rintro ⟨same, -, rfl⟩
        cases same
        rfl
    · rename_i beyond
      constructor
      · nofun
      · rintro ⟨same, holds, -⟩
        cases same
        exact absurd holds beyond

theorem readNumber_eq_ok {negative : Bool} {bytes rest : Bytes} {number : Decimal.Number} :
    readNumber negative bytes = .ok (number, rest) ↔
      ∃ literal, readLiteral .valueEnds negative bytes = .ok (literal, rest) ∧
        literal.toNumber = some number := by
  unfold readNumber
  constructor
  · intro read
    obtain ⟨⟨literal, behind⟩, first, later⟩ := bind_eq_ok.1 read
    dsimp only at later
    split at later
    · rename_i value
      cases later
      exact ⟨literal, first, value⟩
    · cases later
  · rintro ⟨literal, first, value⟩
    simp only [bind, Except.bind, first, value]
    rfl

/-- A literal is read as a whole number of a range only if it is one, wherever it stands. -/
theorem Range.read_number (range : Range) (t : NumberText) {blanks rest rest' : Bytes}
    (blank : Blank blanks) (stops : Stops rest) {n : Int} :
    range.read (blanks ++ (t.bytes ++ rest)) = .ok (n, rest') ↔
      t.literal.IsInteger n ∧ range.Holds n ∧ rest' = rest := by
  have start : skipBlanks (blanks ++ (t.bytes ++ rest)) = t.bytes ++ rest := by
    obtain ⟨b, tail, begins, visible, -⟩ := t.isValue.starts
    rw [begins]
    exact skipBlanks_append blank visible _
  have literal := t.readLiteral_append stops .valueEnds
  have number {m : Decimal.Number} {behind : Bytes} :
      readNumber t.negative (t.digits ++ rest) = .ok (m, behind) ↔
        t.literal.toNumber = some m ∧ behind = rest := by
    rw [readNumber_eq_ok, literal]
    constructor
    · rintro ⟨literal, same, value⟩
      cases same
      exact ⟨value, rfl⟩
    · rintro ⟨value, rfl⟩
      exact ⟨_, rfl, value⟩
  have unfolded : range.read (blanks ++ (t.bytes ++ rest)) =
      (readNumber t.negative (t.digits ++ rest) >>= fun p => range.accept p.1 p.2) := by
    unfold Range.read
    rw [start]
    unfold NumberText.bytes
    cases t.negative with
    | true => rfl
    | false =>
      obtain ⟨b, tail, begins, digit⟩ := t.isNumber.starts_with_digit
      obtain ⟨-, noSign⟩ := ne_sign_of_isDigit digit
      simp only [begins, Bool.false_eq_true, ↓reduceIte, List.cons_append, noSign, digit]
  rw [unfolded, bind_eq_ok]
  simp only [Prod.exists, number, accept_eq_ok, ← Decimal.Literal.toNumber_eq_integer]
  constructor
  · rintro ⟨m, behind, ⟨value, rfl⟩, rfl, holds, rfl⟩
    exact ⟨value, holds, rfl⟩
  · rintro ⟨value, holds, rfl⟩
    exact ⟨_, _, ⟨value, rfl⟩, rfl, holds, rfl⟩

theorem Range.exists_of_read {range : Range} {bytes rest : Bytes} {n : Int}
    (read : range.read bytes = .ok (n, rest)) :
    ∃ t : NumberText, skipBlanks bytes = t.bytes ++ rest ∧ t.literal.IsInteger n ∧
      range.Holds n := by
  have found {negative : Bool} {behind : Bytes}
      (taken : (readNumber negative behind >>= fun p => range.accept p.1 p.2) = .ok (n, rest)) :
      ∃ t : NumberText, t.negative = negative ∧ behind = t.digits ++ rest ∧
        t.literal.IsInteger n ∧ range.Holds n := by
    obtain ⟨⟨number, last⟩, first, accepts⟩ := bind_eq_ok.1 taken
    obtain ⟨rfl, holds, rfl⟩ := accept_eq_ok.1 accepts
    obtain ⟨literal, first, value⟩ := readNumber_eq_ok.1 first
    obtain ⟨t, sign, rfl, parts⟩ := exists_of_readLiteral first
    exact ⟨t, sign, parts, Decimal.Literal.isInteger_of_toNumber value, holds⟩
  unfold Range.read at read
  split at read
  · cases read
  · rename_i b behind start
    split at read
    · rename_i sign
      obtain ⟨t, negative, rfl, isInteger, holds⟩ := found read
      refine ⟨t, ?_, isInteger, holds⟩
      rw [start, sign, NumberText.bytes, if_pos negative]
      rfl
    · split at read
      · obtain ⟨t, positive, parts, isInteger, holds⟩ := found read
        refine ⟨t, ?_, isInteger, holds⟩
        rw [start, parts, NumberText.bytes, if_neg (by simp [positive])]
      · exact absurd read refuse_ne_ok

theorem exact_range (range : Range) : Exact range.read := by
  intro bytes value rest read
  obtain ⟨t, taken, isInteger, holds⟩ := Range.exists_of_read read
  exact ⟨t.bytes, taken, t.isValue, t.isValue.starts,
    fun _ _ blank stops => (range.read_number t blank stops).2 ⟨isInteger, holds, rfl⟩⟩

theorem exact_int64 : Exact int64.read :=
  (exact_range .int64).map Int64.ofInt

theorem exact_word32 : Exact word32.read :=
  (exact_range .word32).map fun n => UInt32.ofNat n.toNat

theorem exact_word64 : Exact word64.read :=
  (exact_range .word64).map fun n => UInt64.ofNat n.toNat

/-! ### Optional values, lists and dictionaries -/

theorem Exact.optional {read : Reader α} (exact : Exact read) : Exact (readOptional read) := by
  intro bytes value rest read_optional
  unfold readOptional at read_optional
  split at read_optional
  · rename_i start
    obtain ⟨last, word, same⟩ := map_eq_ok.1 read_optional
    cases same
    refine ⟨Utf8.encode ['n', 'u', 'l', 'l'], ?_, .null, takes_none read⟩
    rw [start, parts_of_readWord word]
    rfl
  · rename_i noNull
    obtain ⟨⟨inner, rest'⟩, read_inner, same⟩ := map_eq_ok.1 read_optional
    cases same
    obtain ⟨text, taken, isValue, takes⟩ := exact _ inner rest read_inner
    rw [skipBlanks_skipBlanks] at taken
    refine ⟨text, taken, isValue, takes.some fun first => ?_⟩
    obtain ⟨tail, rfl⟩ := List.head?_eq_some_iff.1 first
    exact noNull _ taken

/-- What is read as the items of a list are items, each of which is read wherever it stands. -/
theorem itemized_of_readListTail {read : Reader α} (exact : Exact read) {budget bytes last : Bytes}
    {first : Bool} {values : List α}
    (tail : readListTail read budget first bytes = .ok (values, last)) :
    ∃ items, Itemized first bytes items last ∧ (∀ i ∈ items, IsValue i.text) ∧
      List.Forall₂ (fun value (i : Spaced) => Takes read i.text value) values items := by
  induction budget generalizing first bytes values with
  | nil => cases tail
  | cons b budget ih =>
    unfold readListTail at tail
    obtain ⟨next, step, tail⟩ := bind_eq_ok.1 tail
    cases next with
    | none =>
      cases tail
      exact ⟨[], .nil, List.forall_mem_nil _, .nil⟩
    | some start =>
      obtain ⟨⟨value, behind⟩, read_item, tail⟩ := bind_eq_ok.1 tail
      obtain ⟨⟨others, last'⟩, later, tail⟩ := bind_eq_ok.1 tail
      cases tail
      obtain ⟨text, taken, isValue, takes⟩ := exact start value behind read_item
      obtain ⟨items, itemized, areValues, takes_items⟩ := ih later
      obtain ⟨item, rfl, itemized⟩ := itemized.cons (leads_of_nextItem step) taken
      exact ⟨item :: items, itemized, List.forall_mem_cons.2 ⟨isValue, areValues⟩,
        .cons takes takes_items⟩

theorem Exact.list {read : Reader α} (exact : Exact read) : Exact (readList read) := by
  intro bytes values rest read_list
  unfold readList at read_list
  split at read_list
  · rename_i inside start
    obtain ⟨⟨values', last⟩, tail, later⟩ := bind_eq_ok.1 read_list
    obtain ⟨rest', closes, made⟩ := bind_eq_ok.1 later
    cases made
    obtain ⟨items, itemized, areValues, takes⟩ := itemized_of_readListTail exact tail
    obtain ⟨inner, blank, parts⟩ := itemized.closed (next_of_closeList closes)
    exact ⟨listBytes items inner, start.trans parts, .list blank itemized.fit areValues,
      takes_list (fun takes => takes) ⟨items, inner, itemized.fit, blank, takes, rfl⟩⟩
  · exact absurd read_list refuse_ne_ok

theorem keyed_of_readDictTail {read : Reader α} (exact : Exact read) {budget bytes last : Bytes}
    {first : Bool} {before result : Dict α}
    (tail : readDictTail read budget first before bytes = .ok (result, last)) :
    ∃ entries : List ((String × α) × Entry), Keyed first bytes (entries.map Prod.snd) last ∧
      (∀ e ∈ entries, WritesName e.1.1 e.2.name) ∧ (∀ e ∈ entries, IsValue e.2.value.text) ∧
      (∀ e ∈ entries, Takes read e.2.value.text e.1.2) ∧
      result = (entries.map Prod.fst).foldl (fun d e => d.insert e.1 e.2) before := by
  induction budget generalizing first bytes before with
  | nil => cases tail
  | cons b budget ih =>
    unfold readDictTail at tail
    obtain ⟨next, step, tail⟩ := bind_eq_ok.1 tail
    cases next with
    | none =>
      cases tail
      exact ⟨[], .nil, List.forall_mem_nil _, List.forall_mem_nil _, List.forall_mem_nil _, rfl⟩
    | some key =>
      obtain ⟨⟨name, gap⟩, string, tail⟩ := bind_eq_ok.1 tail
      obtain ⟨start, colon, tail⟩ := bind_eq_ok.1 tail
      obtain ⟨⟨value, behind⟩, read_value, later⟩ := bind_eq_ok.1 tail
      obtain ⟨written, writes, rfl⟩ := writesName_of_readString string
      obtain ⟨text, taken, isValue, takes⟩ := exact start value behind read_value
      obtain ⟨entries, keyed, names, areValues, takes_entries, rfl⟩ := ih later
      obtain ⟨entry, rfl, rfl, keyed⟩ := keyed.cons (leads_of_nextKey step) colon taken
      exact ⟨((name, value), entry) :: entries, keyed, List.forall_mem_cons.2 ⟨writes, names⟩,
        List.forall_mem_cons.2 ⟨isValue, areValues⟩,
        List.forall_mem_cons.2 ⟨takes, takes_entries⟩, rfl⟩

theorem Exact.dict {read : Reader α} (exact : Exact read) : Exact (readDict read) := by
  intro bytes value rest read_dict
  unfold readDict at read_dict
  split at read_dict
  · rename_i inside start
    obtain ⟨⟨result, last⟩, tail, later⟩ := bind_eq_ok.1 read_dict
    obtain ⟨rest', closes, made⟩ := bind_eq_ok.1 later
    cases made
    obtain ⟨entries, keyed, names, areValues, takes, result⟩ := keyed_of_readDictTail exact tail
    obtain ⟨inner, blank, parts⟩ := keyed.closed (next_of_closeObject closes)
    have fit := List.forall_mem_map.1 keyed.fit
    refine ⟨objectBytes (entries.map Prod.snd) inner, start.trans parts, ?_,
      takes_dict (fun takes => takes)
        ⟨entries, inner, fit, blank, names, takes, result, rfl⟩⟩
    exact .object blank keyed.fit (List.forall_mem_map.2 fun e mem => (names e mem).isString)
      (List.forall_mem_map.2 areValues)
  · exact absurd read_dict refuse_ne_ok

/-! ### Enumerations -/

theorem Variants.exists_of_readName {variants : Variants α} {bytes rest : Bytes} {value : α}
    (read : variants.readName bytes = .ok (value, rest)) :
    ∃ name written, WritesName name written ∧ variants.known.lookup name = some value ∧
      bytes = written ++ rest := by
  unfold Variants.readName at read
  obtain ⟨⟨name, rest'⟩, string, later⟩ := bind_eq_ok.1 read
  dsimp only at later
  split at later
  · rename_i known
    cases later
    obtain ⟨written, writes, rfl⟩ := writesName_of_readString string
    exact ⟨name, written, writes, known, rfl⟩
  · cases later

theorem Variants.takes_object {variants : Variants α} {name : String} {value : α} {entry : Entry}
    (known : variants.known.lookup name = some value) (fits : entry.Fits)
    (writes : WritesName name entry.name) (none : Takes unit.read entry.value.text ())
    {inner : Bytes} (blank' : Blank inner) :
    Takes variants.read (objectBytes [entry] inner) value := by
  refine ⟨⟨0x7B, _, rfl, by decide⟩, fun blanks rest blank _ => ?_⟩
  have named (behind : Bytes) :
      variants.readName (entry.name ++ behind) = .ok (value, behind) := by
    unfold Variants.readName
    simp only [bind, Except.bind, readString_name writes, known]
    rfl
  have closing : skipBlanks (entry.value.after ++ (inner ++ 0x7D :: rest)) = 0x7D :: rest := by
    rw [← List.append_assoc]
    exact skipBlanks_append (fits.value.after.append blank') rfl rest
  have stops : Stops (entry.value.after ++ (inner ++ 0x7D :: rest)) :=
    .behind fits.value.after (.behind blank' (stops_cons (by simp) rest))
  have taken := none.reads _ _ fits.value.before stops
  have parts : objectBytes [entry] inner ++ rest =
      0x7B :: (entry.before ++ 0x22 :: (entry.name ++ (entry.gap ++ 0x3A ::
        (entry.value.before ++ (entry.value.text ++
          (entry.value.after ++ (inner ++ 0x7D :: rest))))))) := by
    simp [objectBytes, piecesFrom, Entry.bytes, Entry.tail, Spaced.bytes]
  rw [parts]
  unfold Variants.read
  rw [skipBlanks_append blank rfl]
  simp only [skipBlanks_append fits.before (show isBlank 0x22 = false from rfl), named, bind,
    Except.bind, readColon_blanks fits.gap, taken, closing]
  rfl

theorem Variants.exact (variants : Variants α) : Exact variants.read := by
  intro bytes value rest read
  unfold Variants.read at read
  split at read
  · cases read
  · rename_i behind start
    obtain ⟨name, written, writes, known, rfl⟩ := exists_of_readName read
    obtain ⟨text, writes_text, rfl⟩ := writes
    exact ⟨0x22 :: (text ++ [0x22]), start, .string writes_text.isString,
      Variants.takes known ⟨text, writes_text, rfl⟩⟩
  · rename_i inside start
    dsimp only at read
    split at read
    · rename_i behind quote
      obtain ⟨⟨value', gap⟩, string, named⟩ := bind_eq_ok.1 read
      obtain ⟨null, colon, valued⟩ := bind_eq_ok.1 named
      obtain ⟨⟨⟨⟩, behind'⟩, none, later⟩ := bind_eq_ok.1 valued
      dsimp only at later
      obtain ⟨name, written, writes, known, rfl⟩ := exists_of_readName string
      obtain ⟨text, taken, isValue, takes⟩ := exact_unit null () behind' none
      have leads : Leads true inside (0x22 :: (written ++ gap)) := quote ▸ .first
      obtain ⟨entry, rfl, rfl, keyed⟩ := Keyed.nil.cons leads colon taken
      split at later
      · cases later
      · rename_i brace
        cases later
        obtain ⟨inner, blank, parts⟩ := keyed.closed brace
        have fits := List.forall_mem_singleton.1 keyed.fit
        refine ⟨objectBytes [entry] inner, start.trans parts, ?_,
          takes_object known fits writes takes blank⟩
        exact .object blank keyed.fit (List.forall_mem_singleton.2 writes.isString)
          (List.forall_mem_singleton.2 isValue)
      · cases later
    · obtain ⟨taken, string, -⟩ := bind_eq_ok.1 read
      exact absurd string refuse_ne_ok
  · cases read

/-! ### Sound readers -/

/-- What a reader takes is passed over as one value, and it is taken wherever it stands. -/
structure Sound (read : Reader α) : Prop where
  passes : PassesOver read
  exact : Exact read

theorem sound_text : Sound readText :=
  ⟨passesOver_text, exact_text⟩

theorem sound_bool : Sound readBool :=
  ⟨passesOver_bool, exact_bool⟩

theorem sound_int64 : Sound int64.read :=
  ⟨passesOver_int64, exact_int64⟩

theorem sound_word32 : Sound word32.read :=
  ⟨passesOver_word32, exact_word32⟩

theorem sound_word64 : Sound word64.read :=
  ⟨passesOver_word64, exact_word64⟩

theorem sound_variants (variants : Variants α) : Sound variants.read :=
  ⟨passesOver_variants variants, variants.exact⟩

namespace Sound

variable {read : Reader α}

theorem optional (sound : Sound read) : Sound (readOptional read) :=
  ⟨sound.passes.optional, sound.exact.optional⟩

theorem list (sound : Sound read) : Sound (readList read) :=
  ⟨sound.passes.list, sound.exact.list⟩

theorem dict (sound : Sound read) : Sound (readDict read) :=
  ⟨sound.passes.dict, sound.exact.dict⟩

theorem into (sound : Sound read) (fill : Option α → δ) : Sound (readInto read fill) :=
  ⟨sound.passes.into fill, sound.exact.into fill⟩

theorem takes_given (sound : Sound read) {text blanks behind rest : Bytes} {value : α}
    (isValue : IsValue text) (blank : Blank blanks) (stops : Stops behind)
    (taken : read (blanks ++ (text ++ behind)) = .ok (value, rest)) :
    rest = behind ∧ Takes read text value := by
  -- The reader ends where the value ends, since both are passed over.
  obtain ⟨n, passes⟩ := sound.passes _ _ _ taken
  obtain ⟨n', -, passes'⟩ := isValue.passed behind stops
  obtain rfl := passes.unique (passes'.behind blank)
  obtain ⟨core, whole, -, takes⟩ := sound.exact _ _ _ taken
  obtain ⟨b, tail, begins, visible, -⟩ := isValue.starts
  rw [skipBlanks_blanks blank, begins, List.cons_append, skipBlanks_cons visible,
    ← List.cons_append, ← begins] at whole
  obtain rfl := List.append_cancel_right whole
  exact ⟨rfl, takes⟩

theorem decode_iff {shape : Shape α} (sound : Sound shape.read) {before text after : Bytes}
    (blank : Blank before) (blank' : Blank after) (isValue : IsValue text) {value : α} :
    shape.decode (before ++ (text ++ after)) = .ok value ↔ Takes shape.read text value := by
  constructor
  · intro decoded
    obtain ⟨rest, -, read⟩ := Shape.read_of_decode decoded
    exact (sound.takes_given isValue blank (stops_of_blank blank') read).2
  · exact fun takes => takes.decode blank blank'

end Sound

/-! ### Records -/

namespace Record

/-- What is read as the members of an object feeds the draft. -/
theorem keyed_of_readObjectTail {record : Record δ α}
    (exact : ∀ m ∈ record.members, ∀ draft, Exact (m.read draft)) {budget bytes rest : Bytes}
    {first : Bool} {draft last : δ}
    (tail : record.readObjectTail budget first draft bytes = .ok (last, rest)) :
    ∃ entries, Keyed first bytes entries rest ∧ (∀ e ∈ entries, IsString e.name) ∧
      (∀ e ∈ entries, IsValue e.value.text) ∧ record.FeedsAll draft entries last := by
  induction budget generalizing first bytes draft with
  | nil => cases tail
  | cons b budget ih =>
    unfold readObjectTail at tail
    obtain ⟨next, step, tail⟩ := bind_eq_ok.1 tail
    cases next with
    | none =>
      cases tail
      exact ⟨[], .nil, List.forall_mem_nil _, List.forall_mem_nil _, .nil⟩
    | some key =>
      obtain ⟨⟨name, gap⟩, string, named⟩ := bind_eq_ok.1 tail
      dsimp only at named
      obtain ⟨written, writes, rfl⟩ := writesName_of_readString string
      have leads := leads_of_nextKey step
      split at named
      · rename_i notFound
        obtain ⟨start, colon, valued⟩ := bind_eq_ok.1 named
        obtain ⟨behind, skip, later⟩ := bind_eq_ok.1 valued
        obtain ⟨text, taken, isValue⟩ := isValue_of_skipValue skip
        obtain ⟨entries, keyed, names, areValues, feeds⟩ := ih later
        obtain ⟨entry, rfl, rfl, keyed⟩ := keyed.cons leads colon taken
        exact ⟨entry :: entries, keyed, List.forall_mem_cons.2 ⟨writes.isString, names⟩,
          List.forall_mem_cons.2 ⟨isValue, areValues⟩,
          .cons (.other writes notFound isValue) feeds⟩
      · rename_i member found
        split at named
        · unfold faultOfObject at named
          split at named <;> cases named
        · rename_i unset
          obtain ⟨start, colon, valued⟩ := bind_eq_ok.1 named
          obtain ⟨⟨next, behind⟩, read_value, later⟩ := bind_eq_ok.1 valued
          obtain ⟨text, taken, isValue, takes⟩ :=
            exact member (List.mem_of_find?_eq_some found) draft start next behind read_value
          obtain ⟨entries, keyed, names, areValues, feeds⟩ := ih later
          obtain ⟨entry, rfl, rfl, keyed⟩ := keyed.cons leads colon taken
          exact ⟨entry :: entries, keyed, List.forall_mem_cons.2 ⟨writes.isString, names⟩,
            List.forall_mem_cons.2 ⟨isValue, areValues⟩,
            .cons (.field writes found (Bool.eq_false_iff.2 unset) takes) feeds⟩

theorem itemized_of_readArrayTail {members : List (Member δ)}
    (exact : ∀ m ∈ members, ∀ draft, Exact (m.read draft)) {bytes rest : Bytes} {first : Bool}
    {draft last : δ} (tail : readArrayTail draft first bytes members = .ok (last, rest)) :
    ∃ items, Itemized first bytes items rest ∧ (∀ i ∈ items, IsValue i.text) ∧
      FeedsItems members draft items last := by
  induction members generalizing first bytes draft with
  | nil =>
    cases tail
    exact ⟨[], .nil, List.forall_mem_nil _, .nil⟩
  | cons member members ih =>
    obtain ⟨exact_member, exact⟩ := List.forall_mem_cons.1 exact
    unfold readArrayTail at tail
    obtain ⟨next, step, tail⟩ := bind_eq_ok.1 tail
    cases next with
    | none =>
      cases tail
      exact ⟨[], .nil, List.forall_mem_nil _, .nil⟩
    | some start =>
      obtain ⟨⟨next, behind⟩, read_item, later⟩ := bind_eq_ok.1 tail
      obtain ⟨text, taken, isValue, takes⟩ := exact_member draft start next behind read_item
      obtain ⟨items, itemized, areValues, feeds⟩ := ih exact later
      obtain ⟨item, rfl, itemized⟩ := itemized.cons (leads_of_nextItem step) taken
      exact ⟨item :: items, itemized, List.forall_mem_cons.2 ⟨isValue, areValues⟩,
        .cons takes feeds⟩

def Heads (record : Record δ α) (bytes : Bytes) (value : α) (rest : Bytes) : Prop :=
  ∃ text, bytes = text ++ rest ∧ IsValue text ∧ Takes record.read text value ∧
    ∃ n, PassesIn n bytes rest

section Heads

variable {record : Record δ α} (exact : ∀ m ∈ record.members, ∀ draft, Exact (m.read draft))
  {draft : δ} {value : α} {inside last rest : Bytes}

include exact

theorem heads_object
    (tail : record.readObjectTail inside true record.blank inside = .ok (draft, last))
    (built : record.build draft = .ok value) (closes : closeObject last = .ok rest) :
    record.Heads (0x7B :: inside) value rest := by
  obtain ⟨entries, keyed, names, areValues, feeds⟩ := keyed_of_readObjectTail exact tail
  obtain ⟨inner, blank, parts⟩ := keyed.closed (next_of_closeObject closes)
  obtain ⟨n, -, passes⟩ := passes_object keyed.fit names
    (fun e mem => (areValues e mem).passed) blank rest
  exact ⟨objectBytes entries inner, parts, .object blank keyed.fit names areValues,
    feeds.takes keyed.fit blank built, n, parts ▸ passes⟩

theorem heads_list
    (tail : readArrayTail record.blank true inside record.members = .ok (draft, last))
    (built : record.build draft = .ok value) (closes : closeList last = .ok rest) :
    record.Heads (0x5B :: inside) value rest := by
  obtain ⟨items, itemized, areValues, feeds⟩ := itemized_of_readArrayTail exact tail
  obtain ⟨inner, blank, parts⟩ := itemized.closed (next_of_closeList closes)
  obtain ⟨n, -, passes⟩ := passes_list itemized.fit (fun i mem => (areValues i mem).starts)
    (fun i mem => (areValues i mem).passed) blank rest
  exact ⟨listBytes items inner, parts, .list blank itemized.fit areValues,
    feeds.takes itemized.fit blank built, n, parts ▸ passes⟩

theorem heads_of_read {bytes : Bytes} (read : record.read bytes = .ok (value, rest)) :
    record.Heads (skipBlanks bytes) value rest := by
  unfold Record.read at read
  split at read
  · rename_i inside start
    obtain ⟨⟨draft, last⟩, tail, read⟩ := bind_eq_ok.1 read
    dsimp only at read
    split at read
    · unfold faultOfObject at read
      split at read <;> cases read
    · rename_i built
      obtain ⟨rest', closes, made⟩ := bind_eq_ok.1 read
      cases made
      rw [start]
      exact heads_object exact tail built closes
  · rename_i inside start
    obtain ⟨⟨draft, last⟩, tail, read⟩ := bind_eq_ok.1 read
    dsimp only at read
    split at read
    · unfold faultOfList at read
      split at read <;> cases read
    · rename_i built
      obtain ⟨rest', closes, made⟩ := bind_eq_ok.1 read
      cases made
      rw [start]
      exact heads_list exact tail built closes
  · exact absurd read refuse_ne_ok

theorem sound : Sound record.read := by
  constructor
  · intro bytes value rest read
    obtain ⟨text, taken, -, -, n, passes⟩ := heads_of_read exact read
    exact ⟨n, passes.congr (skipBlanks_skipBlanks bytes).symm⟩
  · intro bytes value rest read
    obtain ⟨text, taken, isValue, takes, -⟩ := heads_of_read exact read
    exact ⟨text, taken, isValue, takes⟩

end Heads

end Record

end PetClient.Json
