import PetClient.Json.Record
import PetClient.Proofs.Json.Skip

/-!
The ways to write a value.  Each of them is read as that value, behind any blanks and in front of
anything that may follow.
-/

namespace PetClient.Json

variable {α δ : Type}

def WritesName (name : String) (written : Bytes) : Prop :=
  ∃ text, WritesText name.toList text ∧ written = text ++ [0x22]

def WritesBool (b : Bool) (text : Bytes) : Prop :=
  text = Utf8.encode (boolChars b)

def WritesOption (writes : α → Bytes → Prop) : Option α → Bytes → Prop
  | none, text => text = Utf8.encode ['n', 'u', 'l', 'l']
  | some value, text => writes value text

def WritesList (writes : α → Bytes → Prop) (values : List α) (text : Bytes) : Prop :=
  ∃ items inner, (∀ i ∈ items, i.Fits) ∧ Blank inner ∧
    List.Forall₂ (fun value (i : Spaced) => writes value i.text) values items ∧
    text = listBytes items inner

/-- The entries may come in any order; the last one of a key counts. -/
def WritesDict (writes : α → Bytes → Prop) (d : Dict α) (text : Bytes) : Prop :=
  ∃ (entries : List ((String × α) × Entry)) (inner : Bytes), (∀ e ∈ entries, e.2.Fits) ∧
    Blank inner ∧ (∀ e ∈ entries, WritesName e.1.1 e.2.name) ∧
    (∀ e ∈ entries, writes e.1.2 e.2.value.text) ∧
    d = (entries.map Prod.fst).foldl (fun d e => d.insert e.1 e.2) ∅ ∧
    text = objectBytes (entries.map Prod.snd) inner

theorem readString_name {name : String} {written : Bytes} (writes : WritesName name written)
    (rest : Bytes) : readString (written ++ rest) = .ok (name, rest) := by
  obtain ⟨text, writes, rfl⟩ := writes
  have string := readString_written writes rest
  rwa [String.ofList_toList, List.append_cons] at string

/-! ### Scalars -/

theorem takes_bool {b : Bool} {text : Bytes} (writes : WritesBool b text) :
    Takes readBool text b := by
  subst writes
  cases b with
  | true =>
    refine ⟨⟨0x74, _, rfl, by decide⟩, fun blanks rest blank _ => ?_⟩
    change readBool (blanks ++ 0x74 :: _) = _
    unfold readBool
    rw [skipBlanks_append blank rfl]
    rfl
  | false =>
    refine ⟨⟨0x66, _, rfl, by decide⟩, fun blanks rest blank _ => ?_⟩
    change readBool (blanks ++ 0x66 :: _) = _
    unfold readBool
    rw [skipBlanks_append blank rfl]
    rfl

theorem Variants.takes {variants : Variants α} {name : String} {value : α} {text : Bytes}
    (known : variants.known.lookup name = some value) (writes : WritesString name text) :
    Takes variants.read text value := by
  refine ⟨writes.starts, fun blanks rest blank _ => ?_⟩
  obtain ⟨written, writes, rfl⟩ := writes
  have string := readString_written writes rest
  rw [String.ofList_toList] at string
  rw [List.cons_append, List.append_assoc, List.singleton_append]
  unfold Variants.read
  rw [skipBlanks_append blank rfl]
  change variants.readName _ = _
  unfold Variants.readName
  simp only [bind, Except.bind, string, known]
  rfl

theorem Takes.into {read : Reader α} {text : Bytes} {value : α} (takes : Takes read text value)
    (fill : Option α → δ) : Takes (readInto read fill) text (fill (some value)) :=
  takes.map fun value => fill (some value)

theorem takes_unit : Takes unit.read (Utf8.encode ['n', 'u', 'l', 'l']) () := by
  refine ⟨⟨0x6E, _, rfl, by decide⟩, fun blanks rest blank _ => ?_⟩
  change unit.read (blanks ++ 0x6E :: _) = _
  unfold unit
  dsimp only
  rw [skipBlanks_append blank rfl]
  rfl

theorem takes_none (read : Reader α) :
    Takes (readOptional read) (Utf8.encode ['n', 'u', 'l', 'l']) none := by
  refine ⟨⟨0x6E, _, rfl, by decide⟩, fun blanks rest blank _ => ?_⟩
  change readOptional read (blanks ++ 0x6E :: _) = _
  unfold readOptional
  rw [skipBlanks_append blank rfl]
  rfl

theorem Takes.some {read : Reader α} {text : Bytes} {value : α} (takes : Takes read text value)
    (noNull : text.head? ≠ some 0x6E) : Takes (readOptional read) text (some value) := by
  refine ⟨takes.starts, fun blanks rest blank stops => ?_⟩
  have read_value := takes.reads [] rest .nil stops
  obtain ⟨b, tail, rfl, visible, -⟩ := takes.starts
  rw [List.nil_append, List.cons_append] at read_value
  unfold readOptional
  rw [List.cons_append, skipBlanks_append blank visible]
  split
  · rename_i same
    cases same
    exact absurd rfl noNull
  · rw [read_value]
    rfl

theorem takes_optional {read : Reader α} {writes : α → Bytes → Prop}
    (takes : ∀ {value text}, writes value text → Takes read text value)
    (noNull : ∀ {value text}, writes value text → text.head? ≠ some 0x6E) {value : Option α}
    {text : Bytes} (writes_value : WritesOption writes value text) :
    Takes (readOptional read) text value := by
  cases value with
  | none =>
    cases writes_value
    exact takes_none read
  | some value => exact (takes writes_value).some (noNull writes_value)

theorem WritesString.noNull {s : String} {text : Bytes} (writes : WritesString s text) :
    text.head? ≠ some 0x6E := by
  obtain ⟨written, -, rfl⟩ := writes
  exact fun same => absurd (Option.some.inj same) (by decide)

theorem WritesInteger.noNull {n : Int} {text : Bytes} (writes : WritesInteger n text) :
    text.head? ≠ some 0x6E := by
  obtain ⟨b, tail, begins, -, -, noNull⟩ := begins_integer n
  subst writes
  intro same
  rw [show Utf8.encode (intChars n) = b :: tail from begins] at same
  exact noNull (Option.some.inj same)

/-! ### Lists and dictionaries -/

theorem readListTail_spaced {read : Reader α} {values : List α} {items : List Spaced}
    (takes : List.Forall₂ (fun value (i : Spaced) => Takes read i.text value) values items)
    (fit : ∀ i ∈ items, i.Fits) {blanks inner : Bytes} (blank : Blank blanks)
    (blank' : Blank inner) (first : Bool) (budget rest : Bytes)
    (enough : items.length < budget.length) :
    ∃ last, Blank last ∧ readListTail read budget first
      (blanks ++ (piecesFrom Spaced.bytes first items ++ (inner ++ 0x5D :: rest))) =
        .ok (values, last ++ 0x5D :: rest) := by
  induction takes generalizing blanks first budget with
  | nil =>
    cases budget with
    | nil => cases enough
    | cons _ budget =>
      refine ⟨blanks ++ inner, blank.append blank', ?_⟩
      unfold readListTail
      rw [piecesFrom, List.nil_append, ← List.append_assoc,
        nextItem_close (blank.append blank') first]
      rfl
  | @cons value item values items takes takes_rest ih =>
    cases budget with
    | nil => cases enough
    | cons _ budget =>
      obtain ⟨fits, fit⟩ := List.forall_mem_cons.1 fit
      have stops := stops_after Spaced.bytes items fits.after blank' (.inl rfl) rest
      have taken := takes.reads [] _ .nil stops
      obtain ⟨last, blank_last, later⟩ :=
        ih fit fits.after false budget (Nat.lt_of_succ_lt_succ enough)
      refine ⟨last, blank_last, ?_⟩
      unfold readListTail
      rw [nextItem_spaced fits takes.starts blank]
      rw [List.nil_append] at taken
      simp only [bind, Except.bind, taken, later]
      rfl

theorem takes_list {read : Reader α} {writes : α → Bytes → Prop}
    (takes : ∀ {value text}, writes value text → Takes read text value) {values : List α}
    {text : Bytes} (writes_values : WritesList writes values text) :
    Takes (readList read) text values := by
  obtain ⟨items, inner, fit, blank', written, rfl⟩ := writes_values
  refine ⟨⟨0x5B, _, rfl, by decide⟩, fun blanks rest blank _ => ?_⟩
  have enough : items.length <
      (piecesFrom Spaced.bytes true items ++ (inner ++ 0x5D :: rest)).length := by
    have starts := (List.forall₂_and_left _ _).1
      (written.flip.imp fun _ _ writes => And.intro (takes writes).starts writes)
    refine length_lt_budget items (fun item mem => ?_) inner 0x5D rest
    obtain ⟨b, tail, begins, -⟩ := starts.1 item mem
    simp [Spaced.bytes, begins]
  obtain ⟨last, blank_last, tail⟩ := readListTail_spaced (written.imp fun _ _ => takes) fit .nil
    blank' true _ rest enough
  rw [List.nil_append] at tail
  unfold listBytes readList
  rw [List.cons_append, skipBlanks_append blank rfl]
  simp only [List.append_assoc, List.singleton_append, tail, bind, Except.bind,
    closeList_blanks blank_last]
  rfl

theorem readDictTail_spaced {read : Reader α} {entries : List ((String × α) × Entry)}
    (fit : ∀ e ∈ entries, e.2.Fits) (names : ∀ e ∈ entries, WritesName e.1.1 e.2.name)
    (takes : ∀ e ∈ entries, Takes read e.2.value.text e.1.2) {blanks inner : Bytes}
    (blank : Blank blanks) (blank' : Blank inner) (first : Bool) (before : Dict α)
    (budget rest : Bytes) (enough : entries.length < budget.length) :
    ∃ last, Blank last ∧ readDictTail read budget first before
      (blanks ++ (piecesFrom Entry.bytes first (entries.map Prod.snd) ++ (inner ++ 0x7D :: rest))) =
        .ok ((entries.map Prod.fst).foldl (fun d e => d.insert e.1 e.2) before,
          last ++ 0x7D :: rest) := by
  induction entries generalizing blanks first before budget with
  | nil =>
    cases budget with
    | nil => cases enough
    | cons _ budget =>
      refine ⟨blanks ++ inner, blank.append blank', ?_⟩
      unfold readDictTail
      rw [List.map_nil, piecesFrom, List.nil_append, ← List.append_assoc,
        nextKey_close (blank.append blank') first]
      rfl
  | cons e entries ih =>
    cases budget with
    | nil => cases enough
    | cons _ budget =>
      obtain ⟨fits, fit⟩ := List.forall_mem_cons.1 fit
      obtain ⟨name, names⟩ := List.forall_mem_cons.1 names
      obtain ⟨takes_value, takes⟩ := List.forall_mem_cons.1 takes
      have stops := stops_after Entry.bytes (entries.map Prod.snd) fits.value.after blank' (.inr rfl) rest
      have taken := takes_value.reads _ _ fits.value.before stops
      obtain ⟨last, blank_last, later⟩ := ih fit names takes fits.value.after false
        (before.insert e.1.1 e.1.2) budget (Nat.lt_of_succ_lt_succ enough)
      refine ⟨last, blank_last, ?_⟩
      unfold readDictTail
      rw [List.map_cons, nextKey_entry fits blank]
      simp only [bind, Except.bind, readString_name name, readColon_blanks fits.gap, taken]
      exact later

theorem takes_dict {read : Reader α} {writes : α → Bytes → Prop}
    (takes : ∀ {value text}, writes value text → Takes read text value) {d : Dict α}
    {text : Bytes} (writes_dict : WritesDict writes d text) : Takes (readDict read) text d := by
  obtain ⟨entries, inner, fit, blank', names, values, rfl, rfl⟩ := writes_dict
  refine ⟨⟨0x7B, _, rfl, by decide⟩, fun blanks rest blank _ => ?_⟩
  have enough := length_lt_entries (entries.map Prod.snd) inner rest
  rw [List.length_map] at enough
  obtain ⟨last, blank_last, tail⟩ := readDictTail_spaced fit names
    (fun e mem => takes (values e mem)) .nil blank' true ∅ _ rest enough
  rw [List.nil_append] at tail
  unfold objectBytes readDict
  rw [List.cons_append, skipBlanks_append blank rfl]
  simp only [List.append_assoc, List.singleton_append, tail, bind, Except.bind,
    closeObject_blanks blank_last]
  rfl

end PetClient.Json
