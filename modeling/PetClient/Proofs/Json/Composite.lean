import PetClient.Json.Record
import PetClient.Proofs.Dict
import PetClient.Proofs.Json.Scalar

/-!
Reading what was written, for lists, dictionaries, enumerations and records.  What is written of
several items is read item by item: the text in front of each one leads to it, and what follows is
left for the next.
-/

namespace PetClient.Json

variable {α δ : Type}

/-! ### Pieces and commas -/

section Pieces

variable {ι : Type} {piece : ι → Bytes}

theorem eq_piecesFrom (text : List ι → Bytes) (none : text [] = [])
    (one : ∀ i, text [i] = piece i)
    (more : ∀ i j rest, text (i :: j :: rest) = piece i ++ 0x2C :: text (j :: rest))
    (items : List ι) : text items = piecesFrom piece true items := by
  cases items with
  | nil => exact none
  | cons i rest =>
    induction rest generalizing i with
    | nil => exact (one i).trans (List.append_nil _).symm
    | cons j rest ih =>
      rw [more, ih]
      rfl

theorem ends_piecesFrom (items : List ι) {close : UInt8} (closes : close = 0x5D ∨ close = 0x7D)
    (rest : Bytes) : Ends (piecesFrom piece false items ++ close :: rest) := by
  intro b mem
  cases items with
  | nil =>
    cases mem
    exact .inr closes
  | cons i items =>
    cases mem
    exact .inl rfl

theorem length_le_length_piecesFrom (first : Bool) (items : List ι)
    (nonempty : ∀ i ∈ items, 0 < (piece i).length) :
    items.length ≤ (piecesFrom piece first items).length := by
  induction items generalizing first with
  | nil => exact Nat.zero_le _
  | cons i items ih =>
    have here := nonempty i (List.mem_cons_self ..)
    have later := ih false fun j mem => nonempty j (List.mem_cons_of_mem _ mem)
    cases first <;> simp only [piecesFrom, List.length_cons, List.length_append] <;> omega

theorem length_lt_budget (items : List ι) (nonempty : ∀ i ∈ items, 0 < (piece i).length)
    (blanks : Bytes) (close : UInt8) (rest : Bytes) :
    items.length < (piecesFrom piece true items ++ (blanks ++ close :: rest)).length := by
  have longer := length_le_length_piecesFrom true items nonempty
  simp only [List.length_append, List.length_cons]
  omega

end Pieces

/-! ### Lists -/

theorem encode_compactItems (items : List Json) :
    Utf8.encode (compactItems items) = piecesFrom bytes true items := by
  apply eq_piecesFrom (fun items => Utf8.encode (compactItems items)) rfl (fun _ => rfl)
  intro item next rest
  have split : compactItems (item :: next :: rest) =
      item.compactChars ++ ',' :: compactItems (next :: rest) := rfl
  rw [split, Utf8.encode_append, Utf8.encode_cons]
  rfl

theorem bytes_array (items : List Json) :
    (array items).bytes = 0x5B :: (piecesFrom bytes true items ++ [0x5D]) := by
  rw [← encode_compactItems]
  simp only [bytes, compactChars, Utf8.encode_cons, Utf8.encode_append]
  rfl

theorem nextItem_first {blanks : Bytes} (blank : Blank blanks) {b : UInt8}
    (visible : isBlank b = false) (noBracket : b ≠ 0x5D) (rest : Bytes) :
    nextItem true (blanks ++ b :: rest) = .ok (some (b :: rest)) := by
  unfold nextItem
  rw [skipBlanks_append blank visible]
  split
  · contradiction
  · rename_i same
    exact absurd (List.cons.inj same).1 noBracket
  · rename_i same
    cases same
    rfl

theorem nextItem_comma {blanks before : Bytes} (blank : Blank blanks) (blank' : Blank before)
    {b : UInt8} (visible : isBlank b = false) (noBracket : b ≠ 0x5D) (rest : Bytes) :
    nextItem false (blanks ++ 0x2C :: (before ++ b :: rest)) = .ok (some (b :: rest)) := by
  unfold nextItem
  rw [skipBlanks_append blank rfl]
  split
  · contradiction
  · rename_i same
    exact absurd (List.cons.inj same).1 (by decide)
  · rename_i same
    cases same
    rw [if_neg Bool.false_ne_true, if_pos rfl, skipBlanks_append blank' visible]
    split
    · contradiction
    · rename_i same
      exact absurd (List.cons.inj same).1 noBracket
    · rfl

theorem nextItem_piecesFrom {item : Json} (begins : Begins item.bytes) (first : Bool)
    (items : List Json) (rest : Bytes) :
    nextItem first (piecesFrom bytes first (item :: items) ++ rest) =
      .ok (some (item.bytes ++ (piecesFrom bytes false items ++ rest))) := by
  obtain ⟨b, tail, starts, visible, noBracket, -⟩ := begins
  cases first with
  | true =>
    simp only [piecesFrom, starts, List.cons_append, List.append_assoc]
    exact nextItem_first .nil visible noBracket _
  | false =>
    simp only [piecesFrom, starts, List.cons_append, List.append_assoc]
    exact nextItem_comma .nil .nil visible noBracket _

/-- Items are read one by one up to the closing bracket. -/
theorem readListTail_piecesFrom {read : Reader α} {write : α → Json} (values : List α)
    (reads : ∀ value ∈ values, Reads read (write value) value) (first : Bool)
    (budget rest : Bytes) (enough : values.length < budget.length) :
    readListTail read budget first (piecesFrom bytes first (values.map write) ++ 0x5D :: rest) =
      .ok (values, 0x5D :: rest) := by
  induction values generalizing first budget with
  | nil =>
    cases budget with
    | nil => cases enough
    | cons _ budget => cases first <;> rfl
  | cons value values ih =>
    cases budget with
    | nil => cases enough
    | cons _ budget =>
      have reads_value := reads value (List.mem_cons_self ..)
      have reads_values := ih (fun v mem => reads v (List.mem_cons_of_mem _ mem)) false budget
        (Nat.lt_of_succ_lt_succ enough)
      unfold readListTail
      rw [List.map_cons, nextItem_piecesFrom reads_value.begins]
      change (read _ >>= _) = _
      rw [reads_value.reads _ (ends_piecesFrom _ (.inl rfl) rest)]
      change (readListTail read budget false _ >>= _) = _
      rw [reads_values]
      rfl

theorem list_lawful {shape : Shape α} (lawful : shape.Lawful) : (list shape).Lawful := by
  intro values
  refine ⟨⟨0x5B, _, bytes_array _, rfl, by decide, by decide⟩, fun rest _ => ?_⟩
  have nonempty : ∀ item ∈ values.map shape.write, 0 < item.bytes.length := by
    intro item mem
    obtain ⟨value, -, rfl⟩ := List.mem_map.1 mem
    obtain ⟨b, tail, starts, -⟩ := (lawful value).begins
    rw [starts]
    exact Nat.succ_pos _
  have enough := length_lt_budget (values.map shape.write) nonempty [] 0x5D rest
  rw [List.length_map, List.nil_append] at enough
  have tail := readListTail_piecesFrom values (fun value _ => lawful value) true _ rest enough
  change readList shape.read ((array (values.map shape.write)).bytes ++ rest) = _
  rw [bytes_array, List.cons_append, List.append_assoc, List.singleton_append]
  unfold readList
  rw [skipBlanks_cons rfl]
  simp only [tail]
  rfl

/-! ### Members -/

def memberTail (member : String × Json) : Bytes :=
  Utf8.encode (member.1.toList.flatMap escapeChar) ++ 0x22 :: 0x3A :: member.2.bytes

def memberBytes (member : String × Json) : Bytes :=
  0x22 :: memberTail member

theorem encode_member (member : String × Json) :
    Utf8.encode (quoted member.1.toList ++ ':' :: member.2.compactChars) =
      memberBytes member := by
  rw [Utf8.encode_append, encode_quoted, Utf8.encode_cons, List.cons_append, List.append_assoc]
  rfl

theorem encode_compactMembers (members : List (String × Json)) :
    Utf8.encode (compactMembers members) = piecesFrom memberBytes true members := by
  apply eq_piecesFrom (fun members => Utf8.encode (compactMembers members)) rfl encode_member
  intro member next rest
  have split : compactMembers (member :: next :: rest) =
      (quoted member.1.toList ++ ':' :: member.2.compactChars) ++
        ',' :: compactMembers (next :: rest) := by
    simp [compactMembers]
  rw [split, Utf8.encode_append, encode_member, Utf8.encode_cons]
  rfl

theorem bytes_object (members : List (String × Json)) :
    (object members).bytes = 0x7B :: (piecesFrom memberBytes true members ++ [0x7D]) := by
  rw [← encode_compactMembers]
  simp only [bytes, compactChars, Utf8.encode_cons, Utf8.encode_append]
  rfl

theorem nextKey_piecesFrom (first : Bool) (member : String × Json)
    (members : List (String × Json)) (rest : Bytes) :
    nextKey first (piecesFrom memberBytes first (member :: members) ++ rest) =
      .ok (some (memberTail member ++ (piecesFrom memberBytes false members ++ rest))) := by
  cases first with
  | true =>
    rw [piecesFrom, memberBytes, List.cons_append, List.cons_append, List.append_assoc]
    rfl
  | false =>
    rw [piecesFrom, memberBytes, List.cons_append, List.cons_append, List.cons_append,
      List.append_assoc]
    rfl

theorem readString_memberTail (member : String × Json) (rest : Bytes) :
    readString (memberTail member ++ rest) = .ok (member.1, 0x3A :: (member.2.bytes ++ rest)) := by
  unfold memberTail
  rw [List.append_assoc, List.cons_append, readString_escaped, String.ofList_toList]
  rfl

theorem length_lt_members (members : List (String × Json)) (rest : Bytes) :
    members.length < (piecesFrom memberBytes true members ++ 0x7D :: rest).length := by
  have nonempty : ∀ member ∈ members, 0 < (memberBytes member).length :=
    fun _ _ => Nat.succ_pos _
  exact length_lt_budget members nonempty [] 0x7D rest

/-- A way to write the members of an object: what is written of a member, that part of it that
stands behind the quote of its name, and what stands behind its colon. -/
structure MemberForm where
  piece : String × Json → Bytes
  tail : String × Json → Bytes
  value : Json → Bytes
  nextKey : ∀ (first : Bool) (member : String × Json) (members : List (String × Json))
    (rest : Bytes), Json.nextKey first (piecesFrom piece first (member :: members) ++ rest) =
      .ok (some (tail member ++ (piecesFrom piece false members ++ rest)))
  readName : ∀ (member : String × Json) (rest : Bytes),
    readString (tail member ++ rest) = .ok (member.1, 0x3A :: (value member.2 ++ rest))

def compactForm : MemberForm :=
  ⟨memberBytes, memberTail, bytes, nextKey_piecesFrom, readString_memberTail⟩

theorem piece_compactForm : compactForm.piece = memberBytes :=
  rfl

def MemberForm.Takes (form : MemberForm) (closing : Bytes) (read : Reader α) (json : Json)
    (value : α) : Prop :=
  ∀ members, read (form.value json ++ (piecesFrom form.piece false members ++ closing)) =
    .ok (value, piecesFrom form.piece false members ++ closing)

theorem Reads.takes {read : Reader α} {json : Json} {value : α} (reads : Reads read json value)
    (rest : Bytes) : compactForm.Takes (0x7D :: rest) read json value :=
  fun members => reads.reads _ (ends_piecesFrom members (.inr rfl) rest)

theorem nextKey_brace (rest : Bytes) (first : Bool) : nextKey first (0x7D :: rest) = .ok none := by
  cases first <;> rfl

/-! ### Dictionaries -/

theorem insertEntry_append {key : String} {value : α} {entries : List (String × α)}
    (above : ∀ e ∈ entries, e.1 < key) :
    Dict.insertEntry key value entries = entries ++ [(key, value)] := by
  induction entries with
  | nil => rfl
  | cons e entries ih =>
    obtain ⟨other, old⟩ := e
    have below : other < key := above (other, old) (List.mem_cons_self ..)
    have not_lt : ¬key < other := String.lt_asymm below
    have not_eq : key ≠ other := fun same => String.lt_irrefl other (same ▸ below)
    unfold Dict.insertEntry
    rw [if_neg not_lt, if_neg not_eq, ih fun e mem => above e (List.mem_cons_of_mem _ mem)]
    rfl

theorem lt_of_parts {whole : Dict α} {before entries : List (String × α)} {e : String × α}
    (parts : before ++ e :: entries = whole.entries) : ∀ old ∈ before, old.1 < e.1 := by
  have sorted := whole.sorted
  rw [← parts] at sorted
  exact fun old mem => (List.pairwise_append.1 sorted).2.2 old mem e (List.mem_cons_self ..)

/-- Entries are read one by one up to what closes the dictionary. -/
theorem MemberForm.readDictTail (form : MemberForm) {closing : Bytes}
    (closes : ∀ first, Json.nextKey first closing = .ok none) {read : Reader α}
    {write : α → Json} (whole : Dict α) (entries : List (String × α)) (before : Dict α)
    (parts : before.entries ++ entries = whole.entries)
    (takes : ∀ e ∈ entries, form.Takes closing read (write e.2) e.2) (first : Bool)
    (budget : Bytes) (enough : entries.length < budget.length) :
    readDictTail read budget first before
      (piecesFrom form.piece first (entries.map fun e => (e.1, write e.2)) ++ closing) =
        .ok (whole, closing) := by
  -- The entries that have been read are a start of the whole, so the next key is above them.
  induction entries generalizing before first budget with
  | nil =>
    have same : before = whole := Dict.eq_of_entries (by simpa using parts)
    cases budget with
    | nil => cases enough
    | cons _ budget =>
      unfold Json.readDictTail
      rw [List.map_nil, piecesFrom, List.nil_append, closes, same]
      rfl
  | cons e entries ih =>
    cases budget with
    | nil => cases enough
    | cons _ budget =>
      have inserted : (before.insert e.1 e.2).entries ++ entries = whole.entries := by
        rw [← parts]
        exact (congrArg (· ++ entries) (insertEntry_append (lt_of_parts parts))).trans (by simp)
      have later := ih (before.insert e.1 e.2) inserted
        (fun e mem => takes e (List.mem_cons_of_mem _ mem)) false budget
        (Nat.lt_of_succ_lt_succ enough)
      unfold Json.readDictTail
      rw [List.map_cons, form.nextKey]
      change (readString _ >>= _) = _
      rw [form.readName]
      change (read _ >>= _) = _
      rw [takes e (List.mem_cons_self ..)]
      exact later

theorem readDict_lawful {read : Reader α} {write : α → Json}
    (reads : ∀ value, Reads read (write value) value) (d : Dict α) :
    Reads (readDict read) (writeDict write d) d := by
  refine ⟨⟨0x7B, _, bytes_object _, rfl, by decide, by decide⟩, fun rest _ => ?_⟩
  have enough := length_lt_members (d.entries.map fun e => (e.1, write e.2)) rest
  rw [List.length_map] at enough
  have tail := compactForm.readDictTail (nextKey_brace rest) d d.entries ∅ rfl
    (fun e _ => (reads e.2).takes rest) true _ enough
  rw [piece_compactForm] at tail
  change readDict read ((object (d.entries.map fun e => (e.1, write e.2))).bytes ++ rest) = _
  rw [bytes_object, List.cons_append, List.append_assoc, List.singleton_append]
  unfold readDict
  rw [skipBlanks_cons rfl]
  simp only [tail]
  rfl

/-! ### Optional values and records -/

theorem Reads.optional {read : Reader α} {json : Json} {value : α}
    (reads : Reads read json value) : Reads (readOptional read) json (some value) := by
  refine ⟨reads.begins, fun rest ends => ?_⟩
  have read_eq := reads.reads rest ends
  obtain ⟨b, tail, starts, visible, -, noNull⟩ := reads.begins
  rw [starts, List.cons_append] at read_eq ⊢
  unfold readOptional
  rw [skipBlanks_cons visible]
  split
  · rename_i same
    exact absurd (List.cons.inj same).1 noNull
  · rw [read_eq]
    rfl

theorem Reads.into {read : Reader α} {json : Json} {value : α} (reads : Reads read json value)
    (fill : Option α → δ) : Reads (readInto read fill) json (fill (some value)) := by
  refine ⟨reads.begins, fun rest ends => ?_⟩
  unfold readInto
  rw [reads.reads rest ends]
  rfl

/-- The member of a name is still to be read into a draft, and is read this way. -/
def Awaits (members : List (Member δ)) (draft : δ) (name : String) (read : Reader δ) : Prop :=
  ∃ member, members.find? (fun m => m.name == name) = some member ∧
    member.isSet draft = false ∧ member.read draft = read

/-- Members that fill a draft one after the other, each for the first time and each taken by its
reader. -/
inductive FillsBy (takes : Reader δ → Json → δ → Prop) (members : List (Member δ)) :
    δ → List (String × Json) → δ → Prop
  | nil (draft : δ) : FillsBy takes members draft [] draft
  | cons {draft next last : δ} {name : String} {json : Json} {rest : List (String × Json)}
      {read : Reader δ} (awaits : Awaits members draft name read) (taken : takes read json next)
      (fills : FillsBy takes members next rest last) :
      FillsBy takes members draft ((name, json) :: rest) last

abbrev Fills (members : List (Member δ)) : δ → List (String × Json) → δ → Prop :=
  FillsBy Reads members

theorem FillsBy.append {takes : Reader δ → Json → δ → Prop} {members : List (Member δ)}
    {draft next last : δ} {first second : List (String × Json)}
    (fillsFirst : FillsBy takes members draft first next)
    (fillsSecond : FillsBy takes members next second last) :
    FillsBy takes members draft (first ++ second) last := by
  induction fillsFirst with
  | nil draft => exact fillsSecond
  | cons awaits taken _ ih => exact .cons awaits taken (ih fillsSecond)

theorem FillsBy.imp {takes takes' : Reader δ → Json → δ → Prop} {members : List (Member δ)}
    {draft last : δ} {written : List (String × Json)}
    (weaker : ∀ {read json next}, takes read json next → takes' read json next)
    (fills : FillsBy takes members draft written last) :
    FillsBy takes' members draft written last := by
  induction fills with
  | nil draft => exact .nil draft
  | cons awaits taken _ ih => exact .cons awaits (weaker taken) ih

theorem Fills.required {members : List (Member δ)} {read : Reader α} {json : Json} {value : α}
    {draft : δ} {name : String} (reads : Reads read json value) (fill : Option α → δ)
    (awaits : Awaits members draft name (readInto read fill)) :
    Fills members draft [(name, json)] (fill (some value)) :=
  .cons awaits (reads.into fill) (.nil _)

theorem Fills.optional {members : List (Member δ)} {shape : Shape α} (lawful : shape.Lawful)
    {name : String} (fill : Option (Option α) → δ)
    (awaits : Awaits members (fill none) name (readInto (readOptional shape.read) fill))
    (value : Option α) :
    Fills members (fill none) (optionalMember name shape.write value) (fill (value.map some)) := by
  cases value with
  | none => exact .nil _
  | some value => exact .required (lawful value).optional fill awaits

/-- Members are read one by one up to what closes the object. -/
theorem MemberForm.readObjectTail (form : MemberForm) {closing : Bytes}
    (closes : ∀ first, Json.nextKey first closing = .ok none) (record : Record δ α)
    {draft last : δ} {written : List (String × Json)}
    (fills : FillsBy (form.Takes closing) record.members draft written last) (first : Bool)
    (budget : Bytes) (enough : written.length < budget.length) :
    record.readObjectTail budget first draft (piecesFrom form.piece first written ++ closing) =
      .ok (last, closing) := by
  induction fills generalizing first budget with
  | nil draft =>
    cases budget with
    | nil => cases enough
    | cons _ budget =>
      unfold Record.readObjectTail
      rw [piecesFrom, List.nil_append, closes]
      rfl
  | cons awaits taken fills ih =>
    obtain ⟨member, known, unset, rfl⟩ := awaits
    cases budget with
    | nil => cases enough
    | cons _ budget =>
      have later := ih false budget (Nat.lt_of_succ_lt_succ enough)
      unfold Record.readObjectTail
      rw [form.nextKey]
      change (readString _ >>= _) = _
      rw [form.readName]
      simp only [bind, Except.bind, known, unset, Bool.false_eq_true, ↓reduceIte]
      change (Member.read _ _ _ >>= _) = _
      rw [taken]
      exact later

/-- A record is read back if its members fill a draft from which it is built. -/
theorem Record.lawful_of_fills {record : Record δ α} {draftOf : α → δ}
    (fills : ∀ value, Fills record.members record.blank (record.write value) (draftOf value))
    (built : ∀ value, record.build (draftOf value) = .ok value) : record.shape.Lawful := by
  intro value
  refine ⟨⟨0x7B, _, bytes_object _, rfl, by decide, by decide⟩, fun rest _ => ?_⟩
  have enough := length_lt_members (record.write value) rest
  have tail := compactForm.readObjectTail (nextKey_brace rest) record
    ((fills value).imp fun reads => reads.takes rest) true _ enough
  rw [piece_compactForm] at tail
  change record.read ((object (record.write value)).bytes ++ rest) = _
  rw [bytes_object, List.cons_append, List.append_assoc, List.singleton_append]
  unfold Record.read
  rw [skipBlanks_cons rfl]
  simp only [tail, bind, Except.bind, built]
  rfl

/-! ### Truth values and enumerations -/

theorem readBool_lawful (b : Bool) : Reads readBool (.bool b) b := by
  cases b with
  | true => exact ⟨⟨0x74, _, rfl, rfl, by decide, by decide⟩, fun rest _ => rfl⟩
  | false => exact ⟨⟨0x66, _, rfl, rfl, by decide, by decide⟩, fun rest _ => rfl⟩

theorem Variants.reads {variants : Variants α} {name : String} {value : α}
    (known : variants.known.lookup name = some value) :
    Reads variants.read (.string name) value := by
  refine ⟨begins_string name, fun rest _ => ?_⟩
  change variants.read (Utf8.encode (quoted name.toList) ++ rest) = _
  rw [encode_quoted, List.cons_append, List.append_assoc, List.singleton_append]
  unfold Variants.read
  rw [skipBlanks_cons rfl]
  change variants.readName _ = _
  unfold Variants.readName
  rw [readString_escaped, String.ofList_toList]
  simp only [bind, Except.bind, known]
  rfl

end PetClient.Json
