import PetClient.Proofs.Json.Extent
import PetClient.Proofs.Json.Spelling

/-!
How the draft of a record is fed: by the members of an object one after the other, in any order and
with others between them, or by the items of an array in the order of the record's members.
-/

namespace PetClient.Json

variable {α δ : Type}

theorem stops_of_blank {after : Bytes} (blank : Blank after) : Stops after :=
  fun b first => .inl (blank b (List.mem_of_head? first))

/-! ### Whole texts -/

theorem Shape.decode_of_read {shape : Shape α} {text after : Bytes} {value : α}
    (blank : Blank after) (read : shape.read text = .ok (value, after)) :
    shape.decode text = .ok value := by
  have nothing : skipBlanks after = [] := List.dropWhile_eq_nil_iff.2 blank
  unfold Shape.decode
  simp only [read, bind, Except.bind, nothing]
  rfl

theorem Shape.read_of_decode {shape : Shape α} {text : Bytes} {value : α}
    (decoded : shape.decode text = .ok value) :
    ∃ after, Blank after ∧ shape.read text = .ok (value, after) := by
  unfold Shape.decode at decoded
  cases read : shape.read text with
  | error fault =>
    rw [read] at decoded
    cases decoded
  | ok result =>
    obtain ⟨first, after⟩ := result
    simp only [read, bind, Except.bind] at decoded
    split at decoded
    · rename_i nothing
      cases decoded
      exact ⟨after, List.dropWhile_eq_nil_iff.1 nothing, rfl⟩
    · cases decoded

theorem Takes.alone {read : Reader α} {text : Bytes} {value : α} (takes : Takes read text value) :
    read text = .ok (value, []) := by
  have taken := takes.reads [] [] .nil (stops_of_blank .nil)
  rwa [List.nil_append, List.append_nil] at taken

theorem Takes.decode {shape : Shape α} {text : Bytes} {value : α}
    (takes : Takes shape.read text value) {before after : Bytes} (blank : Blank before)
    (blank' : Blank after) : shape.decode (before ++ (text ++ after)) = .ok value :=
  Shape.decode_of_read blank' (takes.reads before after blank (stops_of_blank blank'))

namespace Record

/-! ### Objects -/

/-- A member of an object takes a draft to the next one: it fills a place that was empty, or it has
another name and is passed over. -/
inductive Feeds (record : Record δ α) (draft : δ) (entry : Entry) : δ → Prop
  | field {name : String} {member : Member δ} {next : δ} (writes : WritesName name entry.name)
      (found : record.members.find? (fun m => m.name == name) = some member)
      (unset : member.isSet draft = false)
      (takes : Takes (member.read draft) entry.value.text next) : Feeds record draft entry next
  | other {name : String} (writes : WritesName name entry.name)
      (notFound : record.members.find? (fun m => m.name == name) = none)
      (isValue : IsValue entry.value.text) : Feeds record draft entry draft

inductive FeedsAll (record : Record δ α) : δ → List Entry → δ → Prop
  | nil {draft : δ} : FeedsAll record draft [] draft
  | cons {draft next last : δ} {entry : Entry} {entries : List Entry}
      (feeds : record.Feeds draft entry next) (rest : FeedsAll record next entries last) :
      FeedsAll record draft (entry :: entries) last

theorem Feeds.readObjectTail {record : Record δ α} {draft next : δ} {entry : Entry}
    (feeds : record.Feeds draft entry next) (fits : entry.Fits) {blanks closing : Bytes}
    (blank : Blank blanks) (stops : Stops closing) (first : Bool) (entries : List Entry)
    (spent : UInt8) (budget : Bytes) :
    record.readObjectTail (spent :: budget) first draft
        (blanks ++ (piecesFrom Entry.bytes first (entry :: entries) ++ closing)) =
      record.readObjectTail budget false next
        (entry.value.after ++ (piecesFrom Entry.bytes false entries ++ closing)) := by
  have stops_value : Stops (entry.value.after ++
      (piecesFrom Entry.bytes false entries ++ closing)) :=
    .behind fits.value.after (stops_pieces _ stops)
  conv_lhs => unfold Record.readObjectTail
  rw [nextKey_entry fits blank]
  cases feeds with
  | field writes found unset takes =>
    have taken := takes.reads _ _ fits.value.before stops_value
    simp only [bind, Except.bind, readString_name writes, found, unset, Bool.false_eq_true,
      ↓reduceIte, readColon_blanks fits.gap, taken]
  | other writes notFound isValue =>
    have skipped := isValue.skipped fits.value.before stops_value
    simp only [bind, Except.bind, readString_name writes, notFound, readColon_blanks fits.gap,
      skipped]

/-- The members of an object feed a draft one by one. -/
theorem FeedsAll.readObjectTail {record : Record δ α} {draft last : δ} {entries : List Entry}
    (feeds : record.FeedsAll draft entries last) (fit : ∀ e ∈ entries, e.Fits)
    {blanks inner : Bytes} (blank : Blank blanks) (blank' : Blank inner) (first : Bool)
    (budget rest : Bytes) (enough : entries.length < budget.length) :
    ∃ before, Blank before ∧ record.readObjectTail budget first draft
      (blanks ++ (piecesFrom Entry.bytes first entries ++ (inner ++ 0x7D :: rest))) =
        .ok (last, before ++ 0x7D :: rest) := by
  have stops : Stops (inner ++ 0x7D :: rest) := .behind blank' (stops_cons (by simp) rest)
  induction feeds generalizing blanks first budget with
  | nil =>
    cases budget with
    | nil => cases enough
    | cons _ budget =>
      refine ⟨blanks ++ inner, blank.append blank', ?_⟩
      unfold Record.readObjectTail
      rw [piecesFrom, List.nil_append, ← List.append_assoc,
        nextKey_close (blank.append blank') first]
      rfl
  | @cons draft next last entry entries feeds _ ih =>
    cases budget with
    | nil => cases enough
    | cons spent budget =>
      obtain ⟨fits, fit⟩ := List.forall_mem_cons.1 fit
      obtain ⟨before, blank_before, later⟩ :=
        ih fit fits.value.after false budget (Nat.lt_of_succ_lt_succ enough)
      exact ⟨before, blank_before,
        (feeds.readObjectTail fits blank stops first entries spent budget).trans later⟩

/-- A record is read from an object whose members feed it. -/
theorem FeedsAll.takes {record : Record δ α} {last : δ} {entries : List Entry}
    (feeds : record.FeedsAll record.blank entries last) (fit : ∀ e ∈ entries, e.Fits)
    {inner : Bytes} (blank' : Blank inner) {value : α} (built : record.build last = .ok value) :
    Takes record.read (objectBytes entries inner) value := by
  refine ⟨⟨0x7B, _, rfl, by decide⟩, fun blanks rest blank _ => ?_⟩
  have enough := length_lt_entries entries inner rest
  obtain ⟨before, blank_before, tail⟩ :=
    feeds.readObjectTail fit .nil blank' true _ rest enough
  rw [List.nil_append] at tail
  unfold objectBytes Record.read
  rw [List.cons_append, skipBlanks_append blank rfl]
  simp only [List.append_assoc, List.singleton_append, tail, bind, Except.bind, built,
    closeObject_blanks blank_before]
  rfl

/-! ### Arrays -/

/-- The items of an array take a draft on, each for the member of its place. -/
inductive FeedsItems : List (Member δ) → δ → List Spaced → δ → Prop
  | nil {members : List (Member δ)} {draft : δ} : FeedsItems members draft [] draft
  | cons {member : Member δ} {members : List (Member δ)} {draft next last : δ} {item : Spaced}
      {items : List Spaced} (takes : Takes (member.read draft) item.text next)
      (rest : FeedsItems members next items last) :
      FeedsItems (member :: members) draft (item :: items) last

theorem FeedsItems.readArrayTail {members : List (Member δ)} {draft last : δ} {items : List Spaced}
    (feeds : FeedsItems members draft items last) (fit : ∀ i ∈ items, i.Fits)
    {blanks inner : Bytes} (blank : Blank blanks) (blank' : Blank inner) (first : Bool)
    (rest : Bytes) :
    ∃ before, Blank before ∧ Record.readArrayTail draft first
      (blanks ++ (piecesFrom Spaced.bytes first items ++ (inner ++ 0x5D :: rest))) members =
        .ok (last, before ++ 0x5D :: rest) := by
  induction feeds generalizing blanks first with
  | @nil members draft =>
    refine ⟨blanks ++ inner, blank.append blank', ?_⟩
    rw [piecesFrom, List.nil_append, ← List.append_assoc]
    cases members with
    | nil => rfl
    | cons member members =>
      unfold Record.readArrayTail
      rw [nextItem_close (blank.append blank') first]
      rfl
  | @cons member members draft next last item items takes _ ih =>
    obtain ⟨fits, fit⟩ := List.forall_mem_cons.1 fit
    have stops := stops_after Spaced.bytes items fits.after blank' (.inl rfl) rest
    have taken := takes.reads [] _ .nil stops
    obtain ⟨before, blank_before, later⟩ := ih fit fits.after false
    refine ⟨before, blank_before, ?_⟩
    unfold Record.readArrayTail
    rw [nextItem_spaced fits takes.starts blank]
    rw [List.nil_append] at taken
    simp only [bind, Except.bind, taken, later]

theorem FeedsItems.takes {record : Record δ α} {last : δ} {items : List Spaced}
    (feeds : FeedsItems record.members record.blank items last) (fit : ∀ i ∈ items, i.Fits)
    {inner : Bytes} (blank' : Blank inner) {value : α} (built : record.build last = .ok value) :
    Takes record.read (listBytes items inner) value := by
  refine ⟨⟨0x5B, _, rfl, by decide⟩, fun blanks rest blank _ => ?_⟩
  obtain ⟨before, blank_before, tail⟩ := feeds.readArrayTail fit .nil blank' true rest
  rw [List.nil_append] at tail
  unfold listBytes Record.read
  rw [List.cons_append, skipBlanks_append blank rfl]
  simp only [List.append_assoc, List.singleton_append, tail, bind, Except.bind, built,
    closeList_blanks blank_before]
  rfl

end Record

end PetClient.Json
