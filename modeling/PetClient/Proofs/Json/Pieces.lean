import PetClient.Proofs.Json.Extent

/-!
The parts of a list or an object that has been gone through.  Whatever goes through it, from item to
item or from member to member, the bytes that it went over are the items with their commas and the
blanks around them.
-/

namespace PetClient.Json

theorem exists_skipBlanks (bytes : Bytes) :
    ∃ blanks, Blank blanks ∧ bytes = blanks ++ skipBlanks bytes :=
  ⟨bytes.takeWhile isBlank, fun _ => List.mem_takeWhile_imp,
    List.takeWhile_append_dropWhile.symm⟩

/-- What is behind the blanks, and behind a comma with its own blanks unless it comes first. -/
inductive Leads : (first : Bool) → Bytes → Bytes → Prop
  | first {bytes : Bytes} : Leads true bytes (skipBlanks bytes)
  | comma {bytes rest : Bytes} (next : skipBlanks bytes = 0x2C :: rest) :
      Leads false bytes (skipBlanks rest)

theorem Leads.skipBlanks_eq {first : Bool} {bytes value : Bytes}
    (leads : Leads first bytes value) : skipBlanks value = value := by
  cases leads <;> exact skipBlanks_skipBlanks _

theorem leads_of_nextItem {first : Bool} {bytes value : Bytes}
    (next : nextItem first bytes = .ok (some value)) : Leads first bytes value := by
  rcases nextItem_eq_some next with ⟨rfl, b, rest, start, -, rfl⟩ | ⟨rfl, rest, start, rfl⟩
  · exact start ▸ .first
  · exact .comma start

theorem leads_of_nextKey {first : Bool} {bytes name : Bytes}
    (next : nextKey first bytes = .ok (some name)) : Leads first bytes (0x22 :: name) := by
  rcases nextKey_eq_some next with ⟨rfl, start⟩ | ⟨rfl, rest, start, quote⟩
  · exact start ▸ .first
  · exact quote ▸ .comma start

theorem Leads.exists_pieces {ι : Type} {first : Bool} {bytes value : Bytes}
    (leads : Leads first bytes value) (piece : ι → Bytes) :
    ∃ lead before, Blank lead ∧ Blank before ∧ (first = true → lead = []) ∧
      ∀ i items closing, piece i ++ (piecesFrom piece false items ++ closing) = before ++ value →
        bytes = lead ++ (piecesFrom piece first (i :: items) ++ closing) := by
  cases leads with
  | first =>
    obtain ⟨blanks, blank, parts⟩ := exists_skipBlanks bytes
    refine ⟨[], blanks, .nil, blank, fun _ => rfl, fun i items closing same => ?_⟩
    rw [← parts] at same
    simpa [piecesFrom] using same.symm
  | @comma _ rest next =>
    obtain ⟨lead, blank, parts⟩ := exists_skipBlanks bytes
    obtain ⟨before, blank', parts'⟩ := exists_skipBlanks rest
    refine ⟨lead, before, blank, blank', fun same => absurd same Bool.false_ne_true,
      fun i items closing same => ?_⟩
    rw [← parts'] at same
    rw [next, ← same] at parts
    simpa [piecesFrom] using parts

/-! ### Lists -/

/-- A list from some item on: its items, and what is behind them. -/
structure Itemized (first : Bool) (bytes : Bytes) (items : List Spaced) (closing : Bytes) :
    Prop where
  fit : ∀ i ∈ items, i.Fits
  parts : ∃ lead, Blank lead ∧ (first = true → lead = []) ∧
    bytes = lead ++ (piecesFrom Spaced.bytes first items ++ closing)

theorem Itemized.nil {first : Bool} {closing : Bytes} : Itemized first closing [] closing :=
  ⟨nofun, [], .nil, fun _ => rfl, by cases first <;> rfl⟩

theorem Itemized.cons {first : Bool} {bytes value text behind closing : Bytes}
    {items : List Spaced} (leads : Leads first bytes value)
    (taken : skipBlanks value = text ++ behind) (rest : Itemized false behind items closing) :
    ∃ item : Spaced, item.text = text ∧ Itemized first bytes (item :: items) closing := by
  obtain ⟨fit, after, blank_after, -, parts⟩ := rest
  obtain ⟨lead, before, blank_lead, blank_before, front, whole⟩ :=
    leads.exists_pieces Spaced.bytes
  obtain ⟨blanks, blank, parts_value⟩ := exists_skipBlanks value
  refine ⟨⟨before ++ blanks, text, after⟩, rfl, ?_, lead, blank_lead, front, whole _ _ _ ?_⟩
  · exact List.forall_mem_cons.2 ⟨⟨blank_before.append blank, blank_after⟩, fit⟩
  · rw [parts_value, taken, parts]
    simp [Spaced.bytes]

theorem Itemized.closed {inside last rest : Bytes} {items : List Spaced}
    (itemized : Itemized true inside items last) (next : skipBlanks last = 0x5D :: rest) :
    ∃ inner, Blank inner ∧ 0x5B :: inside = listBytes items inner ++ rest := by
  obtain ⟨-, lead, -, front, parts⟩ := itemized
  obtain ⟨inner, blank, parts_last⟩ := exists_skipBlanks last
  refine ⟨inner, blank, ?_⟩
  rw [parts, front rfl, parts_last, next]
  simp [listBytes]

/-! ### Objects -/

structure Keyed (first : Bool) (bytes : Bytes) (entries : List Entry) (closing : Bytes) :
    Prop where
  fit : ∀ e ∈ entries, e.Fits
  parts : ∃ lead, Blank lead ∧ (first = true → lead = []) ∧
    bytes = lead ++ (piecesFrom Entry.bytes first entries ++ closing)

theorem Keyed.nil {first : Bool} {closing : Bytes} : Keyed first closing [] closing :=
  ⟨nofun, [], .nil, fun _ => rfl, by cases first <;> rfl⟩

theorem exists_gap_of_readColon {bytes value : Bytes} (colon : readColon bytes = .ok value) :
    ∃ gap, Blank gap ∧ bytes = gap ++ 0x3A :: value := by
  obtain ⟨gap, blank, parts⟩ := exists_skipBlanks bytes
  unfold readColon at colon
  split at colon
  · cases colon
  · rename_i next
    cases colon
    exact ⟨gap, blank, next ▸ parts⟩
  · cases colon

theorem Keyed.cons {first : Bool} {bytes name gap value text behind closing : Bytes}
    {entries : List Entry} (leads : Leads first bytes (0x22 :: (name ++ gap)))
    (colon : readColon gap = .ok value) (taken : skipBlanks value = text ++ behind)
    (rest : Keyed false behind entries closing) :
    ∃ entry : Entry, entry.name = name ∧ entry.value.text = text ∧
      Keyed first bytes (entry :: entries) closing := by
  obtain ⟨fit, after, blank_after, -, parts⟩ := rest
  obtain ⟨lead, before, blank_lead, blank_before, front, whole⟩ :=
    leads.exists_pieces Entry.bytes
  obtain ⟨gap, blank_gap, rfl⟩ := exists_gap_of_readColon colon
  obtain ⟨blanks, blank, parts_value⟩ := exists_skipBlanks value
  refine ⟨⟨before, name, gap, blanks, text, after⟩, rfl, rfl, ?_, lead, blank_lead, front,
    whole _ _ _ ?_⟩
  · exact List.forall_mem_cons.2 ⟨⟨blank_before, blank_gap, blank, blank_after⟩, fit⟩
  · rw [parts_value, taken, parts]
    simp [Entry.bytes, Entry.tail, Spaced.bytes]

theorem Keyed.closed {inside last rest : Bytes} {entries : List Entry}
    (keyed : Keyed true inside entries last) (next : skipBlanks last = 0x7D :: rest) :
    ∃ inner, Blank inner ∧ 0x7B :: inside = objectBytes entries inner ++ rest := by
  obtain ⟨-, lead, -, front, parts⟩ := keyed
  obtain ⟨inner, blank, parts_last⟩ := exists_skipBlanks last
  refine ⟨inner, blank, ?_⟩
  rw [parts, front rfl, parts_last, next]
  simp [objectBytes]

end PetClient.Json
