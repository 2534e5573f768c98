import PetClient.Proofs.Dict
import PetClient.Proofs.Json.Exact

/-!
Given lists and dictionaries.  A list of given items is read item by item, and a dictionary of given
members entry by entry, so what they are read as is known from what their values are read as.
-/

namespace PetClient.Json

open Result (bind_eq_ok)

variable {α : Type} {read : Reader α}

/-! ### Lists -/

theorem takes_items (sound : Sound read) {items : List Spaced} (fit : ∀ i ∈ items, i.Fits)
    (areValues : ∀ i ∈ items, IsValue i.text) {blanks inner rest last : Bytes}
    (blank : Blank blanks) (blank' : Blank inner) {first : Bool} {budget : Bytes} {values : List α}
    (tail : readListTail read budget first
      (blanks ++ (piecesFrom Spaced.bytes first items ++ (inner ++ 0x5D :: rest))) =
        .ok (values, last)) :
    List.Forall₂ (fun value (i : Spaced) => Takes read i.text value) values items := by
  induction items generalizing blanks first budget values with
  | nil =>
    cases budget with
    | nil => cases tail
    | cons _ budget =>
      unfold readListTail at tail
      rw [piecesFrom, List.nil_append, ← List.append_assoc,
        nextItem_close (blank.append blank')] at tail
      cases tail
      exact .nil
  | cons item items ih =>
    cases budget with
    | nil => cases tail
    | cons _ budget =>
      obtain ⟨fits, fit⟩ := List.forall_mem_cons.1 fit
      obtain ⟨isValue, areValues⟩ := List.forall_mem_cons.1 areValues
      have stops := stops_after Spaced.bytes items fits.after blank' (.inl rfl) rest
      unfold readListTail at tail
      rw [nextItem_spaced fits isValue.starts blank] at tail
      obtain ⟨start, same, tail⟩ := bind_eq_ok.1 tail
      cases same
      obtain ⟨⟨value, behind⟩, taken, tail⟩ := bind_eq_ok.1 tail
      obtain ⟨⟨others, last'⟩, later, tail⟩ := bind_eq_ok.1 tail
      cases tail
      obtain ⟨rfl, takes⟩ := sound.takes_given isValue .nil stops taken
      exact .cons takes (ih fit areValues fits.after later)

theorem takes_list_iff (sound : Sound read) {items : List Spaced} (fit : ∀ i ∈ items, i.Fits)
    (areValues : ∀ i ∈ items, IsValue i.text) {inner : Bytes} (blank : Blank inner)
    {values : List α} :
    Takes (readList read) (listBytes items inner) values ↔
      List.Forall₂ (fun value (i : Spaced) => Takes read i.text value) values items := by
  constructor
  · intro takes
    have taken := takes.alone
    unfold readList listBytes at taken
    rw [skipBlanks_cons (by decide)] at taken
    obtain ⟨⟨values', last⟩, tail, closing⟩ := bind_eq_ok.1 taken
    obtain ⟨rest, -, same⟩ := bind_eq_ok.1 closing
    cases same
    exact takes_items sound fit areValues .nil blank tail
  · exact fun takes => takes_list (fun takes => takes) ⟨items, inner, fit, blank, takes, rfl⟩

/-! ### Dictionaries -/

theorem takes_entries (sound : Sound read) {entries : List Entry} (fit : ∀ e ∈ entries, e.Fits)
    (strings : ∀ e ∈ entries, IsString e.name) (areValues : ∀ e ∈ entries, IsValue e.value.text)
    {blanks inner rest last : Bytes} (blank : Blank blanks) (blank' : Blank inner) {first : Bool}
    {budget : Bytes} {before result : Dict α}
    (tail : readDictTail read budget first before
      (blanks ++ (piecesFrom Entry.bytes first entries ++ (inner ++ 0x7D :: rest))) =
        .ok (result, last)) :
    ∃ all : List ((String × α) × Entry), all.map Prod.snd = entries ∧
      (∀ e ∈ all, WritesName e.1.1 e.2.name) ∧ (∀ e ∈ all, Takes read e.2.value.text e.1.2) ∧
      result = before.insertAll (all.map Prod.fst) := by
  induction entries generalizing blanks first budget before with
  | nil =>
    cases budget with
    | nil => cases tail
    | cons _ budget =>
      unfold readDictTail at tail
      rw [piecesFrom, List.nil_append, ← List.append_assoc,
        nextKey_close (blank.append blank')] at tail
      cases tail
      exact ⟨[], rfl, List.forall_mem_nil _, List.forall_mem_nil _, rfl⟩
  | cons entry entries ih =>
    cases budget with
    | nil => cases tail
    | cons _ budget =>
      obtain ⟨fits, fit⟩ := List.forall_mem_cons.1 fit
      obtain ⟨string, strings⟩ := List.forall_mem_cons.1 strings
      obtain ⟨isValue, areValues⟩ := List.forall_mem_cons.1 areValues
      have stops := stops_after Entry.bytes entries fits.value.after blank' (.inr rfl) rest
      unfold readDictTail at tail
      rw [nextKey_entry fits blank] at tail
      obtain ⟨key, next, tail⟩ := bind_eq_ok.1 tail
      cases next
      obtain ⟨⟨name, gap⟩, read_name, tail⟩ := bind_eq_ok.1 tail
      obtain ⟨writes, rfl⟩ := string.name_of_readString read_name
      dsimp only at tail
      rw [readColon_blanks fits.gap] at tail
      obtain ⟨start, colon, tail⟩ := bind_eq_ok.1 tail
      cases colon
      obtain ⟨⟨value, behind⟩, taken, tail⟩ := bind_eq_ok.1 tail
      obtain ⟨rfl, takes⟩ := sound.takes_given isValue fits.value.before stops taken
      obtain ⟨all, rfl, names, takes_all, rfl⟩ := ih fit strings areValues fits.value.after tail
      exact ⟨((name, value), entry) :: all, rfl, List.forall_mem_cons.2 ⟨writes, names⟩,
        List.forall_mem_cons.2 ⟨takes, takes_all⟩, rfl⟩

theorem takes_dict_iff (sound : Sound read) {entries : List Entry} (fit : ∀ e ∈ entries, e.Fits)
    (strings : ∀ e ∈ entries, IsString e.name) (areValues : ∀ e ∈ entries, IsValue e.value.text)
    {inner : Bytes} (blank : Blank inner) {d : Dict α} :
    Takes (readDict read) (objectBytes entries inner) d ↔
      ∃ all : List ((String × α) × Entry), all.map Prod.snd = entries ∧
        (∀ e ∈ all, WritesName e.1.1 e.2.name) ∧ (∀ e ∈ all, Takes read e.2.value.text e.1.2) ∧
        d = Dict.insertAll ∅ (all.map Prod.fst) := by
  constructor
  · intro takes
    have taken := takes.alone
    unfold readDict objectBytes at taken
    rw [skipBlanks_cons (by decide)] at taken
    obtain ⟨⟨result, last⟩, tail, closing⟩ := bind_eq_ok.1 taken
    obtain ⟨rest, -, same⟩ := bind_eq_ok.1 closing
    cases same
    exact takes_entries sound fit strings areValues .nil blank tail
  · rintro ⟨all, rfl, names, takes, rfl⟩
    exact takes_dict (fun takes => takes)
      ⟨all, inner, List.forall_mem_map.1 fit, blank, names, takes, rfl, rfl⟩

end PetClient.Json
