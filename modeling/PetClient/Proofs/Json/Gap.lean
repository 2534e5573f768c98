import PetClient.Proofs.Json.Given
import PetClient.Proofs.Json.Members

/-!
Texts with a gap for one value: a list with a gap for an item, and an object or a record with a gap
for the value of a member.  If such a text is read with some value in the gap, then with another one
it is read for the same but for that value, or not at all.
-/

namespace PetClient.Json

open Result (map_eq_ok)

variable {α β γ δ : Type}

/-! ### Gaps -/

def Spaced.holding (s : Spaced) (text : Bytes) : Spaced :=
  { s with text }

def Entry.holding (e : Entry) (text : Bytes) : Entry :=
  { e with value := e.value.holding text }

structure ListGap where
  front : List Spaced
  item : Spaced
  back : List Spaced
  inner : Bytes

structure ObjectGap where
  front : List Entry
  member : Entry
  back : List Entry
  inner : Bytes

namespace ListGap

def items (g : ListGap) (text : Bytes) : List Spaced :=
  g.front ++ g.item.holding text :: g.back

def fill (g : ListGap) (text : Bytes) : Bytes :=
  listBytes (g.items text) g.inner

structure Fits (g : ListGap) : Prop where
  inner : Blank g.inner
  fit : ∀ i ∈ g.front ++ g.item :: g.back, i.Fits
  values : ∀ i ∈ g.front ++ g.back, IsValue i.text

variable {g : ListGap} {text : Bytes}

theorem Fits.fit_items (fits : g.Fits) : ∀ i ∈ g.items text, i.Fits := by
  have fit := fits.fit
  simp only [items, List.forall_mem_append, List.forall_mem_cons] at fit ⊢
  exact ⟨fit.1, ⟨fit.2.1.before, fit.2.1.after⟩, fit.2.2⟩

theorem Fits.values_items (fits : g.Fits) (isValue : IsValue text) :
    ∀ i ∈ g.items text, IsValue i.text := by
  have values := fits.values
  simp only [items, List.forall_mem_append, List.forall_mem_cons] at values ⊢
  exact ⟨values.1, isValue, values.2⟩

theorem Fits.isValue (fits : g.Fits) (isValue : IsValue text) : IsValue (g.fill text) :=
  .list fits.inner fits.fit_items (fits.values_items isValue)

end ListGap

namespace ObjectGap

def entries (g : ObjectGap) (text : Bytes) : List Entry :=
  g.front ++ g.member.holding text :: g.back

def fill (g : ObjectGap) (text : Bytes) : Bytes :=
  objectBytes (g.entries text) g.inner

structure Fits (g : ObjectGap) (name : String) : Prop where
  inner : Blank g.inner
  fit : ∀ e ∈ g.front ++ g.member :: g.back, e.Fits
  strings : ∀ e ∈ g.front ++ g.back, IsString e.name
  values : ∀ e ∈ g.front ++ g.back, IsValue e.value.text
  writes : WritesName name g.member.name

/-- Whether the name comes again behind the gap. -/
def Repeats (g : ObjectGap) (name : String) : Prop :=
  ∃ e ∈ g.back, WritesName name e.name

variable {g : ObjectGap} {name : String} {text : Bytes}

theorem Fits.fit_entries (fits : g.Fits name) : ∀ e ∈ g.entries text, e.Fits := by
  have fit := fits.fit
  simp only [entries, List.forall_mem_append, List.forall_mem_cons] at fit ⊢
  obtain ⟨front, ⟨before, gap, value⟩, back⟩ := fit
  exact ⟨front, ⟨before, gap, value.before, value.after⟩, back⟩

theorem Fits.strings_entries (fits : g.Fits name) : ∀ e ∈ g.entries text, IsString e.name := by
  have strings := fits.strings
  simp only [entries, List.forall_mem_append, List.forall_mem_cons] at strings ⊢
  exact ⟨strings.1, fits.writes.isString, strings.2⟩

theorem Fits.values_entries (fits : g.Fits name) (isValue : IsValue text) :
    ∀ e ∈ g.entries text, IsValue e.value.text := by
  have values := fits.values
  simp only [entries, List.forall_mem_append, List.forall_mem_cons] at values ⊢
  exact ⟨values.1, isValue, values.2⟩

theorem Fits.isValue (fits : g.Fits name) (isValue : IsValue text) : IsValue (g.fill text) :=
  .object fits.inner fits.fit_entries fits.strings_entries (fits.values_entries isValue)

end ObjectGap

inductive Gap
  | inObject (g : ObjectGap)
  | inList (g : ListGap)

namespace Gap

def fill : Gap → Bytes → Bytes
  | inObject g => g.fill
  | inList g => g.fill

/-- Whether a gap stands for a field: as the member of its name, or at its place among all. -/
def At (names : List String) (name : String) : Gap → Prop
  | inObject g => g.Fits name
  | inList g => g.Fits ∧ names[g.front.length]? = some name

theorem At.isValue {names : List String} {name : String} {g : Gap} (stands : g.At names name)
    {text : Bytes} (isValue : IsValue text) : IsValue (g.fill text) := by
  cases g with
  | inObject g => exact ObjectGap.Fits.isValue stands isValue
  | inList g => exact stands.1.isValue isValue

end Gap

theorem Takes.unique {read : Reader α} {text : Bytes} {value value' : α}
    (takes : Takes read text value) (takes' : Takes read text value') : value = value' := by
  have read := takes.alone
  rw [takes'.alone] at read
  exact (congrArg Prod.fst (Except.ok.inj read)).symm

/-! ### Lists -/

theorem ListGap.Fits.refill {g : ListGap} (fits : g.Fits) {read : Reader α} (sound : Sound read)
    {text : Bytes} (isValue : IsValue text) {values : List α}
    (takes : Takes (readList read) (g.fill text) values) :
    ∃ x, values[g.front.length]? = some x ∧ Takes read text x ∧
      ∀ text' x', IsValue text' → Takes read text' x' →
        Takes (readList read) (g.fill text') (values.set g.front.length x') := by
  have taken := (takes_list_iff sound fits.fit_items (fits.values_items isValue) fits.inner).1 takes
  have front := List.forall₂_take_append _ _ _ taken
  have back := List.forall₂_drop_append _ _ _ taken
  generalize parts : values.drop g.front.length = later at back
  cases back with
  | @cons x _ others _ takes_x back =>
    have place : (values.drop g.front.length)[0]? = values[g.front.length + 0]? :=
      List.getElem?_drop
    rw [parts, Nat.add_zero] at place
    refine ⟨x, place.symm, takes_x, fun text' x' isValue' takes' => ?_⟩
    have size : g.front.length < values.length := (List.getElem?_eq_some_iff.1 place.symm).1
    have others_eq : values.drop (g.front.length + 1) = others := by
      rw [← List.tail_drop, parts, List.tail_cons]
    rw [List.set_eq_take_append_cons_drop, if_pos size, others_eq]
    exact (takes_list_iff sound fits.fit_items (fits.values_items isValue') fits.inner).2
      (List.rel_append front (.cons takes' back))

/-- Once a list is read with some item in the gap, what it is read for with another one there is up
to the reader of the items. -/
theorem ListGap.Fits.takes_fill {g : ListGap} (fits : g.Fits) {read : Reader α}
    (sound : Sound read) {first text : Bytes} (isFirst : IsValue first) {whole : List α}
    (correct : Takes (readList read) (g.fill first) whole) (isValue : IsValue text)
    {values : List α} :
    Takes (readList read) (g.fill text) values ↔
      ∃ x, Takes read text x ∧ values = whole.set g.front.length x := by
  obtain ⟨-, -, -, again⟩ := fits.refill sound isFirst correct
  constructor
  · intro takes
    obtain ⟨x, -, takes_x, -⟩ := fits.refill sound isValue takes
    exact ⟨x, takes_x, takes.unique (again text x isValue takes_x)⟩
  · rintro ⟨x, takes_x, rfl⟩
    exact again text x isValue takes_x

/-! ### Dictionaries -/

theorem mem_names_iff {all : List ((String × α) × Entry)}
    (names : ∀ e ∈ all, WritesName e.1.1 e.2.name) {name : String} :
    name ∈ (all.map Prod.fst).map Prod.fst ↔
      ∃ entry ∈ all.map Prod.snd, WritesName name entry.name := by
  constructor
  · intro mem
    obtain ⟨pair, mem_pair, same⟩ := List.mem_map.1 mem
    obtain ⟨e, mem_e, rfl⟩ := List.mem_map.1 mem_pair
    exact ⟨e.2, List.mem_map_of_mem mem_e, same ▸ names e mem_e⟩
  · rintro ⟨entry, mem, writes⟩
    obtain ⟨e, mem_e, rfl⟩ := List.mem_map.1 mem
    have same := (names e mem_e).unique writes
    exact List.mem_map.2 ⟨e.1, List.mem_map_of_mem mem_e, same⟩

theorem ObjectGap.Fits.refill {g : ObjectGap} {name : String} (fits : g.Fits name)
    {read : Reader α} (sound : Sound read) {text : Bytes} (isValue : IsValue text) {d : Dict α}
    (takes : Takes (readDict read) (g.fill text) d) :
    ∃ (before : Dict α) (later : List (String × α)) (x : α), Takes read text x ∧
      d = (before.insert name x).insertAll later ∧ (name ∈ later.map Prod.fst ↔ g.Repeats name) ∧
      ∀ text' x', IsValue text' → Takes read text' x' →
        Takes (readDict read) (g.fill text') ((before.insert name x').insertAll later) := by
  obtain ⟨all, parts, names, takes_all, rfl⟩ := (takes_dict_iff sound fits.fit_entries
    fits.strings_entries (fits.values_entries isValue) fits.inner).1 takes
  obtain ⟨front, rest, rfl, front_eq, rest_eq⟩ := List.map_eq_append_iff.1 parts
  obtain ⟨⟨⟨name', x⟩, entry⟩, back, rfl, rfl, back_eq⟩ := List.map_eq_cons_iff.1 rest_eq
  simp only [List.forall_mem_append, List.forall_mem_cons] at names takes_all
  obtain ⟨names_front, name_gap, names_back⟩ := names
  obtain ⟨takes_front, takes_x, takes_back⟩ := takes_all
  obtain rfl := name_gap.unique fits.writes
  refine ⟨Dict.insertAll ∅ (front.map Prod.fst), back.map Prod.fst, x, takes_x, ?_, ?_, ?_⟩
  · rw [List.map_append, Dict.insertAll_append]
    rfl
  · unfold Repeats
    rw [← back_eq]
    exact mem_names_iff names_back
  · intro text' x' isValue' takes'
    refine (takes_dict_iff sound fits.fit_entries fits.strings_entries
      (fits.values_entries isValue') fits.inner).2
        ⟨front ++ ((name', x'), g.member.holding text') :: back, ?_, ?_, ?_, ?_⟩
    · rw [List.map_append, List.map_cons, front_eq, back_eq]
      rfl
    · simp only [List.forall_mem_append, List.forall_mem_cons]
      exact ⟨names_front, fits.writes, names_back⟩
    · simp only [List.forall_mem_append, List.forall_mem_cons]
      exact ⟨takes_front, takes', takes_back⟩
    · rw [List.map_append, Dict.insertAll_append]
      rfl

/-- Once a dictionary is read with some value in the gap, with another one there it is read if that
one is, and the other one counts unless its name comes again. -/
theorem ObjectGap.Fits.takes_fill {g : ObjectGap} {name : String} (fits : g.Fits name)
    {read : Reader α} (sound : Sound read) {first text : Bytes} (isFirst : IsValue first)
    {whole : Dict α} (correct : Takes (readDict read) (g.fill first) whole)
    (isValue : IsValue text) {d : Dict α} :
    Takes (readDict read) (g.fill text) d ↔
      ∃ x, Takes read text x ∧ (g.Repeats name → d = whole) ∧
        (¬g.Repeats name → d = whole.insert name x) := by
  obtain ⟨before, later, x₀, -, rfl, repeats, again⟩ := fits.refill sound isFirst correct
  have filled (x : α) :
      (g.Repeats name → (before.insert name x).insertAll later =
          (before.insert name x₀).insertAll later) ∧
        (¬g.Repeats name → (before.insert name x).insertAll later =
          ((before.insert name x₀).insertAll later).insert name x) := by
    rw [← repeats]
    constructor
    · exact fun mem => Dict.insertAll_of_mem mem before x x₀
    · intro absent
      rw [Dict.insertAll_of_not_mem absent, Dict.insertAll_of_not_mem absent, Dict.insert_again]
  constructor
  · intro takes
    obtain ⟨-, -, x, takes_x, -⟩ := fits.refill sound isValue takes
    obtain rfl := takes.unique (again text x isValue takes_x)
    exact ⟨x, takes_x, filled x⟩
  · rintro ⟨x, takes_x, shadowed, counts⟩
    have same : d = (before.insert name x).insertAll later := by
      by_cases comes : g.Repeats name
      · exact (shadowed comes).trans ((filled x).1 comes).symm
      · exact (counts comes).trans ((filled x).2 comes).symm
    exact same ▸ again text x isValue takes_x

/-! ### Seats -/

structure Seat (δ β : Type) where
  name : String
  isSet : δ → Bool
  read : Reader β
  fill : δ → Option β → δ

namespace Seat

def member (seat : Seat δ β) : Member δ :=
  ⟨seat.name, seat.isSet, fun draft => readInto seat.read (seat.fill draft)⟩

theorem exists_of_takes {seat : Seat δ β} (exact : Exact seat.read) {draft next : δ}
    {text : Bytes} (isValue : IsValue text) (takes : Takes (seat.member.read draft) text next) :
    ∃ x, Takes seat.read text x ∧ next = seat.fill draft (some x) := by
  obtain ⟨⟨x, rest⟩, taken, same⟩ := map_eq_ok.1 takes.alone
  cases same
  exact ⟨x, exact.takes_alone isValue taken, rfl⟩

end Seat

/-- A member that neither sees nor touches what a seat is filled with. -/
inductive Apart (fill : δ → Option β → δ) : Member δ → Prop
  | into {γ : Type} {name : String} {isSet : δ → Bool} {read : Reader γ}
      {other : δ → Option γ → δ} (commute : ∀ d x y, other (fill d x) y = fill (other d y) x)
      (unseen : ∀ d x, isSet (fill d x) = isSet d) :
      Apart fill ⟨name, isSet, fun draft => readInto read (other draft)⟩

theorem Apart.takes {fill : δ → Option β → δ} {member : Member δ} (apart : Apart fill member)
    {draft next : δ} {text : Bytes} (takes : Takes (member.read draft) text next) (x : Option β) :
    Takes (member.read (fill draft x)) text (fill next x) := by
  refine ⟨takes.starts, fun blanks rest blank stops => ?_⟩
  have read := takes.reads blanks rest blank stops
  cases apart with
  | into commute _ =>
    obtain ⟨⟨value, rest'⟩, taken, same⟩ := map_eq_ok.1 read
    cases same
    refine map_eq_ok.2 ⟨_, taken, ?_⟩
    rw [← commute]

theorem Apart.isSet {fill : δ → Option β → δ} {member : Member δ} (apart : Apart fill member)
    (draft : δ) (x : Option β) : member.isSet (fill draft x) = member.isSet draft := by
  cases apart with
  | into _ unseen => exact unseen draft x

/-- A seat of a record that only its own member sees, and that makes one field of the record. -/
structure Seat.Own (seat : Seat δ β) (record : Record δ α) (set : α → β → α) : Prop where
  mem : seat.member ∈ record.members
  again : ∀ draft x y, seat.fill (seat.fill draft x) y = seat.fill draft y
  apart : ∀ m ∈ record.members, m.name ≠ seat.name → Apart seat.fill m
  builds : ∀ draft x value, record.build draft = .ok value →
    record.build (seat.fill draft (some x)) = .ok (set value x)

namespace Record

variable {record : Record δ α} {seat : Seat δ β} {set : α → β → α}

theorem eq_own (distinct : (record.members.map Member.name).Nodup) (own : seat.Own record set)
    {m : Member δ} (mem : m ∈ record.members) (same : m.name = seat.name) : m = seat.member :=
  List.inj_on_of_nodup_map distinct mem own.mem same

/-! ### Objects -/

theorem FeedsAll.append_iff {draft last : δ} {front back : List Entry} :
    record.FeedsAll draft (front ++ back) last ↔
      ∃ middle, record.FeedsAll draft front middle ∧ record.FeedsAll middle back last := by
  induction front generalizing draft with
  | nil =>
    constructor
    · exact fun feeds => ⟨draft, .nil, feeds⟩
    · rintro ⟨middle, none, feeds⟩
      cases none
      exact feeds
  | cons entry front ih =>
    constructor
    · intro feeds
      cases feeds with
      | cons first rest =>
        obtain ⟨middle, feeds, later⟩ := ih.1 rest
        exact ⟨middle, .cons first feeds, later⟩
    · rintro ⟨middle, feeds, later⟩
      cases feeds with
      | cons first rest => exact .cons first (ih.2 ⟨middle, rest, later⟩)

theorem Feeds.field_own (distinct : (record.members.map Member.name).Nodup)
    (own : seat.Own record set) {draft next : δ} {entry : Entry}
    (feeds : record.Feeds draft entry next) (writes : WritesName seat.name entry.name) :
    record.members.find? (fun m => m.name == seat.name) = some seat.member ∧
      seat.isSet draft = false ∧ Takes (seat.member.read draft) entry.value.text next := by
  cases feeds with
  | other writes' notFound _ =>
    obtain rfl := writes'.unique writes
    exact absurd (beq_self_eq_true _) (List.find?_eq_none.1 notFound _ own.mem)
  | field writes' found unset takes =>
    obtain rfl := writes'.unique writes
    have found_name := List.find?_some found
    have mem := List.mem_of_find?_eq_some found
    obtain rfl := eq_own distinct own mem (beq_iff_eq.1 found_name)
    exact ⟨found, unset, takes⟩

/-- Members behind the one of a seat feed a draft all the same if the seat is filled anew. -/
theorem FeedsAll.refill (distinct : (record.members.map Member.name).Nodup)
    (places : ∀ m ∈ record.members, Places record.members m) (own : seat.Own record set)
    {draft last : δ} {entries : List Entry} (feeds : record.FeedsAll draft entries last)
    (full : seat.isSet draft = true) (x : Option β) :
    record.FeedsAll (seat.fill draft x) entries (seat.fill last x) := by
  induction feeds with
  | nil => exact .nil
  | @cons draft next last entry entries first _ ih =>
    have full_next := (first.sets distinct places own.mem).1 full
    refine .cons ?_ (ih full_next)
    cases first with
    | other writes notFound isValue => exact .other writes notFound isValue
    | @field name member _ writes found unset takes =>
      have mem := List.mem_of_find?_eq_some found
      have different : member.name ≠ seat.name := by
        intro same
        obtain rfl := eq_own distinct own mem same
        exact Bool.false_ne_true (unset.symm.trans full)
      have apart := own.apart member mem different
      exact .field writes found ((apart.isSet draft x).trans unset) (apart.takes takes x)

/-- Whatever else is read from the gap of an object takes the place of what has been read from
it. -/
theorem refill_object (distinct : (record.members.map Member.name).Nodup)
    (places : ∀ m ∈ record.members, Places record.members m) (exact : Exact seat.read)
    (own : seat.Own record set) {g : ObjectGap} (fits : g.Fits seat.name) {text : Bytes}
    (isValue : IsValue text) {value : α} (taken : Takes record.shape.read (g.fill text) value) :
    ∃ x, Takes seat.read text x ∧ ∀ text' x', Takes seat.read text' x' →
      Takes record.shape.read (g.fill text') (set value x') := by
  obtain ⟨last, feeds, built⟩ := feedsAll_of_decode places fits.fit_entries fits.strings_entries
    (fits.values_entries isValue) .nil fits.inner (taken.decode .nil .nil)
  obtain ⟨draft, front, feeds⟩ := FeedsAll.append_iff.1 feeds
  cases feeds with
  | @cons _ next _ _ _ member back =>
    obtain ⟨found, unset, takes⟩ := member.field_own distinct own fits.writes
    obtain ⟨x, takes_x, rfl⟩ := Seat.exists_of_takes exact isValue takes
    refine ⟨x, takes_x, fun text' x' takes' => ?_⟩
    have full := ((member.sets distinct places own.mem).2 fits.writes).2
    have back' := back.refill distinct places own full (some x')
    rw [own.again] at back'
    have member' : record.Feeds draft (g.member.holding text') (seat.fill draft (some x')) :=
      .field fits.writes found unset (takes'.into (seat.fill draft))
    have feeds' := FeedsAll.append_iff.2 ⟨draft, front, .cons member' back'⟩
    exact feeds'.takes fits.fit_entries fits.inner (own.builds last x' value built)

/-! ### Arrays -/

theorem FeedsItems.append {front back : List (Member δ)} {draft middle last : δ}
    {items items' : List Spaced} (feeds : FeedsItems front draft items middle)
    (full : items.length = front.length) (later : FeedsItems back middle items' last) :
    FeedsItems (front ++ back) draft (items ++ items') last := by
  induction feeds with
  | @nil members =>
    obtain rfl := List.length_eq_zero_iff.1 full.symm
    exact later
  | cons takes _ ih => exact .cons takes (ih (Nat.succ.inj full) later)

theorem FeedsItems.split {members : List (Member δ)} {draft last : δ} {items items' : List Spaced}
    (feeds : FeedsItems members draft (items ++ items') last) :
    ∃ front back middle, members = front ++ back ∧ items.length = front.length ∧
      FeedsItems front draft items middle ∧ FeedsItems back middle items' last := by
  induction items generalizing members draft with
  | nil => exact ⟨[], members, draft, rfl, rfl, .nil, feeds⟩
  | cons item items ih =>
    cases feeds with
    | @cons member _ _ next _ _ _ takes rest =>
      obtain ⟨front, back, middle, rfl, full, feeds, later⟩ := ih rest
      exact ⟨member :: front, back, middle, rfl, congrArg Nat.succ full, .cons takes feeds, later⟩

theorem FeedsItems.refill {members : List (Member δ)} {fill : δ → Option β → δ}
    (apart : ∀ m ∈ members, Apart fill m) {draft last : δ} {items : List Spaced}
    (feeds : FeedsItems members draft items last) (x : Option β) :
    FeedsItems members (fill draft x) items (fill last x) := by
  induction feeds with
  | nil => exact .nil
  | cons takes _ ih =>
    obtain ⟨apart_member, apart⟩ := List.forall_mem_cons.1 apart
    exact .cons (apart_member.takes takes x) (ih apart)

theorem refill_list (distinct : (record.members.map Member.name).Nodup)
    (places : ∀ m ∈ record.members, Places record.members m) (exact : Exact seat.read)
    (own : seat.Own record set) {g : ListGap} (fits : g.Fits)
    (named : (record.members.map Member.name)[g.front.length]? = some seat.name) {text : Bytes}
    (isValue : IsValue text) {value : α} (taken : Takes record.shape.read (g.fill text) value) :
    ∃ x, Takes seat.read text x ∧ ∀ text' x', Takes seat.read text' x' →
      Takes record.shape.read (g.fill text') (set value x') := by
  obtain ⟨last, feeds, built⟩ := feedsItems_of_decode places fits.fit_items
    (fits.values_items isValue) .nil fits.inner (taken.decode .nil .nil)
  obtain ⟨members, members', draft, parts, full, front, feeds⟩ := feeds.split
  cases feeds with
  | @cons member members' _ next _ _ _ takes back =>
    -- The member that takes the item of the gap is the one of the seat, so those behind it are not.
    have mem : member ∈ record.members := by simp [parts]
    have same : member.name = seat.name := by
      rw [parts, full] at named
      simpa using named
    have apart : ∀ m ∈ members', Apart seat.fill m := by
      intro m mem_m
      refine own.apart m (by simp [parts, mem_m]) fun again => ?_
      rw [parts, List.map_append, List.map_cons, List.nodup_append] at distinct
      refine (List.nodup_cons.1 distinct.2.1).1 ?_
      rw [same, ← again]
      exact List.mem_map_of_mem mem_m
    obtain rfl := eq_own distinct own mem same
    obtain ⟨x, takes_x, rfl⟩ := Seat.exists_of_takes exact isValue takes
    refine ⟨x, takes_x, fun text' x' takes' => ?_⟩
    have back' := back.refill apart (some x')
    rw [own.again] at back'
    have item' : FeedsItems (seat.member :: members') draft (g.item.holding text' :: g.back)
        (seat.fill last (some x')) := .cons (takes'.into (seat.fill draft)) back'
    have feeds' := front.append full item'
    rw [← parts] at feeds'
    exact feeds'.takes fits.fit_items fits.inner (own.builds last x' value built)

/-! ### Fields of a record -/

/-- Once a record is read with some value in the gap of a field, what it is read for with another
value there is up to the reader of that field. -/
theorem takes_fill (distinct : (record.members.map Member.name).Nodup)
    (places : ∀ m ∈ record.members, Places record.members m) (exact : Exact seat.read)
    (own : seat.Own record set) {g : Gap} (stands : g.At (record.members.map Member.name) seat.name)
    {first text : Bytes} (isFirst : IsValue first) {whole : α}
    (correct : Takes record.shape.read (g.fill first) whole) (isValue : IsValue text) {value : α} :
    Takes record.shape.read (g.fill text) value ↔
      ∃ x, Takes seat.read text x ∧ value = set whole x := by
  have refill {text : Bytes} (isValue : IsValue text) {value : α}
      (taken : Takes record.shape.read (g.fill text) value) :
      ∃ x, Takes seat.read text x ∧ ∀ text' x', Takes seat.read text' x' →
        Takes record.shape.read (g.fill text') (set value x') := by
    cases g with
    | inObject g => exact refill_object distinct places exact own stands isValue taken
    | inList g => exact refill_list distinct places exact own stands.1 stands.2 isValue taken
  obtain ⟨-, -, again⟩ := refill isFirst correct
  constructor
  · intro takes
    obtain ⟨x, takes_x, -⟩ := refill isValue takes
    exact ⟨x, takes_x, takes.unique (again text x takes_x)⟩
  · rintro ⟨x, takes_x, rfl⟩
    exact again text x takes_x

end Record

end PetClient.Json
