import PetClient.Proofs.Json.Exact

/-!
Records and the texts that present them.  A record is read from the members of an object whatever
their order and whatever stands between them, or from an array of its fields; a field that comes
twice is refused wherever it stands.
-/

namespace PetClient.Json

open Result (bind_eq_ok map_eq_ok)

variable {α δ : Type}

/-! ### Texts of records -/

structure WireField (α : Type) where
  name : String
  /-- The texts that hold the field of a record. -/
  Holds : α → Bytes → Prop
  /-- Whether the field of a record may be absent. -/
  MayLack : α → Prop

namespace WireField

variable {β : Type}

def required (name : String) (writes : β → Bytes → Prop) (value : α → β) : WireField α :=
  ⟨name, fun record => writes (value record), fun _ => False⟩

def defaulted (name : String) (writes : β → Bytes → Prop) (value : α → β) (default : β) :
    WireField α :=
  ⟨name, fun record => writes (value record), fun record => value record = default⟩

end WireField

/-- A member of an object, with its unescaped name, next to the fields of a record.  Under another
name there may be any value. -/
structure MayStand (fields : List (WireField α)) (value : α) (member : String × Entry) : Prop where
  fits : member.2.Fits
  name : WritesName member.1 member.2.name
  holds : ∀ f ∈ fields, f.name = member.1 → f.Holds value member.2.value.text
  other : member.1 ∉ fields.map WireField.name → IsValue member.2.value.text

theorem MayStand.of_mem {fields : List (WireField α)} (distinct : (fields.map WireField.name).Nodup)
    {field : WireField α} (mem : field ∈ fields) {value : α} {entry : Entry} (fits : entry.Fits)
    (name : WritesName field.name entry.name) (holds : field.Holds value entry.value.text) :
    MayStand fields value (field.name, entry) := by
  refine ⟨fits, name, fun f mem_f same => ?_, fun other => ?_⟩
  · rwa [List.inj_on_of_nodup_map distinct mem_f mem same]
  · exact absurd (List.mem_map_of_mem mem) other

theorem MayStand.of_not_mem {fields : List (WireField α)} {name : String}
    (other : name ∉ fields.map WireField.name) {value : α} {entry : Entry} (fits : entry.Fits)
    (writes : WritesName name entry.name) (isValue : IsValue entry.value.text) :
    MayStand fields value (name, entry) := by
  refine ⟨fits, writes, fun f mem_f same => ?_, fun _ => isValue⟩
  subst same
  exact absurd (List.mem_map_of_mem mem_f) other

inductive Presents (fields : List (WireField α)) (value : α) : Bytes → Prop
  | object {members : List (String × Entry)} {before inner after : Bytes} (blank : Blank before)
      (blank' : Blank inner) (blank'' : Blank after)
      (stand : ∀ m ∈ members, MayStand fields value m)
      (once : members.Pairwise fun m n => m.1 = n.1 → m.1 ∉ fields.map WireField.name)
      (complete : ∀ f ∈ fields, f.name ∈ members.map Prod.fst ∨ f.MayLack value) :
      Presents fields value (before ++ (objectBytes (members.map Prod.snd) inner ++ after))
  | array {front back : List (WireField α)} {items : List Spaced} {before inner after : Bytes}
      (blank : Blank before) (blank' : Blank inner) (blank'' : Blank after)
      (fit : ∀ i ∈ items, i.Fits) (parts : fields = front ++ back)
      (holds : List.Forall₂ (fun f i => f.Holds value i.text) front items)
      (lacks : ∀ f ∈ back, f.MayLack value) :
      Presents fields value (before ++ (listBytes items inner ++ after))

inductive Repeats (names : List String) : Bytes → Prop
  | object {entries : List Entry} {first second : Entry} {name : String}
      {before inner after : Bytes} (blank : Blank before) (blank' : Blank inner)
      (blank'' : Blank after) (fit : ∀ e ∈ entries, e.Fits)
      (strings : ∀ e ∈ entries, IsString e.name) (values : ∀ e ∈ entries, IsValue e.value.text)
      (known : name ∈ names) (writes : WritesName name first.name)
      (writes' : WritesName name second.name) (twice : [first, second].Sublist entries) :
      Repeats names (before ++ (objectBytes entries inner ++ after))

/-! ### Drafts -/

/-- A member of a record takes the texts of a field into the draft of what has been seen so far. -/
structure Slot (draftOf : α → List String → δ) (member : Member δ) (field : WireField α) :
    Prop where
  name : member.name = field.name
  isSet : ∀ value seen, member.isSet (draftOf value seen) = decide (field.name ∈ seen)
  takes : ∀ {value text}, field.Holds value text → ∀ seen,
    Takes (member.read (draftOf value seen)) text (draftOf value (field.name :: seen))

structure Record.Drafted (record : Record δ α) (fields : List (WireField α))
    (draftOf : α → List String → δ) : Prop where
  slots : List.Forall₂ (Slot draftOf) record.members fields
  distinct : (fields.map WireField.name).Nodup
  blank : ∀ value, record.blank = draftOf value []
  builds : ∀ value seen, (∀ f ∈ fields, f.name ∈ seen ∨ f.MayLack value) →
    record.build (draftOf value seen) = .ok value

theorem names_of_slots {draftOf : α → List String → δ} {members : List (Member δ)}
    {fields : List (WireField α)} (slots : List.Forall₂ (Slot draftOf) members fields) :
    members.map Member.name = fields.map WireField.name := by
  induction slots with
  | nil => rfl
  | cons slot slots ih => rw [List.map_cons, List.map_cons, slot.name, ih]

theorem find_slot {draftOf : α → List String → δ} {members : List (Member δ)}
    {fields : List (WireField α)} (slots : List.Forall₂ (Slot draftOf) members fields)
    (distinct : (fields.map WireField.name).Nodup) {field : WireField α} (mem : field ∈ fields) :
    ∃ member, members.find? (fun m => m.name == field.name) = some member ∧
      Slot draftOf member field := by
  induction slots with
  | nil => cases mem
  | @cons member other members fields slot slots ih =>
    obtain ⟨fresh, distinct⟩ := List.nodup_cons.1 distinct
    rcases List.mem_cons.1 mem with rfl | mem
    · exact ⟨member, List.find?_cons_of_pos (beq_iff_eq.2 slot.name), slot⟩
    · have different : ¬(member.name == field.name) = true := by
        rw [beq_iff_eq, slot.name]
        intro same
        exact fresh (same ▸ List.mem_map_of_mem mem)
      rw [List.find?_cons_of_neg (p := fun m : Member δ => m.name == field.name) different]
      exact ih distinct mem

theorem find_other {members : List (Member δ)} {name : String}
    (other : name ∉ members.map Member.name) :
    members.find? (fun m => m.name == name) = none := by
  rw [List.find?_eq_none]
  intro member mem same
  exact other (beq_iff_eq.1 same ▸ List.mem_map_of_mem mem)

/-! ### Places -/

inductive Places (members : List (Member δ)) : Member δ → Prop
  | into {β : Type} {name : String} {isSet : δ → Bool} {read : Reader β}
      {fill : δ → Option β → δ} (sound : Sound read)
      (sets : ∀ draft value, ∀ m ∈ members,
        m.isSet (fill draft (some value)) = (m.isSet draft || m.name == name)) :
      Places members ⟨name, isSet, fun draft => readInto read (fill draft)⟩

theorem Places.sound {members : List (Member δ)} {member : Member δ}
    (places : Places members member) (draft : δ) : Sound (member.read draft) := by
  cases places with
  | into sound _ => exact sound.into _

theorem Places.sets {members : List (Member δ)} {member : Member δ}
    (places : Places members member) {draft next : δ} {text : Bytes}
    (takes : Takes (member.read draft) text next) {m : Member δ} (mem : m ∈ members) :
    m.isSet next = (m.isSet draft || m.name == member.name) := by
  have read := takes.alone
  cases places with
  | into _ sets =>
    obtain ⟨⟨value, rest⟩, -, same⟩ := map_eq_ok.1 read
    cases same
    exact sets draft value m mem

namespace Record

variable {record : Record δ α} {fields : List (WireField α)} {draftOf : α → List String → δ}

/-! ### Records -/

/-- A field that has not been seen is taken into the draft. -/
theorem Drafted.feeds_field (drafted : record.Drafted fields draftOf) {value : α}
    {m : String × Entry} (stands : MayStand fields value m)
    (known : m.1 ∈ fields.map WireField.name) {seen : List String} (unseen : m.1 ∉ seen) :
    record.Feeds (draftOf value seen) m.2 (draftOf value (m.1 :: seen)) := by
  obtain ⟨field, mem, same⟩ := List.mem_map.1 known
  obtain ⟨member, found, slot⟩ := find_slot drafted.slots drafted.distinct mem
  have takes := slot.takes (stands.holds field mem same) seen
  rw [same] at found takes
  refine .field stands.name found ?_ takes
  rw [slot.isSet, decide_eq_false_iff_not, same]
  exact unseen

theorem Drafted.feeds_other (drafted : record.Drafted fields draftOf) {value : α}
    {m : String × Entry} (stands : MayStand fields value m)
    (other : m.1 ∉ fields.map WireField.name) (draft : δ) : record.Feeds draft m.2 draft :=
  .other stands.name (find_other (names_of_slots drafted.slots ▸ other)) (stands.other other)

/-- The members of an object are taken one by one, whatever their order. -/
theorem Drafted.feedsAll (drafted : record.Drafted fields draftOf) {value : α}
    {members : List (String × Entry)} (stand : ∀ m ∈ members, MayStand fields value m)
    (once : members.Pairwise fun m n => m.1 = n.1 → m.1 ∉ fields.map WireField.name)
    (seen : List String) (unseen : ∀ m ∈ members, m.1 ∈ fields.map WireField.name → m.1 ∉ seen)
    (complete : ∀ f ∈ fields, f.name ∈ seen ∨ f.name ∈ members.map Prod.fst ∨ f.MayLack value) :
    ∃ all, (∀ f ∈ fields, f.name ∈ all ∨ f.MayLack value) ∧
      record.FeedsAll (draftOf value seen) (members.map Prod.snd) (draftOf value all) := by
  induction members generalizing seen with
  | nil => exact ⟨seen, by simpa using complete, .nil⟩
  | cons m members ih =>
    obtain ⟨stands, stand⟩ := List.forall_mem_cons.1 stand
    obtain ⟨alone, once⟩ := List.pairwise_cons.1 once
    obtain ⟨unseen_m, unseen⟩ := List.forall_mem_cons.1 unseen
    by_cases known : m.1 ∈ fields.map WireField.name
    · -- The field stands in the object once, so it is not among the members to come.
      have unseen_later : ∀ n ∈ members, n.1 ∈ fields.map WireField.name →
          n.1 ∉ m.1 :: seen := by
        intro n mem_n known_n seen_n
        rcases List.mem_cons.1 seen_n with again | before
        · exact alone n mem_n again.symm known
        · exact unseen n mem_n known_n before
      have complete_later : ∀ f ∈ fields, f.name ∈ m.1 :: seen ∨
          f.name ∈ members.map Prod.fst ∨ f.MayLack value := by
        intro f mem_f
        have cases_f := complete f mem_f
        rw [List.map_cons, List.mem_cons] at cases_f
        rw [List.mem_cons]
        tauto
      obtain ⟨all, seen_all, feeds⟩ := ih stand once (m.1 :: seen) unseen_later complete_later
      exact ⟨all, seen_all, .cons (drafted.feeds_field stands known (unseen_m known)) feeds⟩
    · have complete_later : ∀ f ∈ fields, f.name ∈ seen ∨
          f.name ∈ members.map Prod.fst ∨ f.MayLack value := by
        intro f mem_f
        have different : f.name ≠ m.1 := fun same => known (same ▸ List.mem_map_of_mem mem_f)
        have cases_f := complete f mem_f
        rw [List.map_cons, List.mem_cons] at cases_f
        tauto
      obtain ⟨all, seen_all, feeds⟩ := ih stand once seen unseen complete_later
      exact ⟨all, seen_all, .cons (drafted.feeds_other stands known _) feeds⟩

theorem feedsItems_of_slots {members : List (Member δ)} {front back : List (WireField α)}
    (slots : List.Forall₂ (Slot draftOf) members (front ++ back)) {value : α}
    {items : List Spaced} (holds : List.Forall₂ (fun f i => f.Holds value i.text) front items)
    (seen : List String) :
    FeedsItems members (draftOf value seen) items
      (draftOf value ((front.map WireField.name).reverse ++ seen)) := by
  induction holds generalizing members seen with
  | nil => exact .nil
  | @cons f item front items holds holds_rest ih =>
    cases slots with
    | @cons member _ members _ slot slots =>
      have rest := ih slots (f.name :: seen)
      rw [List.map_cons, List.reverse_cons, List.append_assoc]
      exact .cons (slot.takes holds seen) rest

/-- A record is read from every text that presents it. -/
theorem Drafted.decode (drafted : record.Drafted fields draftOf) {value : α} {text : Bytes}
    (presents : Presents fields value text) : record.shape.decode text = .ok value := by
  cases presents with
  | @object members before inner after blank blank' blank'' stand once complete =>
    obtain ⟨all, seen_all, feeds⟩ := drafted.feedsAll stand once []
      (fun _ _ _ => List.not_mem_nil) (fun f mem => .inr (complete f mem))
    rw [← drafted.blank] at feeds
    have fit : ∀ e ∈ members.map Prod.snd, e.Fits := by
      intro e mem
      obtain ⟨m, mem_m, rfl⟩ := List.mem_map.1 mem
      exact (stand m mem_m).fits
    have takes : Takes record.shape.read _ value :=
      feeds.takes fit blank' (drafted.builds value all seen_all)
    exact takes.decode blank blank''
  | @array front back items before inner after blank blank' blank'' fit parts holds lacks =>
    have slots := drafted.slots
    rw [parts] at slots
    have feeds := feedsItems_of_slots slots holds []
    have seen_all : ∀ f ∈ fields, f.name ∈ (front.map WireField.name).reverse ++ [] ∨
        f.MayLack value := by
      intro f mem
      rw [parts] at mem
      rcases List.mem_append.1 mem with seen | absent
      · exact .inl (by simpa using ⟨f, seen, rfl⟩)
      · exact .inr (lacks f absent)
    rw [← drafted.blank] at feeds
    have takes : Takes record.shape.read _ value :=
      feeds.takes fit blank' (drafted.builds value _ seen_all)
    exact takes.decode blank blank''

theorem sound_of_places (places : ∀ m ∈ record.members, Places record.members m) :
    Sound record.shape.read :=
  Record.sound fun m mem draft => ((places m mem).sound draft).exact

/-! ### Given members -/

/-- A given member of an object that is read feeds the draft. -/
theorem feeds_of_readObjectTail (places : ∀ m ∈ record.members, Places record.members m)
    {draft last : δ} {entry : Entry} {entries : List Entry} (fits : entry.Fits)
    (string : IsString entry.name) (isValue : IsValue entry.value.text)
    {blanks closing bytes : Bytes} (blank : Blank blanks) (stops : Stops closing) {first : Bool}
    {budget : Bytes}
    (read : record.readObjectTail budget first draft
      (blanks ++ (piecesFrom Entry.bytes first (entry :: entries) ++ closing)) =
        .ok (last, bytes)) :
    ∃ budget' next, record.Feeds draft entry next ∧
      record.readObjectTail budget' false next
        (entry.value.after ++ (piecesFrom Entry.bytes false entries ++ closing)) =
          .ok (last, bytes) := by
  cases budget with
  | nil => cases read
  | cons _ budget =>
    have stops_value : Stops (entry.value.after ++
        (piecesFrom Entry.bytes false entries ++ closing)) :=
      .behind fits.value.after (stops_pieces _ stops)
    unfold Record.readObjectTail at read
    rw [nextKey_entry fits blank] at read
    obtain ⟨key, next, read⟩ := bind_eq_ok.1 read
    cases next
    obtain ⟨⟨name, gap⟩, read_name, read⟩ := bind_eq_ok.1 read
    obtain ⟨writes, rfl⟩ := string.name_of_readString read_name
    dsimp only at read
    split at read
    · rename_i notFound
      rw [readColon_blanks fits.gap] at read
      obtain ⟨start, colon, read⟩ := bind_eq_ok.1 read
      cases colon
      rw [isValue.skipped fits.value.before stops_value] at read
      exact ⟨budget, draft, .other writes notFound isValue, read⟩
    · rename_i member found
      have sound := (places member (List.mem_of_find?_eq_some found)).sound draft
      split at read
      · unfold faultOfObject at read
        split at read <;> cases read
      · rename_i unset
        rw [readColon_blanks fits.gap] at read
        obtain ⟨start, colon, read⟩ := bind_eq_ok.1 read
        cases colon
        obtain ⟨⟨next, rest⟩, taken, read⟩ := bind_eq_ok.1 read
        obtain ⟨rfl, takes⟩ := sound.takes_given isValue fits.value.before stops_value taken
        exact ⟨budget, next, .field writes found (Bool.eq_false_iff.2 unset) takes, read⟩

theorem feedsAll_of_readObjectTail (places : ∀ m ∈ record.members, Places record.members m)
    {entries : List Entry} (fit : ∀ e ∈ entries, e.Fits) (strings : ∀ e ∈ entries, IsString e.name)
    (values : ∀ e ∈ entries, IsValue e.value.text) {blanks closing bytes : Bytes}
    (blank : Blank blanks) (stops : Stops closing) {first : Bool} {budget : Bytes} {draft last : δ}
    (read : record.readObjectTail budget first draft
      (blanks ++ (piecesFrom Entry.bytes first entries ++ closing)) = .ok (last, bytes)) :
    ∃ next budget' blanks' first', Blank blanks' ∧ record.FeedsAll draft entries next ∧
      record.readObjectTail budget' first' next (blanks' ++ closing) = .ok (last, bytes) := by
  induction entries generalizing blanks first budget draft with
  | nil => exact ⟨draft, budget, blanks, first, blank, .nil, read⟩
  | cons entry entries ih =>
    obtain ⟨fits, fit⟩ := List.forall_mem_cons.1 fit
    obtain ⟨string, strings⟩ := List.forall_mem_cons.1 strings
    obtain ⟨isValue, values⟩ := List.forall_mem_cons.1 values
    obtain ⟨budget', next, feeds, later⟩ :=
      feeds_of_readObjectTail places fits string isValue blank stops read
    obtain ⟨last', budget'', blanks', first', blank', feedsAll, done⟩ :=
      ih fit strings values fits.value.after later
    exact ⟨last', budget'', blanks', first', blank', .cons feeds feedsAll, done⟩

/-- The members of a given object that is read feed the draft that the record is built from. -/
theorem feedsAll_of_decode (places : ∀ m ∈ record.members, Places record.members m)
    {entries : List Entry} (fit : ∀ e ∈ entries, e.Fits) (strings : ∀ e ∈ entries, IsString e.name)
    (values : ∀ e ∈ entries, IsValue e.value.text) {before inner after : Bytes}
    (blank : Blank before) (blank' : Blank inner) {value : α}
    (decoded : record.shape.decode (before ++ (objectBytes entries inner ++ after)) = .ok value) :
    ∃ last, record.FeedsAll record.blank entries last ∧ record.build last = .ok value := by
  have stops : Stops (inner ++ 0x7D :: after) := .behind blank' (stops_cons (by simp) after)
  obtain ⟨rest, -, read⟩ := Shape.read_of_decode decoded
  change record.read _ = _ at read
  unfold objectBytes Record.read at read
  rw [List.cons_append, skipBlanks_append blank rfl] at read
  simp only [List.append_assoc, List.singleton_append] at read
  obtain ⟨⟨draft, last⟩, tail, read⟩ := bind_eq_ok.1 read
  obtain ⟨next, budget', blanks', first', blank'', feeds, done⟩ :=
    feedsAll_of_readObjectTail places fit strings values .nil stops tail
  cases budget' with
  | nil => cases done
  | cons _ budget' =>
    unfold readObjectTail at done
    rw [← List.append_assoc, nextKey_close (blank''.append blank')] at done
    cases done
    dsimp only at read
    split at read
    · unfold faultOfObject at read
      split at read <;> cases read
    · rename_i built
      obtain ⟨rest', -, made⟩ := bind_eq_ok.1 read
      cases made
      exact ⟨_, feeds, built⟩

theorem feedsItems_of_readArrayTail {members : List (Member δ)}
    (sound : ∀ m ∈ members, ∀ draft, Sound (m.read draft)) {items : List Spaced}
    (fit : ∀ i ∈ items, i.Fits) (values : ∀ i ∈ items, IsValue i.text)
    {blanks inner rest rest' bytes : Bytes} (blank : Blank blanks) (blank' : Blank inner)
    {first : Bool} {draft last : δ}
    (read : readArrayTail draft first
      (blanks ++ (piecesFrom Spaced.bytes first items ++ (inner ++ 0x5D :: rest))) members =
        .ok (last, bytes))
    (closes : closeList bytes = .ok rest') : FeedsItems members draft items last := by
  induction items generalizing members blanks first draft with
  | nil =>
    cases members with
    | nil =>
      cases read
      exact .nil
    | cons member members =>
      unfold readArrayTail at read
      rw [piecesFrom, List.nil_append, ← List.append_assoc,
        nextItem_close (blank.append blank')] at read
      cases read
      exact .nil
  | cons item items ih =>
    obtain ⟨fits, fit⟩ := List.forall_mem_cons.1 fit
    obtain ⟨isValue, values⟩ := List.forall_mem_cons.1 values
    have next := nextItem_spaced fits isValue.starts blank first items (inner ++ 0x5D :: rest)
    cases members with
    | nil =>
      cases read
      unfold nextItem at next
      rw [next_of_closeList closes] at next
      cases next
    | cons member members =>
      obtain ⟨sound_member, sound⟩ := List.forall_mem_cons.1 sound
      have stops := stops_after Spaced.bytes items fits.after blank' (.inl rfl) rest
      unfold readArrayTail at read
      rw [next] at read
      obtain ⟨start, same, read⟩ := bind_eq_ok.1 read
      cases same
      obtain ⟨⟨draft', behind⟩, taken, later⟩ := bind_eq_ok.1 read
      obtain ⟨rfl, takes⟩ := (sound_member draft).takes_given isValue .nil stops taken
      exact .cons takes (ih sound fit values fits.after later)

/-- The items of a given array that is read feed the draft that the record is built from. -/
theorem feedsItems_of_decode (places : ∀ m ∈ record.members, Places record.members m)
    {items : List Spaced} (fit : ∀ i ∈ items, i.Fits) (values : ∀ i ∈ items, IsValue i.text)
    {before inner after : Bytes} (blank : Blank before) (blank' : Blank inner) {value : α}
    (decoded : record.shape.decode (before ++ (listBytes items inner ++ after)) = .ok value) :
    ∃ last, FeedsItems record.members record.blank items last ∧ record.build last = .ok value := by
  obtain ⟨rest, -, read⟩ := Shape.read_of_decode decoded
  change record.read _ = _ at read
  unfold listBytes Record.read at read
  rw [List.cons_append, skipBlanks_append blank rfl] at read
  simp only [List.append_assoc, List.singleton_append] at read
  obtain ⟨⟨draft, last⟩, tail, read⟩ := bind_eq_ok.1 read
  dsimp only at read
  split at read
  · unfold faultOfList at read
    split at read <;> cases read
  · rename_i built
    obtain ⟨rest', closes, made⟩ := bind_eq_ok.1 read
    cases made
    exact ⟨draft, feedsItems_of_readArrayTail (fun m mem => (places m mem).sound) fit values .nil
      blank' tail closes, built⟩

/-! ### Repeated fields -/

theorem Feeds.sets (distinct : (record.members.map Member.name).Nodup)
    (places : ∀ m ∈ record.members, Places record.members m) {draft next : δ} {entry : Entry}
    (feeds : record.Feeds draft entry next) {m : Member δ} (mem : m ∈ record.members) :
    (m.isSet draft = true → m.isSet next = true) ∧
      (WritesName m.name entry.name → m.isSet draft = false ∧ m.isSet next = true) := by
  cases feeds with
  | other writes notFound _ =>
    refine ⟨id, fun writes' => ?_⟩
    have same := beq_iff_eq.2 (writes'.unique writes)
    exact absurd same (List.find?_eq_none.1 notFound m mem)
  | @field name member _ writes found unset takes =>
    have mem_member := List.mem_of_find?_eq_some found
    have found_name := List.find?_some found
    have named : member.name = name := beq_iff_eq.1 found_name
    have sets := (places member mem_member).sets takes mem
    refine ⟨fun set => by rw [sets, set, Bool.true_or], fun writes' => ?_⟩
    have same : m.name = member.name := (writes'.unique writes).trans named.symm
    obtain rfl := List.inj_on_of_nodup_map distinct mem mem_member same
    exact ⟨unset, by rw [sets, beq_self_eq_true, Bool.or_true]⟩

theorem FeedsAll.not_again (distinct : (record.members.map Member.name).Nodup)
    (places : ∀ m ∈ record.members, Places record.members m) {draft last : δ}
    {entries : List Entry} (feeds : record.FeedsAll draft entries last) {m : Member δ}
    (mem : m ∈ record.members) (set : m.isSet draft = true) :
    ∀ e ∈ entries, ¬WritesName m.name e.name := by
  induction feeds with
  | nil => exact nofun
  | cons feeds _ ih =>
    obtain ⟨keeps, fresh⟩ := feeds.sets distinct places mem
    refine List.forall_mem_cons.2 ⟨fun writes => ?_, ih (keeps set)⟩
    exact Bool.false_ne_true ((fresh writes).1.symm.trans set)

theorem FeedsAll.not_twice (distinct : (record.members.map Member.name).Nodup)
    (places : ∀ m ∈ record.members, Places record.members m) {draft last : δ}
    {entries : List Entry} (feeds : record.FeedsAll draft entries last) {m : Member δ}
    (mem : m ∈ record.members) {one other : Entry} (twice : [one, other].Sublist entries)
    (writes : WritesName m.name one.name) : ¬WritesName m.name other.name := by
  induction feeds with
  | nil => cases twice
  | cons feeds later ih =>
    cases twice with
    | cons _ twice => exact ih twice
    | cons_cons _ behind =>
      have set := ((feeds.sets distinct places mem).2 writes).2
      exact later.not_again distinct places mem set other (List.singleton_sublist.1 behind)

/-- No record is read from an object in which one of its fields stands twice. -/
theorem Drafted.decode_ne_ok (drafted : record.Drafted fields draftOf)
    (places : ∀ m ∈ record.members, Places record.members m) {text : Bytes}
    (repeats : Repeats (fields.map WireField.name) text) (value : α) :
    record.shape.decode text ≠ .ok value := by
  have names := names_of_slots drafted.slots
  have distinct := drafted.distinct
  rw [← names] at repeats distinct
  obtain ⟨blank, blank', -, fit, strings, values, known, writes, writes', twice⟩ := repeats
  obtain ⟨m, mem, rfl⟩ := List.mem_map.1 known
  intro decoded
  obtain ⟨last, feeds, -⟩ := feedsAll_of_decode places fit strings values blank blank' decoded
  exact feeds.not_twice distinct places mem twice writes writes'

end Record

end PetClient.Json
