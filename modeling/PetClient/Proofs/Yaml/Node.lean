import PetClient.Proofs.Yaml.Piece

/-!
Reading values out of a document without anchors: a reader that stands in front of the events of a
value reads it and goes on behind them.
-/

namespace PetClient.Yaml

/-! ### Documents without anchors -/

def Event.IsFree (e : Event) : Prop :=
  ∀ (anchors : Anchors) (position : Nat), anchors.visit e position = some anchors

theorem foldlM_visit {events : List Event} (free : ∀ e ∈ events, e.IsFree) (start : Nat)
    (anchors : Anchors) :
    (events.zipIdx start).foldlM (fun anchors (event, position) => anchors.visit event position)
      anchors = some anchors := by
  induction events generalizing start with
  | nil => rfl
  | cons e events ih =>
    obtain ⟨free_e, free⟩ := List.forall_mem_cons.1 free
    rw [List.zipIdx_cons, List.foldlM_cons]
    change (anchors.visit e start).bind _ = _
    rw [free_e]
    exact ih free (start + 1)

theorem document?_of_free {text : List Char} {events : List Event}
    (made : events? text = some events) (free : ∀ e ∈ events, e.IsFree) :
    document? text = some ⟨events.toArray, {}⟩ := by
  unfold document?
  rw [made]
  simp only [Option.bind_eq_bind, Option.bind_some, foldlM_visit free]

namespace Piece

def IsFree (p : Piece) : Prop :=
  ∀ e ∈ p.events, e.IsFree

theorem isFree_scalar (text : List Char) (style : ScalarStyle) :
    (Event.scalar {} text style).IsFree :=
  fun _ _ => rfl

theorem isFree_ofText (text : List Char) : (ofText text).IsFree :=
  List.forall_mem_singleton.2 (isFree_scalar _ _)

theorem isFree_ofNat (n : Nat) : (ofNat n).IsFree :=
  List.forall_mem_singleton.2 (isFree_scalar _ _)

theorem isFree_ofEntries {entries : List Entry} (free : ∀ e ∈ entries, e.2.IsFree) :
    (ofEntries entries).IsFree := by
  refine List.forall_mem_cons.2 ⟨fun _ _ => rfl, ?_⟩
  refine List.forall_mem_append.2 ⟨fun event mem => ?_, List.forall_mem_singleton.2 fun _ _ => rfl⟩
  obtain ⟨e, mem_e, mem_event⟩ := List.mem_flatMap.1 mem
  rcases List.mem_cons.1 mem_event with rfl | inner
  · exact isFree_scalar _ _
  · exact free e mem_e event inner

end Piece

namespace Document

variable {α β : Type} {doc : Document} {position : Nat} {event : Event} {rest : List Event}

def eventsFrom (doc : Document) (position : Nat) : List Event :=
  doc.events.toList.drop position

theorem event_at (stands : doc.eventsFrom position = event :: rest) :
    doc.events[position]? = some event := by
  have first : (doc.events.toList.drop position)[0]? = some event := by
    rw [show doc.events.toList.drop position = event :: rest from stands]
    rfl
  rwa [List.getElem?_drop, Nat.add_zero, Array.getElem?_toList] at first

theorem eventsFrom_add (front : List Event) (stands : doc.eventsFrom position = front ++ rest) :
    doc.eventsFrom (position + front.length) = rest := by
  unfold eventsFrom at stands ⊢
  rw [← List.drop_drop, stands, List.drop_left]

/-- A reader in front of some events reads a value and goes on behind them. -/
def Reads (doc : Document) (read : NodeReader α) (value : α) (events : List Event) : Prop :=
  ∀ position rest, doc.eventsFrom position = events ++ rest →
    read position = some (value, position + events.length)

theorem following_eq (read : NodeReader α) (stands : doc.eventsFrom position = event :: rest)
    (notAlias : ∀ name, event ≠ .alias name) : doc.following read position = read position := by
  unfold following
  rw [event_at stands]
  cases event with
  | «alias» name => exact absurd rfl (notAlias name)
  | _ => rfl

theorem reads_text (doc : Document) (text : List Char) (style : ScalarStyle) :
    Reads doc doc.readText (String.ofList text) [.scalar {} text style] := by
  intro position rest stands
  unfold readText
  rw [following_eq _ stands nofun, event_at stands]
  rfl

theorem reads_word (doc : Document) (n : UInt64) :
    Reads doc doc.readWord n (Piece.ofNat n.toNat).events := by
  intro position rest stands
  have fits : n.toNat < UInt64.size := n.toNat_lt
  unfold readWord
  rw [following_eq _ stands nofun, event_at stands]
  simp only [natOf?_toDigits, decide_true, Bool.true_or, if_true, if_pos fits,
    UInt64.ofNat_toNat]
  rfl

theorem Reads.optional {read : NodeReader α} {value : α} {text : List Char} {style : ScalarStyle}
    (reads : Reads doc read value [.scalar {} text style])
    (present : isAbsent? {} text style = some false) :
    Reads doc (doc.readOptional read) (some value) [.scalar {} text style] := by
  intro position rest stands
  unfold readOptional
  rw [following_eq _ stands nofun, event_at stands]
  simp only [present, Option.bind_eq_bind, Option.bind_some, Bool.false_eq_true, if_false,
    reads position rest stands]

theorem isAbsent?_toDigits (n : Nat) :
    isAbsent? {} (Nat.toDigits 10 n) .plain = some false := by
  have first : ∃ d digits, Nat.toDigits 10 n = d :: digits ∧ d.isDigit := by
    have digits := fun d => Text.isDigit_of_mem_toDigits (n := n) (c := d)
    rcases Json.toDigits_cases n with zero | ⟨d, rest, written, -⟩
    · exact ⟨'0', [], zero, by decide⟩
    · exact ⟨d, rest, written, digits d (by rw [written]; exact List.mem_cons_self ..)⟩
  obtain ⟨d, digits, written, digit⟩ := first
  have others : d ≠ 'n' ∧ d ≠ 'N' ∧ d ≠ '~' := by
    refine ⟨?_, ?_, ?_⟩ <;> rintro rfl <;> cases digit
  rw [written]
  simp [isAbsent?, isNullWord, others]

/-! ### Mappings -/

inductive Feeds (doc : Document) (read : α → String → Nat → Option (α × Nat)) :
    α → List Piece.Entry → α → Prop
  | nil (value : α) : Feeds doc read value [] value
  | cons {before between after : α} {e : Piece.Entry} {entries : List Piece.Entry}
      (reads : Reads doc (read before (String.ofList e.1)) between e.2.events)
      (feeds : Feeds doc read between entries after) : Feeds doc read before (e :: entries) after

variable {read : α → String → Nat → Option (α × Nat)} {before after : α}
  {entries : List Piece.Entry}

theorem Feeds.append {between : α} {entries' : List Piece.Entry}
    (first : Feeds doc read before entries between) (second : Feeds doc read between entries' after) :
    Feeds doc read before (entries ++ entries') after := by
  induction first with
  | nil => exact second
  | cons reads _ ih => exact .cons reads (ih second)

theorem Feeds.readEntries (feeds : Feeds doc read before entries after) {fuel : Nat}
    (enough : entries.length < fuel) :
    Reads doc (doc.readEntries fuel read before) after
      (entries.flatMap Piece.entryEvents ++ [.mappingEnd]) := by
  induction feeds generalizing fuel with
  | nil value =>
    intro position rest stands
    cases fuel with
    | zero => cases enough
    | succ fuel =>
      rw [Document.readEntries, event_at stands]
      rfl
  | @cons before between after e entries reads feeds ih =>
    intro position rest stands
    cases fuel with
    | zero => cases enough
    | succ fuel =>
      have parts : doc.eventsFrom position = [.scalar {} e.1 .doubleQuoted] ++ (e.2.events ++
          (entries.flatMap Piece.entryEvents ++ [.mappingEnd] ++ rest)) := by
        simp [stands, Piece.entryEvents]
      have width : position + ((e :: entries).flatMap Piece.entryEvents ++ [Event.mappingEnd]).length =
          position + 1 + e.2.events.length +
            (entries.flatMap Piece.entryEvents ++ [Event.mappingEnd]).length := by
        simp only [List.flatMap_cons, Piece.entryEvents, List.length_append, List.length_cons]
        omega
      have name := reads_text doc e.1 .doubleQuoted position _ parts
      have behind_name := eventsFrom_add _ parts
      have value := reads _ _ behind_name
      have others := ih (Nat.lt_of_succ_lt_succ enough) _ rest (eventsFrom_add _ behind_name)
      rw [Document.readEntries, event_at parts, width]
      simp only [Option.bind_eq_bind, name, Option.bind_some]
      exact (congrArg (Option.bind · _) value).trans others

theorem length_le_entryEvents (entries : List Piece.Entry) :
    entries.length ≤ (entries.flatMap Piece.entryEvents).length := by
  induction entries with
  | nil => exact Nat.le_refl 0
  | cons e entries ih =>
    rw [List.flatMap_cons, List.length_append, List.length_cons, Piece.entryEvents,
      List.length_cons]
    omega

theorem Feeds.reads (feeds : Feeds doc read before entries after) :
    Reads doc (doc.readMapping read before) after (Piece.ofEntries entries).events := by
  intro position rest stands
  have enough : entries.length < doc.events.size + 1 := by
    have held := congrArg List.length stands
    have few := length_le_entryEvents entries
    simp only [eventsFrom, Piece.ofEntries, List.length_drop, List.length_append,
      List.length_cons, Array.length_toList] at held
    omega
  have inner := feeds.readEntries enough _ _ (eventsFrom_add [.mappingStart {}] stands)
  have width : position + (Piece.ofEntries entries).events.length =
      position + 1 + (entries.flatMap Piece.entryEvents ++ [Event.mappingEnd]).length := by
    rw [Piece.ofEntries, List.length_cons]
    omega
  unfold readMapping
  rw [following_eq _ stands (fun _ same => by cases same), event_at stands, width]
  exact inner

end Document

/-! ### Values that are read as they are written -/

namespace Piece

/-- A value whose text gives its tokens, whose tokens give its events, and that has no anchors. -/
structure Stands (p : Piece) : Prop where
  allowed : ∀ ch ∈ p.text, isAllowed ch
  scans : p.Scans
  parses : p.Parses
  free : p.IsFree

theorem allowed_quoted {text : List Char} (plain : ∀ ch ∈ text, IsPlain ch) :
    ∀ ch ∈ Json.quoted text, isAllowed ch := by
  have escaped : ∀ c ∈ text, ∀ ch ∈ Json.escapeChar c, isAllowed ch := fun c mem =>
    List.all_eq_true.1 (Text.forall_ascii (q := fun c => (Json.escapeChar c).all isAllowed = true)
      (by decide) (Nat.lt_succ_of_le (plain c mem)))
  refine List.forall_mem_cons.2 ⟨by decide, List.forall_mem_append.2 ⟨fun ch mem => ?_, ?_⟩⟩
  · obtain ⟨c, mem_c, mem_ch⟩ := List.mem_flatMap.1 mem
    exact escaped c mem_c ch mem_ch
  · exact List.forall_mem_singleton.2 (by decide)

theorem stands_ofText {text : List Char} (plain : ∀ ch ∈ text, IsPlain ch) :
    (ofText text).Stands :=
  ⟨allowed_quoted plain, scans_ofText plain, parses_ofText text, isFree_ofText text⟩

theorem stands_ofNat (n : Nat) : (ofNat n).Stands := by
  refine ⟨fun ch mem => ?_, scans_ofNat n, parses_ofNat n, isFree_ofNat n⟩
  exact Text.forall_digit (q := fun ch => isAllowed ch) (by decide) (Text.isDigit_of_mem_toDigits mem)

variable {entries : List Entry}

theorem allowed_ofEntries (keys : ∀ e ∈ entries, IsKey e.1) (stands : ∀ e ∈ entries, e.2.Stands) :
    ∀ ch ∈ (ofEntries entries).text, isAllowed ch := by
  have entry : ∀ e ∈ entries, ∀ ch ∈ entryText e, isAllowed ch := fun e mem =>
    List.forall_mem_append.2 ⟨allowed_quoted (keys e mem).plain,
      List.forall_mem_cons.2 ⟨by decide, (stands e mem).allowed⟩⟩
  have all : ∀ ch ∈ joined ',' entryText entries, isAllowed ch := by
    cases entries with
    | nil => exact List.forall_mem_nil _
    | cons first others =>
      obtain ⟨entry_first, entry_others⟩ := List.forall_mem_cons.1 entry
      refine List.forall_mem_append.2 ⟨entry_first, fun ch mem => ?_⟩
      obtain ⟨e, mem_e, mem_ch⟩ := List.mem_flatMap.1 mem
      rcases List.mem_cons.1 mem_ch with rfl | inside
      · decide
      · exact entry_others e mem_e ch inside
  exact List.forall_mem_cons.2
    ⟨by decide, List.forall_mem_append.2 ⟨all, List.forall_mem_singleton.2 (by decide)⟩⟩

theorem stands_ofEntries (keys : ∀ e ∈ entries, IsKey e.1) (stands : ∀ e ∈ entries, e.2.Stands) :
    (ofEntries entries).Stands where
  allowed := allowed_ofEntries keys stands
  scans := scans_ofEntries keys fun e mem => (stands e mem).scans
  parses := parses_ofEntries fun e mem => (stands e mem).parses
  free := isFree_ofEntries fun e mem => (stands e mem).free

theorem document?_ofEntries (keys : ∀ e ∈ entries, IsKey e.1)
    (stands : ∀ e ∈ entries, e.2.Stands) :
    document? (ofEntries entries).text = some ⟨(ofEntries entries).events.toArray, {}⟩ :=
  document?_of_free
    (events?_ofEntries keys (fun e mem => (stands e mem).scans) (allowed_ofEntries keys stands)
      fun e mem => (stands e mem).parses)
    (isFree_ofEntries fun e mem => (stands e mem).free)

/-! ### Objects -/

def Writes (members : List (String × Json)) (entries : List Entry) : Prop :=
  List.Forall₂ (fun m e => m.1.toList = e.1 ∧ m.2.compactChars = e.2.text) members entries

theorem compactMembers_cons (member : String × Json) (members : List (String × Json)) :
    Json.compactMembers (member :: members) =
      (Json.quoted member.1.toList ++ ':' :: member.2.compactChars) ++
        members.flatMap fun m => ',' :: (Json.quoted m.1.toList ++ ':' :: m.2.compactChars) := by
  induction members generalizing member with
  | nil => simp [Json.compactMembers]
  | cons next members ih =>
    rw [Json.compactMembers, ih next]
    simp

theorem compactChars_object {members : List (String × Json)} (writes : Writes members entries) :
    (Json.object members).compactChars = (ofEntries entries).text := by
  have parts {m : String × Json} {e : Entry}
      (same : m.1.toList = e.1 ∧ m.2.compactChars = e.2.text) :
      Json.quoted m.1.toList ++ ':' :: m.2.compactChars = entryText e := by
    rw [same.1, same.2]
    rfl
  rw [Json.compactChars, ofEntries]
  cases writes with
  | nil => rfl
  | @cons m e members entries same others =>
    have rest : (members.flatMap fun m =>
        ',' :: (Json.quoted m.1.toList ++ ':' :: m.2.compactChars)) =
          entries.flatMap fun e => ',' :: entryText e := by
      induction others with
      | nil => rfl
      | cons same _ ih => rw [List.flatMap_cons, List.flatMap_cons, parts same, ih]
    rw [compactMembers_cons, parts same, rest, joined]

end Piece

end PetClient.Yaml
