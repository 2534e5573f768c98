import PetClient.Config.Load
import PetClient.Proofs.Files.Tree
import PetClient.Proofs.Text.Utf8
import PetClient.Proofs.Wire
import PetClient.Proofs.Yaml.Node

/-!
Configurations that are saved as JSON.  Loading such a file gives the configuration back whether the
name of the file says that it is JSON or YAML.
-/

namespace PetClient.Config

open Files (Path Place Tree)
open Yaml (Document Piece)
open Yaml.Document (Feeds Reads)

variable {α : Type} {config : Config} {doc : Document}

/-! ### What is written of a configuration -/

def IsAscii (text : String) : Prop :=
  ∀ ch ∈ text.toList, Yaml.IsPlain ch

theorem isAscii_of_all {text : String}
    (all : (text.toList.all fun ch => decide (ch.toNat ≤ 0x7E)) = true) : IsAscii text :=
  Text.forall_of_all (q := fun ch => ch.toNat ≤ 0x7E) all

/-- A configuration whose texts are ASCII, and whose names of header fields are not too long to be
keys. -/
structure IsPlain (config : Config) : Prop where
  baseUrl : IsAscii config.baseUrl
  headers : ∀ e ∈ config.headers.entries, IsAscii e.1 ∧ IsAscii e.2
  token : ∀ token ∈ config.token, IsAscii token
  short : ∀ e ∈ config.headers.entries,
    (Utf8.encode (Json.quoted e.1.toList)).length ≤ Yaml.Scanner.maxKeyLength

def headerEntries (headers : List (String × String)) : List Piece.Entry :=
  headers.map fun e => (e.1.toList, .ofText e.2.toList)

def entries (config : Config) : List Piece.Entry :=
  ("base_url".toList, .ofText config.baseUrl.toList) ::
    ("headers".toList, .ofEntries (headerEntries config.headers.entries)) ::
    ((config.token.map fun token => ("token".toList, .ofText token.toList)).toList ++
      (config.timeoutSecs.map fun secs => ("timeout_secs".toList, .ofNat secs.toNat)).toList)

theorem writes_headers (headers : List (String × String)) :
    Piece.Writes (headers.map fun e => (e.1, Json.string e.2)) (headerEntries headers) := by
  unfold Piece.Writes headerEntries
  rw [List.forall₂_map_left_iff, List.forall₂_map_right_iff]
  exact List.forall₂_same.2 fun e _ => ⟨rfl, by rw [Json.compactChars]; rfl⟩

theorem compactChars_word (n : UInt64) :
    (Json.word64.write n).compactChars = (Piece.ofNat n.toNat).text := by
  change Json.numberChars (.integer n.toNat) = Nat.toDigits 10 n.toNat
  exact Json.intChars_natCast n.toNat

theorem writes_entries (config : Config) : Piece.Writes (record.write config) config.entries := by
  have headers := Piece.compactChars_object (writes_headers config.headers.entries)
  have text (s : String) : (Json.string s).compactChars = (Piece.ofText s.toList).text := by
    rw [Json.compactChars]
    rfl
  refine .cons ⟨rfl, text config.baseUrl⟩ (.cons ⟨rfl, headers⟩ (List.rel_append ?_ ?_))
  · cases config.token with
    | none => exact .nil
    | some token => exact .cons ⟨rfl, text token⟩ .nil
  · cases config.timeoutSecs with
    | none => exact .nil
    | some secs => exact .cons ⟨rfl, compactChars_word secs⟩ .nil

theorem toList_encode (config : Config) :
    (shape.encode config).toList = (Piece.ofEntries config.entries).text := by
  rw [← Piece.compactChars_object (writes_entries config)]
  exact String.toList_ofList

theorem isKey_header (plain : config.IsPlain) {e : String × String}
    (mem : e ∈ config.headers.entries) : Piece.IsKey e.1.toList where
  plain := (plain.headers e mem).1
  short := Nat.le_trans (Utf8.length_le_length_encode _) (plain.short e mem)

theorem isKey_word {name : String}
    (all : (name.toList.all fun ch => decide (ch.toNat ≤ 0x7E)) = true)
    (short : (Json.quoted name.toList).length ≤ Yaml.Scanner.maxKeyLength) :
    Piece.IsKey name.toList :=
  ⟨isAscii_of_all all, short⟩

theorem stands_headers (plain : config.IsPlain) :
    (Piece.ofEntries (headerEntries config.headers.entries)).Stands := by
  refine Piece.stands_ofEntries (List.forall_mem_map.2 fun e mem => isKey_header plain mem)
    (List.forall_mem_map.2 fun e mem => ?_)
  exact Piece.stands_ofText (plain.headers e mem).2

theorem stands_entries (plain : config.IsPlain) :
    ∀ e ∈ config.entries, Piece.IsKey e.1 ∧ e.2.Stands := by
  refine List.forall_mem_cons.2 ⟨⟨isKey_word (by decide) (by decide), ?_⟩,
    List.forall_mem_cons.2 ⟨⟨isKey_word (by decide) (by decide), stands_headers plain⟩,
      List.forall_mem_append.2 ⟨?_, ?_⟩⟩⟩
  · exact Piece.stands_ofText plain.baseUrl
  · cases set : config.token with
    | none => exact List.forall_mem_nil _
    | some token =>
      exact List.forall_mem_singleton.2 ⟨isKey_word (by decide) (by decide),
        Piece.stands_ofText (plain.token token set)⟩
  · cases config.timeoutSecs with
    | none => exact List.forall_mem_nil _
    | some secs =>
      exact List.forall_mem_singleton.2 ⟨isKey_word (by decide) (by decide),
        Piece.stands_ofNat secs.toNat⟩

/-! ### What is read of it -/

theorem reads_text (doc : Document) (text : String) :
    Reads doc doc.readText text (Piece.ofText text.toList).events := by
  have reads := Document.reads_text doc text.toList .doubleQuoted
  rwa [String.ofList_toList] at reads

/-- Header fields in their order are put behind those before. -/
theorem feeds_headers (whole : Dict String) (headers : List (String × String))
    (before : Dict String) (parts : before.entries ++ headers = whole.entries) :
    Feeds doc (fun headers name position => do
      let (value, next) ← doc.readText position
      some (headers.insert name value, next)) before (headerEntries headers) whole := by
  induction headers generalizing before with
  | nil =>
    have same : before = whole := Dict.eq_of_entries (by simpa using parts)
    rw [same]
    exact .nil whole
  | cons e headers ih =>
    have inserted : (before.insert e.1 e.2).entries ++ headers = whole.entries := by
      rw [← parts]
      exact (congrArg (· ++ headers) (Json.insertEntry_append (Json.lt_of_parts parts))).trans
        (by simp)
    refine .cons (fun position rest stands => ?_) (ih (before.insert e.1 e.2) inserted)
    simp only [reads_text doc e.2 position rest stands, Option.bind_eq_bind, Option.bind_some,
      String.ofList_toList]

theorem reads_headers (doc : Document) (headers : Dict String) :
    Reads doc (readHeaders doc) headers (Piece.ofEntries (headerEntries headers.entries)).events :=
  (feeds_headers headers headers.entries ∅ rfl).reads

theorem reads_fill {read : Yaml.NodeReader α} {value : α} {events : List Yaml.Event}
    (reads : Reads doc read value events) (set : Option α → Draft) :
    Reads doc (fill read none set) (set (some value)) events := by
  intro position rest stands
  unfold fill
  rw [reads position rest stands]
  rfl

theorem feeds_entries (doc : Document) (config : Config) :
    Feeds doc (readMember doc) {} config.entries config.draftOf := by
  have baseUrl := reads_fill (reads_text doc config.baseUrl) fun v => { baseUrl := v }
  have headers := reads_fill (reads_headers doc config.headers) fun v =>
    { baseUrl := config.baseUrl, headers := v }
  have token : Feeds doc (readMember doc) { baseUrl := config.baseUrl, headers := config.headers }
      (config.token.map fun token => ("token".toList, Piece.ofText token.toList)).toList
      { config.draftOf with timeoutSecs := none } := by
    unfold draftOf
    cases config.token with
    | none => exact .nil _
    | some token =>
      have present := reads_fill ((reads_text doc token).optional rfl) fun v =>
        { baseUrl := config.baseUrl, headers := config.headers, token := v }
      exact .cons present (.nil _)
  have timeoutSecs : Feeds doc (readMember doc) { config.draftOf with timeoutSecs := none }
      (config.timeoutSecs.map fun secs => ("timeout_secs".toList, Piece.ofNat secs.toNat)).toList
      config.draftOf := by
    unfold draftOf
    cases config.timeoutSecs with
    | none => exact .nil _
    | some secs =>
      have present := reads_fill ((Document.reads_word doc secs).optional
        (Document.isAbsent?_toDigits secs.toNat)) fun v =>
        { config.draftOf with timeoutSecs := v }
      exact .cons present (.nil _)
  exact .cons baseUrl (.cons headers (token.append timeoutSecs))

theorem ofYaml?_encode (plain : config.IsPlain) :
    ofYaml? (shape.encode config).toList = some config := by
  have stands := stands_entries plain
  have made := Yaml.Piece.document?_ofEntries (fun e mem => (stands e mem).1)
    (fun e mem => (stands e mem).2)
  rw [← toList_encode] at made
  unfold ofYaml?
  rw [made]
  have whole := (feeds_entries ⟨(Piece.ofEntries config.entries).events.toArray, {}⟩
    config).reads 0 [] (List.append_nil _).symm
  simp only [Option.bind_eq_bind, Option.bind_some, whole]
  have built : config.draftOf.build = .ok config := by
    simp only [Draft.build, draftOf, Json.required, bind, Except.bind, getD_map_some]
    rfl
  rw [built]
  rfl

/-! ### Files -/

theorem kept_by_set (tree : Tree) {place other : Place} (apart : other ≠ place)
    (entry : Files.Entry) : Tree.entry? (tree.set place entry) other = tree.entry? other := by
  have kept (entries : List (Place × Files.Entry)) :
      (entries.filter fun e => e.1 != place).lookup other = entries.lookup other := by
    induction entries with
    | nil => rfl
    | cons e entries ih =>
      by_cases here : e.1 = place
      · have passed : (other == e.1) = false := beq_eq_false_iff_ne.2 (here ▸ apart)
        rw [List.filter_cons_of_neg (by simp [here]), List.lookup_cons, passed, ih]
      · rw [List.filter_cons_of_pos (by simp [here]), List.lookup_cons, List.lookup_cons, ih]
  have passed : (other == place) = false := beq_eq_false_iff_ne.2 apart
  unfold Tree.entry? Tree.set
  rw [List.lookup_cons, passed]
  exact congrArg (fun held => if other.isEmpty then some .directory else held) (kept tree.entries)

/-- A text that is written to a file is what is read from it. -/
theorem readText_set {tree : Tree} {path : Path} {place : Place}
    (located : tree.locate path = .ok place) (file : tree.entry? place ≠ some .directory)
    (text : String) :
    (tree.set place (.file (Utf8.bytesOf text))).readText path = .ok text.toList := by
  have inside : place.isEmpty = false := by
    cases place with
    | nil => exact absurd rfl file
    | cons part place => rfl
  have held : Tree.entry? (tree.set place (.file (Utf8.bytesOf text))) place =
      some (.file (Utf8.bytesOf text)) := by
    unfold Tree.entry? Tree.set
    simp [inside]
  have differ : Tree.FilesChanged (· = place) tree (tree.set place (.file (Utf8.bytesOf text))) := by
    refine ⟨rfl, fun other apart => kept_by_set tree apart _, ?_⟩
    rintro _ rfl
    exact ⟨file, by rw [held]; nofun⟩
  have decoded : Utf8.decode? (Utf8.bytesOf text) = some text.toList :=
    Utf8.decode?_eq_some_iff.2 rfl
  have located' := differ.locate_iff.2 located
  unfold Tree.readText Tree.read Tree.find
  rw [located']
  simp only [bind, Except.bind, held, pure, Except.pure, decoded]

/-- A configuration that is written to a file as JSON is what the file is loaded as, whatever the
name of the file. -/
theorem loads_what_is_saved (config : Config) (plain : config.IsPlain) {tree : Tree} {path : Path}
    {place : Place} (located : tree.locate path = .ok place)
    (file : tree.entry? place ≠ some .directory) (wording : YamlWording) :
    load (tree.set place (.file (Utf8.bytesOf (shape.encode config)))) path wording =
      .ok config := by
  have text : ofText wording (isYaml path) (shape.encode config).toList = .ok config := by
    unfold ofText
    cases isYaml path with
    | true => simp only [if_true, ofYaml?_encode plain]
    | false =>
      have decoded : shape.decode (Utf8.encode (shape.encode config).toList) = .ok config :=
        shape_lawful.decode_encode config
      rw [if_neg Bool.false_ne_true, decoded]
      rfl
  unfold load
  rw [readText_set located file]
  change Except.mapError _ (ofText wording (isYaml path) (shape.encode config).toList) = _
  rw [text]
  rfl

/-- Colons, number signs, blanks and control characters do not matter, and neither does the name of
the file. -/
theorem loads_what_is_saved_spelled :
    let config : Config := {
      baseUrl := " http://[::1]: #\t"
      headers := Dict.ofList [("a: b", "\x00#"), ("c", " ")]
      token := some ""
      timeoutSecs := some 30 }
    ∀ name ∈ ["c", "c.json", "c.yaml", "c.yml"],
      load (Tree.set {} [name.toList] (.file (Utf8.bytesOf (shape.encode config)))) ⟨name⟩ .mark =
        .ok config := by
  intro config name mem
  have headers : config.headers.entries = [("a: b", "\x00#"), ("c", " ")] := by cbv
  have plain : config.IsPlain := by
    refine ⟨isAscii_of_all (by decide), ?_, ?_, ?_⟩
    · rw [headers]
      exact List.forall_mem_cons.2 ⟨⟨isAscii_of_all (by decide), isAscii_of_all (by decide)⟩,
        List.forall_mem_singleton.2 ⟨isAscii_of_all (by decide), isAscii_of_all (by decide)⟩⟩
    · exact fun token set => Option.some.inj set ▸ isAscii_of_all (by decide)
    · rw [headers]
      exact List.forall_mem_cons.2 ⟨by decide, List.forall_mem_singleton.2 (by decide)⟩
  have located : Tree.locate {} ⟨name⟩ = .ok [name.toList] := by
    clear headers plain config
    simp only [List.mem_cons, List.not_mem_nil, or_false] at mem
    rcases mem with rfl | rfl | rfl | rfl <;> rfl
  have free : Tree.entry? {} [name.toList] ≠ some .directory := fun held => by
    cases held
  exact loads_what_is_saved config plain located free .mark

end PetClient.Config
