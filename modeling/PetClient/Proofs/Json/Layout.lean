import PetClient.Proofs.Json.Composite
import PetClient.Proofs.Text.Search

/-!
Reading what was laid out over several lines, for strings, dictionaries and records: the blanks
between the parts are skipped, and the parts are read as in a compact text.
-/

namespace PetClient.Json

variable {α δ : Type}

/-- A reader takes the text of a value that is laid out from a depth on for that value, behind any
blanks. -/
def ReadsLaid (read : Reader α) (depth : Nat) (json : Json) (value : α) : Prop :=
  ∀ blanks rest : Bytes, Blank blanks →
    read (blanks ++ (Utf8.encode (json.prettyChars depth) ++ rest)) = .ok (value, rest)

/-! ### Blanks -/

theorem isBlank_newLine (depth : Nat) : Blank (Utf8.encode (newLine depth)) := by
  intro b mem
  obtain ⟨c, mem_line, mem⟩ := List.mem_flatMap.1 mem
  have either : c = '\n' ∨ c = ' ' :=
    (List.mem_cons.1 mem_line).imp_right List.eq_of_mem_replicate
  rcases either with rfl | rfl
  · rw [Utf8.encodeChar_of_ascii (by decide), List.mem_singleton] at mem
    rw [mem]
    decide
  · rw [Utf8.encodeChar_of_ascii (by decide), List.mem_singleton] at mem
    rw [mem]
    decide

theorem text_laid (depth : Nat) (s : String) : ReadsLaid readText depth (.string s) s := by
  intro blanks rest blank
  have written : Utf8.encode ((Json.string s).prettyChars depth) =
      Utf8.encode (quoted s.toList) := by
    simp only [prettyChars]
  rw [written]
  exact readText_written (writesString_quoted s) blank rest

/-! ### Members -/

def laidTail (depth : Nat) (member : String × Json) : Bytes :=
  Utf8.encode (member.1.toList.flatMap escapeChar) ++
    0x22 :: 0x3A :: 0x20 :: Utf8.encode (member.2.prettyChars depth)

def laidBytes (depth : Nat) (member : String × Json) : Bytes :=
  Utf8.encode (newLine depth) ++ 0x22 :: laidTail depth member

theorem encode_laidMember (depth : Nat) (member : String × Json) :
    Utf8.encode (newLine depth ++ quoted member.1.toList ++ [':', ' '] ++
      member.2.prettyChars depth) = laidBytes depth member := by
  rw [Utf8.encode_append, Utf8.encode_append, Utf8.encode_append, encode_quoted]
  unfold laidBytes laidTail
  simp only [List.append_assoc, List.cons_append, List.nil_append]
  rfl

theorem encode_prettyMembers (depth : Nat) (members : List (String × Json)) :
    Utf8.encode (prettyMembers depth members) = piecesFrom (laidBytes depth) true members := by
  apply eq_piecesFrom (fun members => Utf8.encode (prettyMembers depth members)) rfl
    (encode_laidMember depth)
  intro member next rest
  have split : prettyMembers depth (member :: next :: rest) =
      (newLine depth ++ quoted member.1.toList ++ [':', ' '] ++ member.2.prettyChars depth) ++
        ',' :: prettyMembers depth (next :: rest) := by
    simp [prettyMembers]
  rw [split, Utf8.encode_append, encode_laidMember, Utf8.encode_cons]
  rfl

theorem encode_object (depth : Nat) (members : List (String × Json)) :
    ∃ blanks : Bytes, Blank blanks ∧
      Utf8.encode ((object members).prettyChars depth) =
        0x7B :: (piecesFrom (laidBytes (depth + 1)) true members ++ (blanks ++ [0x7D])) := by
  cases members with
  | nil => exact ⟨[], nofun, by simp only [prettyChars]; rfl⟩
  | cons member others =>
    refine ⟨Utf8.encode (newLine depth), isBlank_newLine depth, ?_⟩
    rw [← encode_prettyMembers]
    simp only [prettyChars, Utf8.encode_cons, Utf8.encode_append, List.append_assoc]
    rfl

theorem nextKey_first {blanks : Bytes} (blank : Blank blanks) (rest : Bytes) :
    nextKey true (blanks ++ 0x22 :: rest) = .ok (some rest) := by
  unfold nextKey
  rw [skipBlanks_append blank rfl]
  rfl

theorem nextKey_comma {blanks before : Bytes} (blank : Blank blanks) (blank' : Blank before)
    (rest : Bytes) :
    nextKey false (blanks ++ 0x2C :: (before ++ 0x22 :: rest)) = .ok (some rest) := by
  unfold nextKey
  rw [skipBlanks_append blank rfl]
  split
  · contradiction
  · rename_i same
    exact absurd (List.cons.inj same).1 (by decide)
  · rename_i same
    cases same
    rw [if_neg Bool.false_ne_true, if_pos rfl, skipBlanks_append blank' rfl]
    rfl

theorem nextKey_laid (depth : Nat) (first : Bool) (member : String × Json)
    (members : List (String × Json)) (rest : Bytes) :
    nextKey first (piecesFrom (laidBytes depth) first (member :: members) ++ rest) =
      .ok (some (laidTail depth member ++
        (piecesFrom (laidBytes depth) false members ++ rest))) := by
  cases first with
  | true =>
    simp only [piecesFrom, laidBytes, List.append_assoc, List.cons_append]
    exact nextKey_first (isBlank_newLine depth) _
  | false =>
    simp only [piecesFrom, laidBytes, List.append_assoc, List.cons_append]
    exact nextKey_comma .nil (isBlank_newLine depth) _

theorem nextKey_close {blanks : Bytes} (blank : Blank blanks) (first : Bool)
    (rest : Bytes) : nextKey first (blanks ++ 0x7D :: rest) = .ok none := by
  unfold nextKey
  rw [skipBlanks_append blank rfl]
  rfl

theorem closeObject_blanks {blanks : Bytes} (blank : Blank blanks)
    (rest : Bytes) : closeObject (blanks ++ 0x7D :: rest) = .ok rest := by
  unfold closeObject
  rw [skipBlanks_append blank rfl]
  rfl

theorem readString_laidTail (depth : Nat) (member : String × Json) (rest : Bytes) :
    readString (laidTail depth member ++ rest) =
      .ok (member.1, 0x3A :: 0x20 :: (Utf8.encode (member.2.prettyChars depth) ++ rest)) := by
  unfold laidTail
  rw [List.append_assoc, List.cons_append, readString_escaped, String.ofList_toList]
  rfl

def laidForm (depth : Nat) : MemberForm :=
  ⟨laidBytes depth, laidTail depth, fun json => 0x20 :: Utf8.encode (json.prettyChars depth),
    nextKey_laid depth, readString_laidTail depth⟩

theorem piece_laidForm (depth : Nat) : (laidForm depth).piece = laidBytes depth :=
  rfl

theorem ReadsLaid.takes {read : Reader α} {depth : Nat} {json : Json} {value : α}
    (reads : ReadsLaid read depth json value) (closing : Bytes) :
    (laidForm depth).Takes closing read json value :=
  fun _ => reads [0x20] _ (List.forall_mem_singleton.2 (by decide))

theorem length_lt_laid (depth : Nat) (members : List (String × Json)) (blanks rest : Bytes) :
    members.length <
      (piecesFrom (laidBytes depth) true members ++ (blanks ++ 0x7D :: rest)).length :=
  length_lt_budget members (fun _ _ => by simp [laidBytes]) blanks 0x7D rest

/-! ### Dictionaries and records -/

theorem readDict_laid {read : Reader α} {write : α → Json} {depth : Nat}
    (reads : ∀ value, ReadsLaid read (depth + 1) (write value) value) (d : Dict α) :
    ReadsLaid (readDict read) depth (writeDict write d) d := by
  intro blanks rest blank
  obtain ⟨closing, blank_closing, laid⟩ :=
    encode_object depth (d.entries.map fun e => (e.1, write e.2))
  have enough := length_lt_laid (depth + 1) (d.entries.map fun e => (e.1, write e.2)) closing rest
  rw [List.length_map] at enough
  have tail := (laidForm (depth + 1)).readDictTail
    (fun first => nextKey_close blank_closing first rest) d d.entries ∅ rfl
    (fun e _ => (reads e.2).takes _) true _ enough
  rw [piece_laidForm] at tail
  change readDict read (blanks ++
    (Utf8.encode ((object (d.entries.map fun e => (e.1, write e.2))).prettyChars depth) ++ rest)) = _
  rw [laid, List.cons_append]
  unfold readDict
  rw [skipBlanks_append blank rfl]
  simp only [List.append_assoc, List.singleton_append, tail, bind, Except.bind,
    closeObject_blanks blank_closing]
  rfl

theorem ReadsLaid.into {read : Reader α} {depth : Nat} {json : Json} {value : α}
    (reads : ReadsLaid read depth json value) (fill : Option α → δ) :
    ReadsLaid (readInto read fill) depth json (fill (some value)) := by
  intro blanks rest blank
  unfold readInto
  rw [reads blanks rest blank]
  rfl

theorem Record.reads_laid {record : Record δ α} {depth : Nat} {written : List (String × Json)}
    {last : δ}
    (fills : FillsBy (fun read => ReadsLaid read (depth + 1)) record.members record.blank written
      last)
    {value : α} (built : record.build last = .ok value) :
    ReadsLaid record.shape.read depth (.object written) value := by
  intro blanks rest blank
  obtain ⟨closing, blank_closing, laid⟩ := encode_object depth written
  have enough := length_lt_laid (depth + 1) written closing rest
  have tail := (laidForm (depth + 1)).readObjectTail
    (fun first => nextKey_close blank_closing first rest) record
    (fills.imp fun reads => reads.takes _) true _ enough
  rw [piece_laidForm] at tail
  change record.read _ = _
  rw [laid, List.cons_append]
  unfold Record.read
  rw [skipBlanks_append blank rfl]
  simp only [List.append_assoc, List.singleton_append, tail, bind, Except.bind, built,
    closeObject_blanks blank_closing]
  rfl

theorem Shape.decode_laid {shape : Shape α} {json : Json} {value : α}
    (reads : ReadsLaid shape.read 0 json value) :
    shape.decode (Utf8.bytesOf json.pretty) = .ok value := by
  have bytes : Utf8.bytesOf json.pretty = Utf8.encode (json.prettyChars 0) :=
    congrArg Utf8.encode String.toList_ofList
  have whole := reads [] [] nofun
  rw [List.append_nil, List.nil_append] at whole
  unfold decode
  rw [bytes, whole]
  rfl

/-! ### Line ends -/

theorem eq_intercalate {ι : Type} {piece : ι → List Char} (text : List ι → List Char)
    (none : text [] = []) (one : ∀ i, text [i] = piece i)
    (more : ∀ i j rest, text (i :: j :: rest) = piece i ++ ',' :: text (j :: rest))
    (items : List ι) : text items = List.intercalate [','] (items.map piece) := by
  cases items with
  | nil => exact none
  | cons i rest =>
    induction rest generalizing i with
    | nil => exact (one i).trans (List.intercalate_singleton).symm
    | cons j rest ih =>
      rw [more, ih, List.map_cons, List.map_cons, List.map_cons, List.intercalate_cons_cons,
        List.append_assoc]
      rfl

theorem visible_of_mem_escapeChar {c d : Char} (mem : d ∈ escapeChar c) : 0x20 ≤ d.toNat := by
  -- The controls are checked one by one; any other character is written as it is or in a pair.
  by_cases control : c.toNat < 0x20
  · exact Text.forall_of_all (Text.forall_ascii (q := fun c =>
      ((escapeChar c).all fun d => decide (0x20 ≤ d.toNat)) = true) (by decide) control) d mem
  · have other (e : Char) (low : e.toNat < 0x20) : c ≠ e := by
      rintro rfl
      exact control low
    unfold escapeChar at mem
    rw [if_neg (other '\x08' (by decide)), if_neg (other '\x0c' (by decide)),
      if_neg (other '\n' (by decide)), if_neg (other '\r' (by decide)),
      if_neg (other '\t' (by decide)), if_neg control] at mem
    split at mem
    · exact Text.forall_of_all (q := fun d => 0x20 ≤ d.toNat) (by decide) d mem
    · split at mem
      · exact Text.forall_of_all (q := fun d => 0x20 ≤ d.toNat) (by decide) d mem
      · rw [List.mem_singleton.1 mem]
        exact Nat.le_of_not_lt control

theorem not_mem_quoted (text : List Char) : '\n' ∉ quoted text := by
  intro mem
  unfold quoted at mem
  rcases List.mem_cons.1 mem with quote | mem
  · exact absurd quote (by decide)
  · rcases List.mem_append.1 mem with inside | quote
    · obtain ⟨c, -, mem⟩ := List.mem_flatMap.1 inside
      exact absurd (visible_of_mem_escapeChar mem) (by decide)
    · exact absurd (List.mem_singleton.1 quote) (by decide)

theorem compactMembers_eq (members : List (String × Json)) :
    compactMembers members = List.intercalate [',']
      (members.map fun member => quoted member.1.toList ++ ':' :: member.2.compactChars) := by
  refine eq_intercalate compactMembers rfl (fun _ => rfl) (fun member next rest => ?_) members
  simp [compactMembers]

theorem prettyMembers_eq (depth : Nat) (members : List (String × Json)) :
    prettyMembers depth members = List.intercalate [',']
      (members.map fun member => newLine depth ++ quoted member.1.toList ++ [':', ' '] ++
        member.2.prettyChars depth) := by
  refine eq_intercalate (prettyMembers depth) rfl (fun _ => rfl) (fun member next rest => ?_)
    members
  simp [prettyMembers]

theorem not_mem_compactChars {members : List (String × Json)}
    (values : ∀ member ∈ members, '\n' ∉ member.2.compactChars) :
    '\n' ∉ (object members).compactChars := by
  intro mem
  unfold compactChars at mem
  rcases List.mem_cons.1 mem with brace | mem
  · exact absurd brace (by decide)
  · rcases List.mem_append.1 mem with inside | brace
    · rw [compactMembers_eq] at inside
      rcases Text.mem_intercalate inside with comma | ⟨part, mem_parts, mem_part⟩
      · exact absurd comma (by decide)
      · obtain ⟨member, mem_members, rfl⟩ := List.mem_map.1 mem_parts
        rcases List.mem_append.1 mem_part with name | mem_value
        · exact not_mem_quoted _ name
        · rcases List.mem_cons.1 mem_value with colon | value
          · exact absurd colon (by decide)
          · exact values member mem_members value
    · exact absurd (List.mem_singleton.1 brace) (by decide)

theorem filled_newLine (depth : Nat) {c : Char} {text : List Char} (other : c ≠ '\n')
    (filled : Text.LinesFilled (c :: text)) : Text.LinesFilled (newLine depth ++ c :: text) := by
  unfold newLine
  cases size : 2 * depth with
  | zero => exact filled.lineEnd other
  | succ n =>
    have blanks : Text.LinesFilled (' ' :: List.replicate n ' ') := by
      refine .of_not_mem fun mem => ?_
      exact absurd (List.eq_of_mem_replicate (n := n + 1) mem) (by decide)
    exact (blanks.append filled).lineEnd (by decide)

theorem filled_prettyChars {depth : Nat} {members : List (String × Json)}
    (values : ∀ member ∈ members, Text.LinesFilled (member.2.prettyChars (depth + 1))) :
    Text.LinesFilled ((object members).prettyChars depth) := by
  have brace : Text.LinesFilled ['{'] := .of_not_mem (by decide)
  cases members with
  | nil =>
    unfold prettyChars
    exact .of_not_mem (by decide)
  | cons member others =>
    have inside : Text.LinesFilled (prettyMembers (depth + 1) (member :: others)) := by
      rw [prettyMembers_eq]
      refine .intercalate fun part mem => ?_
      obtain ⟨one, mem_members, rfl⟩ := List.mem_map.1 mem
      have name : Text.LinesFilled (quoted one.1.toList ++ [':', ' ']) :=
        (Text.LinesFilled.of_not_mem (not_mem_quoted _)).append (.of_not_mem (by decide))
      rw [List.append_assoc, List.append_assoc, ← List.append_assoc (quoted one.1.toList)]
      exact filled_newLine _ (by decide) (name.append (values one mem_members))
    have closing : Text.LinesFilled (newLine depth ++ ['}']) :=
      filled_newLine depth (by decide) (.of_not_mem (by decide))
    have whole := (brace.append inside).append closing
    unfold prettyChars
    simpa using whole

end PetClient.Json
