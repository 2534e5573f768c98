import PetClient.Proofs.Destination
import PetClient.Proofs.Target
import PetClient.Proofs.Text.Number
import PetClient.Proofs.Url.Bare

/-!
Addresses of the web that are read again: the text of an address up to its fragment is parsed as the
same scheme, authority, path and query.
-/

namespace PetClient.Url

/-! ### Encoded text -/

theorem percentEncode_percentEncode {encoded : Char → Bool} (percent : encoded '%' = false)
    (digits : ∀ c ∈ hexSigns, encoded c = false) (text : List Char) :
    percentEncode encoded (percentEncode encoded text) = percentEncode encoded text := by
  have ascii : ∀ c ∈ hexSigns, c.toNat < 0x80 := Text.forall_of_all (by decide)
  refine percentEncode_of_plain fun c mem => ?_
  rcases mem_percentEncode mem with plain | rfl | digit
  · exact plain
  · exact ⟨by decide, percent⟩
  · exact ⟨ascii c digit, digits c digit⟩

/-! ### Paths -/

theorem ordinary_of_mem_addSegment {before : List (List Char)} {segment part : List Char}
    {isLast : Bool} (kept : ∀ part ∈ before, points? part ≠ some 1 ∧ points? part ≠ some 2)
    (mem : part ∈ addSegment before segment isLast) :
    points? part ≠ some 1 ∧ points? part ≠ some 2 := by
  have empty : points? [] ≠ some 1 ∧ points? [] ≠ some 2 := ⟨nofun, nofun⟩
  have place {segments : List (List Char)}
      (kept : ∀ part ∈ segments, points? part ≠ some 1 ∧ points? part ≠ some 2)
      (mem : part ∈ if isLast then [] :: segments else segments) :
      points? part ≠ some 1 ∧ points? part ≠ some 2 := by
    split at mem
    · rcases List.mem_cons.1 mem with rfl | later
      · exact empty
      · exact kept part later
    · exact kept part mem
  unfold addSegment at mem
  simp only at mem
  split at mem
  · exact place kept mem
  · exact place (fun part mem_up => kept part (oneUp_subset _ mem_up)) mem
  · rename_i not_here not_up
    rcases List.mem_cons.1 mem with rfl | later
    · exact ⟨not_here, not_up⟩
    · exact kept part later

theorem ordinary_of_mem_resolveFrom {before segments : List (List Char)} {part : List Char}
    (kept : ∀ part ∈ before, points? part ≠ some 1 ∧ points? part ≠ some 2)
    (mem : part ∈ resolveFrom before segments) :
    points? part ≠ some 1 ∧ points? part ≠ some 2 := by
  fun_induction resolveFrom before segments with
  | case1 before => exact kept part mem
  | case2 before segment => exact ordinary_of_mem_addSegment kept mem
  | case3 before segment next rest ih =>
    exact ih (fun part mem => ordinary_of_mem_addSegment kept mem) mem

section Paths

variable {isSeparator : Char → Bool}

theorem settled_of_mem_resolve (percent : isSeparator '%' = false)
    (digits : ∀ c ∈ hexSigns, isSeparator c = false) (text part : List Char)
    (mem : part ∈ resolve ((segments isSeparator text).map (percentEncode encodedInPath))) :
    IsSettled part ∧ ∀ c ∈ part, isSeparator c = false := by
  have plain : encodedInPath '%' = false ∧ ∀ c ∈ hexSigns, encodedInPath c = false := by
    simp only [encodedInPath_eq]
    exact ⟨by decide, Text.forall_of_all (by decide)⟩
  have ordinary := ordinary_of_mem_resolveFrom (List.forall_mem_nil _) (List.mem_reverse.1 mem)
  rcases mem_resolve mem with written | rfl
  · obtain ⟨segment, mem_segments, rfl⟩ := List.mem_map.1 written
    refine ⟨⟨percentEncode_percentEncode plain.1 plain.2 segment, ordinary⟩, fun c inside => ?_⟩
    rcases mem_of_mem_percentEncode inside with before | rfl | digit
    · exact not_isSeparator_of_mem_segments mem_segments before
    · exact percent
    · exact digits c digit
  · exact ⟨⟨rfl, ordinary⟩, List.forall_mem_nil _⟩

/-- A path that is read again stays as it is. -/
theorem pathOf_pathOf (slash : isSeparator '/' = true) (percent : isSeparator '%' = false)
    (digits : ∀ c ∈ hexSigns, isSeparator c = false) (text : List Char) :
    pathOf isSeparator (dropSlash isSeparator (pathOf isSeparator text)) =
      pathOf isSeparator text := by
  have all := settled_of_mem_resolve percent digits text
  have nonempty := pathOf_ne_nil isSeparator text
  unfold pathOf at nonempty
  have same : pathOf isSeparator text =
      joinSegments (resolve ((segments isSeparator text).map (percentEncode encodedInPath))) := rfl
  rw [same]
  cases parts : resolve ((segments isSeparator text).map (percentEncode encodedInPath)) with
  | nil =>
    rw [parts] at nonempty
    exact absurd rfl nonempty
  | cons first rest =>
    rw [parts] at all
    have dropped : dropSlash isSeparator (joinSegments (first :: rest)) =
        first ++ joinSegments rest := if_pos slash
    rw [dropped]
    exact pathOf_join slash (fun part mem => (all part mem).2) fun part mem => (all part mem).1

end Paths

theorem pathAfterAuthority_pathAfterAuthority (text : List Char) :
    Kind.web.pathAfterAuthority (Kind.web.pathAfterAuthority text) =
      Kind.web.pathAfterAuthority text := by
  simp only [pathAfterAuthority_eq]
  exact pathOf_pathOf (by decide) (by decide) (Text.forall_of_all (by decide)) _

/-! ### Authorities -/

theorem splitScheme?_of_web {scheme : String} (web : scheme = "http" ∨ scheme = "https")
    (rest : List Char) : splitScheme? (scheme.toList ++ ':' :: rest) = some (scheme, rest) := by
  have letters : ∀ c ∈ ['h', 't', 't', 'p', 's'], isSchemeChar c = true :=
    Text.forall_of_all (by decide)
  rw [splitScheme?_eq_some]
  rcases web with rfl | rfl
  · refine ⟨'h', ['t', 't', 'p'], by decide, fun c mem => letters c ?_, by simp, by cbv⟩
    exact List.mem_append_left ['s'] mem
  · exact ⟨'h', ['t', 't', 'p', 's'], by decide, letters, by simp, by cbv⟩

theorem portOf_ne_default {scheme : String} {text rest : List Char} {port : Nat}
    (read : portOf scheme text = .ok (some port, rest)) : defaultPort? scheme ≠ some port := by
  unfold portOf at read
  split at read
  · simp only at read
    split at read
    · cases read
    · split at read
      · cases read
      · rename_i other
        cases read
        rw [Bool.or_eq_true, not_or, decide_eq_true_iff] at other
        exact other.2
  · cases read

theorem portOf_portChars (scheme : String) {a : Authority}
    (fits : ∀ port, a.port = some port → port ≤ 65535)
    (other : ∀ port, a.port = some port → defaultPort? scheme ≠ some port) :
    portOf scheme a.portChars = .ok (a.port, []) := by
  unfold Authority.portChars
  cases known : a.port with
  | none => rfl
  | some port =>
    have digits : ∀ c ∈ Nat.toDigits 10 port, c.isDigit = true :=
      fun _ mem => Text.isDigit_of_mem_toDigits mem
    have front : (Nat.toDigits 10 port).takeWhile Char.isDigit = Nat.toDigits 10 port :=
      List.takeWhile_eq_self_iff.2 digits
    have behind : (Nat.toDigits 10 port).dropWhile Char.isDigit = [] :=
      List.dropWhile_eq_nil_iff.2 digits
    have value : natOfDigits (Nat.toDigits 10 port) = port := Text.foldl_toDigits port
    have small : ¬65535 < port := Nat.not_lt.2 (fits port known)
    unfold portOf
    simp [front, behind, value, small, other port known]

section Span

variable {port : List Char} (colon : ∀ c ∈ port.head?, c = ':')

include colon

theorem spanHost_port : spanHost false port = ([], port) := by
  cases port with
  | nil => rfl
  | cons c rest =>
    cases colon c rfl
    rfl

theorem spanHost_of_plain {text : List Char} (plain : ∀ c ∈ text, c ≠ ':' ∧ c ≠ '[') :
    spanHost false (text ++ port) = (text, port) := by
  induction text with
  | nil => exact spanHost_port colon
  | cons c rest ih =>
    obtain ⟨here, later⟩ := List.forall_mem_cons.1 plain
    rw [List.cons_append, spanHost]
    simp [here, ih later]

theorem spanHost_in_brackets {inner : List Char} (closed : ∀ c ∈ inner, c ≠ ']') :
    spanHost true (inner ++ ']' :: port) = (inner ++ [']'], port) := by
  induction inner with
  | nil =>
    rw [List.nil_append, spanHost]
    simp [spanHost_port colon]
  | cons c rest ih =>
    obtain ⟨here, later⟩ := List.forall_mem_cons.1 closed
    have inside : (c != ']') = true := bne_iff_ne.2 here
    rw [List.cons_append, spanHost]
    simp [inside, ih later]

theorem spanHost_chars {host : Host} (proper : host.Proper) :
    spanHost false (host.chars ++ port) = (host.chars, port) := by
  rcases proper.chars_cases with ⟨inner, written, signs⟩ | ⟨-, allowed⟩
  · have closed : ∀ c ∈ inner, c ≠ ']' := by
      rintro c mem rfl
      exact (signs _ mem).elim (by decide) (by decide)
    have inside := spanHost_in_brackets colon closed
    rw [written, List.cons_append, List.append_assoc, List.singleton_append, spanHost]
    simp [inside]
  · refine spanHost_of_plain colon fun c mem => ⟨?_, ?_⟩
    · rintro rfl
      exact not_mem_of_isForbidden allowed (by decide) mem
    · rintro rfl
      exact not_mem_of_isForbidden allowed (by decide) mem

end Span

theorem not_endsAuthority_of_mem_host {host : Host} (proper : host.Proper) {c : Char}
    (mem : c ∈ host.chars) : Kind.web.endsAuthority c = false := by
  have backslash : '\\' ∉ host.chars := by
    intro mem
    rcases proper.chars_cases with ⟨inner, written, signs⟩ | ⟨-, allowed⟩
    · simp only [written, List.mem_cons, List.mem_append, List.not_mem_nil, or_false] at mem
      rcases mem with opens | inside | closes
      · exact absurd opens (by decide)
      · exact (signs _ inside).elim (by decide) (by decide)
      · exact absurd closes (by decide)
    · have forbidden : Domain.isForbidden '\\' = true := by
        rw [Domain.isForbidden_eq]
        decide
      rw [allowed _ mem] at forbidden
      cases forbidden
  rw [← Bool.not_eq_true]
  intro ends
  unfold Kind.endsAuthority Kind.isSeparator at ends
  simp only [Bool.or_eq_true, Bool.and_eq_true, decide_eq_true_iff] at ends
  rcases ends with (rfl | rfl) | rfl | ⟨-, rfl⟩
  · exact proper.not_mem_chars (by decide) mem
  · exact proper.not_mem_chars (by decide) mem
  · exact proper.not_mem_chars (by decide) mem
  · exact backslash mem

theorem not_endsAuthority_of_mem_port {a : Authority} {c : Char} (mem : c ∈ a.portChars) :
    Kind.web.endsAuthority c = false := by
  rcases Authority.mem_portChars mem with rfl | digit
  · decide
  · exact Text.forall_digit (q := fun c => Kind.web.endsAuthority c = false) (by decide) digit

/-- An authority that is written without credentials and is read as it is. -/
structure Settled (scheme : String) (a : Authority) : Prop where
  bare : a.username = "" ∧ a.password = ""
  host : ∃ host, a.host = some host ∧ host.Proper ∧ knownHost host.chars = .ok host
  port : ∀ port, a.port = some port → port ≤ 65535 ∧ defaultPort? scheme ≠ some port

theorem head_portChars (a : Authority) : ∀ c ∈ a.portChars.head?, c = ':' := by
  unfold Authority.portChars
  cases a.port with
  | none => exact nofun
  | some port =>
    rintro c ⟨⟩
    rfl

theorem Settled.chars {scheme : String} {a : Authority} (settled : Settled scheme a) {host : Host}
    (known : a.host = some host) : a.chars = host.chars ++ a.portChars := by
  unfold Authority.chars Authority.credentialChars
  rw [settled.bare.1, settled.bare.2, Authority.hostChars_eq known]
  rfl

theorem Settled.proper {scheme : String} {a : Authority} (settled : Settled scheme a) :
    a.Proper := by
  obtain ⟨host, known, proper, -⟩ := settled.host
  refine ⟨?_, ?_, ⟨host, known, proper⟩, fun port same => (settled.port port same).1⟩
  · rw [settled.bare.1]
    exact List.forall_mem_nil _
  · rw [settled.bare.2]
    exact List.forall_mem_nil _

theorem Settled.not_endsAuthority {scheme : String} {a : Authority} (settled : Settled scheme a)
    {c : Char} (mem : c ∈ a.chars) : Kind.web.endsAuthority c = false := by
  obtain ⟨host, known, proper, -⟩ := settled.host
  rw [settled.chars known] at mem
  rcases List.mem_append.1 mem with in_host | in_port
  · exact not_endsAuthority_of_mem_host proper in_host
  · exact not_endsAuthority_of_mem_port in_port

theorem chars_ne_nil_of_proper {host : Host} (proper : host.Proper) : host.chars ≠ [] := by
  rcases proper.chars_cases with ⟨inner, written, -⟩ | ⟨nonempty, -⟩
  · rw [written]
    exact List.cons_ne_nil _ _
  · exact nonempty

theorem Settled.chars_ne_nil {scheme : String} {a : Authority} (settled : Settled scheme a) :
    a.chars ≠ [] := by
  obtain ⟨host, known, proper, -⟩ := settled.host
  rw [settled.chars known]
  exact List.append_ne_nil_of_left_ne_nil (chars_ne_nil_of_proper proper) _

theorem Settled.splitAuthority {scheme : String} {a : Authority} (settled : Settled scheme a)
    (web : kindOf scheme = .web) (rest : List Char)
    (ends : ∀ c ∈ rest.head?, Kind.web.endsAuthority c = true) :
    splitAuthority scheme (a.chars ++ rest) = .ok (a, rest) := by
  obtain ⟨host, known, proper, reads⟩ := settled.host
  have chars := settled.chars known
  have pass : ∀ c ∈ a.chars, (!Kind.web.endsAuthority c) = true := by
    intro c mem
    rw [settled.not_endsAuthority mem]
    rfl
  have stop : ∀ c ∈ rest.head?, (!Kind.web.endsAuthority c) = false := by
    intro c first
    rw [ends c first]
    rfl
  have inside := Text.takeWhile_append_of_ends pass stop
  have after := Text.dropWhile_append_of_ends pass stop
  have no_at : splitCredentials? a.chars = none := by
    have free : '@' ∉ a.chars := by
      rw [chars, List.mem_append]
      exact not_or.2 ⟨proper.not_mem_chars (by decide), a.not_mem_portChars (by decide)⟩
    unfold splitCredentials?
    rw [if_neg (by simpa using free)]
  have span : spanHost false a.chars = (host.chars, a.portChars) := by
    rw [chars]
    exact spanHost_chars (head_portChars a) proper
  have login : credentials [] = ("", "") := by cbv
  have nonempty : host.chars.isEmpty = false :=
    List.isEmpty_eq_false_iff.2 (chars_ne_nil_of_proper proper)
  have port := portOf_portChars scheme (fun port same => (settled.port port same).1)
    fun port same => (settled.port port same).2
  have same : a = ⟨"", "", some host, a.port⟩ := by
    rw [← known]
    obtain ⟨username, password⟩ := settled.bare
    cases a
    simp only at username password ⊢
    rw [username, password]
  have special : Kind.web.isSpecial = true := rfl
  unfold Url.splitAuthority
  simp only [web, inside, after, no_at, Option.getD_none, login, span, nonempty, Bool.false_and,
    special, reads, port, Bool.false_eq_true, if_false, if_true, Except.map, ne_eq,
    not_true_eq_false, decide_false, Bool.or_self, Bool.and_false]
  exact congrArg (fun a => Except.ok (a, rest)) same.symm

theorem settled_of_parse {text : String} {u : Url} (parsed : parse text = .ok u)
    (web : kindOf u.scheme = .web) {a : Authority} (known : u.authority = some a)
    (bare : a.username = "" ∧ a.password = "") : Settled u.scheme a := by
  obtain ⟨rest, -, parsed_web⟩ := parse_web parsed web
  obtain ⟨-, ⟨b, same, read⟩, -⟩ := parseWeb_eq_ok web parsed_web
  cases known.symm.trans same
  obtain ⟨host, port, left, -, named, found, made⟩ := authorityIn_eq_ok read
  refine ⟨bare, ⟨host, by rw [made], proper_knownHost named, knownHost_chars named⟩, ?_⟩
  intro number same
  rw [made] at same
  cases same
  exact ⟨portOf_le found, portOf_ne_default found⟩

/-! ### Queries -/

def querySigns : List Char :=
  [' ', '"', '#', '<', '>', '\'']

theorem encodedInQuery_eq (c : Char) :
    encodedInQuery true c = (isControl c || decide (c ∈ querySigns)) := by
  simp [encodedInQuery, querySigns, Bool.or_assoc]

def IsQueryChar (c : Char) : Prop :=
  c.toNat < 0x80 ∧ encodedInQuery true c = false

instance (c : Char) : Decidable (IsQueryChar c) :=
  inferInstanceAs (Decidable (_ ∧ _))

theorem isQueryChar_of_hex : ∀ c ∈ '%' :: hexSigns, IsQueryChar c := by
  refine Text.forall_of_all ?_
  unfold IsQueryChar
  simp only [encodedInQuery_eq]
  decide

theorem toNat_lt_of_isPlain {c : Char} (plain : Form.isPlain c = true) : c.toNat < 0x80 := by
  unfold Form.isPlain at plain
  simp only [Bool.or_eq_true, decide_eq_true_iff, or_assoc] at plain
  rcases plain with letter | rfl | rfl | rfl | rfl
  · have bounds := toNat_bounds_of_isAlphanum letter
    omega
  all_goals decide

theorem isQueryChar_of_isPlain {c : Char} (plain : Form.isPlain c = true) : IsQueryChar c := by
  have ascii := toNat_lt_of_isPlain plain
  refine ⟨ascii, Text.forall_ascii
    (q := fun c => Form.isPlain c = true → encodedInQuery true c = false) ?_ ascii plain⟩
  simp only [encodedInQuery_eq]
  decide

theorem isQueryChar_of_mem_encodePair {pair : String × String} {c : Char}
    (mem : c ∈ Form.encodePair pair) : IsQueryChar c := by
  have signs : ∀ d ∈ ['=', '+'], IsQueryChar d := by
    refine Text.forall_of_all ?_
    unfold IsQueryChar
    simp only [encodedInQuery_eq]
    decide
  have inText {text : String} (mem : c ∈ Form.encodeText text) : IsQueryChar c := by
    rcases Form.mem_encodeText mem with plain | rfl | rfl | digit
    · exact isQueryChar_of_isPlain plain
    · exact signs _ (by decide)
    · exact isQueryChar_of_hex _ (List.mem_cons_self ..)
    · exact isQueryChar_of_hex _ (List.mem_cons_of_mem _ digit)
  unfold Form.encodePair at mem
  rcases List.mem_append.1 mem with front | rest
  · exact inText front
  · rcases List.mem_cons.1 rest with rfl | behind
    · exact signs _ (by decide)
    · exact inText behind

theorem isQueryChar_of_mem_percentEncode {text : List Char} :
    ∀ c ∈ percentEncode (encodedInQuery true) text, IsQueryChar c := by
  intro c mem
  rcases mem_percentEncode mem with plain | rfl | digit
  · exact plain
  · exact isQueryChar_of_hex _ (List.mem_cons_self ..)
  · exact isQueryChar_of_hex _ (List.mem_cons_of_mem _ digit)

theorem IsQueryChar.visible {c : Char} (plain : IsQueryChar c) : 0x20 < c.toNat ∧ c ≠ '#' := by
  obtain ⟨-, plain⟩ := plain
  rw [encodedInQuery_eq, Bool.or_eq_false_iff, decide_eq_false_iff_not] at plain
  obtain ⟨no_control, no_sign⟩ := plain
  have other (sign : Char) (listed : sign ∈ querySigns) : c ≠ sign := by
    rintro rfl
    exact no_sign listed
  refine ⟨?_, other '#' (by decide)⟩
  unfold isControl at no_control
  rw [Bool.or_eq_false_iff, decide_eq_false_iff_not] at no_control
  have no_blank : c.toNat ≠ 0x20 := fun same => other ' ' (by decide) (Char.toNat_inj.1 same)
  omega

/-! ### Addresses -/

section Parts

variable {path : List Char} (free : SignFree path) {query : Option String}
  (apart : ∀ text, query = some text → '#' ∉ text.toList)

include free apart

theorem forall_bne_number : ∀ c ∈ path ++ partChars '?' query, (c != '#') = true := by
  intro c mem
  rcases List.mem_append.1 mem with front | behind
  · exact bne_iff_ne.2 (free c front).2
  · cases query with
    | none => cases behind
    | some text =>
      rcases List.mem_cons.1 behind with rfl | inside
      · decide
      · exact Text.forall_bne_of_not_mem (apart text rfl) c inside

theorem tail_of_parts :
    Tail.ofText (path ++ partChars '?' query) = ⟨path, query.map String.toList, none⟩ := by
  have no_number := forall_bne_number free apart
  have no_question : ∀ c ∈ path, (c != '?') = true := fun c mem => bne_iff_ne.2 (free c mem).1
  have front := List.takeWhile_eq_self_iff.2 no_number
  have behind := List.dropWhile_eq_nil_iff.2 no_number
  unfold Tail.ofText
  simp only [front, behind, List.takeWhile_append_of_pos no_question,
    List.dropWhile_append_of_pos no_question]
  cases query <;> simp [partChars]

end Parts

/-- Whether a web address is written in the way in which it is read. -/
structure Stands (u : Url) : Prop where
  scheme : u.scheme = "http" ∨ u.scheme = "https"
  authority : ∃ a, u.authority = some a ∧ Settled u.scheme a
  path : Kind.web.pathAfterAuthority u.path.toList = u.path.toList
  query : ∀ text, u.query = some text → ∀ c ∈ text.toList, IsQueryChar c

/-- What is parsed stands, if it has no credentials. -/
theorem stands_of_parse {text : String} {u : Url} (parsed : parse text = .ok u)
    (web : u.scheme = "http" ∨ u.scheme = "https") {a : Authority} (known : u.authority = some a)
    (bare : a.username = "" ∧ a.password = "") : u.Stands := by
  have kind := (scheme_fits web).1
  obtain ⟨rest, -, parsed_web⟩ := parse_web parsed kind
  obtain ⟨⟨b, rest⟩, -, made⟩ := Result.bind_eq_ok.1 parsed_web
  have made := Except.ok.inj made
  refine ⟨web, ⟨a, known, settled_of_parse parsed kind known bare⟩, ?_, ?_⟩
  · rw [← made]
    simp only [Tail.url, String.toList_ofList, kind]
    exact pathAfterAuthority_pathAfterAuthority _
  · intro query written
    rw [← made] at written
    simp only [Tail.url, Tail.encodedQuery, kind] at written
    obtain ⟨text, -, rfl⟩ := Option.map_eq_some_iff.1 written
    rw [String.toList_ofList]
    exact isQueryChar_of_mem_percentEncode

namespace Stands

variable {u : Url}

theorem addPairs (stands : u.Stands) (pairs : List (String × String)) :
    (u.addPairs pairs).Stands := by
  unfold Url.addPairs
  split
  · exact stands
  · refine ⟨stands.scheme, stands.authority, stands.path, ?_⟩
    rintro _ ⟨⟩
    rw [String.toList_ofList]
    refine Form.forall_mem_foldl_addPair ?_ ?_ (fun _ _ mem => isQueryChar_of_mem_encodePair mem)
      pairs
    · cases known : u.query with
      | none => exact List.forall_mem_nil _
      | some query => exact stands.query query known
    · unfold IsQueryChar
      rw [encodedInQuery_eq]
      decide

theorem path_chars (stands : u.Stands) : ∀ c ∈ u.path.toList, 0x20 < c.toNat := by
  rw [← stands.path, pathAfterAuthority_eq]
  refine forall_mem_pathOf (by decide) fun segment c mem => ?_
  have digits : ∀ d ∈ hexSigns, 0x20 < d.toNat := Text.forall_of_all (by decide)
  rcases mem_percentEncode mem with ⟨-, plain⟩ | rfl | digit
  · rw [encodedInPath_eq, Bool.or_eq_false_iff, decide_eq_false_iff_not] at plain
    obtain ⟨no_control, no_sign⟩ := plain
    unfold isControl at no_control
    rw [Bool.or_eq_false_iff, decide_eq_false_iff_not] at no_control
    have no_blank : c.toNat ≠ 0x20 := by
      intro same
      rw [show c = ' ' from Char.toNat_inj.1 same] at no_sign
      exact no_sign (by decide)
    omega
  · decide
  · exact digits c digit

theorem path_signFree (stands : u.Stands) : SignFree u.path.toList := by
  rw [← stands.path, pathAfterAuthority_eq]
  exact signFree_pathOf _ _

theorem path_slash (stands : u.Stands) : ∃ rest, u.path.toList = '/' :: rest := by
  rw [← stands.path, pathAfterAuthority_eq]
  exact (joinSegments_cases _).resolve_left (pathOf_ne_nil _ _)

end Stands

theorem visible_chars {scheme : String} {a : Authority} (settled : Settled scheme a) :
    ∀ c ∈ a.chars, 0x20 < c.toNat := by
  obtain ⟨host, known, proper, -⟩ := settled.host
  have signs : ∀ d ∈ '[' :: ']' :: ':' :: Host.groupSigns, 0x20 < d.toNat :=
    Text.forall_of_all (by decide)
  intro c mem
  rw [settled.chars known] at mem
  rcases List.mem_append.1 mem with in_host | in_port
  · rcases proper.chars_cases with ⟨inner, written, inside⟩ | ⟨-, allowed⟩
    · simp only [written, List.mem_cons, List.mem_append, List.not_mem_nil, or_false] at in_host
      refine signs c ?_
      simp only [List.mem_cons]
      rcases in_host with opens | mem_inner | closes
      · exact .inl opens
      · exact .inr (.inr (inside c mem_inner))
      · exact .inr (.inl closes)
    · have fine := allowed c in_host
      rw [Domain.isForbidden_eq, Bool.or_eq_false_iff, Bool.or_eq_false_iff,
        decide_eq_false_iff_not] at fine
      exact Nat.lt_of_not_le fine.1.1
  · rcases Authority.mem_portChars in_port with rfl | digit
    · decide
    · exact Text.forall_digit (q := fun c => 0x20 < c.toNat) (by decide) digit

namespace Stands

variable {u : Url}

theorem visible (stands : u.Stands) : ∀ c ∈ u.targetChars, isOuterBlank c = false := by
  obtain ⟨a, known, settled⟩ := stands.authority
  have scheme : ∀ c ∈ u.scheme.toList, 0x20 < c.toNat := by
    rcases stands.scheme with same | same <;> rw [same] <;> exact Text.forall_of_all (by cbv)
  intro c mem
  refine decide_eq_false (Nat.not_le.2 ?_)
  unfold targetChars originChars at mem
  rw [known] at mem
  simp only [List.mem_append, List.mem_cons] at mem
  rcases mem with ((in_scheme | rfl | rfl | rfl | in_authority) | in_path) | in_query
  · exact scheme c in_scheme
  · decide
  · decide
  · decide
  · exact visible_chars settled c in_authority
  · exact stands.path_chars c in_path
  · cases written : u.query with
    | none =>
      rw [written] at in_query
      cases in_query
    | some query =>
      rw [written] at in_query
      rcases List.mem_cons.1 in_query with rfl | inside
      · decide
      · exact (stands.query query written c inside).visible.1

theorem query_apart (stands : u.Stands) : ∀ text, u.query = some text → '#' ∉ text.toList :=
  fun query written mem => (stands.query query written _ mem).visible.2 rfl

theorem targetChars_eq {a : Authority} (known : u.authority = some a) :
    u.targetChars = u.scheme.toList ++ ':' :: '/' :: '/' ::
      (a.chars ++ (u.path.toList ++ partChars '?' u.query)) := by
  unfold targetChars originChars
  rw [known]
  simp

/-- A target that is read from the text of an address has its authority and its path with the
query. -/
theorem target_eq (stands : u.Stands) {a : Authority} (known : u.authority = some a)
    {t : Http.Target} (read : Http.Target.parse u.text = .ok t) :
    t = ⟨some u.scheme, String.ofList a.chars,
      String.ofList (u.path.toList ++ partChars '?' u.query)⟩ := by
  obtain ⟨b, same, settled⟩ := stands.authority
  cases known.symm.trans same
  obtain ⟨rest, slash⟩ := stands.path_slash
  obtain ⟨-, plain, short⟩ := scheme_fits stands.scheme
  obtain ⟨path, found, rfl⟩ := target_eq_ok known settled.proper (.inr ⟨rest, slash⟩) plain short read
  have kept : u.tailChars.takeWhile (· != '#') = u.path.toList ++ partChars '?' u.query := by
    unfold tailChars
    rw [List.takeWhile_append_of_pos (forall_bne_number stands.path_signFree stands.query_apart)]
    cases u.fragment <;> exact List.append_nil _
  have nonempty :
      ((u.path.toList ++ partChars '?' u.query).takeWhile (· != '?')).isEmpty = false := by
    rw [slash]
    rfl
  have same := Http.Target.readPath_eq_ok found
  simp only [kept, nonempty, Bool.false_eq_true, if_false,
    List.takeWhile_append_dropWhile] at same
  rw [same]

/-- The text of an address up to its fragment is parsed as the same address without its
fragment. -/
theorem parse_targetChars (stands : u.Stands) :
    parse (String.ofList u.targetChars) = .ok { u with fragment := none } := by
  obtain ⟨a, known, settled⟩ := stands.authority
  obtain ⟨rest, slash⟩ := stands.path_slash
  have kind := (scheme_fits stands.scheme).1
  have split : splitScheme? (clean u.targetChars) = some (u.scheme, '/' :: '/' ::
      (a.chars ++ (u.path.toList ++ partChars '?' u.query))) := by
    rw [clean_of_visible stands.visible, targetChars_eq known]
    exact splitScheme?_of_web stands.scheme _
  have behind : ('/' :: '/' :: (a.chars ++ (u.path.toList ++ partChars '?' u.query))).dropWhile
      Kind.web.isSeparator = a.chars ++ (u.path.toList ++ partChars '?' u.query) := by
    obtain ⟨c, others, chars⟩ := List.exists_cons_of_ne_nil settled.chars_ne_nil
    have stops := settled.not_endsAuthority (chars ▸ List.mem_cons_self ..)
    have other : Kind.web.isSeparator c = false := (Bool.or_eq_false_iff.1 stops).2
    rw [List.dropWhile_cons_of_pos (by decide), List.dropWhile_cons_of_pos (by decide), chars,
      List.cons_append, List.dropWhile_cons_of_neg (by simp [other])]
  have authority := settled.splitAuthority kind (u.path.toList ++ partChars '?' u.query)
    (by
      rw [slash]
      rintro c ⟨⟩
      decide)
  have tail := tail_of_parts stands.path_signFree stands.query_apart
  unfold parse
  rw [String.toList_ofList, split]
  simp only [kind, parseWeb]
  rw [behind, authority]
  change Except.ok _ = _
  rw [tail]
  have query : Tail.encodedQuery ⟨u.path.toList, u.query.map String.toList, none⟩ .web = u.query := by
    unfold Tail.encodedQuery
    cases written : u.query with
    | none => rfl
    | some query =>
      have kept : percentEncode (encodedInQuery true) query.toList = query.toList :=
        percentEncode_of_plain (stands.query query written)
      exact congrArg some ((congrArg String.ofList kept).trans (String.ofList_toList ..))
  simp only [Tail.url, kind, stands.path, String.ofList_toList, query, known]
  rfl

end Stands

end PetClient.Url
