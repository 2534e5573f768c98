import PetClient.Proofs.Url.Authority

/-!
A path behind a web address: when it is set off by a slash, a question mark or a number sign, it
changes neither the scheme nor the authority.
-/

namespace PetClient.Url

/-! ### Blanks and the scheme -/

theorem isOuterBlank_of_isLineBreak {c : Char} (breaks : isLineBreak c = true) :
    isOuterBlank c = true := by
  unfold isLineBreak at breaks
  simp only [Bool.or_eq_true, decide_eq_true_iff] at breaks
  rcases breaks with (rfl | rfl) | rfl <;> decide

theorem exists_trimmed (text : List Char) :
    ∃ blanks, text = (text.reverse.dropWhile isOuterBlank).reverse ++ blanks ∧
      ∀ c ∈ blanks, isOuterBlank c = true := by
  refine ⟨(text.reverse.takeWhile isOuterBlank).reverse, ?_, ?_⟩
  · rw [← List.reverse_append, List.takeWhile_append_dropWhile, List.reverse_reverse]
  · intro c mem
    exact List.all_eq_true.1 List.all_takeWhile c (List.mem_reverse.1 mem)

theorem clean_append {text : List Char} {c : Char} (path : List Char)
    (visible : isOuterBlank c = false) (nonblank : text.dropWhile isOuterBlank ≠ []) :
    ∃ blanks rest, clean (text ++ c :: path) = clean text ++ blanks ++ c :: rest ∧
      ∀ d ∈ blanks, isOuterBlank d = true := by
  obtain ⟨blanks, parts, low⟩ := exists_trimmed (text.dropWhile isOuterBlank)
  have unbroken : (!isLineBreak c) = true := by
    by_contra breaks
    rw [Bool.not_eq_true', Bool.not_eq_false] at breaks
    rw [isOuterBlank_of_isLineBreak breaks] at visible
    cases visible
  have front : (text ++ c :: path).dropWhile isOuterBlank =
      text.dropWhile isOuterBlank ++ c :: path := by
    rw [List.dropWhile_append, if_neg (by simpa using nonblank)]
  have back : ((text.dropWhile isOuterBlank ++ c :: path).reverse.dropWhile isOuterBlank).reverse =
      text.dropWhile isOuterBlank ++
        c :: (path.reverse.dropWhile isOuterBlank).reverse := by
    rw [List.reverse_append, List.reverse_cons, List.append_assoc, List.singleton_append,
      Text.dropWhile_append_stop _ _ visible]
    simp
  refine ⟨blanks.filter fun d => !isLineBreak d,
    ((path.reverse.dropWhile isOuterBlank).reverse).filter fun d => !isLineBreak d, ?_, ?_⟩
  · unfold clean
    rw [front, back, List.filter_append, List.filter_cons, if_pos unbroken, ← List.filter_append,
      ← parts]
  · intro d mem
    exact low d (List.mem_filter.1 mem).1

theorem splitScheme?_eq_some {text rest : List Char} {scheme : String} :
    splitScheme? text = some (scheme, rest) ↔
      ∃ c others, c.isAlpha = true ∧ (∀ d ∈ c :: others, isSchemeChar d = true) ∧
        text = c :: others ++ ':' :: rest ∧
        scheme = String.ofList ((c :: others).map Char.toLower) := by
  constructor
  · intro split
    unfold splitScheme? at split
    split at split
    · cases split
    · rename_i c tail
      split at split
      · cases split
      · rename_i letter
        have letter : c.isAlpha = true := by simpa using letter
        split at split
        · rename_i behind
          cases split
          have plain : isSchemeChar c = true := by simp [isSchemeChar, Char.isAlphanum, letter]
          have front : (c :: tail).takeWhile isSchemeChar = c :: tail.takeWhile isSchemeChar :=
            List.takeWhile_cons_of_pos plain
          refine ⟨c, tail.takeWhile isSchemeChar, letter, ?_, ?_, by rw [front]⟩
          · rw [← front]
            exact List.all_eq_true.1 List.all_takeWhile
          · rw [← front, ← behind, List.takeWhile_append_dropWhile]
        · cases split
  · rintro ⟨c, others, letter, plain, rfl, rfl⟩
    have ends : ∀ d ∈ (':' :: rest).head?, isSchemeChar d = false := by
      rintro d ⟨⟩
      decide
    have front := Text.takeWhile_append_of_ends plain ends
    have behind := Text.dropWhile_append_of_ends plain ends
    unfold splitScheme?
    rw [List.cons_append] at front behind ⊢
    simp only [letter, Bool.not_true, Bool.false_eq_true, if_false, front, behind]

theorem splitScheme?_append {text rest : List Char} {scheme : String}
    (split : splitScheme? text = some (scheme, rest)) (more : List Char) :
    splitScheme? (text ++ more) = some (scheme, rest ++ more) := by
  obtain ⟨c, others, letter, plain, rfl, rfl⟩ := splitScheme?_eq_some.1 split
  exact splitScheme?_eq_some.2 ⟨c, others, letter, plain, List.append_assoc .., rfl⟩

/-! ### Addresses -/

def webInside (text : List Char) : List Char :=
  Kind.web.inside (text.dropWhile Kind.web.isSeparator)

theorem joinSegments_cases (segments : List (List Char)) :
    joinSegments segments = [] ∨ ∃ rest, joinSegments segments = '/' :: rest := by
  cases segments with
  | nil => exact .inl rfl
  | cons segment others => exact .inr ⟨segment ++ joinSegments others, rfl⟩

theorem parseWeb_eq_ok {scheme : String} {text : List Char} {u : Url}
    (web : kindOf scheme = .web) (parsed : parseWeb scheme text = .ok u) :
    u.scheme = scheme ∧
      (∃ a, u.authority = some a ∧ authorityIn scheme (webInside text) = .ok a) ∧
      (u.path.toList = [] ∨ ∃ rest, u.path.toList = '/' :: rest) := by
  obtain ⟨⟨a, rest⟩, split, made⟩ := Result.bind_eq_ok.1 parsed
  cases made
  have special : (kindOf scheme).isSpecial = true := by rw [web]; rfl
  have read := authorityIn_of_splitAuthority special split
  rw [web] at read
  refine ⟨rfl, ⟨a, rfl, read⟩, ?_⟩
  have path : (kindOf scheme).pathAfterAuthority (Tail.ofText rest).path =
      pathOf (kindOf scheme).isSeparator
        (dropSlash (kindOf scheme).isSeparator (Tail.ofText rest).path) := by
    unfold Kind.pathAfterAuthority
    rw [special]
    simp
  simp only [Tail.url, String.toList_ofList, path]
  exact joinSegments_cases _

theorem scheme_parseUnknown {scheme : String} {text : List Char} {u : Url}
    (parsed : parseUnknown scheme text = .ok u) : u.scheme = scheme := by
  unfold parseUnknown at parsed
  split at parsed
  · obtain ⟨parts, -, made⟩ := Result.bind_eq_ok.1 parsed
    cases made
    rfl
  · cases parsed
    rfl
  · cases parsed
    rfl

theorem parseFile_eq_ok {text : List Char} {u : Url} (parsed : parseFile text = .ok u) :
    ∃ host rest, (∀ name, host = some name → ∃ inside, fileHost inside = .ok (some name)) ∧
      u = (Tail.ofText rest).url "file"
        (some { host := if (filePath (Tail.ofText rest).path).2 then none else host })
        (filePath (Tail.ofText rest).path).1 := by
  unfold parseFile at parsed
  simp only at parsed
  split at parsed
  · split at parsed
    · split at parsed
      · cases parsed
        exact ⟨none, _, nofun, rfl⟩
      · obtain ⟨host, read, made⟩ := Result.bind_eq_ok.1 parsed
        cases made
        exact ⟨host, _, fun name same => ⟨_, same ▸ read⟩, rfl⟩
    · cases parsed
      exact ⟨none, _, nofun, rfl⟩
  · cases parsed
    exact ⟨none, _, nofun, rfl⟩

theorem scheme_parseFile {text : List Char} {u : Url} (parsed : parseFile text = .ok u) :
    u.scheme = "file" := by
  obtain ⟨host, rest, -, rfl⟩ := parseFile_eq_ok parsed
  rfl

theorem kindOf_eq_file {scheme : String} (file : kindOf scheme = .file) : scheme = "file" := by
  unfold kindOf at file
  split at file
  · cases file
  · split at file
    · assumption
    · cases file

theorem parse_web {text : String} {u : Url} (parsed : parse text = .ok u)
    (web : kindOf u.scheme = .web) :
    ∃ rest, splitScheme? (clean text.toList) = some (u.scheme, rest) ∧
      parseWeb u.scheme rest = .ok u := by
  unfold parse at parsed
  cases split : splitScheme? (clean text.toList) with
  | none =>
    rw [split] at parsed
    cases parsed
  | some parts =>
    obtain ⟨scheme, rest⟩ := parts
    rw [split] at parsed
    simp only at parsed
    cases kind : kindOf scheme with
    | web =>
      rw [kind] at parsed
      have same := (parseWeb_eq_ok kind parsed).1
      exact ⟨rest, by rw [same], by rw [same]; exact parsed⟩
    | file =>
      rw [kind] at parsed
      have same := (scheme_parseFile parsed).trans (kindOf_eq_file kind).symm
      rw [same, kind] at web
      cases web
    | unknown =>
      rw [kind] at parsed
      rw [scheme_parseUnknown parsed, kind] at web
      cases web

theorem parts_of_web {text : String} {u : Url} (parsed : parse text = .ok u)
    (web : kindOf u.scheme = .web) :
    (∃ a, u.authority = some a ∧ a.Proper) ∧
      (u.path.toList = [] ∨ ∃ rest, u.path.toList = '/' :: rest) := by
  obtain ⟨rest, -, parsed_web⟩ := parse_web parsed web
  obtain ⟨-, ⟨a, known, read⟩, path⟩ := parseWeb_eq_ok web parsed_web
  exact ⟨⟨a, known, proper_authorityIn read⟩, path⟩

def setsOff (c : Char) : Bool :=
  c = '/' || c = '?' || c = '#'

theorem setsOff_iff {c : Char} : setsOff c = true ↔ c = '/' ∨ c = '?' ∨ c = '#' := by
  simp only [setsOff, Bool.or_eq_true, decide_eq_true_iff, or_assoc]

theorem not_isOuterBlank_of_setsOff {c : Char} (off : setsOff c = true) :
    isOuterBlank c = false := by
  rcases setsOff_iff.1 off with rfl | rfl | rfl <;> decide

theorem endsAuthority_of_setsOff {c : Char} (off : setsOff c = true) :
    Kind.web.endsAuthority c = true := by
  rcases setsOff_iff.1 off with rfl | rfl | rfl <;> decide

theorem not_endsAuthority_of_isOuterBlank {c : Char} (low : isOuterBlank c = true) :
    Kind.web.endsAuthority c = false := by
  by_contra ends
  rw [Bool.not_eq_false] at ends
  unfold Kind.endsAuthority Kind.isSeparator at ends
  simp only [Bool.or_eq_true, Bool.and_eq_true, decide_eq_true_iff] at ends
  rcases ends with (rfl | rfl) | rfl | ⟨-, rfl⟩ <;> exact absurd low (by decide)

theorem backslash_not_mem_webInside (text : List Char) : '\\' ∉ webInside text := by
  intro mem
  have inside := List.all_eq_true.1 List.all_takeWhile _ mem
  exact absurd inside (by decide)

theorem not_authorityIn_nil {scheme : String} {a : Authority} :
    authorityIn scheme [] ≠ .ok a := by
  intro read
  obtain ⟨host, port, rest, nonempty, -⟩ := authorityIn_eq_ok read
  exact nonempty rfl

/-- What a web authority is read from stays as it is when a path is set off from it; if nothing
else sets it off, the blanks in front of the path are added. -/
theorem webInside_append {text blanks path : List Char} {c : Char} (off : setsOff c = true)
    (low : ∀ d ∈ blanks, isOuterBlank d = true)
    (nonempty : text.dropWhile Kind.web.isSeparator ≠ []) :
    webInside (text ++ blanks ++ c :: path) = webInside text ∨
      webInside (text ++ blanks ++ c :: path) = webInside text ++ blanks := by
  have rest : (text ++ blanks ++ c :: path).dropWhile Kind.web.isSeparator =
      text.dropWhile Kind.web.isSeparator ++ blanks ++ c :: path := by
    rw [List.append_assoc, List.dropWhile_append, if_neg (by simpa using nonempty),
      List.append_assoc]
  have stop : (!Kind.web.endsAuthority c) = false := by
    rw [endsAuthority_of_setsOff off]
    rfl
  have pass : ∀ d ∈ blanks, (!Kind.web.endsAuthority d) = true := by
    intro d mem
    rw [not_endsAuthority_of_isOuterBlank (low d mem)]
    rfl
  unfold webInside Kind.inside
  -- Either a sign of the address itself ends the authority, or the sign in front of the path does.
  rw [rest, Text.takeWhile_append_stop (p := fun d => !Kind.web.endsAuthority d) _ _ stop,
    List.takeWhile_append]
  generalize text.dropWhile Kind.web.isSeparator = behind
  split
  · rename_i whole
    have all : behind.takeWhile (fun c => !Kind.web.endsAuthority c) = behind :=
      (List.takeWhile_sublist _).eq_of_length whole
    have kept : (blanks ++ []).takeWhile (fun c => !Kind.web.endsAuthority c) = blanks ++ [] :=
      List.takeWhile_append_of_pos pass
    rw [List.append_nil] at kept
    rw [all, kept]
    exact .inr rfl
  · exact .inl rfl

/-- What follows the scheme of a web address may be followed by blanks and a path without a change
of the authority. -/
theorem authorityIn_append {scheme : String} {text blanks path : List Char} {c : Char}
    {a b : Authority} (off : setsOff c = true) (low : ∀ d ∈ blanks, isOuterBlank d = true)
    (read : authorityIn scheme (webInside text) = .ok a)
    (again : authorityIn scheme (webInside (text ++ blanks ++ c :: path)) = .ok b) : b = a := by
  have nonempty : text.dropWhile Kind.web.isSeparator ≠ [] := by
    intro empty
    unfold webInside at read
    rw [empty] at read
    exact not_authorityIn_nil read
  have same : webInside (text ++ blanks ++ c :: path) = webInside text := by
    rcases webInside_append off low nonempty with same | longer
    · exact same
    · rw [longer] at again
      have none := authorityIn_append_blanks again low (backslash_not_mem_webInside text)
      rw [longer, none, List.append_nil]
  rw [same, read] at again
  exact (Except.ok.inj again).symm

/-- A path that is set off changes neither the scheme nor the authority of a web address. -/
theorem parse_append {text path : String} {u v : Url} (parsed : parse text = .ok u)
    (web : kindOf u.scheme = .web) (off : ∀ c ∈ path.toList.head?, setsOff c = true)
    (joined : parse (text ++ path) = .ok v) :
    v.scheme = u.scheme ∧ v.authority = u.authority := by
  cases chars : path.toList with
  | nil =>
    have none : path = "" := String.toList_eq_nil_iff.1 chars
    rw [none, String.append_empty, parsed] at joined
    cases joined
    exact ⟨rfl, rfl⟩
  | cons c others =>
    rw [chars] at off
    have off_c : setsOff c = true := off c rfl
    obtain ⟨rest, split, parsed_web⟩ := parse_web parsed web
    have nonblank : text.toList.dropWhile isOuterBlank ≠ [] := by
      intro empty
      unfold clean at split
      rw [empty] at split
      cases split
    obtain ⟨blanks, behind, cleaned, low⟩ :=
      clean_append others (not_isOuterBlank_of_setsOff off_c) nonblank
    unfold parse at joined
    rw [String.toList_append, chars, cleaned, List.append_assoc,
      splitScheme?_append split] at joined
    simp only [web] at joined
    rw [← List.append_assoc] at joined
    obtain ⟨-, ⟨a, first, read⟩, -⟩ := parseWeb_eq_ok web parsed_web
    obtain ⟨scheme, ⟨b, second, again⟩, -⟩ := parseWeb_eq_ok web joined
    rw [first, second, authorityIn_append off_c low read again]
    exact ⟨scheme, rfl⟩

end PetClient.Url
