import PetClient.Proofs.Url.Parts

/-!
Web addresses whose text has no query, no fragment, no backslashes and no blanks: plain segments
behind such a text are put behind its path, and nothing else changes.
-/

namespace PetClient.Url

def bareSigns : List Char :=
  ['?', '#', '\\']

/-- Whether a text is one of scheme, authority and path alone, with slashes between its parts. -/
def IsBare (text : List Char) : Prop :=
  ∀ c ∈ text, c ∉ bareSigns ∧ isOuterBlank c = false

theorem IsBare.subset {text part : List Char} (bare : IsBare text) (subset : part ⊆ text) :
    IsBare part :=
  fun c mem => bare c (subset mem)

theorem IsBare.not_mem {text : List Char} (bare : IsBare text) {c : Char} (sign : c ∈ bareSigns) :
    c ∉ text :=
  fun mem => (bare c mem).1 sign

theorem IsBare.append {first second : List Char} (bare : IsBare first) (bare' : IsBare second) :
    IsBare (first ++ second) := by
  intro c mem
  rcases List.mem_append.1 mem with here | there
  · exact bare c here
  · exact bare' c there

theorem clean_of_visible {text : List Char} (visible : ∀ c ∈ text, isOuterBlank c = false) :
    clean text = text := by
  have front : text.dropWhile isOuterBlank = text := Text.dropWhile_eq_self visible
  have back : text.reverse.dropWhile isOuterBlank = text.reverse :=
    Text.dropWhile_eq_self fun c mem => visible c (List.mem_reverse.1 mem)
  unfold clean
  rw [front, back, List.reverse_reverse, List.filter_eq_self]
  intro c mem
  rw [Bool.not_eq_true', ← Bool.not_eq_true]
  intro breaks
  have blank := isOuterBlank_of_isLineBreak breaks
  rw [visible c mem] at blank
  cases blank

theorem suffix_of_splitScheme {text rest : List Char} {scheme : String}
    (split : splitScheme? text = some (scheme, rest)) : rest <:+ text := by
  obtain ⟨c, others, -, -, rfl, -⟩ := splitScheme?_eq_some.1 split
  exact (List.suffix_cons _ _).trans (List.suffix_append ..)

/-! ### Authorities -/

theorem left_eq_nil {scheme : String} {text left : List Char} {port : Option Nat}
    (read : portOf scheme text = .ok (port, left)) (free : '\\' ∉ text)
    (colon : ∀ c ∈ text.head?, c = ':') : left = [] := by
  unfold portOf at read
  split at read
  · rename_i text
    simp only at read
    split at read
    · cases read
    · rename_i ends
      have same : left = text.dropWhile Char.isDigit := by
        split at read <;> cases read <;> rfl
      rw [Bool.or_eq_true, not_or, Bool.and_eq_true, not_and_or] at ends
      rcases ends.2 with empty | backslash
      · rw [same]
        simpa using empty
      · have head : (text.dropWhile Char.isDigit).head? = some '\\' := by simpa using backslash
        have mem := (List.dropWhile_suffix _).subset (List.mem_of_head? head)
        exact absurd (List.mem_cons_of_mem _ mem) free
  · cases read
    cases text with
    | nil => rfl
    | cons c rest =>
      rename_i other
      cases colon c rfl
      exact absurd rfl (other rest)

theorem rest_of_splitAuthority {scheme : String} {text rest : List Char} {a : Authority}
    (split : splitAuthority scheme text = .ok (a, rest)) (free : '\\' ∉ text) :
    rest = text.dropWhile fun c => !(kindOf scheme).endsAuthority c := by
  obtain ⟨host, port, left, -, -, found, -, behind⟩ := splitAuthority_eq_ok split
  have none_left : left = [] := by
    refine left_eq_nil found ?_ ?_
    · intro mem
      have inside := mem_of_mem_splitLogin (mem_of_mem_spanHost mem)
      exact free ((List.takeWhile_sublist _).subset inside)
    · intro c first
      obtain ⟨others, follows⟩ := List.head?_eq_some_iff.1 first
      exact head_spanHost follows
  rw [behind, none_left, List.nil_append]

/-! ### Addresses -/

def webBehind (text : List Char) : List Char :=
  (text.dropWhile Kind.web.isSeparator).dropWhile fun c => !Kind.web.endsAuthority c

theorem webBehind_suffix (text : List Char) : webBehind text <:+ text :=
  (List.dropWhile_suffix _).trans (List.dropWhile_suffix _)

/-- A bare text holds the authority and the path of its address, and nothing else. -/
theorem parseWeb_of_bare {scheme : String} {text : List Char} {u : Url}
    (web : kindOf scheme = .web) (bare : IsBare text) (parsed : parseWeb scheme text = .ok u) :
    u.path = String.ofList (Kind.web.pathAfterAuthority (webBehind text)) ∧
      u.query = none ∧ u.fragment = none := by
  obtain ⟨⟨a, rest⟩, split, made⟩ := Result.bind_eq_ok.1 parsed
  cases made
  rw [web] at split ⊢
  have whole : IsBare (text.dropWhile Kind.web.isSeparator) :=
    bare.subset (List.dropWhile_suffix _).subset
  have behind : rest = webBehind text := by
    rw [rest_of_splitAuthority split (whole.not_mem (by decide)), web]
    rfl
  have plain (sign : Char) (listed : sign ∈ bareSigns) :
      (webBehind text).takeWhile (· != sign) = webBehind text ∧
        (webBehind text).dropWhile (· != sign) = [] := by
    have others := Text.forall_bne_of_not_mem
      ((bare.subset (webBehind_suffix text).subset).not_mem listed)
    exact ⟨List.takeWhile_eq_self_iff.2 others, List.dropWhile_eq_nil_iff.2 others⟩
  have tail : Tail.ofText rest = ⟨webBehind text, none, none⟩ := by
    unfold Tail.ofText
    simp only [behind, plain '#' (by decide), plain '?' (by decide)]
  rw [tail]
  exact ⟨rfl, rfl, rfl⟩

theorem webBehind_cases {text : List Char} (bare : IsBare text) :
    webBehind text = [] ∨ ∃ rest, webBehind text = '/' :: rest := by
  cases behind : webBehind text with
  | nil => exact .inl rfl
  | cons c rest =>
    have stops := List.head?_dropWhile_not (fun c => !Kind.web.endsAuthority c)
      (text.dropWhile Kind.web.isSeparator)
    have head : ((text.dropWhile Kind.web.isSeparator).dropWhile
        fun c => !Kind.web.endsAuthority c).head? = some c := congrArg List.head? behind
    rw [head] at stops
    have mem : c ∈ text := (webBehind_suffix text).subset (behind ▸ List.mem_cons_self ..)
    have other := (bare c mem).1
    simp only [Kind.endsAuthority, Kind.isSeparator, Kind.isSpecial, Bool.not_eq_false',
      Bool.or_eq_true, Bool.true_and, decide_eq_true_eq] at stops
    simp only [bareSigns, List.mem_cons, List.not_mem_nil, or_false, not_or] at other
    rcases stops with (question | number) | slash | backslash
    · exact absurd question other.1
    · exact absurd number other.2.1
    · exact .inr ⟨rest, by rw [slash]⟩
    · exact absurd backslash other.2.2

theorem getLast?_ne_of_suffix {part text : List Char} {c : Char} (suffix : part <:+ text)
    (ends : text.getLast? ≠ some c) : part.getLast? ≠ some c := by
  obtain ⟨front, rfl⟩ := suffix
  by_cases empty : part = []
  · rw [empty]
    exact nofun
  · rwa [List.getLast?_append_of_ne_nil _ empty] at ends

theorem webBehind_append {text : List Char} (nonempty : text.dropWhile Kind.web.isSeparator ≠ [])
    (more : List Char) : webBehind (text ++ '/' :: more) = webBehind text ++ '/' :: more := by
  unfold webBehind
  rw [List.dropWhile_append, if_neg (by simpa using nonempty),
    Text.dropWhile_append_stop _ _ (by decide)]

section Behind

variable {parts : List (List Char)}

theorem not_isSeparator_of_plain (plain : ∀ part ∈ parts, IsPlain part) :
    ∀ part ∈ parts, ∀ c ∈ part, Kind.web.isSeparator c = false := by
  intro part mem c mem_part
  rw [← Bool.not_eq_true]
  intro separates
  have no_slash : ∀ d ∈ ['/', '\\'], ¬(d.isAlphanum = true ∨ d = '-') :=
    Text.forall_of_all (by decide)
  refine no_slash c ?_ ((plain part mem).chars c mem_part)
  simpa [Kind.isSeparator, Kind.isSpecial] using separates

theorem pathAfterAuthority_eq (text : List Char) :
    Kind.web.pathAfterAuthority text =
      pathOf Kind.web.isSeparator (dropSlash Kind.web.isSeparator text) := by
  unfold Kind.pathAfterAuthority
  rw [if_neg (by simp [Kind.isSpecial])]

theorem pathAfterAuthority_append {text : List Char} (bare : IsBare text)
    (starts : text = [] ∨ ∃ rest, text = '/' :: rest) (ends : text.getLast? ≠ some '/')
    (nonempty : parts ≠ []) (plain : ∀ part ∈ parts, IsPlain part) :
    Kind.web.pathAfterAuthority (text ++ joinSegments parts) =
      withoutSlash (Kind.web.pathAfterAuthority text) ++ joinSegments parts := by
  have free := not_isSeparator_of_plain plain
  have slash : Kind.web.isSeparator '/' = true := by decide
  rw [pathAfterAuthority_eq, pathAfterAuthority_eq]
  rcases starts with rfl | ⟨rest, rfl⟩
  · cases parts with
    | nil => exact absurd rfl nonempty
    | cons part others => exact pathOf_join slash free fun next mem => (plain next mem).settled
  · have visible : rest ≠ [] := by
      rintro rfl
      exact ends rfl
    refine pathOf_append slash visible ?_ nonempty free plain
    intro c last
    rw [← List.singleton_append, List.getLast?_append_of_ne_nil _ visible] at ends
    have mem : c ∈ '/' :: rest := List.mem_cons_of_mem _ (List.mem_of_getLast? last)
    have no_backslash : c ≠ '\\' := by
      rintro rfl
      exact bare.not_mem (by decide) mem
    have no_slash : c ≠ '/' := by
      rintro rfl
      exact ends last
    simp [Kind.isSeparator, no_slash, no_backslash]

theorem isBare_join (plain : ∀ part ∈ parts, IsPlain part) : IsBare (joinSegments parts) := by
  have signs : ∀ d ∈ bareSigns, ¬(d.isAlphanum = true ∨ d = '-') := Text.forall_of_all (by decide)
  intro c mem
  obtain ⟨part, mem_parts, mem⟩ := List.mem_flatMap.1 mem
  rcases List.mem_cons.1 mem with rfl | inside
  · decide
  · have listed := (plain part mem_parts).chars c inside
    refine ⟨fun sign => signs c sign listed, ?_⟩
    rw [← Bool.not_eq_true]
    exact fun low => Text.forall_ascii (q := fun c => ¬(c.isAlphanum = true ∨ c = '-')) (by decide)
      (toNat_lt_of_isOuterBlank low) listed

theorem path_ne_nil {text : String} {u : Url} (parsed : parse text = .ok u)
    (web : kindOf u.scheme = .web) : u.path.toList ≠ [] := by
  obtain ⟨rest, -, parsed_web⟩ := parse_web parsed web
  obtain ⟨⟨a, rest⟩, -, made⟩ := Result.bind_eq_ok.1 parsed_web
  rw [← Except.ok.inj made]
  simp only [Tail.url, String.toList_ofList, web, pathAfterAuthority_eq]
  exact pathOf_ne_nil _ _

theorem pathBehind_append {scheme : String} {text : List Char} {u : Url}
    (web : kindOf scheme = .web) (parsed : parseWeb scheme text = .ok u) (bare : IsBare text)
    (ends : text.getLast? ≠ some '/') (nonempty : parts ≠ [])
    (plain : ∀ part ∈ parts, IsPlain part) :
    Kind.web.pathAfterAuthority (webBehind (text ++ joinSegments parts)) =
      withoutSlash (Kind.web.pathAfterAuthority (webBehind text)) ++ joinSegments parts := by
  have some_host : text.dropWhile Kind.web.isSeparator ≠ [] := by
    obtain ⟨-, ⟨a, -, read⟩, -⟩ := parseWeb_eq_ok web parsed
    intro empty
    unfold webInside at read
    rw [empty] at read
    exact not_authorityIn_nil read
  have behind : webBehind (text ++ joinSegments parts) = webBehind text ++ joinSegments parts := by
    cases parts with
    | nil => exact absurd rfl nonempty
    | cons part others => exact webBehind_append some_host (part ++ joinSegments others)
  rw [behind]
  exact pathAfterAuthority_append (bare.subset (webBehind_suffix text).subset)
    (webBehind_cases bare) (getLast?_ne_of_suffix (webBehind_suffix text) ends) nonempty plain

/-- Plain segments behind the text of a web address are put behind its path, less a slash at the
end of that path; nothing else changes. -/
theorem parse_append_plain {text : String} {u v : Url} (parsed : parse text = .ok u)
    (web : kindOf u.scheme = .web) (bare : IsBare text.toList)
    (ends : text.toList.getLast? ≠ some '/') (nonempty : parts ≠ [])
    (plain : ∀ part ∈ parts, IsPlain part)
    (joined : parse (text ++ String.ofList (joinSegments parts)) = .ok v) :
    v = { u with path := String.ofList (withoutSlash u.path.toList ++ joinSegments parts) } ∧
      u.query = none ∧ u.fragment = none := by
  have off : ∀ c ∈ (String.ofList (joinSegments parts)).toList.head?, setsOff c = true := by
    rw [String.toList_ofList]
    cases parts with
    | nil => exact absurd rfl nonempty
    | cons part others =>
      rintro _ ⟨⟩
      decide
  have bare_whole : IsBare (text.toList ++ joinSegments parts) := bare.append (isBare_join plain)
  obtain ⟨rest, split, parsed_web⟩ := parse_web parsed web
  rw [clean_of_visible fun c mem => (bare c mem).2] at split
  -- Scheme and authority end in front of the parts, so the two addresses differ in their path alone.
  obtain ⟨scheme, authority⟩ := parse_append parsed web off joined
  obtain ⟨rest_joined, split_joined, joined_web⟩ := parse_web joined (scheme ▸ web)
  rw [String.toList_append, String.toList_ofList,
    clean_of_visible fun c mem => (bare_whole c mem).2, splitScheme?_append split] at split_joined
  obtain ⟨-, rfl⟩ := Prod.mk.inj (Option.some.inj split_joined)
  have suffix := suffix_of_splitScheme split
  have bare_rest : IsBare rest := bare.subset suffix.subset
  obtain ⟨path, query, fragment⟩ := parseWeb_of_bare web bare_rest parsed_web
  obtain ⟨path_joined, query_joined, fragment_joined⟩ :=
    parseWeb_of_bare (scheme ▸ web) (bare_rest.append (isBare_join plain)) joined_web
  have grown := pathBehind_append web parsed_web bare_rest (getLast?_ne_of_suffix suffix ends)
    nonempty plain
  refine ⟨?_, query, fragment⟩
  rw [grown] at path_joined
  cases v
  cases u
  simp only at scheme authority path query fragment path_joined query_joined fragment_joined ⊢
  rw [scheme, authority, path_joined, query_joined, fragment_joined, path, query, fragment,
    String.toList_ofList]

end Behind

end PetClient.Url
