import PetClient.Proofs.Origin
import PetClient.Proofs.Url.Form

/-!
The parts of an address in its text: the question mark and the number sign stand only where they
start the query and the fragment, whatever kind of address it is.
-/

namespace PetClient

def SignFree (text : List Char) : Prop :=
  ∀ c ∈ text, c ≠ '?' ∧ c ≠ '#'

theorem SignFree.append {first second : List Char} (free : SignFree first)
    (free' : SignFree second) : SignFree (first ++ second) := by
  intro c mem
  rcases List.mem_append.1 mem with here | there
  · exact free c here
  · exact free' c there

theorem SignFree.cons {c : Char} {text : List Char} (other : c ≠ '?' ∧ c ≠ '#')
    (free : SignFree text) : SignFree (c :: text) := by
  intro d mem
  rcases List.mem_cons.1 mem with rfl | later
  · exact other
  · exact free d later

theorem SignFree.nil : SignFree [] := by
  intro c mem
  cases mem

theorem SignFree.of_not_mem {text : List Char} (question : '?' ∉ text) (number : '#' ∉ text) :
    SignFree text := by
  intro c mem
  refine ⟨?_, ?_⟩
  · rintro rfl
    exact question mem
  · rintro rfl
    exact number mem

namespace Url

/-- The signs that start the query and the fragment are encoded or taken out everywhere else. -/
structure Separated (u : Url) : Prop where
  front : SignFree (u.originChars ++ u.path.toList)
  query : ∀ query, u.query = some query → '#' ∉ query.toList

/-! ### Authorities -/

theorem signFree_percentEncode {encoded : Char → Bool} {text : List Char} (free : SignFree text) :
    SignFree (percentEncode encoded text) := by
  have digits : ∀ c ∈ hexSigns, c ≠ '?' ∧ c ≠ '#' := Text.forall_of_all (by decide)
  intro c mem
  rcases mem_of_mem_percentEncode mem with before | rfl | digit
  · exact free c before
  · decide
  · exact digits c digit

theorem signFree_credentials (login : List Char) :
    SignFree (credentials login).1.toList ∧ SignFree (credentials login).2.toList := by
  have encoded (text : List Char) : SignFree (percentEncode encodedInCredentials text) :=
    .of_not_mem (fun mem => not_mem_addressSigns_of_credentials mem (by decide))
      (fun mem => not_mem_addressSigns_of_credentials mem (by decide))
  simp only [credentials, String.toList_ofList]
  exact ⟨encoded _, encoded _⟩

end Url

theorem Host.Proper.signFree {host : Host} (proper : host.Proper) : SignFree host.chars :=
  .of_not_mem (Host.Proper.not_mem_chars proper (by decide))
    (Host.Proper.not_mem_chars proper (by decide))

namespace Authority

variable {a : Authority}

theorem signFree_portChars (a : Authority) : SignFree a.portChars :=
  .of_not_mem (a.not_mem_portChars (by decide)) (a.not_mem_portChars (by decide))

theorem signFree_credentialChars (username : SignFree a.username.toList)
    (password : SignFree a.password.toList) : SignFree a.credentialChars := by
  have login : SignFree a.loginChars := by
    unfold loginChars
    refine username.append ?_
    split
    · exact .nil
    · exact password.cons (by decide)
  rcases a.credentialChars_eq with ⟨none, -⟩ | some
  · rw [none]
    exact .nil
  · rw [some]
    exact login.append (SignFree.nil.cons (by decide))

theorem signFree_chars (username : SignFree a.username.toList)
    (password : SignFree a.password.toList)
    (host : ∀ host, a.host = some host → SignFree host.chars) : SignFree a.chars := by
  have host_free : SignFree a.hostChars := by
    unfold hostChars
    cases known : a.host with
    | none => exact .nil
    | some name => exact host name known
  exact ((signFree_credentialChars username password).append host_free).append a.signFree_portChars

end Authority

namespace Url

theorem signFree_unknownHost {text : List Char} {host : Host}
    (read : unknownHost text = .ok (some host)) : SignFree host.chars := by
  have signs : isHostSign '?' = true ∧ isHostSign '#' = true := by cbv
  unfold unknownHost at read
  split at read
  · cases read
  · obtain ⟨known, bracketed, same⟩ := Result.map_eq_ok.1 read
    cases same
    exact (proper_bracketedHost bracketed).signFree
  · split at read
    · cases read
    · rename_i allowed
      cases read
      have none := List.any_eq_false.1 (Bool.eq_false_iff.2 allowed)
      simp only [Host.chars, String.toList_ofList]
      exact signFree_percentEncode
        (.of_not_mem (fun mem => none _ mem signs.1) (fun mem => none _ mem signs.2))

theorem signFree_authority {scheme : String} {text rest : List Char} {a : Authority}
    (split : splitAuthority scheme text = .ok (a, rest)) : SignFree a.chars := by
  obtain ⟨host, port, left, -, known, -, rfl, -⟩ := splitAuthority_eq_ok split
  have login := signFree_credentials (splitLogin ((kindOf scheme).inside text)).1
  refine Authority.signFree_chars login.1 login.2 fun name same => ?_
  split at known
  · obtain ⟨read, proper, same_read⟩ := Result.map_eq_ok.1 known
    cases same_read.trans same
    exact (proper_knownHost proper).signFree
  · exact signFree_unknownHost (known.trans (congrArg Except.ok same))

/-! ### Schemes and paths -/

theorem signFree_splitScheme {text rest : List Char} {scheme : String}
    (split : splitScheme? text = some (scheme, rest)) : SignFree scheme.toList := by
  have signs : ∀ sign ∈ ['?', '#'], isSchemeChar sign = false ∧ sign.isLower = false :=
    Text.forall_of_all (by decide)
  obtain ⟨c, others, -, plain, -, rfl⟩ := splitScheme?_eq_some.1 split
  have absent (sign : Char) (listed : sign ∈ ['?', '#']) :
      sign ∉ (c :: others).map Char.toLower := by
    intro mem
    obtain ⟨d, mem_front, same⟩ := List.mem_map.1 mem
    have plain_d := plain d mem_front
    by_cases upper : d.isUpper = true
    · have lower : d.toLower.isLower = true := by
        rw [Char.isLower_toLower_eq_isAlpha, Char.isAlpha, upper]
        rfl
      rw [same, (signs sign listed).2] at lower
      cases lower
    · rw [Char.toLower_eq_of_not_isUpper upper] at same
      rw [same, (signs sign listed).1] at plain_d
      cases plain_d
  rw [String.toList_ofList]
  exact .of_not_mem (absent '?' (by decide)) (absent '#' (by decide))

theorem signFree_encodedPath (text : List Char) : SignFree (percentEncode encodedInPath text) := by
  have encoded : encodedInPath '?' = true ∧ encodedInPath '#' = true := by cbv
  exact .of_not_mem (not_mem_percentEncode encoded.1 (by decide) (by decide))
    (not_mem_percentEncode encoded.2 (by decide) (by decide))

theorem signFree_pathOf (isSeparator : Char → Bool) (text : List Char) :
    SignFree (pathOf isSeparator text) :=
  forall_mem_pathOf (by decide) signFree_encodedPath

theorem signFree_pathAfterAuthority (kind : Kind) (text : List Char) :
    SignFree (kind.pathAfterAuthority text) := by
  unfold Kind.pathAfterAuthority
  split
  · exact .nil
  · exact signFree_pathOf _ _

theorem signFree_filePath (text : List Char) : SignFree (filePath text).1 := by
  unfold filePath
  simp only
  split
  · rename_i first rest parts
    have written : ∀ part ∈ first :: rest, SignFree part := by
      rw [← parts]
      intro part mem
      obtain ⟨segment, -, rfl⟩ := List.mem_map.1 mem
      exact signFree_encodedPath segment
    have drive : SignFree (if isDrive first then first.take 1 ++ [':'] else first) := by
      have plain := written first (List.mem_cons_self ..)
      split
      · exact SignFree.append (fun c mem => plain c (List.mem_of_mem_take mem))
          (SignFree.nil.cons (by decide))
      · exact plain
    have all : ∀ part ∈ (if isDrive first then first.take 1 ++ [':'] else first) :: rest,
        SignFree part :=
      List.forall_mem_cons.2 ⟨drive, fun part mem => written part (List.mem_cons_of_mem _ mem)⟩
    have whole : SignFree _ := forall_mem_resolve (by decide) all
    exact SignFree.cons (by decide)
      fun c mem => whole c ((List.dropWhile_sublist _).subset mem)
  · exact SignFree.nil.cons (by decide)

/-! ### Addresses -/

theorem signFree_tailPath (text : List Char) : SignFree (Tail.ofText text).path := by
  intro c mem
  have no_question := List.all_eq_true.1 List.all_takeWhile c mem
  have no_number := List.all_eq_true.1 List.all_takeWhile c ((List.takeWhile_sublist _).subset mem)
  exact ⟨bne_iff_ne.1 no_question, bne_iff_ne.1 no_number⟩

theorem signFree_originChars {u : Url} (plain : SignFree u.scheme.toList)
    (authority_free : ∀ a, u.authority = some a → SignFree a.chars) : SignFree u.originChars := by
  unfold originChars
  refine plain.append (SignFree.cons (by decide) ?_)
  split
  · rename_i a known
    exact ((authority_free a known).cons (by decide)).cons (by decide)
  · split
    · exact (SignFree.nil.cons (by decide)).cons (by decide)
    · exact .nil

theorem separated_url (tail : Tail) {scheme : String} {authority : Option Authority}
    {path : List Char} (plain : SignFree scheme.toList)
    (authority_free : ∀ a, authority = some a → SignFree a.chars) (path_free : SignFree path) :
    (tail.url scheme authority path).Separated := by
  constructor
  · refine (signFree_originChars plain authority_free).append ?_
    simpa only [Tail.url, String.toList_ofList] using path_free
  · intro query known
    obtain ⟨written, -, rfl⟩ := Option.map_eq_some_iff.1 known
    rw [String.toList_ofList]
    refine not_mem_percentEncode ?_ (by decide) (by decide)
    have listed : (isControl '#' || " \"#<>".contains '#') = true := by cbv
    unfold encodedInQuery
    rw [listed]
    rfl

theorem separated_parseWeb {scheme : String} {text : List Char} {u : Url}
    (plain : SignFree scheme.toList) (parsed : parseWeb scheme text = .ok u) : u.Separated := by
  obtain ⟨⟨a, rest⟩, split, made⟩ := Result.bind_eq_ok.1 parsed
  cases made
  refine separated_url _ plain ?_ (signFree_pathAfterAuthority _ _)
  rintro _ ⟨⟩
  exact signFree_authority split

theorem separated_parseUnknown {scheme : String} {text : List Char} {u : Url}
    (plain : SignFree scheme.toList) (parsed : parseUnknown scheme text = .ok u) :
    u.Separated := by
  unfold parseUnknown at parsed
  split at parsed
  · obtain ⟨⟨a, rest⟩, split, made⟩ := Result.bind_eq_ok.1 parsed
    cases made
    refine separated_url _ plain ?_ (signFree_pathAfterAuthority _ _)
    rintro _ ⟨⟩
    exact signFree_authority split
  · cases parsed
    exact separated_url _ plain (by simp) (signFree_pathOf _ _)
  · cases parsed
    exact separated_url _ plain (by simp) (signFree_percentEncode (signFree_tailPath _))

theorem signFree_fileHost {text : List Char} {host : Host}
    (read : fileHost text = .ok (some host)) : SignFree host.chars := by
  unfold fileHost at read
  split at read
  · cases read
  · obtain ⟨known, proper, made⟩ := Result.bind_eq_ok.1 read
    split at made
    · cases made
    · cases made
      exact (proper_knownHost proper).signFree

theorem separated_parseFile {text : List Char} {u : Url} (parsed : parseFile text = .ok u) :
    u.Separated := by
  have plain : SignFree "file".toList := Text.forall_of_all (by cbv)
  obtain ⟨host, rest, named, rfl⟩ := parseFile_eq_ok parsed
  refine separated_url _ plain ?_ (signFree_filePath _)
  rintro _ ⟨⟩
  refine Authority.signFree_chars .nil .nil fun name known => ?_
  simp only at known
  split at known
  · cases known
  · obtain ⟨inside, read⟩ := named name known
    exact signFree_fileHost read

/-- The parts of an address that is parsed are apart in its text. -/
theorem separated_of_parse {text : String} {u : Url} (parsed : parse text = .ok u) :
    u.Separated := by
  unfold parse at parsed
  split at parsed
  · cases parsed
  · rename_i split
    have plain := signFree_splitScheme split
    split at parsed
    · exact separated_parseWeb plain parsed
    · exact separated_parseFile parsed
    · exact separated_parseUnknown plain parsed

/-- The parts stay apart when pairs are added to the query. -/
theorem Separated.addPairs {u : Url} (apart : u.Separated) (pairs : List (String × String)) :
    (u.addPairs pairs).Separated := by
  unfold Url.addPairs
  split
  · exact apart
  · refine ⟨apart.front, ?_⟩
    rintro _ ⟨⟩
    rw [String.toList_ofList]
    refine Form.not_mem_foldl_addPair ?_ pairs
    cases known : u.query with
    | none => exact List.not_mem_nil
    | some query => exact apart.query query known

end Url

end PetClient
