import PetClient.Proofs.Url.Parts

/-!
Targets that are read from the text of an address: the query is that of the address, and the whole
target is the text without the fragment.
-/

namespace PetClient

theorem SignFree.query_append {front : List Char} (free : SignFree front) (rest : List Char) :
    ((front ++ rest).takeWhile (· != '#')).dropWhile (· != '?') =
      (rest.takeWhile (· != '#')).dropWhile (· != '?') := by
  rw [List.takeWhile_append_of_pos fun c mem => bne_iff_ne.2 (free c mem).2,
    List.dropWhile_append_of_pos fun c mem => bne_iff_ne.2 (free c mem).1]

namespace Http.Target

def query? (t : Target) : Option String :=
  match t.path.toList.dropWhile (· != '?') with
  | [] => none
  | _ :: query => some (String.ofList query)

theorem splitScheme_eq_ok {text scheme rest : List Char}
    (split : splitScheme text = .ok (some scheme, rest)) :
    text = scheme ++ ':' :: '/' :: '/' :: rest ∧ ∀ c ∈ scheme, isSchemeChar c = true := by
  unfold splitScheme at split
  simp only at split
  split at split
  · rename_i behind
    split at split
    · cases split
    · cases split
      refine ⟨?_, List.all_eq_true.1 List.all_takeWhile⟩
      rw [← behind, List.takeWhile_append_dropWhile]
  · cases split

theorem readPath_eq_ok {text path : List Char} (read : readPath text = .ok path) :
    let kept := text.takeWhile (· != '#')
    path = (if (kept.takeWhile (· != '?')).isEmpty then ['/'] else kept.takeWhile (· != '?')) ++
      kept.dropWhile (· != '?') := by
  unfold readPath at read
  simp only at read ⊢
  split at read
  · cases read
    rfl
  · cases read

theorem query_readPath {text path : List Char} (read : readPath text = .ok path) :
    path.dropWhile (· != '?') = (text.takeWhile (· != '#')).dropWhile (· != '?') := by
  rw [readPath_eq_ok read]
  generalize text.takeWhile (· != '#') = kept
  have free : ∀ c ∈ (if (kept.takeWhile (· != '?')).isEmpty then ['/']
      else kept.takeWhile (· != '?')), (c != '?') = true := by
    split
    · exact List.forall_mem_singleton.2 (by decide)
    · exact List.all_eq_true.1 List.all_takeWhile
  rw [List.dropWhile_append_of_pos free, List.dropWhile_idempotent]

theorem signFree_of_isSchemeChar {text : List Char} (plain : ∀ c ∈ text, isSchemeChar c = true) :
    SignFree text :=
  .of_not_mem (fun mem => absurd (plain _ mem) (by decide))
    (fun mem => absurd (plain _ mem) (by decide))

theorem signFree_takeWhile (text : List Char) :
    SignFree (text.takeWhile fun c => !endsAuthority c) := by
  have inside : ∀ c ∈ text.takeWhile (fun c => !endsAuthority c), (!endsAuthority c) = true :=
    List.all_eq_true.1 List.all_takeWhile
  exact .of_not_mem (fun mem => absurd (inside _ mem) (by decide))
    (fun mem => absurd (inside _ mem) (by decide))

theorem parse_eq_ok_of_none {text : String} {rest : List Char} {t : Target}
    (split : splitScheme text.toList = .ok (none, rest)) (read : parse text = .ok t) :
    t.path = "" ∧ SignFree text.toList := by
  have whole : rest = text.toList := by
    unfold splitScheme at split
    simp only at split
    split at split
    · split at split <;> cases split
    · cases split
      rfl
  obtain ⟨-, _, _, first, -, -, cases⟩ := parse_cases read
  rw [split] at first
  cases first
  rcases cases with ⟨-, none_behind, empty⟩ | ⟨name, path, some, -⟩
  · refine ⟨empty, ?_⟩
    rw [← whole, ← List.takeWhile_append_dropWhile (p := fun c => !endsAuthority c) (l := rest),
      none_behind, List.append_nil]
    exact signFree_takeWhile rest
  · cases some

/-- The query of a target stands in the text between the first question mark and the first number
sign. -/
theorem query_parse {text : String} {t : Target} (read : parse text = .ok t) :
    t.path.toList.dropWhile (· != '?') =
      (text.toList.takeWhile (· != '#')).dropWhile (· != '?') := by
  obtain ⟨-, scheme, rest, split, -⟩ := parse_cases read
  cases scheme with
  | none =>
    obtain ⟨empty, free⟩ := parse_eq_ok_of_none split read
    have none := free.query_append []
    rw [List.append_nil] at none
    rw [empty, none]
    rfl
  | some scheme =>
    obtain ⟨path, found, rfl⟩ := parse_eq_ok split read
    obtain ⟨whole, plain⟩ := splitScheme_eq_ok split
    have slashes : SignFree [':', '/', '/'] :=
      ((SignFree.nil.cons (by decide)).cons (by decide)).cons (by decide)
    have front := ((signFree_of_isSchemeChar plain).append slashes).append (signFree_takeWhile rest)
    rw [String.toList_ofList, query_readPath found, ← front.query_append]
    simp only [List.append_assoc, List.takeWhile_append_dropWhile, whole, List.cons_append,
      List.nil_append]

end Http.Target

namespace Url

variable {u : Url}

theorem Separated.takeWhile_chars (apart : u.Separated) :
    u.chars.takeWhile (· != '#') = u.targetChars := by
  have free : ∀ c ∈ u.targetChars, (c != '#') = true := by
    intro c mem
    unfold targetChars at mem
    rcases List.mem_append.1 mem with front | query
    · exact bne_iff_ne.2 (apart.front c front).2
    · cases known : u.query with
      | none =>
        rw [known] at query
        cases query
      | some query_text =>
        rw [known] at query
        rcases List.mem_cons.1 query with rfl | inside
        · decide
        · exact Text.forall_bne_of_not_mem (apart.query query_text known) c inside
  unfold chars
  rw [List.takeWhile_append_of_pos free]
  cases u.fragment with
  | none => exact List.append_nil _
  | some fragment => exact List.append_nil _

theorem Separated.query_target (apart : u.Separated) {t : Http.Target}
    (read : Http.Target.parse u.text = .ok t) : t.query? = u.query := by
  have same := Http.Target.query_parse read
  rw [Url.text, String.toList_ofList, apart.takeWhile_chars] at same
  have query : u.targetChars.dropWhile (· != '?') = partChars '?' u.query := by
    unfold targetChars
    rw [List.dropWhile_append_of_pos fun c mem => bne_iff_ne.2 (apart.front c mem).1]
    cases u.query <;> rfl
  unfold Http.Target.query?
  rw [same, query]
  cases u.query with
  | none => rfl
  | some query => exact congrArg some (String.ofList_toList ..)

/-- A target that is read from the text of an address with a path is that text without the
fragment. -/
theorem Separated.text_target {a : Authority} {t : Http.Target} (apart : u.Separated)
    (known : u.authority = some a) (proper : a.Proper)
    (path : ∃ rest, u.path.toList = '/' :: rest)
    (plain : ∀ c ∈ u.scheme.toList, Http.Target.isSchemeChar c = true)
    (short : u.scheme.toList.length ≤ Http.Target.maxSchemeLength)
    (read : Http.Target.parse u.text = .ok t) : t.text.toList = u.targetChars := by
  obtain ⟨rest, slash⟩ := path
  obtain ⟨path_read, found, rfl⟩ := target_eq_ok known proper (.inr ⟨rest, slash⟩) plain short read
  have front : u.targetChars = u.scheme.toList ++ ':' :: '/' :: '/' ::
      (a.chars ++ (u.path.toList ++ partChars '?' u.query)) := by
    unfold targetChars originChars
    rw [known]
    simp
  have kept : u.tailChars.takeWhile (· != '#') = u.path.toList ++ partChars '?' u.query := by
    have split : u.chars = u.originChars ++ u.tailChars := by
      unfold chars targetChars tailChars
      simp
    have front_free : ∀ c ∈ u.originChars, (c != '#') = true :=
      fun c mem => bne_iff_ne.2 (apart.front c (List.mem_append_left _ mem)).2
    have whole := apart.takeWhile_chars
    unfold targetChars at whole
    rw [split, List.takeWhile_append_of_pos front_free, List.append_assoc] at whole
    exact List.append_cancel_left whole
  have nonempty :
      ((u.path.toList ++ partChars '?' u.query).takeWhile (· != '?')).isEmpty = false := by
    rw [slash]
    rfl
  have same := Http.Target.readPath_eq_ok found
  simp only [kept, nonempty, Bool.false_eq_true, if_false,
    List.takeWhile_append_dropWhile] at same
  unfold Http.Target.text
  simp [same, front]

end Url

end PetClient
