import PetClient.Proofs.Dict
import PetClient.Proofs.Fields
import PetClient.Proofs.Json.Composite

/-!
Merged fields.  Of the names that differ in case alone every merge keeps the last, so a
configuration comes to the greatest spelling of each name, with its value, and to the token in place
of all spellings of `Authorization`.  The order of spellings is the one of their bytes; the order of
the calls that configured them only decides between two values of one spelling.
-/

namespace PetClient

/-! ### The last of several entries -/

def IsLast (alike : String → String → Prop) (sources : List (String × String))
    (e : String × String) : Prop :=
  ∃ before after, sources = before ++ e :: after ∧ ∀ later ∈ after, ¬alike e.1 later.1

namespace IsLast

variable {alike : String → String → Prop} {sources first second : List (String × String)}
  {e source : String × String}

theorem mem (last : IsLast alike sources e) : e ∈ sources := by
  obtain ⟨before, after, rfl, -⟩ := last
  exact List.mem_append_right _ (List.mem_cons_self ..)

theorem nil : ¬IsLast alike [] e :=
  fun last => List.not_mem_nil last.mem

theorem cons_iff : IsLast alike (source :: sources) e ↔
    IsLast alike sources e ∨ e = source ∧ ∀ later ∈ sources, ¬alike e.1 later.1 := by
  constructor
  · rintro ⟨before, after, parts, apart⟩
    cases before with
    | nil =>
      obtain ⟨rfl, rfl⟩ := List.cons.inj parts
      exact .inr ⟨rfl, apart⟩
    | cons first before => exact .inl ⟨before, after, (List.cons.inj parts).2, apart⟩
  · rintro (⟨before, after, rfl, apart⟩ | ⟨rfl, apart⟩)
    · exact ⟨source :: before, after, rfl, apart⟩
    · exact ⟨[], sources, rfl, apart⟩

theorem singleton_iff : IsLast alike [source] e ↔ e = source := by
  rw [cons_iff]
  simp [nil]

theorem append_iff : IsLast alike (first ++ second) e ↔
    IsLast alike second e ∨ IsLast alike first e ∧ ∀ later ∈ second, ¬alike e.1 later.1 := by
  induction first with
  | nil => simp [nil]
  | cons source first ih =>
    rw [List.cons_append, cons_iff, cons_iff, ih]
    simp only [List.mem_append]
    constructor
    · rintro ((last | ⟨last, apart⟩) | ⟨same, apart⟩)
      · exact .inl last
      · exact .inr ⟨.inl last, apart⟩
      · exact .inr ⟨.inr ⟨same, fun later mem => apart later (.inl mem)⟩,
          fun later mem => apart later (.inr mem)⟩
    · rintro (last | ⟨last | ⟨same, apart⟩, apart'⟩)
      · exact .inl (.inl last)
      · exact .inl (.inr ⟨last, apart'⟩)
      · exact .inr ⟨same, fun later mem => mem.elim (apart later) (apart' later)⟩

theorem exists_of_mem (alike : String → String → Prop) {name : String}
    (shares : ∀ {a b : String}, alike a b → alike a name → alike b name)
    (occurs : ∃ source ∈ sources, alike source.1 name) :
    ∃ e, IsLast alike sources e ∧ alike e.1 name := by
  -- The first entry is the last one of its name unless the name occurs again behind it.
  induction sources with
  | nil => simp at occurs
  | cons source rest ih =>
    by_cases again : ∃ later ∈ rest, alike later.1 name
    · obtain ⟨e, last, same⟩ := ih again
      exact ⟨e, cons_iff.2 (.inl last), same⟩
    · have same : alike source.1 name := by
        obtain ⟨other, mem, same⟩ := occurs
        rcases List.mem_cons.1 mem with rfl | later
        · exact same
        · exact absurd ⟨other, later, same⟩ again
      refine ⟨source, cons_iff.2 (.inr ⟨rfl, ?_⟩), same⟩
      intro later mem same'
      exact again ⟨later, mem, shares same' same⟩

/-- When each step puts its entry in place of those with a name that is alike, the last ones are
left. -/
theorem mem_foldl (alike : String → String → Prop)
    {step : Dict String → String × String → Dict String}
    (mem_step : ∀ {d : Dict String} {source e : String × String},
      e ∈ (step d source).entries ↔ e = source ∨ e ∈ d.entries ∧ ¬alike e.1 source.1)
    {d : Dict String} :
    e ∈ (sources.foldl step d).entries ↔
      IsLast alike sources e ∨ e ∈ d.entries ∧ ∀ later ∈ sources, ¬alike e.1 later.1 := by
  induction sources generalizing d with
  | nil => simp [nil]
  | cons source sources ih =>
    rw [List.foldl_cons, ih, mem_step, cons_iff]
    simp only [List.forall_mem_cons]
    tauto

end IsLast

namespace Config

theorem sameName_symm {a b : String} (same : sameName a b) : sameName b a :=
  sameName_iff.2 (sameName_iff.1 same).symm

theorem sameName_trans {a b c : String} (same : sameName a b) (same' : sameName b c) :
    sameName a c :=
  sameName_iff.2 ((sameName_iff.1 same).trans (sameName_iff.1 same'))

/-! ### What is merged -/

theorem mem_effectiveHeaders {c : Config} {e : String × String} :
    e ∈ c.effectiveHeaders.entries ↔ IsLast (sameName · ·) c.headerSources e := by
  have empty : e ∉ (∅ : Dict String).entries := List.not_mem_nil
  unfold effectiveHeaders
  rw [IsLast.mem_foldl (sameName · ·) mem_mergeHeader]
  simp only [empty, false_and, or_false]

/-- Among ordered entries the last spelling is the greatest. -/
theorem isLast_entries {d : Dict String} {e : String × String} :
    IsLast (sameName · ·) d.entries e ↔
      e ∈ d.entries ∧ ∀ other ∈ d.entries, sameName other.1 e.1 → other = e ∨ other.1 < e.1 := by
  constructor
  · intro last
    refine ⟨last.mem, ?_⟩
    obtain ⟨before, after, parts, apart⟩ := last
    intro other mem same
    rw [parts] at mem
    rcases List.mem_append.1 mem with earlier | later
    · exact .inr (Json.lt_of_parts parts.symm other earlier)
    · rcases List.mem_cons.1 later with rfl | later
      · exact .inl rfl
      · exact absurd (sameName_symm same) (apart other later)
  · rintro ⟨mem, greatest⟩
    obtain ⟨before, after, parts⟩ := List.append_of_mem mem
    refine ⟨before, after, parts, fun later later_mem same => ?_⟩
    have above : e.1 < later.1 := by
      have sorted := d.sorted
      rw [parts] at sorted
      exact (List.pairwise_cons.1 (List.pairwise_append.1 sorted).2.1).1 later later_mem
    have mem_later : later ∈ d.entries := by
      rw [parts]
      exact List.mem_append_right _ (List.mem_cons_of_mem _ later_mem)
    rcases greatest later mem_later (sameName_symm same) with rfl | below
    · exact String.lt_irrefl _ above
    · exact String.lt_asymm above below

theorem headerSources_cases (c : Config) :
    (∃ token, c.token = some token ∧ token ≠ "" ∧
      c.headerSources = c.headers.entries ++ [("Authorization", "Bearer " ++ token)]) ∨
    (¬∃ token, c.token = some token ∧ token ≠ "") ∧ c.headerSources = c.headers.entries := by
  unfold headerSources authorization
  cases c.token with
  | none => simp
  | some token =>
    by_cases empty : token = ""
    · simp [empty]
    · simp [empty]

/-! ### Merging again -/

/-- Entries that no two names of are alike are merged one behind the other. -/
theorem foldl_mergeHeader {whole before : Dict String} {entries : List (String × String)}
    (parts : before.entries ++ entries = whole.entries) (differ : NamesDiffer whole) :
    entries.foldl mergeHeader before = whole := by
  induction entries generalizing before with
  | nil =>
    cases before
    cases whole
    simpa using parts
  | cons e entries ih =>
    have above := Json.lt_of_parts parts
    -- Nothing in front is alike, so the step removes nothing and the entry goes to the end.
    have kept : (before.filterKeys fun name => !sameName name e.1).entries = before.entries := by
      refine List.filter_eq_self.2 fun old mem => ?_
      rw [Bool.not_eq_true', ← Bool.not_eq_true]
      intro same
      have mem_whole : old ∈ whole.entries := parts ▸ List.mem_append_left _ mem
      have e_whole : e ∈ whole.entries :=
        parts ▸ List.mem_append_right _ (List.mem_cons_self ..)
      have below := above old mem
      rw [differ old mem_whole e e_whole same] at below
      exact String.lt_irrefl _ below
    have merged : (mergeHeader before e).entries = before.entries ++ [e] := by
      unfold mergeHeader Dict.insert
      simp only [kept]
      exact Json.insertEntry_append above
    exact ih (by rw [merged, List.append_assoc, List.singleton_append, parts])

/-- What a configuration comes to when its merged fields are all that it is given. -/
def shown (config : Config) : Config where
  baseUrl := config.baseUrl
  headers := config.effectiveHeaders

theorem effectiveHeaders_shown (config : Config) :
    config.shown.effectiveHeaders = config.effectiveHeaders := by
  have sources : config.shown.headerSources = config.effectiveHeaders.entries :=
    List.append_nil _
  unfold effectiveHeaders
  rw [sources]
  exact foldl_mergeHeader rfl config.names_differ_effectiveHeaders

theorem sameName_authorization : sameName "Authorization" "authorization" := by
  cbv

theorem mem_authorization {c : Config} {token : String}
    (sources : c.headerSources = c.headers.entries ++ [("Authorization", "Bearer " ++ token)])
    {e : String × String} :
    e ∈ c.effectiveHeaders.entries ∧ sameName e.1 "authorization" ↔
      e = ("Authorization", "Bearer " ++ token) := by
  rw [mem_effectiveHeaders, sources, IsLast.append_iff, IsLast.singleton_iff]
  constructor
  · rintro ⟨last | ⟨-, apart⟩, same⟩
    · exact last
    · exact absurd (sameName_trans same (sameName_symm sameName_authorization))
        (apart _ (List.mem_singleton_self _))
  · rintro rfl
    exact ⟨.inl rfl, sameName_authorization⟩

theorem mem_effectiveHeaders_of_apart {c : Config} {e : String × String}
    (apart : (∃ token, c.token = some token ∧ token ≠ "") → ¬sameName e.1 "authorization") :
    e ∈ c.effectiveHeaders.entries ↔ IsLast (sameName · ·) c.headers.entries e := by
  rw [mem_effectiveHeaders]
  rcases c.headerSources_cases with ⟨token, given, nonempty, sources⟩ | ⟨-, sources⟩
  · have other : ¬sameName e.1 "Authorization" := by
      intro same
      apply apart ⟨token, given, nonempty⟩
      exact sameName_trans same sameName_authorization
    rw [sources, IsLast.append_iff, IsLast.singleton_iff, List.forall_mem_singleton]
    constructor
    · rintro (rfl | ⟨last, -⟩)
      · exact absurd (sameName_iff.2 rfl) other
      · exact last
    · exact fun last => .inr ⟨last, other⟩
  · rw [sources]

theorem exists_effectiveHeader_iff {c : Config} {name : String} :
    (∃ e ∈ c.effectiveHeaders.entries, sameName e.1 name) ↔
      ∃ source ∈ c.headerSources, sameName source.1 name := by
  simp only [mem_effectiveHeaders]
  constructor
  · rintro ⟨e, last, same⟩
    exact ⟨e, last.mem, same⟩
  · exact IsLast.exists_of_mem (sameName · ·) fun same same' =>
      sameName_trans (sameName_symm same) same'

/-- The fields of a configuration, by their entries.  No two names differ in case alone.  A name
occurs when it is configured in some spelling, or is that of the token, if there is one; the token's
entry stands for all spellings of its name, and the configured spelling with the greatest bytes for
all spellings of any other.  Merged fields are merged to themselves, and an empty token is none. -/
theorem one_entry_for_each_name (c : Config) :
    (c.effectiveHeaders.entries.Pairwise fun a b => ¬sameName a.1 b.1) ∧
    (∀ name, (∃ e ∈ c.effectiveHeaders.entries, sameName e.1 name) ↔
      (∃ e ∈ c.headers.entries, sameName e.1 name) ∨
        (∃ token, c.token = some token ∧ token ≠ "") ∧ sameName "authorization" name) ∧
    (∀ token, c.token = some token → token ≠ "" → ∀ e,
      e ∈ c.effectiveHeaders.entries ∧ sameName e.1 "authorization" ↔
        e = ("Authorization", "Bearer " ++ token)) ∧
    (∀ e, ((∃ token, c.token = some token ∧ token ≠ "") → ¬sameName e.1 "authorization") →
      (e ∈ c.effectiveHeaders.entries ↔
        e ∈ c.headers.entries ∧ ∀ other ∈ c.headers.entries, sameName other.1 e.1 →
          other = e ∨ Utf8.bytesOf other.1 < Utf8.bytesOf e.1)) ∧
    ({ c with headers := c.effectiveHeaders, token := none } : Config).effectiveHeaders =
      c.effectiveHeaders ∧
    (c.withToken "").effectiveHeaders = ({ c with token := none } : Config).effectiveHeaders := by
  refine ⟨?_, ?_, ?_, ?_, c.effectiveHeaders_shown, rfl⟩
  · apply (Client.pairwise_effectiveHeaders c).imp
    intro a b apart same
    exact apart (sameName_iff.1 same)
  · intro name
    rw [exists_effectiveHeader_iff]
    rcases c.headerSources_cases with ⟨token, given, nonempty, sources⟩ | ⟨absent, sources⟩
    · have known : ∃ token, c.token = some token ∧ token ≠ "" := ⟨token, given, nonempty⟩
      have spelling : sameName "Authorization" name ↔ sameName "authorization" name :=
        ⟨sameName_trans (sameName_symm sameName_authorization),
          sameName_trans sameName_authorization⟩
      rw [sources]
      simp only [List.mem_append, List.mem_singleton, or_and_right, exists_or, exists_eq_left,
        spelling, known, true_and]
    · rw [sources]
      simp only [absent, false_and, or_false]
  · intro token given nonempty e
    rcases c.headerSources_cases with ⟨token', given', -, sources⟩ | ⟨absent, -⟩
    · rw [given] at given'
      cases given'
      exact mem_authorization sources
    · exact absurd ⟨token, given, nonempty⟩ absent
  · intro e apart
    rw [mem_effectiveHeaders_of_apart apart, isLast_entries]
    simp only [Utf8.bytesOf_lt_iff]

/-- Of two spellings of one name the greater stays, and the token replaces what is configured in its
place, though that is spelled in another way. -/
theorem one_entry_for_each_name_spelled :
    ∃ c : Config,
      c.headers.entries = [("AUTHORIZATION", "Basic"), ("X-A", "1"), ("x-a", "2")] ∧
      c.token = some "t" ∧
      ("x-a", "2") ∈ c.effectiveHeaders.entries ∧ ("X-A", "1") ∉ c.effectiveHeaders.entries ∧
      ("AUTHORIZATION", "Basic") ∉ c.effectiveHeaders.entries := by
  obtain ⟨c, entries, given⟩ : ∃ c : Config,
      c.headers.entries = [("AUTHORIZATION", "Basic"), ("X-A", "1"), ("x-a", "2")] ∧
        c.token = some "t" :=
    ⟨{ baseUrl := "", headers := ⟨_, by decide⟩, token := some "t" }, rfl, rfl⟩
  obtain ⟨-, -, token, others, -, -⟩ := one_entry_for_each_name c
  have lower : sameName "x-a" "authorization" = false := by cbv
  have upper : sameName "X-A" "authorization" = false := by cbv
  refine ⟨c, entries, given, ?_, ?_, ?_⟩
  · rw [others ("x-a", "2") (fun _ => Bool.not_eq_true _ ▸ lower), entries]
    have apart : sameName "AUTHORIZATION" "x-a" = false := by cbv
    simp [apart, show Utf8.bytesOf "X-A" < Utf8.bytesOf "x-a" by decide]
  · rw [others ("X-A", "1") (fun _ => Bool.not_eq_true _ ▸ upper), entries]
    rintro ⟨-, greatest⟩
    have below := greatest ("x-a", "2") (by simp) (by cbv)
    exact absurd below (by decide)
  · intro mem
    have only := (token "t" given (by decide) ("AUTHORIZATION", "Basic")).1 ⟨mem, by cbv⟩
    exact absurd only (by decide)

/-! ### Fields that are configured one after the other -/

def ofCalls (baseUrl : String) (calls : List (String × String)) : Config :=
  calls.foldl (fun c call => c.withHeader call.1 call.2) { baseUrl }

theorem ofCalls_eq (baseUrl : String) (calls : List (String × String)) :
    ofCalls baseUrl calls =
      { baseUrl, headers := calls.foldl (fun d call => d.insert call.1 call.2) ∅ } := by
  have from_any (c : Config) : calls.foldl (fun c call => c.withHeader call.1 call.2) c =
      { c with headers := calls.foldl (fun d call => d.insert call.1 call.2) c.headers } := by
    induction calls generalizing c with
    | nil => rfl
    | cons call rest ih => exact ih (c.withHeader call.1 call.2)
  exact from_any { baseUrl }

theorem token_ofCalls (baseUrl : String) (calls : List (String × String)) :
    (ofCalls baseUrl calls).token = none := by
  rw [ofCalls_eq]

theorem mem_headers_ofCalls {baseUrl : String} {calls : List (String × String)}
    {e : String × String} :
    e ∈ (ofCalls baseUrl calls).headers.entries ↔ IsLast (· = ·) calls e := by
  have empty : e ∉ (∅ : Dict String).entries := List.not_mem_nil
  rw [ofCalls_eq, IsLast.mem_foldl (· = ·) Dict.mem_insert]
  simp only [empty, false_and, or_false]

theorem mem_effectiveHeaders_ofCalls {baseUrl : String} {calls : List (String × String)}
    {e : String × String} :
    e ∈ (ofCalls baseUrl calls).effectiveHeaders.entries ↔
      IsLast (· = ·) calls e ∧
        ∀ call ∈ calls, sameName call.1 e.1 → call.1 = e.1 ∨ call.1 < e.1 := by
  have untouched : (∃ token, (ofCalls baseUrl calls).token = some token ∧ token ≠ "") →
      ¬sameName e.1 "authorization" := by
    rw [token_ofCalls]
    simp
  rw [mem_effectiveHeaders_of_apart untouched, isLast_entries, mem_headers_ofCalls]
  apply and_congr_right
  intro last
  constructor
  · intro greatest call mem same
    obtain ⟨other, last', spelled⟩ := IsLast.exists_of_mem (· = ·)
      (fun same same' => same.symm.trans same') ⟨call, mem, rfl⟩
    rw [← spelled] at same ⊢
    exact (greatest other (mem_headers_ofCalls.2 last') same).imp_left (congrArg Prod.fst)
  · intro greatest other mem same
    have called := mem_headers_ofCalls.1 mem
    apply (greatest other called.mem same).imp_left
    exact Dict.eq_of_key_eq mem (mem_headers_ofCalls.2 last)

/-- Of the spellings of one name that are configured the one with the greatest bytes counts, with
the value that it was given last.  So the last call for a name decides exactly when none of the
others has a greater spelling. -/
theorem greatest_spelling_counts (baseUrl : String) (calls : List (String × String)) :
    (∀ e, e ∈ (ofCalls baseUrl calls).effectiveHeaders.entries ↔
      (∃ before after, calls = before ++ e :: after ∧ ∀ later ∈ after, e.1 ≠ later.1) ∧
        ∀ call ∈ calls, sameName call.1 e.1 →
          call.1 = e.1 ∨ Utf8.bytesOf call.1 < Utf8.bytesOf e.1) ∧
    (∀ call ∈ calls, ∃! e,
      e ∈ (ofCalls baseUrl calls).effectiveHeaders.entries ∧ sameName e.1 call.1) ∧
    ∀ before last after, calls = before ++ last :: after →
      (∀ later ∈ after, ¬sameName last.1 later.1) →
        (last ∈ (ofCalls baseUrl calls).effectiveHeaders.entries ↔
          ∀ call ∈ calls, sameName call.1 last.1 →
            call.1 = last.1 ∨ Utf8.bytesOf call.1 < Utf8.bytesOf last.1) := by
  simp only [Utf8.bytesOf_lt_iff]
  refine ⟨fun e => mem_effectiveHeaders_ofCalls, ?_, ?_⟩
  · intro call mem
    obtain ⟨source, last, spelled⟩ := IsLast.exists_of_mem (· = ·)
      (fun same same' => same.symm.trans same') ⟨call, mem, rfl⟩
    have sources : (ofCalls baseUrl calls).headerSources = (ofCalls baseUrl calls).headers.entries := by
      unfold headerSources authorization
      rw [token_ofCalls]
      exact List.append_nil _
    have occurs : ∃ source ∈ (ofCalls baseUrl calls).headerSources, sameName source.1 call.1 := by
      rw [sources]
      exact ⟨source, mem_headers_ofCalls.2 last, sameName_iff.2 (congrArg _ spelled)⟩
    obtain ⟨e, e_mem, same⟩ := exists_effectiveHeader_iff.2 occurs
    refine ⟨e, ⟨e_mem, same⟩, ?_⟩
    rintro other ⟨other_mem, same'⟩
    exact names_differ_effectiveHeaders _ other other_mem e e_mem
      (sameName_trans same' (sameName_symm same))
  · intro before last after parts apart
    rw [mem_effectiveHeaders_ofCalls]
    apply and_iff_right
    refine ⟨before, after, parts, fun later mem same => ?_⟩
    exact apart later mem (sameName_iff.2 (congrArg _ same))

/-- The greater spelling stays, with its second value, though the other one is configured last. -/
theorem greatest_spelling_counts_mixed :
    let calls := [("x-a", "1"), ("x-a", "2"), ("X-A", "3")]
    ("x-a", "2") ∈ (ofCalls "" calls).effectiveHeaders.entries ∧
      ("X-A", "3") ∉ (ofCalls "" calls).effectiveHeaders.entries := by
  intro calls
  obtain ⟨counts, -, decides⟩ := greatest_spelling_counts "" calls
  constructor
  · refine (counts ("x-a", "2")).2 ⟨⟨[("x-a", "1")], [("X-A", "3")], rfl, by decide⟩, ?_⟩
    have below : Utf8.bytesOf "X-A" < Utf8.bytesOf "x-a" := by decide
    simp [calls, below]
  · rw [decides [("x-a", "1"), ("x-a", "2")] ("X-A", "3") [] rfl (by simp)]
    intro greatest
    have below := greatest ("x-a", "1") (by simp [calls]) (by cbv)
    exact absurd below (by decide)

/-- The last call for a name does not always decide its value. -/
theorem last_call_may_be_dropped :
    ¬∀ (baseUrl : String) (calls before after : List (String × String)) (last : String × String),
      calls = before ++ last :: after → (∀ later ∈ after, ¬sameName last.1 later.1) →
        ∃ e ∈ (ofCalls baseUrl calls).effectiveHeaders.entries,
          sameName e.1 last.1 ∧ e.2 = last.2 := by
  intro decides
  obtain ⟨e, mem, -, value⟩ := decides "http://pets.test" [("x-a", "1"), ("X-A", "2")]
    [("x-a", "1")] [] ("X-A", "2") rfl (by simp)
  obtain ⟨last, greatest⟩ := mem_effectiveHeaders_ofCalls.1 mem
  rcases List.mem_cons.1 last.mem with rfl | second
  · exact absurd value (by decide)
  · cases List.mem_singleton.1 second
    have below := greatest ("x-a", "1") (by simp) (by cbv)
    exact absurd below (by decide)

end Config

end PetClient
