import PetClient.Proofs.Endpoints
import PetClient.Proofs.Outcome

/-!
The text of a target is what is recorded of its address, without the fragment, and it is made of
visible characters alone: whatever a base address, a path and pairs hold, none of it can end the line
that a target stands in.
-/

namespace PetClient

def Visible (text : List Char) : Prop :=
  ∀ c ∈ text, 0x21 ≤ c.toNat ∧ c.toNat ≤ 0x7E

namespace Visible

variable {first second text : List Char} {c : Char}

theorem append (visible : Visible first) (visible' : Visible second) :
    Visible (first ++ second) := by
  intro c mem
  rcases List.mem_append.1 mem with here | there
  · exact visible c here
  · exact visible' c there

theorem cons (seen : 0x21 ≤ c.toNat ∧ c.toNat ≤ 0x7E) (visible : Visible text) :
    Visible (c :: text) :=
  List.forall_mem_cons.2 ⟨seen, visible⟩

theorem nil : Visible [] := by
  intro c mem
  cases mem

theorem bytesOf {text : String} (visible : Visible text.toList) :
    ∀ b ∈ Utf8.bytesOf text, 0x21 ≤ b ∧ b ≤ 0x7E := by
  intro b mem
  obtain ⟨c, mem_text, mem_bytes⟩ := List.mem_flatMap.1 mem
  obtain ⟨low, high⟩ := visible c mem_text
  rw [Utf8.encodeChar_of_ascii (by omega), List.mem_singleton] at mem_bytes
  have number : b.toNat = c.toNat := by
    rw [mem_bytes, UInt8.toNat_ofNat_of_lt' (by simp only [UInt8.size]; omega)]
  rw [UInt8.le_iff_toNat_le, UInt8.le_iff_toNat_le, number]
  exact ⟨low, high⟩

end Visible

theorem visible_of_isAlphanum {c : Char} (plain : c.isAlphanum = true) :
    0x21 ≤ c.toNat ∧ c.toNat ≤ 0x7E := by
  have bounds := Url.toNat_bounds_of_isAlphanum plain
  omega

/-! ### Encoded parts -/

namespace Url

theorem visible_hexSigns : Visible hexSigns :=
  Text.forall_of_all (by decide)

theorem visible_percentEncode {encoded : Char → Bool} (blank : encoded ' ' = true)
    (controls : ∀ c, isControl c = true → encoded c = true) (text : List Char) :
    Visible (percentEncode encoded text) := by
  intro c mem
  rcases mem_percentEncode mem with ⟨-, kept⟩ | rfl | digit
  · have other : c.toNat ≠ 0x20 := by
      intro same
      rw [← Char.ofNat_toNat c, same] at kept
      exact absurd (blank.symm.trans kept) (by decide)
    have shown := mt (controls c) (Bool.eq_false_iff.1 kept)
    unfold isControl at shown
    simp only [Bool.or_eq_true, decide_eq_true_iff, not_or] at shown
    omega
  · decide
  · exact visible_hexSigns c digit

theorem visible_encodedPath (segment : List Char) :
    Visible (percentEncode encodedInPath segment) := by
  refine visible_percentEncode ?_ (fun c control => ?_) segment
  · rw [encodedInPath_eq]
    decide
  · rw [encodedInPath_eq, control]
    rfl

theorem visible_encodedQuery (special : Bool) (query : List Char) :
    Visible (percentEncode (encodedInQuery special) query) := by
  refine visible_percentEncode ?_ (fun c control => ?_) query
  · have listed : (isControl ' ' || " \"#<>".contains ' ') = true := by cbv
    unfold encodedInQuery
    rw [listed]
    rfl
  · unfold encodedInQuery
    rw [control]
    rfl

theorem Form.visible_encodeText (text : String) : Visible (encodeText text) := by
  have signs : Visible ['*', '-', '.', '_'] := Text.forall_of_all (by decide)
  intro c mem
  rcases mem_encodeText mem with plain | rfl | rfl | digit
  · unfold isPlain at plain
    simp only [Bool.or_eq_true, decide_eq_true_iff, or_assoc] at plain
    rcases plain with alphanum | sign
    · exact visible_of_isAlphanum alphanum
    · exact signs c (by simpa using sign)
  · decide
  · decide
  · exact visible_hexSigns c digit

theorem Form.visible_encodePair (pair : String × String) : Visible (encodePair pair) :=
  (visible_encodeText pair.1).append ((visible_encodeText pair.2).cons (by decide))

/-! ### Web addresses -/

theorem visible_of_web {text : String} {u : Url} (parsed : parse text = .ok u)
    (web : kindOf u.scheme = .web) :
    Visible u.path.toList ∧ ∀ query, u.query = some query → Visible query.toList := by
  obtain ⟨rest, -, parsed_web⟩ := parse_web parsed web
  obtain ⟨⟨a, rest⟩, -, made⟩ := Result.bind_eq_ok.1 parsed_web
  rw [← Except.ok.inj made]
  simp only [Tail.url, String.toList_ofList, web, pathAfterAuthority_eq]
  refine ⟨forall_mem_pathOf (by decide) visible_encodedPath, fun query known => ?_⟩
  obtain ⟨written, -, rfl⟩ := Option.map_eq_some_iff.1 known
  rw [String.toList_ofList]
  exact visible_encodedQuery _ written

theorem visible_addPairs {u : Url} (visible : ∀ query, u.query = some query → Visible query.toList)
    (pairs : List (String × String)) :
    Visible (partChars '?' (u.addPairs pairs).query) := by
  have written : Visible (((u.query.map String.toList).getD [])) := by
    cases known : u.query with
    | none => exact .nil
    | some query => exact visible query known
  unfold addPairs
  split
  · cases known : u.query with
    | none => exact .nil
    | some query => exact (visible query known).cons (by decide)
  · refine Visible.cons (by decide) ?_
    rw [String.toList_ofList]
    exact Form.forall_mem_foldl_addPair written (by decide) Form.visible_encodePair pairs

end Url

/-! ### Authorities -/

namespace Http.Target

theorem visible_add {s next : Seen} {c : Char} (added : s.add c = .ok next) :
    0x21 ≤ c.toNat ∧ c.toNat ≤ 0x7E := by
  have signs : Visible "!$&'()*+,-.;=_~".toList := Text.forall_of_all (by decide)
  unfold Seen.add at added
  simp only at added
  by_cases sign : c ∈ [':', '[', ']', '@', '%']
  · have seen : Visible [':', '[', ']', '@', '%'] := Text.forall_of_all (by decide)
    exact seen c sign
  · simp only [List.mem_cons, List.not_mem_nil, or_false, not_or] at sign
    obtain ⟨colon, opens, closes, at_sign, percent⟩ := sign
    rw [if_neg colon, if_neg opens, if_neg closes, if_neg at_sign, if_neg percent] at added
    split at added
    · rename_i allowed
      unfold isAuthorityChar at allowed
      rw [String.contains_char_eq, Bool.or_eq_true, decide_eq_true_iff] at allowed
      rcases allowed with plain | listed
      · exact visible_of_isAlphanum plain
      · exact signs c listed
    · cases added

theorem visible_foldlM {text : List Char} {s final : Seen}
    (read : text.foldlM Seen.add s = .ok final) : Visible text := by
  induction text generalizing s with
  | nil => exact .nil
  | cons c rest ih =>
    rw [List.foldlM_cons] at read
    obtain ⟨next, added, later⟩ := Result.bind_eq_ok.1 read
    exact (ih later).cons (visible_add added)

/-- The authority of a target is checked to be visible, and its text to be short. -/
theorem visible_authority {text : String} {t : Target} (read : parse text = .ok t) :
    Visible t.authority.toList ∧ (Utf8.bytesOf text).length ≤ maxLength := by
  obtain ⟨short, _, rest, -, checked, authority, -⟩ := parse_cases read
  obtain ⟨_, folded, -⟩ := Result.bind_eq_ok.1 checked
  rw [Utf8.length_bytesOf, authority, String.toList_ofList]
  exact ⟨visible_foldlM folded, short⟩

end Http.Target

/-! ### Targets -/

namespace Url

variable {u : Url} {text : String} {pairs : List (String × String)} {t : Http.Target}

theorem slash_of_target (parsed : parse text = .ok u) (web : u.scheme = "http" ∨ u.scheme = "https")
    (read : Http.Target.parse (u.addPairs pairs).text = .ok t) :
    (∃ a, u.authority = some a ∧ t.authority = String.ofList a.chars) ∧
      ∃ rest, t.path.toList = '/' :: rest := by
  obtain ⟨kind, plain, short⟩ := scheme_fits web
  obtain ⟨⟨a, known, proper⟩, starts⟩ := parts_of_web parsed kind
  obtain ⟨scheme, authority, path⟩ := u.parts_addPairs pairs
  obtain ⟨rest, slash⟩ := starts.resolve_left (path_ne_nil parsed kind)
  rw [← path] at slash
  obtain ⟨path_read, found, rfl⟩ := target_eq_ok (authority.trans known) proper (.inr ⟨rest, slash⟩)
    (scheme ▸ plain) (scheme ▸ short) read
  refine ⟨⟨a, known, rfl⟩, ?_⟩
  have written := Http.Target.readPath_eq_ok found
  simp only [tailChars, slash, List.cons_append] at written
  rw [String.toList_ofList, written]
  exact ⟨_, rfl⟩

theorem visible_target (parsed : parse text = .ok u) (web : u.scheme = "http" ∨ u.scheme = "https")
    (read : Http.Target.parse (u.addPairs pairs).text = .ok t) : Visible t.text.toList := by
  obtain ⟨⟨a, known, authority_read⟩, -⟩ := slash_of_target parsed web read
  obtain ⟨visible_path, visible_query⟩ := visible_of_web parsed (scheme_fits web).1
  obtain ⟨scheme, authority, path⟩ := u.parts_addPairs pairs
  have visible_scheme : Visible u.scheme.toList := by
    have known_schemes : Visible "http".toList ∧ Visible "https".toList :=
      ⟨Text.forall_of_all (by decide), Text.forall_of_all (by decide)⟩
    rcases web with same | same
    · exact same ▸ known_schemes.1
    · exact same ▸ known_schemes.2
  have visible_authority := (Http.Target.visible_authority read).1
  rw [authority_read, String.toList_ofList] at visible_authority
  rw [text_target_of_parse parsed web read]
  unfold targetChars originChars
  rw [scheme, authority, known, path]
  have slashes : Visible [':', '/', '/'] := Text.forall_of_all (by decide)
  exact ((visible_scheme.append (slashes.append visible_authority)).append visible_path).append
    (visible_addPairs visible_query pairs)

end Url

theorem Utf8.length_bytesOf_le {first second : String} (front : first.toList <+: second.toList) :
    (bytesOf first).length ≤ (bytesOf second).length := by
  obtain ⟨rest, whole⟩ := front
  unfold bytesOf
  rw [← whole, encode_append, List.length_append]
  exact Nat.le_add_right ..

namespace Call

variable {σ α : Type}

/-- Whatever a base address, a path and pairs hold: when they make a web address and the request is
sent, its target is the text of the address that is recorded, up to the first number sign.  It is
made of visible characters, holds no number sign, has a path behind a slash and is not too long. -/
theorem target_is_recorded_and_visible {config : Config} {client : Client}
    (built : Client.ofConfig config = .ok client) (call : Call α) {base : Url}
    (parsed : Url.parse (config.trimmedBaseUrl ++ call.path) = .ok base)
    (web : base.scheme = "http" ∨ base.scheme = "https") (transport : Transport σ) (state : σ) :
    ∀ request ∈ call.sent client transport state, ∃ address : String,
      address = (base.addPairs call.pairs).text ∧
      (call.perform client transport state).log.head? =
        some ⟨.debug, call.method.name ++ " " ++ address⟩ ∧
      request.target.text.toList = address.toList.takeWhile (· != '#') ∧
      (∀ b ∈ Utf8.bytesOf request.target.text, 0x21 ≤ b ∧ b ≤ 0x7E) ∧
      '#' ∉ request.target.text.toList ∧
      (∃ rest, request.target.path.toList = '/' :: rest) ∧
      (Utf8.bytesOf request.target.text).length ≤ 65534 := by
  intro request sent
  rw [sent_eq_requests, mem_requests] at sent
  obtain ⟨url, prepared⟩ := sent
  have performed : call.perform client transport state =
      call.settle url (transport.send request state) := (perform_of_ready (ready_iff.2 prepared)).1
  obtain ⟨body, again, target, -, parsed_again, rfl, read, rfl⟩ := prepare_eq_ok prepared
  rw [(Client.ofConfig_eq_ok built).1, parsed] at parsed_again
  cases parsed_again
  have written : target.text.toList =
      (base.addPairs call.pairs).text.toList.takeWhile (· != '#') := by
    rw [Url.text_target_of_parse parsed web read, Url.text, String.toList_ofList]
    exact ((Url.separated_of_parse parsed).addPairs call.pairs).takeWhile_chars.symm
  refine ⟨_, rfl, ?_, written, (Url.visible_target parsed web read).bytesOf, ?_,
    (Url.slash_of_target parsed web read).2, ?_⟩
  · rw [performed]
    unfold settle
    split <;> rfl
  · rw [written]
    intro mem
    exact absurd (List.all_eq_true.1 List.all_takeWhile _ mem) (by decide)
  · have short := (Http.Target.visible_authority read).2
    have front : target.text.toList <+: (base.addPairs call.pairs).text.toList := by
      rw [written]
      exact List.takeWhile_prefix _
    exact (Utf8.length_bytesOf_le front).trans short

/-- A line end within a path is left out, other signs are encoded, and the fragment is recorded but
not sent. -/
theorem target_is_recorded_and_visible_encoded :
    ∃ client, Client.ofConfig { baseUrl := "http://[::1]" } = .ok client ∧
      ∀ transport : Transport Unit,
        let call := getWithQuery Json.any "/a b\r\nHost: c?é#end" [("x y", "\r\n")]
        call.sent client transport () ≠ [] ∧
          (call.perform client transport ()).log.head? =
            some ⟨.debug, "GET http://[::1]/a%20bHost:%20c?%C3%A9&x+y=%0D%0A#end"⟩ ∧
          ∀ request ∈ call.sent client transport (),
            request.target.text = "http://[::1]/a%20bHost:%20c?%C3%A9&x+y=%0D%0A" ∧
              ∀ b ∈ Utf8.bytesOf request.target.text, 0x21 ≤ b ∧ b ≤ 0x7E := by
  let base : Url :=
    { scheme := "http"
      authority := some { host := some (.ipv6 [0, 0, 0, 0, 0, 0, 0, 1]) }
      path := "/a%20bHost:%20c"
      query := some "%C3%A9"
      fragment := some "end" }
  have built : Client.ofConfig { baseUrl := "http://[::1]" } = .ok ⟨"http://[::1]", []⟩ := by cbv
  have parsed : Url.parse (Config.trimmedBaseUrl { baseUrl := "http://[::1]" } ++
      "/a b\r\nHost: c?é#end") = .ok base := by cbv
  refine ⟨_, built, fun transport => ?_⟩
  intro call
  have line : call.method.name ++ " " ++ (base.addPairs call.pairs).text =
      "GET http://[::1]/a%20bHost:%20c?%C3%A9&x+y=%0D%0A#end" := by cbv
  have request_eq : call.requests ⟨"http://[::1]", []⟩ =
      [⟨.get, ⟨some "http", "[::1]", "/a%20bHost:%20c?%C3%A9&x+y=%0D%0A"⟩,
        [⟨"accept", "application/json", false⟩], []⟩] := by cbv
  have sent := (sent_eq_requests _ transport call ()).trans request_eq
  have all := target_is_recorded_and_visible built call parsed (.inl rfl) transport ()
  rw [sent] at all ⊢
  obtain ⟨address, rfl, recorded, -, visible, -⟩ := all _ (List.mem_singleton_self _)
  rw [line] at recorded
  refine ⟨List.cons_ne_nil _ _, recorded, ?_⟩
  rw [List.forall_mem_singleton]
  exact ⟨by cbv, visible⟩

end Call

end PetClient
