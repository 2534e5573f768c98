import PetClient.Proofs.Masking
import PetClient.Proofs.Merging
import PetClient.Proofs.Url.Path

/-!
Which configurations a client can be set up from: those whose merged fields may all be sent.  The
first field that may not is reported, fields that are not merged play no part, and what is accepted
cannot break the lines of a request.
-/

namespace PetClient

namespace Http

/-! ### Names and values -/

def tokenSigns : List Char :=
  ['!', '#', '$', '%', '&', '\'', '*', '+', '-', '.', '^', '_', '`', '|', '~']

structure IsToken (text : String) : Prop where
  nonempty : text ≠ ""
  signs : ∀ c ∈ text.toList, c.isAlpha ∨ c.isDigit ∨ c ∈ tokenSigns
  short : (Utf8.bytesOf text).length ≤ 65535

/-- Whether a text may be the value of a field: its bytes are tabs and none of the other controls. -/
def IsPrintable (text : String) : Prop :=
  ∀ b ∈ Utf8.bytesOf text, b = 0x09 ∨ 0x20 ≤ b ∧ b ≠ 0x7F

theorem isTokenChar_iff {c : Char} : isTokenChar c ↔ c.isAlpha ∨ c.isDigit ∨ c ∈ tokenSigns := by
  unfold isTokenChar Char.isAlphanum
  rw [String.contains_char_eq, String.toList_ofList, Bool.or_eq_true, Bool.or_eq_true, or_assoc,
    decide_eq_true_iff]
  rfl

theorem fieldName?_eq_some {text name : String} :
    fieldName? text = some name ↔ IsToken text ∧ name = lowerCase text := by
  have fits : (text.isEmpty || !text.all isTokenChar || maxNameLength < text.utf8ByteSize) = false ↔
      IsToken text := by
    simp only [Bool.or_eq_false_iff, Bool.not_eq_false', decide_eq_false_iff_not, not_lt,
      String.all_bool_eq, List.all_eq_true, isTokenChar_iff, ← Utf8.length_bytesOf]
    constructor
    · rintro ⟨⟨visible, signs⟩, short⟩
      exact ⟨fun empty => by simp [empty] at visible, signs, short⟩
    · rintro ⟨nonempty, signs, short⟩
      exact ⟨⟨by simpa using nonempty, signs⟩, short⟩
  unfold fieldName?
  rw [← fits]
  cases text.isEmpty || !text.all isTokenChar || maxNameLength < text.utf8ByteSize with
  | false => simp [eq_comm]
  | true => simp

theorem isFieldValue_iff {text : String} : isFieldValue text ↔ IsPrintable text := by
  unfold isFieldValue IsPrintable isValueByte
  simp

/-! ### Line ends -/

def lineSigns : List Char :=
  ['\r', '\n', '\x00']

theorem IsPrintable.not_mem {text : String} (printable : IsPrintable text) {c : Char}
    (sign : c ∈ lineSigns) : c ∉ text.toList := by
  have controls : ∀ c ∈ lineSigns, c.toNat < 0x80 ∧ UInt8.ofNat c.toNat ≠ 0x09 ∧
      ¬(0x20 : UInt8) ≤ UInt8.ofNat c.toNat := Text.forall_of_all (by decide)
  obtain ⟨ascii, noTab, low⟩ := controls c sign
  intro mem
  rcases printable _ ((Utf8.mem_encode_ascii ascii).2 mem) with tab | ⟨high, -⟩
  · exact noTab tab
  · exact low high

theorem toNat_bounds_of_isTokenChar {c : Char} (token : isTokenChar c) :
    0x21 ≤ c.toNat ∧ c.toNat < 0x80 := by
  have signs : ∀ c ∈ tokenSigns, 0x21 ≤ c.toNat ∧ c.toNat < 0x80 :=
    Text.forall_of_all (by decide)
  have plain (alphanum : c.isAlphanum) : 0x21 ≤ c.toNat ∧ c.toNat < 0x80 := by
    have bounds := Url.toNat_bounds_of_isAlphanum alphanum
    omega
  rcases isTokenChar_iff.1 token with letter | digit | sign
  · exact plain (Bool.or_eq_true_iff.2 (.inl letter))
  · exact plain (Bool.or_eq_true_iff.2 (.inr digit))
  · exact signs c sign

theorem IsToken.not_mem {text : String} (token : IsToken text) {c : Char}
    (sign : c ∈ lineSigns) : c ∉ (lowerCase text).toList := by
  unfold lowerCase
  rw [String.toList_map]
  intro mem
  obtain ⟨d, mem_text, rfl⟩ := List.mem_map.1 mem
  obtain ⟨low, ascii⟩ := toNat_bounds_of_isTokenChar (isTokenChar_iff.2 (token.signs d mem_text))
  have apart : 0x21 ≤ d.toNat → d.toLower ∉ lineSigns :=
    Text.forall_ascii (q := fun d => 0x21 ≤ d.toNat → d.toLower ∉ lineSigns) (by decide) ascii
  exact apart low sign

end Http

/-! ### Entries -/

namespace Client

def Sendable (entry : String × String) : Prop :=
  Http.IsToken entry.1 ∧ Http.IsPrintable entry.2

theorem fieldOf_of_sendable {entry : String × String} (sendable : Sendable entry) :
    fieldOf entry.1 entry.2 = .ok (fieldOfEntry entry) := by
  unfold fieldOf
  rw [Http.fieldName?_eq_some.2 ⟨sendable.1, rfl⟩]
  exact if_pos (Http.isFieldValue_iff.2 sendable.2)

theorem fieldOf_of_not_sendable {entry : String × String} (refused : ¬Sendable entry) :
    fieldOf entry.1 entry.2 = .error (.invalidHeader entry.1) := by
  unfold fieldOf
  cases named : Http.fieldName? entry.1 with
  | none => rfl
  | some name =>
    have token := (Http.fieldName?_eq_some.1 named).1
    exact if_neg fun value => refused ⟨token, Http.isFieldValue_iff.1 value⟩

theorem addHeader_of_sendable {entry : String × String} (sendable : Sendable entry)
    (fields : Http.Fields) : addHeader fields entry = .ok (fields.set (fieldOfEntry entry)) := by
  unfold addHeader
  rw [fieldOf_of_sendable sendable]
  rfl

theorem addHeader_of_not_sendable {entry : String × String} (refused : ¬Sendable entry)
    (fields : Http.Fields) : addHeader fields entry = .error (.invalidHeader entry.1) := by
  unfold addHeader
  rw [fieldOf_of_not_sendable refused]
  rfl

theorem foldlM_of_sendable {entries : List (String × String)}
    (sendable : ∀ e ∈ entries, Sendable e) (fields : Http.Fields) :
    ∃ made, entries.foldlM addHeader fields = .ok made := by
  induction entries generalizing fields with
  | nil => exact ⟨fields, rfl⟩
  | cons entry rest ih =>
    rw [List.foldlM_cons, addHeader_of_sendable (sendable entry (List.mem_cons_self ..))]
    exact ih (fun e mem => sendable e (List.mem_cons_of_mem _ mem)) _

theorem foldlM_of_not_sendable {before after : List (String × String)} {entry : String × String}
    (sendable : ∀ e ∈ before, Sendable e) (refused : ¬Sendable entry) (fields : Http.Fields) :
    (before ++ entry :: after).foldlM addHeader fields = .error (.invalidHeader entry.1) := by
  obtain ⟨made, folded⟩ := foldlM_of_sendable sendable fields
  rw [List.foldlM_append, folded]
  change (entry :: after).foldlM addHeader made = _
  rw [List.foldlM_cons, addHeader_of_not_sendable refused]
  rfl

theorem all_or_first_not_sendable (entries : List (String × String)) :
    (∀ e ∈ entries, Sendable e) ∨ ∃ before entry after, entries = before ++ entry :: after ∧
      (∀ e ∈ before, Sendable e) ∧ ¬Sendable entry := by
  induction entries with
  | nil => exact .inl fun e mem => absurd mem List.not_mem_nil
  | cons first rest ih =>
    by_cases sendable : Sendable first
    · rcases ih with all | ⟨before, entry, after, rfl, front, refused⟩
      · exact .inl (List.forall_mem_cons.2 ⟨sendable, all⟩)
      · exact .inr ⟨first :: before, entry, after, rfl,
          List.forall_mem_cons.2 ⟨sendable, front⟩, refused⟩
    · exact .inr ⟨[], first, rest, rfl, fun e mem => absurd mem List.not_mem_nil, sendable⟩

theorem ofConfig_eq_ok_iff {config : Config} :
    (∃ client, ofConfig config = .ok client) ↔
      ∀ e ∈ config.effectiveHeaders.entries, Sendable e := by
  rw [ofConfig_eq]
  constructor
  · rintro ⟨client, built⟩
    obtain ⟨fields, folded, -⟩ := Result.map_eq_ok.1 built
    rcases all_or_first_not_sendable config.effectiveHeaders.entries with
      all | ⟨before, entry, after, parts, front, refused⟩
    · exact all
    · rw [parts, foldlM_of_not_sendable front refused] at folded
      cases folded
  · intro all
    obtain ⟨fields, folded⟩ := foldlM_of_sendable all []
    exact ⟨_, Result.map_eq_ok.2 ⟨fields, folded, rfl⟩⟩

/-- The entry that is reported is the one with the least name of those that make no field. -/
theorem ofConfig_eq_error_iff {config : Config} {error : ClientError} :
    ofConfig config = .error error ↔
      ∃ e ∈ config.effectiveHeaders.entries, ¬Sendable e ∧
        (∀ other ∈ config.effectiveHeaders.entries, ¬Sendable other →
          other = e ∨ Utf8.bytesOf e.1 < Utf8.bytesOf other.1) ∧
        error = .invalidHeader e.1 := by
  simp only [Utf8.bytesOf_lt_iff]
  rw [ofConfig_eq, Result.map_eq_error]
  have sorted := config.effectiveHeaders.sorted
  rcases all_or_first_not_sendable config.effectiveHeaders.entries with
    all | ⟨before, entry, after, parts, front, refused⟩
  · obtain ⟨fields, folded⟩ := foldlM_of_sendable all []
    rw [folded]
    constructor
    · intro failed
      cases failed
    · rintro ⟨e, mem, refused, -⟩
      exact absurd (all e mem) refused
  · rw [parts] at sorted ⊢
    have above := (List.pairwise_cons.1 (List.pairwise_append.1 sorted).2.1).1
    have least : ∀ other ∈ before ++ entry :: after, ¬Sendable other →
        other = entry ∨ entry.1 < other.1 := by
      intro other mem refused'
      rcases List.mem_append.1 mem with earlier | later
      · exact absurd (front other earlier) refused'
      · exact (List.mem_cons.1 later).imp_right (above other)
    have mem_entry : entry ∈ before ++ entry :: after :=
      List.mem_append_right _ (List.mem_cons_self ..)
    rw [foldlM_of_not_sendable front refused, Except.error.injEq]
    constructor
    · rintro rfl
      exact ⟨entry, mem_entry, refused, least, rfl⟩
    · rintro ⟨e, mem, refused', least', rfl⟩
      rcases least e mem refused' with rfl | above_entry
      · rfl
      · rcases least' entry mem_entry refused with rfl | below_entry
        · rfl
        · exact absurd below_entry (String.lt_asymm above_entry)

end Client

/-! ### Fields that are not merged -/

namespace Config

/-- A spelling below another one of the same name does not count. -/
theorem isLast_insert {d : Dict String} {name value : String} {e : String × String}
    (shadowed : sameName e.1 name → ∃ other ∈ d.entries, sameName other.1 name ∧ name < other.1) :
    IsLast (sameName · ·) (d.insert name value).entries e ↔
      IsLast (sameName · ·) d.entries e := by
  rw [isLast_entries, isLast_entries]
  simp only [Dict.mem_insert]
  by_cases same : sameName e.1 name
  · obtain ⟨above, above_mem, above_same, lower⟩ := shadowed same
    have above_other : above.1 ≠ name := (ne_of_lt lower).symm
    have above_e : sameName above.1 e.1 := sameName_trans above_same (sameName_symm same)
    constructor
    · rintro ⟨mem, greatest⟩
      have below : name < e.1 := by
        rcases greatest above (.inr ⟨above_mem, above_other⟩) above_e with rfl | below
        · exact lower
        · exact String.lt_trans lower below
      rcases mem with rfl | ⟨old, -⟩
      · exact absurd below (String.lt_irrefl _)
      · refine ⟨old, fun other mem same' => ?_⟩
        by_cases spelled : other.1 = name
        · exact .inr (spelled ▸ below)
        · exact greatest other (.inr ⟨mem, spelled⟩) same'
    · rintro ⟨mem, greatest⟩
      have below : name < e.1 := by
        rcases greatest above above_mem above_e with rfl | below
        · exact lower
        · exact String.lt_trans lower below
      refine ⟨.inr ⟨mem, (ne_of_lt below).symm⟩, fun other mem' same' => ?_⟩
      rcases mem' with rfl | ⟨old, -⟩
      · exact .inr below
      · exact greatest other old same'
  · have apart (other : String × String) (same' : sameName other.1 e.1) : other.1 ≠ name := by
      rintro rfl
      exact same (sameName_symm same')
    constructor
    · rintro ⟨rfl | ⟨old, -⟩, greatest⟩
      · exact absurd (sameName_iff.2 rfl) same
      · exact ⟨old, fun other mem same' => greatest other (.inr ⟨mem, apart other same'⟩) same'⟩
    · rintro ⟨mem, greatest⟩
      refine ⟨.inr ⟨mem, apart e (sameName_iff.2 rfl)⟩, fun other mem' same' => ?_⟩
      rcases mem' with rfl | ⟨old, -⟩
      · exact absurd rfl (apart _ same')
      · exact greatest other old same'

theorem effectiveHeaders_withHeader {c : Config} {name : String} (value : String)
    (dropped : (∃ other ∈ c.headers.entries, sameName other.1 name ∧ name < other.1) ∨
      (∃ token, c.token = some token ∧ token ≠ "") ∧ sameName name "authorization") :
    (c.withHeader name value).effectiveHeaders = c.effectiveHeaders := by
  refine Dict.eq_of_mem_iff fun e => ?_
  by_cases credentials : (∃ token, c.token = some token ∧ token ≠ "") ∧
    sameName e.1 "authorization"
  · obtain ⟨⟨token, given, nonempty⟩, same⟩ := credentials
    have implied : c.authorization = some ("Bearer " ++ token) := by
      simp [authorization, given, nonempty]
    have sources (headers : Dict String) : ({ c with headers } : Config).headerSources =
        headers.entries ++ [("Authorization", "Bearer " ++ token)] := by
      unfold headerSources
      change _ ++ (c.authorization.map _).toList = _
      rw [implied]
      rfl
    calc
      e ∈ (c.withHeader name value).effectiveHeaders.entries
      _ ↔ e = ("Authorization", "Bearer " ++ token) :=
        (and_iff_left same).symm.trans (mem_authorization (sources _))
      _ ↔ e ∈ c.effectiveHeaders.entries :=
        (mem_authorization (sources c.headers)).symm.trans (and_iff_left same)
  · have apart (known : ∃ token, c.token = some token ∧ token ≠ "") :
        ¬sameName e.1 "authorization" := fun same => credentials ⟨known, same⟩
    have shadowed (same : sameName e.1 name) :
        ∃ other ∈ c.headers.entries, sameName other.1 name ∧ name < other.1 := by
      rcases dropped with shadowed | ⟨known, same'⟩
      · exact shadowed
      · exact absurd (sameName_trans same same') (apart known)
    calc
      e ∈ (c.withHeader name value).effectiveHeaders.entries
      _ ↔ IsLast (sameName · ·) (c.headers.insert name value).entries e :=
        mem_effectiveHeaders_of_apart apart
      _ ↔ IsLast (sameName · ·) c.headers.entries e := isLast_insert shadowed
      _ ↔ e ∈ c.effectiveHeaders.entries := (mem_effectiveHeaders_of_apart apart).symm

end Config

/-! ### Setting up -/

namespace Client

theorem not_mem_of_mem_requestFields {config : Config} {client : Client}
    (built : ofConfig config = .ok client) {hasBody : Bool} {field : Http.Field}
    (mem : field ∈ client.requestFields hasBody) {c : Char} (sign : c ∈ Http.lineSigns) :
    c ∉ field.name.toList ∧ c ∉ field.value.toList := by
  have own : ∀ c ∈ Http.lineSigns,
      (c ∉ acceptJson.name.toList ∧ c ∉ acceptJson.value.toList) ∧
        c ∉ contentJson.name.toList ∧ c ∉ contentJson.value.toList :=
    Text.forall_of_all (by decide)
  rcases mem_requestFields.1 mem with ⟨configured, -⟩ | ⟨rfl, -⟩ | ⟨rfl, -⟩
  · rw [fields_ofConfig built] at configured
    obtain ⟨e, mem_e, rfl⟩ := List.mem_map.1 configured
    obtain ⟨token, printable⟩ := ofConfig_eq_ok_iff.1 ⟨client, built⟩ e mem_e
    exact ⟨token.not_mem sign, printable.not_mem sign⟩
  · exact (own c sign).1
  · exact (own c sign).2

/-- A client can be set up exactly when all merged fields may be sent, and else the first of those
that may not is reported.  A field that is not merged, because of a greater spelling of its name or
because of the token, plays no part, whatever its value is, and neither does the base address.  No
field of a request that is sent holds a line end or a zero. -/
theorem sendable_headers_are_accepted (config : Config) :
    ((∃ client, ofConfig config = .ok client) ↔
      ∀ e ∈ config.effectiveHeaders.entries, Sendable e) ∧
    (∀ error, ofConfig config = .error error ↔
      ∃ e ∈ config.effectiveHeaders.entries, ¬Sendable e ∧
        (∀ other ∈ config.effectiveHeaders.entries, ¬Sendable other →
          other = e ∨ Utf8.bytesOf e.1 < Utf8.bytesOf other.1) ∧
        error = .invalidHeader e.1) ∧
    (∀ name value,
      ((∃ other ∈ config.headers.entries, Config.sameName other.1 name ∧
          Utf8.bytesOf name < Utf8.bytesOf other.1) ∨
        (∃ token, config.token = some token ∧ token ≠ "") ∧
          Config.sameName name "authorization") →
      ofConfig (config.withHeader name value) = ofConfig config) ∧
    (∀ baseUrl, (ofConfig { config with baseUrl }).map Client.fields =
      (ofConfig config).map Client.fields) ∧
    ∀ client, ofConfig config = .ok client →
      ∀ {σ α : Type} (transport : Transport σ) (call : Call α) (state : σ),
        ∀ request ∈ call.sent client transport state, ∀ field ∈ request.fields,
          ∀ c ∈ Http.lineSigns, c ∉ field.name.toList ∧ c ∉ field.value.toList := by
  refine ⟨ofConfig_eq_ok_iff, fun error => ofConfig_eq_error_iff, ?_, ?_, ?_⟩
  · intro name value dropped
    simp only [Utf8.bytesOf_lt_iff] at dropped
    rw [ofConfig_eq, ofConfig_eq, Config.effectiveHeaders_withHeader value dropped]
    rfl
  · intro baseUrl
    rw [ofConfig_eq, ofConfig_eq]
    change (Except.map _ (config.effectiveHeaders.entries.foldlM addHeader [])).map _ = _
    cases config.effectiveHeaders.entries.foldlM addHeader [] <;> rfl
  · intro client built σ α transport call state request mem field mem_field c sign
    rw [Call.sent_eq_requests, Call.mem_requests] at mem
    obtain ⟨url, prepared⟩ := mem
    obtain ⟨body, base, target, -, -, -, -, rfl⟩ := Call.prepare_eq_ok prepared
    exact not_mem_of_mem_requestFields built mem_field sign

/-- A shadowed spelling may have a line end for its value; the spelling that counts may not. -/
theorem sendable_headers_are_accepted_shadowed :
    let config : Config := { baseUrl := "", headers := Dict.ofList [("x-a", "1")] }
    (∃ client, ofConfig (config.withHeader "X-A" "\n") = .ok client) ∧
      ofConfig (config.withHeader "x-a" "\n") = .error (.invalidHeader "x-a") := by
  intro config
  obtain ⟨-, -, dropped, -, -⟩ := sendable_headers_are_accepted config
  obtain ⟨-, reported, -, -, -⟩ := sendable_headers_are_accepted (config.withHeader "x-a" "\n")
  constructor
  · rw [dropped "X-A" "\n" (.inl ⟨("x-a", "1"), by decide, by cbv, by decide⟩)]
    exact ⟨⟨"", [⟨"x-a", "1", false⟩]⟩, by cbv⟩
  · have entries : (config.withHeader "x-a" "\n").effectiveHeaders.entries = [("x-a", "\n")] := by
      cbv
    rw [reported, entries]
    refine ⟨_, List.mem_singleton_self _, ?_, ?_, rfl⟩
    · rintro ⟨-, printable⟩
      exact absurd (printable 0x0A (by decide)) (by decide)
    · exact fun other mem _ => .inl (List.mem_singleton.1 mem)

end Client

end PetClient
