import PetClient.Proofs.Call

/-!
The header fields of requests.  The merged fields of a configuration have names that differ even
without regard to case, so a client keeps one field for each of them, and a request adds to these
only what says that it speaks JSON.
-/

namespace PetClient

namespace Config

/-- No two names are the same but for the case of letters. -/
def NamesDiffer (headers : Dict String) : Prop :=
  ∀ a ∈ headers.entries, ∀ b ∈ headers.entries, sameName a.1 b.1 → a = b

theorem sameName_iff {a b : String} : sameName a b ↔ Http.lowerCase a = Http.lowerCase b := by
  simp [sameName]

theorem mem_mergeHeader {headers : Dict String} {header e : String × String} :
    e ∈ (mergeHeader headers header).entries ↔
      e = header ∨ (e ∈ headers.entries ∧ ¬sameName e.1 header.1) := by
  have kept : e ∈ (headers.filterKeys fun name => !sameName name header.1).entries ↔
      e ∈ headers.entries ∧ ¬sameName e.1 header.1 := by
    simp [Dict.filterKeys]
  rw [← kept]
  constructor
  · exact Dict.mem_insertEntry
  · rintro (rfl | old)
    · exact Dict.insertEntry_self
    · apply Dict.mem_insertEntry_of_ne _ old
      intro same
      apply (kept.1 old).2
      rw [same, sameName_iff]

theorem names_differ_mergeHeader {headers : Dict String} (differ : NamesDiffer headers)
    (header : String × String) : NamesDiffer (mergeHeader headers header) := by
  intro a a_mem b b_mem same
  rcases mem_mergeHeader.1 a_mem with rfl | ⟨a_old, a_other⟩
  · rcases mem_mergeHeader.1 b_mem with rfl | ⟨b_old, b_other⟩
    · rfl
    · rw [sameName_iff] at same b_other
      exact absurd same.symm b_other
  · rcases mem_mergeHeader.1 b_mem with rfl | ⟨b_old, b_other⟩
    · exact absurd same a_other
    · exact differ a a_old b b_old same

theorem names_differ_foldl {headers : Dict String} (differ : NamesDiffer headers)
    (sources : List (String × String)) : NamesDiffer (sources.foldl mergeHeader headers) := by
  induction sources generalizing headers with
  | nil => exact differ
  | cons header rest ih => exact ih (names_differ_mergeHeader differ header)

theorem names_differ_effectiveHeaders (c : Config) : NamesDiffer c.effectiveHeaders :=
  names_differ_foldl (fun _ a_mem => absurd a_mem List.not_mem_nil) c.headerSources

theorem mem_effectiveHeaders_of_authorization {c : Config} {value : String}
    (implied : c.authorization = some value) :
    ("Authorization", value) ∈ c.effectiveHeaders.entries := by
  unfold effectiveHeaders headerSources
  rw [implied, Option.map_some, Option.toList_some, List.foldl_append]
  exact mem_mergeHeader.2 (.inl rfl)

end Config

namespace Client

def fieldOfEntry (entry : String × String) : Http.Field :=
  ⟨Http.lowerCase entry.1, entry.2, Http.lowerCase entry.1 == authorizationField⟩

theorem addHeader_eq_ok {fields next : Http.Fields} {header : String × String}
    (added : addHeader fields header = .ok next) : next = fields.set (fieldOfEntry header) := by
  obtain ⟨field, made, rfl⟩ := Result.map_eq_ok.1 added
  unfold fieldOf Http.fieldName? at made
  split at made
  · cases made
  · rename_i name named
    split at named
    · cases named
    · cases named
      split at made
      · cases made
        rfl
      · cases made

theorem set_of_new {fields : Http.Fields} {field : Http.Field}
    (isNew : ∀ f ∈ fields, f.name ≠ field.name) : fields.set field = fields ++ [field] := by
  unfold Http.Fields.set Http.Fields.erase
  rw [List.filter_eq_self.2]
  intro f f_mem
  simpa using isNew f f_mem

/-- Entries whose names differ without regard to case are added one behind the other: none takes
the place of another. -/
theorem foldlM_addHeader {entries : List (String × String)} {fields made : Http.Fields}
    (distinct : entries.Pairwise fun a b => Http.lowerCase a.1 ≠ Http.lowerCase b.1)
    (apart : ∀ f ∈ fields, ∀ e ∈ entries, f.name ≠ Http.lowerCase e.1)
    (folded : entries.foldlM addHeader fields = .ok made) :
    made = fields ++ entries.map fieldOfEntry := by
  -- `apart` is what each step keeps: no field so far has the name of an entry still to come.
  induction entries generalizing fields with
  | nil =>
    cases folded
    simp
  | cons entry rest ih =>
    obtain ⟨entry_apart, rest_distinct⟩ := List.pairwise_cons.1 distinct
    rw [List.foldlM_cons] at folded
    obtain ⟨next, added, folded⟩ := Result.bind_eq_ok.1 folded
    have placed : next = fields ++ [fieldOfEntry entry] := by
      rw [addHeader_eq_ok added]
      exact set_of_new fun f f_mem => apart f f_mem entry (List.mem_cons_self ..)
    have rest_apart : ∀ f ∈ next, ∀ e ∈ rest, f.name ≠ Http.lowerCase e.1 := by
      intro f f_mem e e_mem
      rw [placed] at f_mem
      rcases List.mem_append.1 f_mem with old | new
      · exact apart f old e (List.mem_cons_of_mem _ e_mem)
      · rw [List.mem_singleton.1 new]
        exact entry_apart e e_mem
    rw [ih rest_distinct rest_apart folded, placed]
    simp

theorem pairwise_effectiveHeaders (config : Config) :
    config.effectiveHeaders.entries.Pairwise
      fun a b => Http.lowerCase a.1 ≠ Http.lowerCase b.1 := by
  apply List.Pairwise.imp_of_mem _ config.effectiveHeaders.sorted
  intro a b a_mem b_mem a_lt same
  have eq := config.names_differ_effectiveHeaders a a_mem b b_mem (Config.sameName_iff.2 same)
  rw [eq] at a_lt
  exact String.lt_irrefl _ a_lt

theorem fields_ofConfig {config : Config} {client : Client}
    (built : ofConfig config = .ok client) :
    client.fields = config.effectiveHeaders.entries.map fieldOfEntry :=
  foldlM_addHeader (pairwise_effectiveHeaders config) (by simp) (ofConfig_eq_ok built).2

theorem nodup_names_ofConfig {config : Config} {client : Client}
    (built : ofConfig config = .ok client) : (client.fields.map Http.Field.name).Nodup := by
  rw [fields_ofConfig built, List.map_map]
  exact List.pairwise_map.2 (pairwise_effectiveHeaders config)

end Client

namespace Http.Fields

theorem nodup_names_setDefault {fields : Fields} (nodup : (fields.map Field.name).Nodup)
    (field : Field) : ((fields.setDefault field).map Field.name).Nodup := by
  unfold setDefault
  split
  · exact nodup
  · rename_i absent
    have isNew : field.name ∉ fields.map Field.name := by
      simpa [contains] using absent
    simpa [List.nodup_append] using ⟨nodup, fun f f_mem same =>
      isNew (same ▸ List.mem_map_of_mem f_mem)⟩

theorem nodup_names_set {fields : Fields} (nodup : (fields.map Field.name).Nodup)
    (field : Field) : ((fields.set field).map Field.name).Nodup := by
  have kept : ((fields.erase field.name).map Field.name).Nodup :=
    nodup.sublist (List.filter_sublist.map _)
  unfold set
  simpa [List.nodup_append] using ⟨kept, fun f f_mem => by simpa using (List.mem_filter.1 f_mem).2⟩

theorem mem_setDefault {fields : Fields} {field f : Field} :
    f ∈ fields.setDefault field ↔
      f ∈ fields ∨ (f = field ∧ ∀ g ∈ fields, g.name ≠ field.name) := by
  unfold setDefault
  split
  · rename_i present
    have taken : ∃ g ∈ fields, g.name = field.name := by simpa [contains] using present
    obtain ⟨g, g_mem, same⟩ := taken
    exact ⟨.inl, fun h => h.elim id fun absent => absurd same (absent.2 g g_mem)⟩
  · rename_i absent
    have isNew : ∀ g ∈ fields, g.name ≠ field.name := by simpa [contains] using absent
    simp only [List.mem_append, List.mem_singleton, and_iff_left isNew]

theorem mem_set {fields : Fields} {field f : Field} :
    f ∈ fields.set field ↔ (f ∈ fields ∧ f.name ≠ field.name) ∨ f = field := by
  simp [set, erase]

end Http.Fields

namespace Client

def acceptJson : Http.Field := ⟨acceptField, jsonType, false⟩

def contentJson : Http.Field := ⟨contentTypeField, jsonType, false⟩

theorem mem_requestFields {client : Client} {hasBody : Bool} {f : Http.Field} :
    f ∈ client.requestFields hasBody ↔
      (f ∈ client.fields ∧ (hasBody → f.name ≠ contentTypeField)) ∨
      (f = acceptJson ∧ ∀ g ∈ client.fields, g.name ≠ acceptField) ∨
      (f = contentJson ∧ hasBody) := by
  unfold requestFields
  cases hasBody with
  | false => simp [Http.Fields.mem_setDefault, acceptJson]
  | true =>
    simp only [↓reduceIte, Http.Fields.mem_set, Http.Fields.mem_setDefault]
    constructor
    · rintro (⟨old | ⟨rfl, absent⟩, other⟩ | rfl)
      · exact .inl ⟨old, fun _ => other⟩
      · exact .inr (.inl ⟨rfl, absent⟩)
      · exact .inr (.inr ⟨rfl, trivial⟩)
    · rintro (⟨old, other⟩ | ⟨rfl, absent⟩ | ⟨rfl, -⟩)
      · exact .inl ⟨.inl old, other trivial⟩
      · exact .inl ⟨.inr ⟨rfl, absent⟩, by decide⟩
      · exact .inr rfl

theorem nodup_names_requestFields {client : Client}
    (nodup : (client.fields.map Http.Field.name).Nodup) (hasBody : Bool) :
    ((client.requestFields hasBody).map Http.Field.name).Nodup := by
  have accepting := Http.Fields.nodup_names_setDefault nodup acceptJson
  unfold requestFields
  cases hasBody with
  | false => exact accepting
  | true => exact Http.Fields.nodup_names_set accepting contentJson

theorem lowerCase_authorization : Http.lowerCase "Authorization" = authorizationField := by
  decide +kernel

theorem fieldOfEntry_authorization (value : String) :
    fieldOfEntry ("Authorization", value) = ⟨authorizationField, value, true⟩ := by
  simp [fieldOfEntry, lowerCase_authorization]

theorem authorization_mem_requestFields {config : Config} {client : Client} {value : String}
    (built : ofConfig config = .ok client) (implied : config.authorization = some value)
    (hasBody : Bool) : ⟨authorizationField, value, true⟩ ∈ client.requestFields hasBody := by
  have other : authorizationField ≠ contentTypeField := by decide
  refine mem_requestFields.2 (.inl ⟨?_, fun _ => other⟩)
  rw [fields_ofConfig built, ← fieldOfEntry_authorization]
  exact List.mem_map_of_mem (Config.mem_effectiveHeaders_of_authorization implied)

theorem filter_name_of_mem {fields : Http.Fields} {field : Http.Field}
    (nodup : (fields.map Http.Field.name).Nodup) (mem : field ∈ fields) :
    fields.filter (fun f => f.name = field.name) = [field] := by
  induction fields with
  | nil => cases mem
  | cons first rest ih =>
    obtain ⟨isNew, rest_nodup⟩ := List.nodup_cons.1 nodup
    rcases List.mem_cons.1 mem with rfl | tail
    · have none_left : rest.filter (fun f => f.name = field.name) = [] :=
        List.filter_eq_nil_iff.2 fun f f_mem same =>
          isNew (of_decide_eq_true same ▸ List.mem_map_of_mem f_mem)
      rw [List.filter_cons_of_pos (by simp), none_left]
    · have other : first.name ≠ field.name :=
        fun same => isNew (same ▸ List.mem_map_of_mem tail)
      rw [List.filter_cons_of_neg (by simpa using other), ih rest_nodup tail]

end Client

namespace Call

variable {σ α : Type}

/-- The fields of every request, from those of the configuration. -/
theorem header_fields_of_request {config : Config} {client : Client}
    (built : Client.ofConfig config = .ok client) (transport : Transport σ) (call : Call α)
    (state : σ) :
    client.fields = config.effectiveHeaders.entries.map (fun entry =>
      ⟨Http.lowerCase entry.1, entry.2, Http.lowerCase entry.1 == Client.authorizationField⟩) ∧
    (client.fields.map Http.Field.name).Nodup ∧
    ∀ request ∈ call.sent client transport state,
      (request.fields.map Http.Field.name).Nodup ∧
      (∀ field, field ∈ request.fields ↔
        (field ∈ client.fields ∧ (call.HasPayload → field.name ≠ Client.contentTypeField)) ∨
        (field = ⟨Client.acceptField, Client.jsonType, false⟩ ∧
          ∀ other ∈ client.fields, other.name ≠ Client.acceptField) ∨
        (field = ⟨Client.contentTypeField, Client.jsonType, false⟩ ∧ call.HasPayload)) ∧
      (∀ token, config.token = some token → token ≠ "" →
        request.fields.filter (fun field => field.name = Client.authorizationField) =
          [⟨Client.authorizationField, "Bearer " ++ token, true⟩]) := by
  refine ⟨Client.fields_ofConfig built, Client.nodup_names_ofConfig built, ?_⟩
  intro request request_mem
  rw [sent_eq_requests, mem_requests] at request_mem
  obtain ⟨url, prepared⟩ := request_mem
  obtain ⟨body, base, target, encodes, -, -, -, rfl⟩ := prepare_eq_ok prepared
  have nodup := Client.nodup_names_requestFields (Client.nodup_names_ofConfig built) body.isSome
  refine ⟨nodup, ?_, ?_⟩
  · intro field
    rw [← isSome_encoded encodes]
    exact Client.mem_requestFields
  · intro token given nonempty
    have implied : config.authorization = some ("Bearer " ++ token) := by
      simp [Config.authorization, given, nonempty]
    exact Client.filter_name_of_mem nodup
      (Client.authorization_mem_requestFields built implied body.isSome)

/-- A configured choice of answers is kept, and the token's field is sent once. -/
theorem header_fields_of_request_with_token :
    ∃ client request,
      Client.ofConfig ⟨"http://[::1]/", Dict.ofList [("Accept", "*/*")], some "t", none⟩ =
        .ok client ∧
      ∀ transport : Transport Unit,
        (get Json.unit "/pets").sent client transport () = [request] ∧
        request.fields.filter (fun field => field.name = Client.authorizationField) =
          [⟨Client.authorizationField, "Bearer t", true⟩] := by
  have built :
      Client.ofConfig ⟨"http://[::1]/", Dict.ofList [("Accept", "*/*")], some "t", none⟩ =
        .ok ⟨"http://[::1]",
          [⟨"accept", "*/*", false⟩, ⟨"authorization", "Bearer t", true⟩]⟩ := by cbv
  have request_eq :
      (get Json.unit "/pets").requests
          ⟨"http://[::1]", [⟨"accept", "*/*", false⟩, ⟨"authorization", "Bearer t", true⟩]⟩ =
        [⟨.get, ⟨some "http", "[::1]", "/pets"⟩,
          [⟨"accept", "*/*", false⟩, ⟨"authorization", "Bearer t", true⟩], []⟩] := by cbv
  refine ⟨_, ⟨.get, ⟨some "http", "[::1]", "/pets"⟩,
    [⟨"accept", "*/*", false⟩, ⟨"authorization", "Bearer t", true⟩], []⟩, built, ?_⟩
  intro transport
  have sent := (sent_eq_requests _ transport (get Json.unit "/pets") ()).trans request_eq
  have fields := (header_fields_of_request built transport (get Json.unit "/pets") ()).2.2
  rw [sent] at fields
  have fields_of_first := fields _ (List.mem_singleton_self _)
  exact ⟨sent, fields_of_first.2.2 "t" rfl (by decide)⟩

end Call

end PetClient
