import PetClient.Proofs.Fields
import PetClient.Proofs.Text.Utf8

/-!
Masking: fields, requests and clients without the value of the credentials.  Two configurations that
differ in the token alone make clients that are the same when they are masked, or no client for the
same reason.
-/

namespace PetClient

/-! ### Masking -/

namespace Http

def Field.masked (field : Field) : Field :=
  if field.name = Client.authorizationField then { field with value := "" } else field

def Fields.masked (fields : Fields) : Fields :=
  fields.map Field.masked

def Request.masked (request : Request) : Request :=
  { request with fields := request.fields.masked }

theorem Field.name_masked (field : Field) : field.masked.name = field.name := by
  unfold masked
  split <;> rfl

namespace Fields

theorem masked_append (first second : Fields) :
    masked (first ++ second) = first.masked ++ second.masked :=
  List.map_append

theorem masked_erase (fields : Fields) (name : String) :
    (fields.erase name).masked = fields.masked.erase name := by
  unfold masked erase
  rw [List.filter_map]
  congr 2
  funext field
  exact congrArg (· != name) field.name_masked.symm

theorem contains_masked (fields : Fields) (name : String) :
    fields.masked.contains name = fields.contains name := by
  unfold masked contains
  rw [List.any_map]
  congr 1
  funext field
  exact congrArg (· == name) field.name_masked

theorem masked_set (fields : Fields) (field : Field) :
    (fields.set field).masked = fields.masked.set field.masked := by
  unfold set
  rw [masked_append, masked_erase, Field.name_masked]
  rfl

theorem masked_setDefault (fields : Fields) (field : Field) :
    (fields.setDefault field).masked = fields.masked.setDefault field.masked := by
  unfold setDefault
  rw [contains_masked, Field.name_masked]
  split
  · rfl
  · exact masked_append fields [field]

end Fields

end Http

namespace Client

def masked (client : Client) : Client :=
  { client with fields := client.fields.masked }

theorem masked_requestFields (client : Client) (hasBody : Bool) :
    (client.requestFields hasBody).masked = client.masked.requestFields hasBody := by
  have accept : acceptJson.masked = acceptJson := by decide
  have content : contentJson.masked = contentJson := by decide
  unfold requestFields
  cases hasBody with
  | false =>
    change (client.fields.setDefault acceptJson).masked = client.fields.masked.setDefault acceptJson
    rw [Http.Fields.masked_setDefault, accept]
  | true =>
    change ((client.fields.setDefault acceptJson).set contentJson).masked =
      (client.fields.masked.setDefault acceptJson).set contentJson
    rw [Http.Fields.masked_set, Http.Fields.masked_setDefault, accept, content]

/-- A client without credentials makes the requests of the client, without the credentials. -/
theorem request_masked (client : Client) (method : Http.Method) (url : Url)
    (body : Option Bytes) :
    client.masked.request method url body =
      (client.request method url body).map Http.Request.masked := by
  unfold request
  cases Http.Target.parse url.text with
  | error problem => rfl
  | ok target =>
    simp only [Except.map, Http.Request.masked, masked_requestFields]

end Client

theorem Call.prepare_masked {α : Type} (client : Client) (call : Call α) :
    call.prepare client.masked =
      (call.prepare client).map fun prepared => (prepared.1, prepared.2.masked) := by
  unfold prepare
  cases call.encoded with
  | error problem => rfl
  | ok body =>
    have address : client.masked.address = client.address := rfl
    simp only [address]
    cases client.address call.path call.pairs with
    | error error => rfl
    | ok url =>
      simp only [Client.request_masked]
      cases client.request call.method url body <;> rfl

/-! ### Two clients -/

theorem Dict.exists_insertEntry {α : Type} (key : String) (entries : List (String × α)) :
    ∃ before after, ∀ value, insertEntry key value entries = before ++ (key, value) :: after := by
  induction entries with
  | nil => exact ⟨[], [], fun value => rfl⟩
  | cons entry rest ih =>
    obtain ⟨other, old⟩ := entry
    obtain ⟨before, after, parts⟩ := ih
    by_cases lower : key < other
    · exact ⟨[], (other, old) :: rest, fun value => if_pos lower⟩
    · by_cases same : key = other
      · refine ⟨[], rest, fun value => ?_⟩
        unfold insertEntry
        rw [if_neg lower, if_pos same]
        rfl
      · refine ⟨(other, old) :: before, after, fun value => ?_⟩
        unfold insertEntry
        rw [if_neg lower, if_neg same, parts]
        rfl

namespace Client

/-- Entries with one name whose values are both good or both bad, and differ in credentials only. -/
structure AlikeEntries (first second : String × String) : Prop where
  name : first.1 = second.1
  good : Http.isFieldValue first.2 = Http.isFieldValue second.2
  value : Http.lowerCase first.1 = authorizationField ∨ first.2 = second.2

theorem AlikeEntries.refl (entry : String × String) : AlikeEntries entry entry :=
  ⟨rfl, rfl, .inr rfl⟩

theorem AlikeEntries.fieldOf {first second : String × String}
    (alike : AlikeEntries first second) :
    (fieldOf first.1 first.2).map Http.Field.masked =
      (fieldOf second.1 second.2).map Http.Field.masked := by
  obtain ⟨name, good, value⟩ := alike
  unfold Client.fieldOf
  rw [name, good]
  cases known : Http.fieldName? second.1 with
  | none => rfl
  | some fieldName =>
    have lower : fieldName = Http.lowerCase second.1 := by
      unfold Http.fieldName? at known
      split at known
      · cases known
      · exact (Option.some.inj known).symm
    simp only
    split
    · rw [name, ← lower] at value
      rcases value with credentials | same
      · simp [Except.map, Http.Field.masked, credentials]
      · rw [same]
    · rfl

theorem AlikeEntries.addHeader {first second : String × String}
    (alike : AlikeEntries first second) {fields others : Http.Fields}
    (same : fields.masked = others.masked) :
    (addHeader fields first).map Http.Fields.masked =
      (addHeader others second).map Http.Fields.masked := by
  unfold Client.addHeader
  rcases Result.alike_of_map_eq alike.fieldOf with ⟨e, failed, failed'⟩ | ⟨a, b, made, made', fits⟩
  · rw [failed, failed']
    rfl
  · rw [made, made']
    simp only [Except.map, Http.Fields.masked_set, same, fits]

theorem foldlM_masked {entries others : List (String × String)}
    (alike : List.Forall₂ AlikeEntries entries others) {fields made : Http.Fields}
    (same : fields.masked = made.masked) :
    (entries.foldlM addHeader fields).map Http.Fields.masked =
      (others.foldlM addHeader made).map Http.Fields.masked := by
  induction alike generalizing fields made with
  | nil => exact congrArg Except.ok same
  | cons alike_head _ ih =>
    rw [List.foldlM_cons, List.foldlM_cons]
    rcases Result.alike_of_map_eq (alike_head.addHeader same) with
      ⟨e, failed, failed'⟩ | ⟨a, b, added, added', fits⟩
    · rw [failed, failed']
      rfl
    · rw [added, added']
      exact ih fits

end Client

namespace Config

theorem isFieldValue_bearer (token : String) :
    Http.isFieldValue ("Bearer " ++ token) = Http.isFieldValue token := by
  have bearer : (Utf8.encode "Bearer ".toList).all Http.isValueByte = true := by cbv
  unfold Http.isFieldValue Utf8.bytesOf
  rw [String.toList_append, Utf8.encode_append, List.all_append, bearer, Bool.true_and]

theorem authorization_withToken (config : Config) {token : String} (given : token ≠ "") :
    (config.withToken token).authorization = some ("Bearer " ++ token) := by
  simp [authorization, withToken, given]

/-- The entry of the token stands among others that are the same for all tokens. -/
theorem exists_effectiveHeaders (config : Config) :
    ∃ before after, ∀ token, token ≠ "" →
      (config.withToken token).effectiveHeaders.entries =
        before ++ ("Authorization", "Bearer " ++ token) :: after := by
  obtain ⟨before, after, parts⟩ := Dict.exists_insertEntry (α := String) "Authorization"
    ((config.headers.entries.foldl mergeHeader ∅).filterKeys fun name =>
      !sameName name "Authorization").entries
  refine ⟨before, after, fun token given => ?_⟩
  unfold effectiveHeaders headerSources
  rw [authorization_withToken config given, Option.map_some, Option.toList_some, List.foldl_append]
  exact parts ("Bearer " ++ token)

theorem alike_effectiveHeaders (config : Config) {first second : String}
    (given : first ≠ "") (given' : second ≠ "")
    (alike : Http.isFieldValue first = Http.isFieldValue second) :
    List.Forall₂ Client.AlikeEntries (config.withToken first).effectiveHeaders.entries
      (config.withToken second).effectiveHeaders.entries := by
  obtain ⟨before, after, parts⟩ := config.exists_effectiveHeaders
  have token : Client.AlikeEntries ("Authorization", "Bearer " ++ first)
      ("Authorization", "Bearer " ++ second) := by
    refine ⟨rfl, ?_, .inl Client.lowerCase_authorization⟩
    rw [isFieldValue_bearer, isFieldValue_bearer, alike]
  have others (entries : List (String × String)) :
      List.Forall₂ Client.AlikeEntries entries entries :=
    List.forall₂_same.2 fun entry _ => .refl entry
  rw [parts first given, parts second given']
  exact List.rel_append (others before) (.cons token (others after))

theorem mem_of_mem_foldl {sources : List (String × String)} {headers : Dict String}
    {e : String × String} (mem : e ∈ (sources.foldl mergeHeader headers).entries) :
    e ∈ headers.entries ∨ e ∈ sources := by
  induction sources generalizing headers with
  | nil => exact .inl mem
  | cons header rest ih =>
    rcases ih mem with merged | later
    · rcases mem_mergeHeader.1 merged with rfl | ⟨old, -⟩
      · exact .inr (List.mem_cons_self ..)
      · exact .inl old
    · exact .inr (List.mem_cons_of_mem _ later)

theorem name_of_mem_effectiveHeaders {config : Config} {token : String} (given : token ≠ "")
    {e : String × String} (mem : e ∈ (config.withToken token).effectiveHeaders.entries) :
    e.1 = "Authorization" ∨ e.1 ∈ config.headers.entries.map Prod.fst := by
  rcases mem_of_mem_foldl mem with absent | source
  · cases absent
  · unfold headerSources at source
    rw [authorization_withToken config given] at source
    rcases List.mem_append.1 source with configured | token
    · exact .inr (List.mem_map_of_mem configured)
    · rw [Option.map_some, Option.toList_some, List.mem_singleton] at token
      exact .inl (congrArg Prod.fst token)

end Config

namespace Client

theorem foldlM_addHeader_eq_error {entries : List (String × String)} {fields : Http.Fields}
    {error : ClientError} (failed : entries.foldlM addHeader fields = .error error) :
    ∃ e ∈ entries, error = .invalidHeader e.1 := by
  induction entries generalizing fields with
  | nil => cases failed
  | cons entry rest ih =>
    rw [List.foldlM_cons] at failed
    cases added : addHeader fields entry with
    | error refusal =>
      rw [added] at failed
      cases failed
      refine ⟨entry, List.mem_cons_self .., ?_⟩
      unfold addHeader fieldOf at added
      split at added
      · cases added
        rfl
      · split at added
        · cases added
        · cases added
          rfl
    | ok next =>
      rw [added] at failed
      obtain ⟨e, mem, same⟩ := ih failed
      exact ⟨e, List.mem_cons_of_mem _ mem, same⟩

theorem ofConfig_eq (config : Config) :
    ofConfig config = (config.effectiveHeaders.entries.foldlM addHeader []).map fun fields =>
      ⟨config.trimmedBaseUrl, fields⟩ := by
  unfold ofConfig
  cases config.effectiveHeaders.entries.foldlM addHeader [] <;> rfl

theorem ofConfig_eq_error {config : Config} {error : ClientError}
    (failed : ofConfig config = .error error) :
    ∃ e ∈ config.effectiveHeaders.entries, error = .invalidHeader e.1 := by
  rw [ofConfig_eq] at failed
  cases folded : config.effectiveHeaders.entries.foldlM addHeader [] with
  | error refusal =>
    rw [folded] at failed
    cases failed
    exact foldlM_addHeader_eq_error folded
  | ok fields =>
    rw [folded] at failed
    cases failed

/-- Clients for two tokens are the same but for the credentials, or cannot be set up for the same
reason. -/
theorem masked_ofConfig (config : Config) {first second : String} (given : first ≠ "")
    (given' : second ≠ "") (alike : Http.isFieldValue first = Http.isFieldValue second) :
    (ofConfig (config.withToken first)).map masked =
      (ofConfig (config.withToken second)).map masked := by
  have same : Http.Fields.masked [] = Http.Fields.masked [] := rfl
  have folded := foldlM_masked (config.alike_effectiveHeaders given given' alike) same
  rw [ofConfig_eq, ofConfig_eq]
  rcases Result.alike_of_map_eq folded with ⟨e, failed, failed'⟩ | ⟨a, b, made, made', fits⟩
  · rw [failed, failed']
    rfl
  · rw [made, made']
    simp only [Except.map, masked, fits]
    rfl

end Client

end PetClient
