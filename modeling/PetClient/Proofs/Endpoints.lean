import PetClient.Demo.Operation
import PetClient.Proofs.Destination
import PetClient.Proofs.Query
import PetClient.Proofs.Url.Bare

/-!
Where the operations of the pet store go: the method and the path that the table of operations
lists, behind the base address.
-/

namespace PetClient

/-! ### The table of operations -/

namespace Demo.Operation

def isNamed (operation : Operation) (name : String) : Bool :=
  ("api." ++ name ++ "(").toList.isPrefixOf operation.rust.toList

def fill (number : List Char) : List Char → List Char
  | '{' :: 'i' :: 'd' :: '}' :: rest => number ++ fill number rest
  | c :: rest => c :: fill number rest
  | [] => []

end Demo.Operation

def PetQuery.parameters (query : PetQuery) : List String :=
  (query.limit.map fun n => "limit=" ++ toString n.toNat).toList ++
    (query.offset.map fun n => "offset=" ++ toString n.toNat).toList ++
    (query.status.map fun status => "status=" ++ status.name).toList

def PetQuery.suffix (query : PetQuery) : List Char :=
  if query.parameters.isEmpty then []
  else '?' :: List.intercalate ['&'] (query.parameters.map String.toList)

namespace Call

variable {σ α : Type}

def operationName? : Call α → Option String
  | listPets _ => some "list_pets"
  | createPet _ => some "create_pet"
  | getPet _ => some "get_pet"
  | updatePet .. => some "update_pet"
  | deletePet _ => some "delete_pet"
  | getInventory => some "get_inventory"
  | placeOrder _ => some "place_order"
  | _ => none

def id? : Call α → Option Int64
  | getPet id | updatePet id _ | deletePet id => some id
  | _ => none

def number (call : Call α) : List Char :=
  (call.id?.map fun id => (toString id.toInt).toList).getD []

def suffix : Call α → List Char
  | listPets query => query.suffix
  | _ => []

def body : Call α → Bytes
  | createPet pet => Utf8.bytesOf (NewPet.shape.encode pet)
  | updatePet _ update => Utf8.bytesOf (PetUpdate.shape.encode update)
  | placeOrder order => Utf8.bytesOf (NewOrder.shape.encode order)
  | _ => []

theorem fill_pet (id : Int64) :
    (Api.petPath id).toList =
      Demo.Operation.fill (toString id.toInt).toList "/pets/\x7bid\x7d".toList := by
  have mark : "/pets/\x7bid\x7d".toList =
      ['/', 'p', 'e', 't', 's', '/', '{', 'i', 'd', '}'] := by cbv
  have front : "/pets/".toList = ['/', 'p', 'e', 't', 's', '/'] := by cbv
  rw [Api.petPath, String.toList_append, front, mark]
  simp [Demo.Operation.fill]

/-- The table has each operation once, with the method and the path of its call. -/
theorem exists_operation {call : Call α} {name : String}
    (named : call.operationName? = some name) :
    ∃ operation, Demo.operations.filter (·.isNamed name) = [operation] ∧
      call.method.name = operation.method ∧
      call.path.toList = Demo.Operation.fill call.number operation.path.toList := by
  cases call with
  | get | getWithQuery | post | put | delete => cases named
  | listPets query => cases named; exact ⟨_, by cbv, rfl, by cbv⟩
  | createPet pet => cases named; exact ⟨_, by cbv, rfl, by cbv⟩
  | getPet id =>
    cases named
    refine ⟨_, by cbv, rfl, ?_⟩
    exact fill_pet id
  | updatePet id update =>
    cases named
    refine ⟨_, by cbv, rfl, ?_⟩
    exact fill_pet id
  | deletePet id =>
    cases named
    refine ⟨_, by cbv, rfl, ?_⟩
    exact fill_pet id
  | getInventory => cases named; exact ⟨_, by cbv, rfl, by cbv⟩
  | placeOrder order => cases named; exact ⟨_, by cbv, rfl, by cbv⟩

/-! ### Paths and queries of the operations -/

theorem isPlain_number (n : Int) : Url.IsPlain (toString n).toList := by
  rw [Int.toString_eq_repr, Int.repr_eq_if]
  have digits (m : Nat) : ∀ c ∈ m.repr.toList, c.isAlphanum = true := by
    exact fun c mem => Text.forall_digit (q := fun c => c.isAlphanum = true) (by decide)
      (Text.isDigit_of_mem_toString mem)
  split
  · exact ⟨by simp, fun c mem => .inl (digits _ c mem)⟩
  · refine ⟨by simp, fun c mem => ?_⟩
    rw [String.toList_append, List.mem_append] at mem
    rcases mem with dash | digit
    · exact .inr (by simpa using dash)
    · exact .inl (digits _ c digit)

theorem isPlain_words :
    ∀ word ∈ ["pets", "store", "inventory", "orders"], Url.IsPlain word.toList := by
  simp only [List.forall_mem_cons]
  refine ⟨⟨?_, ?_⟩, ⟨?_, ?_⟩, ⟨?_, ?_⟩, ⟨?_, ?_⟩, nofun⟩
  all_goals first
    | exact Text.forall_of_all (by cbv)
    | simp

theorem exists_parts {call : Call α} (named : call.operationName? ≠ none) :
    ∃ parts, parts ≠ [] ∧ (∀ part ∈ parts, Url.IsPlain part) ∧
      call.path.toList = Url.joinSegments parts := by
  have pets : Url.IsPlain "pets".toList := isPlain_words "pets" (by simp)
  have store : Url.IsPlain "store".toList := isPlain_words "store" (by simp)
  have all : ∃ parts, parts ≠ [] ∧ (∀ part ∈ parts, Url.IsPlain part) ∧
      "/pets".toList = Url.joinSegments parts :=
    ⟨["pets".toList], List.cons_ne_nil _ _, List.forall_mem_singleton.2 pets, by cbv⟩
  have one (id : Int64) : ∃ parts, parts ≠ [] ∧ (∀ part ∈ parts, Url.IsPlain part) ∧
      (Api.petPath id).toList = Url.joinSegments parts := by
    have front : "/pets/".toList = '/' :: "pets".toList ++ ['/'] := by cbv
    refine ⟨["pets".toList, (toString id.toInt).toList], List.cons_ne_nil _ _, ?_, ?_⟩
    · exact List.forall_mem_cons.2 ⟨pets, List.forall_mem_singleton.2 (isPlain_number id.toInt)⟩
    · rw [Api.petPath, String.toList_append, front]
      simp [Url.joinSegments]
  have stored {word : String} (plain : Url.IsPlain word.toList) {path : String}
      (written : path.toList = Url.joinSegments ["store".toList, word.toList]) :
      ∃ parts, parts ≠ [] ∧ (∀ part ∈ parts, Url.IsPlain part) ∧
        path.toList = Url.joinSegments parts :=
    ⟨_, List.cons_ne_nil _ _,
      List.forall_mem_cons.2 ⟨store, List.forall_mem_singleton.2 plain⟩, written⟩
  cases call with
  | get | getWithQuery | post | put | delete => exact absurd rfl named
  | listPets query => exact all
  | createPet pet => exact all
  | getPet id => exact one id
  | updatePet id update => exact one id
  | deletePet id => exact one id
  | getInventory => exact stored (isPlain_words "inventory" (by simp)) (by cbv)
  | placeOrder order => exact stored (isPlain_words "orders" (by simp)) (by cbv)

theorem encodePair_of_plain {name value : String}
    (plain : ∀ c ∈ name.toList ++ value.toList, c.toNat < 0x80 ∧ Url.Form.isPlain c = true) :
    Url.Form.encodePair (name, value) = (name ++ "=" ++ value).toList := by
  have sign : "=".toList = ['='] := by cbv
  unfold Url.Form.encodePair
  rw [Url.Form.encodeText_of_plain fun c mem => plain c (List.mem_append_left _ mem),
    Url.Form.encodeText_of_plain fun c mem => plain c (List.mem_append_right _ mem),
    String.toList_append, String.toList_append, sign, List.append_assoc, List.singleton_append]

theorem isPlain_digits (n : Nat) :
    ∀ c ∈ (toString n).toList, c.toNat < 0x80 ∧ Url.Form.isPlain c = true := by
  exact fun c mem => Text.forall_digit
    (q := fun c => c.toNat < 0x80 ∧ Url.Form.isPlain c = true) (by decide)
    (Text.isDigit_of_mem_toString mem)

theorem parameters_eq (query : PetQuery) :
    query.parameters.map String.toList = query.pairs.map Url.Form.encodePair := by
  have number (name : String) (plain : ∀ c ∈ name.toList,
      c.toNat < 0x80 ∧ Url.Form.isPlain c = true) (n : UInt32) :
      Url.Form.encodePair (name, toString n.toNat) =
        (name ++ "=" ++ toString n.toNat).toList := by
    refine encodePair_of_plain fun c mem => ?_
    rcases List.mem_append.1 mem with here | there
    · exact plain c here
    · exact isPlain_digits _ c there
  have limit := number "limit" (Text.forall_of_all (by cbv))
  have offset := number "offset" (Text.forall_of_all (by cbv))
  have status (status : PetStatus) : Url.Form.encodePair ("status", status.name) =
      ("status=" ++ status.name).toList := by
    cases status <;> cbv
  have shortLimit : "limit" ++ "=" = "limit=" := by cbv
  have shortOffset : "offset" ++ "=" = "offset=" := by cbv
  rw [shortLimit] at limit
  rw [shortOffset] at offset
  unfold PetQuery.parameters PetQuery.pairs
  cases query.limit <;> cases query.offset <;> cases query.status <;>
    simp only [Option.map_some, Option.map_none, Option.toList_some, Option.toList_none,
      List.map_append, List.map_cons, List.map_nil, limit, offset, status]

theorem partChars_addPairs {u : Url} (bare : u.query = none) (query : PetQuery) :
    Url.partChars '?' (u.addPairs query.pairs).query = query.suffix := by
  have same := parameters_eq query
  unfold PetQuery.suffix Url.addPairs
  by_cases none : query.pairs = []
  · have no_parameters : query.parameters = [] := by
      rw [none] at same
      simpa using same
    rw [none, no_parameters]
    simp [bare, Url.partChars]
  · have parameters : query.parameters ≠ [] := by
      intro empty
      rw [empty] at same
      exact none (by simpa using same.symm)
    rw [if_neg (by simpa using none), if_neg (by simpa using parameters), same, bare]
    simp only [Option.map_none, Option.getD_none, Url.Form.foldl_addPair_nil, Url.partChars,
      String.toList_ofList]

theorem suffix_eq {call : Call α} (named : call.operationName? ≠ none) {u : Url}
    (bare : u.query = none) :
    Url.partChars '?' (u.addPairs call.pairs).query = call.suffix := by
  have unchanged : Url.partChars '?' (u.addPairs []).query = [] := by
    simp [Url.addPairs, bare, Url.partChars]
  cases call with
  | get | getWithQuery | post | put | delete => exact absurd rfl named
  | listPets query => exact partChars_addPairs bare query
  | createPet | getPet | updatePet | deletePet | getInventory | placeOrder => exact unchanged

end Call

/-! ### Requests -/

namespace Url

variable {u : Url}

theorem text_target_of_parse {text : String} (parsed : parse text = .ok u)
    (web : u.scheme = "http" ∨ u.scheme = "https") {pairs : List (String × String)}
    {t : Http.Target} (read : Http.Target.parse (u.addPairs pairs).text = .ok t) :
    t.text.toList = (u.addPairs pairs).targetChars := by
  obtain ⟨kind, plain, short⟩ := scheme_fits web
  obtain ⟨⟨a, known, proper⟩, starts⟩ := parts_of_web parsed kind
  obtain ⟨scheme, authority, path⟩ := u.parts_addPairs pairs
  have slash := starts.resolve_left (path_ne_nil parsed kind)
  refine ((separated_of_parse parsed).addPairs pairs).text_target (a := a) ?_ proper ?_ ?_ ?_ read
  · rw [authority, known]
  · rw [path]
    exact slash
  · rw [scheme]
    exact plain
  · rw [scheme]
    exact short

theorem originChars_congr {v : Url} (scheme : u.scheme = v.scheme)
    (authority : u.authority = v.authority) {a : Authority} (known : v.authority = some a) :
    u.originChars = v.originChars := by
  unfold originChars
  rw [scheme, authority, known]

theorem text_of_bare (query : u.query = none) (fragment : u.fragment = none) :
    u.text.toList = u.originChars ++ u.path.toList := by
  unfold text chars targetChars
  rw [query, fragment, String.toList_ofList]
  simp [partChars]

end Url

namespace Call

variable {σ α : Type}

def front (base : Url) : List Char :=
  Url.withoutSlash base.text.toList

theorem joined_of_prepare {config : Config} {client : Client}
    (built : Client.ofConfig config = .ok client) (bare : Url.IsBare config.baseUrl.toList)
    {base : Url} (parsed : Url.parse config.trimmedBaseUrl = .ok base)
    (web : Url.kindOf base.scheme = .web) {call : Call α} (named : call.operationName? ≠ none)
    {joined : Url} (whole : Url.parse (client.baseUrl ++ call.path) = .ok joined) :
    joined = { base with
        path := String.ofList (Url.withoutSlash base.path.toList ++ call.path.toList) } ∧
      base.query = none ∧ base.fragment = none := by
  obtain ⟨parts, nonempty, plain, path⟩ := exists_parts named
  have bare_base : Url.IsBare config.trimmedBaseUrl.toList := by
    unfold Config.trimmedBaseUrl
    rw [String.toList_ofList]
    exact bare.subset (Text.trimEnd_subset _ _)
  have ends : config.trimmedBaseUrl.toList.getLast? ≠ some '/' := by
    unfold Config.trimmedBaseUrl
    rw [String.toList_ofList]
    exact Text.getLast?_trimEnd _ _
  have written : call.path = String.ofList (Url.joinSegments parts) := by
    rw [← path, String.ofList_toList]
  rw [(Client.ofConfig_eq_ok built).1, written] at whole
  rw [path]
  exact Url.parse_append_plain parsed web bare_base ends nonempty plain whole

/-- An operation asks for its path behind the base address, with its parameters. -/
theorem text_of_prepare {config : Config} {client : Client}
    (built : Client.ofConfig config = .ok client) (bare : Url.IsBare config.baseUrl.toList)
    {base : Url} (parsed : Url.parse config.trimmedBaseUrl = .ok base)
    (web : base.scheme = "http" ∨ base.scheme = "https") {call : Call α}
    (named : call.operationName? ≠ none) {url : Url} {request : Http.Request}
    (prepared : call.prepare client = .ok (url, request)) :
    request.target.text.toList = front base ++ call.path.toList ++ call.suffix := by
  have kind := (Url.scheme_fits web).1
  obtain ⟨body, joined, target, -, whole, rfl, read, rfl⟩ := prepare_eq_ok prepared
  obtain ⟨same, query, fragment⟩ := joined_of_prepare built bare parsed kind named whole
  have scheme_kept : joined.scheme = base.scheme := by rw [same]
  have authority_kept : joined.authority = base.authority := by rw [same]
  have query_kept : joined.query = none := by
    rw [same]
    exact query
  have path_kept : joined.path.toList =
      Url.withoutSlash base.path.toList ++ call.path.toList := by
    rw [same, String.toList_ofList]
  obtain ⟨⟨a, known, -⟩, -⟩ := Url.parts_of_web parsed kind
  obtain ⟨scheme, authority, path⟩ := joined.parts_addPairs call.pairs
  calc
    target.text.toList = (joined.addPairs call.pairs).originChars ++
        (joined.addPairs call.pairs).path.toList ++
        Url.partChars '?' (joined.addPairs call.pairs).query :=
      Url.text_target_of_parse whole (scheme_kept ▸ web) read
    _ = base.originChars ++ joined.path.toList ++ call.suffix := by
      rw [Url.originChars_congr (scheme.trans scheme_kept) (authority.trans authority_kept) known,
        path, suffix_eq named query_kept]
    _ = base.originChars ++ Url.withoutSlash base.path.toList ++ call.path.toList ++
        call.suffix := by
      rw [path_kept, ← List.append_assoc]
    _ = front base ++ call.path.toList ++ call.suffix := by
      unfold front
      rw [Url.text_of_bare query fragment, Url.withoutSlash_append _ (Url.path_ne_nil parsed kind)]

theorem body_of_encoded {call : Call α} (named : call.operationName? ≠ none)
    {payload : Option Bytes} (encodes : call.encoded = .ok payload) :
    payload.getD [] = call.body := by
  have carried {value : Json} (encodes : (Except.ok (some (Utf8.bytesOf value.compact)) :
      Except Json.Problem (Option Bytes)) = .ok payload) :
      payload.getD [] = Utf8.bytesOf value.compact := by
    cases encodes
    rfl
  have bare (encodes : (Except.ok none : Except Json.Problem (Option Bytes)) = .ok payload) :
      payload.getD [] = [] := by
    cases encodes
    rfl
  cases call with
  | get | getWithQuery | post | put | delete => exact absurd rfl named
  | createPet | updatePet | placeOrder => exact carried encodes
  | listPets | getPet | deletePet | getInventory => exact bare encodes

theorem id_of_path {first : Call α} {β : Type} {second : Call β} {i j : Int64}
    (about : first.id? = some i) (about' : second.id? = some j)
    (same : first.path.toList ++ first.suffix = second.path.toList ++ second.suffix) : i = j := by
  have path {γ : Type} {call : Call γ} {id : Int64} (about : call.id? = some id) :
      call.path.toList ++ call.suffix = "/pets/".toList ++ (toString id.toInt).toList := by
    have written : (Api.petPath id).toList = "/pets/".toList ++ (toString id.toInt).toList :=
      String.toList_append
    cases call with
    | getPet | updatePet | deletePet =>
      cases about
      exact (List.append_nil _).trans written
    | _ => cases about
  rw [path about, path about'] at same
  have digits := String.toList_inj.1 (List.append_cancel_left same)
  rw [Int.toString_eq_repr, Int.toString_eq_repr] at digits
  exact Int64.toInt_inj.1 (Int.repr_injective digits)

theorem operationName_of_id {call : Call α} {id : Int64} (about : call.id? = some id) :
    call.operationName? ≠ none := by
  cases call with
  | getPet | updatePet | deletePet => exact Option.some_ne_none _
  | _ => cases about

theorem ofConfig_append_slashes (config : Config) (count : Nat) :
    Client.ofConfig { config with
        baseUrl := config.baseUrl ++ String.ofList (List.replicate count '/') } =
      Client.ofConfig config := by
  have trimmed : Config.trimmedBaseUrl { config with
      baseUrl := config.baseUrl ++ String.ofList (List.replicate count '/') } =
        config.trimmedBaseUrl := by
    unfold Config.trimmedBaseUrl
    rw [String.toList_append, String.toList_ofList, Text.trimEnd_append_replicate]
  unfold Client.ofConfig
  rw [trimmed]
  rfl

/-- Each operation asks for the path that the table lists, by the method that it lists, behind the
text of a base address without query, fragment, backslashes and blanks; its payload, if it has one,
is the body.  Other numbers make other targets, and slashes at the end of the base address make no
other client. -/
theorem operations_reach_endpoints {config : Config} {client : Client}
    (built : Client.ofConfig config = .ok client) (bare : Url.IsBare config.baseUrl.toList)
    {base : Url} (parsed : Url.parse config.trimmedBaseUrl = .ok base)
    (web : base.scheme = "http" ∨ base.scheme = "https") (transport : Transport σ) (state : σ) :
    (∀ {α : Type} (call : Call α) (name : String), call.operationName? = some name →
      ∃ operation, Demo.operations.filter (·.isNamed name) = [operation] ∧
        ∀ request ∈ call.sent client transport state,
          request.method.name = operation.method ∧
            request.target.text.toList =
              front base ++ Demo.Operation.fill call.number operation.path.toList ++ call.suffix ∧
            request.body = call.body) ∧
      (∀ {α β : Type} (first : Call α) (second : Call β) (i j : Int64),
        first.id? = some i → second.id? = some j → i ≠ j →
        ∀ request ∈ first.sent client transport state,
          ∀ other ∈ second.sent client transport state,
            request.target.text ≠ other.target.text) ∧
      ∀ count, Client.ofConfig { config with
        baseUrl := config.baseUrl ++ String.ofList (List.replicate count '/') } = .ok client := by
  have text {α : Type} {call : Call α} (typed : call.operationName? ≠ none)
      {request : Http.Request} (sent : request ∈ call.sent client transport state) :
      request.target.text.toList = front base ++ call.path.toList ++ call.suffix := by
    rw [sent_eq_requests, mem_requests] at sent
    obtain ⟨url, prepared⟩ := sent
    exact text_of_prepare built bare parsed web typed prepared
  refine ⟨?_, ?_, fun count => (ofConfig_append_slashes config count).trans built⟩
  · intro α call name named
    obtain ⟨operation, listed, method, path⟩ := exists_operation named
    refine ⟨operation, listed, fun request sent => ?_⟩
    have typed : call.operationName? ≠ none := by
      rw [named]
      exact Option.some_ne_none name
    have target := text typed sent
    rw [sent_eq_requests, mem_requests] at sent
    obtain ⟨url, prepared⟩ := sent
    obtain ⟨payload, _, _, encodes, -, -, -, rfl⟩ := prepare_eq_ok prepared
    exact ⟨method, path ▸ target, body_of_encoded typed encodes⟩
  · intro α β first second i j about about' differ request sent other sent' same
    have target := text (operationName_of_id about) sent
    rw [same, text (operationName_of_id about') sent', List.append_assoc,
      List.append_assoc] at target
    exact differ (id_of_path about about' (List.append_cancel_left target).symm)

/-- Credentials and an empty segment stay in the address, and the port that the scheme stands for
and a segment that is taken back do not. -/
theorem operations_reach_endpoints_nested :
    ∃ client, Client.ofConfig { baseUrl := "http://me:pass@[::1]:80/v1//x/..//" } = .ok client ∧
      ∀ transport : Transport Unit,
        (getPet (-5)).sent client transport () ≠ [] ∧
          ∀ request ∈ (getPet (-5)).sent client transport (),
            request.method.name = "GET" ∧
              request.target.text = "http://me:pass@[::1]/v1//pets/-5" ∧ request.body = [] := by
  let base : Url :=
    { scheme := "http"
      authority := some
        { username := "me"
          password := "pass"
          host := some (.ipv6 [0, 0, 0, 0, 0, 0, 0, 1]) }
      path := "/v1//" }
  have built : Client.ofConfig { baseUrl := "http://me:pass@[::1]:80/v1//x/..//" } =
      .ok ⟨"http://me:pass@[::1]:80/v1//x/..", []⟩ := by cbv
  have bare : Url.IsBare "http://me:pass@[::1]:80/v1//x/..//".toList :=
    Text.forall_of_all (by cbv)
  have parsed : Url.parse
      (Config.trimmedBaseUrl { baseUrl := "http://me:pass@[::1]:80/v1//x/..//" }) =
        .ok base := by cbv
  have table : Demo.operations.filter (·.isNamed "get_pet") =
      [⟨"GET", "/pets/\x7bid\x7d", "api.get_pet(id)", "client.get(f'/pets/\x7bid\x7d')",
        "getPet(id)"⟩] := by cbv
  have text : front base ++ Demo.Operation.fill (getPet (-5)).number "/pets/\x7bid\x7d".toList ++
      (getPet (-5)).suffix = "http://me:pass@[::1]/v1//pets/-5".toList := by cbv
  have request_eq : (getPet (-5)).requests ⟨"http://me:pass@[::1]:80/v1//x/..", []⟩ =
      [⟨.get, ⟨some "http", "me:pass@[::1]", "/v1//pets/-5"⟩,
        [⟨"accept", "application/json", false⟩], []⟩] := by cbv
  refine ⟨_, built, fun transport => ⟨?_, ?_⟩⟩
  · rw [sent_eq_requests, request_eq]
    exact List.cons_ne_nil _ _
  · obtain ⟨reached, -, -⟩ :=
      operations_reach_endpoints built bare parsed (.inl rfl) transport ()
    obtain ⟨operation, listed, sent⟩ := reached (getPet (-5)) "get_pet" rfl
    rw [table] at listed
    cases listed
    intro request mem
    obtain ⟨method, target, body⟩ := sent request mem
    exact ⟨method, String.toList_inj.1 (target.trans text), body⟩

end Call

end PetClient
