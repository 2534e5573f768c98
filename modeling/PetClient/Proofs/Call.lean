import PetClient.Api
import PetClient.Proofs.Result

/-!
Calls as values: what a caller gives, and the request that a client makes of it.  Each call is
prepared first, which can fail before anything is sent, and is settled by the answer.  A recording
transport shows which requests are sent.
-/

namespace PetClient

theorem Client.ofConfig_eq_ok {config : Config} {client : Client}
    (built : Client.ofConfig config = .ok client) :
    client.baseUrl = config.trimmedBaseUrl ∧
      config.effectiveHeaders.entries.foldlM Client.addHeader [] = .ok client.fields := by
  obtain ⟨fields, folded, made⟩ := Result.bind_eq_ok.1 built
  cases made
  exact ⟨rfl, folded⟩

def Transport.recording {σ : Type} (transport : Transport σ) :
    Transport (σ × List Http.Request) where
  send request state :=
    let reply := transport.send request state.1
    ⟨reply.answer, reply.log, (reply.state, state.2 ++ [request])⟩

/-- A call and the type of what it gives: a plain call, whose answer is read by any shape, or an
operation of the pet store. -/
inductive Call : Type → Type 1
  | get {α : Type} (shape : Json.Shape α) (path : String) : Call α
  | getWithQuery {α : Type} (shape : Json.Shape α) (path : String)
      (pairs : List (String × String)) : Call α
  | post {α : Type} (shape : Json.Shape α) (path : String)
      (payload : Except Json.Problem Json) : Call α
  | put {α : Type} (shape : Json.Shape α) (path : String)
      (payload : Except Json.Problem Json) : Call α
  | delete {α : Type} (shape : Json.Shape α) (path : String) : Call α
  | listPets (query : PetQuery) : Call (List Pet)
  | createPet (pet : NewPet) : Call Pet
  | getPet (id : Int64) : Call Pet
  | updatePet (id : Int64) (update : PetUpdate) : Call Pet
  | deletePet (id : Int64) : Call Unit
  | getInventory : Call Inventory
  | placeOrder (order : NewOrder) : Call Order

namespace Call

variable {σ α : Type}

def perform (client : Client) (transport : Transport σ) : Call α → σ → Outcome σ α
  | get shape path => client.get transport shape path
  | getWithQuery shape path pairs => client.getWithQuery transport shape path pairs
  | post shape path payload => client.post transport shape path payload
  | put shape path payload => client.put transport shape path payload
  | delete shape path => client.delete transport shape path
  | listPets query => Api.listPets client transport query
  | createPet pet => Api.createPet client transport pet
  | getPet id => Api.getPet client transport id
  | updatePet id update => Api.updatePet client transport id update
  | deletePet id => Api.deletePet client transport id
  | getInventory => Api.getInventory client transport
  | placeOrder order => Api.placeOrder client transport order

def method : Call α → Http.Method
  | get .. | getWithQuery .. | listPets _ | getPet _ | getInventory => .get
  | post .. | createPet _ | placeOrder _ => .post
  | put .. | updatePet .. => .put
  | delete .. | deletePet _ => .delete

def path : Call α → String
  | get _ path | getWithQuery _ path _ | post _ path _ | put _ path _ | delete _ path => path
  | listPets _ | createPet _ => "/pets"
  | getPet id | updatePet id _ | deletePet id => Api.petPath id
  | getInventory => "/store/inventory"
  | placeOrder _ => "/store/orders"

def pairs : Call α → List (String × String)
  | getWithQuery _ _ pairs => pairs
  | listPets query => query.pairs
  | _ => []

def payload : Call α → Option (Except Json.Problem Json)
  | post _ _ payload | put _ _ payload => some payload
  | createPet pet => some (.ok (NewPet.shape.write pet))
  | updatePet _ update => some (.ok (PetUpdate.shape.write update))
  | placeOrder order => some (.ok (NewOrder.shape.write order))
  | _ => none

def encoded (call : Call α) : Except Json.Problem (Option Bytes) :=
  match call.payload with
  | none => .ok none
  | some (.error problem) => .error problem
  | some (.ok payload) => .ok (some (Utf8.bytesOf payload.compact))

def HasPayload (call : Call α) : Prop :=
  call.method = .post ∨ call.method = .put

def valueOf (shape : Json.Shape α) (body : Bytes) : Except Json.Refusal α :=
  if body.all Client.isBlank then shape.decodeNull else shape.decode body

def readBody : Call α → Bytes → Except Json.Refusal α
  | get shape _ | getWithQuery shape _ _ | post shape _ _ | put shape _ _ | delete shape _ =>
    valueOf shape
  | listPets _ => valueOf (Json.list Pet.shape)
  | createPet _ | getPet _ | updatePet .. => valueOf Pet.shape
  | deletePet _ => fun body => (valueOf Json.any body).map fun _ => ()
  | getInventory => valueOf Inventory.shape
  | placeOrder _ => valueOf Order.shape

/-- The address and the request of a call, or why nothing is sent. -/
def prepare (client : Client) (call : Call α) : Except ClientError (Url × Http.Request) :=
  match call.encoded with
  | .error problem => .error (.encode problem)
  | .ok body =>
    match client.address call.path call.pairs with
    | .error error => .error error
    | .ok url => (client.request call.method url body).map fun request => (url, request)

def resultOf (call : Call α) (response : Http.Response) : Except ClientError α :=
  if response.status.isFailure then .error (.http response.status response.body)
  else (call.readBody response.body).mapError .decode

def settle (call : Call α) (url : Url) (reply : Reply σ) : Outcome σ α :=
  let log := ⟨.debug, Client.requestLine call.method url⟩ :: reply.log
  match reply.answer with
  | .error error => ⟨.error (.transport error), log, reply.state⟩
  | .ok response =>
    ⟨call.resultOf response, log ++ Client.answerLog call.method url response, reply.state⟩

/-- What a call comes to: it is refused, or its request is sent and the answer settles it. -/
def outcome (client : Client) (transport : Transport σ) (call : Call α) (state : σ) :
    Outcome σ α :=
  match call.prepare client with
  | .error error => .refused error state
  | .ok (url, request) => call.settle url (transport.send request state)

private theorem resultOf_of_shape (call : Call α) (shape : Json.Shape α)
    (reads : call.readBody = valueOf shape) (response : Http.Response) :
    call.resultOf response = Client.resultOf shape response := by
  unfold resultOf
  rw [reads]
  rfl

private theorem execute_eq (client : Client) (transport : Transport σ) (call : Call α)
    (shape : Json.Shape α) (reads : call.readBody = valueOf shape) (url : Url)
    (body : Option Bytes) (state : σ) :
    client.execute transport shape call.method url body state =
      match (client.request call.method url body).map fun request => (url, request) with
      | .error error => .refused error state
      | .ok (url, request) => call.settle url (transport.send request state) := by
  unfold Client.execute
  cases client.request call.method url body with
  | error error => rfl
  | ok request =>
    simp only [Except.map, settle]
    cases (transport.send request state).answer with
    | error error => rfl
    | ok response => simp only [resultOf_of_shape call shape reads]

private theorem call_eq_outcome (client : Client) (transport : Transport σ) (call : Call α)
    (shape : Json.Shape α) (state : σ) (bare : call.payload = none)
    (reads : call.readBody = valueOf shape) :
    client.call transport shape call.method call.path call.pairs state =
      call.outcome client transport state := by
  have empty : call.encoded = .ok none := by unfold encoded; rw [bare]
  unfold Client.call outcome prepare
  rw [empty]
  cases client.address call.path call.pairs with
  | error error => rfl
  | ok url => simp only [execute_eq client transport call shape reads]

private theorem callWith_eq_outcome (client : Client) (transport : Transport σ) (call : Call α)
    (shape : Json.Shape α) (payload : Except Json.Problem Json) (state : σ)
    (carries : call.payload = some payload) (plain : call.pairs = [])
    (reads : call.readBody = valueOf shape) :
    client.callWith transport shape call.method call.path payload state =
      call.outcome client transport state := by
  unfold Client.callWith outcome prepare encoded
  rw [carries, plain]
  cases payload with
  | error problem => rfl
  | ok payload =>
    cases client.address call.path [] with
    | error error => rfl
    | ok url => simp only [execute_eq client transport call shape reads]

private theorem outcome_deletePet (client : Client) (transport : Transport σ) (id : Int64)
    (state : σ) :
    ((delete Json.any (Api.petPath id)).outcome client transport state).map (fun _ => ()) =
      (deletePet id).outcome client transport state := by
  unfold outcome
  change Outcome.map _ (match (deletePet id).prepare client with
    | .error error => .refused error state
    | .ok (url, request) => settle _ url (transport.send request state)) = _
  cases (deletePet id).prepare client with
  | error error => rfl
  | ok prepared =>
    simp only [settle]
    cases (transport.send prepared.2 state).answer with
    | error error => rfl
    | ok response =>
      have result : ((delete Json.any (Api.petPath id)).resultOf response).map (fun _ => ()) =
          (deletePet id).resultOf response := by
        unfold resultOf
        split
        · rfl
        · simp only [readBody]
          cases valueOf Json.any response.body <;> rfl
      simp only [Outcome.map, result]
      rfl

theorem perform_eq_outcome (client : Client) (transport : Transport σ) (call : Call α)
    (state : σ) : call.perform client transport state = call.outcome client transport state := by
  cases call with
  | get shape path =>
    exact call_eq_outcome client transport (get shape path) shape state rfl rfl
  | getWithQuery shape path pairs =>
    exact call_eq_outcome client transport (getWithQuery shape path pairs) shape state rfl rfl
  | post shape path payload =>
    exact callWith_eq_outcome client transport (post shape path payload) shape payload state
      rfl rfl rfl
  | put shape path payload =>
    exact callWith_eq_outcome client transport (put shape path payload) shape payload state
      rfl rfl rfl
  | delete shape path =>
    exact call_eq_outcome client transport (delete shape path) shape state rfl rfl
  | listPets query =>
    exact call_eq_outcome client transport (listPets query) (Json.list Pet.shape) state rfl rfl
  | createPet pet =>
    exact callWith_eq_outcome client transport (createPet pet) Pet.shape
      (.ok (NewPet.shape.write pet)) state rfl rfl rfl
  | getPet id => exact call_eq_outcome client transport (getPet id) Pet.shape state rfl rfl
  | updatePet id update =>
    exact callWith_eq_outcome client transport (updatePet id update) Pet.shape
      (.ok (PetUpdate.shape.write update)) state rfl rfl rfl
  | deletePet id =>
    rw [← outcome_deletePet]
    exact congrArg (Outcome.map fun _ => ())
      (call_eq_outcome client transport (delete Json.any (Api.petPath id)) Json.any state rfl rfl)
  | getInventory =>
    exact call_eq_outcome client transport getInventory Inventory.shape state rfl rfl
  | placeOrder order =>
    exact callWith_eq_outcome client transport (placeOrder order) Order.shape
      (.ok (NewOrder.shape.write order)) state rfl rfl rfl

/-! ### Requests that are sent -/

def sent (client : Client) (transport : Transport σ) (call : Call α) (state : σ) :
    List Http.Request :=
  (call.perform client transport.recording (state, [])).state.2

def requests (client : Client) (call : Call α) : List Http.Request :=
  match call.prepare client with
  | .error _ => []
  | .ok (_, request) => [request]

/-- A transport that keeps its requests makes the same of a call, and what it keeps is the request
that was prepared. -/
theorem perform_recording (client : Client) (transport : Transport σ) (call : Call α) (state : σ)
    (before : List Http.Request) :
    call.perform client transport.recording (state, before) =
      let outcome := call.perform client transport state
      ⟨outcome.result, outcome.log, (outcome.state, before ++ call.requests client)⟩ := by
  rw [perform_eq_outcome, perform_eq_outcome]
  unfold outcome requests
  cases call.prepare client with
  | error error => simp [Outcome.refused]
  | ok prepared =>
    simp only [settle, Transport.recording]
    cases (transport.send prepared.2 state).answer with
    | error error => rfl
    | ok response => rfl

theorem sent_eq_requests (client : Client) (transport : Transport σ) (call : Call α) (state : σ) :
    call.sent client transport state = call.requests client := by
  unfold sent
  rw [perform_recording]
  rfl

theorem mem_requests {client : Client} {call : Call α} {request : Http.Request} :
    request ∈ call.requests client ↔ ∃ url, call.prepare client = .ok (url, request) := by
  unfold requests
  cases call.prepare client with
  | error error => simp
  | ok prepared =>
    obtain ⟨url, prepared⟩ := prepared
    simp [eq_comm]

theorem hasPayload_iff (call : Call α) : call.HasPayload ↔ call.payload.isSome := by
  cases call <;> simp [HasPayload, method, payload]

theorem isSome_encoded {call : Call α} {body : Option Bytes} (encodes : call.encoded = .ok body) :
    body.isSome ↔ call.HasPayload := by
  rw [hasPayload_iff]
  unfold encoded at encodes
  cases carried : call.payload with
  | none =>
    rw [carried] at encodes
    cases encodes
    rfl
  | some payload =>
    rw [carried] at encodes
    cases payload with
    | error problem => cases encodes
    | ok payload =>
      cases encodes
      rfl

/-- What a request is made of: its address is the base address and the path with the pairs added. -/
theorem prepare_eq_ok {client : Client} {call : Call α} {url : Url} {request : Http.Request}
    (prepared : call.prepare client = .ok (url, request)) :
    ∃ body base target, call.encoded = .ok body ∧
      Url.parse (client.baseUrl ++ call.path) = .ok base ∧ url = base.addPairs call.pairs ∧
      Http.Target.parse url.text = .ok target ∧
      request = ⟨call.method, target, client.requestFields body.isSome, body.getD []⟩ := by
  unfold prepare at prepared
  cases encodes : call.encoded with
  | error problem => simp [encodes] at prepared
  | ok body =>
    simp only [encodes, Client.address] at prepared
    cases parsed : Url.parse (client.baseUrl ++ call.path) with
    | error problem => simp [parsed] at prepared
    | ok base =>
      simp only [parsed, Client.request] at prepared
      cases read : Http.Target.parse (base.addPairs call.pairs).text with
      | error problem => simp [read, Except.map] at prepared
      | ok target =>
        simp only [read, Except.map, Except.ok.injEq, Prod.mk.injEq] at prepared
        obtain ⟨rfl, rfl⟩ := prepared
        exact ⟨body, base, target, rfl, rfl, rfl, read, rfl⟩

end Call

end PetClient
