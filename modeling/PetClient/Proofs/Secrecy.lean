import PetClient.Proofs.Masking
import PetClient.Proofs.Outcome

/-!
Two runs of calls by clients whose tokens differ.  As long as the answers of the transport do not
depend on the credentials, both runs take the same course: nothing but the credentials of the
requests tells them apart.
-/

namespace PetClient

namespace Transport

variable {σ β : Type} {transport : Transport σ} {see : Reply σ → β} {first second : σ}

def observed (transport : Transport σ) (see : Reply σ → β) : List Http.Request → σ → List β
  | [], _ => []
  | request :: rest, state =>
    let reply := transport.send request state
    see reply :: transport.observed see rest reply.state

/-- From two states on, what is seen of the replies does not depend on the value of the
credentials. -/
def Alike (transport : Transport σ) (see : Reply σ → β) (first second : σ) : Prop :=
  ∀ requests others : List Http.Request,
    requests.map Http.Request.masked = others.map Http.Request.masked →
      transport.observed see requests first = transport.observed see others second

theorem Alike.send (alike : transport.Alike see first second) {request other : Http.Request}
    (same : request.masked = other.masked) :
    see (transport.send request first) = see (transport.send other second) ∧
      transport.Alike see (transport.send request first).state
        (transport.send other second).state := by
  constructor
  · exact (List.cons.inj (alike [request] [other] (congrArg (fun r => [r]) same))).1
  · intro requests others rest_same
    have whole := alike (request :: requests) (other :: others)
      (congrArg₂ List.cons same rest_same)
    exact (List.cons.inj whole).2

def keeping (response : Http.Response) : Transport (List Http.Request) where
  send request kept := ⟨.ok response, [], kept ++ [request]⟩

theorem alike_keeping (response : Http.Response) (kept others : List Http.Request) :
    (keeping response).Alike Reply.answer kept others := by
  have observed_eq (requests kept : List Http.Request) :
      (keeping response).observed Reply.answer requests kept =
        List.replicate requests.length (.ok response) := by
    induction requests generalizing kept with
    | nil => rfl
    | cons request rest ih => exact congrArg (.ok response :: ·) (ih (kept ++ [request]))
  intro requests more same
  have length : requests.length = more.length := by
    simpa only [List.length_map] using congrArg List.length same
  rw [observed_eq, observed_eq, length]

end Transport

namespace Call

variable {σ α : Type}

structure Account where
  result : (α : Type) × Except ClientError α
  /-- What the client recorded. -/
  own : List LogRecord
  /-- What the client and the transport recorded. -/
  records : List LogRecord
  requests : List Http.Request

def account (client : Client) (transport : Transport σ) (call : Call α) (state : σ) : Account where
  result := ⟨α, (call.perform client transport state).result⟩
  own := (call.perform client transport.silent state).log
  records := (call.perform client transport state).log
  requests := call.sent client transport state

def accounts (client : Client) (transport : Transport σ) :
    List ((α : Type) × Call α) → σ → List Account
  | [], _ => []
  | ⟨_, call⟩ :: rest, state =>
    call.account client transport state ::
      accounts client transport rest (call.perform client transport state).state

def credentials (request : Http.Request) : Http.Fields :=
  request.fields.filter fun field => field.name = Client.authorizationField

def credentialsOf (token : String) : Http.Fields :=
  [⟨Client.authorizationField, "Bearer " ++ token, true⟩]

/-- Two accounts of a call that differ in the credentials of the requests alone. -/
structure Account.Matches (first second : String) (x y : Account) : Prop where
  result : x.result = y.result
  own : x.own = y.own
  requests : x.requests.map Http.Request.masked = y.requests.map Http.Request.masked
  first : ∀ request ∈ x.requests, credentials request = credentialsOf first
  second : ∀ request ∈ y.requests, credentials request = credentialsOf second

theorem prepare_alike {a b : Client} (same : a.masked = b.masked) (call : Call α) :
    (∃ error, call.prepare a = .error error ∧ call.prepare b = .error error) ∨
      ∃ url request other, call.prepare a = .ok (url, request) ∧
        call.prepare b = .ok (url, other) ∧ request.masked = other.masked := by
  have prepared : (call.prepare a).map (fun p => (p.1, p.2.masked)) =
      (call.prepare b).map fun p => (p.1, p.2.masked) := by
    rw [← prepare_masked, ← prepare_masked, same]
  rcases Result.alike_of_map_eq prepared with failed | ⟨⟨url, request⟩, ⟨_, other⟩, ok, ok', fits⟩
  · exact .inl failed
  · obtain ⟨rfl, masks⟩ := Prod.mk.inj fits
    exact .inr ⟨url, request, other, ok, ok', masks⟩

theorem perform_of_prepared {client : Client} {call : Call α} {url : Url} {request : Http.Request}
    (prepared : call.prepare client = .ok (url, request)) (transport : Transport σ) (state : σ) :
    call.perform client transport state = call.settle url (transport.send request state) ∧
      call.sent client transport state = [request] :=
  perform_of_ready (ready_iff.2 prepared)

theorem settle_alike (call : Call α) (url : Url) {reply other : Reply σ}
    (answer : reply.answer = other.answer) :
    (call.settle url reply).result = (call.settle url other).result ∧
      (reply.log = other.log → (call.settle url reply).log = (call.settle url other).log) := by
  unfold settle
  rw [answer]
  cases other.answer with
  | error error =>
    refine ⟨rfl, fun log => ?_⟩
    simp only [log]
  | ok response =>
    refine ⟨rfl, fun log => ?_⟩
    simp only [log]

theorem state_settle (call : Call α) (url : Url) (reply : Reply σ) :
    (call.settle url reply).state = reply.state := by
  unfold settle
  cases reply.answer <;> rfl

section Two

variable {a b : Client} {transport : Transport σ} {state other : σ}

theorem alike_perform {β : Type} {see : Reply σ → β} (same : a.masked = b.masked)
    (alike : transport.Alike see state other) (call : Call α) :
    transport.Alike see (call.perform a transport state).state
      (call.perform b transport other).state := by
  rcases prepare_alike same call with ⟨error, failed, failed'⟩ | ⟨url, r, r', ready, ready', masks⟩
  · rw [(perform_of_refused failed).1, (perform_of_refused failed').1]
    exact alike
  · rw [(perform_of_prepared ready transport state).1,
      (perform_of_prepared ready' transport other).1, state_settle, state_settle]
    exact (alike.send masks).2

/-- From states that answer alike, one call is the same for both clients but for the credentials. -/
theorem account_alike (same : a.masked = b.masked)
    (answers : transport.Alike Reply.answer state other) (call : Call α) :
    (call.account a transport state).result = (call.account b transport other).result ∧
      (call.account a transport state).own = (call.account b transport other).own ∧
      (call.account a transport state).requests.map Http.Request.masked =
        (call.account b transport other).requests.map Http.Request.masked ∧
      (transport.Alike Reply.log state other →
        (call.account a transport state).records = (call.account b transport other).records) := by
  unfold account
  rcases prepare_alike same call with ⟨error, failed, failed'⟩ | ⟨url, r, r', ready, ready', masks⟩
  · simp only [(perform_of_refused failed).1, (perform_of_refused failed').1,
      (perform_of_refused failed).2, (perform_of_refused failed').2]
    exact ⟨trivial, trivial, trivial, fun _ => trivial⟩
  · have answer := (answers.send masks).1
    have settled := call.settle_alike url answer
    have silent_answer : (transport.silent.send r state).answer =
        (transport.silent.send r' other).answer := answer
    have silent := call.settle_alike url silent_answer
    simp only [(perform_of_prepared ready transport state).1,
      (perform_of_prepared ready' transport other).1,
      (perform_of_prepared ready transport.silent state).1,
      (perform_of_prepared ready' transport.silent other).1,
      (perform_of_prepared ready transport state).2, (perform_of_prepared ready' transport other).2]
    refine ⟨?_, silent.2 rfl, ?_, fun logs => settled.2 (logs.send masks).1⟩
    · rw [settled.1]
    · rw [List.map_singleton, List.map_singleton, masks]

end Two

theorem credentials_of_sent {config : Config} {token : String} (given : token ≠ "")
    {client : Client} (built : Client.ofConfig (config.withToken token) = .ok client)
    {transport : Transport σ} {call : Call α} {state : σ} {request : Http.Request}
    (sent : request ∈ call.sent client transport state) :
    credentials request = credentialsOf token := by
  rw [sent_eq_requests, mem_requests] at sent
  obtain ⟨url, prepared⟩ := sent
  obtain ⟨body, base, target, -, -, -, -, rfl⟩ := prepare_eq_ok prepared
  exact Client.filter_name_of_mem
    (Client.nodup_names_requestFields (Client.nodup_names_ofConfig built) body.isSome)
    (Client.authorization_mem_requestFields built (config.authorization_withToken given)
      body.isSome)

/-- Runs of calls from states that answer alike match call by call. -/
theorem matches_accounts {config : Config} {first second : String} (given : first ≠ "")
    (given' : second ≠ "") {a b : Client}
    (built : Client.ofConfig (config.withToken first) = .ok a)
    (built' : Client.ofConfig (config.withToken second) = .ok b) (same : a.masked = b.masked)
    {transport : Transport σ} (calls : List ((α : Type) × Call α)) {state other : σ}
    (answers : transport.Alike Reply.answer state other) :
    List.Forall₂ (Account.Matches first second) (accounts a transport calls state)
        (accounts b transport calls other) ∧
      (transport.Alike Reply.log state other →
        (accounts a transport calls state).map Account.records =
          (accounts b transport calls other).map Account.records) := by
  -- The states of the two runs may differ; what carries over is that they answer alike.
  induction calls generalizing state other with
  | nil => exact ⟨.nil, fun _ => rfl⟩
  | cons call rest ih =>
    obtain ⟨result, own, requests, records⟩ := account_alike same answers call.2
    obtain ⟨later, later_records⟩ := ih (alike_perform same answers call.2)
    refine ⟨.cons ⟨result, own, requests, fun _ => credentials_of_sent given built, fun _ =>
      credentials_of_sent given' built'⟩ later, fun logs => ?_⟩
    exact congrArg₂ List.cons (records logs) (later_records (alike_perform same logs call.2))

/-- Of two tokens that are both good values or both bad ones, neither is seen in anything but the
credentials of requests: setting up a client fails for both because of the same header field, or
gives clients whose runs have the same results and records and send the same requests but for the
credentials.  The transport may record and keep what it likes, as long as its answers do not depend
on the credentials; if its records do not either, all records are the same. -/
theorem token_seen_in_credentials_only (config : Config) {first second : String}
    (given : first ≠ "") (given' : second ≠ "")
    (alike : Http.isFieldValue first = Http.isFieldValue second) :
    (∃ name, Client.ofConfig (config.withToken first) = .error (.invalidHeader name) ∧
      Client.ofConfig (config.withToken second) = .error (.invalidHeader name) ∧
      (name = "Authorization" ∨ name ∈ config.headers.entries.map Prod.fst) ∧
      (ClientError.invalidHeader name).message = "invalid header '" ++ name ++ "'" ∧
      (ClientError.invalidHeader name).causes = []) ∨
    ∃ a b, Client.ofConfig (config.withToken first) = .ok a ∧
      Client.ofConfig (config.withToken second) = .ok b ∧
      ∀ {σ : Type} (transport : Transport σ) (calls : List ((α : Type) × Call α)) (state : σ),
        transport.Alike Reply.answer state state →
          List.Forall₂ (Account.Matches first second) (accounts a transport calls state)
              (accounts b transport calls state) ∧
            (transport.Alike Reply.log state state →
              (accounts a transport calls state).map Account.records =
                (accounts b transport calls state).map Account.records) := by
  have masks := Client.masked_ofConfig config given given' alike
  rcases Result.alike_of_map_eq masks with ⟨error, failed, failed'⟩ | ⟨a, b, built, built', same⟩
  · left
    obtain ⟨e, mem, rfl⟩ := Client.ofConfig_eq_error failed
    exact ⟨e.1, failed, failed', Config.name_of_mem_effectiveHeaders given mem, rfl, rfl⟩
  · right
    exact ⟨a, b, built, built', fun transport calls state answers =>
      matches_accounts given given' built built' same calls answers⟩

/-- Two tokens make two runs that match, although the transport keeps requests that differ. -/
theorem token_seen_in_credentials_only_kept :
    let config : Config := { baseUrl := "http://[::1]/" }
    let transport := Transport.keeping ⟨.ok, []⟩
    let calls : List ((α : Type) × Call α) := [⟨Unit, get Json.unit "/pets"⟩]
    ∃ a b, Client.ofConfig (config.withToken "t") = .ok a ∧
      Client.ofConfig (config.withToken "u") = .ok b ∧
      (accounts a transport calls []).map (fun x => x.requests.map credentials) =
        [[credentialsOf "t"]] ∧
      List.Forall₂ (Account.Matches "t" "u") (accounts a transport calls [])
        (accounts b transport calls []) := by
  intro config transport calls
  have built : Client.ofConfig (config.withToken "t") =
      .ok ⟨"http://[::1]", [⟨"authorization", "Bearer t", true⟩]⟩ := by cbv
  have alike : Http.isFieldValue "t" = Http.isFieldValue "u" := by cbv
  have sent : (get Json.unit "/pets").requests
      ⟨"http://[::1]", [⟨"authorization", "Bearer t", true⟩]⟩ =
        [⟨.get, ⟨some "http", "[::1]", "/pets"⟩,
          [⟨"authorization", "Bearer t", true⟩, ⟨"accept", "application/json", false⟩], []⟩] := by
    cbv
  have given : "t" ≠ "" ∧ "u" ≠ "" := by decide
  rcases token_seen_in_credentials_only config given.1 given.2 alike with
    ⟨name, failed, -⟩ | ⟨a, b, built', other, runs⟩
  · rw [built] at failed
    cases failed
  · rw [built] at built'
    cases built'
    refine ⟨_, b, built, other, ?_, (runs transport calls [] (Transport.alike_keeping _ [] [])).1⟩
    simp only [calls, accounts, account, List.map_singleton, sent_eq_requests, sent]
    rfl

end Call

end PetClient
