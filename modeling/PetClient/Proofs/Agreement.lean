import PetClient.Proofs.Endpoints
import PetClient.Proofs.Exchange
import PetClient.Proofs.Secrecy

/-!
Calls over a connection and calls in memory.  A server at the base address that answers with complete
responses makes the same of any run of calls as a transport that gives these responses directly.
-/

namespace PetClient

open Http.Exchange (Server Sent arrival addedFields connectionFields IsTrimmed transport)

def Transport.returning (responses : Nat → Http.Response) : Transport Nat where
  send _ count := ⟨.ok (responses count), [], count + 1⟩

/-! ### Configurations -/

/-- Whether a configuration sets no limit of time and leaves to a connection what belongs to it: no
field of the connection is configured, and no value with blanks around it. -/
structure Config.LeavesConnection (config : Config) : Prop where
  unlimited : config.timeoutSecs = none
  names : ∀ e ∈ config.effectiveHeaders.entries, Http.lowerCase e.1 ∉ connectionFields
  values : ∀ e ∈ config.effectiveHeaders.entries, IsTrimmed e.2

theorem Client.leavesConnection {config : Config} (leaves : config.LeavesConnection)
    {client : Client} (built : Client.ofConfig config = .ok client) {request : Http.Request}
    {hasBody : Bool} (fields : request.fields = client.requestFields hasBody) :
    Http.Exchange.LeavesConnection request := by
  have own : ∀ field ∈ client.fields, field.name ∉ connectionFields ∧ IsTrimmed field.value := by
    rw [Client.fields_ofConfig built]
    intro field mem
    obtain ⟨e, mem_entries, rfl⟩ := List.mem_map.1 mem
    exact ⟨leaves.names e mem_entries, leaves.values e mem_entries⟩
  have json : IsTrimmed Client.jsonType :=
    Http.Exchange.isTrimmed_of_visible (Text.forall_of_all (by cbv))
  have all : ∀ field ∈ request.fields, field.name ∉ connectionFields ∧ IsTrimmed field.value := by
    rw [fields]
    intro field mem
    rcases Client.mem_requestFields.1 mem with ⟨configured, -⟩ | ⟨rfl, -⟩ | ⟨rfl, -⟩
    · exact own field configured
    · exact ⟨by decide, json⟩
    · exact ⟨by decide, json⟩
  exact ⟨fun field mem => (all field mem).1, fun field mem => (all field mem).2⟩

/-! ### Addresses -/

structure Http.Exchange.Server.IsAt {σ : Type} (server : Server σ) (base : Url) : Prop where
  found : server.answersFor base = true
  bare : ∀ a, base.authority = some a → a.username = "" ∧ a.password = ""

theorem Http.Exchange.Server.IsAt.scheme {σ : Type} {server : Server σ} {base : Url}
    (isAt : server.IsAt base) : base.scheme = "http" := by
  have found := isAt.found
  unfold Server.answersFor at found
  rw [Bool.and_eq_true, Bool.and_eq_true, decide_eq_true_iff, decide_eq_true_iff] at found
  exact found.1.1

theorem Http.Exchange.Server.IsAt.of_same {σ : Type} {server : Server σ} {base u : Url}
    (isAt : server.IsAt base) (scheme : u.scheme = base.scheme)
    (authority : u.authority = base.authority) : server.IsAt u := by
  constructor
  · have found := isAt.found
    unfold Server.answersFor Http.Exchange.effectivePort at found ⊢
    rwa [scheme, authority]
  · rw [authority]
    exact isAt.bare

theorem Url.Stands.meets {σ : Type} {server : Server σ} {u : Url} (stands : u.Stands)
    (isAt : server.IsAt u) {request : Http.Request}
    (read : Http.Target.parse u.text = .ok request.target) :
    server.Meets request { u with fragment := none } := by
  obtain ⟨a, known, settled⟩ := stands.authority
  have target := stands.target_eq known read
  have bare := settled.bare
  have chars : a.chars = a.hostChars ++ a.portChars := by
    obtain ⟨host, named, -⟩ := settled.host
    rw [settled.chars named, Authority.hostChars_eq named]
  have text : request.target.text = String.ofList u.targetChars := by
    apply String.toList_inj.1
    rw [target, Url.Stands.targetChars_eq known]
    unfold Http.Target.text
    simp
  constructor
  · rw [text]
    exact stands.parse_targetChars
  · unfold Http.Exchange.takeCredentials
    simp only [known, bare, decide_true, Bool.and_self, if_true]
  · exact (isAt.of_same rfl rfl).found
  · unfold Http.Exchange.hostValue
    simp only [known, target, chars]
  · rw [target, String.toList_ofList]
    exact Url.visible_chars settled
  · rw [target]
    simp

namespace Call

variable {σ α : Type}

section One

variable {config : Config} {client : Client} {base : Url} {server : Server σ}
  (built : Client.ofConfig config = .ok client)
  (parsed : Url.parse config.trimmedBaseUrl = .ok base) (isAt : server.IsAt base)

include built parsed isAt

theorem meets_of_prepare {call : Call α}
    (off : ∀ c ∈ call.path.toList.head?, c = '/' ∨ c = '?' ∨ c = '#') {url : Url}
    {request : Http.Request} (prepared : call.prepare client = .ok (url, request)) :
    server.Meets request { url with fragment := none } := by
  obtain ⟨body, joined, target, -, whole, rfl, read, rfl⟩ := prepare_eq_ok prepared
  have web : base.scheme = "http" ∨ base.scheme = "https" := .inl isAt.scheme
  obtain ⟨kind, plain, short⟩ := Url.scheme_fits web
  rw [(Client.ofConfig_eq_ok built).1] at whole
  have set_off : ∀ c ∈ call.path.toList.head?, Url.setsOff c = true :=
    fun c first => Url.setsOff_iff.2 (off c first)
  obtain ⟨scheme, authority⟩ := Url.parse_append parsed kind set_off whole
  obtain ⟨⟨a, known, proper⟩, -⟩ := Url.parts_of_web whole (scheme ▸ kind)
  have bare := isAt.bare a (authority ▸ known)
  have web_joined : joined.scheme = "http" ∨ joined.scheme = "https" := scheme ▸ web
  have stands : joined.Stands := Url.stands_of_parse whole web_joined known bare
  obtain ⟨scheme_kept, authority_kept, -⟩ := joined.parts_addPairs call.pairs
  refine (stands.addPairs call.pairs).meets (isAt.of_same ?_ ?_) read
  · exact scheme_kept.trans scheme
  · exact authority_kept.trans authority

end One

/-! ### Runs of calls -/

/-- Two accounts of a call, in memory and over a connection.  What is recorded is the same but for
one record from the transport, which comes right behind the one that says what is asked for; when
nothing is sent, nothing is recorded. -/
structure Account.Agrees (kept carried : Account) : Prop where
  result : carried.result = kept.result
  requests : carried.requests = kept.requests
  records :
    kept.requests = [] ∧ kept.records = [] ∧ carried.records = [] ∨
      ∃ request asked received rest, kept.requests = [request] ∧
        asked.level = .debug ∧ received.level = .trace ∧
        kept.records = asked :: rest ∧ carried.records = asked :: received :: rest

theorem settle_ok (call : Call α) (url : Url) (response : Http.Response) (log : List LogRecord)
    (state : σ) :
    call.settle url ⟨.ok response, log, state⟩ =
      ⟨call.resultOf response, ⟨.debug, Client.requestLine call.method url⟩ ::
        (log ++ Client.answerLog call.method url response), state⟩ :=
  rfl

theorem fields_of_prepare {client : Client} {call : Call α} {url : Url} {request : Http.Request}
    (prepared : call.prepare client = .ok (url, request)) :
    ∃ hasBody, request.fields = client.requestFields hasBody := by
  obtain ⟨body, _, _, -, -, -, -, rfl⟩ := prepare_eq_ok prepared
  exact ⟨body.isSome, rfl⟩

def arrivals (client : Client) (server : Server σ) (timeout : Option UInt64) :
    List ((α : Type) × Call α) → σ → List (List Sent)
  | [], _ => []
  | ⟨_, call⟩ :: rest, state =>
    let outcome := call.perform client (transport server.recording timeout) (state, [])
    outcome.state.2 :: arrivals client server timeout rest outcome.state.1

section Step

variable {config : Config} {client : Client} {base : Url} {server : Server σ}
  {responses : Nat → Http.Response} {count : Nat} {state : σ}
  (built : Client.ofConfig config = .ok client) (leaves : config.LeavesConnection)
  (parsed : Url.parse config.trimmedBaseUrl = .ok base) (isAt : server.IsAt base)
  (direct : ∀ n, (responses n).status.IsDirect)
  (answers : server.Answers (fun n => responses (count + n)) state)

include built leaves parsed isAt direct answers

/-- A call makes the same of a connection as of the response itself, sends the server its request,
and leaves it ready for the next one. -/
theorem step_agrees {call : Call α}
    (off : ∀ c ∈ call.path.toList.head?, c = '/' ∨ c = '?' ∨ c = '#') :
    (call.account client (.returning responses) count).Agrees
        (call.account client (transport server none) state) ∧
      (call.perform client (transport server.recording none) (state, [])).state =
        ((call.perform client (transport server none) state).state,
          (call.sent client (.returning responses) count).map arrival) ∧
      server.Answers
        (fun n => responses ((call.perform client (.returning responses) count).state + n))
        (call.perform client (transport server none) state).state := by
  cases ready : call.prepare client with
  | error error =>
    unfold account
    simp only [(perform_of_refused ready).1, (perform_of_refused ready).2]
    exact ⟨⟨rfl, rfl, .inl ⟨rfl, rfl, rfl⟩⟩, rfl, answers⟩
  | ok prepared =>
    obtain ⟨url, request⟩ := prepared
    obtain ⟨hasBody, fields⟩ := fields_of_prepare ready
    have meets := meets_of_prepare built parsed isAt off ready
    have own := Client.leavesConnection leaves built fields
    have carried := meets.send_eq own answers (direct (count + 0))
    have seen := meets.recording.send_eq own (answers.recording []) (direct (count + 0))
    unfold account
    simp only [(perform_of_prepared ready _ _).1, (perform_of_prepared ready _ _).2, carried, seen,
      settle_ok, Transport.returning]
    refine ⟨⟨rfl, rfl, .inr ⟨request, _, _, _, rfl, rfl, rfl, rfl, rfl⟩⟩, rfl, ?_⟩
    have next := answers.next (arrival request)
    simp only [Nat.add_assoc, Nat.add_comm 1] at next ⊢
    exact next

theorem runs_agree (calls : List ((α : Type) × Call α))
    (off : ∀ call ∈ calls, ∀ c ∈ call.2.path.toList.head?, c = '/' ∨ c = '?' ∨ c = '#') :
    List.Forall₂ Account.Agrees (accounts client (.returning responses) calls count)
        (accounts client (transport server none) calls state) ∧
      arrivals client server none calls state =
        (accounts client (.returning responses) calls count).map fun account =>
          account.requests.map arrival := by
  -- The two runs keep different states; what carries over is which responses are still to come.
  induction calls generalizing state count with
  | nil => exact ⟨.nil, rfl⟩
  | cons call rest ih =>
    obtain ⟨here, later⟩ := List.forall_mem_cons.1 off
    obtain ⟨agrees, seen, left⟩ := step_agrees built leaves parsed isAt direct answers here
    obtain ⟨others, arrived⟩ := ih left later
    refine ⟨.cons agrees others, ?_⟩
    simp only [arrivals, accounts, List.map_cons, seen, arrived]
    rfl

end Step

/-- Calls over a connection make the same as calls in memory: if the base address is one of a server
that answers with complete responses, one after the other, each call of a run has the same result as
if the response had been given directly, and the same records but for the one of the transport.  The
server is sent what the other transport is given, with the fields of the connection, once for each
call that sends anything. -/
theorem carried_as_in_memory {config : Config} {client : Client}
    (built : Client.ofConfig config = .ok client) (leaves : config.LeavesConnection) {base : Url}
    (parsed : Url.parse config.trimmedBaseUrl = .ok base) {server : Server σ}
    (isAt : server.IsAt base) {responses : Nat → Http.Response}
    (direct : ∀ n, (responses n).status.IsDirect) {state : σ} (answers : server.Answers responses state)
    (calls : List ((α : Type) × Call α))
    (off : ∀ call ∈ calls, ∀ c ∈ call.2.path.toList.head?, c = '/' ∨ c = '?' ∨ c = '#') :
    List.Forall₂ Account.Agrees (accounts client (.returning responses) calls 0)
        (accounts client (transport server config.timeoutSecs) calls state) ∧
      arrivals client server config.timeoutSecs calls state =
        (accounts client (.returning responses) calls 0).map fun account =>
          account.requests.map arrival := by
  rw [leaves.unlimited]
  exact runs_agree built leaves parsed isAt direct (by simpa only [Nat.zero_add]) calls off

/-- Of two calls the first is answered by a value and the second by a failure. -/
theorem carried_as_in_memory_twice :
    let config : Config := { baseUrl := "http://[::1]:8080/v1/", token := some "t" }
    let responses (count : Nat) : Http.Response :=
      if count = 0 then ⟨.ok, Utf8.bytesOf "null"⟩ else ⟨⟨404, by decide⟩, []⟩
    let server := Server.giving (.ipv6 [0, 0, 0, 0, 0, 0, 0, 1]) 8080 responses
    let calls : List ((α : Type) × Call α) :=
      [⟨Unit, get Json.unit "/a b?x"⟩, ⟨Unit, post Json.unit "/pets" (.ok (.string "y"))⟩]
    ∃ client, Client.ofConfig config = .ok client ∧
      List.Forall₂ Account.Agrees (accounts client (.returning responses) calls 0)
        (accounts client (transport server none) calls 0) ∧
      arrivals client server none calls 0 =
        [[⟨.get, "/v1/a%20b?x",
            [⟨"authorization", "Bearer t", true⟩, ⟨"accept", "application/json", false⟩,
              ⟨"user-agent", "petstore-client/0.1.0", false⟩, ⟨"host", "[::1]:8080", false⟩], []⟩],
          [⟨.post, "/v1/pets",
            [⟨"authorization", "Bearer t", true⟩, ⟨"accept", "application/json", false⟩,
              ⟨"content-type", "application/json", false⟩,
              ⟨"user-agent", "petstore-client/0.1.0", false⟩, ⟨"host", "[::1]:8080", false⟩,
              ⟨"content-length", "3", false⟩], Utf8.bytesOf "\"y\""⟩]] := by
  intro config responses server calls
  have built : Client.ofConfig config =
      .ok ⟨"http://[::1]:8080/v1", [⟨"authorization", "Bearer t", true⟩]⟩ := by cbv
  have entries : config.effectiveHeaders.entries = [("Authorization", "Bearer t")] := by cbv
  let base : Url :=
    { scheme := "http"
      authority := some { host := some (.ipv6 [0, 0, 0, 0, 0, 0, 0, 1]), port := some 8080 }
      path := "/v1" }
  have parsed : Url.parse config.trimmedBaseUrl = .ok base := by cbv
  have first : (get Json.unit "/a b?x").requests
      ⟨"http://[::1]:8080/v1", [⟨"authorization", "Bearer t", true⟩]⟩ =
        [⟨.get, ⟨some "http", "[::1]:8080", "/v1/a%20b?x"⟩,
          [⟨"authorization", "Bearer t", true⟩, ⟨"accept", "application/json", false⟩], []⟩] := by
    cbv
  have second : (post Json.unit "/pets" (.ok (.string "y"))).requests
      ⟨"http://[::1]:8080/v1", [⟨"authorization", "Bearer t", true⟩]⟩ =
        [⟨.post, ⟨some "http", "[::1]:8080", "/v1/pets"⟩,
          [⟨"authorization", "Bearer t", true⟩, ⟨"accept", "application/json", false⟩,
            ⟨"content-type", "application/json", false⟩], Utf8.bytesOf "\"y\""⟩] := by cbv
  have leaves : config.LeavesConnection := by
    refine ⟨rfl, ?_, ?_⟩ <;> rw [entries, List.forall_mem_singleton]
    · rw [Client.lowerCase_authorization]
      decide
    · exact Text.forall_of_all (by cbv)
  have isAt : server.IsAt base := by
    refine ⟨by cbv, ?_⟩
    rintro _ ⟨⟩
    exact ⟨rfl, rfl⟩
  have direct : ∀ count, (responses count).status.IsDirect := by
    intro count
    simp only [responses]
    split
    · exact .inl (by decide)
    · exact .inr (by decide)
  have answers : server.Answers responses 0 := by
    simpa only [Nat.zero_add] using Server.answers_giving _ 8080 responses 0
  have off : ∀ call ∈ calls, ∀ c ∈ call.2.path.toList.head?, c = '/' ∨ c = '?' ∨ c = '#' := by
    have slash : "/a b?x".toList.head? = some '/' ∧ "/pets".toList.head? = some '/' := by
      constructor <;> cbv
    simp only [calls, List.forall_mem_cons, path, slash, Option.mem_def, Option.some.injEq]
    exact ⟨fun c same => .inl same.symm, fun c same => .inl same.symm, List.forall_mem_nil _⟩
  obtain ⟨agree, arrived⟩ :=
    carried_as_in_memory built leaves parsed isAt direct answers calls off
  refine ⟨_, built, agree, arrived.trans ?_⟩
  simp only [calls, accounts, account, List.map_cons, List.map_nil, sent_eq_requests, first, second]
  cbv

end Call

end PetClient
