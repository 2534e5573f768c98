import PetClient.Proofs.Call

/-!
What a call comes to.  The stages of a call are ordered: the payload is encoded, the address
parsed, the target read, the request sent, the status looked at, the body read.  The first that
fails decides the result, and how far the call gets decides what is sent and recorded.
-/

namespace PetClient

def Transport.silent {σ : Type} (transport : Transport σ) : Transport σ where
  send request state := { transport.send request state with log := [] }

namespace ClientError

def isEarly : ClientError → Bool
  | encode _ | invalidUrl .. | invalidRequest _ => true
  | _ => false

def isHttp : ClientError → Bool
  | http .. => true
  | _ => false

end ClientError

namespace Call

variable {σ α : Type}

def sentRecord (call : Call α) (url : Url) : LogRecord :=
  ⟨.debug, call.method.name ++ " " ++ url.text⟩

def failedRecord (call : Call α) (url : Url) (status : Http.Status) : LogRecord :=
  ⟨.warn, call.method.name ++ " " ++ url.text ++ " failed with " ++ status.text⟩

def Failing (status : Http.Status) : Prop :=
  400 ≤ status.code ∧ status.code ≤ 599

/-- A call whose payload is encoded, whose address is `url` and whose request is `request`. -/
def Ready (client : Client) (baseUrl : String) (call : Call α) (url : Url)
    (request : Http.Request) : Prop :=
  ∃ body base target, call.encoded = .ok body ∧
    Url.parse (baseUrl ++ call.path) = .ok base ∧ url = base.addPairs call.pairs ∧
    Http.Target.parse url.text = .ok target ∧
    request = ⟨call.method, target, client.requestFields body.isSome, body.getD []⟩

/-- What a call may come to, with the requests that are sent: one rule for each stage at which it
can end, with what must have gone well before. -/
inductive Comes (client : Client) (baseUrl : String) (transport : Transport σ) (call : Call α)
    (state : σ) : Outcome σ α → List Http.Request → Prop
  | unencoded {problem : Json.Problem} (encoding : call.encoded = .error problem) :
      Comes client baseUrl transport call state ⟨.error (.encode problem), [], state⟩ []
  | unparsed {body : Option Bytes} {problem : Url.Problem} (encoding : call.encoded = .ok body)
      (parsing : Url.parse (baseUrl ++ call.path) = .error problem) :
      Comes client baseUrl transport call state
        ⟨.error (.invalidUrl (baseUrl ++ call.path) problem), [], state⟩ []
  | untargeted {body : Option Bytes} {base : Url} {problem : Http.TargetProblem}
      (encoding : call.encoded = .ok body)
      (parsing : Url.parse (baseUrl ++ call.path) = .ok base)
      (reading : Http.Target.parse (base.addPairs call.pairs).text = .error problem) :
      Comes client baseUrl transport call state ⟨.error (.invalidRequest problem), [], state⟩ []
  | unanswered {url : Url} {request : Http.Request} {error : TransportError}
      (ready : Ready client baseUrl call url request)
      (answer : (transport.send request state).answer = .error error) :
      Comes client baseUrl transport call state
        ⟨.error (.transport error), call.sentRecord url :: (transport.send request state).log,
          (transport.send request state).state⟩ [request]
  | failed {url : Url} {request : Http.Request} {response : Http.Response}
      (ready : Ready client baseUrl call url request)
      (answer : (transport.send request state).answer = .ok response)
      (failing : Failing response.status) :
      Comes client baseUrl transport call state
        ⟨.error (.http response.status response.body),
          call.sentRecord url :: (transport.send request state).log ++
            [call.failedRecord url response.status],
          (transport.send request state).state⟩ [request]
  | undecoded {url : Url} {request : Http.Request} {response : Http.Response}
      {refusal : Json.Refusal} (ready : Ready client baseUrl call url request)
      (answer : (transport.send request state).answer = .ok response)
      (passing : ¬Failing response.status)
      (decoding : call.readBody response.body = .error refusal) :
      Comes client baseUrl transport call state
        ⟨.error (.decode refusal), call.sentRecord url :: (transport.send request state).log,
          (transport.send request state).state⟩ [request]
  | decoded {url : Url} {request : Http.Request} {response : Http.Response} {value : α}
      (ready : Ready client baseUrl call url request)
      (answer : (transport.send request state).answer = .ok response)
      (passing : ¬Failing response.status) (decoding : call.readBody response.body = .ok value) :
      Comes client baseUrl transport call state
        ⟨.ok value, call.sentRecord url :: (transport.send request state).log,
          (transport.send request state).state⟩ [request]

theorem isFailure_iff {status : Http.Status} : status.isFailure ↔ Failing status := by
  simp only [Http.Status.isFailure, Http.Status.isClientError, Http.Status.isServerError, Failing,
    Bool.or_eq_true, Bool.and_eq_true, decide_eq_true_eq]
  omega

theorem ready_iff {client : Client} {call : Call α} {url : Url} {request : Http.Request} :
    Ready client client.baseUrl call url request ↔
      call.prepare client = .ok (url, request) := by
  constructor
  · rintro ⟨body, base, target, encoding, parsing, rfl, reading, rfl⟩
    simp only [prepare, encoding, Client.address, parsing, Client.request, reading, Except.map]
  · exact prepare_eq_ok

theorem settle_of_error {call : Call α} {url : Url} {reply : Reply σ} {error : TransportError}
    (answer : reply.answer = .error error) :
    call.settle url reply =
      ⟨.error (.transport error), call.sentRecord url :: reply.log, reply.state⟩ := by
  unfold settle
  rw [answer]
  rfl

theorem settle_of_failing {call : Call α} {url : Url} {reply : Reply σ} {response : Http.Response}
    (answer : reply.answer = .ok response) (failing : Failing response.status) :
    call.settle url reply =
      ⟨.error (.http response.status response.body),
        call.sentRecord url :: reply.log ++ [call.failedRecord url response.status],
        reply.state⟩ := by
  unfold settle
  rw [answer]
  simp only [resultOf, Client.answerLog, if_pos (isFailure_iff.2 failing)]
  rfl

theorem settle_of_passing {call : Call α} {url : Url} {reply : Reply σ} {response : Http.Response}
    (answer : reply.answer = .ok response) (passing : ¬Failing response.status) :
    call.settle url reply =
      ⟨(call.readBody response.body).mapError .decode, call.sentRecord url :: reply.log,
        reply.state⟩ := by
  unfold settle
  rw [answer]
  simp only [resultOf, Client.answerLog, if_neg (mt isFailure_iff.1 passing), List.append_nil]
  rfl

theorem comes_settle {client : Client} {baseUrl : String} {transport : Transport σ}
    {call : Call α} {state : σ} {url : Url} {request : Http.Request}
    (ready : Ready client baseUrl call url request) :
    Comes client baseUrl transport call state
      (call.settle url (transport.send request state)) [request] := by
  cases answer : (transport.send request state).answer with
  | error error =>
    rw [settle_of_error answer]
    exact .unanswered ready answer
  | ok response =>
    by_cases failing : Failing response.status
    · rw [settle_of_failing answer failing]
      exact .failed ready answer failing
    · rw [settle_of_passing answer failing]
      cases decoding : call.readBody response.body with
      | error refusal => exact .undecoded ready answer failing decoding
      | ok value => exact .decoded ready answer failing decoding

theorem comes_perform (client : Client) (transport : Transport σ) (call : Call α) (state : σ) :
    Comes client client.baseUrl transport call state (call.perform client transport state)
      (call.sent client transport state) := by
  rw [perform_eq_outcome, sent_eq_requests]
  unfold outcome requests prepare
  cases encoding : call.encoded with
  | error problem => exact .unencoded encoding
  | ok body =>
    simp only [Client.address]
    cases parsing : Url.parse (client.baseUrl ++ call.path) with
    | error problem => exact .unparsed encoding parsing
    | ok base =>
      simp only [Client.request]
      cases reading : Http.Target.parse (base.addPairs call.pairs).text with
      | error problem => exact .untargeted encoding parsing reading
      | ok target =>
        exact comes_settle ⟨body, base, target, encoding, parsing, rfl, reading, rfl⟩

theorem perform_of_refused {client : Client} {transport : Transport σ} {call : Call α} {state : σ}
    {error : ClientError} (refused : call.prepare client = .error error) :
    call.perform client transport state = ⟨.error error, [], state⟩ ∧
      call.sent client transport state = [] := by
  rw [perform_eq_outcome, sent_eq_requests]
  simp only [outcome, requests, refused]
  exact ⟨rfl, trivial⟩

theorem perform_of_ready {client : Client} {transport : Transport σ} {call : Call α} {state : σ}
    {url : Url} {request : Http.Request}
    (ready : Ready client client.baseUrl call url request) :
    call.perform client transport state = call.settle url (transport.send request state) ∧
      call.sent client transport state = [request] := by
  rw [perform_eq_outcome, sent_eq_requests]
  simp only [outcome, requests, ready_iff.1 ready]
  exact ⟨trivial, trivial⟩

/-- A call comes to one thing only: what it performs. -/
theorem eq_of_comes {client : Client} {transport : Transport σ} {call : Call α} {state : σ}
    {outcome : Outcome σ α} {requests : List Http.Request}
    (comes : Comes client client.baseUrl transport call state outcome requests) :
    call.perform client transport state = outcome ∧
      call.sent client transport state = requests := by
  cases comes with
  | unencoded encoding => exact perform_of_refused (by simp only [prepare, encoding])
  | unparsed encoding parsing =>
    exact perform_of_refused (by simp only [prepare, encoding, Client.address, parsing])
  | untargeted encoding parsing reading =>
    apply perform_of_refused
    simp only [prepare, encoding, Client.address, parsing, Client.request, reading, Except.map]
  | unanswered ready answer => exact settle_of_error answer ▸ perform_of_ready ready
  | failed ready answer failing => exact settle_of_failing answer failing ▸ perform_of_ready ready
  | undecoded ready answer passing decoding =>
    refine ⟨(perform_of_ready ready).1.trans ?_, (perform_of_ready ready).2⟩
    rw [settle_of_passing answer passing, decoding]
    rfl
  | decoded ready answer passing decoding =>
    refine ⟨(perform_of_ready ready).1.trans ?_, (perform_of_ready ready).2⟩
    rw [settle_of_passing answer passing, decoding]
    rfl

/-! ### Runs of calls -/

structure Turn where
  failure : Option ClientError
  records : List LogRecord
  requests : List Http.Request

namespace Turn

def failedEarly (turn : Turn) : Bool :=
  turn.failure.any ClientError.isEarly

def failedByStatus (turn : Turn) : Bool :=
  turn.failure.any ClientError.isHttp

end Turn

def failureOf : Except ClientError α → Option ClientError
  | .error error => some error
  | .ok _ => none

def turn (client : Client) (transport : Transport σ) (call : Call α) (state : σ) : Turn :=
  ⟨failureOf (call.perform client transport state).result,
    (call.perform client transport.silent state).log, call.sent client transport state⟩

def run (client : Client) (transport : Transport σ) : List ((α : Type) × Call α) → σ → List Turn
  | [], _ => []
  | ⟨_, call⟩ :: rest, state =>
    call.turn client transport state ::
      run client transport rest (call.perform client transport state).state

def isDebug (record : LogRecord) : Bool :=
  record.level = .debug

def isWarn (record : LogRecord) : Bool :=
  record.level = .warn

structure Accounted (turns : List Turn) : Prop where
  /-- Each request that is sent has its record, and nothing else has one like it. -/
  debug_eq : (turns.flatMap Turn.records).countP isDebug =
    (turns.flatMap Turn.requests).length
  warn_eq : (turns.flatMap Turn.records).countP isWarn = turns.countP Turn.failedByStatus
  /-- There are no other records. -/
  total_eq : (turns.flatMap Turn.records).length =
    (turns.flatMap Turn.records).countP isDebug + (turns.flatMap Turn.records).countP isWarn
  /-- A call sends its one request unless it fails early. -/
  sent_eq : (turns.flatMap Turn.requests).length + turns.countP Turn.failedEarly = turns.length

theorem Accounted.nil : Accounted [] :=
  ⟨rfl, rfl, rfl, rfl⟩

theorem Accounted.append {first second : List Turn} (accountedFirst : Accounted first)
    (accountedSecond : Accounted second) : Accounted (first ++ second) := by
  obtain ⟨debugFirst, warnFirst, totalFirst, sentFirst⟩ := accountedFirst
  obtain ⟨debugSecond, warnSecond, totalSecond, sentSecond⟩ := accountedSecond
  constructor <;>
    simp only [List.flatMap_append, List.countP_append, List.length_append] <;> omega

theorem perform_silent (client : Client) (transport : Transport σ) (call : Call α) (state : σ) :
    (call.perform client transport.silent state).result =
      (call.perform client transport state).result := by
  rw [perform_eq_outcome, perform_eq_outcome]
  unfold outcome
  cases call.prepare client with
  | error error => rfl
  | ok prepared =>
    simp only [settle, Transport.silent]
    cases (transport.send prepared.2 state).answer <;> rfl

/-- One call is accounted for, whatever it comes to. -/
theorem accounted_turn (client : Client) (transport : Transport σ) (call : Call α) (state : σ) :
    Accounted [call.turn client transport state] := by
  have sent_eq : call.sent client transport state = call.sent client transport.silent state := by
    rw [sent_eq_requests, sent_eq_requests]
  have comes := comes_perform client transport.silent call state
  unfold turn
  rw [← perform_silent, sent_eq]
  -- From here on only the rule by which the call ends counts, and each rule tells all numbers.
  generalize call.perform client transport.silent state = outcome at comes
  generalize call.sent client transport.silent state = requests at comes
  cases comes <;> constructor <;> rfl

theorem length_run (client : Client) (transport : Transport σ)
    (calls : List ((α : Type) × Call α)) (state : σ) :
    (run client transport calls state).length = calls.length := by
  induction calls generalizing state with
  | nil => rfl
  | cons call rest ih => simp only [run, List.length_cons, ih]

theorem accounted_run (client : Client) (transport : Transport σ)
    (calls : List ((α : Type) × Call α)) (state : σ) :
    Accounted (run client transport calls state) := by
  induction calls generalizing state with
  | nil => exact .nil
  | cons call rest ih => exact (accounted_turn client transport call.2 state).append (ih _)

/-- A call comes to exactly what its stages say, and the records of any run of calls tell how many
requests were sent and how many answers reported failures. -/
theorem stages_decide_outcome {config : Config} {client : Client}
    (built : Client.ofConfig config = .ok client) (transport : Transport σ) :
    (∀ {α : Type} (call : Call α) (state : σ) (outcome : Outcome σ α)
      (requests : List Http.Request),
      Comes client config.trimmedBaseUrl transport call state outcome requests ↔
        call.perform client transport state = outcome ∧
          call.sent client transport state = requests) ∧
    ∀ (calls : List ((α : Type) × Call α)) (state : σ),
      (run client transport calls state).length = calls.length ∧
        Accounted (run client transport calls state) := by
  rw [← (Client.ofConfig_eq_ok built).1]
  refine ⟨fun call state outcome requests => ⟨eq_of_comes, ?_⟩, fun calls state =>
    ⟨length_run client transport calls state, accounted_run client transport calls state⟩⟩
  rintro ⟨rfl, rfl⟩
  exact comes_perform client transport call state

/-- A payload that cannot be encoded is noticed before an address that cannot be parsed. -/
theorem stages_decide_outcome_unencoded :
    ∃ client, Client.ofConfig { baseUrl := "no address/" } = .ok client ∧
      ∀ transport : Transport Unit,
        (post Json.unit "/pets" (.error .keyNotString)).perform client transport () =
          ⟨.error (.encode .keyNotString), [], ()⟩ := by
  have built : Client.ofConfig { baseUrl := "no address/" } = .ok ⟨"no address", []⟩ := rfl
  refine ⟨_, built, fun transport => ?_⟩
  have stages := (stages_decide_outcome built transport).1
    (post Json.unit "/pets" (.error .keyNotString)) () ⟨.error (.encode .keyNotString), [], ()⟩ []
  exact (stages.1 (.unencoded rfl)).1

end Call

end PetClient
