import PetClient.Http.Exchange
import PetClient.Proofs.Answer
import PetClient.Proofs.Fields
import PetClient.Proofs.Target
import PetClient.Proofs.Url.Again

/-!
One request over a connection.  When a server is found under the address of a request and answers
with a complete response, that response is what the transport gives, and what the server is sent is
the request with the fields that belong to the connection.
-/

namespace PetClient.Http

namespace Exchange

/-! ### Requests as they arrive -/

def connectionFields : List String :=
  [hostField, lengthField, "transfer-encoding", "connection", "te", "trailer", "upgrade", "expect"]

def addedFields (request : Request) : Fields :=
  (if request.fields.contains userAgentField then []
    else [{ name := userAgentField, value := userAgent }]) ++
  { name := hostField, value := request.target.authority } ::
  (if request.body.isEmpty then []
    else [{ name := lengthField, value := toString request.body.length }])

def arrival (request : Request) : Sent where
  method := request.method
  target := request.target.path
  fields := request.fields ++ addedFields request
  body := request.body

/-! ### Values without blanks around them -/

def IsTrimmed (value : String) : Prop :=
  ∀ c ∈ value.toList.head?.toList ++ value.toList.getLast?.toList, c ≠ ' ' ∧ c ≠ '\t'

theorem trimmedValue_eq {field : Field} (trimmed : IsTrimmed field.value) :
    trimmedValue field = field := by
  let isBlank (c : Char) : Bool := c = ' ' || c = '\t'
  have stops (text : List Char) (ends : ∀ c, text.head? = some c → c ≠ ' ' ∧ c ≠ '\t') :
      text.dropWhile isBlank = text := by
    cases text with
    | nil => rfl
    | cons c rest =>
      obtain ⟨no_blank, no_tab⟩ := ends c rfl
      exact List.dropWhile_cons_of_neg (by simp [isBlank, no_blank, no_tab])
  obtain ⟨first, last⟩ := List.forall_mem_append.1 trimmed
  have front := stops field.value.toList fun c starts => first c (Option.mem_toList.2 starts)
  have back := stops field.value.toList.reverse fun c ends =>
    last c (Option.mem_toList.2 (by rwa [List.head?_reverse] at ends))
  unfold trimmedValue
  simp only [isBlank] at front back
  simp only [front, back, List.reverse_reverse, String.ofList_toList]

theorem isTrimmed_of_visible {value : String} (visible : ∀ c ∈ value.toList, 0x20 < c.toNat) :
    IsTrimmed value := by
  intro c ends
  have mem : c ∈ value.toList := by
    rcases List.mem_append.1 ends with first | last
    · exact List.mem_of_head? (Option.mem_toList.1 first)
    · exact List.mem_of_getLast? (Option.mem_toList.1 last)
  have bound := visible c mem
  constructor <;> rintro rfl <;> exact absurd bound (by decide)

/-! ### What is sent -/

/-- Whether a request leaves to the connection what belongs to it. -/
structure LeavesConnection (request : Request) : Prop where
  names : ∀ field ∈ request.fields, field.name ∉ connectionFields
  values : ∀ field ∈ request.fields, IsTrimmed field.value

theorem contains_eq_false {fields : Fields} {name : String}
    (absent : ∀ field ∈ fields, field.name ≠ name) : fields.contains name = false :=
  List.any_eq_false.2 fun field mem => by simpa using absent field mem

theorem setDefault_of_absent {fields : Fields} (field : Field)
    (absent : ∀ other ∈ fields, other.name ≠ field.name) :
    fields.setDefault field = fields ++ [field] := by
  unfold Fields.setDefault
  rw [contains_eq_false absent]
  rfl

theorem toNat_of_mem_decimal {n : Nat} : ∀ c ∈ (toString n).toList, 0x20 < c.toNat :=
  fun _ mem => Text.forall_digit (q := fun c => 0x20 < c.toNat) (by decide)
    (Text.isDigit_of_mem_toString mem)

theorem isTrimmed_of_mem_arrival {request : Request} (leaves : LeavesConnection request)
    (visible : ∀ c ∈ request.target.authority.toList, 0x20 < c.toNat) :
    ∀ field ∈ (arrival request).fields, IsTrimmed field.value := by
  have agent : IsTrimmed userAgent := isTrimmed_of_visible (Text.forall_of_all (by cbv))
  intro field mem
  simp only [arrival, addedFields, List.mem_append, List.mem_cons] at mem
  rcases mem with own | named | rfl | sized
  · exact leaves.values field own
  · split at named
    · cases named
    · rw [List.mem_singleton.1 named]
      exact agent
  · exact isTrimmed_of_visible visible
  · split at sized
    · cases sized
    · rw [List.mem_singleton.1 sized]
      exact isTrimmed_of_visible toNat_of_mem_decimal

/-- The fields are added one by one, since none of them is there. -/
theorem fields_eq {request : Request} (leaves : LeavesConnection request) :
    let named := (request.fields.setDefault { name := userAgentField, value := userAgent }).setDefault
      { name := hostField, value := request.target.authority }
    (if request.body.isEmpty then named
      else named.setDefault { name := lengthField, value := toString request.body.length }) =
      (arrival request).fields := by
  let agent : Fields :=
    if request.fields.contains userAgentField then []
    else [{ name := userAgentField, value := userAgent }]
  let host : Field := { name := hostField, value := request.target.authority }
  have absent (name : String) (listed : name ∈ connectionFields) (other : userAgentField ≠ name) :
      ∀ field ∈ request.fields ++ agent, field.name ≠ name := by
    rintro field mem rfl
    rcases List.mem_append.1 mem with own | added
    · exact leaves.names field own listed
    · simp only [agent] at added
      split at added
      · cases added
      · rw [List.mem_singleton.1 added] at other
        exact other rfl
  have first : request.fields.setDefault { name := userAgentField, value := userAgent } =
      request.fields ++ agent := by
    unfold Fields.setDefault
    simp only [agent]
    split
    · exact (List.append_nil _).symm
    · rfl
  have second : (request.fields ++ agent).setDefault host = request.fields ++ agent ++ [host] :=
    setDefault_of_absent host (absent hostField (by decide) (by decide))
  have third : ∀ field ∈ request.fields ++ agent ++ [host], field.name ≠ lengthField := by
    intro field mem
    rcases List.mem_append.1 mem with before | last
    · exact absent lengthField (by decide) (by decide) field before
    · have other : hostField ≠ lengthField := by decide
      rwa [List.mem_singleton.1 last]
  have last := setDefault_of_absent
    { name := lengthField, value := toString request.body.length } third
  simp only [first]
  change (if request.body.isEmpty then (request.fields ++ agent).setDefault host
    else ((request.fields ++ agent).setDefault host).setDefault _) = _
  rw [second, last]
  simp only [arrival, addedFields]
  split <;> simp [agent, host]

/-! ### Servers -/

section Servers

variable {σ : Type} {server : Server σ} {responses : Nat → Response} {state : σ}

def Server.after (server : Server σ) (before : List Sent) (state : σ) : σ :=
  before.foldl (fun state sent => (server.connect sent state).2) state

/-- From a state on, requests are answered by complete responses, one after the other. -/
def Server.Answers (server : Server σ) (responses : Nat → Response) (state : σ) : Prop :=
  ∀ before sent, ∃ bytes, (server.connect sent (server.after before state)).1 = .answered bytes ∧
    Wire.Complete bytes (responses before.length)

theorem Server.Answers.next (answers : server.Answers responses state) (sent : Sent) :
    server.Answers (fun n => responses (n + 1)) (server.connect sent state).2 :=
  fun before other => answers (sent :: before) other

def Server.giving (host : Host) (port : Nat) (responses : Nat → Response) : Server Nat where
  connect _ count := (.answered (Wire.written none false (responses count)), count + 1)
  host := host
  port := port

theorem Server.answers_giving (host : Host) (port : Nat) (responses : Nat → Response)
    (count : Nat) : (giving host port responses).Answers (fun n => responses (count + n)) count := by
  have counts (before : List Sent) (count : Nat) :
      (giving host port responses).after before count = count + before.length := by
    induction before generalizing count with
    | nil => rfl
    | cons sent rest ih =>
      rw [List.length_cons, Nat.add_comm rest.length, ← Nat.add_assoc]
      exact ih (count + 1)
  intro before sent
  rw [counts]
  refine ⟨_, rfl, none, false, ?_, ?_, rfl⟩
  · intro text same
    cases same
  · intro same
    cases same

def Server.recording (server : Server σ) : Server (σ × List Sent) where
  connect sent state :=
    let next := server.connect sent state.1
    (next.1, (next.2, state.2 ++ [sent]))
  host := server.host
  port := server.port

theorem Server.fst_after_recording (server : Server σ) (before : List Sent)
    (state : σ × List Sent) :
    (server.recording.after before state).1 = server.after before state.1 := by
  induction before generalizing state with
  | nil => rfl
  | cons sent rest ih => exact ih _

theorem Server.Answers.recording (answers : server.Answers responses state) (kept : List Sent) :
    server.recording.Answers responses (state, kept) := by
  intro before sent
  have same := server.fst_after_recording before (state, kept)
  obtain ⟨bytes, answered, complete⟩ := answers before sent
  rw [← same] at answered
  exact ⟨bytes, answered, complete⟩

structure Server.Meets (server : Server σ) (request : Request) (url : Url) : Prop where
  parsed : Url.parse request.target.text = .ok url
  bare : takeCredentials url = (url, none)
  found : server.answersFor url = true
  host : hostValue url = request.target.authority
  visible : ∀ c ∈ request.target.authority.toList, 0x20 < c.toNat
  target : url.path ++ String.ofList (Url.partChars '?' url.query) = request.target.path

theorem Server.Meets.recording {request : Request} {url : Url} (meets : server.Meets request url) :
    server.recording.Meets request url :=
  ⟨meets.parsed, meets.bare, meets.found, meets.host, meets.visible, meets.target⟩

end Servers

/-! ### Sending -/

section Sending

variable {σ : Type} {server : Server σ} {request : Request} {url : Url}

/-- What a server is sent is the request with the fields of the connection. -/
theorem Server.Meets.sent_eq (meets : server.Meets request url) (leaves : LeavesConnection request) :
    Journey.sent ⟨request.method, url, request.fields, request.body⟩ = arrival request := by
  have kept : (arrival request).fields.map trimmedValue = (arrival request).fields :=
    (List.map_congr_left fun field mem =>
      trimmedValue_eq (isTrimmed_of_mem_arrival leaves meets.visible field mem)).trans
        (List.map_id _)
  have fields := fields_eq leaves
  simp only at fields
  unfold Journey.sent
  simp only [meets.host, meets.target, fields, kept]
  rfl

theorem not_isRedirection {status : Status} (direct : status.IsDirect) :
    isRedirection status = false := by
  unfold Status.IsDirect at direct
  unfold isRedirection
  simp only [List.contains_eq_mem, decide_eq_false_iff_not, List.mem_cons, List.not_mem_nil,
    or_false]
  omega

/-- A request that leads to a server is answered by its response, and the server is sent nothing
but the request. -/
theorem Server.Meets.send_eq (meets : server.Meets request url) (leaves : LeavesConnection request)
    {responses : Nat → Response} {state : σ} (answers : server.Answers responses state)
    (direct : (responses 0).status.IsDirect) :
    (transport server none).send request state =
      ⟨.ok (responses 0), receivedLog (responses 0).status url,
        (server.connect (arrival request) state).2⟩ := by
  obtain ⟨bytes, answered, complete⟩ := answers [] (arrival request)
  obtain ⟨sized, read⟩ := Wire.answer?_of_complete complete direct
  have stays := not_isRedirection direct
  have found := meets.found
  have web : url.scheme = "http" := by
    unfold Server.answersFor at found
    rw [Bool.and_eq_true, Bool.and_eq_true, decide_eq_true_iff] at found
    exact found.1.1
  change (server.connect (arrival request) state).1 = .answered bytes at answered
  unfold transport
  simp only [meets.parsed, meets.bare, web, ne_eq, not_true_eq_false, decide_false,
    Bool.false_and, Bool.false_eq_true, if_false, reduceCtorEq]
  unfold follow
  simp only [found, Bool.not_true, Bool.false_eq_true, if_false, meets.sent_eq leaves]
  cases reached : server.connect (arrival request) state with
  | mk connection next =>
    rw [reached] at answered
    simp only at answered
    subst answered
    simp only [List.length_nil] at read
    simp only [read, stays, Bool.false_eq_true, if_false]
    rfl

end Sending

end Exchange

end PetClient.Http
