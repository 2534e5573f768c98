import PetClient.Proofs.Json.Given
import PetClient.Proofs.Layers
import PetClient.Proofs.Listing

/-!
How a run of the demo ends.  It shows all of the configuration or, if there is none, nothing; and
all of the pets that it has been asked for or, wherever fetching them fails, none.
-/

namespace PetClient.Demo

open Config (YamlWording)
open Files (Path Tree)
open Json (Blank Entry IsValue Sound Spaced Takes listBytes)

variable {σ : Type}

/-! ### Fetching -/

inductive Fetches (config : Config) (transport : Transport σ) (state : σ) :
    Except Failure (List Pet) → σ → List Http.Request → Prop
  | unbuilt {error : ClientError} (building : Client.ofConfig config = .error error) :
      Fetches config transport state
        (.error (.ofClient "failed to set up the API client" error)) state []
  | failed {client : Client} {error : ClientError} {log : List LogRecord} {after : σ}
      {requests : List Http.Request} (built : Client.ofConfig config = .ok client)
      (comes : Call.Comes client config.trimmedBaseUrl transport (.listPets firstPets) state
        ⟨.error error, log, after⟩ requests) :
      Fetches config transport state
        (.error (.ofClient ("GET " ++ (config.trimmedBaseUrl ++ "/pets") ++ " failed") error)) after
        requests
  | fetched {client : Client} {pets : List Pet} {log : List LogRecord} {after : σ}
      {requests : List Http.Request} (built : Client.ofConfig config = .ok client)
      (comes : Call.Comes client config.trimmedBaseUrl transport (.listPets firstPets) state
        ⟨.ok pets, log, after⟩ requests) :
      Fetches config transport state (.ok pets) after requests

theorem exists_fetches (config : Config) (transport : Transport σ) (state : σ) :
    ∃ result after requests, Fetches config transport state result after requests := by
  cases building : Client.ofConfig config with
  | error error => exact ⟨_, _, _, .unbuilt building⟩
  | ok client =>
    have comes := Call.comes_perform client transport (.listPets firstPets) state
    rw [(Client.ofConfig_eq_ok building).1] at comes
    generalize Call.perform client transport (.listPets firstPets) state = outcome at comes
    obtain ⟨result, log, after⟩ := outcome
    cases result with
    | error error => exact ⟨_, _, _, .failed building comes⟩
    | ok pets => exact ⟨_, _, _, .fetched building comes⟩

def listRequests (config : Config) : List Http.Request :=
  match Client.ofConfig config with
  | .error _ => []
  | .ok client => (Call.listPets firstPets).requests client

def written (config : Config) : Except Failure (List Pet) → String × Option Failure
  | .error failure => (listingLine config, some failure)
  | .ok pets => (listingLine config ++ petLines pets, none)

theorem eq_of_fetches {config : Config} {transport : Transport σ} {state after : σ}
    {result : Except Failure (List Pet)} {requests : List Http.Request}
    (fetches : Fetches config transport state result after requests) :
    (∃ log, list config transport state =
        ⟨(written config result).1, (written config result).2, log, after⟩) ∧
      listRequests config = requests := by
  unfold listRequests
  cases fetches with
  | unbuilt building =>
    rw [building]
    exact ⟨⟨_, list_of_unbuilt building transport state⟩, rfl⟩
  | failed built comes =>
    rw [← (Client.ofConfig_eq_ok built).1] at comes
    obtain ⟨performed, sent⟩ := Call.eq_of_comes comes
    rw [Call.sent_eq_requests] at sent
    rw [built]
    exact ⟨⟨_, list_of_failed built performed⟩, sent⟩
  | fetched built comes =>
    rw [← (Client.ofConfig_eq_ok built).1] at comes
    obtain ⟨performed, sent⟩ := Call.eq_of_comes comes
    rw [Call.sent_eq_requests] at sent
    rw [built]
    exact ⟨⟨_, list_of_fetched built performed⟩, sent⟩

theorem list_recording (config : Config) (transport : Transport σ) (state : σ)
    (before : List Http.Request) :
    list config transport.recording (state, before) =
      let listing := list config transport state
      ⟨listing.output, listing.failure, listing.log,
        (listing.state, before ++ listRequests config)⟩ := by
  unfold list listRequests
  cases Client.ofConfig config with
  | error error => simp
  | ok client =>
    have recorded := Call.perform_recording client transport (.listPets firstPets) state before
    change Api.listPets client transport.recording firstPets (state, before) = _ at recorded
    have same : Call.perform client transport (.listPets firstPets) state =
      Api.listPets client transport firstPets state := rfl
    rw [same] at recorded
    simp only [recorded]
    cases (Api.listPets client transport firstPets state).result <;> rfl

/-! ### Runs -/

variable {tree : Tree} {cwd : Path} {environment : Environment} {line : List String}
  {a : Arguments} {transport : Config → Transport σ} {state : σ} {wording : YamlWording}

def head (config : Config) (a : Arguments) : String :=
  render config a.options ++ "\n" ++ "Listing " ++ config.trimmedBaseUrl ++ "/pets ...\n"

/-- The text ends its last line, so that a line end behind it leaves a line empty. -/
theorem getLast?_render (config : Config) (options : Options) :
    (render config options).toList.getLast? = some '\n' := by
  unfold render pieces lines instructionLines
  rw [String.toList_ofList]
  simp only [List.map_append, List.map_cons, List.map_nil, List.flatten_append, List.flatten_cons,
    List.flatten_nil, List.append_nil, ← List.append_assoc, List.getLast?_concat]

/-- How a run may end, with the requests that are sent: one rule for each stage at which it can. -/
inductive Ends (tree : Tree) (cwd : Path) (a : Arguments) (transport : Config → Transport σ)
    (state : σ) (wording : YamlWording) : Run σ → List Http.Request → Prop
  | unresolved {failure : Failure} (resolving : resolve tree a cwd none wording = .error failure) :
      Ends tree cwd a transport state wording ⟨1, "", failure.report, state⟩ []
  | shown {config : Config} (resolved : resolve tree a cwd none wording = .ok config)
      (alone : a.listPets = false) :
      Ends tree cwd a transport state wording ⟨0, render config a.options, "", state⟩ []
  | stopped {config : Config} {failure : Failure} {after : σ} {requests : List Http.Request}
      (resolved : resolve tree a cwd none wording = .ok config) (lists : a.listPets = true)
      (fetches : Fetches config (transport config) state (.error failure) after requests) :
      Ends tree cwd a transport state wording ⟨1, head config a, failure.report, after⟩ requests
  | listed {config : Config} {pets : List Pet} {after : σ} {requests : List Http.Request}
      (resolved : resolve tree a cwd none wording = .ok config) (lists : a.listPets = true)
      (fetches : Fetches config (transport config) state (.ok pets) after requests) :
      Ends tree cwd a transport state wording
        ⟨0, head config a ++ "Found " ++ toString pets.length ++ " pets\n" ++
          String.join (pets.map fun pet => petEntry pet ++ "\n"), "", after⟩ requests

theorem exists_ends (tree : Tree) (cwd : Path) (a : Arguments) (transport : Config → Transport σ)
    (state : σ) (wording : YamlWording) :
    ∃ run requests, Ends tree cwd a transport state wording run requests := by
  cases resolving : resolve tree a cwd none wording with
  | error failure => exact ⟨_, _, .unresolved resolving⟩
  | ok config =>
    cases lists : a.listPets with
    | false => exact ⟨_, _, .shown resolving lists⟩
    | true =>
      obtain ⟨result, after, requests, fetches⟩ := exists_fetches config (transport config) state
      cases result with
      | error failure => exact ⟨_, _, .stopped resolving lists fetches⟩
      | ok pets => exact ⟨_, _, .listed resolving lists fetches⟩

def runRequests (tree : Tree) (cwd : Path) (a : Arguments) (wording : YamlWording) :
    List Http.Request :=
  match resolve tree a cwd none wording with
  | .error _ => []
  | .ok config => if a.listPets then listRequests config else []

theorem head_eq (config : Config) (a : Arguments) :
    render config a.options ++ "\n" ++ listingLine config = head config a := by
  have closing : "/pets ...\n" = "/pets" ++ " ...\n" := rfl
  unfold listingLine petsAddress head
  rw [closing]
  simp only [String.append_assoc]

theorem listed_eq (config : Config) (a : Arguments) (pets : List Pet) :
    render config a.options ++ "\n" ++ (listingLine config ++ petLines pets) =
      head config a ++ "Found " ++ toString pets.length ++ " pets\n" ++
        String.join (pets.map fun pet => petEntry pet ++ "\n") := by
  rw [← head_eq, ← funext petLine_eq]
  unfold petLines
  simp only [String.append_assoc]

theorem eq_of_ends {run : Run σ} {requests : List Http.Request}
    (ends : Ends tree cwd a transport state wording run requests) :
    runWith tree cwd a transport state wording = run ∧
      runRequests tree cwd a wording = requests := by
  unfold runWith runRequests
  cases ends with
  | unresolved resolving =>
    rw [resolving]
    exact ⟨rfl, rfl⟩
  | shown resolved alone =>
    rw [resolved, alone]
    exact ⟨rfl, rfl⟩
  | stopped resolved lists fetches =>
    obtain ⟨⟨log, listing⟩, sent⟩ := eq_of_fetches fetches
    rw [resolved, lists]
    simp only [listing, written, head_eq]
    exact ⟨rfl, sent⟩
  | listed resolved lists fetches =>
    obtain ⟨⟨log, listing⟩, sent⟩ := eq_of_fetches fetches
    rw [resolved, lists]
    simp only [listing, written, listed_eq]
    exact ⟨rfl, sent⟩

theorem runWith_recording (tree : Tree) (cwd : Path) (a : Arguments)
    (transport : Config → Transport σ) (state : σ) (wording : YamlWording)
    (before : List Http.Request) :
    runWith tree cwd a (fun config => (transport config).recording) (state, before) wording =
      let run := runWith tree cwd a transport state wording
      ⟨run.exitCode, run.output, run.errors,
        (run.state, before ++ runRequests tree cwd a wording)⟩ := by
  unfold runWith runRequests
  cases resolve tree a cwd none wording with
  | error failure => simp [failed]
  | ok config =>
    cases a.listPets with
    | false => simp
    | true =>
      simp only [list_recording]
      cases (list config (transport config) state).failure <;> rfl

def sent (tree : Tree) (cwd : Path) (environment : Environment) (line : List String)
    (transport : Config → Transport σ) (state : σ) (wording : YamlWording) : List Http.Request :=
  (run tree cwd environment line (fun config => (transport config).recording) (state, [])
    wording).state.2

theorem run_eq (accepted : Arguments.read environment line = .ok a) (tree : Tree) (cwd : Path)
    (transport : Config → Transport σ) (state : σ) (wording : YamlWording) :
    run tree cwd environment line transport state wording =
      runWith tree cwd a transport state wording := by
  unfold run
  rw [accepted]

theorem sent_eq (accepted : Arguments.read environment line = .ok a) (tree : Tree) (cwd : Path)
    (transport : Config → Transport σ) (state : σ) (wording : YamlWording) :
    sent tree cwd environment line transport state wording = runRequests tree cwd a wording := by
  unfold sent
  rw [run_eq accepted, runWith_recording]
  rfl

theorem length_runRequests (tree : Tree) (cwd : Path) (a : Arguments) (wording : YamlWording) :
    (runRequests tree cwd a wording).length ≤ 1 := by
  unfold runRequests listRequests Call.requests
  repeat' split
  all_goals simp

theorem mem_runRequests {request : Http.Request}
    (mem : request ∈ runRequests tree cwd a wording) :
    ∃ config base, resolve tree a cwd none wording = .ok config ∧ a.listPets = true ∧
      Url.parse (config.trimmedBaseUrl ++ "/pets") = .ok base ∧
      Http.Target.parse (base.addPairs [("limit", "10")]).text = .ok request.target ∧
      request.method = .get ∧ request.body = [] := by
  unfold runRequests at mem
  cases resolved : resolve tree a cwd none wording with
  | error failure => simp [resolved] at mem
  | ok config =>
    cases lists : a.listPets with
    | false => simp [resolved, lists] at mem
    | true =>
      simp only [resolved, lists, ↓reduceIte] at mem
      unfold listRequests at mem
      cases built : Client.ofConfig config with
      | error error => simp [built] at mem
      | ok client =>
        simp only [built] at mem
        obtain ⟨url, prepared⟩ := Call.mem_requests.1 mem
        obtain ⟨body, base, target, encodes, parses, rfl, reads, rfl⟩ :=
          Call.prepare_eq_ok prepared
        cases encodes
        rw [(Client.ofConfig_eq_ok built).1] at parses
        exact ⟨config, base, rfl, rfl, parses, reads, rfl, rfl⟩

/-! ### Lists with a malformed pet -/

/-- The bodies that are lists of values of which one, wherever it stands, is no pet. -/
inductive HasMalformedPet : Bytes → Prop
  | list {items : List Spaced} {item : Spaced} {before inner after : Bytes} (blank : Blank before)
      (blank' : Blank inner) (blank'' : Blank after) (fit : ∀ i ∈ items, i.Fits)
      (areValues : ∀ i ∈ items, IsValue i.text) (mem : item ∈ items)
      (malformed : ∀ pet, Pet.shape.decode item.text ≠ .ok pet) :
      HasMalformedPet (before ++ (listBytes items inner ++ after))

theorem valueOf_ne_ok {body : Bytes} (malformed : HasMalformedPet body) (pets : List Pet) :
    Call.valueOf (Json.list Pet.shape) body ≠ .ok pets := by
  intro decoded
  obtain ⟨blank, blank', blank'', fit, areValues, mem, malformed⟩ := malformed
  rename_i items item before inner after
  have bracket : (0x5B : UInt8) ∈ before ++ (listBytes items inner ++ after) := by
    simp [listBytes]
  have solid : ¬(before ++ (listBytes items inner ++ after)).all Client.isBlank = true :=
    fun all => absurd (List.all_eq_true.1 all _ bracket) (by decide)
  unfold Call.valueOf at decoded
  rw [if_neg solid] at decoded
  have sound : Sound Pet.shape.read := Json.Record.sound_of_places Pet.places
  have sound_list : Sound (Json.list Pet.shape).read := sound.list
  rw [sound_list.decode_iff blank blank'' (.list blank' fit areValues)] at decoded
  have taken := (Json.takes_list_iff sound fit areValues blank').1 decoded
  obtain ⟨i, small, rfl⟩ := List.mem_iff_getElem.1 mem
  have takes : Takes Pet.shape.read items[i].text _ := taken.get (taken.length_eq ▸ small) small
  have whole := takes.decode .nil .nil
  rw [List.nil_append, List.append_nil] at whole
  exact malformed _ whole

/-- A good answer with a malformed pet in it lets a run end as if there were no pets at all. -/
theorem ends_of_malformed {config : Config} {client : Client} {url : Url} {request : Http.Request}
    {response : Http.Response} (resolved : resolve tree a cwd none wording = .ok config)
    (lists : a.listPets = true) (built : Client.ofConfig config = .ok client)
    (ready : Call.Ready client config.trimmedBaseUrl (.listPets firstPets) url request)
    (answer : ((transport config).send request state).answer = .ok response)
    (malformed : HasMalformedPet response.body) :
    (runWith tree cwd a transport state wording).exitCode = 1 ∧
      (runWith tree cwd a transport state wording).output = head config a := by
  have stops {error : ClientError} {log : List LogRecord} {after : σ}
      {requests : List Http.Request}
      (comes : Call.Comes client config.trimmedBaseUrl (transport config) (.listPets firstPets)
        state ⟨.error error, log, after⟩ requests) :
      (runWith tree cwd a transport state wording).exitCode = 1 ∧
        (runWith tree cwd a transport state wording).output = head config a := by
    rw [(eq_of_ends (.stopped resolved lists (.failed built comes))).1]
    exact ⟨rfl, rfl⟩
  by_cases failing : Call.Failing response.status
  · exact stops (.failed ready answer failing)
  · cases decoding : Call.valueOf (Json.list Pet.shape) response.body with
    | error refusal => exact stops (.undecoded ready answer failing decoding)
    | ok pets => exact absurd decoding (valueOf_ne_ok malformed pets)

/-- A run ends in one of four ways, at the first stage that fails or behind the last one, with all
that the stages before write and nothing of a stage that fails.  The text that is written first ends
its last line.  At most one request is sent, for the first ten pets.  A list in which a pet is
malformed, wherever it stands, fails as a whole. -/
theorem ends_by_stages {environment : Environment} {line : List String} {a : Arguments}
    (accepted : Arguments.read environment line = .ok a) (tree : Tree) (cwd : Path)
    (transport : Config → Transport σ) (state : σ) (wording : YamlWording) :
    (∀ ended requests, Ends tree cwd a transport state wording ended requests ↔
        run tree cwd environment line transport state wording = ended ∧
          sent tree cwd environment line transport state wording = requests) ∧
      (∀ config, (render config a.options).toList.getLast? = some '\n') ∧
      (sent tree cwd environment line transport state wording).length ≤ 1 ∧
      (∀ request ∈ sent tree cwd environment line transport state wording,
        ∃ config base, resolve tree a cwd none wording = .ok config ∧ a.listPets = true ∧
          Url.parse (config.trimmedBaseUrl ++ "/pets") = .ok base ∧
          Http.Target.parse (base.addPairs [("limit", "10")]).text = .ok request.target ∧
          request.method = .get ∧ request.body = []) ∧
      ∀ config client url request response,
        resolve tree a cwd none wording = .ok config → a.listPets = true →
        Client.ofConfig config = .ok client →
        Call.Ready client config.trimmedBaseUrl (.listPets firstPets) url request →
        ((transport config).send request state).answer = .ok response →
        HasMalformedPet response.body →
        (run tree cwd environment line transport state wording).exitCode = 1 ∧
          (run tree cwd environment line transport state wording).output = head config a := by
  rw [run_eq accepted, sent_eq accepted]
  refine ⟨fun ended requests => ⟨eq_of_ends, ?_⟩, fun config => getLast?_render config a.options,
    length_runRequests tree cwd a wording, fun request mem => mem_runRequests mem, ?_⟩
  · rintro ⟨rfl, rfl⟩
    obtain ⟨ended, requests, ends⟩ := exists_ends tree cwd a transport state wording
    obtain ⟨rfl, rfl⟩ := eq_of_ends ends
    exact ends
  · intro config client url request response resolved lists built ready answer malformed
    exact ends_of_malformed resolved lists built ready answer malformed

theorem isValue_goodPet : IsValue (Utf8.bytesOf "\x7b\"id\":1,\"name\":\"Rex\"\x7d") := by
  have one : IsValue (Utf8.bytesOf "1") := isValue_digit rfl (by decide)
  have rex : IsValue (Utf8.bytesOf "\"Rex\"") :=
    .string (.plain rfl (.plain rfl (.plain rfl .close)))
  have fit : ∀ e ∈ [Entry.compact "id" "1", .compact "name" "\"Rex\""], e.Fits :=
    List.forall_mem_cons.2
      ⟨Entry.fits_compact .., List.forall_mem_singleton.2 (Entry.fits_compact ..)⟩
  refine .object .nil fit ?_ (List.forall_mem_cons.2 ⟨one, List.forall_mem_singleton.2 rex⟩)
  exact List.forall_mem_cons.2 ⟨.plain rfl (.plain rfl .close),
    List.forall_mem_singleton.2 (.plain rfl (.plain rfl (.plain rfl (.plain rfl .close))))⟩

theorem isValue_nameless : IsValue (Utf8.bytesOf "\x7b\"id\":2\x7d") := by
  have two : IsValue (Utf8.bytesOf "2") := isValue_digit rfl (by decide)
  have fit : ∀ e ∈ [Entry.compact "id" "2"], e.Fits :=
    List.forall_mem_singleton.2 (Entry.fits_compact ..)
  exact .object .nil fit (List.forall_mem_singleton.2 (.plain rfl (.plain rfl .close)))
    (List.forall_mem_singleton.2 two)

def malformedBody : Bytes :=
  listBytes [⟨[], Utf8.bytesOf "\x7b\"id\":1,\"name\":\"Rex\"\x7d", []⟩,
    ⟨[], Utf8.bytesOf "\x7b\"id\":2\x7d", []⟩] []

theorem hasMalformedPet_malformedBody : HasMalformedPet malformedBody := by
  have refused : (Pet.shape.decode (Utf8.bytesOf "\x7b\"id\":2\x7d")).toOption = none := by cbv
  have malformed (pet : Pet) :
      Pet.shape.decode (Utf8.bytesOf "\x7b\"id\":2\x7d") ≠ .ok pet := by
    intro decoded
    rw [decoded] at refused
    cases refused
  have fit (text : Bytes) : Spaced.Fits ⟨[], text, []⟩ := ⟨.nil, .nil⟩
  have whole : malformedBody = [] ++ (malformedBody ++ []) := by
    rw [List.nil_append, List.append_nil]
  rw [whole]
  exact .list .nil .nil .nil
    (List.forall_mem_cons.2 ⟨fit _, List.forall_mem_singleton.2 (fit _)⟩)
    (List.forall_mem_cons.2 ⟨isValue_goodPet, List.forall_mem_singleton.2 isValue_nameless⟩)
    (List.mem_cons_of_mem _ (List.mem_cons_self ..)) malformed

def listCommand : List String :=
  ["--list-pets", "--base-url", "http://[::1]", "--token", ""]

def listArguments : Arguments where
  baseUrl := some "http://[::1]"
  token := some ""
  listPets := true

/-- The good pet of two is not listed. -/
theorem ends_by_stages_malformed :
    ∃ config, resolve {} listArguments ⟨""⟩ none .mark = .ok config ∧
      let ended := run {} ⟨""⟩ {} listCommand (fun _ => answering malformedBody) () .mark
      ended.exitCode = 1 ∧ ended.output = head config listArguments := by
  have accepted : Arguments.read {} listCommand = .ok listArguments := by cbv
  have missing : Config.findFile {} ⟨""⟩ none = none := by rfl
  have resolved : resolve {} listArguments ⟨""⟩ none .mark = _ :=
    resolve_eq_ok.2 ⟨none, .absent rfl missing, layered_override listArguments none⟩
  have built : Client.ofConfig (listArguments.override defaultConfig) =
      .ok ⟨"http://[::1]", []⟩ := by cbv
  have trimmed : (listArguments.override defaultConfig).trimmedBaseUrl = "http://[::1]" := by cbv
  obtain ⟨url, request, prepared⟩ := ready_firstPets
  have ready : Call.Ready ⟨"http://[::1]", []⟩
      (listArguments.override defaultConfig).trimmedBaseUrl (.listPets firstPets) url request := by
    rw [trimmed]
    exact prepared
  obtain ⟨-, -, -, -, malformed⟩ :=
    ends_by_stages accepted {} ⟨""⟩ (fun _ => answering malformedBody) () .mark
  have ended := malformed _ _ url request ⟨Http.Status.ok, malformedBody⟩ resolved rfl built ready
    rfl hasMalformedPet_malformedBody
  exact ⟨_, resolved, ended⟩

end PetClient.Demo
