import PetClient.Demo.Run
import PetClient.Proofs.Endpoints
import PetClient.Proofs.Outcome
import PetClient.Proofs.Presentation
import PetClient.Proofs.Showing
import PetClient.Proofs.Text.Parts

/-!
The lines of a listing.  Behind the line that names the API and the one that counts the pets comes a
line for each pet, and more of them where the name of a pet holds line ends.
-/

namespace PetClient

namespace Demo

/-! ### Lines -/

theorem splitAt_lineChars (lines : List String) :
    Text.splitAt '\n' (lineChars lines) =
      lines.flatMap (fun line => Text.splitAt '\n' line.toList) ++ [[]] := by
  induction lines with
  | nil => rfl
  | cons line lines ih =>
    rw [lineChars_cons, Text.splitAt_append, ih, List.flatMap_cons, List.append_assoc]

theorem count_lineChars (lines : List String) :
    (lineChars lines).count '\n' =
      lines.length + (lines.map fun line => line.toList.count '\n').sum := by
  induction lines with
  | nil => rfl
  | cons line lines ih =>
    rw [lineChars_cons, List.count_append, List.count_cons_self, ih, List.length_cons,
      List.map_cons, List.sum_cons]
    omega

def petEntry (pet : Pet) : String :=
  "  - #" ++ toString pet.id.toInt ++ " " ++ pet.name ++ " (" ++ pet.status.name ++ ")"

def listingLines (config : Config) (pets : List Pet) : List String :=
  ("Listing " ++ config.trimmedBaseUrl ++ "/pets ...") ::
    ("Found " ++ toString pets.length ++ " pets") :: pets.map petEntry

theorem petLine_eq (pet : Pet) : petLine pet = petEntry pet ++ "\n" := by
  have closing : ")\n" = ")" ++ "\n" := rfl
  unfold petLine petEntry
  rw [closing, ← String.append_assoc]

theorem toList_listing (config : Config) (pets : List Pet) :
    (listingLine config ++ petLines pets).toList = lineChars (listingLines config pets) := by
  have entries : (String.join (pets.map petLine)).toList = lineChars (pets.map petEntry) := by
    rw [String.toList_join]
    unfold lineChars
    simp [petLine_eq, List.flatMap_def, Function.comp_def]
  unfold listingLine petLines petsAddress listingLines
  rw [lineChars_cons, lineChars_cons, ← entries]
  simp

theorem not_mem_number (n : Int) : '\n' ∉ (toString n).toList := by
  intro mem
  rcases (Call.isPlain_number n).2 '\n' mem with letter | dash
  · exact absurd letter (by decide)
  · cases dash

theorem count_petEntry (pet : Pet) :
    (petEntry pet).toList.count '\n' = pet.name.toList.count '\n' := by
  have id := List.count_eq_zero.2 (not_mem_number pet.id.toInt)
  have status : pet.status.name.toList.count '\n' = 0 := by cases pet.status <;> cbv
  unfold petEntry
  simp only [String.toList_append, List.count_append, id, status]
  have front : "  - #".toList.count '\n' = 0 := by cbv
  have between : " ".toList.count '\n' = 0 := by cbv
  have opening : " (".toList.count '\n' = 0 := by cbv
  have closing : ")".toList.count '\n' = 0 := by cbv
  omega

theorem not_mem_title {config : Config} (plain : '\n' ∉ config.baseUrl.toList) :
    '\n' ∉ ("Listing " ++ config.trimmedBaseUrl ++ "/pets ...").toList := by
  have trimmed : '\n' ∉ config.trimmedBaseUrl.toList := by
    unfold Config.trimmedBaseUrl
    rw [String.toList_ofList]
    exact fun mem => plain (Text.trimEnd_subset '/' _ mem)
  simp [trimmed]

theorem not_mem_counted (n : Nat) : '\n' ∉ ("Found " ++ toString n ++ " pets").toList := by
  have digits : '\n' ∉ (toString n).toList := fun mem =>
    absurd (Text.isDigit_of_mem_toString mem) (by decide)
  simp only [String.toList_append, List.mem_append, digits, or_false]
  decide

theorem count_listingLines {config : Config} (plain : '\n' ∉ config.baseUrl.toList)
    (pets : List Pet) :
    (lineChars (listingLines config pets)).count '\n' =
      pets.length + 2 + (pets.map fun pet => pet.name.toList.count '\n').sum := by
  have title := List.count_eq_zero.2 (not_mem_title plain)
  have counted := List.count_eq_zero.2 (not_mem_counted pets.length)
  unfold listingLines
  rw [count_lineChars, List.map_cons, List.map_cons, List.sum_cons, List.sum_cons, title, counted,
    List.map_map]
  simp only [List.length_cons, List.length_map, Function.comp_def, count_petEntry]
  omega

theorem splitAt_listingLines {config : Config} (plain : '\n' ∉ config.baseUrl.toList)
    (pets : List Pet) :
    Text.splitAt '\n' (lineChars (listingLines config pets)) =
      ("Listing " ++ config.trimmedBaseUrl ++ "/pets ...").toList ::
        ("Found " ++ toString pets.length ++ " pets").toList ::
          (pets.flatMap fun pet => Text.splitAt '\n' (petEntry pet).toList) ++ [[]] := by
  unfold listingLines
  rw [splitAt_lineChars, List.flatMap_cons, List.flatMap_cons,
    Text.splitAt_of_not_mem (not_mem_title plain), Text.splitAt_of_not_mem (not_mem_counted _),
    List.flatMap_map]
  rfl

/-! ### Listings -/

variable {σ : Type} {config : Config} {client : Client} {transport : Transport σ} {state after : σ}
  {log : List LogRecord}

theorem list_of_unbuilt {error : ClientError} (building : Client.ofConfig config = .error error)
    (transport : Transport σ) (state : σ) :
    list config transport state =
      ⟨listingLine config, some (.ofClient "failed to set up the API client" error), [],
        state⟩ := by
  unfold list
  rw [building]

theorem list_of_failed (built : Client.ofConfig config = .ok client) {error : ClientError}
    (performed : (Call.listPets firstPets).perform client transport state =
      ⟨.error error, log, after⟩) :
    list config transport state =
      ⟨listingLine config, some (.ofClient ("GET " ++ petsAddress config ++ " failed") error), log,
        after⟩ := by
  change Api.listPets client transport firstPets state = _ at performed
  unfold list
  rw [built]
  simp only [performed]

theorem list_of_fetched (built : Client.ofConfig config = .ok client) {pets : List Pet}
    (performed : (Call.listPets firstPets).perform client transport state =
      ⟨.ok pets, log, after⟩) :
    list config transport state =
      ⟨listingLine config ++ petLines pets, none, log, after⟩ := by
  change Api.listPets client transport firstPets state = _ at performed
  unfold list
  rw [built]
  simp only [performed]

theorem exists_body (pets : List Pet) :
    ∃ body, Call.valueOf (Json.list Pet.shape) body = .ok pets := by
  have decoded := (Json.list_lawful Pet.shape_lawful).decode_encode pets
  refine ⟨Utf8.bytesOf ((Json.list Pet.shape).encode pets), ?_⟩
  have solid : (Utf8.bytesOf ((Json.list Pet.shape).encode pets)).all Client.isBlank = false := by
    unfold Json.Shape.encode Json.compact Utf8.bytesOf
    rw [String.toList_ofList]
    rfl
  unfold Call.valueOf
  rw [solid]
  exact decoded

def answering (body : Bytes) : Transport Unit where
  send _ state := ⟨.ok ⟨Http.Status.ok, body⟩, [], state⟩

/-- A pet with a line end in its name, behind another one. -/
def brokenBody : Bytes :=
  Utf8.bytesOf "[\x7b\"id\":1,\"name\":\"Rex\",\"status\":\"sold\"\x7d,\x7b\"id\":2,\"name\":\"a\\nb\"\x7d]"

theorem valueOf_brokenBody : Call.valueOf (Json.list Pet.shape) brokenBody =
    .ok [{ id := 1, name := "Rex", status := .sold }, { id := 2, name := "a\nb" }] := by
  cbv

theorem passing_ok : ¬Call.Failing Http.Status.ok := by
  unfold Call.Failing
  decide

theorem ready_firstPets : ∃ url request, Call.Ready ⟨"http://[::1]", []⟩ "http://[::1]"
    (.listPets firstPets) url request := by
  have prepared : (Call.listPets firstPets).prepare ⟨"http://[::1]", []⟩ =
      .ok ({ scheme := "http"
             authority := some { host := some (.ipv6 [0, 0, 0, 0, 0, 0, 0, 1]) }
             path := "/pets"
             query := some "limit=10" },
        ⟨.get, ⟨some "http", "[::1]", "/pets?limit=10"⟩, [⟨"accept", "application/json", false⟩],
          []⟩) := by cbv
  exact ⟨_, _, Call.ready_iff.2 prepared⟩

/-- Every list of pets may be fetched, and each entry is then written whole, split at the line ends
of its own name.  There is one line for each pet exactly if no name holds a line end. -/
theorem writes_all_lines {σ : Type} {config : Config} {client : Client} {url : Url}
    {request : Http.Request} (plain : '\n' ∉ config.baseUrl.toList)
    (built : Client.ofConfig config = .ok client)
    (ready : Call.Ready client config.trimmedBaseUrl (.listPets firstPets) url request)
    (transport : Transport σ) (state : σ) (pets : List Pet) :
    (∃ body, Call.valueOf (Json.list Pet.shape) body = .ok pets) ∧
      ∀ response, (transport.send request state).answer = .ok response →
        ¬Call.Failing response.status →
        Call.valueOf (Json.list Pet.shape) response.body = .ok pets →
        let listing := list config transport state
        listing.failure = none ∧
          Text.splitAt '\n' listing.output.toList =
            ("Listing " ++ config.trimmedBaseUrl ++ "/pets ...").toList ::
              ("Found " ++ toString pets.length ++ " pets").toList ::
                (pets.flatMap fun pet => Text.splitAt '\n' (petEntry pet).toList) ++ [[]] ∧
          listing.output.toList.count '\n' =
            pets.length + 2 + (pets.map fun pet => pet.name.toList.count '\n').sum ∧
          (listing.output.toList.count '\n' = pets.length + 2 ↔
            ∀ pet ∈ pets, '\n' ∉ pet.name.toList) := by
  refine ⟨exists_body pets, fun response answer passing decoded => ?_⟩
  have trimmed := (Client.ofConfig_eq_ok built).1
  rw [← trimmed] at ready
  have performed := (Call.eq_of_comes (.decoded ready answer passing decoded)).1
  dsimp only
  rw [list_of_fetched built performed, toList_listing, splitAt_listingLines plain,
    count_listingLines plain]
  refine ⟨rfl, rfl, rfl, ?_⟩
  simp only [Nat.add_eq_left, List.sum_eq_zero_iff, List.forall_mem_map, List.count_eq_zero]

/-- A line end in a name takes a line of its own. -/
theorem writes_all_lines_broken :
    let listing := list { baseUrl := "http://[::1]" } (answering brokenBody) ()
    Text.splitAt '\n' listing.output.toList =
      ["Listing http://[::1]/pets ...".toList, "Found 2 pets".toList, "  - #1 Rex (sold)".toList,
        "  - #2 a".toList, "b (available)".toList, []] := by
  have built : Client.ofConfig { baseUrl := "http://[::1]" } = .ok ⟨"http://[::1]", []⟩ := by cbv
  have trimmed : Config.trimmedBaseUrl { baseUrl := "http://[::1]" } = "http://[::1]" := by cbv
  obtain ⟨url, request, prepared⟩ := ready_firstPets
  have ready : Call.Ready ⟨"http://[::1]", []⟩ (Config.trimmedBaseUrl { baseUrl := "http://[::1]" })
      (.listPets firstPets) url request := by
    rw [trimmed]
    exact prepared
  obtain ⟨-, fetched⟩ := writes_all_lines (by decide) built ready (answering brokenBody) ()
    [{ id := 1, name := "Rex", status := .sold }, { id := 2, name := "a\nb" }]
  obtain ⟨-, split, -⟩ := fetched ⟨Http.Status.ok, brokenBody⟩ rfl passing_ok valueOf_brokenBody
  exact split.trans (by cbv)

/-- There may be more lines than there are pets. -/
theorem name_may_take_lines :
    ∃ url request pets,
      Call.Ready ⟨"http://[::1]", []⟩ "http://[::1]" (.listPets firstPets) url request ∧
      Call.valueOf (Json.list Pet.shape) brokenBody = .ok pets ∧
      (list { baseUrl := "http://[::1]" } (answering brokenBody) ()).failure = none ∧
      (list { baseUrl := "http://[::1]" } (answering brokenBody) ()).output.toList.count '\n' ≠
        pets.length + 2 := by
  have built : Client.ofConfig { baseUrl := "http://[::1]" } = .ok ⟨"http://[::1]", []⟩ := by cbv
  obtain ⟨url, request, ready⟩ := ready_firstPets
  have comes : Call.Comes ⟨"http://[::1]", []⟩ "http://[::1]" (answering brokenBody)
      (.listPets firstPets) () _ [request] := .decoded ready rfl passing_ok valueOf_brokenBody
  have performed := (Call.eq_of_comes comes).1
  refine ⟨url, request, _, ready, valueOf_brokenBody, ?_⟩
  rw [list_of_fetched built performed]
  exact ⟨rfl, by rw [toList_listing, count_listingLines (by decide)]; decide⟩

end Demo

end PetClient
