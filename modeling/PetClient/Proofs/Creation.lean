import PetClient.Proofs.Outcome
import PetClient.Proofs.Presentation

/-!
Creating pets and orders.  What is sent and what is read are declared apart, but they agree on the
names and forms of their members: a server that gives back what it received, with an identifier
among the members, is understood.
-/

namespace PetClient

open Json (WireField WritesInteger WritesList WritesOption WritesString)

namespace Json

variable {α : Type}

/-! ### Objects of given members -/

def WritesObject (members : List (String × Json)) (text : Bytes) : Prop :=
  ∃ (entries : List ((String × Json) × Entry)) (before inner after : Bytes),
    Blank before ∧ Blank inner ∧ Blank after ∧
    (∀ e ∈ entries, e.2.Fits ∧ WritesName e.1.1 e.2.name ∧ e.2.value.text = e.1.2.bytes) ∧
    members = entries.map Prod.fst ∧
    text = before ++ (objectBytes (entries.map Prod.snd) inner ++ after)

def compactEntry (member : String × Json) : Entry :=
  ⟨[], Utf8.encode (member.1.toList.flatMap escapeChar) ++ [0x22], [], ⟨[], member.2.bytes, []⟩⟩

theorem fits_compactEntry (member : String × Json) : (compactEntry member).Fits :=
  ⟨.nil, .nil, .nil, .nil⟩

theorem bytes_compactEntry (member : String × Json) :
    (compactEntry member).bytes = memberBytes member := by
  simp [compactEntry, memberBytes, memberTail, Entry.bytes, Entry.tail, Spaced.bytes]

theorem piecesFrom_map {ι κ : Type} {piece : κ → Bytes} {piece' : ι → Bytes} {f : ι → κ}
    (same : ∀ i, piece (f i) = piece' i) (first : Bool) (items : List ι) :
    piecesFrom piece first (items.map f) = piecesFrom piece' first items := by
  induction items generalizing first with
  | nil => rfl
  | cons i items ih => cases first <;> simp only [List.map_cons, piecesFrom, same, ih]

theorem writesObject_compact (members : List (String × Json)) :
    WritesObject members (object members).bytes := by
  refine ⟨members.map fun m => (m, compactEntry m), [], [], [], .nil, .nil, .nil, ?_, ?_, ?_⟩
  · refine List.forall_mem_map.2 fun m _ => ⟨fits_compactEntry m, ?_, rfl⟩
    exact ⟨_, writesText_escaped _, rfl⟩
  · rw [List.map_map]
    exact (List.map_id members).symm
  · rw [List.map_map, bytes_object, objectBytes]
    change _ = 0x7B :: (piecesFrom Entry.bytes true (members.map compactEntry) ++ [0x7D]) ++ []
    rw [piecesFrom_map bytes_compactEntry, List.append_nil]

def HoldsField (fields : List (WireField α)) (value : α) (member : String × Json) : Prop :=
  ∃ f ∈ fields, f.name = member.1 ∧ f.Holds value member.2.bytes

/-- Members from which a record is read: each holds a field, none comes twice, and only what may be
absent is. -/
structure HoldsRecord (fields : List (WireField α)) (value : α)
    (members : List (String × Json)) : Prop where
  holds : ∀ m ∈ members, HoldsField fields value m
  once : (members.map Prod.fst).Nodup
  complete : ∀ f ∈ fields, f.name ∈ members.map Prod.fst ∨ f.MayLack value

variable {fields : List (WireField α)} {value : α} {members others : List (String × Json)}

theorem HoldsRecord.perm (record : HoldsRecord fields value members)
    (perm : others.Perm members) : HoldsRecord fields value others where
  holds := fun m mem => record.holds m (perm.mem_iff.1 mem)
  once := (perm.map Prod.fst).nodup_iff.2 record.once
  complete := fun f mem => (record.complete f mem).imp_left (perm.map Prod.fst).mem_iff.2

/-- Every text of the object presents the record. -/
theorem HoldsRecord.presents (record : HoldsRecord fields value members)
    (distinct : (fields.map WireField.name).Nodup) {text : Bytes}
    (writes : WritesObject members text) : Presents fields value text := by
  obtain ⟨entries, before, inner, after, blank, blank', blank'', written, rfl, rfl⟩ := writes
  have parts : entries.map Prod.snd = (entries.map fun e => (e.1.1, e.2)).map Prod.snd := by
    rw [List.map_map]
    rfl
  rw [parts]
  refine .object blank blank' blank'' ?_ ?_ fun f mem => ?_
  · refine List.forall_mem_map.2 fun e mem => ?_
    obtain ⟨fits, name, text⟩ := written e mem
    obtain ⟨f, mem_f, same, holds⟩ := record.holds e.1 (List.mem_map_of_mem mem)
    rw [← same] at name ⊢
    exact .of_mem distinct mem_f fits name (text ▸ holds)
  · have once := record.once
    rw [List.map_map, List.Nodup, List.pairwise_map] at once
    exact List.pairwise_map.2 (once.imp fun different same => absurd same different)
  · have complete := record.complete f mem
    rw [List.map_map] at complete ⊢
    exact complete

/-! ### What is written holds -/

theorem HoldsField.required {β : Type} {name : String} (writes : β → Bytes → Prop) (get : α → β)
    {json : Json} (mem : .required name writes get ∈ fields)
    (written : writes (get value) json.bytes) : HoldsField fields value (name, json) :=
  ⟨_, mem, rfl, written⟩

theorem HoldsField.defaulted {β : Type} {name : String} (writes : β → Bytes → Prop) (get : α → β)
    (default : β) {json : Json} (mem : .defaulted name writes get default ∈ fields)
    (written : writes (get value) json.bytes) : HoldsField fields value (name, json) :=
  ⟨_, mem, rfl, written⟩

theorem HoldsField.optional {β : Type} {name : String} (writes : β → Bytes → Prop)
    (get : α → Option β) {write : β → Json}
    (mem : .defaulted name (WritesOption writes) get none ∈ fields)
    (written : ∀ x, writes x (write x).bytes) (value : α) :
    ∀ m ∈ optionalMember name write (get value), HoldsField fields value m := by
  cases set : get value with
  | none => exact List.forall_mem_nil _
  | some x =>
    have holds : WritesOption writes (get value) (write x).bytes := set ▸ written x
    exact List.forall_mem_singleton.2 (.defaulted _ get none mem holds)

theorem names_optionalMember {β : Type} (name : String) (write : β → Json) (v : Option β) :
    ((optionalMember name write v).map Prod.fst).Sublist [name] := by
  cases v with
  | none => exact List.nil_sublist _
  | some x => exact List.Sublist.refl _

theorem mem_names_optionalMember {β : Type} (name : String) (write : β → Json) (v : Option β) :
    name ∈ (optionalMember name write v).map Prod.fst ∨ v = none := by
  cases v with
  | none => exact .inr rfl
  | some x => exact .inl (List.mem_singleton_self name)

theorem writesList_compact {writes : α → Bytes → Prop} {write : α → Json}
    (each : ∀ x, writes x (write x).bytes) (values : List α) :
    WritesList writes values (array (values.map write)).bytes := by
  refine ⟨values.map fun x => ⟨[], (write x).bytes, []⟩, [],
    List.forall_mem_map.2 fun _ _ => ⟨.nil, .nil⟩, .nil, ?_, ?_⟩
  · exact List.forall₂_map_right_iff.2 (List.forall₂_same.2 fun x _ => each x)
  · have piece (x : α) : Spaced.bytes ⟨[], (write x).bytes, []⟩ = (write x).bytes :=
      List.append_nil _
    rw [bytes_array, listBytes, piecesFrom_map piece,
      piecesFrom_map fun x : α => (rfl : bytes (write x) = (write x).bytes)]
    rfl

end Json

/-! ### Pets and orders -/

def idMember (id : Int64) : String × Json :=
  ("id", Json.int64.write id)

def NewPet.created (pet : NewPet) (id : Int64) (status : PetStatus) : Pet where
  id := id
  name := pet.name
  species := pet.species
  breed := pet.breed
  age := pet.age
  tags := pet.tags
  status := status

def NewOrder.placed (order : NewOrder) (id : Int64) : Order where
  id := id
  petId := order.petId
  quantity := order.quantity
  status := none
  complete := false

namespace NewPet

open Json (HoldsField HoldsRecord names_optionalMember mem_names_optionalMember)

theorem names_write (pet : NewPet) :
    ((record.write pet).map Prod.fst).Sublist ["name", "species", "breed", "age", "tags"] := by
  have tags : ((if pet.tags.isEmpty then [] else
      [("tags", (Json.list Json.text).write pet.tags)]).map Prod.fst).Sublist ["tags"] := by
    split
    · exact List.nil_sublist _
    · exact List.Sublist.refl _
  simp only [record, List.map_cons, List.map_append]
  exact .cons_cons _ ((((names_optionalMember ..).append (names_optionalMember ..)).append
    (names_optionalMember ..)).append tags)

theorem holds_write (pet : NewPet) (id : Int64) (status : PetStatus) :
    ∀ m ∈ record.write pet, HoldsField Pet.fields (pet.created id status) m := by
  have text (s : String) : WritesString s (Json.string s).bytes := Json.writesString_quoted s
  have number (n : UInt32) : WritesInteger n.toNat (Json.word32.write n).bytes := rfl
  have name : HoldsField Pet.fields (pet.created id status) ("name", .string pet.name) :=
    .required WritesString Pet.name (by simp [Pet.fields]) (text pet.name)
  have tags : HoldsField Pet.fields (pet.created id status)
      ("tags", (Json.list Json.text).write pet.tags) :=
    .defaulted (WritesList WritesString) Pet.tags [] (by simp [Pet.fields])
      (Json.writesList_compact text pet.tags)
  simp only [record, List.forall_mem_cons, List.forall_mem_append]
  refine ⟨name, ⟨⟨?_, ?_⟩, ?_⟩, ?_⟩
  · exact HoldsField.optional WritesString Pet.species (by simp [Pet.fields]) text
      (pet.created id status)
  · exact HoldsField.optional WritesString Pet.breed (by simp [Pet.fields]) text
      (pet.created id status)
  · exact HoldsField.optional (fun n : UInt32 => WritesInteger n.toNat) Pet.age
      (by simp [Pet.fields]) number (pet.created id status)
  · split
    · exact List.forall_mem_nil _
    · exact List.forall_mem_singleton.2 tags

theorem complete_write (pet : NewPet) (id : Int64) (status : PetStatus) {names : List String}
    (known : "id" ∈ names) (written : ∀ m ∈ record.write pet, m.1 ∈ names)
    (default : "status" ∈ names ∨ status = .available) :
    ∀ f ∈ Pet.fields, f.name ∈ names ∨ f.MayLack (pet.created id status) := by
  have within {part : List (String × Json)} (part_of : ∀ m ∈ part, m ∈ record.write pet)
      {name : String} (named : name ∈ part.map Prod.fst) : name ∈ names := by
    obtain ⟨m, mem, rfl⟩ := List.mem_map.1 named
    exact written m (part_of m mem)
  have species := mem_names_optionalMember "species" Json.string pet.species
  have breed := mem_names_optionalMember "breed" Json.string pet.breed
  have age := mem_names_optionalMember "age" Json.word32.write pet.age
  have tags : "tags" ∈ names ∨ pet.tags = [] := by
    by_cases empty : pet.tags = []
    · exact .inr empty
    · refine .inl (written ("tags", (Json.list Json.text).write pet.tags) ?_)
      simp [record, empty]
  simp only [Pet.fields, WireField.required, WireField.defaulted, List.forall_mem_cons]
  refine ⟨.inl known, .inl (written ("name", .string pet.name) (List.mem_cons_self ..)),
    species.imp_left (within fun m mem => ?_), breed.imp_left (within fun m mem => ?_),
    age.imp_left (within fun m mem => ?_), tags, default, List.forall_mem_nil _⟩
  all_goals simp [record, mem]

theorem holdsRecord_created (pet : NewPet) (id : Int64) :
    HoldsRecord Pet.fields (pet.created id .available) (idMember id :: record.write pet) := by
  have id_holds : HoldsField Pet.fields (pet.created id .available) (idMember id) :=
    .required (fun n : Int64 => WritesInteger n.toInt) Pet.id (by simp [Pet.fields]) rfl
  refine ⟨List.forall_mem_cons.2 ⟨id_holds, holds_write pet id .available⟩, ?_,
    complete_write pet id .available (List.mem_cons_self ..) (fun m mem => ?_) (.inr rfl)⟩
  · exact ((names_write pet).cons_cons "id").nodup (by decide)
  · exact List.mem_cons_of_mem _ (List.mem_map_of_mem mem)

theorem holdsRecord_createdWith (pet : NewPet) (id : Int64) (status : PetStatus) :
    HoldsRecord Pet.fields (pet.created id status)
      (idMember id :: (PetUpdate.record.write { status := some status } ++ record.write pet)) := by
  have id_holds : HoldsField Pet.fields (pet.created id status) (idMember id) :=
    .required (fun n : Int64 => WritesInteger n.toInt) Pet.id (by simp [Pet.fields]) rfl
  have status_holds : HoldsField Pet.fields (pet.created id status)
      ("status", .string status.name) :=
    .defaulted PetStatus.Writes Pet.status .available (by simp [Pet.fields])
      (Json.writesString_quoted status.name)
  refine ⟨List.forall_mem_cons.2 ⟨id_holds, List.forall_mem_cons.2
    ⟨status_holds, holds_write pet id status⟩⟩, ?_,
    complete_write pet id status (List.mem_cons_self ..) (fun m mem => ?_) (.inl ?_)⟩
  · exact (((names_write pet).cons_cons "status").cons_cons "id").nodup (by decide)
  · exact List.mem_cons_of_mem _ (List.mem_cons_of_mem _ (List.mem_map_of_mem mem))
  · exact List.mem_cons_of_mem _ (List.mem_cons_self ..)

end NewPet

theorem NewOrder.holdsRecord_placed (order : NewOrder) (id : Int64) :
    Json.HoldsRecord Order.fields (order.placed id) (idMember id :: record.write order) := by
  have id_holds : Json.HoldsField Order.fields (order.placed id) (idMember id) :=
    .required (fun n : Int64 => WritesInteger n.toInt) Order.id (by simp [Order.fields]) rfl
  have petId : Json.HoldsField Order.fields (order.placed id)
      ("petId", Json.int64.write order.petId) :=
    .required (fun n : Int64 => WritesInteger n.toInt) Order.petId (by simp [Order.fields]) rfl
  have quantity : Json.HoldsField Order.fields (order.placed id)
      ("quantity", Json.word32.write order.quantity) :=
    .required (fun n : UInt32 => WritesInteger n.toNat) Order.quantity (by simp [Order.fields]) rfl
  refine ⟨List.forall_mem_cons.2 ⟨id_holds, List.forall_mem_cons.2
    ⟨petId, List.forall_mem_singleton.2 quantity⟩⟩, ?_, ?_⟩
  · change ["id", "petId", "quantity"].Nodup
    decide
  · simp [Order.fields, WireField.required, WireField.defaulted, idMember, record, placed]

/-! ### Servers that create -/

/-- A server that creates what it receives: an object that is posted is given back with success and
with some members added, in any order and layout. -/
def Transport.Creates {σ : Type} (transport : Transport σ) (added : List (String × Json)) : Prop :=
  ∀ (request : Http.Request) (state : σ) (members : List (String × Json)),
    request.method = .post → request.body = (Json.object members).bytes →
      ∃ (response : Http.Response) (all : List (String × Json)),
        (transport.send request state).answer = .ok response ∧
        200 ≤ response.status.code ∧ response.status.code ≤ 299 ∧
        all.Perm (added ++ members) ∧ Json.WritesObject all response.body

def inserted (member : String × Json) : Bytes → Bytes
  | [] => []
  | brace :: rest =>
    brace :: (Json.memberBytes member ++ if rest = [0x7D] then rest else 0x2C :: rest)

def givingBack (added : List (String × Json)) : Transport Unit where
  send request state := ⟨.ok ⟨Http.Status.ok, added.foldr inserted request.body⟩, [], state⟩

theorem inserted_object (member : String × Json) (members : List (String × Json)) :
    inserted member (Json.object members).bytes = (Json.object (member :: members)).bytes := by
  rw [Json.bytes_object, Json.bytes_object, inserted]
  cases members with
  | nil => simp [Json.piecesFrom]
  | cons next members =>
    have more : Json.piecesFrom Json.memberBytes true (next :: members) ++ [0x7D] ≠ [0x7D] := by
      simp [Json.piecesFrom, Json.memberBytes]
    rw [if_neg more]
    simp [Json.piecesFrom]

theorem creates_givingBack (added : List (String × Json)) :
    (givingBack added).Creates added := by
  intro request state members posted body
  have success : 200 ≤ Http.Status.ok.code ∧ Http.Status.ok.code ≤ 299 := by decide
  refine ⟨⟨Http.Status.ok, added.foldr inserted request.body⟩, added ++ members, rfl, success.1,
    success.2, .refl _, ?_⟩
  have same : added.foldr inserted request.body = (Json.object (added ++ members)).bytes := by
    rw [body]
    induction added with
    | nil => rfl
    | cons member added ih => rw [List.foldr_cons, ih, inserted_object, List.cons_append]
  rw [same]
  exact Json.writesObject_compact _

def LetsThrough (baseUrl path : String) : Prop :=
  ∃ url target, Url.parse (baseUrl ++ path) = .ok url ∧ Http.Target.parse url.text = .ok target

namespace Call

variable {σ α : Type}

theorem valueOf_of_starts {shape : Json.Shape α} {body : Bytes} {value : α}
    (decoded : shape.decode body = .ok value) (visible : ∃ b ∈ body, Client.isBlank b = false) :
    valueOf shape body = .ok value := by
  obtain ⟨b, mem, solid⟩ := visible
  have notBlank : ¬body.all Client.isBlank = true := by
    intro blank
    rw [List.all_eq_true.1 blank b mem] at solid
    cases solid
  unfold valueOf
  rw [if_neg notBlank, decoded]

/-- A record that is posted and given back is read from the members that come back. -/
theorem result_of_creates {δ : Type} {client : Client} {transport : Transport σ}
    {added members : List (String × Json)} (creates : transport.Creates added) (call : Call α)
    (posts : call.method = .post) (payload : call.payload = some (.ok (.object members)))
    (plain : call.pairs = []) (reached : LetsThrough client.baseUrl call.path)
    {record : Json.Record δ α} {fields : List (WireField α)} {draftOf : α → List String → δ}
    (drafted : record.Drafted fields draftOf) (reads : call.readBody = valueOf record.shape)
    {value : α} (holds : Json.HoldsRecord fields value (added ++ members)) (state : σ) :
    (call.perform client transport state).result = .ok value := by
  obtain ⟨url, target, parsed, targeted⟩ := reached
  have encoded : call.encoded = .ok (some (Json.object members).bytes) := by
    unfold Call.encoded
    rw [payload]
    exact congrArg (Except.ok ∘ some ∘ Utf8.encode) String.toList_ofList
  have ready : Ready client client.baseUrl call url
      ⟨call.method, target, client.requestFields true, (Json.object members).bytes⟩ :=
    ⟨_, url, target, encoded, parsed, by rw [plain]; rfl, targeted, rfl⟩
  obtain ⟨response, all, answer, least, greatest, perm, writes⟩ :=
    creates ⟨call.method, target, client.requestFields true, (Json.object members).bytes⟩ state
      members posts rfl
  have passing : ¬Failing response.status := fun failing => by
    unfold Failing at failing
    omega
  have brace : ∃ b ∈ response.body, Client.isBlank b = false := by
    obtain ⟨entries, before, inner, after, -, -, -, -, -, same⟩ := writes
    exact ⟨0x7B, by simp [same, Json.objectBytes], by decide⟩
  have decoded : record.shape.decode response.body = .ok value :=
    drafted.decode ((holds.perm perm).presents drafted.distinct writes)
  rw [(perform_of_ready ready).1, settle_of_passing answer passing, reads,
    valueOf_of_starts decoded brace]
  rfl

/-- Against a server that gives back what is posted and adds an identifier, a pet is created and an
order placed with that identifier and all that was sent of it; a pet is available, unless the server
adds the members of a change of its status as well. -/
theorem created_as_sent (client : Client) (transport : Transport σ) (state : σ) (id : Int64) :
    (transport.Creates [idMember id] →
      (∀ pet : NewPet, LetsThrough client.baseUrl "/pets" →
        (Api.createPet client transport pet state).result =
          .ok { id, name := pet.name, species := pet.species, breed := pet.breed, age := pet.age,
                tags := pet.tags, status := .available }) ∧
      ∀ order : NewOrder, LetsThrough client.baseUrl "/store/orders" →
        (Api.placeOrder client transport order state).result =
          .ok { id, petId := order.petId, quantity := order.quantity, status := none,
                complete := false }) ∧
    ∀ status : PetStatus,
      transport.Creates (idMember id :: PetUpdate.record.write { status := some status }) →
      ∀ pet : NewPet, LetsThrough client.baseUrl "/pets" →
        (Api.createPet client transport pet state).result =
          .ok { id, name := pet.name, species := pet.species, breed := pet.breed, age := pet.age,
                tags := pet.tags, status } := by
  refine ⟨fun creates => ⟨fun pet reached => ?_, fun order reached => ?_⟩,
    fun status creates pet reached => ?_⟩
  · exact result_of_creates creates (createPet pet) rfl rfl rfl reached Pet.drafted
      rfl (pet.holdsRecord_created id) state
  · exact result_of_creates creates (placeOrder order) rfl rfl rfl reached Order.drafted
      rfl (order.holdsRecord_placed id) state
  · exact result_of_creates creates (createPet pet) rfl rfl rfl reached Pet.drafted
      rfl (pet.holdsRecord_createdWith id status) state

/-- A pet and an order go out and come back. -/
theorem created_as_sent_givingBack :
    (Api.createPet ⟨"http://[::1]", []⟩ (givingBack [idMember 7])
        { name := "Rex", age := some 3, tags := ["good"] } ()).result =
      .ok { id := 7, name := "Rex", age := some 3, tags := ["good"], status := .available } ∧
    (Api.placeOrder ⟨"http://[::1]", []⟩ (givingBack [idMember 7]) ⟨5, 2⟩ ()).result =
      .ok { id := 7, petId := 5, quantity := 2 } ∧
    (Api.createPet ⟨"http://[::1]", []⟩
        (givingBack (idMember 7 :: PetUpdate.record.write { status := some .sold }))
        { name := "Rex" } ()).result =
      .ok { id := 7, name := "Rex", status := .sold } := by
  have pets : LetsThrough "http://[::1]" "/pets" := ⟨_, _, by cbv, by cbv⟩
  have orders : LetsThrough "http://[::1]" "/store/orders" := ⟨_, _, by cbv, by cbv⟩
  obtain ⟨alone, -⟩ := created_as_sent ⟨"http://[::1]", []⟩ (givingBack [idMember 7]) () 7
  obtain ⟨created, placed⟩ := alone (creates_givingBack _)
  obtain ⟨-, withStatus⟩ := created_as_sent ⟨"http://[::1]", []⟩
    (givingBack (idMember 7 :: PetUpdate.record.write { status := some .sold })) () 7
  exact ⟨created _ pets, placed _ orders, withStatus .sold (creates_givingBack _) _ pets⟩

end Call

end PetClient
