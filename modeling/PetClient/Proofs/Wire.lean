import PetClient.Config.Wire
import PetClient.ErrorReport
import PetClient.Order
import PetClient.Pet
import PetClient.Proofs.Json.Composite

/-!
The wire forms of all records: what a value is written as is read as that value.
-/

namespace PetClient

open Json (Fills Reads)

namespace Json.Shape

variable {α : Type} {shape : Shape α}

theorem Lawful.decode_encode (lawful : shape.Lawful) (value : α) :
    shape.decode (Utf8.bytesOf (shape.encode value)) = .ok value := by
  have text : Utf8.bytesOf (shape.encode value) = (shape.write value).bytes :=
    congrArg Utf8.encode String.toList_ofList
  have whole := (lawful value).reads [] (fun b mem => by cases mem)
  rw [List.append_nil] at whole
  unfold decode
  rw [text, whole]
  rfl

theorem Lawful.injective_encode (lawful : shape.Lawful) : Function.Injective shape.encode := by
  intro first second same
  have read_first := lawful.decode_encode first
  rw [same, lawful.decode_encode second] at read_first
  exact (Except.ok.inj read_first).symm

def rewritten (shape : Shape α) (text : Bytes) : Except Refusal String :=
  (shape.decode text).map shape.encode

/-- A text that has been written is not changed by another reading and writing. -/
theorem Lawful.rewritten_idempotent (lawful : shape.Lawful) (text : Bytes) :
    ((shape.rewritten text).bind fun again => shape.rewritten (Utf8.bytesOf again)) =
      shape.rewritten text := by
  unfold rewritten
  cases shape.decode text with
  | error refusal => rfl
  | ok value => exact congrArg (Except.map shape.encode) (lawful.decode_encode value)

end Json.Shape

theorem PetStatus.shape_lawful : PetStatus.shape.Lawful := by
  intro status
  cases status <;> exact Json.Variants.reads rfl

@[simp]
theorem getD_map_some {α : Type} (value : Option α) : (value.map some).getD none = value := by
  cases value <;> rfl

namespace Pet

def draftOf (pet : Pet) : Draft where
  id := pet.id
  name := pet.name
  species := pet.species.map some
  breed := pet.breed.map some
  age := pet.age.map some
  tags := pet.tags
  status := pet.status

theorem fills (pet : Pet) : Fills members {} (record.write pet) pet.draftOf := by
  have id : Fills members {} [("id", _)] _ :=
    .required (Json.int64_lawful pet.id) (fun v => { id := v }) ⟨_, rfl, rfl, rfl⟩
  have name : Fills members { id := pet.id } [("name", _)] _ :=
    .required (Json.text_lawful pet.name) (fun v => { id := pet.id, name := v }) ⟨_, rfl, rfl, rfl⟩
  have species : Fills members _ (Json.optionalMember "species" _ _) _ := .optional Json.text_lawful
    (fun v => { pet.draftOf with
      species := v, breed := none, age := none, tags := none, status := none })
    ⟨_, rfl, rfl, rfl⟩ pet.species
  have breed : Fills members _ (Json.optionalMember "breed" _ _) _ := .optional Json.text_lawful
    (fun v => { pet.draftOf with breed := v, age := none, tags := none, status := none })
    ⟨_, rfl, rfl, rfl⟩ pet.breed
  have age : Fills members _ (Json.optionalMember "age" _ _) _ := .optional Json.word32_lawful
    (fun v => { pet.draftOf with age := v, tags := none, status := none })
    ⟨_, rfl, rfl, rfl⟩ pet.age
  have tags : Fills members { pet.draftOf with tags := none, status := none } [("tags", _)] _ :=
    .required (Json.list_lawful Json.text_lawful pet.tags)
      (fun v => { pet.draftOf with tags := v, status := none }) ⟨_, rfl, rfl, rfl⟩
  have status : Fills members { pet.draftOf with status := none } [("status", _)] _ :=
    .required (PetStatus.shape_lawful pet.status) (fun v => { pet.draftOf with status := v })
      ⟨_, rfl, rfl, rfl⟩
  exact id.append (name.append (((species.append breed).append age).append (tags.append status)))

theorem shape_lawful : shape.Lawful := by
  refine Json.Record.lawful_of_fills fills fun pet => ?_
  simp only [record, Draft.build, draftOf, Json.required, bind, Except.bind, getD_map_some]
  rfl

end Pet

namespace NewPet

/-- What is read of a written new pet; an empty list of tags is not written. -/
def draftOf (pet : NewPet) : Draft where
  name := pet.name
  species := pet.species.map some
  breed := pet.breed.map some
  age := pet.age.map some
  tags := if pet.tags.isEmpty then none else pet.tags

theorem fills (pet : NewPet) : Fills members {} (record.write pet) pet.draftOf := by
  have name : Fills members {} [("name", _)] _ :=
    .required (Json.text_lawful pet.name) (fun v => { name := v }) ⟨_, rfl, rfl, rfl⟩
  have species : Fills members _ (Json.optionalMember "species" _ _) _ := .optional Json.text_lawful
    (fun v => { name := pet.name, species := v }) ⟨_, rfl, rfl, rfl⟩ pet.species
  have breed : Fills members _ (Json.optionalMember "breed" _ _) _ := .optional Json.text_lawful
    (fun v => { pet.draftOf with breed := v, age := none, tags := none })
    ⟨_, rfl, rfl, rfl⟩ pet.breed
  have age : Fills members _ (Json.optionalMember "age" _ _) _ := .optional Json.word32_lawful
    (fun v => { pet.draftOf with age := v, tags := none }) ⟨_, rfl, rfl, rfl⟩ pet.age
  have written : Fills members { pet.draftOf with tags := none } [("tags", _)]
      { pet.draftOf with tags := some pet.tags } :=
    .required (Json.list_lawful Json.text_lawful pet.tags) (fun v => { pet.draftOf with tags := v })
      ⟨_, rfl, rfl, rfl⟩
  have tags : Fills members { pet.draftOf with tags := none }
      (if pet.tags.isEmpty then [] else [("tags", (Json.list Json.text).write pet.tags)])
      pet.draftOf := by
    by_cases empty : pet.tags.isEmpty
    · have unset : pet.draftOf = { pet.draftOf with tags := none } := by simp [draftOf, empty]
      rw [if_pos empty, ← unset]
      exact .nil _
    · have set : pet.draftOf = { pet.draftOf with tags := some pet.tags } := by
        simp [draftOf, empty]
      rw [if_neg empty]
      exact set ▸ written
  exact name.append (((species.append breed).append age).append tags)

theorem shape_lawful : shape.Lawful := by
  refine Json.Record.lawful_of_fills fills fun pet => ?_
  have tags : (if pet.tags.isEmpty then none else some pet.tags).getD [] = pet.tags := by
    cases empty : pet.tags <;> rfl
  simp only [record, Draft.build, draftOf, Json.required, bind, Except.bind, getD_map_some, tags]
  rfl

end NewPet

namespace PetUpdate

def draftOf (update : PetUpdate) : Draft where
  name := update.name.map some
  status := update.status.map some

theorem fills (update : PetUpdate) : Fills members {} (record.write update) update.draftOf := by
  have name : Fills members _ (Json.optionalMember "name" _ _) _ := .optional Json.text_lawful
    (fun v => { name := v }) ⟨_, rfl, rfl, rfl⟩ update.name
  have status : Fills members _ (Json.optionalMember "status" _ _) _ :=
    .optional PetStatus.shape_lawful (fun v => { update.draftOf with status := v })
      ⟨_, rfl, rfl, rfl⟩ update.status
  exact name.append status

theorem shape_lawful : shape.Lawful := by
  refine Json.Record.lawful_of_fills fills fun update => ?_
  simp only [record, Draft.build, draftOf, getD_map_some]
  rfl

end PetUpdate

namespace Order

def draftOf (order : Order) : Draft where
  id := order.id
  petId := order.petId
  quantity := order.quantity
  status := order.status.map some
  complete := order.complete

theorem fills (order : Order) : Fills members {} (record.write order) order.draftOf := by
  have id : Fills members {} [("id", _)] _ :=
    .required (Json.int64_lawful order.id) (fun v => { id := v }) ⟨_, rfl, rfl, rfl⟩
  have petId : Fills members { id := order.id } [("petId", _)] _ :=
    .required (Json.int64_lawful order.petId) (fun v => { id := order.id, petId := v })
      ⟨_, rfl, rfl, rfl⟩
  have quantity : Fills members { id := order.id, petId := order.petId } [("quantity", _)] _ :=
    .required (Json.word32_lawful order.quantity)
      (fun v => { id := order.id, petId := order.petId, quantity := v }) ⟨_, rfl, rfl, rfl⟩
  have status : Fills members _ (Json.optionalMember "status" _ _) _ := .optional Json.text_lawful
    (fun v => { order.draftOf with status := v, complete := none }) ⟨_, rfl, rfl, rfl⟩ order.status
  have complete : Fills members { order.draftOf with complete := none } [("complete", _)] _ :=
    .required (Json.readBool_lawful order.complete) (fun v => { order.draftOf with complete := v })
      ⟨_, rfl, rfl, rfl⟩
  exact ((id.append (petId.append quantity)).append status).append complete

theorem shape_lawful : shape.Lawful := by
  refine Json.Record.lawful_of_fills fills fun order => ?_
  simp only [record, Draft.build, draftOf, Json.required, bind, Except.bind, getD_map_some]
  rfl

end Order

namespace NewOrder

def draftOf (order : NewOrder) : Draft where
  petId := order.petId
  quantity := order.quantity

theorem fills (order : NewOrder) : Fills members {} (record.write order) order.draftOf := by
  have petId : Fills members {} [("petId", _)] _ :=
    .required (Json.int64_lawful order.petId) (fun v => { petId := v }) ⟨_, rfl, rfl, rfl⟩
  have quantity : Fills members { petId := order.petId } [("quantity", _)] _ :=
    .required (Json.word32_lawful order.quantity) (fun v => { petId := order.petId, quantity := v })
      ⟨_, rfl, rfl, rfl⟩
  exact petId.append quantity

theorem shape_lawful : shape.Lawful :=
  Json.Record.lawful_of_fills fills fun _ => rfl

end NewOrder

theorem Inventory.shape_lawful : Inventory.shape.Lawful :=
  Json.readDict_lawful Json.int64_lawful

namespace ErrorReport

def draftOf (report : ErrorReport) : Draft where
  message := report.message
  code := report.code

theorem fills (report : ErrorReport) : Fills members {} (record.write report) report.draftOf := by
  have message : Fills members {} [("message", _)] _ :=
    .required (Json.text_lawful report.message) (fun v => { message := v }) ⟨_, rfl, rfl, rfl⟩
  have code : Fills members { message := report.message } [("code", _)] _ :=
    .required (Json.text_lawful report.code) (fun v => { message := report.message, code := v })
      ⟨_, rfl, rfl, rfl⟩
  exact message.append code

theorem shape_lawful : shape.Lawful :=
  Json.Record.lawful_of_fills fills fun _ => rfl

end ErrorReport

namespace Config

def draftOf (config : Config) : Draft where
  baseUrl := config.baseUrl
  headers := config.headers
  token := config.token.map some
  timeoutSecs := config.timeoutSecs.map some

theorem fills (config : Config) : Fills members {} (record.write config) config.draftOf := by
  have baseUrl : Fills members {} [("base_url", _)] _ :=
    .required (Json.text_lawful config.baseUrl) (fun v => { baseUrl := v }) ⟨_, rfl, rfl, rfl⟩
  have headers : Fills members { baseUrl := config.baseUrl } [("headers", _)] _ :=
    .required (Json.readDict_lawful Json.text_lawful config.headers)
      (fun v => { baseUrl := config.baseUrl, headers := v }) ⟨_, rfl, rfl, rfl⟩
  have token : Fills members _ (Json.optionalMember "token" _ _) _ := .optional Json.text_lawful
    (fun v => { config.draftOf with token := v, timeoutSecs := none })
    ⟨_, rfl, rfl, rfl⟩ config.token
  have timeoutSecs : Fills members _ (Json.optionalMember "timeout_secs" _ _) _ :=
    .optional Json.word64_lawful (fun v => { config.draftOf with timeoutSecs := v })
      ⟨_, rfl, rfl, rfl⟩ config.timeoutSecs
  exact baseUrl.append (headers.append (token.append timeoutSecs))

theorem shape_lawful : shape.Lawful := by
  refine Json.Record.lawful_of_fills fills fun config => ?_
  simp only [record, Draft.build, draftOf, Json.required, bind, Except.bind, getD_map_some]
  rfl

end Config

/-! ### All records -/

inductive WireType
  | pet
  | newPet
  | petUpdate
  | order
  | newOrder
  | inventory
  | errorReport
  | config

namespace WireType

def Value : WireType → Type
  | pet => Pet
  | newPet => NewPet
  | petUpdate => PetUpdate
  | order => Order
  | newOrder => NewOrder
  | inventory => Inventory
  | errorReport => ErrorReport
  | config => Config

def shape : (type : WireType) → Json.Shape type.Value
  | pet => Pet.shape
  | newPet => NewPet.shape
  | petUpdate => PetUpdate.shape
  | order => Order.shape
  | newOrder => NewOrder.shape
  | inventory => Inventory.shape
  | errorReport => ErrorReport.shape
  | config => Config.shape

theorem shape_lawful (type : WireType) : type.shape.Lawful := by
  cases type with
  | pet => exact Pet.shape_lawful
  | newPet => exact NewPet.shape_lawful
  | petUpdate => exact PetUpdate.shape_lawful
  | order => exact Order.shape_lawful
  | newOrder => exact NewOrder.shape_lawful
  | inventory => exact Inventory.shape_lawful
  | errorReport => exact ErrorReport.shape_lawful
  | config => exact Config.shape_lawful

/-- Every value is read back from its text, different values have different texts, and writing what
was read of any text changes nothing when it is done once more. -/
theorem reads_what_it_writes (type : WireType) :
    (∀ value, type.shape.decode (Utf8.bytesOf (type.shape.encode value)) = .ok value) ∧
      Function.Injective type.shape.encode ∧
      ∀ text : Bytes,
        ((type.shape.rewritten text).bind fun again =>
          type.shape.rewritten (Utf8.bytesOf again)) = type.shape.rewritten text :=
  ⟨type.shape_lawful.decode_encode, type.shape_lawful.injective_encode,
    type.shape_lawful.rewritten_idempotent⟩

end WireType

end PetClient
