import PetClient.Json.Record

/-!
Pets: as the API lists them, as they are created and as they are changed.
-/

namespace PetClient

open Json (Shape Record Member)

inductive PetStatus
  | available
  | pending
  | sold
  deriving DecidableEq, Repr

namespace PetStatus

def name : PetStatus → String
  | available => "available"
  | pending => "pending"
  | sold => "sold"

def variants : Json.Variants PetStatus :=
  ⟨[("available", available), ("pending", pending), ("sold", sold)]⟩

def shape : Shape PetStatus where
  read := variants.read
  ofNull := .error (.wrongType .null "string or map")
  write := fun status => .string status.name

end PetStatus

structure Pet where
  id : Int64
  name : String
  species : Option String := none
  breed : Option String := none
  age : Option UInt32 := none
  tags : List String := []
  status : PetStatus := .available
  deriving DecidableEq, Repr

namespace Pet

structure Draft where
  id : Option Int64 := none
  name : Option String := none
  species : Option (Option String) := none
  breed : Option (Option String) := none
  age : Option (Option UInt32) := none
  tags : Option (List String) := none
  status : Option PetStatus := none

def Draft.build (draft : Draft) : Except String Pet := do
  let id ← Json.required "id" draft.id
  let name ← Json.required "name" draft.name
  return {
    id, name
    species := draft.species.getD none
    breed := draft.breed.getD none
    age := draft.age.getD none
    tags := draft.tags.getD []
    status := draft.status.getD .available }

def members : List (Member Draft) := [
  .mk "id" (·.id.isSome) fun d => Json.readInto Json.int64.read fun v => { d with id := v },
  .mk "name" (·.name.isSome) fun d => Json.readInto Json.text.read fun v => { d with name := v },
  .mk "species" (·.species.isSome) fun d =>
    Json.readInto (Json.optional Json.text).read fun v => { d with species := v },
  .mk "breed" (·.breed.isSome) fun d =>
    Json.readInto (Json.optional Json.text).read fun v => { d with breed := v },
  .mk "age" (·.age.isSome) fun d =>
    Json.readInto (Json.optional Json.word32).read fun v => { d with age := v },
  .mk "tags" (·.tags.isSome) fun d =>
    Json.readInto (Json.list Json.text).read fun v => { d with tags := v },
  .mk "status" (·.status.isSome) fun d =>
    Json.readInto PetStatus.shape.read fun v => { d with status := v }]

def record : Record Draft Pet where
  name := "Pet"
  members := members
  blank := {}
  build := Draft.build
  write := fun pet =>
    ("id", Json.int64.write pet.id) :: ("name", .string pet.name) ::
      (Json.optionalMember "species" .string pet.species ++
        Json.optionalMember "breed" .string pet.breed ++
        Json.optionalMember "age" Json.word32.write pet.age ++
        [("tags", (Json.list Json.text).write pet.tags), ("status", .string pet.status.name)])

def shape : Shape Pet :=
  record.shape

end Pet

structure NewPet where
  name : String
  species : Option String := none
  breed : Option String := none
  age : Option UInt32 := none
  tags : List String := []
  deriving DecidableEq, Repr

namespace NewPet

structure Draft where
  name : Option String := none
  species : Option (Option String) := none
  breed : Option (Option String) := none
  age : Option (Option UInt32) := none
  tags : Option (List String) := none

def Draft.build (draft : Draft) : Except String NewPet := do
  let name ← Json.required "name" draft.name
  return {
    name
    species := draft.species.getD none
    breed := draft.breed.getD none
    age := draft.age.getD none
    tags := draft.tags.getD [] }

def members : List (Member Draft) := [
  .mk "name" (·.name.isSome) fun d => Json.readInto Json.text.read fun v => { d with name := v },
  .mk "species" (·.species.isSome) fun d =>
    Json.readInto (Json.optional Json.text).read fun v => { d with species := v },
  .mk "breed" (·.breed.isSome) fun d =>
    Json.readInto (Json.optional Json.text).read fun v => { d with breed := v },
  .mk "age" (·.age.isSome) fun d =>
    Json.readInto (Json.optional Json.word32).read fun v => { d with age := v },
  .mk "tags" (·.tags.isSome) fun d =>
    Json.readInto (Json.list Json.text).read fun v => { d with tags := v }]

def record : Record Draft NewPet where
  name := "NewPet"
  members := members
  blank := {}
  build := Draft.build
  write := fun pet =>
    ("name", .string pet.name) ::
      (Json.optionalMember "species" .string pet.species ++
        Json.optionalMember "breed" .string pet.breed ++
        Json.optionalMember "age" Json.word32.write pet.age ++
        if pet.tags.isEmpty then [] else [("tags", (Json.list Json.text).write pet.tags)])

def shape : Shape NewPet :=
  record.shape

end NewPet

/-- A change of a pet; only what is set is sent. -/
structure PetUpdate where
  name : Option String := none
  status : Option PetStatus := none
  deriving DecidableEq, Repr

namespace PetUpdate

structure Draft where
  name : Option (Option String) := none
  status : Option (Option PetStatus) := none

def Draft.build (draft : Draft) : Except String PetUpdate :=
  return { name := draft.name.getD none, status := draft.status.getD none }

def members : List (Member Draft) := [
  .mk "name" (·.name.isSome) fun d =>
    Json.readInto (Json.optional Json.text).read fun v => { d with name := v },
  .mk "status" (·.status.isSome) fun d =>
    Json.readInto (Json.optional PetStatus.shape).read fun v => { d with status := v }]

def record : Record Draft PetUpdate where
  name := "PetUpdate"
  members := members
  blank := {}
  build := Draft.build
  write := fun update =>
    Json.optionalMember "name" .string update.name ++
      Json.optionalMember "status" PetStatus.shape.write update.status

def shape : Shape PetUpdate :=
  record.shape

end PetUpdate

structure PetQuery where
  limit : Option UInt32 := none
  offset : Option UInt32 := none
  status : Option PetStatus := none
  deriving DecidableEq, Repr

def PetQuery.pairs (query : PetQuery) : List (String × String) :=
  (query.limit.map fun n => ("limit", toString n.toNat)).toList ++
    (query.offset.map fun n => ("offset", toString n.toNat)).toList ++
    (query.status.map fun status => ("status", status.name)).toList

end PetClient
