import PetClient.Json.Record

/-!
The store: orders, and how many pets there are of each status.
-/

namespace PetClient

open Json (Shape Record Member)

structure Order where
  id : Int64
  petId : Int64
  quantity : UInt32
  status : Option String := none
  complete : Bool := false
  deriving DecidableEq, Repr

namespace Order

structure Draft where
  id : Option Int64 := none
  petId : Option Int64 := none
  quantity : Option UInt32 := none
  status : Option (Option String) := none
  complete : Option Bool := none

def Draft.build (draft : Draft) : Except String Order := do
  let id ← Json.required "id" draft.id
  let petId ← Json.required "petId" draft.petId
  let quantity ← Json.required "quantity" draft.quantity
  return {
    id, petId, quantity
    status := draft.status.getD none
    complete := draft.complete.getD false }

def members : List (Member Draft) := [
  .mk "id" (·.id.isSome) fun d => Json.readInto Json.int64.read fun v => { d with id := v },
  .mk "petId" (·.petId.isSome) fun d =>
    Json.readInto Json.int64.read fun v => { d with petId := v },
  .mk "quantity" (·.quantity.isSome) fun d =>
    Json.readInto Json.word32.read fun v => { d with quantity := v },
  .mk "status" (·.status.isSome) fun d =>
    Json.readInto (Json.optional Json.text).read fun v => { d with status := v },
  .mk "complete" (·.complete.isSome) fun d =>
    Json.readInto Json.readBool fun v => { d with complete := v }]

def record : Record Draft Order where
  name := "Order"
  members := members
  blank := {}
  build := Draft.build
  write := fun order =>
    [("id", Json.int64.write order.id), ("petId", Json.int64.write order.petId),
        ("quantity", Json.word32.write order.quantity)] ++
      Json.optionalMember "status" .string order.status ++ [("complete", .bool order.complete)]

def shape : Shape Order :=
  record.shape

end Order

structure NewOrder where
  petId : Int64
  quantity : UInt32
  deriving DecidableEq, Repr

namespace NewOrder

structure Draft where
  petId : Option Int64 := none
  quantity : Option UInt32 := none

def Draft.build (draft : Draft) : Except String NewOrder := do
  let petId ← Json.required "petId" draft.petId
  let quantity ← Json.required "quantity" draft.quantity
  return { petId, quantity }

def members : List (Member Draft) := [
  .mk "petId" (·.petId.isSome) fun d =>
    Json.readInto Json.int64.read fun v => { d with petId := v },
  .mk "quantity" (·.quantity.isSome) fun d =>
    Json.readInto Json.word32.read fun v => { d with quantity := v }]

def record : Record Draft NewOrder where
  name := "NewOrder"
  members := members
  blank := {}
  build := Draft.build
  write := fun order =>
    [("petId", Json.int64.write order.petId), ("quantity", Json.word32.write order.quantity)]

def shape : Shape NewOrder :=
  record.shape

end NewOrder

abbrev Inventory := Dict Int64

def Inventory.shape : Shape Inventory where
  read := Json.readDict Json.int64.read
  ofNull := .error (.wrongType .null "a map")
  write := Json.writeDict Json.int64.write

end PetClient
