import PetClient.Client.Basic
import PetClient.Order
import PetClient.Pet

/-!
The operations of the pet store, each one call of a client.
-/

namespace PetClient.Api

variable {σ : Type} (client : Client) (transport : Transport σ)

def petPath (id : Int64) : String :=
  "/pets/" ++ toString id.toInt

def listPets (query : PetQuery) (state : σ) : Outcome σ (List Pet) :=
  client.getWithQuery transport (Json.list Pet.shape) "/pets" query.pairs state

def createPet (pet : NewPet) (state : σ) : Outcome σ Pet :=
  client.post transport Pet.shape "/pets" (.ok (NewPet.shape.write pet)) state

def getPet (id : Int64) (state : σ) : Outcome σ Pet :=
  client.get transport Pet.shape (petPath id) state

def updatePet (id : Int64) (update : PetUpdate) (state : σ) : Outcome σ Pet :=
  client.put transport Pet.shape (petPath id) (.ok (PetUpdate.shape.write update)) state

/-- Deletes a pet.  A server may send the deleted pet back, which is not needed. -/
def deletePet (id : Int64) (state : σ) : Outcome σ Unit :=
  (client.delete transport Json.any (petPath id) state).map fun _ => ()

def getInventory (state : σ) : Outcome σ Inventory :=
  client.get transport Inventory.shape "/store/inventory" state

def placeOrder (order : NewOrder) (state : σ) : Outcome σ Order :=
  client.post transport Order.shape "/store/orders" (.ok (NewOrder.shape.write order)) state

end PetClient.Api
