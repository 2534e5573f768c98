/-!
The operations of the API, and how each is called in the languages that the demo shows.
-/

namespace PetClient.Demo

inductive Style
  | rust
  | python
  | typescript
  deriving DecidableEq, Repr

def Style.name : Style → String
  | rust => "rust"
  | python => "python"
  | typescript => "typescript"

def styles : List (String × Style) :=
  [("rust", .rust), ("python", .python), ("typescript", .typescript)]

structure Operation where
  method : String
  path : String
  rust : String
  python : String
  typescript : String
  deriving DecidableEq, Repr

def Operation.call (operation : Operation) : Style → String
  | .rust => operation.rust
  | .python => operation.python
  | .typescript => operation.typescript

def operations : List Operation := [
  { method := "GET", path := "/pets"
    rust := "api.list_pets(&params)"
    python := "client.get('/pets')"
    typescript := "listPets()" },
  { method := "POST", path := "/pets"
    rust := "api.create_pet(&new_pet)"
    python := "client.post('/pets', json=data)"
    typescript := "createPet(data)" },
  { method := "GET", path := "/pets/\x7bid\x7d"
    rust := "api.get_pet(id)"
    python := "client.get(f'/pets/\x7bid\x7d')"
    typescript := "getPet(id)" },
  { method := "PUT", path := "/pets/\x7bid\x7d"
    rust := "api.update_pet(id, &update)"
    python := "client.put(f'/pets/\x7bid\x7d', json=data)"
    typescript := "updatePet(id, data)" },
  { method := "DELETE", path := "/pets/\x7bid\x7d"
    rust := "api.delete_pet(id)"
    python := "client.delete(f'/pets/\x7bid\x7d')"
    typescript := "deletePet(id)" },
  { method := "GET", path := "/store/inventory"
    rust := "api.get_inventory()"
    python := "client.get('/store/inventory')"
    typescript := "getInventory()" },
  { method := "POST", path := "/store/orders"
    rust := "api.place_order(&order)"
    python := "client.post('/store/orders', json=data)"
    typescript := "placeOrder(data)" }]

end PetClient.Demo
