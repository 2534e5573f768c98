import PetClient.Demo.Operation

/-!
Examples of how the API is used in each language.
-/

namespace PetClient.Demo

def rustUsage : List String := [
  "",
  "// Create client instance",
  "let api = PetstoreApi::new(ApiClient::from_config(&config)?);",
  "",
  "// List pets with pagination",
  "let pets = api.list_pets(&ListPets \x7b",
  "    limit: Some(10),",
  "    offset: Some(0),",
  "    status: Some(PetStatus::Available),",
  "\x7d)?;",
  "",
  "// Create a new pet",
  "let new_pet = api.create_pet(&NewPet \x7b",
  "    name: \"Buddy\".into(),",
  "    species: Some(\"dog\".into()),",
  "    breed: Some(\"Golden Retriever\".into()),",
  "    age: Some(3),",
  "    tags: vec![\"friendly\".into(), \"trained\".into()],",
  "\x7d)?;",
  "",
  "// Update pet status",
  "api.update_pet(new_pet.id, &PetUpdate \x7b",
  "    status: Some(PetStatus::Sold),",
  "    ..Default::default()",
  "\x7d)?;",
  "",
  "// Place an order",
  "let order = api.place_order(&NewOrder \x7b",
  "    pet_id: new_pet.id,",
  "    quantity: 1,",
  "\x7d)?;",
  ""]

def pythonUsage : List String := [
  "",
  "# Create client instance",
  "client = ApiClient(",
  "    base_url=config[\"base_url\"],",
  "    headers=config[\"headers\"]",
  ")",
  "",
  "# List pets with pagination",
  "pets = client.get('/pets', params=\x7b",
  "    'limit': 10,",
  "    'offset': 0,",
  "    'status': 'available'",
  "\x7d)",
  "",
  "# Create a new pet",
  "new_pet = client.post('/pets', json=\x7b",
  "    'name': 'Buddy',",
  "    'species': 'dog',",
  "    'breed': 'Golden Retriever',",
  "    'age': 3,",
  "    'tags': ['friendly', 'trained']",
  "\x7d)",
  "",
  "# Update pet status",
  "client.put(f'/pets/\x7bnew_pet[\"id\"]\x7d', json=\x7b",
  "    'status': 'sold'",
  "\x7d)",
  "",
  "# Place an order",
  "order = client.post('/store/orders', json=\x7b",
  "    'petId': new_pet['id'],",
  "    'quantity': 1",
  "\x7d)",
  ""]

def typescriptUsage : List String := [
  "",
  "// Create client instance",
  "const client = new ApiClient(config);",
  "",
  "// List pets with pagination",
  "const pets = await client.get('/pets', \x7b",
  "  params: \x7b limit: 10, offset: 0, status: 'available' \x7d",
  "\x7d);",
  "",
  "// Create a new pet",
  "const newPet = await client.post('/pets', \x7b",
  "  body: \x7b",
  "    name: 'Buddy',",
  "    species: 'dog',",
  "    breed: 'Golden Retriever',",
  "    age: 3,",
  "    tags: ['friendly', 'trained']",
  "  \x7d",
  "\x7d);",
  "",
  "// Update pet status",
  "await client.put('/pets/' + newPet.id, \x7b",
  "  body: \x7b status: 'sold' \x7d",
  "\x7d);",
  "",
  "// Place an order",
  "const order = await client.post('/store/orders', \x7b",
  "  body: \x7b petId: newPet.id, quantity: 1 \x7d",
  "\x7d);",
  ""]

/-- The lines of the examples; the first and the last are empty. -/
def usageLines : Style → List String
  | .rust => rustUsage
  | .python => pythonUsage
  | .typescript => typescriptUsage

def usage (style : Style) : String :=
  "\n".intercalate (usageLines style)

def importStep : Style → String
  | .rust => "Add the generated crate to your Cargo.toml"
  | .python | .typescript => "Uncomment the import statement"

def runStep : Style → String
  | .rust => "cargo run -p petstore-demo -- --list-pets"
  | .python => "python example.py"
  | .typescript => "npm run example"

end PetClient.Demo
