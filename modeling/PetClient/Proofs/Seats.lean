import PetClient.Proofs.Json.Gap
import PetClient.Proofs.Presentation

/-!
When a draft makes a record, and where the whole numbers of a record stand in its draft.
-/

namespace PetClient

open Json (Seat)

namespace Pet

theorem Draft.build_eq_ok {draft : Draft} {pet : Pet} : draft.build = .ok pet ↔
    draft.id = some pet.id ∧ draft.name = some pet.name ∧ draft.species.getD none = pet.species ∧
      draft.breed.getD none = pet.breed ∧ draft.age.getD none = pet.age ∧
      draft.tags.getD [] = pet.tags ∧ draft.status.getD .available = pet.status := by
  obtain ⟨id, name, species, breed, age, tags, status⟩ := draft
  cases pet
  cases id <;> cases name <;>
    simp [build, Json.required, bind, Except.bind, pure, Except.pure]

def idSeat : Seat Draft Int64 :=
  ⟨"id", (·.id.isSome), Json.int64.read, fun d id => { d with id }⟩

def ageSeat : Seat Draft (Option UInt32) :=
  ⟨"age", (·.age.isSome), (Json.optional Json.word32).read, fun d age => { d with age }⟩

theorem own_id : idSeat.Own record fun pet id => { pet with id } where
  mem := by simp [record, members, Seat.member, idSeat]
  again := fun _ _ _ => rfl
  apart := by
    simp only [record, members, List.forall_mem_cons]
    refine ⟨fun other => absurd rfl other, ?_, ?_, ?_, ?_, ?_, ?_, List.forall_mem_nil _⟩
    all_goals exact fun _ => .into (fun _ _ _ => rfl) fun _ _ => rfl
  builds := by
    intro draft x pet built
    obtain ⟨-, rest⟩ := Draft.build_eq_ok.1 built
    exact Draft.build_eq_ok.2 ⟨rfl, rest⟩

theorem own_age : ageSeat.Own record fun pet age => { pet with age } where
  mem := by simp [record, members, Seat.member, ageSeat]
  again := fun _ _ _ => rfl
  apart := by
    simp only [record, members, List.forall_mem_cons]
    refine ⟨?_, ?_, ?_, ?_, fun other => absurd rfl other, ?_, ?_, List.forall_mem_nil _⟩
    all_goals exact fun _ => .into (fun _ _ _ => rfl) fun _ _ => rfl
  builds := by
    intro draft x pet built
    obtain ⟨id, name, species, breed, -, rest⟩ := Draft.build_eq_ok.1 built
    exact Draft.build_eq_ok.2 ⟨id, name, species, breed, rfl, rest⟩

end Pet

namespace NewPet

theorem Draft.build_eq_ok {draft : Draft} {pet : NewPet} : draft.build = .ok pet ↔
    draft.name = some pet.name ∧ draft.species.getD none = pet.species ∧
      draft.breed.getD none = pet.breed ∧ draft.age.getD none = pet.age ∧
      draft.tags.getD [] = pet.tags := by
  obtain ⟨name, species, breed, age, tags⟩ := draft
  cases pet
  cases name <;>
    simp [build, Json.required, bind, Except.bind, pure, Except.pure]

def ageSeat : Seat Draft (Option UInt32) :=
  ⟨"age", (·.age.isSome), (Json.optional Json.word32).read, fun d age => { d with age }⟩

theorem own_age : ageSeat.Own record fun pet age => { pet with age } where
  mem := by simp [record, members, Seat.member, ageSeat]
  again := fun _ _ _ => rfl
  apart := by
    simp only [record, members, List.forall_mem_cons]
    refine ⟨?_, ?_, ?_, fun other => absurd rfl other, ?_, List.forall_mem_nil _⟩
    all_goals exact fun _ => .into (fun _ _ _ => rfl) fun _ _ => rfl
  builds := by
    intro draft x pet built
    obtain ⟨name, species, breed, -, rest⟩ := Draft.build_eq_ok.1 built
    exact Draft.build_eq_ok.2 ⟨name, species, breed, rfl, rest⟩

end NewPet

namespace Order

theorem Draft.build_eq_ok {draft : Draft} {order : Order} : draft.build = .ok order ↔
    draft.id = some order.id ∧ draft.petId = some order.petId ∧
      draft.quantity = some order.quantity ∧ draft.status.getD none = order.status ∧
      draft.complete.getD false = order.complete := by
  obtain ⟨id, petId, quantity, status, complete⟩ := draft
  cases order
  cases id <;> cases petId <;> cases quantity <;>
    simp [build, Json.required, bind, Except.bind, pure, Except.pure]

def idSeat : Seat Draft Int64 :=
  ⟨"id", (·.id.isSome), Json.int64.read, fun d id => { d with id }⟩

def petIdSeat : Seat Draft Int64 :=
  ⟨"petId", (·.petId.isSome), Json.int64.read, fun d petId => { d with petId }⟩

def quantitySeat : Seat Draft UInt32 :=
  ⟨"quantity", (·.quantity.isSome), Json.word32.read, fun d quantity => { d with quantity }⟩

theorem own_id : idSeat.Own record fun order id => { order with id } where
  mem := by simp [record, members, Seat.member, idSeat]
  again := fun _ _ _ => rfl
  apart := by
    simp only [record, members, List.forall_mem_cons]
    refine ⟨fun other => absurd rfl other, ?_, ?_, ?_, ?_, List.forall_mem_nil _⟩
    all_goals exact fun _ => .into (fun _ _ _ => rfl) fun _ _ => rfl
  builds := by
    intro draft x order built
    obtain ⟨-, rest⟩ := Draft.build_eq_ok.1 built
    exact Draft.build_eq_ok.2 ⟨rfl, rest⟩

theorem own_petId : petIdSeat.Own record fun order petId => { order with petId } where
  mem := by simp [record, members, Seat.member, petIdSeat]
  again := fun _ _ _ => rfl
  apart := by
    simp only [record, members, List.forall_mem_cons]
    refine ⟨?_, fun other => absurd rfl other, ?_, ?_, ?_, List.forall_mem_nil _⟩
    all_goals exact fun _ => .into (fun _ _ _ => rfl) fun _ _ => rfl
  builds := by
    intro draft x order built
    obtain ⟨id, -, rest⟩ := Draft.build_eq_ok.1 built
    exact Draft.build_eq_ok.2 ⟨id, rfl, rest⟩

theorem own_quantity : quantitySeat.Own record fun order quantity => { order with quantity } where
  mem := by simp [record, members, Seat.member, quantitySeat]
  again := fun _ _ _ => rfl
  apart := by
    simp only [record, members, List.forall_mem_cons]
    refine ⟨?_, ?_, fun other => absurd rfl other, ?_, ?_, List.forall_mem_nil _⟩
    all_goals exact fun _ => .into (fun _ _ _ => rfl) fun _ _ => rfl
  builds := by
    intro draft x order built
    obtain ⟨id, petId, -, rest⟩ := Draft.build_eq_ok.1 built
    exact Draft.build_eq_ok.2 ⟨id, petId, rfl, rest⟩

end Order

namespace NewOrder

theorem Draft.build_eq_ok {draft : Draft} {order : NewOrder} : draft.build = .ok order ↔
    draft.petId = some order.petId ∧ draft.quantity = some order.quantity := by
  obtain ⟨petId, quantity⟩ := draft
  cases order
  cases petId <;> cases quantity <;>
    simp [build, Json.required, bind, Except.bind, pure, Except.pure]

def petIdSeat : Seat Draft Int64 :=
  ⟨"petId", (·.petId.isSome), Json.int64.read, fun d petId => { d with petId }⟩

def quantitySeat : Seat Draft UInt32 :=
  ⟨"quantity", (·.quantity.isSome), Json.word32.read, fun d quantity => { d with quantity }⟩

theorem own_petId : petIdSeat.Own record fun order petId => { order with petId } where
  mem := by simp [record, members, Seat.member, petIdSeat]
  again := fun _ _ _ => rfl
  apart := by
    simp only [record, members, List.forall_mem_cons]
    refine ⟨fun other => absurd rfl other, ?_, List.forall_mem_nil _⟩
    all_goals exact fun _ => .into (fun _ _ _ => rfl) fun _ _ => rfl
  builds := by
    intro draft x order built
    obtain ⟨-, rest⟩ := Draft.build_eq_ok.1 built
    exact Draft.build_eq_ok.2 ⟨rfl, rest⟩

theorem own_quantity : quantitySeat.Own record fun order quantity => { order with quantity } where
  mem := by simp [record, members, Seat.member, quantitySeat]
  again := fun _ _ _ => rfl
  apart := by
    simp only [record, members, List.forall_mem_cons]
    refine ⟨?_, fun other => absurd rfl other, List.forall_mem_nil _⟩
    all_goals exact fun _ => .into (fun _ _ _ => rfl) fun _ _ => rfl
  builds := by
    intro draft x order built
    obtain ⟨petId, -⟩ := Draft.build_eq_ok.1 built
    exact Draft.build_eq_ok.2 ⟨petId, rfl⟩

end NewOrder

namespace Config

theorem Draft.build_eq_ok {draft : Draft} {config : Config} : draft.build = .ok config ↔
    draft.baseUrl = some config.baseUrl ∧ draft.headers.getD ∅ = config.headers ∧
      draft.token.getD none = config.token ∧ draft.timeoutSecs.getD none = config.timeoutSecs := by
  obtain ⟨baseUrl, headers, token, timeoutSecs⟩ := draft
  cases config
  cases baseUrl <;>
    simp [build, Json.required, bind, Except.bind, pure, Except.pure]

def timeoutSecsSeat : Seat Draft (Option UInt64) :=
  ⟨"timeout_secs", (·.timeoutSecs.isSome), (Json.optional Json.word64).read,
    fun d timeoutSecs => { d with timeoutSecs }⟩

theorem own_timeoutSecs :
    timeoutSecsSeat.Own record fun config timeoutSecs => { config with timeoutSecs } where
  mem := by simp [record, members, Seat.member, timeoutSecsSeat]
  again := fun _ _ _ => rfl
  apart := by
    simp only [record, members, List.forall_mem_cons]
    refine ⟨?_, ?_, ?_, fun other => absurd rfl other, List.forall_mem_nil _⟩
    all_goals exact fun _ => .into (fun _ _ _ => rfl) fun _ _ => rfl
  builds := by
    intro draft x config built
    obtain ⟨baseUrl, headers, token, -⟩ := Draft.build_eq_ok.1 built
    exact Draft.build_eq_ok.2 ⟨baseUrl, headers, token, rfl⟩

end Config

end PetClient
