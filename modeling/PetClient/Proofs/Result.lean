import Mathlib

/-!
Steps that may fail: a good result comes from good results of all the steps.
-/

namespace PetClient.Result

variable {ε α β : Type}

theorem bind_eq_ok {first : Except ε α} {next : α → Except ε β} {b : β} :
    (first >>= next) = .ok b ↔ ∃ a, first = .ok a ∧ next a = .ok b := by
  cases first with
  | error e =>
    constructor
    · intro failed
      cases failed
    · rintro ⟨a, failed, -⟩
      cases failed
  | ok a =>
    constructor
    · exact fun later => ⟨a, rfl, later⟩
    · rintro ⟨a, same, later⟩
      cases same
      exact later

theorem map_eq_ok {first : Except ε α} {f : α → β} {b : β} :
    first.map f = .ok b ↔ ∃ a, first = .ok a ∧ f a = b := by
  cases first with
  | error e => simp [Except.map]
  | ok a => simp [Except.map]

theorem map_eq_error {first : Except ε α} {f : α → β} {e : ε} :
    first.map f = .error e ↔ first = .error e := by
  cases first with
  | error e' => simp [Except.map]
  | ok a => simp [Except.map]

theorem mapError_eq_ok {ε' : Type} {result : Except ε α} {f : ε → ε'} {a : α} :
    result.mapError f = .ok a ↔ result = .ok a := by
  cases result with
  | error e => exact ⟨nofun, nofun⟩
  | ok b => simp [Except.mapError]

theorem alike_of_map_eq {first second : Except ε α} {f : α → β}
    (same : first.map f = second.map f) :
    (∃ e, first = .error e ∧ second = .error e) ∨
      ∃ a b, first = .ok a ∧ second = .ok b ∧ f a = f b := by
  cases first with
  | error e =>
    cases second with
    | error other =>
      cases same
      exact .inl ⟨e, rfl, rfl⟩
    | ok b => cases same
  | ok a =>
    cases second with
    | error other => cases same
    | ok b => exact .inr ⟨a, b, rfl, rfl, Except.ok.inj same⟩

end PetClient.Result
