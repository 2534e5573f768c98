import Mathlib.Data.List.Nodup
import PetClient.Dict
import PetClient.Proofs.Text.Order

/-!
Dictionaries by their entries: what is in a dictionary once entries have been put into it, and which
of them count.
-/

namespace PetClient.Dict

variable {α : Type} {d : Dict α}

theorem eq_of_entries {first second : Dict α} (same : first.entries = second.entries) :
    first = second := by
  cases first
  cases second
  cases same
  rfl

theorem eq_of_key_eq {a b : String × α} (a_mem : a ∈ d.entries) (b_mem : b ∈ d.entries)
    (same : a.1 = b.1) : a = b := by
  have distinct : (d.entries.map Prod.fst).Nodup :=
    List.pairwise_map.2 (d.sorted.imp fun lower => ne_of_lt lower)
  exact List.inj_on_of_nodup_map distinct a_mem b_mem same

theorem mem_insert {key : String} {value : α} {e : String × α} :
    e ∈ (d.insert key value).entries ↔ e = (key, value) ∨ e ∈ d.entries ∧ e.1 ≠ key := by
  constructor
  · intro mem
    by_cases same : e.1 = key
    · exact .inl (eq_of_key_eq mem insertEntry_self same)
    · exact (mem_insertEntry mem).imp_right fun old => ⟨old, same⟩
  · rintro (rfl | ⟨old, other⟩)
    · exact insertEntry_self
    · exact mem_insertEntry_of_ne other old

theorem eq_of_mem_iff {first second : Dict α}
    (same : ∀ e, e ∈ first.entries ↔ e ∈ second.entries) : first = second := by
  have nodup (d : Dict α) : d.entries.Nodup := by
    refine d.sorted.imp fun lower alike => ?_
    rw [alike] at lower
    exact String.lt_irrefl _ lower
  exact eq_of_entries
    (((List.perm_ext_iff_of_nodup (nodup first) (nodup second)).2 same).eq_of_pairwise
      (fun _ _ _ _ lower above => absurd above (String.lt_asymm lower)) first.sorted second.sorted)

/-! ### Entries of one key -/

theorem insert_again (d : Dict α) (key : String) (value value' : α) :
    (d.insert key value).insert key value' = d.insert key value' := by
  refine eq_of_mem_iff fun e => ?_
  simp only [mem_insert]
  constructor
  · rintro (new | ⟨rfl | ⟨old, -⟩, other⟩)
    · exact .inl new
    · exact absurd rfl other
    · exact .inr ⟨old, other⟩
  · rintro (new | ⟨old, other⟩)
    · exact .inl new
    · exact .inr ⟨.inr ⟨old, other⟩, other⟩

theorem insert_comm (d : Dict α) {key key' : String} (different : key ≠ key') (value value' : α) :
    (d.insert key value).insert key' value' = (d.insert key' value').insert key value := by
  refine eq_of_mem_iff fun e => ?_
  simp only [mem_insert]
  constructor
  · rintro (rfl | ⟨rfl | ⟨old, other⟩, other'⟩)
    · exact .inr ⟨.inl rfl, different.symm⟩
    · exact .inl rfl
    · exact .inr ⟨.inr ⟨old, other'⟩, other⟩
  · rintro (rfl | ⟨rfl | ⟨old, other'⟩, other⟩)
    · exact .inr ⟨.inl rfl, different⟩
    · exact .inl rfl
    · exact .inr ⟨.inr ⟨old, other⟩, other'⟩

/-! ### Several entries -/

def insertAll (d : Dict α) (entries : List (String × α)) : Dict α :=
  entries.foldl (fun d e => d.insert e.1 e.2) d

theorem insertAll_append (d : Dict α) (front back : List (String × α)) :
    d.insertAll (front ++ back) = (d.insertAll front).insertAll back :=
  List.foldl_append ..

/-- An entry with a key that comes again does not count. -/
theorem insertAll_of_mem {key : String} {entries : List (String × α)}
    (again : key ∈ entries.map Prod.fst) (d : Dict α) (value value' : α) :
    (d.insert key value).insertAll entries = (d.insert key value').insertAll entries := by
  induction entries generalizing d with
  | nil => cases again
  | cons e entries ih =>
    change ((d.insert key value).insert e.1 e.2).insertAll entries =
      ((d.insert key value').insert e.1 e.2).insertAll entries
    by_cases same : e.1 = key
    · rw [same, insert_again, insert_again]
    · rw [insert_comm d (Ne.symm same), insert_comm d (Ne.symm same)]
      exact ih ((List.mem_cons.1 again).resolve_left (Ne.symm same)) _

/-- An entry with a key that does not come again may as well be the last. -/
theorem insertAll_of_not_mem {key : String} {entries : List (String × α)}
    (last : key ∉ entries.map Prod.fst) (d : Dict α) (value : α) :
    (d.insert key value).insertAll entries = (d.insertAll entries).insert key value := by
  induction entries generalizing d with
  | nil => rfl
  | cons e entries ih =>
    rw [List.map_cons, List.mem_cons, not_or] at last
    change ((d.insert key value).insert e.1 e.2).insertAll entries =
      ((d.insert e.1 e.2).insertAll entries).insert key value
    rw [insert_comm d last.1]
    exact ih last.2 _

end PetClient.Dict
