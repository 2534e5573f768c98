/-!
Dictionaries with string keys, listed in the order of their keys' bytes, which is the order of their
characters.  Each key occurs once.
-/

namespace PetClient

structure Dict (α : Type) where
  entries : List (String × α)
  sorted : entries.Pairwise fun a b => a.1 < b.1

namespace Dict

variable {α : Type}

def insertEntry (key : String) (value : α) : List (String × α) → List (String × α)
  | [] => [(key, value)]
  | (other, old) :: rest =>
    if key < other then (key, value) :: (other, old) :: rest
    else if key = other then (key, value) :: rest
    else (other, old) :: insertEntry key value rest

theorem mem_insertEntry {key : String} {value : α} {e : String × α} :
    {entries : List (String × α)} → e ∈ insertEntry key value entries →
      e = (key, value) ∨ e ∈ entries
  | [], h => by simpa [insertEntry] using h
  | (other, old) :: rest, h => by
    unfold insertEntry at h
    split at h
    · simpa using h
    · split at h
      · rcases List.mem_cons.1 h with rfl | tail
        · exact .inl rfl
        · exact .inr (List.mem_cons_of_mem _ tail)
      · rcases List.mem_cons.1 h with rfl | tail
        · exact .inr (List.mem_cons_self ..)
        · exact (mem_insertEntry tail).imp id (List.mem_cons_of_mem _)

theorem sorted_insertEntry {key : String} {value : α} :
    {entries : List (String × α)} → entries.Pairwise (fun a b => a.1 < b.1) →
      (insertEntry key value entries).Pairwise fun a b => a.1 < b.1
  | [], _ => by simp [insertEntry]
  | (other, old) :: rest, sorted => by
    obtain ⟨below, sorted_rest⟩ := List.pairwise_cons.1 sorted
    unfold insertEntry
    split
    · rename_i key_lt
      refine List.pairwise_cons.2 ⟨fun e he => ?_, sorted⟩
      rcases List.mem_cons.1 he with rfl | tail
      · exact key_lt
      · exact String.lt_trans key_lt (below e tail)
    · split
      · rename_i key_eq
        exact List.pairwise_cons.2 ⟨fun e he => key_eq ▸ below e he, sorted_rest⟩
      · rename_i not_lt not_eq
        refine List.pairwise_cons.2 ⟨fun e he => ?_, sorted_insertEntry sorted_rest⟩
        rcases mem_insertEntry he with rfl | tail
        · exact Classical.not_not.1 fun not_lt' =>
            not_eq (String.le_antisymm (String.not_lt.1 not_lt') (String.not_lt.1 not_lt))
        · exact below e tail

theorem insertEntry_self {key : String} {value : α} :
    {entries : List (String × α)} → (key, value) ∈ insertEntry key value entries
  | [] => List.mem_singleton_self _
  | (other, old) :: rest => by
    unfold insertEntry
    split
    · exact List.mem_cons_self ..
    · split
      · exact List.mem_cons_self ..
      · exact List.mem_cons_of_mem _ insertEntry_self

theorem mem_insertEntry_of_ne {key : String} {value : α} {e : String × α} (ne : e.1 ≠ key) :
    {entries : List (String × α)} → e ∈ entries → e ∈ insertEntry key value entries
  | (other, old) :: rest, h => by
    unfold insertEntry
    split
    · exact List.mem_cons_of_mem _ h
    · split
      · rename_i key_eq
        rcases List.mem_cons.1 h with rfl | tail
        · exact absurd key_eq.symm ne
        · exact List.mem_cons_of_mem _ tail
      · rcases List.mem_cons.1 h with rfl | tail
        · exact List.mem_cons_self ..
        · exact List.mem_cons_of_mem _ (mem_insertEntry_of_ne ne tail)

def empty : Dict α :=
  ⟨[], .nil⟩

instance : EmptyCollection (Dict α) :=
  ⟨empty⟩

def insert (d : Dict α) (key : String) (value : α) : Dict α :=
  ⟨insertEntry key value d.entries, sorted_insertEntry d.sorted⟩

def filterKeys (d : Dict α) (p : String → Bool) : Dict α :=
  ⟨d.entries.filter fun e => p e.1, d.sorted.filter _⟩

/-- The dictionary of some entries; of several with one key the last counts. -/
def ofList (entries : List (String × α)) : Dict α :=
  entries.foldl (fun d e => d.insert e.1 e.2) empty

def toList (d : Dict α) : List (String × α) :=
  d.entries

end Dict

end PetClient
