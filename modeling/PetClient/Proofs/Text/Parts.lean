import PetClient.Proofs.Text.Basic

/-!
The parts of a text between separators, and the text that parts make when they are joined.
-/

namespace PetClient.Text

theorem splitAt_eq_splitOn (separator : Char) (text : List Char) :
    splitAt separator text = text.splitOn separator := by
  induction text with
  | nil => rfl
  | cons c rest ih =>
    unfold List.splitOn at ih ⊢
    rw [List.splitOnP_cons_eq_if_modifyHead, splitAt, ih]
    by_cases same : c = separator
    · rw [if_pos same, if_pos (beq_iff_eq.2 same)]
    · rw [if_neg same, if_neg (by simpa using same)]
      cases parts : rest.splitOnP (· == separator) with
      | nil => exact absurd parts (List.splitOnP_ne_nil _ _)
      | cons part others => rfl

theorem splitAt_append (separator : Char) (front rest : List Char) :
    splitAt separator (front ++ separator :: rest) =
      splitAt separator front ++ splitAt separator rest := by
  induction front with
  | nil => simp [splitAt]
  | cons c front ih =>
    rw [List.cons_append, splitAt, splitAt, ih]
    split
    · rfl
    · cases parts : splitAt separator front with
      | nil =>
        rw [splitAt_eq_splitOn] at parts
        exact absurd parts (List.splitOnP_ne_nil _ _)
      | cons part others => rfl

theorem splitAt_intercalate {separator : Char} {parts : List (List Char)} (nonempty : parts ≠ [])
    (free : ∀ part ∈ parts, separator ∉ part) :
    splitAt separator (List.intercalate [separator] parts) = parts := by
  rw [splitAt_eq_splitOn]
  exact List.splitOn_intercalate separator free nonempty

theorem splitAt_of_not_mem {separator : Char} {text : List Char} (free : separator ∉ text) :
    splitAt separator text = [text] := by
  have one := splitAt_intercalate (List.cons_ne_nil text []) (List.forall_mem_singleton.2 free)
  rwa [List.intercalate_singleton] at one

theorem intercalate_splitAt (separator : Char) (text : List Char) :
    List.intercalate [separator] (splitAt separator text) = text := by
  rw [splitAt_eq_splitOn]
  exact List.intercalate_splitOn separator

theorem not_mem_of_mem_splitAt {separator : Char} {text part : List Char}
    (mem : part ∈ splitAt separator text) : separator ∉ part := by
  induction text generalizing part with
  | nil =>
    rw [List.mem_singleton.1 mem]
    exact List.not_mem_nil
  | cons c rest ih =>
    unfold splitAt at mem
    split at mem
    · rcases List.mem_cons.1 mem with rfl | later
      · exact List.not_mem_nil
      · exact ih later
    · rename_i other
      cases parts : splitAt separator rest with
      | nil =>
        rw [splitAt_eq_splitOn] at parts
        exact absurd parts (List.splitOnP_ne_nil _ _)
      | cons first others =>
        rw [parts] at mem ih
        rcases List.mem_cons.1 mem with rfl | later
        · exact List.not_mem_cons_of_ne_of_not_mem (Ne.symm other) (ih (List.mem_cons_self ..))
        · exact ih (List.mem_cons_of_mem _ later)

theorem mem_of_mem_splitAt {separator c : Char} {text part : List Char}
    (mem : part ∈ splitAt separator text) (mem_part : c ∈ part) : c ∈ text := by
  obtain ⟨before, after, parts⟩ := List.append_of_mem mem
  rw [← intercalate_splitAt separator text, parts]
  cases before with
  | nil =>
    rw [List.nil_append, intercalate_cons]
    exact List.mem_append_left _ mem_part
  | cons first others =>
    rw [List.cons_append, intercalate_cons, List.flatMap_append, List.flatMap_cons]
    simp [mem_part]

end PetClient.Text
