import PetClient.Files.Path
import PetClient.Proofs.Text.Parts

/-!
Paths and the directories around them: the components of each are a start of the path's components,
one less from one directory to the next.
-/

namespace PetClient

namespace Text

theorem intercalate_prefix (separator : Char) {front parts : List (List Char)}
    (nonempty : front ≠ []) (starts : front <+: parts) :
    List.intercalate [separator] front <+: List.intercalate [separator] parts := by
  obtain ⟨more, rfl⟩ := starts
  cases front with
  | nil => exact absurd rfl nonempty
  | cons first others =>
    rw [List.cons_append, intercalate_cons, intercalate_cons, List.flatMap_append,
      ← List.append_assoc]
    exact List.prefix_append _ _

theorem splitAt_take {separator : Char} {text : List Char} {front : List (List Char)}
    (nonempty : front ≠ []) (starts : front <+: splitAt separator text) :
    splitAt separator (text.take (List.intercalate [separator] front).length) = front := by
  have kept : List.intercalate [separator] front <+: text := by
    have joined := intercalate_prefix separator nonempty starts
    rwa [intercalate_splitAt] at joined
  rw [← List.prefix_iff_eq_take.1 kept]
  exact splitAt_intercalate nonempty fun part mem => not_mem_of_mem_splitAt (starts.subset mem)

end Text

namespace Files.Path

/-! ### Components and where they end -/

/-- A component ends where a start of the parts ends, and the components of that start are those up
to this one. -/
theorem exists_front {start i stop : Nat} {isFirst : Bool} {parts : List (List Char)}
    {component : Component} (found : (locate start isFirst parts)[i]? = some (component, stop)) :
    ∃ front, front ≠ [] ∧ front <+: parts ∧
      locate start isFirst front = (locate start isFirst parts).take (i + 1) ∧
      stop = start + (List.intercalate ['/'] front).length := by
  induction parts generalizing start i isFirst with
  | nil => simp [locate] at found
  | cons part rest ih =>
    -- What is found behind the first part is found in the rest, whose start gets that part in front.
    have behind {j : Nat}
        (later : (locate (start + part.length + 1) false rest)[j]? = some (component, stop)) :
        ∃ front, part :: front <+: part :: rest ∧
          locate (start + part.length + 1) false front =
            (locate (start + part.length + 1) false rest).take (j + 1) ∧
          stop = start + (List.intercalate ['/'] (part :: front)).length := by
      obtain ⟨front, nonempty, starts, located, ends⟩ := ih later
      refine ⟨front, List.cons_prefix_cons.2 ⟨rfl, starts⟩, located, ?_⟩
      rw [List.intercalate_cons_of_ne_nil nonempty, ends]
      simp only [List.length_append, List.length_singleton]
      omega
    cases counted : componentOf isFirst part with
    | none =>
      have skipped (others : List (List Char)) : locate start isFirst (part :: others) =
          locate (start + part.length + 1) false others := by
        simp [locate, counted]
      rw [skipped] at found
      obtain ⟨front, starts, located, ends⟩ := behind found
      exact ⟨part :: front, List.cons_ne_nil _ _, starts, by rw [skipped, skipped, located], ends⟩
    | some first =>
      have kept (others : List (List Char)) : locate start isFirst (part :: others) =
          (first, start + part.length) :: locate (start + part.length + 1) false others := by
        simp [locate, counted]
      rw [kept] at found
      cases i with
      | zero =>
        obtain ⟨rfl, rfl⟩ := Prod.mk.inj (Option.some.inj found)
        refine ⟨[part], List.cons_ne_nil _ _, ?_, ?_, ?_⟩
        · exact List.cons_prefix_cons.2 ⟨rfl, List.nil_prefix⟩
        · rw [kept, kept, List.take_succ_cons, List.take_zero]
          rfl
        · rw [List.intercalate_singleton]
      | succ j =>
        obtain ⟨front, starts, located, ends⟩ := behind found
        refine ⟨part :: front, List.cons_ne_nil _ _, starts, ?_, ends⟩
        rw [kept, kept, located, List.take_succ_cons]

theorem root_not_mem_locate {start : Nat} {isFirst : Bool} {parts : List (List Char)}
    {stop : Nat} : (Component.root, stop) ∉ locate start isFirst parts := by
  induction parts generalizing start isFirst with
  | nil => exact List.not_mem_nil
  | cons part rest ih =>
    intro mem
    rcases List.mem_append.1 mem with here | later
    · obtain ⟨component, counted, same⟩ := Option.mem_map.1 (Option.mem_toList.1 here)
      cases same
      unfold componentOf at counted
      split at counted
      · cases counted
      · split at counted <;> cases counted
      · cases counted
      · cases counted
    · exact ih later

variable {p : Path}

theorem located_absolute {rest : List Char} (text : p.text.toList = '/' :: rest) :
    p.located = (.root, 1) :: locate 1 false (Text.splitAt '/' rest) := by
  unfold located
  rw [text]
  rfl

theorem located_relative (relative : p.text.toList.head? ≠ some '/') :
    p.located = locate 0 true (Text.splitAt '/' p.text.toList) := by
  unfold located
  split
  · rename_i text
    rw [text]
    rfl
  · rename_i rest text
    rw [text] at relative
    exact absurd rfl relative
  · rfl

theorem isAbsolute_iff : p.isAbsolute ↔ p.text.toList.head? = some '/' := by
  unfold isAbsolute components
  rw [decide_eq_true_iff]
  constructor
  · intro absolute
    by_contra relative
    rw [located_relative relative, List.head?_map] at absolute
    obtain ⟨⟨component, stop⟩, first, rfl⟩ := Option.map_eq_some_iff.1 absolute
    exact root_not_mem_locate (List.mem_of_mem_head? first)
  · intro slash
    cases text : p.text.toList with
    | nil => simp [text] at slash
    | cons c rest =>
      rw [text] at slash
      cases slash
      rw [located_absolute text]
      rfl

theorem located_cut {i stop : Nat} {component : Component}
    (found : p.located[i]? = some (component, stop)) :
    (p.cut stop).located = p.located.take (i + 1) := by
  have text_cut : (p.cut stop).text.toList = p.text.toList.take stop := String.toList_ofList
  by_cases absolute : p.text.toList.head? = some '/'
  · cases text : p.text.toList with
    | nil => simp [text] at absolute
    | cons c rest =>
      rw [text] at absolute text_cut
      cases absolute
      rw [located_absolute text] at found ⊢
      cases i with
      | zero =>
        obtain ⟨-, rfl⟩ := Prod.mk.inj (Option.some.inj found)
        rw [located_absolute text_cut]
        rfl
      | succ j =>
        obtain ⟨front, nonempty, starts, located, ends⟩ := exists_front found
        obtain rfl : stop = (List.intercalate ['/'] front).length + 1 := by omega
        rw [List.take_succ_cons] at text_cut
        rw [located_absolute text_cut, Text.splitAt_take nonempty starts, located,
          List.take_succ_cons]
  · rw [located_relative absolute] at found ⊢
    obtain ⟨front, nonempty, starts, located, ends⟩ := exists_front found
    obtain rfl : stop = (List.intercalate ['/'] front).length := by omega
    have relative : (p.cut (List.intercalate ['/'] front).length).text.toList.head? ≠ some '/' := by
      intro slash
      rw [text_cut, List.head?_take] at slash
      split at slash
      · cases slash
      · exact absolute slash
    rw [located_relative relative, text_cut, Text.splitAt_take nonempty starts, located]

theorem components_cut {i stop : Nat} {component : Component}
    (found : p.located[i]? = some (component, stop)) :
    (p.cut stop).components = p.components.take (i + 1) := by
  unfold components
  rw [located_cut found, List.map_take]

theorem components_cut_zero : (p.cut 0).components = [] := by
  unfold components located cut
  rw [List.take_zero, String.toList_ofList]
  rfl

/-! ### Directories around a path -/

def lowest (p : Path) : Nat :=
  if p.isAbsolute then 1 else 0

theorem map_components_stops :
    (p.located.map Prod.snd).map (fun stop => (p.cut stop).components) =
      (List.range' 1 p.components.length).map p.components.take := by
  apply List.ext_getElem?
  intro i
  have count : p.components.length = p.located.length := List.length_map _
  rw [List.getElem?_map, List.getElem?_map, List.getElem?_map]
  cases found : p.located[i]? with
  | none =>
    have beyond : p.located.length ≤ i := List.getElem?_eq_none_iff.1 found
    rw [List.getElem?_eq_none (by simpa [count] using beyond)]
    rfl
  | some entry =>
    have inside : i < p.located.length := (List.getElem?_eq_some_iff.1 found).1
    rw [List.getElem?_range' (by omega)]
    simp only [Option.map_some, Option.some.injEq, components_cut found]
    rw [Nat.one_mul, Nat.add_comm]

private theorem map_components_cut {stops : List Nat} {least : Nat}
    (grows : stops.map (fun stop => (p.cut stop).components) =
      (List.range' least (p.components.length + 1 - least)).map p.components.take)
    (reaches : least ≤ p.components.length) :
    (p :: stops.dropLast.reverse.map p.cut).map components =
      ((List.range' least (p.components.length + 1 - least)).map p.components.take).reverse := by
  obtain ⟨k, count⟩ : ∃ k, p.components.length + 1 - least = k + 1 :=
    ⟨p.components.length - least, by omega⟩
  have last : least + k = p.components.length := by omega
  have inner : (stops.dropLast.reverse.map p.cut).map components =
      ((stops.map fun stop => (p.cut stop).components).dropLast).reverse := by
    rw [List.map_map, ← List.map_dropLast, List.map_reverse]
    rfl
  rw [List.map_cons, inner, grows, count, List.range'_concat, List.map_append, List.map_singleton,
    List.dropLast_concat, List.reverse_concat, Nat.one_mul, last, List.take_length]

/-- The directories around a path have its components, one less from each to the next. -/
theorem map_components_ancestors :
    p.ancestors.map components =
      ((List.range' p.lowest (p.components.length + 1 - p.lowest)).map p.components.take).reverse := by
  have grows := map_components_stops (p := p)
  have count : p.components.length = p.located.length := List.length_map _
  unfold ancestors lowest
  dsimp only
  by_cases absolute : p.isAbsolute
  · rw [if_pos absolute, if_pos absolute]
    apply map_components_cut grows
    unfold isAbsolute at absolute
    cases parts : p.components with
    | nil => simp [parts] at absolute
    | cons first others => simp
  · rw [if_neg absolute, if_neg absolute]
    cases places : p.located.map Prod.snd with
    | nil =>
      have bare : p.components = [] := by
        rw [← List.length_eq_zero_iff, count, ← List.length_map (f := Prod.snd), places]
        rfl
      simp [bare]
    | cons first others =>
      rw [List.isEmpty_cons, if_neg Bool.false_ne_true, ← places]
      apply map_components_cut _ (Nat.zero_le _)
      rw [List.map_cons, grows, components_cut_zero, Nat.sub_zero, List.range'_succ, List.map_cons]
      rfl

theorem prefix_of_mem_ancestors {directory : Path} (mem : directory ∈ p.ancestors) :
    directory.components <+: p.components := by
  have listed : directory.components ∈ p.ancestors.map components := List.mem_map_of_mem mem
  rw [map_components_ancestors, List.mem_reverse] at listed
  obtain ⟨count, -, same⟩ := List.mem_map.1 listed
  exact same ▸ List.take_prefix count p.components

theorem pairwise_ancestors : p.ancestors.Pairwise fun near far =>
    far.components <+: near.components ∧ far.components.length < near.components.length := by
  apply List.Pairwise.of_map (S := fun near far => far <+: near ∧ far.length < near.length)
    components (fun _ _ => id)
  rw [map_components_ancestors, List.pairwise_reverse, List.pairwise_map]
  apply List.Pairwise.imp_of_mem _ List.pairwise_lt_range'
  intro i j i_mem j_mem lower
  have least : p.lowest ≤ 1 := by
    unfold lowest
    split <;> omega
  have inside := (List.mem_range'_1.1 j_mem).2
  constructor
  · exact List.take_prefix_take_left (by omega)
  · simp only [List.length_take]
    omega

end Files.Path

end PetClient
