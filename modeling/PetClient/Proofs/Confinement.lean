import PetClient.Proofs.Discovery

/-!
A search with a bound, and where the directories really lie that it looks in.  The bound is compared
component by component, while two points lead up: the search stays below the bound as long as the
way from there never goes up more often than down.
-/

namespace PetClient

namespace Files

namespace Path

variable {p : Path}

def counted (parts : List (List Char)) : List Component :=
  parts.filterMap (componentOf false)

theorem map_locate (start : Nat) (parts : List (List Char)) :
    (locate start false parts).map Prod.fst = counted parts := by
  induction parts generalizing start with
  | nil => rfl
  | cons part rest ih =>
    unfold counted at ih ⊢
    rw [locate, List.map_append, ih, List.filterMap_cons]
    cases componentOf false part <;> rfl

theorem components_absolute {rest : List Char} (text : p.text.toList = '/' :: rest) :
    p.components = .root :: counted (Text.splitAt '/' rest) := by
  unfold components
  rw [located_absolute text, List.map_cons, map_locate]

theorem exists_text (absolute : p.isAbsolute) : ∃ rest, p.text.toList = '/' :: rest := by
  have slash := isAbsolute_iff.1 absolute
  cases text : p.text.toList with
  | nil =>
    rw [text] at slash
    cases slash
  | cons c rest =>
    rw [text] at slash
    cases slash
    exact ⟨rest, rfl⟩

theorem isAbsolute_of_prefix {start : Path} (absolute : start.isAbsolute)
    (inside : start.components <+: p.components) : p.isAbsolute := by
  obtain ⟨rest, text⟩ := exists_text absolute
  obtain ⟨behind, parts⟩ := inside
  unfold isAbsolute
  rw [← parts, components_absolute text]
  rfl

theorem componentOf_cases (part : List Char) :
    (part = [] ∨ part = ['.']) ∧ componentOf false part = none ∨
      part = ['.', '.'] ∧ componentOf false part = some .up ∨
      componentOf false part = some (.name part) := by
  unfold componentOf
  split
  · exact .inl ⟨.inl rfl, rfl⟩
  · exact .inl ⟨.inr rfl, rfl⟩
  · exact .inr (.inl ⟨rfl, rfl⟩)
  · exact .inr (.inr rfl)

theorem clean_iff (absolute : p.isAbsolute) : (∀ c ∈ p.text.toList, c.toNat ≠ 0) ↔
    ∀ name, .name name ∈ p.components → ∀ c ∈ name, c.toNat ≠ 0 := by
  obtain ⟨rest, text⟩ := exists_text absolute
  rw [text, components_absolute text, List.forall_mem_cons, and_iff_right (by decide)]
  constructor
  · intro clean name mem c mem_name
    obtain ⟨part, mem_parts, counts⟩ := List.mem_filterMap.1
      ((List.mem_cons.1 mem).resolve_left Component.noConfusion)
    rcases componentOf_cases part with ⟨-, none⟩ | ⟨-, up⟩ | named
    · cases none.symm.trans counts
    · cases up.symm.trans counts
    · cases named.symm.trans counts
      exact clean c (Text.mem_of_mem_splitAt mem_parts mem_name)
  · intro clean c mem
    have point : ('.').toNat ≠ 0 := by decide
    by_cases slash : c = '/'
    · rw [slash]
      decide
    · obtain ⟨part, mem_parts, mem_part⟩ := Text.exists_part_of_mem slash mem
      rcases componentOf_cases part with ⟨rfl | rfl, -⟩ | ⟨rfl, -⟩ | named
      · cases mem_part
      · rwa [List.mem_singleton.1 mem_part]
      · rcases List.mem_pair.1 mem_part with rfl | rfl <;> exact point
      · apply clean part _ c mem_part
        exact List.mem_cons_of_mem _ (List.mem_filterMap.2 ⟨part, mem_parts, named⟩)

end Path

namespace Tree

variable {tree : Tree} {place next : Place} {p : Path}

/-! ### Ways through directories -/

/-- Whether all places on a way are directories, its start and its end included. -/
def Passable (tree : Tree) (place : Place) : List Component → Prop
  | [] => tree.entry? place = some .directory
  | component :: rest =>
    tree.entry? place = some .directory ∧ Passable tree (step place component) rest

theorem Passable.start {way : List Component} (passable : Passable tree place way) :
    tree.entry? place = some .directory := by
  cases way with
  | nil => exact passable
  | cons component rest => exact passable.1

theorem Passable.of_append {front behind : List Component}
    (passable : Passable tree place (front ++ behind)) : Passable tree place front := by
  induction front generalizing place with
  | nil => exact passable.start
  | cons component rest ih => exact ⟨passable.1, ih passable.2⟩

theorem onward_eq (place : Place) (part : List Char) :
    onward place part = ((Path.componentOf false part).map (step place)).getD place := by
  rcases Path.componentOf_cases part with ⟨rfl | rfl, -⟩ | ⟨rfl, -⟩ | named
  · rfl
  · rfl
  · rfl
  · rw [named]
    unfold onward
    split
    · cases named
    · cases named
    · cases named
    · rfl

theorem walk_iff_passable {parts : List (List Char)} :
    parts.foldlM tree.enter place = .ok next ∧ tree.entry? next = some .directory ↔
      Passable tree place (Path.counted parts) ∧
        next = (Path.counted parts).foldl step place := by
  induction parts generalizing place with
  | nil =>
    constructor
    · rintro ⟨⟨⟩, around⟩
      exact ⟨around, rfl⟩
    · rintro ⟨around, rfl⟩
      exact ⟨rfl, around⟩
  | cons part rest ih =>
    have entered : (part :: rest).foldlM tree.enter place = .ok next ↔
        tree.entry? place = some .directory ∧
          rest.foldlM tree.enter (onward place part) = .ok next := by
      rw [List.foldlM_cons, Result.bind_eq_ok]
      simp only [enter_eq_ok, and_assoc, exists_and_left, exists_eq_left]
    rw [entered, and_assoc, ih, onward_eq]
    unfold Path.counted
    rw [List.filterMap_cons]
    cases Path.componentOf false part with
    | none =>
      -- What does not count leads nowhere else, but only a directory can be passed.
      exact ⟨fun passed => passed.2, fun passed => ⟨passed.1.start, passed⟩⟩
    | some component => exact and_assoc.symm

theorem locate_iff_passable (absolute : p.isAbsolute) :
    tree.locate p = .ok place ∧ tree.entry? place = some .directory ↔
      (∀ name, .name name ∈ p.components → ∀ c ∈ name, c.toNat ≠ 0) ∧
        Passable tree [] p.components ∧ place = tree.placeOf p := by
  obtain ⟨rest, text⟩ := Path.exists_text absolute
  have root : tree.entry? [] = some .directory := rfl
  have parts : Text.splitAt '/' ('/' :: rest) = [] :: Text.splitAt '/' rest := if_pos rfl
  rw [locate_eq_ok, Path.clean_iff absolute, if_pos absolute, text, parts]
  unfold placeOf
  rw [Path.components_absolute text, List.foldlM_cons, enter_directory root, and_assoc, and_assoc,
    List.foldl_cons]
  apply and_congr_right
  intro _
  rw [and_iff_right (List.cons_ne_nil _ _)]
  exact walk_iff_passable.trans (and_congr_left fun _ => (and_iff_right root).symm)

/-! ### Ways that stay below a place -/

/-- How far below a place a way is after one more component, if it is not above it. -/
def descend (depth : Nat) : Component → Option Nat
  | .root => none
  | .here => some depth
  | .up =>
    match depth with
    | 0 => none
    | depth + 1 => some depth
  | .name _ => some (depth + 1)

/-- Whether a way never goes up more often than it has gone down. -/
def StaysBelow (way : List Component) : Prop :=
  (way.foldlM descend 0).isSome

instance (way : List Component) : Decidable (StaysBelow way) :=
  inferInstanceAs (Decidable ((way.foldlM descend 0).isSome = true))

theorem StaysBelow.of_append {front behind : List Component}
    (stays : StaysBelow (front ++ behind)) : StaysBelow front := by
  unfold StaysBelow at stays ⊢
  rw [List.foldlM_append] at stays
  cases reached : front.foldlM descend 0 with
  | none =>
    rw [reached] at stays
    cases stays
  | some depth => rfl

/-- A way that has not gone above a place is as far below it as has been counted. -/
theorem foldl_step_below (bound below : Place) {way : List Component} {depth : Nat}
    (reached : way.foldlM descend below.length = some depth) :
    ∃ further, further.length = depth ∧ way.foldl step (bound ++ below) = bound ++ further := by
  induction way generalizing below with
  | nil =>
    cases reached
    exact ⟨below, rfl, rfl⟩
  | cons component rest ih =>
    obtain ⟨next, here, later⟩ := Option.bind_eq_some_iff.1 reached
    rw [List.foldl_cons]
    cases component with
    | root => cases here
    | here =>
      cases here
      exact ih below later
    | name text =>
      cases here
      have stepped : step (bound ++ below) (.name text) = bound ++ (below ++ [text]) :=
        List.append_assoc ..
      rw [stepped]
      apply ih
      rwa [List.length_append]
    | up =>
      cases around : below.length with
      | zero =>
        rw [around] at here
        cases here
      | succ less =>
        rw [around] at here
        cases here
        have nonempty : below ≠ [] := List.ne_nil_of_length_eq_add_one around
        have stepped : step (bound ++ below) .up = bound ++ below.dropLast :=
          List.dropLast_append_of_ne_nil nonempty
        rw [stepped]
        apply ih
        rwa [List.length_dropLast, around]

theorem StaysBelow.prefix {way : List Component} (stays : StaysBelow way) (bound : Place) :
    bound <+: way.foldl step bound := by
  obtain ⟨depth, reached⟩ := Option.isSome_iff_exists.1 stays
  obtain ⟨further, -, same⟩ := foldl_step_below bound [] reached
  rw [List.append_nil] at same
  rw [same]
  exact List.prefix_append ..

/-- A way that goes above where it starts does so by two points right below. -/
theorem exists_rise {way : List Component} {depth : Nat} (rootless : Component.root ∉ way)
    (rises : way.foldlM descend depth = none) :
    ∃ front behind, way = front ++ .up :: behind ∧ front.foldlM descend depth = some 0 := by
  induction way generalizing depth with
  | nil => cases rises
  | cons component rest ih =>
    have rest_rootless := fun mem => rootless (List.mem_cons_of_mem _ mem)
    cases here : descend depth component with
    | none =>
      cases component with
      | root => exact absurd (List.mem_cons_self ..) rootless
      | here => cases here
      | name text => cases here
      | up =>
        cases depth with
        | zero => exact ⟨[], rest, rfl, rfl⟩
        | succ less => cases here
    | some next =>
      rw [List.foldlM_cons, here] at rises
      obtain ⟨front, behind, same, reached⟩ := ih rest_rootless rises
      refine ⟨component :: front, behind, by rw [same]; rfl, ?_⟩
      rw [List.foldlM_cons, here]
      exact reached

theorem exists_outside {way : List Component} {bound : Place} (rootless : Component.root ∉ way)
    (nonempty : bound ≠ []) (rises : ¬StaysBelow way) :
    ∃ front, front <+: way ∧ ¬bound <+: front.foldl step bound := by
  have none : way.foldlM descend 0 = none := Option.not_isSome_iff_eq_none.1 rises
  obtain ⟨front, behind, same, reached⟩ := exists_rise rootless none
  obtain ⟨further, flat, back⟩ := foldl_step_below bound [] reached
  rw [List.length_eq_zero_iff.1 flat, List.append_nil] at back
  refine ⟨front ++ [.up], ⟨behind, by rw [same, List.append_assoc]; rfl⟩, ?_⟩
  rw [List.foldl_append, back]
  intro inside
  have shorter := inside.length_le
  have length := List.length_pos_iff.2 nonempty
  change bound.length ≤ bound.dropLast.length at shorter
  rw [List.length_dropLast] at shorter
  omega

end Tree

end Files

namespace Config

open Files (Path Place Tree)

variable {tree : Tree} {start stop directory path : Path}

/-! ### Searches -/

def wayBehind (stop start : Path) : List Files.Component :=
  start.components.drop stop.components.length

theorem way_of_searched (mem : directory ∈ searched start (some stop)) :
    ∃ way, way <+: wayBehind stop start ∧ directory.components = stop.components ++ way := by
  obtain ⟨around, within⟩ := mem_searched.1 mem
  obtain ⟨way, parts⟩ := within stop rfl
  obtain ⟨behind, whole⟩ := Path.prefix_of_mem_ancestors around
  refine ⟨way, ⟨behind, ?_⟩, parts.symm⟩
  unfold wayBehind
  rw [← whole, ← parts, List.append_assoc, List.drop_left]

theorem exists_searched (absolute : stop.isAbsolute) (inside : stop.components <+: start.components)
    {way : List Files.Component} (starts : way <+: wayBehind stop start) :
    ∃ directory ∈ searched start (some stop), directory.components = stop.components ++ way := by
  have whole : stop.components ++ way <+: start.components := by
    obtain ⟨behind, parts⟩ := inside
    unfold wayBehind at starts
    rw [← parts, List.drop_left] at starts
    rw [← parts]
    exact (List.prefix_append_right_inj _).2 starts
  have rooted : 1 ≤ stop.components.length := by
    obtain ⟨rest, text⟩ := Path.exists_text absolute
    rw [Path.components_absolute text, List.length_cons]
    omega
  have lowest : start.lowest ≤ 1 := by
    unfold Path.lowest
    split <;> omega
  have listed : stop.components ++ way ∈ start.ancestors.map Path.components := by
    have length := whole.length_le
    rw [List.length_append] at length
    rw [Path.map_components_ancestors, List.mem_reverse, List.mem_map]
    refine ⟨(stop.components ++ way).length, ?_, (List.prefix_iff_eq_take.1 whole).symm⟩
    rw [List.mem_range'_1, List.length_append]
    omega
  obtain ⟨directory, around, same⟩ := List.mem_map.1 listed
  refine ⟨directory, mem_searched.2 ⟨around, ?_⟩, same⟩
  rintro bound ⟨⟩
  rw [same]
  exact List.prefix_append ..

theorem rootless_wayBehind (absolute : stop.isAbsolute) (absolute' : start.isAbsolute) :
    Files.Component.root ∉ wayBehind stop start := by
  obtain ⟨rest, text⟩ := Path.exists_text absolute
  obtain ⟨others, text'⟩ := Path.exists_text absolute'
  unfold wayBehind
  rw [Path.components_absolute text, Path.components_absolute text', List.length_cons,
    List.drop_succ_cons]
  intro mem
  obtain ⟨part, -, counts⟩ := List.mem_filterMap.1 (List.mem_of_mem_drop mem)
  rcases Path.componentOf_cases part with ⟨-, none⟩ | ⟨-, up⟩ | named
  · cases none.symm.trans counts
  · cases up.symm.trans counts
  · cases named.symm.trans counts

theorem placeOf_of_way {way : List Files.Component}
    (parts : directory.components = stop.components ++ way) :
    tree.placeOf directory = way.foldl Tree.step (tree.placeOf stop) := by
  unfold Tree.placeOf
  rw [parts, List.foldl_append]

theorem located_of_findFile (absolute : stop.isAbsolute)
    (found : findFile tree start (some stop) = some path) :
    ∃ place, tree.locate path = .ok place ∧ tree.locate stop = .ok (tree.placeOf stop) ∧
      ∃ directory ∈ searched start (some stop), place.dropLast = tree.placeOf directory := by
  obtain ⟨directory, name, nearest, rfl⟩ := findFile_eq_some.1 found
  obtain ⟨place, content, located, around, held⟩ := nearest.holds
  have inside : stop.components <+: directory.components := nearest.within stop rfl
  have absolute' : directory.isAbsolute := Path.isAbsolute_of_prefix absolute inside
  have nonempty : directory.text.isEmpty = false := by
    obtain ⟨rest, text⟩ := Path.exists_text absolute'
    rw [← Bool.not_eq_true, String.isEmpty_iff]
    rintro empty
    rw [empty] at text
    cases text
  have known : Tree.IsName name := by
    obtain ⟨before, after, names, -⟩ := nearest.preferred
    apply isName_of_mem_fileNames
    rw [names]
    exact List.mem_append_right _ (List.mem_cons_self ..)
  have reached : tree.locate directory = .ok place := by
    unfold Tree.directoryPlace at located
    rwa [nonempty, if_neg Bool.false_ne_true] at located
  obtain ⟨clean, passable, same⟩ := (Tree.locate_iff_passable absolute').1 ⟨reached, around⟩
  obtain ⟨way, parts⟩ := inside
  have bound : tree.locate stop = .ok (tree.placeOf stop) := by
    rw [← parts] at clean passable
    refine ((Tree.locate_iff_passable absolute).2 ⟨?_, passable.of_append, rfl⟩).1
    exact fun name mem => clean name (List.mem_append_left _ mem)
  refine ⟨place ++ [name.toList], (Tree.locate_join known).2 ⟨place, located, around, rfl⟩, bound,
    directory, mem_searched.2 ⟨nearest.around, nearest.within⟩, ?_⟩
  rw [List.dropLast_concat, same]

/-- The directories that are searched lie in the bound exactly when the way from there to the first
of them never goes up more often than down; above the root there is nothing. -/
theorem searched_below_iff (tree : Tree) (absolute : stop.isAbsolute) (absolute' : start.isAbsolute)
    (inside : stop.components <+: start.components) :
    (∀ directory ∈ searched start (some stop),
        tree.placeOf stop <+: tree.placeOf directory) ↔
      Tree.StaysBelow (wayBehind stop start) ∨ tree.placeOf stop = [] := by
  constructor
  · intro within
    by_contra above
    obtain ⟨rises, nonempty⟩ := not_or.1 above
    obtain ⟨way, starts, outside⟩ :=
      Tree.exists_outside (rootless_wayBehind absolute absolute') nonempty rises
    obtain ⟨directory, mem, parts⟩ := exists_searched absolute inside starts
    apply outside
    rw [← placeOf_of_way parts]
    exact within directory mem
  · rintro (stays | root) directory mem
    · obtain ⟨way, ⟨behind, whole⟩, parts⟩ := way_of_searched mem
      rw [← whole] at stays
      rw [placeOf_of_way parts]
      exact stays.of_append.prefix _
    · rw [root]
      exact List.nil_prefix

/-- Where a bounded search finds a file.  The directory that the file really lies in is one of those
that are searched, and the bound is a directory, too.  All of them really lie in the bound as long as
the way from there to the first one never goes up more often than down, and only then, unless the
bound is the root. -/
theorem bounded_search_stays_below (tree : Tree) (start stop : Path) (absolute : start.isAbsolute)
    (absolute' : stop.isAbsolute) :
    (∀ path, findFile tree start (some stop) = some path →
      ∃ place, tree.locate path = .ok place ∧ tree.locate stop = .ok (tree.placeOf stop) ∧
        (∃ directory ∈ searched start (some stop), place.dropLast = tree.placeOf directory) ∧
        (Tree.StaysBelow (wayBehind stop start) ∨ tree.placeOf stop = [] →
          tree.placeOf stop <+: place.dropLast)) ∧
    (stop.components <+: start.components →
      ((∀ directory ∈ searched start (some stop),
          tree.placeOf stop <+: tree.placeOf directory) ↔
        Tree.StaysBelow (wayBehind stop start) ∨ tree.placeOf stop = [])) := by
  have exact_bound := searched_below_iff tree absolute' absolute
  refine ⟨fun path found => ?_, exact_bound⟩
  obtain ⟨place, located, bound, directory, mem, lies⟩ := located_of_findFile absolute' found
  refine ⟨place, located, bound, ⟨directory, mem, lies⟩, fun stays => ?_⟩
  obtain ⟨around, within⟩ := mem_searched.1 mem
  have inside : stop.components <+: start.components :=
    (within stop rfl).trans (Path.prefix_of_mem_ancestors around)
  rw [lies]
  exact (exact_bound inside).2 stays directory mem

/-- A way that goes down, up and down again stays in the bound, and so does what is found there. -/
theorem bounded_search_stays_below_detour :
    let tree : Tree := { entries := [([['a']], .directory), ([['a'], ['b']], .directory),
      ([['a'], ['c']], .directory), ([['a'], ".petstorerc".toList], .file [])] }
    ∃ place, tree.locate ⟨"/a/b/../.petstorerc"⟩ = .ok place ∧ [['a']] <+: place.dropLast ∧
      findFile tree ⟨"/a/b/../c"⟩ (some ⟨"/a"⟩) = some ⟨"/a/b/../.petstorerc"⟩ := by
  intro tree
  have found : findFile tree ⟨"/a/b/../c"⟩ (some ⟨"/a"⟩) = some ⟨"/a/b/../.petstorerc"⟩ := by
    decide +kernel
  obtain ⟨place, located, -, -, stays⟩ :=
    (bounded_search_stays_below tree ⟨"/a/b/../c"⟩ ⟨"/a"⟩ (by decide) (by decide)).1 _ found
  exact ⟨place, located, stays (.inl (by decide)), found⟩

/-- Two points right behind the bound lead a search out of it. -/
theorem bounded_search_may_leave :
    ¬∀ (tree : Tree) (start stop path : Path), start.isAbsolute → stop.isAbsolute →
      findFile tree start (some stop) = some path →
        ∃ place bound, tree.locate path = .ok place ∧ tree.locate stop = .ok bound ∧
          bound <+: place.dropLast := by
  intro stays
  let tree : Tree :=
    { entries := [([['p']], .directory), ([".petstorerc.json".toList], .file [])] }
  have found : findFile tree ⟨"/p/.."⟩ (some ⟨"/p"⟩) = some ⟨"/p/../.petstorerc.json"⟩ := by
    decide +kernel
  obtain ⟨place, bound, located, reached, inside⟩ :=
    stays tree ⟨"/p/.."⟩ ⟨"/p"⟩ ⟨"/p/../.petstorerc.json"⟩ (by decide) (by decide) found
  have outer : tree.locate ⟨"/p/../.petstorerc.json"⟩ = .ok [".petstorerc.json".toList] := by rfl
  have inner : tree.locate ⟨"/p"⟩ = .ok [['p']] := by rfl
  cases outer.symm.trans located
  cases inner.symm.trans reached
  exact absurd inside (by decide)

end Config

end PetClient
