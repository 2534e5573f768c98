import PetClient.Config.Load
import PetClient.Proofs.Files.Tree

/-!
Looking for a configuration file: the search finds the nearest directory that holds one of the known
names, and in it the preferred name.  Nothing but the files that are looked at up to there decides
what is found and what is loaded.
-/

namespace PetClient.Config

open Files (Path Place Tree)

variable {tree : Tree} {start directory path : Path} {stop : Option Path} {name : String}
  {wording : YamlWording}

/-! ### One directory -/

def Within (stop : Option Path) (directory : Path) : Prop :=
  ∀ bound, stop = some bound → bound.components <+: directory.components

/-- Whether a regular file of a name lies directly in a directory. -/
def Holds (tree : Tree) (directory : Path) (name : String) : Prop :=
  ∃ place content, tree.directoryPlace directory = .ok place ∧
    tree.entry? place = some .directory ∧
    tree.entry? (place ++ [name.toList]) = some (.file content)

theorem isName_of_mem_fileNames (known : name ∈ fileNames) : Tree.IsName name := by
  have all : (fileNames.all fun name => !List.contains [[], ['.'], ['.', '.']] name.toList &&
      !name.toList.contains '/' && name.toList.all fun c => c.toNat != 0) = true := by cbv
  have fits := List.all_eq_true.1 all name known
  simp only [Bool.and_eq_true, Bool.not_eq_true', List.contains_eq_mem, decide_eq_false_iff_not,
    List.all_eq_true, bne_iff_ne] at fits
  exact ⟨fits.1.1, fits.1.2, fits.2⟩

theorem isFile_join_iff (known : name ∈ fileNames) :
    tree.isFile (directory.join name) ↔ Holds tree directory name := by
  rw [Tree.isFile_iff]
  simp only [Tree.locate_join (isName_of_mem_fileNames known)]
  constructor
  · rintro ⟨place, content, ⟨around, located, inside, rfl⟩, held⟩
    exact ⟨around, content, located, inside, held⟩
  · rintro ⟨around, content, located, inside, held⟩
    exact ⟨_, content, ⟨around, located, inside, rfl⟩, held⟩

theorem fileIn?_eq_some : fileIn? tree directory = some path ↔
    ∃ before name after, fileNames = before ++ name :: after ∧ path = directory.join name ∧
      Holds tree directory name ∧ ∀ other ∈ before, ¬Holds tree directory other := by
  unfold fileIn?
  rw [List.find?_map, Option.map_eq_some_iff]
  constructor
  · rintro ⟨name, found, rfl⟩
    obtain ⟨held, before, after, parts, missed⟩ := List.find?_eq_some_iff_append.1 found
    have known : name ∈ fileNames := List.mem_of_find?_eq_some found
    refine ⟨before, name, after, parts, rfl, (isFile_join_iff known).1 held, ?_⟩
    intro other mem held_other
    have other_known : other ∈ fileNames := parts ▸ List.mem_append_left _ mem
    have absent := missed other mem
    rw [Function.comp_apply, (isFile_join_iff other_known).2 held_other] at absent
    cases absent
  · rintro ⟨before, name, after, parts, rfl, held, missed⟩
    refine ⟨name, List.find?_eq_some_iff_append.2 ⟨?_, before, after, parts, ?_⟩, rfl⟩
    · have known : name ∈ fileNames := parts ▸ List.mem_append_right _ (List.mem_cons_self ..)
      exact (isFile_join_iff known).2 held
    · intro other mem
      have other_known : other ∈ fileNames := parts ▸ List.mem_append_left _ mem
      rw [Bool.not_eq_true', ← Bool.not_eq_true]
      exact fun found => missed other mem ((isFile_join_iff other_known).1 found)

theorem fileIn?_eq_none : fileIn? tree directory = none ↔
    ∀ name ∈ fileNames, ¬Holds tree directory name := by
  unfold fileIn?
  rw [List.find?_eq_none, List.forall_mem_map]
  apply forall₂_congr
  intro name known
  rw [isFile_join_iff known]

/-! ### The directories that are searched -/

theorem takeWhile_eq_filter {α : Type} {p : α → Bool} {items : List α}
    (earlier : items.Pairwise fun a b => p b → p a) : items.takeWhile p = items.filter p := by
  induction items with
  | nil => rfl
  | cons a rest ih =>
    obtain ⟨below, earlier_rest⟩ := List.pairwise_cons.1 earlier
    by_cases holds : p a
    · rw [List.takeWhile_cons_of_pos holds, List.filter_cons_of_pos holds, ih earlier_rest]
    · rw [List.takeWhile_cons_of_neg holds, List.filter_cons_of_neg holds, eq_comm,
        List.filter_eq_nil_iff]
      exact fun b mem holds_b => holds (below b mem holds_b)

/-- The search goes on as long as it is in the bounding directory, and once it has left that it does
not come back. -/
theorem searched_eq_filter (start : Path) (stop : Option Path) : searched start stop =
    start.ancestors.filter fun directory =>
      match stop with
      | none => true
      | some stop => directory.startsWith stop := by
  unfold searched
  apply takeWhile_eq_filter
  apply Path.pairwise_ancestors.imp
  rintro near far ⟨outer, -⟩ inside
  cases stop with
  | none => rfl
  | some bound =>
    unfold Path.startsWith at inside ⊢
    rw [List.isPrefixOf_iff_prefix] at inside ⊢
    exact inside.trans outer

theorem mem_searched : directory ∈ searched start stop ↔
    directory ∈ start.ancestors ∧ Within stop directory := by
  rw [searched_eq_filter, List.mem_filter]
  apply and_congr_right
  intro _
  unfold Within
  cases stop with
  | none => simp
  | some bound => simp [Path.startsWith]

theorem pairwise_searched (start : Path) (stop : Option Path) :
    (searched start stop).Pairwise fun near far =>
      far.components <+: near.components ∧ far.components.length < near.components.length := by
  rw [searched_eq_filter]
  exact Path.pairwise_ancestors.filter _

/-- The nearest directory around another, within a bound, that holds a configuration file, and the
preferred name of one in it. -/
structure Nearest (tree : Tree) (start : Path) (stop : Option Path) (directory : Path)
    (name : String) : Prop where
  around : directory ∈ start.ancestors
  within : Within stop directory
  holds : Holds tree directory name
  preferred : ∃ before after, fileNames = before ++ name :: after ∧
    ∀ other ∈ before, ¬Holds tree directory other
  nearest : ∀ other ∈ start.ancestors, Within stop other →
    (∃ name ∈ fileNames, Holds tree other name) → other.components <+: directory.components

theorem findFile_eq_some : findFile tree start stop = some path ↔
    ∃ directory name, Nearest tree start stop directory name ∧ path = directory.join name := by
  have order := pairwise_searched start stop
  unfold findFile
  rw [List.findSome?_eq_some_iff]
  constructor
  · rintro ⟨near, directory, far, parts, found, missed⟩
    obtain ⟨before, name, after, names, rfl, held, unheld⟩ := fileIn?_eq_some.1 found
    rw [parts] at order
    have mem : directory ∈ searched start stop := by
      rw [parts]
      exact List.mem_append_right _ (List.mem_cons_self ..)
    obtain ⟨around, within⟩ := mem_searched.1 mem
    refine ⟨directory, name, ⟨around, within, held, ⟨before, after, names, unheld⟩, ?_⟩, rfl⟩
    rintro other other_around other_within ⟨other_name, known, other_held⟩
    have other_mem := mem_searched.2 ⟨other_around, other_within⟩
    rw [parts, List.mem_append, List.mem_cons] at other_mem
    rcases other_mem with nearer | rfl | outer
    · exact absurd other_held (fileIn?_eq_none.1 (missed other nearer) other_name known)
    · exact List.prefix_rfl
    · -- What is searched later lies further out.
      exact ((List.pairwise_cons.1 (List.pairwise_append.1 order).2.1).1 other outer).1
  · rintro ⟨directory, name, ⟨around, within, held, ⟨before, after, names, unheld⟩, nearest⟩, rfl⟩
    obtain ⟨near, far, parts⟩ := List.append_of_mem (mem_searched.2 ⟨around, within⟩)
    rw [parts] at order
    refine ⟨near, directory, far, parts, ?_, ?_⟩
    · exact fileIn?_eq_some.2 ⟨before, name, after, names, rfl, held, unheld⟩
    · intro other nearer
      apply fileIn?_eq_none.2
      intro other_name known other_held
      have other_mem : other ∈ searched start stop := parts ▸ List.mem_append_left _ nearer
      obtain ⟨other_around, other_within⟩ := mem_searched.1 other_mem
      -- What is searched earlier is longer than the nearest one, so it cannot be around that.
      have inner := nearest other other_around other_within ⟨other_name, known, other_held⟩
      have longer := ((List.pairwise_append.1 order).2.2 other nearer directory
        (List.mem_cons_self ..)).2
      exact absurd inner.length_le (Nat.not_le_of_lt longer)

theorem findFile_eq_none : findFile tree start stop = none ↔
    ∀ directory ∈ start.ancestors, Within stop directory →
      ∀ name ∈ fileNames, ¬Holds tree directory name := by
  unfold findFile
  rw [List.findSome?_eq_none_iff]
  simp only [mem_searched, fileIn?_eq_none, and_imp]

/-! ### What a search looks at -/

def candidates (start : Path) (stop : Option Path) : List Path :=
  (searched start stop).flatMap fun directory => fileNames.map directory.join

theorem findFile_eq_find? (tree : Tree) (start : Path) (stop : Option Path) :
    findFile tree start stop = (candidates start stop).find? tree.isFile := by
  unfold findFile candidates
  rw [List.find?_flatMap]
  rfl

/-- The files that are looked at: those in front of the one that is found, and that one. -/
def lookedAt (tree : Tree) (start : Path) (stop : Option Path) : List Path :=
  (candidates start stop).take ((candidates start stop).findIdx tree.isFile + 1)

section

variable {α : Type} {p q : α → Bool} {items : List α}

theorem find?_eq_of_take (same : ∀ a ∈ items.take (items.findIdx p + 1), q a = p a) :
    items.find? q = items.find? p := by
  induction items with
  | nil => rfl
  | cons a rest ih =>
    have first : q a = p a := same a (by simp)
    by_cases holds : p a
    · rw [List.find?_cons_of_pos holds, List.find?_cons_of_pos (first.trans holds)]
    · have here : ¬q a := by rwa [first]
      rw [List.find?_cons_of_neg holds, List.find?_cons_of_neg here]
      apply ih
      intro b mem
      apply same b
      simp only [List.findIdx_cons, holds, cond_false, List.take_succ_cons, List.mem_cons]
      exact .inr mem

theorem mem_take_of_find? {a : α} (found : items.find? p = some a) :
    a ∈ items.take (items.findIdx p + 1) := by
  induction items with
  | nil => cases found
  | cons b rest ih =>
    by_cases holds : p b
    · rw [List.find?_cons_of_pos holds] at found
      cases found
      simp
    · rw [List.find?_cons_of_neg holds] at found
      simp only [List.findIdx_cons, holds, cond_false, List.take_succ_cons, List.mem_cons]
      exact .inr (ih found)

end

/-! ### Loading what is found -/

theorem load_eq_error {error : ClientError} (failed : load tree path wording = .error error) :
    ∃ cause, error = .config path.text cause := by
  unfold load at failed
  dsimp only at failed
  generalize (tree.readText path |>.mapError LoadError.file) >>= ofText wording (isYaml path) =
    content at failed
  cases content with
  | error cause =>
    cases failed
    exact ⟨cause, rfl⟩
  | ok config => cases failed

theorem load_eq {other : Tree} (same : other.readText path = tree.readText path)
    (wording : YamlWording) : load other path wording = load tree path wording := by
  unfold load
  rw [same]

theorem discover_of_found (found : findFile tree start stop = some path) :
    discover tree start stop wording = (load tree path wording).map some := by
  unfold discover
  rw [found]

theorem discover_eq_none :
    discover tree start stop wording = .ok none ↔ findFile tree start stop = none := by
  cases found : findFile tree start stop with
  | none =>
    unfold discover
    rw [found]
    exact iff_of_true rfl rfl
  | some path =>
    rw [discover_of_found found]
    cases load tree path wording with
    | error error => simp [Except.map]
    | ok config => simp [Except.map]

theorem discover_of_broken {error : ClientError} (found : findFile tree start stop = some path)
    (failed : load tree path wording = .error error) :
    ∃ cause, error = .config path.text cause ∧ discover tree start stop wording = .error error := by
  obtain ⟨cause, named⟩ := load_eq_error failed
  refine ⟨cause, named, ?_⟩
  rw [discover_of_found found, failed]
  rfl

theorem findFile_of_outside {bound : Path}
    (outside : ¬bound.components <+: start.components) :
    findFile tree start (some bound) = none := by
  apply findFile_eq_none.2
  intro directory around within
  apply absurd (within bound rfl)
  intro inside
  exact outside (inside.trans (Path.prefix_of_mem_ancestors around))

example : findFile {} ⟨"/a/bc"⟩ (some ⟨"/a/b"⟩) = none := by
  decide

/-! ### Changes elsewhere -/

section

variable {other : Tree} {changed : Place → Prop}

theorem exists_of_mem_lookedAt (looked : path ∈ lookedAt tree start stop) :
    ∃ directory ∈ start.ancestors, Within stop directory ∧
      ∃ name ∈ fileNames, path = directory.join name := by
  obtain ⟨directory, mem, named⟩ := List.mem_flatMap.1 (List.mem_of_mem_take looked)
  obtain ⟨name, known, rfl⟩ := List.mem_map.1 named
  obtain ⟨around, within⟩ := mem_searched.1 mem
  exact ⟨directory, around, within, name, known, rfl⟩

theorem not_lookedAt_of_outside {place : Place}
    (outside : ∀ directory ∈ start.ancestors, Within stop directory →
      tree.directoryPlace directory ≠ .ok place.dropLast)
    (looked : path ∈ lookedAt tree start stop) : tree.locate path ≠ .ok place := by
  obtain ⟨directory, around, within, name, known, rfl⟩ := exists_of_mem_lookedAt looked
  intro located
  obtain ⟨holder, reached, -, rfl⟩ := (Tree.locate_join (isName_of_mem_fileNames known)).1 located
  apply outside directory around within
  rw [reached, List.dropLast_concat]

theorem findFile_eq_of_changed (differ : Tree.FilesChanged changed tree other)
    (elsewhere : ∀ place, changed place →
      ∀ path ∈ lookedAt tree start stop, tree.locate path ≠ .ok place) :
    findFile other start stop = findFile tree start stop := by
  rw [findFile_eq_find?, findFile_eq_find?]
  apply find?_eq_of_take
  intro path looked
  apply differ.isFile_eq
  exact fun place located here => elsewhere place here path looked located

theorem load_eq_of_changed (differ : Tree.FilesChanged changed tree other)
    (elsewhere : ∀ place, changed place →
      ∀ path ∈ lookedAt tree start stop, tree.locate path ≠ .ok place)
    (found : findFile tree start stop = some path) (wording : YamlWording) :
    load other path wording = load tree path wording := by
  rw [findFile_eq_find?] at found
  have looked : path ∈ lookedAt tree start stop := mem_take_of_find? found
  obtain ⟨place, content, located, -⟩ := Tree.isFile_iff.1 (List.find?_some found)
  apply load_eq
  apply differ.readText_eq located
  exact fun here => elsewhere place here path looked located

end

/-- The search for a configuration file.  What is found is the preferred name in the nearest
directory, within the bound, that holds a regular file of such a name; without such a directory
nothing is, as when the first one is not in the bounding one.  What is found is what is loaded, and
if it cannot be, the failure names it.  Regular files that are outside the directories that are
searched, or that are not looked at because a file in front of them is found, can come and go and
change. -/
theorem nearest_file_is_found (tree : Tree) (start : Path) (stop : Option Path)
    (wording : YamlWording) :
    (∀ path, findFile tree start stop = some path ↔
      ∃ directory name, Nearest tree start stop directory name ∧ path = directory.join name) ∧
    (findFile tree start stop = none ↔
      ∀ directory ∈ start.ancestors, Within stop directory →
        ∀ name ∈ fileNames, ¬Holds tree directory name) ∧
    (∀ bound, stop = some bound → ¬bound.components <+: start.components →
      findFile tree start stop = none) ∧
    (discover tree start stop wording = .ok none ↔ findFile tree start stop = none) ∧
    (∀ path, findFile tree start stop = some path →
      discover tree start stop wording = (load tree path wording).map some ∧
      ∀ error, load tree path wording = .error error →
        ∃ cause, error = .config path.text cause ∧
          discover tree start stop wording = .error error) ∧
    (∀ changed other, Tree.FilesChanged changed tree other →
      (∀ place, changed place →
        (∀ directory ∈ start.ancestors, Within stop directory →
          tree.directoryPlace directory ≠ .ok place.dropLast) ∨
        ∀ path ∈ lookedAt tree start stop, tree.locate path ≠ .ok place) →
      findFile other start stop = findFile tree start stop ∧
      discover other start stop wording = discover tree start stop wording ∧
      discoverLog other start stop wording = discoverLog tree start stop wording) := by
  refine ⟨fun _ => findFile_eq_some, findFile_eq_none, ?_, discover_eq_none, ?_, ?_⟩
  · rintro bound rfl outside
    exact findFile_of_outside outside
  · intro path found
    exact ⟨discover_of_found found, fun _ failed => discover_of_broken found failed⟩
  · intro changed other differ apart
    have elsewhere : ∀ place, changed place →
        ∀ path ∈ lookedAt tree start stop, tree.locate path ≠ .ok place := by
      intro place here path looked
      rcases apart place here with outside | unlooked
      · exact not_lookedAt_of_outside outside looked
      · exact unlooked path looked
    have same := findFile_eq_of_changed differ elsewhere
    refine ⟨same, ?_⟩
    unfold discover discoverLog
    rw [same]
    cases found : findFile tree start stop with
    | none => exact ⟨rfl, rfl⟩
    | some path =>
      dsimp only
      rw [load_eq_of_changed differ elsewhere found wording]
      exact ⟨rfl, rfl⟩

/-- The file in the outer of two directories is found, since the inner one holds none, and a file
that is outside the bound does not matter. -/
theorem nearest_file_is_found_outer :
    let entries : List (Place × Files.Entry) :=
      [([['a']], .directory), ([['a'], ['b']], .directory), ([['a'], ".petstorerc".toList], .file [])]
    let tree : Tree := { entries }
    let other : Tree := { entries := ([".petstorerc".toList], .file []) :: entries }
    findFile other ⟨"/a/b"⟩ (some ⟨"/a"⟩) = some (Path.join ⟨"/a"⟩ ".petstorerc") ∧
      discover other ⟨"/a/b"⟩ (some ⟨"/a"⟩) .mark =
        discover tree ⟨"/a/b"⟩ (some ⟨"/a"⟩) .mark := by
  intro entries tree other
  have ways : Path.ancestors ⟨"/a/b"⟩ = [⟨"/a/b"⟩, ⟨"/a"⟩, ⟨"/"⟩] := by decide
  have inner : tree.directoryPlace ⟨"/a/b"⟩ = .ok [['a'], ['b']] := by rfl
  have outer : tree.directoryPlace ⟨"/a"⟩ = .ok [['a']] := by rfl
  have unheld : ¬Holds tree ⟨"/a"⟩ ".petstorerc.json" := by
    rintro ⟨place, content, located, -, held⟩
    cases outer.symm.trans located
    cases held
  have near : Nearest tree ⟨"/a/b"⟩ (some ⟨"/a"⟩) ⟨"/a"⟩ ".petstorerc" := by
    refine ⟨by decide, ?_, ⟨_, [], outer, rfl, rfl⟩, ?_, ?_⟩
    · rintro bound ⟨⟩
      exact List.prefix_rfl
    · exact ⟨[".petstorerc.json"], _, rfl, by simpa using unheld⟩
    · rintro directory around - ⟨name, known, place, content, located, -, held⟩
      rw [ways] at around
      fin_cases around
      · cases inner.symm.trans located
        fin_cases known <;> cases held
      · exact List.prefix_rfl
      · decide
  obtain ⟨found, -, -, -, -, apart⟩ := nearest_file_is_found tree ⟨"/a/b"⟩ (some ⟨"/a"⟩) .mark
  have differ : Tree.FilesChanged (· = [".petstorerc".toList]) tree other := by
    refine ⟨rfl, ?_, ?_⟩
    · intro place kept
      have missed : (place == [".petstorerc".toList]) = false := beq_eq_false_iff_ne.2 kept
      have skipped : other.entries.lookup place = entries.lookup place := by
        simp only [other, List.lookup_cons, missed]
      unfold Tree.entry?
      rw [skipped]
    · rintro place rfl
      exact ⟨by decide, by decide⟩
  obtain ⟨same, loaded, -⟩ := apart _ other differ (by
    rintro place rfl
    left
    rintro directory around within reached
    rw [ways] at around
    fin_cases around
    · cases inner.symm.trans reached
    · cases outer.symm.trans reached
    · exact absurd (within _ rfl) (by decide))
  exact ⟨same.trans ((found _).2 ⟨_, _, near, rfl⟩), loaded⟩

end PetClient.Config
