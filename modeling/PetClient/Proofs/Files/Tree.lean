import PetClient.Files.Tree
import PetClient.Proofs.Files.Path
import PetClient.Proofs.Result

/-!
Finding one's way in a tree: what lies directly in a directory, and trees that differ in regular
files alone, in which the same ways lead to the same places.
-/

namespace PetClient.Files.Tree

variable {tree : Tree} {place next : Place}

/-! ### Ways and places -/

def onward (place : Place) (part : List Char) : Place :=
  match part with
  | [] => place
  | ['.'] => place
  | ['.', '.'] => place.dropLast
  | name => place ++ [name]

theorem enter_directory (around : tree.entry? place = some .directory) (part : List Char) :
    tree.enter place part = .ok (onward place part) := by
  unfold enter
  rw [around]
  dsimp only
  split
  · rfl
  · rfl
  · rfl
  · simp [onward]

theorem enter_eq_ok {part : List Char} : tree.enter place part = .ok next ↔
    tree.entry? place = some .directory ∧ next = onward place part := by
  constructor
  · intro entered
    have around : tree.entry? place = some .directory := by
      unfold enter at entered
      cases held : tree.entry? place with
      | none =>
        rw [held] at entered
        cases entered
      | some entry =>
        rw [held] at entered
        cases entry with
        | file content => cases entered
        | directory => rfl
    rw [enter_directory around] at entered
    exact ⟨around, (Except.ok.inj entered).symm⟩
  · rintro ⟨around, rfl⟩
    exact enter_directory around part

theorem walk_single {part : List Char} : [part].foldlM tree.enter place = .ok next ↔
    tree.entry? place = some .directory ∧ next = onward place part := by
  rw [List.foldlM_cons, Result.bind_eq_ok, ← enter_eq_ok]
  constructor
  · rintro ⟨last, entered, same⟩
    cases same
    exact entered
  · exact fun entered => ⟨next, entered, rfl⟩

theorem walk_concat {parts : List (List Char)} {part : List Char} {start : Place} :
    (parts ++ [part]).foldlM tree.enter start = .ok next ↔
      ∃ around, parts.foldlM tree.enter start = .ok around ∧
        tree.entry? around = some .directory ∧ next = onward around part := by
  rw [List.foldlM_append, Result.bind_eq_ok]
  simp only [walk_single]

theorem locate_eq_ok {path : Path} : tree.locate path = .ok place ↔
    (∀ c ∈ path.text.toList, c.toNat ≠ 0) ∧ path.text.toList ≠ [] ∧
      (Text.splitAt '/' path.text.toList).foldlM tree.enter
        (if path.isAbsolute then [] else tree.cwd) = .ok place := by
  have clean : (path.text.toList.any fun c => c.toNat = 0) = true ↔
      ¬∀ c ∈ path.text.toList, c.toNat ≠ 0 := by simp
  unfold locate
  dsimp only
  by_cases holds : path.text.toList.any fun c => c.toNat = 0
  · rw [if_pos holds]
    simp only [clean.1 holds, false_and, iff_false]
    exact fun failed => nomatch failed
  · have free := not_not.1 (clean.not.1 holds)
    rw [if_neg holds]
    by_cases empty : path.text.toList = []
    · simp [empty]
    · simp only [List.isEmpty_iff, empty, if_false, ne_eq, not_false_eq_true, true_and]
      exact (and_iff_right free).symm

theorem isFile_iff {path : Path} : tree.isFile path ↔
    ∃ place content, tree.locate path = .ok place ∧ tree.entry? place = some (.file content) := by
  unfold isFile find
  cases located : tree.locate path with
  | error problem => simp [bind, Except.bind]
  | ok place =>
    cases held : tree.entry? place with
    | none => simp [bind, Except.bind, held, throw, throwThe, MonadExceptOf.throw]
    | some entry =>
      cases entry <;> simp [bind, Except.bind, held, pure, Except.pure]

/-! ### What lies in a directory -/

structure IsName (name : String) : Prop where
  counts : name.toList ∉ [[], ['.'], ['.', '.']]
  slashFree : '/' ∉ name.toList
  clean : ∀ c ∈ name.toList, c.toNat ≠ 0

theorem onward_name {name : String} (proper : IsName name) (around : Place) :
    onward around name.toList = around ++ [name.toList] := by
  have counts := proper.counts
  unfold onward
  split
  · rename_i same; simp [same] at counts
  · rename_i same; simp [same] at counts
  · rename_i same; simp [same] at counts
  · rfl

/-- The place of a directory; the empty path is where paths start that do not start at the root. -/
def directoryPlace (tree : Tree) (directory : Path) : Except FileError Place :=
  if directory.text.isEmpty then .ok tree.cwd else tree.locate directory

theorem isAbsolute_append {directory : Path} (other : Path) {behind : List Char}
    (nonempty : directory.text.toList ≠ [])
    (text : other.text.toList = directory.text.toList ++ behind) :
    other.isAbsolute = directory.isAbsolute := by
  apply Bool.eq_iff_iff.2
  rw [Path.isAbsolute_iff, Path.isAbsolute_iff, text, List.head?_append_of_ne_nil _ nonempty]

theorem splitAt_name {name : String} (proper : IsName name) :
    Text.splitAt '/' name.toList = [name.toList] :=
  Text.splitAt_of_not_mem proper.slashFree

theorem splitAt_append_name {name : String} (proper : IsName name) (front : List Char) :
    Text.splitAt '/' (front ++ '/' :: name.toList) = Text.splitAt '/' front ++ [name.toList] := by
  rw [Text.splitAt_append, splitAt_name proper]

theorem locate_behind {path : Path} {name : String} (proper : IsName name) {front : List Char}
    (text : path.text.toList = front ++ '/' :: name.toList) :
    tree.locate path = .ok place ↔
      (∀ c ∈ front, c.toNat ≠ 0) ∧ ∃ around,
        (Text.splitAt '/' front).foldlM tree.enter (if path.isAbsolute then [] else tree.cwd) =
          .ok around ∧
        tree.entry? around = some .directory ∧ place = around ++ [name.toList] := by
  have clean : (∀ c ∈ front ++ '/' :: name.toList, c.toNat ≠ 0) ↔ ∀ c ∈ front, c.toNat ≠ 0 := by
    have slash : '/'.toNat ≠ 0 := by decide
    simp only [List.forall_mem_append, List.forall_mem_cons, slash, not_false_eq_true, ne_eq,
      true_and, and_iff_left_iff_imp]
    exact fun _ => proper.clean
  rw [locate_eq_ok, text, clean, splitAt_append_name proper, walk_concat]
  simp only [onward_name proper, ne_eq, List.append_eq_nil_iff, reduceCtorEq, and_false,
    not_false_eq_true, true_and]

theorem locate_slash {path : Path} {front : List Char} (text : path.text.toList = front ++ ['/']) :
    tree.locate path = .ok place ↔
      (∀ c ∈ front, c.toNat ≠ 0) ∧
        (Text.splitAt '/' front).foldlM tree.enter (if path.isAbsolute then [] else tree.cwd) =
          .ok place ∧
        tree.entry? place = some .directory := by
  have clean : (∀ c ∈ front ++ ['/'], c.toNat ≠ 0) ↔ ∀ c ∈ front, c.toNat ≠ 0 := by
    have slash : '/'.toNat ≠ 0 := by decide
    simp only [List.forall_mem_append, List.forall_mem_singleton, and_iff_left slash]
  have parts : Text.splitAt '/' (front ++ ['/']) = Text.splitAt '/' front ++ [[]] :=
    Text.splitAt_append '/' front []
  have stays (around : Place) : onward around [] = around := rfl
  rw [locate_eq_ok, text, clean, parts, walk_concat]
  simp only [stays, ne_eq, List.append_eq_nil_iff, List.cons_ne_nil, and_false, not_false_eq_true,
    true_and]
  apply and_congr_right
  intro _
  constructor
  · rintro ⟨around, walked, directory, rfl⟩
    exact ⟨walked, directory⟩
  · exact fun ⟨walked, directory⟩ => ⟨place, walked, directory, rfl⟩

/-- A name in a directory leads to the place of that name in the place of the directory. -/
theorem locate_join {directory : Path} {name : String} (proper : IsName name) :
    tree.locate (directory.join name) = .ok place ↔
      ∃ around, tree.directoryPlace directory = .ok around ∧
        tree.entry? around = some .directory ∧ place = around ++ [name.toList] := by
  unfold Path.join directoryPlace
  by_cases empty : directory.text.isEmpty
  · have named : name.toList ≠ [] := fun none => proper.counts (by simp [none])
    have relative : Path.isAbsolute ⟨name⟩ = false := by
      rw [← Bool.not_eq_true, Path.isAbsolute_iff]
      exact fun slash => proper.slashFree (List.mem_of_mem_head? slash)
    rw [if_pos empty, if_pos empty, locate_eq_ok, relative, splitAt_name proper,
      and_iff_right proper.clean, and_iff_right named, if_neg Bool.false_ne_true, walk_single,
      onward_name proper]
    simp only [Except.ok.injEq, exists_eq_left']
  · have nonempty : directory.text.toList ≠ [] := by simpa using empty
    rw [if_neg empty, if_neg empty]
    by_cases ends : directory.text.endsWith "/"
    · have suffix : ['/'] <:+ directory.text.toList := by
        have copied := String.Slice.endsWith_string_iff.1 ends
        simpa using copied
      obtain ⟨front, text⟩ := suffix
      have joined : (directory.text ++ name).toList = front ++ '/' :: name.toList := by
        rw [String.toList_append, ← text, List.append_assoc]
        rfl
      have absolute := isAbsolute_append ⟨directory.text ++ name⟩ nonempty String.toList_append
      rw [if_pos ends, locate_behind proper joined, absolute]
      simp only [locate_slash text.symm, and_assoc, exists_and_left, and_self_left]
    · have joined : (directory.text ++ "/" ++ name).toList =
          directory.text.toList ++ '/' :: name.toList := by
        rw [String.toList_append, String.toList_append, List.append_assoc]
        rfl
      have absolute := isAbsolute_append ⟨directory.text ++ "/" ++ name⟩ nonempty joined
      rw [if_neg ends, locate_behind proper joined, absolute]
      simp only [locate_eq_ok, nonempty, ne_eq, not_false_eq_true, true_and, and_assoc,
        exists_and_left]

/-! ### Trees that differ in files alone -/

/-- Whether a tree comes from another by adding, changing or removing regular files at some
places. -/
structure FilesChanged (changed : Place → Prop) (tree other : Tree) : Prop where
  cwd : other.cwd = tree.cwd
  kept : ∀ place, ¬changed place → other.entry? place = tree.entry? place
  files : ∀ place, changed place →
    tree.entry? place ≠ some .directory ∧ other.entry? place ≠ some .directory

namespace FilesChanged

variable {changed : Place → Prop} {other : Tree} {path : Path}

theorem directory_iff (differ : FilesChanged changed tree other) :
    other.entry? place = some .directory ↔ tree.entry? place = some .directory := by
  by_cases here : changed place
  · have absent := differ.files place here
    exact ⟨fun held => absurd held absent.2, fun held => absurd held absent.1⟩
  · rw [differ.kept place here]

theorem walk_iff (differ : FilesChanged changed tree other) {parts : List (List Char)}
    {start : Place} :
    parts.foldlM other.enter start = .ok place ↔ parts.foldlM tree.enter start = .ok place := by
  -- A way only asks which places are directories, and no place becomes or ceases to be one.
  induction parts generalizing start with
  | nil => exact Iff.rfl
  | cons part rest ih =>
    rw [List.foldlM_cons, List.foldlM_cons, Result.bind_eq_ok, Result.bind_eq_ok]
    simp only [enter_eq_ok, differ.directory_iff, ih]

theorem locate_iff (differ : FilesChanged changed tree other) :
    other.locate path = .ok place ↔ tree.locate path = .ok place := by
  rw [locate_eq_ok, locate_eq_ok, differ.cwd, differ.walk_iff]

/-- What a path leads to is the same when it leads to a place that has not changed. -/
theorem isFile_eq (differ : FilesChanged changed tree other)
    (kept : ∀ place, tree.locate path = .ok place → ¬changed place) :
    other.isFile path = tree.isFile path := by
  apply Bool.eq_iff_iff.2
  rw [isFile_iff, isFile_iff]
  apply exists_congr
  intro place
  apply exists_congr
  intro content
  rw [differ.locate_iff]
  apply and_congr_right
  intro located
  rw [differ.kept place (kept place located)]

theorem readText_eq (differ : FilesChanged changed tree other)
    (located : tree.locate path = .ok place) (kept : ¬changed place) :
    other.readText path = tree.readText path := by
  have found : other.find path = tree.find path := by
    unfold find
    rw [located, differ.locate_iff.2 located]
    simp only [bind, Except.bind, differ.kept place kept]
  unfold readText read
  rw [found]

end FilesChanged

end PetClient.Files.Tree
