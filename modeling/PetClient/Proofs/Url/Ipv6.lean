import PetClient.Proofs.Text.Basic
import PetClient.Proofs.Text.Number
import PetClient.Url.Basic
import PetClient.Url.Ipv6

/-!
Internet addresses of version 6 that are read again: the groups that are read from a text are eight
of 16 bits, and are read from their own text with its longest run of zeros left out.
-/

namespace PetClient.Url.Ipv6

open Host (groupChars ipv6Chars longestZeroRun zeroRun)

/-! ### What is read -/

theorem natOfHex_takeWhile_lt (p : Char → Bool) (text : List Char) :
    Text.natOfHex ((text.take 4).takeWhile p) < 0x10000 := by
  have short : ((text.take 4).takeWhile p).length ≤ 4 :=
    Nat.le_trans (List.takeWhile_prefix p).length_le (List.length_take_le ..)
  exact Nat.lt_of_lt_of_le (Text.natOfHex_lt _) (Nat.pow_le_pow_right (by decide) short)

theorem byte?_lt {digits : List Char} {n : Nat} (read : byte? digits = some n) : n < 256 := by
  unfold byte? at read
  simp only at read
  split at read
  · cases read
  · split at read
    · cases read
    · split at read
      · cases read
      · split at read
        · rename_i small
          cases read
          exact small
        · cases read

/-- Whether the groups so far have 16 bits each and do not exceed an address. -/
structure Groups.Fit (g : Groups) : Prop where
  bounded : ∀ group ∈ g.read, group < 0x10000
  room : g.count ≤ 8

theorem Groups.count_append (g : Groups) (groups : List Nat) :
    { g with read := g.read ++ groups : Groups }.count = g.count + groups.length := by
  unfold count
  rw [List.length_append]
  exact Nat.add_right_comm ..

theorem Groups.Fit.append {g : Groups} (fit : g.Fit) {groups : List Nat}
    (bounded : ∀ group ∈ groups, group < 0x10000) (room : g.count + groups.length ≤ 8) :
    { g with read := g.read ++ groups : Groups }.Fit := by
  exact ⟨List.forall_mem_append.2 ⟨fit.bounded, bounded⟩, by rwa [count_append]⟩

theorem embedded?_eq_some {text : List Char} {groups : List Nat}
    (read : embedded? text = some groups) :
    groups.length = 2 ∧ ∀ group ∈ groups, group < 0x10000 := by
  unfold embedded? at read
  obtain ⟨bytes, known, read⟩ := Option.bind_eq_some_iff.1 read
  split at read
  · rename_i a b c d
    cases read
    have small {n : Nat} (mem : n ∈ [a, b, c, d]) : n < 256 := by
      obtain ⟨digits, -, found⟩ := Text.exists_source_of_mapM known mem
      exact byte?_lt found
    have first := small (n := a) (by simp)
    have second := small (n := b) (by simp)
    have third := small (n := c) (by simp)
    have fourth := small (n := d) (by simp)
    refine ⟨rfl, fun group mem => ?_⟩
    simp only [List.mem_cons, List.not_mem_nil, or_false] at mem
    omega
  · cases read

theorem fit_of_readGroups {fuel : Nat} {g read : Groups} {text : List Char} (fit : g.Fit)
    (reads : readGroups fuel g text = some read) : read.Fit := by
  induction fuel generalizing g text with
  | zero => cases reads
  | succ fuel ih =>
    have push (room : g.count ≠ 8) (digits : List Char) (p : Char → Bool) :
        (g.push (Text.natOfHex ((digits.take 4).takeWhile p))).Fit := by
      have most := fit.room
      exact fit.append (List.forall_mem_singleton.2 (natOfHex_takeWhile_lt p digits))
        (by rw [List.length_singleton]; omega)
    unfold readGroups at reads
    split at reads
    · cases reads
      exact fit
    · rename_i c rest
      split at reads
      · cases reads
      · rename_i room
        have most := fit.room
        split at reads
        · split at reads
          · cases reads
          · rename_i apart
            refine ih (g := { g with gapAfter := some g.read.length }) ⟨fit.bounded, ?_⟩ reads
            simp only [Groups.count, apart] at room most ⊢
            simp only [Option.isSome_some, if_true, Bool.false_eq_true, if_false] at room most ⊢
            omega
        · simp only at reads
          split at reads
          · cases reads
            exact push room _ _
          · cases reads
          · exact ih (push room _ _) reads
          · split at reads
            · cases reads
            · rename_i early
              obtain ⟨groups, embedded, rfl⟩ := Option.map_eq_some_iff.1 reads
              obtain ⟨two, bounded⟩ := embedded?_eq_some embedded
              refine fit.append bounded ?_
              simp only [Bool.or_eq_true, decide_eq_true_iff, not_or] at early
              omega
          · cases reads

structure IsAddress (groups : List Nat) : Prop where
  eight : groups.length = 8
  bounded : ∀ group ∈ groups, group < 0x10000

theorem Groups.Fit.isAddress {g : Groups} (fit : g.Fit) {groups : List Nat}
    (filled : g.fill? = some groups) : IsAddress groups := by
  unfold fill? at filled
  split at filled
  · split at filled
    · rename_i eight
      cases filled
      exact ⟨eight, fit.bounded⟩
    · cases filled
  · rename_i n gap
    cases filled
    have most := fit.room
    simp only [count, gap, Option.isSome_some, if_true] at most
    constructor
    · simp only [List.length_append, List.length_take, List.length_replicate, List.length_drop]
      omega
    · intro group mem
      simp only [List.mem_append, List.mem_replicate] at mem
      rcases mem with (front | zero) | back
      · exact fit.bounded group (List.mem_of_mem_take front)
      · omega
      · exact fit.bounded group (List.mem_of_mem_drop back)

theorem isAddress_of_groups? {text : List Char} {groups : List Nat}
    (read : groups? text = some groups) : IsAddress groups := by
  have whole {fuel : Nat} {g : Groups} {text : List Char} (fit : g.Fit)
      (read : (readGroups fuel g text).bind Groups.fill? = some groups) : IsAddress groups := by
    obtain ⟨all, reads, filled⟩ := Option.bind_eq_some_iff.1 read
    exact (fit_of_readGroups fit reads).isAddress filled
  unfold groups? at read
  split at read
  · exact whole ⟨List.forall_mem_nil _, by decide⟩ read
  · cases read
  · cases read
  · exact whole ⟨List.forall_mem_nil _, by decide⟩ read

/-! ### What is read again -/

def groupColon (group : Nat) : List Char :=
  Nat.toDigits 16 group ++ [':']

theorem groupChars_append_singleton (groups : List Nat) (group : Nat) :
    groupChars (groups ++ [group]) = groups.flatMap groupColon ++ Nat.toDigits 16 group := by
  induction groups with
  | nil => simp [groupChars]
  | cons first rest ih =>
    unfold groupChars at ih ⊢
    cases rest with
    | nil => simp [groupColon]
    | cons next others =>
      rw [List.cons_append, List.cons_append, List.map_cons, List.map_cons,
        List.intercalate_cons_cons, ← List.map_cons, ← List.cons_append, ih]
      simp [groupColon]

theorem groupChars_append_colon {groups : List Nat} (nonempty : groups ≠ []) :
    groupChars groups ++ [':'] = groups.flatMap groupColon := by
  rw [← List.dropLast_append_getLast nonempty, groupChars_append_singleton, List.flatMap_append,
    List.append_assoc]
  simp [groupColon]

theorem isHex_of_mem_toDigits {n : Nat} {c : Char} (mem : c ∈ Nat.toDigits 16 n) :
    (Text.hexDigit? c).isSome = true := by
  refine Text.toDigits_induction (p := fun _ digits => ∀ c ∈ digits,
    (Text.hexDigit? c).isSome = true) (by decide) ?_ ?_ n c mem
  · intro n small
    rw [List.forall_mem_singleton, Text.hexDigit?_digitChar small]
    rfl
  · intro n _ front
    refine List.forall_mem_append.2 ⟨front, ?_⟩
    rw [List.forall_mem_singleton, Text.hexDigit?_digitChar (Nat.mod_lt n (by decide))]
    rfl

theorem takeWhile_toDigits {group : Nat} (bound : group < 0x10000) {rest : List Char}
    (stops : ∀ c ∈ rest.head?, (Text.hexDigit? c).isSome = false) :
    ((Nat.toDigits 16 group ++ rest).take 4).takeWhile (fun c => (Text.hexDigit? c).isSome) =
      Nat.toDigits 16 group := by
  have short : (Nat.toDigits 16 group).length ≤ 4 :=
    Nat.toDigits_length 16 group 4 (by decide) bound
  rw [List.take_append, List.take_of_length_le short,
    List.takeWhile_append_of_pos fun c mem => isHex_of_mem_toDigits mem]
  cases rest with
  | nil => simp
  | cons c more =>
    have stop := stops c rfl
    cases 4 - (Nat.toDigits 16 group).length with
    | zero => simp
    | succ left => simp [stop]

variable {g : Groups} {groups : List Nat} {rest : List Char}

/-- A group is read up to the end or to a colon, behind which something has to stand. -/
theorem readGroups_toDigits {group : Nat} (bound : group < 0x10000) (room : g.count < 8)
    (stops : ∀ c ∈ rest.head?, c = ':') (fuel : Nat) :
    readGroups (fuel + 1) g (Nat.toDigits 16 group ++ rest) =
      if rest = [] then some (g.push group)
      else if rest = [':'] then none
      else readGroups fuel (g.push group) rest.tail := by
  have ends : ∀ c ∈ rest.head?, (Text.hexDigit? c).isSome = false := by
    intro c first
    rw [stops c first]
    rfl
  have taken := takeWhile_toDigits bound ends
  have dropped : (Nat.toDigits 16 group ++ rest).drop (Nat.toDigits 16 group).length = rest :=
    List.drop_left
  have value := Text.natOfHex_toDigits group
  have hex (c : Char) (mem : c ∈ Nat.toDigits 16 group) := isHex_of_mem_toDigits mem
  obtain ⟨first, more, starts⟩ :=
    List.exists_cons_of_ne_nil (Nat.toDigits_ne_nil (b := 16) (n := group))
  rw [starts] at taken dropped value hex ⊢
  have digit : first ≠ ':' := by
    rintro rfl
    cases hex ':' (List.mem_cons_self ..)
  rw [List.cons_append] at taken dropped ⊢
  simp only [readGroups, if_neg (Nat.ne_of_lt room), if_neg digit, taken, dropped, value]
  cases rest with
  | nil => rfl
  | cons c rest =>
    rw [stops c rfl]
    cases rest with
    | nil => rfl
    | cons d rest => simp

theorem readGroups_flatMap (bounded : ∀ group ∈ groups, group < 0x10000)
    (room : g.count + groups.length ≤ 8) (nonempty : rest ≠ []) (fuel : Nat) :
    readGroups (fuel + groups.length) g (groups.flatMap groupColon ++ rest) =
      readGroups fuel { g with read := g.read ++ groups } rest := by
  induction groups generalizing g with
  | nil => simp
  | cons group others ih =>
    obtain ⟨bound, later⟩ := List.forall_mem_cons.1 bounded
    rw [List.length_cons] at room
    have next : (g.push group).count = g.count + 1 := g.count_append [group]
    rw [List.flatMap_cons, List.append_assoc, groupColon, List.append_assoc, List.length_cons,
      ← Nat.add_assoc, readGroups_toDigits bound (by omega) (by simp)]
    rw [if_neg (by simp), if_neg (by simp [nonempty])]
    change readGroups _ _ (others.flatMap groupColon ++ rest) = _
    rw [ih later (by omega)]
    simp [Groups.push]

theorem readGroups_groupChars (bounded : ∀ group ∈ groups, group < 0x10000)
    (room : g.count + groups.length ≤ 8) (fuel : Nat) :
    readGroups (fuel + groups.length + 1) g (groupChars groups) =
      some { g with read := g.read ++ groups } := by
  rcases groups.eq_nil_or_concat' with rfl | ⟨front, last, rfl⟩
  · simp [groupChars, readGroups]
  · obtain ⟨before, bound⟩ := List.forall_mem_append.1 bounded
    rw [List.forall_mem_singleton] at bound
    rw [List.length_append, List.length_singleton] at room ⊢
    have next := g.count_append front
    have room_front : Groups.count { g with read := g.read ++ front } < 8 := by
      rw [g.count_append]
      omega
    have ends := readGroups_toDigits bound room_front
      (show ∀ c ∈ ([] : List Char).head?, c = ':' from nofun) (fuel + 1)
    rw [List.append_nil, if_pos rfl] at ends
    have enough : fuel + (front.length + 1) + 1 = fuel + 1 + 1 + front.length := by omega
    rw [groupChars_append_singleton, enough,
      readGroups_flatMap before (by omega) Nat.toDigits_ne_nil, ends]
    simp [Groups.push]

theorem groupChars_cons (group : Nat) (others : List Nat) :
    ∃ c more, groupChars (group :: others) = c :: more ∧ c ≠ ':' := by
  obtain ⟨c, digits, starts⟩ :=
    List.exists_cons_of_ne_nil (Nat.toDigits_ne_nil (b := 16) (n := group))
  refine ⟨c, digits ++ (others.map fun g => Nat.toDigits 16 g).flatMap (':' :: ·), ?_, ?_⟩
  · unfold groupChars
    rw [List.map_cons, Text.intercalate_cons, starts, List.cons_append]
  · rintro rfl
    cases isHex_of_mem_toDigits (n := group) (c := ':')
      (by rw [starts]; exact List.mem_cons_self ..)

theorem length_le_length_groupChars (groups : List Nat) :
    2 * groups.length ≤ (groupChars groups).length + 1 := by
  have colons : 2 * groups.length ≤ (groups.flatMap groupColon).length := by
    induction groups with
    | nil => exact Nat.le_refl 0
    | cons group others ih =>
      have digits := Nat.length_toDigits_pos (b := 16) (n := group)
      rw [List.flatMap_cons, List.length_append, groupColon, List.length_append,
        List.length_singleton, List.length_cons]
      omega
  by_cases empty : groups = []
  · rw [empty]
    exact Nat.zero_le _
  · rwa [← groupChars_append_colon empty, List.length_append] at colons

theorem groups?_of_digit {c : Char} (digit : c ≠ ':') (nonempty : rest ≠ []) :
    groups? (c :: rest) = (readGroups (rest.length + 2) {} (c :: rest)).bind Groups.fill? := by
  unfold groups?
  split
  · rename_i same
    cases same
    exact absurd rfl digit
  · rename_i same
    cases same
    exact absurd rfl digit
  · rename_i same
    cases same
    exact absurd rfl nonempty
  · rfl

/-! ### Runs of zeros -/

/-- The groups of a run are zeros, with the others around them. -/
theorem take_longestZeroRun (groups : List Nat) :
    groups.take (longestZeroRun groups).1 ++ List.replicate (longestZeroRun groups).2 0 ++
      groups.drop ((longestZeroRun groups).1 + (longestZeroRun groups).2) = groups := by
  induction groups with
  | nil => rfl
  | cons group rest ih =>
    unfold longestZeroRun
    simp only
    split
    · unfold zeroRun
      have zeros : (group :: rest).takeWhile (· = 0) =
          List.replicate ((group :: rest).takeWhile (· = 0)).length 0 := by
        refine List.eq_replicate_of_mem fun n mem => ?_
        simpa using List.all_eq_true.1 List.all_takeWhile n mem
      have whole := List.takeWhile_append_dropWhile (p := (· = 0)) (l := group :: rest)
      have behind : (List.takeWhile (· = 0) (group :: rest) ++
          List.dropWhile (· = 0) (group :: rest)).drop
            (List.takeWhile (· = 0) (group :: rest)).length = _ := List.drop_left
      rw [whole] at behind
      rw [List.take_zero, List.nil_append, Nat.zero_add, behind, ← zeros, whole]
    · simp only [List.take_succ_cons, Nat.add_right_comm _ 1, List.drop_succ_cons, List.cons_append, ih]

theorem Groups.fill?_gap {front back : List Nat} {count : Nat}
    (eight : front.length + count + back.length = 8) :
    Groups.fill? { read := front ++ back, gapAfter := some front.length } =
      some (front ++ List.replicate count 0 ++ back) := by
  have gap : 8 - (front.length + back.length) = count := by omega
  simp [fill?, gap]

theorem readGroups_colon (room : g.count < 8) (whole : g.gapAfter = none) (fuel : Nat) :
    readGroups (fuel + 1) g (':' :: rest) =
      readGroups fuel { g with gapAfter := some g.read.length } rest := by
  simp [readGroups, Nat.ne_of_lt room, whole]

theorem groups?_groupChars (address : IsAddress groups) :
    groups? (groupChars groups) = some groups := by
  obtain ⟨eight, bounded⟩ := address
  obtain ⟨group, others, rfl⟩ :=
    List.exists_cons_of_ne_nil (List.ne_nil_of_length_eq_add_one eight)
  obtain ⟨c, more, starts, digit⟩ := groupChars_cons group others
  have size := length_le_length_groupChars (group :: others)
  rw [starts, eight, List.length_cons] at size
  rw [starts, groups?_of_digit digit (List.ne_nil_of_length_pos (by omega)), ← starts]
  obtain ⟨fuel, enough⟩ := Nat.exists_eq_add_of_le' (show 8 + 1 ≤ more.length + 2 by omega)
  rw [enough, ← eight, ← Nat.add_assoc, readGroups_groupChars bounded (by rw [eight]; decide)]
  simp [Groups.fill?, eight]

section Gap

variable {front back : List Nat} {count : Nat}

theorem readGroups_gap (bounded : ∀ group ∈ back, group < 0x10000) (run : 2 ≤ count)
    (eight : front.length + count + back.length = 8) {fuel : Nat} (enough : back.length < fuel) :
    (readGroups fuel { read := front, gapAfter := some front.length } (groupChars back)).bind
      Groups.fill? = some (front ++ List.replicate count 0 ++ back) := by
  obtain ⟨more, rfl⟩ := Nat.exists_eq_add_of_lt enough
  rw [Nat.add_comm back.length more, readGroups_groupChars bounded]
  · exact Groups.fill?_gap eight
  · simp only [Groups.count, Option.isSome_some, if_true]
    omega

/-- A run that is left out is filled up again. -/
theorem groups?_gap (before : ∀ group ∈ front, group < 0x10000)
    (behind : ∀ group ∈ back, group < 0x10000) (run : 2 ≤ count)
    (eight : front.length + count + back.length = 8) :
    groups? (groupChars front ++ [':', ':'] ++ groupChars back) =
      some (front ++ List.replicate count 0 ++ back) := by
  have size := length_le_length_groupChars back
  cases front with
  | nil =>
    change (readGroups ((groupChars back).length + 2 + 1) { gapAfter := some 0 }
      (groupChars back)).bind Groups.fill? = _
    exact readGroups_gap behind run eight (by omega)
  | cons group others =>
    obtain ⟨c, more, starts, digit⟩ := groupChars_cons group others
    have size_front := length_le_length_groupChars (group :: others)
    simp only [starts, List.length_cons] at size_front
    have colons : groupChars (group :: others) ++ [':', ':'] ++ groupChars back =
        (group :: others).flatMap groupColon ++ ':' :: groupChars back := by
      rw [← groupChars_append_colon (List.cons_ne_nil group others)]
      simp
    have enough : back.length + 1 + 1 + (group :: others).length ≤
        (more ++ [':', ':'] ++ groupChars back).length + 2 := by
      simp only [List.length_append, List.length_cons, List.length_nil]
      omega
    obtain ⟨fuel, enough⟩ := Nat.exists_eq_add_of_le' enough
    have space : Groups.count {} + (group :: others).length ≤ 8 := by
      change 0 + (group :: others).length ≤ 8
      omega
    have room : Groups.count { read := group :: others } < 8 := by
      change (group :: others).length < 8
      omega
    rw [starts, List.cons_append, List.cons_append, groups?_of_digit digit (by simp),
      ← List.cons_append, ← List.cons_append, ← starts, colons, enough, ← Nat.add_assoc,
      ← Nat.add_assoc, readGroups_flatMap before space (List.cons_ne_nil ':' _)]
    change (readGroups _ { read := group :: others } _).bind _ = _
    rw [readGroups_colon room rfl]
    exact readGroups_gap behind run eight (by omega)

end Gap

/-- Groups that make up an address are read from its text. -/
theorem groups?_ipv6Chars (address : IsAddress groups) :
    groups? (ipv6Chars groups) = some groups := by
  have parts := take_longestZeroRun groups
  unfold ipv6Chars
  generalize longestZeroRun groups = run at parts ⊢
  obtain ⟨start, count⟩ := run
  simp only at parts ⊢
  split
  · exact groups?_groupChars address
  · obtain ⟨eight, bounded⟩ := address
    generalize groups.take start = front at parts
    generalize groups.drop (start + count) = back at parts
    subst parts
    simp only [List.length_append, List.length_replicate] at eight
    rw [List.forall_mem_append, List.forall_mem_append] at bounded
    exact groups?_gap bounded.1.1 bounded.2 (by omega) eight

end PetClient.Url.Ipv6
