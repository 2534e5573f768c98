import PetClient.Proofs.Url.Domain.Punycode

/-!
A label that is written in letters, digits and hyphens is read as the label itself.  Each difference
that is written takes the reader to the place in the label at which the writer stands.
-/

namespace PetClient.Url.Punycode

/-! ### Differences -/

theorem threshold_pos (place bias : Nat) : 0 < threshold place bias := by
  unfold threshold
  split <;> omega

theorem digitValue?_digitChar {d : Nat} (bound : d < base) :
    digitValue? (digitChar d) = some d := by
  have all : ∀ e ∈ List.range base, digitValue? (digitChar e) = some e := by decide
  exact all d (List.mem_range.2 bound)

theorem decodeDifference_encodeDifference {fuel n : Nat} (enough : n < fuel)
    (bias place weight i : Nat) (rest : List Char) :
    decodeDifference bias place weight i (encodeDifference fuel bias place n ++ rest) =
      some (i + n * weight, rest) := by
  induction fuel generalizing n place weight i with
  | zero => omega
  | succ fuel ih =>
    have positive := threshold_pos place bias
    have small := threshold_le place bias
    generalize reached : threshold place bias = t at positive small
    have room : 0 < base - t := by
      unfold base
      omega
    rw [encodeDifference, reached]
    by_cases last : n < t
    · have digit : n < base := by omega
      rw [if_pos last, List.singleton_append, decodeDifference, digitValue?_digitChar digit, reached]
      simp only [Option.bind_eq_bind, Option.bind_some, if_pos last]
    · have below := Nat.mod_lt (n - t) room
      have digit : t + (n - t) % (base - t) < base := by omega
      have less : (n - t) / (base - t) < fuel :=
        Nat.lt_of_le_of_lt (Nat.div_le_self ..) (by omega)
      have whole : t + (n - t) % (base - t) + (n - t) / (base - t) * (base - t) = n := by
        have parts := Nat.mod_add_div' (n - t) (base - t)
        omega
      simp only [if_neg last, List.cons_append]
      rw [decodeDifference, digitValue?_digitChar digit, reached]
      simp only [Option.bind_eq_bind, Option.bind_some]
      rw [if_neg (by omega), ih less]
      congr 2
      calc i + (t + (n - t) % (base - t)) * weight + (n - t) / (base - t) * (weight * (base - t))
          = i + (t + (n - t) % (base - t) + (n - t) / (base - t) * (base - t)) * weight := by ring
        _ = i + n * weight := by rw [whole]

theorem encodeDifference_ne_nil (n bias place : Nat) :
    encodeDifference (n + 1) bias place n ≠ [] := by
  simp only [encodeDifference]
  split <;> simp

/-- One difference takes a reader from a character and a place to the next. -/
theorem decodeDigits_encodeDifference {fuel i point bias difference place : Nat} {c : Char}
    {label : List Char} (within : place ≤ label.length)
    (reaches : point * (label.length + 1) + i + difference =
      c.toNat * (label.length + 1) + place) (rest : List Char) :
    decodeDigits (fuel + 1) i point bias label
        (encodeDifference (difference + 1) bias base difference ++ rest) =
      decodeDigits fuel (place + 1) c.toNat (adapt difference (label.length + 1) (i = 0))
        (label.take place ++ c :: label.drop place) rest := by
  have early : point ≤ c.toNat := by
    by_contra late
    have more := Nat.mul_le_mul_right (label.length + 1) (Nat.lt_of_not_le late)
    rw [Nat.succ_mul] at more
    omega
  obtain ⟨gap, same⟩ := Nat.exists_eq_add_of_le early
  have next : i + difference = place + (label.length + 1) * gap := by
    rw [same, Nat.add_mul, Nat.mul_comm gap] at reaches
    omega
  have valid : ¬(0x10FFFF < c.toNat ∨ 0xD800 ≤ c.toNat ∧ c.toNat ≤ 0xDFFF) := by
    have good : c.toNat < 0xD800 ∨ 0xDFFF < c.toNat ∧ c.toNat < 0x110000 := c.valid
    omega
  obtain ⟨d, digits, written⟩ :=
    List.exists_cons_of_ne_nil (encodeDifference_ne_nil difference bias base)
  have read := decodeDifference_encodeDifference (Nat.lt_succ_self difference) bias base 1 i rest
  rw [Nat.mul_one] at read
  rw [written] at read ⊢
  rw [List.cons_append] at read ⊢
  rw [decodeDigits]
  · simp only [read, Option.bind_eq_bind, Option.bind_some, next, Nat.add_mul_div_left _ _
      (Nat.succ_pos label.length), Nat.div_eq_of_lt (Nat.lt_succ_of_le within), Nat.zero_add, ← same,
      Nat.add_mul_mod_self_left, Nat.mod_eq_of_lt (Nat.lt_succ_of_le within), Bool.or_eq_true,
      Bool.and_eq_true, decide_eq_true_iff, if_neg valid, Char.ofNat_toNat]
    rw [← next, Nat.add_sub_cancel_left]
  · intro empty
    cases empty

/-! ### The writer and the reader -/

/-- What a writer has written so far is read as a label, and the next difference, measured from
where the reader is left, leads to the current point of the writer and a place in the label. -/
structure Writing.Reads (basic : List Char) (w : Writing) (label : List Char) (place : Nat) :
    Prop where
  size : label.length = w.handled
  more : basic.length ≤ w.handled
  left : ∃ i point count, count ≤ w.digits.length ∧ (i = 0 ↔ w.handled = basic.length) ∧
    point * (w.handled + 1) + i + w.difference = w.point * (w.handled + 1) + place ∧
    ∀ fuel rest,
      decodeDigits (fuel + count) 0 initialPoint initialBias basic (w.digits ++ rest) =
        decodeDigits fuel i point w.bias label rest

namespace Writing

variable {basic label : List Char} {w : Writing} {place : Nat}

theorem reads_start (basic : List Char) : Reads basic { handled := basic.length } basic 0 :=
  ⟨rfl, Nat.le_refl _, 0, initialPoint, 0, Nat.le_refl 0, by simp, by simp, fun fuel rest => rfl⟩

theorem Reads.visit_smaller (reads : w.Reads basic label place) {c : Char}
    (smaller : c.toNat < w.point) : (w.visit basic.length c).Reads basic label (place + 1) := by
  obtain ⟨size, more, i, point, count, enough, first, reaches, decoded⟩ := reads
  unfold Writing.visit
  rw [if_pos smaller]
  refine ⟨size, more, i, point, count, enough, first, ?_, decoded⟩
  simp only
  omega

theorem Reads.visit_same (reads : w.Reads basic label place) (within : place ≤ label.length)
    {c : Char} (same : c.toNat = w.point) :
    (w.visit basic.length c).Reads basic (label.take place ++ c :: label.drop place)
      (place + 1) := by
  obtain ⟨size, more, i, point, count, enough, first, reaches, decoded⟩ := reads
  have nonempty :=
    List.length_pos_of_ne_nil (encodeDifference_ne_nil w.difference w.bias base)
  unfold Writing.visit
  rw [if_neg (by omega), if_pos same]
  refine ⟨?_, Nat.le_succ_of_le more, place + 1, w.point, count + 1, ?_, ?_, ?_, ?_⟩
  · simp only [List.length_append, List.length_take, List.length_cons, List.length_drop]
    omega
  · simp only [List.length_append]
    omega
  · simp only
    omega
  · simp only
    ring
  · intro fuel rest
    simp only [List.append_assoc]
    rw [← Nat.add_assoc, Nat.add_right_comm, decoded, ← same]
    rw [← size, ← same] at reaches
    rw [decodeDigits_encodeDifference within reaches, size]
    simp only [first]

theorem visit_larger {c : Char} (larger : w.point < c.toNat) : w.visit basic.length c = w := by
  unfold Writing.visit
  rw [if_neg (by omega), if_neg (by omega)]

@[simp]
theorem visit_point (basic : Nat) (w : Writing) (c : Char) : (w.visit basic c).point = w.point := by
  unfold Writing.visit
  split
  · rfl
  · split <;> rfl

/-- All places of the current point are written: behind the characters that have been visited, those
of smaller points are there already, and those of the current point are added. -/
theorem Reads.foldl_visit {front back : List Char}
    (reads : w.Reads basic (front ++ back.filter (·.toNat < w.point)) front.length) :
    (back.foldl (Writing.visit basic.length) w).Reads basic
        (front ++ back.filter (·.toNat < w.point + 1))
        (front ++ back.filter (·.toNat < w.point + 1)).length ∧
      (back.foldl (Writing.visit basic.length) w).point = w.point := by
  induction back generalizing front w with
  | nil => simpa using reads
  | cons c back ih =>
    have one (d : List Char) : front ++ c :: d = (front ++ [c]) ++ d := by simp
    have longer : (front ++ [c]).length = front.length + 1 := by simp
    rw [List.foldl_cons]
    by_cases larger : w.point < c.toNat
    · rw [visit_larger larger]
      rw [List.filter_cons_of_neg (by simp; omega)] at reads ⊢
      exact ih reads
    · have goes : (w.visit basic.length c).Reads basic
          ((front ++ [c]) ++ back.filter (·.toNat < (w.visit basic.length c).point))
          (front ++ [c]).length := by
        rw [visit_point, longer]
        rcases Nat.lt_or_eq_of_le (Nat.le_of_not_lt larger) with smaller | same
        · rw [List.filter_cons_of_pos (by simpa using smaller), one] at reads
          exact reads.visit_smaller smaller
        · rw [List.filter_cons_of_neg (by simp; omega)] at reads
          have written := reads.visit_same (by simp) same
          rwa [List.take_left, List.drop_left, one] at written
      have later := ih goes
      rw [visit_point] at later
      rwa [List.filter_cons_of_pos (by simp; omega), one]

/-- In front of a label, the difference to a later point counts all places for each point. -/
theorem Reads.moved {n : Nat} (reads : w.Reads basic label 0) (later : w.point ≤ n) :
    Reads basic
      { w with difference := w.difference + (n - w.point) * (w.handled + 1), point := n }
      label 0 := by
  obtain ⟨size, more, i, point, count, enough, first, reaches, decoded⟩ := reads
  refine ⟨size, more, i, point, count, enough, first, ?_, decoded⟩
  obtain ⟨gap, rfl⟩ := Nat.exists_eq_add_of_le later
  simp only [Nat.add_sub_cancel_left, Nat.add_mul] at reaches ⊢
  omega

theorem Reads.wrapped {n : Nat} (reads : w.Reads basic label label.length) (here : w.point = n) :
    Reads basic { w with difference := w.difference + 1, point := n + 1 } label 0 := by
  obtain ⟨size, more, i, point, count, enough, first, reaches, decoded⟩ := reads
  refine ⟨size, more, i, point, count, enough, first, ?_, decoded⟩
  simp only [size, here, Nat.add_mul n 1] at reaches ⊢
  omega

theorem Reads.visitAll {n : Nat} (reads : w.Reads basic (label.filter (·.toNat < w.point)) 0)
    (later : w.point ≤ n) (none_between : ∀ c ∈ label, c.toNat < n → c.toNat < w.point) :
    (w.visitAll label basic.length n).Reads basic (label.filter (·.toNat < n + 1)) 0 := by
  have same : label.filter (·.toNat < w.point) = label.filter (·.toNat < n) := by
    apply List.filter_congr
    intro c mem
    rw [decide_eq_decide]
    exact ⟨fun before => Nat.lt_of_lt_of_le before later, none_between c mem⟩
  rw [same] at reads
  have start := reads.moved later
  rw [← List.nil_append (label.filter _)] at start
  obtain ⟨written, kept⟩ := start.foldl_visit
  exact written.wrapped kept

/-- What is written for all points of a label is read as the label. -/
theorem Reads.foldl_visitAll {points : List Nat}
    (reads : w.Reads basic (label.filter (·.toNat < w.point)) 0)
    (ascending : points.Pairwise (· < ·)) (later : ∀ n ∈ points, w.point ≤ n)
    (complete : ∀ c ∈ label, c.toNat < w.point ∨ c.toNat ∈ points) :
    (points.foldl (Writing.visitAll label basic.length) w).Reads basic label 0 := by
  induction points generalizing w with
  | nil =>
    have all : label.filter (·.toNat < w.point) = label := by
      rw [List.filter_eq_self]
      intro c mem
      simpa using complete c mem
    rwa [all] at reads
  | cons n points ih =>
    obtain ⟨first, rest⟩ := List.pairwise_cons.1 ascending
    have between : ∀ c ∈ label, c.toNat < n → c.toNat < w.point := by
      intro c mem before
      refine (complete c mem).resolve_right fun listed => ?_
      rcases List.mem_cons.1 listed with same | other
      · omega
      · have after := first _ other
        omega
    have goes := reads.visitAll (later n (List.mem_cons_self ..)) between
    refine ih goes rest first fun c mem => ?_
    change c.toNat < n + 1 ∨ _
    rcases complete c mem with before | listed
    · have bound := later n (List.mem_cons_self ..)
      omega
    · rcases List.mem_cons.1 listed with same | other
      · omega
      · exact .inr other

end Writing

/-! ### Labels -/

theorem pairwise_lt_eraseDups (numbers : List Nat) (sorted : numbers.Pairwise (· ≤ ·)) :
    numbers.eraseDups.Pairwise (· < ·) := by
  match numbers with
  | [] => exact .nil
  | n :: rest =>
    obtain ⟨least, sorted_rest⟩ := List.pairwise_cons.1 sorted
    rw [List.eraseDups_cons, List.pairwise_cons]
    refine ⟨fun m mem => ?_, pairwise_lt_eraseDups _ (sorted_rest.filter _)⟩
    rw [List.mem_eraseDups, List.mem_filter] at mem
    have other : m ≠ n := by simpa using mem.2
    have bound := least m mem.1
    omega
termination_by numbers.length
decreasing_by
  exact Nat.lt_succ_of_le (List.length_filter_le _ rest)

def basicOf (label : List Char) : List Char :=
  label.filter fun c => c.toNat < 0x80

def pointsOf (label : List Char) : List Nat :=
  ((label.filter fun c => 0x80 ≤ c.toNat).map Char.toNat).mergeSort.eraseDups

def Writing.whole (label : List Char) : Writing :=
  (pointsOf label).foldl (Writing.visitAll label (basicOf label).length)
    { handled := (basicOf label).length }

theorem encode_eq (label : List Char) :
    encode label = basicOf label ++ (if (basicOf label).isEmpty then [] else ['-']) ++
      (Writing.whole label).digits :=
  rfl

theorem mem_pointsOf {label : List Char} {n : Nat} :
    n ∈ pointsOf label ↔ 0x80 ≤ n ∧ ∃ c ∈ label, c.toNat = n := by
  unfold pointsOf
  rw [List.mem_eraseDups, List.mem_mergeSort, List.mem_map]
  simp only [List.mem_filter, decide_eq_true_iff]
  constructor
  · rintro ⟨c, ⟨mem, high⟩, rfl⟩
    exact ⟨high, c, mem, rfl⟩
  · rintro ⟨high, c, mem, rfl⟩
    exact ⟨c, ⟨mem, high⟩, rfl⟩

theorem Writing.reads_whole (label : List Char) :
    (Writing.whole label).Reads (basicOf label) label 0 := by
  have sorted := List.sortedLE_mergeSort (l := (label.filter fun c => 0x80 ≤ c.toNat).map Char.toNat)
  refine (reads_start (basicOf label)).foldl_visitAll
    (pairwise_lt_eraseDups _ sorted.pairwise) (fun n mem => (mem_pointsOf.1 mem).1) ?_
  intro c mem
  rw [mem_pointsOf]
  change c.toNat < 0x80 ∨ _
  by_cases low : c.toNat < 0x80
  · exact .inl low
  · exact .inr ⟨Nat.le_of_not_lt low, c, mem, rfl⟩

theorem Writing.inDigits_whole (label : List Char) : (Writing.whole label).InDigits := by
  apply InDigits.foldl_visitAll
  exact List.forall_mem_nil _

theorem decode?_append {basic digits : List Char} (ascii : ∀ c ∈ basic, c.toNat < 0x80)
    (solid : ∀ c ∈ digits, c ≠ '-') :
    decode? (basic ++ (if basic.isEmpty then [] else ['-']) ++ digits) =
      decodeDigits (digits.length + 1) 0 initialPoint initialBias basic digits := by
  generalize starts : basic ++ (if basic.isEmpty then [] else ['-']) = front
  have ends : basic = [] ∧ front = [] ∨ basic ≠ [] ∧ front = basic ++ ['-'] := by
    cases basic with
    | nil => exact .inl ⟨rfl, starts.symm⟩
    | cons c rest => exact .inr ⟨List.cons_ne_nil c rest, starts.symm⟩
  have stops : front.reverse.takeWhile (· != '-') = [] := by
    rcases ends with ⟨-, rfl⟩ | ⟨-, rfl⟩
    · rfl
    · rw [List.reverse_append]
      rfl
  have behind : (front ++ digits).reverse.takeWhile (· != '-') = digits.reverse := by
    rw [List.reverse_append, List.takeWhile_append_of_pos (by simpa using solid), stops,
      List.append_nil]
  have good : ¬(front.length = 1 || !front.all fun c => c.toNat < 0x80) = true ∧
      front.dropLast = basic := by
    rcases ends with ⟨rfl, rfl⟩ | ⟨nonempty, rfl⟩
    · simp
    · simpa [nonempty] using ascii
  unfold decode?
  simp only [behind, List.reverse_reverse, List.length_append, Nat.add_sub_cancel, List.take_left,
    if_neg good.1, good.2]

/-- A label is read as it was written. -/
theorem decode?_encode (label : List Char) : decode? (encode label) = some label := by
  obtain ⟨-, -, i, point, count, enough, -, -, decoded⟩ := Writing.reads_whole label
  have ascii : ∀ c ∈ basicOf label, c.toNat < 0x80 := by
    intro c mem
    simpa using (List.mem_filter.1 mem).2
  have solid : ∀ c ∈ (Writing.whole label).digits, c ≠ '-' := by
    rintro _ mem rfl
    exact absurd (Writing.inDigits_whole label _ mem).isDigit (by decide)
  have last := decoded ((Writing.whole label).digits.length - count + 1) []
  rw [List.append_nil, Nat.add_right_comm, Nat.sub_add_cancel enough] at last
  rw [encode_eq, decode?_append ascii solid, last]
  rfl

end PetClient.Url.Punycode
