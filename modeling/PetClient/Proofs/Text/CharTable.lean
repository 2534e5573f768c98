import Mathlib
import PetClient.Text.CharTable

/-!
Tables of characters by their written form: where the ranges start, and which values they have.
-/

namespace PetClient.Text

/-! ### Words -/

def wordOf (begun : List Char) : List (List Char) :=
  bif begun.isEmpty then [] else [begun.reverse]

def wordsFrom (begun : List Char) : List Char → List (List Char)
  | [] => wordOf begun
  | c :: rest =>
    bif c.isWhitespace then wordOf begun ++ wordsFrom [] rest else wordsFrom (c :: begun) rest

def alike (a b : Char) : Bool :=
  a.isWhitespace == b.isWhitespace

theorem splitBy_of_alike {text : List Char} (nonempty : text ≠ []) {blank : Bool}
    (same : ∀ c ∈ text, c.isWhitespace = blank) : text.splitBy alike = [text] := by
  refine List.splitBy_of_isChain nonempty (List.Pairwise.isChain ?_)
  refine List.pairwise_iff_forall_sublist.2 fun {a b} sub => ?_
  have mem_a := sub.subset (List.mem_cons_self ..)
  have mem_b := sub.subset (List.mem_cons_of_mem _ (List.mem_cons_self ..))
  rw [alike, same a mem_a, same b mem_b, beq_self_eq_true]

theorem words_of_solid {text : List Char} (nonempty : text ≠ [])
    (solid : ∀ c ∈ text, c.isWhitespace = false) : words text = [text] := by
  have kept : (!text.all Char.isWhitespace) = true := by
    obtain ⟨c, rest, rfl⟩ := List.exists_cons_of_ne_nil nonempty
    rw [List.all_cons, solid c (List.mem_cons_self ..)]
    rfl
  unfold words
  change List.filter _ (text.splitBy alike) = _
  rw [splitBy_of_alike nonempty solid, List.filter_cons, if_pos kept, List.filter_nil]

theorem words_of_blank {text : List Char} (blank : ∀ c ∈ text, c.isWhitespace = true) :
    words text = [] := by
  cases text with
  | nil => rfl
  | cons c rest =>
    have left : ¬(!(c :: rest).all Char.isWhitespace) = true := by
      rw [List.all_eq_true.2 blank]
      exact Bool.false_ne_true
    unfold words
    change List.filter _ ((c :: rest).splitBy alike) = _
    rw [splitBy_of_alike (List.cons_ne_nil c rest) blank, List.filter_cons, if_neg left,
      List.filter_nil]

/-- Text is taken apart between a blank and a solid character. -/
theorem words_append {front back : List Char}
    (apart : ∀ a ∈ front.getLast?, ∀ b ∈ back.head?, a.isWhitespace ≠ b.isWhitespace) :
    words (front ++ back) = words front ++ words back := by
  unfold words
  rw [List.splitBy_append, List.filter_append]
  intro a last b first
  exact beq_eq_false_iff_ne.2 (apart a last b first)

theorem words_dropWhile (text : List Char) :
    words (text.dropWhile Char.isWhitespace) = words text := by
  have blank : ∀ c ∈ text.takeWhile Char.isWhitespace, c.isWhitespace = true :=
    List.all_eq_true.1 List.all_takeWhile
  have apart : ∀ a ∈ (text.takeWhile Char.isWhitespace).getLast?,
      ∀ b ∈ (text.dropWhile Char.isWhitespace).head?, a.isWhitespace ≠ b.isWhitespace := by
    intro a last b first
    have stops := List.head?_dropWhile_not Char.isWhitespace text
    rw [Option.mem_def.1 first] at stops
    rw [blank a (List.mem_of_mem_getLast? last)]
    simpa using stops
  have parts := words_append apart
  rw [List.takeWhile_append_dropWhile, words_of_blank blank, List.nil_append] at parts
  exact parts.symm

theorem words_of_begun {begun : List Char} (solid : ∀ c ∈ begun, c.isWhitespace = false) :
    words begun.reverse = wordOf begun := by
  cases begun with
  | nil => rfl
  | cons c rest =>
    rw [words_of_solid (List.reverse_ne_nil_iff.2 (List.cons_ne_nil c rest))
      fun d mem => solid d (List.mem_reverse.1 mem)]
    rfl

theorem wordsFrom_eq {begun : List Char} (solid : ∀ c ∈ begun, c.isWhitespace = false)
    (text : List Char) : wordsFrom begun text = words (begun.reverse ++ text) := by
  induction text generalizing begun with
  | nil => rw [wordsFrom, List.append_nil, words_of_begun solid]
  | cons c rest ih =>
    unfold wordsFrom
    cases kind : c.isWhitespace with
    | false =>
      rw [cond_false, ih (List.forall_mem_cons.2 ⟨kind, solid⟩), List.reverse_cons,
        List.append_assoc, List.singleton_append]
    | true =>
      have apart : ∀ a ∈ begun.reverse.getLast?, ∀ b ∈ (c :: rest).head?,
          a.isWhitespace ≠ b.isWhitespace := by
        rintro a last b ⟨⟩
        rw [solid a (List.mem_reverse.1 (List.mem_of_mem_getLast? last)), kind]
        exact Bool.false_ne_true
      have later : words (c :: rest) = wordsFrom [] rest := by
        rw [← words_dropWhile, List.dropWhile_cons_of_pos kind, words_dropWhile,
          ih (List.forall_mem_nil _)]
        rfl
      rw [cond_true, words_append apart, words_of_begun solid, later]

theorem words_eq (text : List Char) : words text = wordsFrom [] text :=
  (wordsFrom_eq (List.forall_mem_nil _) text).symm

namespace CharTable

/-! ### Finding a value -/

def Covers (table : CharTable) (n : Nat) : Prop :=
  ∃ range ∈ table.entries, range.1 ≤ n ∧ n ≤ range.2.1

theorem mem_of_search_eq_some {table : CharTable} {n fuel low high : Nat} {value : List Char}
    (found : table.search n fuel low high = some value) :
    ∃ start stop, (start, stop, value) ∈ table.entries ∧ start ≤ n ∧ n ≤ stop := by
  induction fuel generalizing low high with
  | zero => cases found
  | succ fuel ih =>
    unfold search at found
    split at found
    · cases found
    · simp only at found
      split at found
      · cases found
      · rename_i start stop other entry
        split at found
        · exact ih found
        · split at found
          · exact ih found
          · cases found
            exact ⟨start, stop, Array.mem_of_getElem? entry, by omega, by omega⟩

theorem mem_of_find?_eq_some {table : CharTable} {c : Char} {value : List Char}
    (found : table.find? c = some value) :
    ∃ start stop, (start, stop, value) ∈ table.entries ∧ start ≤ c.toNat ∧ c.toNat ≤ stop :=
  mem_of_search_eq_some found

theorem find?_eq_none {table : CharTable} {c : Char} (outside : ¬table.Covers c.toNat) :
    table.find? c = none := by
  cases found : table.find? c with
  | none => rfl
  | some value =>
    obtain ⟨start, stop, mem, within⟩ := mem_of_find?_eq_some found
    exact (outside ⟨_, mem, within⟩).elim

theorem contains_eq_false {table : CharTable} {c : Char} (outside : ¬table.Covers c.toNat) :
    table.contains c = false := by
  unfold contains
  rw [find?_eq_none outside]
  rfl

def Above (bound : Nat) (table : CharTable) : Prop :=
  ∀ range ∈ table.entries, bound < range.1

theorem Above.not_covers {table : CharTable} {bound n : Nat} (above : table.Above bound)
    (low : n ≤ bound) : ¬table.Covers n := by
  rintro ⟨range, mem, starts, -⟩
  have late := above range mem
  omega

structure Ordered (table : CharTable) : Prop where
  apart : table.entries.toList.Pairwise fun before after => before.2.1 < after.1
  forward : ∀ range ∈ table.entries, range.1 ≤ range.2.1

theorem Ordered.search_eq_some {table : CharTable} (ordered : table.Ordered) {start stop : Nat}
    {value : List Char} {index : Nat} (entry : table.entries[index]? = some (start, stop, value))
    {n : Nat} (starts : start ≤ n) (ends : n ≤ stop) {fuel low high : Nat} (lower : low ≤ index)
    (upper : index < high) (within : high ≤ table.entries.size) (enough : high < low + fuel) :
    table.search n fuel low high = some value := by
  -- The half that is searched further is the one with the range around the number.
  induction fuel generalizing low high with
  | zero => omega
  | succ fuel ih =>
    generalize halved : (low + high) / 2 = middle
    have inside : middle < table.entries.size := by omega
    obtain ⟨⟨small, large, other⟩, at_middle⟩ : ∃ range, table.entries[middle]? = some range :=
      ⟨_, Array.getElem?_eq_getElem inside⟩
    have forward : small ≤ large := ordered.forward _ (Array.mem_of_getElem? at_middle)
    have apart {i j : Nat} {a b : Nat × Nat × List Char} (less : i < j)
        (first : table.entries[i]? = some a) (second : table.entries[j]? = some b) :
        a.2.1 < b.1 := by
      rw [← Array.getElem?_toList] at first second
      obtain ⟨inside_first, rfl⟩ := List.getElem?_eq_some_iff.1 first
      obtain ⟨inside_second, rfl⟩ := List.getElem?_eq_some_iff.1 second
      exact List.pairwise_iff_getElem.1 ordered.apart i j inside_first inside_second less
    unfold search
    simp only [halved, at_middle, if_neg (Nat.not_le.2 (Nat.lt_of_le_of_lt lower upper))]
    rcases Nat.lt_trichotomy middle index with before | same | behind
    · have smaller := apart before at_middle entry
      simp only at smaller
      rw [if_neg (by omega), if_pos (by omega)]
      exact ih (by omega) upper within (by omega)
    · rw [same, entry] at at_middle
      cases at_middle
      rw [if_neg (by omega), if_neg (by omega)]
    · have larger := apart behind entry at_middle
      simp only at larger
      rw [if_pos (by omega)]
      exact ih lower behind (by omega) (by omega)

theorem Ordered.find?_eq_some {table : CharTable} (ordered : table.Ordered) {start stop : Nat}
    {value : List Char} (mem : (start, stop, value) ∈ table.entries) {c : Char}
    (starts : start ≤ c.toNat) (ends : c.toNat ≤ stop) : table.find? c = some value := by
  obtain ⟨index, entry⟩ := Array.mem_iff_getElem?.1 mem
  have inside : index < table.entries.size := by
    by_contra outside
    rw [Array.getElem?_eq_none (Nat.le_of_not_lt outside)] at entry
    cases entry
  exact ordered.search_eq_some entry starts ends (Nat.zero_le _) inside (Nat.le_refl _) (by omega)

theorem Ordered.not_covers {table : CharTable} (ordered : table.Ordered) {c : Char}
    (missing : table.find? c = none) : ¬table.Covers c.toNat := by
  rintro ⟨⟨start, stop, value⟩, mem, starts, ends⟩
  rw [ordered.find?_eq_some mem starts ends] at missing
  cases missing

/-! ### Ranges by words -/

def nextDigit (n : Nat) (c : Char) : Nat :=
  n * 16 + (hexDigit? c).getD 0

def readExtra (start n : Nat) : List Char → Nat × Nat × List Char
  | [] => (start, start + n, [])
  | c :: rest =>
    if c = ':' then (start, start + n, rest) else readExtra start (nextDigit n c) rest

def readRange (next n : Nat) : List Char → Nat × Nat × List Char
  | [] => (next + n, next + n, [])
  | c :: rest =>
    if c = ':' then (next + n, next + n, rest)
    else if c = '-' then readExtra (next + n) 0 rest
    else readRange next (nextDigit n c) rest

def rangesFrom (next : Nat) : List (List Char) → List (Nat × Nat × List Char)
  | [] => []
  | word :: rest =>
    let range := readRange next 0 word
    range :: rangesFrom (range.2.1 + 1) rest

theorem readExtra_eq (start n : Nat) (word : List Char) :
    readExtra start n word =
      (start, start + (word.takeWhile (· != ':')).foldl nextDigit n,
        (word.dropWhile (· != ':')).drop 1) := by
  induction word generalizing n with
  | nil => rfl
  | cons c rest ih =>
    unfold readExtra
    by_cases colon : c = ':'
    · simp [colon]
    · simp [colon, ih]

theorem readRange_eq (next n : Nat) (word : List Char) :
    readRange next n word =
      let range := word.takeWhile (· != ':')
      let start := next + (range.takeWhile (· != '-')).foldl nextDigit n
      (start, start + natOfHex ((range.dropWhile (· != '-')).drop 1),
        (word.dropWhile (· != ':')).drop 1) := by
  induction word generalizing n with
  | nil => rfl
  | cons c rest ih =>
    unfold readRange
    by_cases colon : c = ':'
    · simp [colon, natOfHex]
    · by_cases dash : c = '-'
      · rw [dash, if_neg (by decide), if_pos rfl, readExtra_eq]
        rfl
      · simp [colon, dash, ih]

theorem addWord_eq (before : Array (Nat × Nat × List Char) × Nat) (word : List Char) :
    addWord before word =
      (before.1.push (readRange before.2 0 word), (readRange before.2 0 word).2.1 + 1) := by
  rw [readRange_eq]
  rfl

theorem toList_foldl_addWord (words : List (List Char))
    (before : Array (Nat × Nat × List Char) × Nat) :
    (words.foldl addWord before).1.toList = before.1.toList ++ rangesFrom before.2 words := by
  induction words generalizing before with
  | nil => simp [rangesFrom]
  | cons word rest ih =>
    rw [List.foldl_cons, ih, addWord_eq]
    simp [rangesFrom]

theorem toList_ofText (text : String) :
    (ofText text).entries.toList = rangesFrom 0 (wordsFrom [] text.toList) := by
  unfold ofText
  rw [toList_foldl_addWord, words_eq]
  rfl

/-- Each range starts behind the ones before it. -/
theorem rangesFrom_spec (next : Nat) (words : List (List Char)) :
    (rangesFrom next words).Pairwise (fun before after => before.2.1 < after.1) ∧
      ∀ range ∈ rangesFrom next words, next ≤ range.1 ∧ range.1 ≤ range.2.1 := by
  induction words generalizing next with
  | nil => exact ⟨.nil, List.forall_mem_nil _⟩
  | cons word rest ih =>
    have here : next ≤ (readRange next 0 word).1 ∧
        (readRange next 0 word).1 ≤ (readRange next 0 word).2.1 := by
      rw [readRange_eq]
      exact ⟨Nat.le_add_right .., Nat.le_add_right ..⟩
    obtain ⟨apart, behind⟩ := ih ((readRange next 0 word).2.1 + 1)
    rw [rangesFrom, List.pairwise_cons, List.forall_mem_cons]
    refine ⟨⟨fun range mem => (behind range mem).1, apart⟩, here, fun range mem => ?_⟩
    have late := behind range mem
    omega

theorem ordered_ofText (text : String) : (ofText text).Ordered := by
  obtain ⟨apart, forward⟩ := rangesFrom_spec 0 (wordsFrom [] text.toList)
  rw [← toList_ofText] at apart forward
  exact ⟨apart, fun range mem => (forward range (Array.mem_toList_iff.2 mem)).2⟩

theorem Ordered.above {table : CharTable} (ordered : table.Ordered) {bound : Nat}
    (first : (table.entries.toList.head?.all fun range => decide (bound < range.1)) = true) :
    table.Above bound := by
  intro range mem
  obtain ⟨apart, forward⟩ := ordered
  rw [← Array.mem_toList_iff] at mem
  cases ranges : table.entries.toList with
  | nil =>
    rw [ranges] at mem
    cases mem
  | cons start rest =>
    rw [ranges] at apart first mem
    have late : bound < start.1 := of_decide_eq_true first
    rcases List.mem_cons.1 mem with rfl | later
    · exact late
    · have behind := (List.pairwise_cons.1 apart).1 range later
      have order := forward start (by rw [← Array.mem_toList_iff, ranges]; exact List.mem_cons_self ..)
      omega

/-! ### Numbers in ranges -/

/-- The numbers in ranges as the bits of one number. -/
def bits : List (Nat × Nat × List Char) → Nat
  | [] => 0
  | (start, stop, _) :: rest => (2 ^ (stop + 1 - start) - 1) <<< start ||| bits rest

theorem testBit_bits {ranges : List (Nat × Nat × List Char)} {n : Nat} :
    (bits ranges).testBit n = true ↔ ∃ range ∈ ranges, range.1 ≤ n ∧ n ≤ range.2.1 := by
  induction ranges with
  | nil => simp [bits]
  | cons range rest ih =>
    obtain ⟨start, stop, value⟩ := range
    rw [bits, Nat.testBit_or, Bool.or_eq_true, ih, Nat.testBit_shiftLeft, Nat.testBit_two_pow_sub_one,
      Bool.and_eq_true, decide_eq_true_iff, decide_eq_true_iff, List.exists_mem_cons_iff]
    apply or_congr_left
    change n ≥ start ∧ n - start < stop + 1 - start ↔ start ≤ n ∧ n ≤ stop
    omega

/-- What is in ranges is not in others, if the two have no number in common. -/
theorem testBit_eq_false_of_apart {numbers n : Nat} {ranges : List (Nat × Nat × List Char)}
    (apart : numbers &&& bits ranges = 0) {range : Nat × Nat × List Char} (mem : range ∈ ranges)
    (starts : range.1 ≤ n) (ends : n ≤ range.2.1) : numbers.testBit n = false := by
  have both := congrArg (·.testBit n) apart
  simp only [Nat.testBit_and, Nat.zero_testBit, testBit_bits.2 ⟨range, mem, starts, ends⟩,
    Bool.and_true] at both
  exact both

theorem testBit_entries {table : CharTable} {n : Nat} :
    (bits table.entries.toList).testBit n = true ↔ table.Covers n := by
  rw [testBit_bits]
  simp only [Array.mem_toList_iff, Covers]

def below (limit : Nat) (ranges : List (Nat × Nat × List Char)) : List (Nat × Nat × List Char) :=
  ranges.filter fun range => range.1 < limit

theorem testBit_below {table : CharTable} {limit n : Nat} (small : n < limit) :
    (bits (below limit table.entries.toList)).testBit n = true ↔ table.Covers n := by
  rw [testBit_bits]
  constructor
  · rintro ⟨range, mem, within⟩
    exact ⟨range, Array.mem_toList_iff.1 (List.mem_of_mem_filter mem), within⟩
  · rintro ⟨range, mem, within⟩
    refine ⟨range, List.mem_filter.2 ⟨Array.mem_toList_iff.2 mem, ?_⟩, within⟩
    exact decide_eq_true (Nat.lt_of_le_of_lt within.1 small)

end CharTable

end PetClient.Text
