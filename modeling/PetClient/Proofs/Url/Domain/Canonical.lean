import PetClient.Proofs.Text.Parts
import PetClient.Proofs.Url.Domain.Normal

/-!
The composed normal form.  Text in this form is taken apart into the same letters as the text that
it comes from, so that it is its own normal form, and so is each part of it between points.
-/

namespace PetClient.Url.Domain

open Text (CharTable splitAt)

/-! ### Marks in order -/

def place (text before : List Char) : List Char :=
  text.foldl (fun before c => placeMark c before) before

theorem place_append (text more before : List Char) :
    place (text ++ more) before = place more (place text before) :=
  List.foldl_append ..

theorem decompose_eq (text : List Char) :
    decompose text = (place (text.flatMap lettersOf) []).reverse :=
  rfl

def Follows (c before : Char) : Prop :=
  markClass c = 0 ∨ markClass before ≤ markClass c

theorem placeMark_cons_of_follows {c other : Char} (follows : Follows c other)
    (before : List Char) : placeMark c (other :: before) = c :: other :: before := by
  unfold Follows at follows
  rw [placeMark, if_neg]
  simp only [Bool.and_eq_true, bne_iff_ne, decide_eq_true_iff]
  omega

theorem placeMark_cons_of_smaller {c other : Char} (mark : markClass c ≠ 0)
    (smaller : markClass c < markClass other) (before : List Char) :
    placeMark c (other :: before) = other :: placeMark c before := by
  rw [placeMark, if_pos]
  simp only [Bool.and_eq_true, bne_iff_ne, decide_eq_true_iff]
  exact ⟨mark, smaller⟩

theorem placeMark_of_follows {c : Char} {before : List Char}
    (follows : ∀ d ∈ before.head?, Follows c d) : placeMark c before = c :: before := by
  cases before with
  | nil => rfl
  | cons d before => exact placeMark_cons_of_follows (follows d rfl) before

theorem follows_or_smaller (c other : Char) :
    Follows c other ∨ markClass c ≠ 0 ∧ markClass c < markClass other := by
  unfold Follows
  omega

theorem isChain_placeMark {before : List Char} (chain : before.IsChain Follows) (c : Char) :
    (placeMark c before).IsChain Follows ∧
      ∀ d ∈ (placeMark c before).head?, d = c ∨ d ∈ before.head? := by
  induction before with
  | nil => exact ⟨.singleton c, by simp [placeMark]⟩
  | cons other before ih =>
    rcases follows_or_smaller c other with follows | ⟨mark, smaller⟩
    · rw [placeMark_cons_of_follows follows]
      exact ⟨.cons_cons follows chain, by simp⟩
    · rw [placeMark_cons_of_smaller mark smaller]
      obtain ⟨front, rest⟩ := List.isChain_cons.1 chain
      obtain ⟨placed, head⟩ := ih rest
      refine ⟨List.isChain_cons.2 ⟨fun d first => ?_, placed⟩, by simp⟩
      rcases head d first with rfl | old
      · exact .inr (Nat.le_of_lt smaller)
      · exact front d old

theorem isChain_place {before : List Char} (chain : before.IsChain Follows) (text : List Char) :
    (place text before).IsChain Follows := by
  induction text generalizing before with
  | nil => exact chain
  | cons c text ih => exact ih (isChain_placeMark chain c).1

/-- A mark of a smaller class goes its own way. -/
theorem placeMark_comm {m c : Char} (mark : markClass m ≠ 0) (smaller : markClass m < markClass c)
    (before : List Char) :
    placeMark m (placeMark c before) = placeMark c (placeMark m before) := by
  have follows : Follows c m := .inr (Nat.le_of_lt smaller)
  induction before with
  | nil =>
    rw [placeMark, placeMark, placeMark_cons_of_smaller mark smaller,
      placeMark_cons_of_follows follows, placeMark]
  | cons other before ih =>
    rcases follows_or_smaller c other with behind | ⟨mark_c, smaller_c⟩
    · rw [placeMark_cons_of_follows behind, placeMark_cons_of_smaller mark smaller]
      symm
      apply placeMark_of_follows
      intro d first
      rcases follows_or_smaller m other with behind_m | ⟨-, smaller_m⟩
      · rw [placeMark_cons_of_follows behind_m] at first
        cases first
        exact follows
      · rw [placeMark_cons_of_smaller mark smaller_m] at first
        cases first
        exact behind
    · have smaller_m := Nat.lt_trans smaller smaller_c
      rw [placeMark_cons_of_smaller mark_c smaller_c, placeMark_cons_of_smaller mark smaller_m,
        placeMark_cons_of_smaller mark smaller_m, placeMark_cons_of_smaller mark_c smaller_c, ih]

theorem place_placeMark {c : Char} {marks : List Char}
    (smaller : ∀ m ∈ marks, markClass m ≠ 0 ∧ markClass m < markClass c) (before : List Char) :
    place marks (placeMark c before) = placeMark c (place marks before) := by
  induction marks generalizing before with
  | nil => rfl
  | cons m marks ih =>
    obtain ⟨⟨mark, less⟩, rest⟩ := List.forall_mem_cons.1 smaller
    change place marks (placeMark m (placeMark c before)) = _
    rw [placeMark_comm mark less, ih rest]
    rfl

/-! ### Composed text -/

theorem flatMap_lettersOf {text : List Char} (letters : ∀ c ∈ text, IsLetter c) :
    text.flatMap lettersOf = text := by
  induction text with
  | nil => rfl
  | cons c text ih =>
    obtain ⟨letter, rest⟩ := List.forall_mem_cons.1 letters
    rw [List.flatMap_cons, ih rest, show lettersOf c = [c] from letter.decomposeChar_eq 8]
    rfl

namespace Composing

/-- Whether composed text consists of letters, in their order and reversed, with the marks behind
its base in order. -/
structure Holds (s : Composing) (letters : List Char) : Prop where
  place_close : place (s.close.reverse.flatMap lettersOf) [] = letters
  marks : ∀ m ∈ s.marks, IsLetter m ∧ markClass m ≠ 0 ∧ ∃ d ∈ letters.head?, markClass m ≤ markClass d
  ordered : s.marks.Pairwise fun later earlier => markClass earlier ≤ markClass later

theorem holds_start : Holds {} [] :=
  ⟨rfl, List.forall_mem_nil _, .nil⟩

/-- A letter that reaches the base passes marks of smaller classes alone. -/
theorem Holds.smaller {s : Composing} {letters : List Char} (holds : s.Holds letters) {c : Char}
    (within : s.reaches c = true) :
    ∀ m ∈ s.marks, markClass m ≠ 0 ∧ markClass m < markClass c := by
  intro m mem
  refine ⟨(holds.marks m mem).2.1, ?_⟩
  have ordered := holds.ordered
  unfold reaches at within
  cases stack : s.marks with
  | nil =>
    rw [stack] at mem
    cases mem
  | cons top others =>
    rw [stack] at within ordered mem
    have below : markClass top < markClass c := of_decide_eq_true within
    rcases List.mem_cons.1 mem with rfl | other
    · exact below
    · exact Nat.lt_of_le_of_lt ((List.pairwise_cons.1 ordered).1 m other) below

/-- A mark that follows the letters is of no smaller class than the marks before it. -/
theorem Holds.below {s : Composing} {letters : List Char} (holds : s.Holds letters) {c : Char}
    (mark : markClass c ≠ 0) (follows : ∀ d ∈ letters.head?, Follows c d) :
    ∀ m ∈ s.marks, markClass m ≤ markClass c := by
  intro m mem
  obtain ⟨-, -, d, first, less⟩ := holds.marks m mem
  rcases follows d first with starter | after
  · exact (mark starter).elim
  · exact Nat.le_trans less after

theorem Holds.add {s : Composing} {letters : List Char} (holds : s.Holds letters) {c : Char}
    (letter : IsLetter c) (follows : ∀ d ∈ letters.head?, Follows c d) :
    (s.add c).Holds (c :: letters) := by
  have place_close := holds.place_close
  rcases s.add_cases c with ⟨base, composed, within, known, joined, added⟩ | ⟨behind, added⟩
  · have smaller := holds.smaller within
    rw [added]
    refine ⟨?_, ?_, holds.ordered⟩
    · have own : s.marks.reverse.flatMap lettersOf = s.marks.reverse :=
        flatMap_lettersOf fun m mem => (holds.marks m (List.mem_reverse.1 mem)).1
      simp only [close, known, Option.toList_some, List.reverse_append, List.reverse_cons,
        List.reverse_nil, List.nil_append, List.flatMap_append, List.flatMap_cons, List.flatMap_nil,
        List.append_nil, own, lettersOf_of_compose? letter joined, place_append] at place_close ⊢
      change place s.marks.reverse (placeMark c _) = _
      rw [place_placeMark fun m mem => smaller m (List.mem_reverse.1 mem), place_close]
      exact placeMark_of_follows follows
    · intro m mem
      obtain ⟨own, mark, -⟩ := holds.marks m mem
      exact ⟨own, mark, c, rfl, Nat.le_of_lt (smaller m mem).2⟩
  · have place_added : place ((s.add c).close.reverse.flatMap lettersOf) [] = c :: letters := by
      have own : [c].flatMap lettersOf = [c] := flatMap_lettersOf (by simpa)
      rw [behind, List.reverse_cons, List.flatMap_append, own, place_append, place_close]
      exact placeMark_of_follows follows
    rcases added with ⟨base, added⟩ | ⟨mark, added⟩
    · rw [added] at place_added ⊢
      exact ⟨place_added, List.forall_mem_nil _, .nil⟩
    · rw [added] at place_added ⊢
      have below := holds.below mark follows
      refine ⟨place_added, List.forall_mem_cons.2 ⟨⟨letter, mark, c, rfl, Nat.le_refl _⟩, ?_⟩,
        List.pairwise_cons.2 ⟨below, holds.ordered⟩⟩
      intro m mem
      obtain ⟨own, mark_m, -⟩ := holds.marks m mem
      exact ⟨own, mark_m, c, rfl, below m mem⟩

theorem Holds.foldl_add {s : Composing} {letters text : List Char} (holds : s.Holds letters)
    (all : ∀ c ∈ text, IsLetter c) (chain : (text.reverse ++ letters).IsChain Follows) :
    (text.foldl Composing.add s).Holds (text.reverse ++ letters) := by
  induction text generalizing s letters with
  | nil => exact holds
  | cons c text ih =>
    obtain ⟨letter, rest⟩ := List.forall_mem_cons.1 all
    rw [List.reverse_cons, List.append_assoc] at chain ⊢
    have here := (List.isChain_append.1 chain).2.1
    exact ih (holds.add letter (List.isChain_cons.1 here).1) rest chain

end Composing

theorem isLetter_of_mem_decompose {c : Char} {text : List Char} (mem : c ∈ decompose text) :
    IsLetter c := by
  rw [decompose_eq, List.mem_reverse] at mem
  rcases mem_foldl_placeMark.1 mem with listed | none
  · obtain ⟨d, -, mem⟩ := List.mem_flatMap.1 listed
    exact isLetter_of_mem_lettersOf mem
  · cases none

/-- Text is taken apart into the same letters as its normal form. -/
theorem decompose_normalize (text : List Char) : decompose (normalize text) = decompose text := by
  have chain : ((decompose text).reverse ++ []).IsChain Follows := by
    rw [decompose_eq, List.reverse_reverse, List.append_nil]
    exact isChain_place .nil _
  have holds := Composing.holds_start.foldl_add (fun c => isLetter_of_mem_decompose) chain
  rw [decompose_eq (normalize text), normalize, holds.place_close, List.append_nil,
    List.reverse_reverse]

theorem normalize_normalize (text : List Char) : normalize (normalize text) = normalize text := by
  rw [normalize, decompose_normalize]
  rfl

/-! ### Which characters are composed -/

theorem forall_mem_normalize {p : Char → Prop}
    (apart : ∀ {c d}, p c → d ∈ lettersOf c → p d)
    (joined : ∀ {a b c}, p a → p b → compose? a b = some c → p c)
    {text : List Char} (all : ∀ c ∈ text, p c) : ∀ c ∈ normalize text, p c := by
  have composed (letters : List Char) (s : Composing) (all : ∀ c ∈ letters, p c)
      (before : ∀ c ∈ s.close, p c) : ∀ c ∈ (letters.foldl Composing.add s).close, p c := by
    induction letters generalizing s with
    | nil => exact before
    | cons d letters ih =>
      obtain ⟨holds, rest⟩ := List.forall_mem_cons.1 all
      refine ih (s.add d) rest fun c mem => ?_
      rcases s.add_cases d with ⟨base, composed, -, known, whole, added⟩ | ⟨behind, -⟩
      · have old : p base := before base (by simp [Composing.close, known])
        rw [added] at mem
        simp only [Composing.close, Option.toList_some, List.mem_append, List.mem_singleton] at mem
        rcases mem with (mark | rfl) | finished
        · exact before c (by simp [Composing.close, mark])
        · exact joined old holds whole
        · exact before c (by simp [Composing.close, finished])
      · rw [behind, List.mem_cons] at mem
        rcases mem with rfl | old
        · exact holds
        · exact before c old
  intro c mem
  rw [normalize, List.mem_reverse] at mem
  refine composed _ _ (fun d mem_d => ?_) (List.forall_mem_nil _) c mem
  rw [decompose_eq, List.mem_reverse] at mem_d
  rcases mem_foldl_placeMark.1 mem_d with listed | none
  · obtain ⟨whole, mem_text, letter⟩ := List.mem_flatMap.1 listed
    exact apart (all whole mem_text) letter
  · cases none

theorem plain_normalize {text : List Char} (plain : ∀ c ∈ text, Plain c) :
    ∀ c ∈ normalize text, Plain c :=
  forall_mem_normalize (fun plain mem => plain_of_mem_decomposeChar plain mem) plain_of_compose? plain

theorem not_mem_normalize {text : List Char} (free : '.' ∉ text) : '.' ∉ normalize text := by
  intro mem
  refine forall_mem_normalize (p := (· ≠ '.')) (fun other mem => ?_) (fun _ _ composed => ?_)
    (fun c mem => ?_) '.' mem rfl
  · rcases isSign_of_mem_decomposeChar mem with rfl | sign
    · exact other
    · exact sign.2
  · exact (isSign_of_late (late_of_compose? composed).2.2).2
  · rintro rfl
    exact free mem

/-! ### Text in ASCII and points -/

section Classes

set_option maxRecDepth 100000

theorem markClasses_above : markClasses.Above 0x7F := by
  refine (CharTable.ordered_ofText _).above ?_
  rw [CharTable.toList_ofText, show (String.toList _) = _ from String.toList_ofList]
  decide +kernel

end Classes

theorem markClass_of_ascii {c : Char} (ascii : c.toNat < 0x80) : markClass c = 0 := by
  unfold markClass
  rw [CharTable.find?_eq_none (markClasses_above.not_covers (Nat.le_of_lt_succ ascii))]
  rfl

/-- What is no mark and is not composed stands behind the text so far. -/
theorem Composing.close_foldl_of_ascii {text : List Char} (ascii : ∀ c ∈ text, c.toNat < 0x80)
    (s : Composing) : (text.foldl Composing.add s).close = text.reverse ++ s.close := by
  induction text generalizing s with
  | nil => rfl
  | cons c text ih =>
    obtain ⟨low, rest⟩ := List.forall_mem_cons.1 ascii
    rw [List.foldl_cons, ih rest, List.reverse_cons, List.append_assoc]
    rcases s.add_cases c with ⟨base, composed, -, -, joined, -⟩ | ⟨behind, -⟩
    · have late := (late_of_compose? joined).2.1
      omega
    · rw [behind]
      rfl

theorem follows_of_ascii {c : Char} (ascii : c.toNat < 0x80) (before : Char) : Follows c before :=
  .inl (markClass_of_ascii ascii)

theorem normalize_of_ascii {text : List Char} (ascii : ∀ c ∈ text, c.toNat < 0x80) :
    normalize text = text := by
  have letters : text.flatMap lettersOf = text :=
    flatMap_lettersOf fun c mem => isLetter_of_ascii (ascii c mem)
  have placed (before : List Char) : place text before = text.reverse ++ before := by
    clear letters
    induction text generalizing before with
    | nil => rfl
    | cons c text ih =>
      obtain ⟨low, rest⟩ := List.forall_mem_cons.1 ascii
      change place text (placeMark c before) = _
      rw [placeMark_of_follows fun d _ => follows_of_ascii low d, ih rest, List.reverse_cons,
        List.append_assoc]
      rfl
  rw [normalize, decompose_eq, letters, placed, List.append_nil, List.reverse_reverse,
    Composing.close_foldl_of_ascii ascii]
  simp [Composing.close]

theorem place_point (text before front : List Char) :
    place text (before ++ '.' :: front) = place text before ++ '.' :: front := by
  have point : markClass '.' = 0 := markClass_of_ascii (by decide)
  have one (c : Char) (before : List Char) :
      placeMark c (before ++ '.' :: front) = placeMark c before ++ '.' :: front := by
    induction before with
    | nil => exact placeMark_cons_of_follows (.inr (by rw [point]; exact Nat.zero_le _)) front
    | cons d before ih =>
      rcases follows_or_smaller c d with follows | ⟨mark, smaller⟩
      · rw [List.cons_append, placeMark_cons_of_follows follows,
          placeMark_cons_of_follows follows]
        rfl
      · rw [List.cons_append, placeMark_cons_of_smaller mark smaller,
          placeMark_cons_of_smaller mark smaller, ih]
        rfl
  induction text generalizing before with
  | nil => rfl
  | cons c text ih =>
    change place text (placeMark c (before ++ '.' :: front)) = _
    rw [one, ih]
    rfl

theorem decompose_point (front rest : List Char) :
    decompose (front ++ '.' :: rest) = decompose front ++ '.' :: decompose rest := by
  have point : lettersOf '.' = ['.'] := lettersOf_of_ascii (by decide)
  have placed (before : List Char) : place ['.'] before = '.' :: before :=
    placeMark_of_follows fun d _ => follows_of_ascii (by decide) d
  rw [decompose_eq, List.flatMap_append, List.flatMap_cons, point, place_append, place_append,
    placed, ← List.nil_append ('.' :: _), place_point, List.reverse_append, List.reverse_cons,
    List.append_assoc]
  rfl

namespace Composing

/-- Whether text is composed behind a point as it is without anything in front of it. -/
def Behind (front : List Char) (s t : Composing) : Prop :=
  t.marks = s.marks ∧
    (s.base = none ∧ s.finished = [] ∧ t.base = some '.' ∧ t.finished = front ∨
      ∃ base, s.base = some base ∧ t.base = some base ∧ t.finished = s.finished ++ '.' :: front)

theorem Behind.close {front : List Char} {s t : Composing} (behind : Behind front s t) :
    t.close = s.close ++ '.' :: front := by
  obtain ⟨marks, ⟨none, nothing, base, finished⟩ | ⟨base, known, same, finished⟩⟩ := behind
  · simp [Composing.close, *]
  · simp [Composing.close, *]

theorem Behind.add {front : List Char} {s t : Composing} (behind : Behind front s t) (c : Char) :
    Behind front (s.add c) (t.add c) := by
  have close := behind.close
  obtain ⟨marks, bases⟩ := behind
  have point : compose? '.' c = none := by
    cases composed : compose? '.' c with
    | none => rfl
    | some whole => exact ((late_of_compose? composed).1.2 rfl).elim
  -- Nothing is composed with a point, as nothing is when there is no base.
  have same : t.joined c = s.joined c ∧
      (s.joined c = none ∨ t.finished = s.finished ++ '.' :: front) := by
    unfold joined reaches
    rw [marks]
    rcases bases with ⟨none, nothing, base, finished⟩ | ⟨base, known, same, finished⟩
    · rw [none, base, Option.bind_none, Option.bind_some, point, ite_self]
      exact ⟨rfl, .inl rfl⟩
    · rw [known, same]
      exact ⟨rfl, .inr finished⟩
  obtain ⟨same, apart⟩ := same
  cases joins : s.joined c with
  | some whole =>
    rw [add_of_joined joins, add_of_joined (same.trans joins)]
    exact ⟨marks, .inr ⟨whole, rfl, rfl, apart.resolve_left (by simp [joins])⟩⟩
  | none =>
    by_cases starter : markClass c = 0
    · rw [add_starter joins starter, add_starter (same.trans joins) starter]
      exact ⟨rfl, .inr ⟨c, rfl, rfl, close⟩⟩
    · rw [add_mark joins starter, add_mark (same.trans joins) starter]
      exact ⟨congrArg (c :: ·) marks, bases⟩

end Composing

theorem normalize_point (front rest : List Char) :
    normalize (front ++ '.' :: rest) = normalize front ++ '.' :: normalize rest := by
  have point : markClass '.' = 0 := markClass_of_ascii (by decide)
  have behind (text : List Char) (s t : Composing) {front : List Char}
      (behind : Composing.Behind front s t) :
      Composing.Behind front (text.foldl Composing.add s) (text.foldl Composing.add t) := by
    induction text generalizing s t with
    | nil => exact behind
    | cons c text ih => exact ih _ _ (behind.add c)
  let s := (decompose front).foldl Composing.add {}
  have start : Composing.Behind s.close {} (s.add '.') := by
    rcases s.add_cases '.' with ⟨base, composed, -, -, joined, -⟩ | ⟨-, ⟨-, added⟩ | ⟨mark, -⟩⟩
    · exact absurd (late_of_compose? joined).2.1 (by decide)
    · rw [added]
      exact ⟨rfl, .inl ⟨rfl, rfl, rfl, rfl⟩⟩
    · exact (mark point).elim
  have whole := (behind (decompose rest) _ _ start).close
  rw [normalize, decompose_point, List.foldl_append, List.foldl_cons]
  change (List.foldl _ (s.add '.') _).close.reverse = _
  rw [whole, List.reverse_append, List.reverse_cons, List.append_assoc]
  rfl

theorem splitAt_normalize (text : List Char) :
    splitAt '.' (normalize text) = (splitAt '.' text).map normalize := by
  by_cases point : '.' ∈ text
  · obtain ⟨front, rest, rfl⟩ := List.append_of_mem point
    rw [normalize_point, Text.splitAt_append, Text.splitAt_append, List.map_append,
      splitAt_normalize front, splitAt_normalize rest]
  · rw [Text.splitAt_of_not_mem point, Text.splitAt_of_not_mem (not_mem_normalize point)]
    rfl
termination_by text.length
decreasing_by
  all_goals
    rename_i same
    subst same
    simp only [List.length_append, List.length_cons]
    omega

/-- The parts of a normal form between points are in normal form. -/
theorem normalize_of_mem_splitAt {text part : List Char} (normal : normalize text = text)
    (mem : part ∈ splitAt '.' text) : normalize part = part := by
  have parts := splitAt_normalize text
  rw [normal] at parts
  have same : (splitAt '.' text).map normalize = (splitAt '.' text).map id := by
    rw [← parts, List.map_id]
  exact List.map_inj_left.1 same part mem

end PetClient.Url.Domain
