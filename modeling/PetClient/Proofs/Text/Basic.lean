import Mathlib
import PetClient.Text.Basic

/-!
Parts of text: which characters and parts come out of splitting, joining and partial maps.
-/

namespace PetClient.Text

variable {α β : Type} {f : α → Option β} {p : α → Bool}

theorem takeWhile_append_stop (front rest : List α) {a : α} (stop : p a = false) :
    (front ++ a :: rest).takeWhile p = front.takeWhile p := by
  induction front with
  | nil => rw [List.nil_append, List.takeWhile_cons, stop, List.takeWhile_nil]; rfl
  | cons b front ih =>
    rw [List.cons_append, List.takeWhile_cons, List.takeWhile_cons, ih]

theorem dropWhile_append_stop (front rest : List α) {a : α} (stop : p a = false) :
    (front ++ a :: rest).dropWhile p = front.dropWhile p ++ a :: rest := by
  induction front with
  | nil => rw [List.nil_append, List.dropWhile_cons, stop, List.dropWhile_nil]; rfl
  | cons b front ih =>
    rw [List.cons_append, List.dropWhile_cons, List.dropWhile_cons, ih]
    split <;> rfl

theorem takeWhile_append_of_ends {front rest : List α} (pass : ∀ a ∈ front, p a = true)
    (ends : ∀ a ∈ rest.head?, p a = false) : (front ++ rest).takeWhile p = front := by
  rw [List.takeWhile_append_of_pos pass]
  cases rest with
  | nil => exact List.append_nil _
  | cons a others =>
    rw [List.takeWhile_cons, ends a rfl]
    exact List.append_nil _

theorem dropWhile_append_of_ends {front rest : List α} (pass : ∀ a ∈ front, p a = true)
    (ends : ∀ a ∈ rest.head?, p a = false) : (front ++ rest).dropWhile p = rest := by
  have whole := List.takeWhile_append_dropWhile (p := p) (l := front ++ rest)
  rw [takeWhile_append_of_ends pass ends] at whole
  exact List.append_cancel_left whole

theorem dropWhile_eq_self {items : List α} (none : ∀ a ∈ items, p a = false) :
    items.dropWhile p = items := by
  rw [List.dropWhile_eq_self_iff]
  intro size
  rw [none _ (List.getElem_mem size)]
  exact Bool.false_ne_true

theorem mapM_cons_eq_some {a : α} {rest : List α} {results : List β} :
    (a :: rest).mapM f = some results ↔
      ∃ b others, f a = some b ∧ rest.mapM f = some others ∧ results = b :: others := by
  rw [List.mapM_cons]
  constructor
  · intro maps
    obtain ⟨b, first, maps⟩ := Option.bind_eq_some_iff.1 maps
    obtain ⟨others, later, maps⟩ := Option.bind_eq_some_iff.1 maps
    exact ⟨b, others, first, later, (Option.some.inj maps).symm⟩
  · rintro ⟨b, others, first, later, rfl⟩
    rw [first, later]
    rfl

theorem mapM_eq_some_iff {items : List α} {results : List β} :
    items.mapM f = some results ↔ List.Forall₂ (fun a b => f a = some b) items results := by
  induction items generalizing results with
  | nil => simp [eq_comm]
  | cons a rest ih =>
    rw [mapM_cons_eq_some, List.forall₂_cons_left_iff]
    simp only [ih]

theorem forall_bne_of_not_mem {text : List Char} {sign : Char} (free : sign ∉ text) :
    ∀ c ∈ text, (c != sign) = true := by
  intro c mem
  rw [bne_iff_ne]
  rintro rfl
  exact free mem

theorem exists_result_of_mapM {items : List α} {results : List β}
    (maps : items.mapM f = some results) {a : α} (mem : a ∈ items) :
    ∃ b ∈ results, f a = some b := by
  induction items generalizing results with
  | nil => cases mem
  | cons first rest ih =>
    obtain ⟨b, others, here, later, rfl⟩ := mapM_cons_eq_some.1 maps
    rcases List.mem_cons.1 mem with rfl | mem_rest
    · exact ⟨b, List.mem_cons_self .., here⟩
    · obtain ⟨result, mem_others, found⟩ := ih later mem_rest
      exact ⟨result, List.mem_cons_of_mem _ mem_others, found⟩

theorem exists_source_of_mapM {items : List α} {results : List β}
    (maps : items.mapM f = some results) {b : β} (mem : b ∈ results) :
    ∃ a ∈ items, f a = some b := by
  induction items generalizing results with
  | nil =>
    cases Option.some.inj maps
    cases mem
  | cons first rest ih =>
    obtain ⟨next, others, here, later, rfl⟩ := mapM_cons_eq_some.1 maps
    rcases List.mem_cons.1 mem with rfl | mem_others
    · exact ⟨first, List.mem_cons_self .., here⟩
    · obtain ⟨source, mem_rest, found⟩ := ih later mem_others
      exact ⟨source, List.mem_cons_of_mem _ mem_rest, found⟩

theorem exists_part_of_mem {separator c : Char} {text : List Char} (other : c ≠ separator)
    (mem : c ∈ text) : ∃ part ∈ splitAt separator text, c ∈ part := by
  induction text with
  | nil => cases mem
  | cons d rest ih =>
    unfold splitAt
    by_cases ends : d = separator
    · rw [if_pos ends]
      rcases List.mem_cons.1 mem with rfl | later
      · exact absurd ends other
      · obtain ⟨part, mem_parts, mem_part⟩ := ih later
        exact ⟨part, List.mem_cons_of_mem _ mem_parts, mem_part⟩
    · rw [if_neg ends]
      cases parts : splitAt separator rest with
      | nil =>
        rcases List.mem_cons.1 mem with rfl | later
        · exact ⟨[c], List.mem_singleton_self _, List.mem_singleton_self _⟩
        · obtain ⟨part, mem_parts, -⟩ := ih later
          rw [parts] at mem_parts
          cases mem_parts
      | cons first others =>
        rcases List.mem_cons.1 mem with rfl | later
        · exact ⟨c :: first, List.mem_cons_self .., List.mem_cons_self ..⟩
        · obtain ⟨part, mem_parts, mem_part⟩ := ih later
          rw [parts] at mem_parts
          rcases List.mem_cons.1 mem_parts with rfl | mem_others
          · exact ⟨d :: part, List.mem_cons_self .., List.mem_cons_of_mem _ mem_part⟩
          · exact ⟨part, List.mem_cons_of_mem _ mem_others, mem_part⟩

theorem mem_intercalate {separator c : Char} {parts : List (List Char)}
    (mem : c ∈ List.intercalate [separator] parts) :
    c = separator ∨ ∃ part ∈ parts, c ∈ part := by
  induction parts with
  | nil => cases mem
  | cons first others ih =>
    cases others with
    | nil =>
      rw [List.intercalate_singleton] at mem
      exact .inr ⟨first, List.mem_singleton_self _, mem⟩
    | cons next rest =>
      rw [List.intercalate_cons_cons, List.mem_append, List.mem_append, List.mem_singleton] at mem
      rcases mem with (here | sign) | later
      · exact .inr ⟨first, List.mem_cons_self .., here⟩
      · exact .inl sign
      · rcases ih later with sign | ⟨part, mem_parts, mem_part⟩
        · exact .inl sign
        · exact .inr ⟨part, List.mem_cons_of_mem _ mem_parts, mem_part⟩

theorem intercalate_cons (separator : Char) (first : List Char) (others : List (List Char)) :
    List.intercalate [separator] (first :: others) =
      first ++ others.flatMap (separator :: ·) := by
  induction others generalizing first with
  | nil => simp
  | cons next rest ih =>
    rw [List.intercalate_cons_cons, ih, List.flatMap_cons, List.append_assoc]
    rfl

/-! ### Trimming -/

theorem trimEnd_subset (c : Char) (text : List Char) : trimEnd c text ⊆ text := by
  intro d mem
  exact List.mem_reverse.1 ((List.dropWhile_suffix _).subset (List.mem_reverse.1 mem))

theorem getLast?_trimEnd (c : Char) (text : List Char) : (trimEnd c text).getLast? ≠ some c := by
  unfold trimEnd
  rw [List.getLast?_reverse]
  intro ends
  have stops := List.head?_dropWhile_not (fun d => decide (d = c)) text.reverse
  rw [ends] at stops
  simp at stops

theorem trimEnd_append_replicate (c : Char) (text : List Char) (count : Nat) :
    trimEnd c (text ++ List.replicate count c) = trimEnd c text := by
  unfold trimEnd
  rw [List.reverse_append, List.reverse_replicate, List.dropWhile_append_of_pos]
  intro d mem
  exact decide_eq_true (List.eq_of_mem_replicate mem)

/-! ### Properties of characters -/

section Characters

variable {q : Char → Prop} [DecidablePred q] {c : Char}

/-- A property of some characters can be checked one by one. -/
theorem forall_of_all {signs : List Char} (all : (signs.all fun c => decide (q c)) = true) :
    ∀ c ∈ signs, q c :=
  fun c mem => of_decide_eq_true (List.all_eq_true.1 all c mem)

theorem forall_ascii {count : Nat}
    (all : ((List.range count).all fun n => decide (q (Char.ofNat n))) = true)
    (ascii : c.toNat < count) : q c := by
  have holds := List.all_eq_true.1 all c.toNat (List.mem_range.2 ascii)
  rw [Char.ofNat_toNat] at holds
  exact of_decide_eq_true holds

theorem forall_digit
    (all : (['0', '1', '2', '3', '4', '5', '6', '7', '8', '9'].all fun c => decide (q c)) = true)
    (digit : c.isDigit = true) : q c := by
  have listed : c ∈ ['0', '1', '2', '3', '4', '5', '6', '7', '8', '9'] :=
    forall_ascii (q := fun c => c.isDigit = true → c ∈ _) (by decide)
      (Nat.lt_succ_of_le (Char.isDigit_iff_toNat.1 digit).2) digit
  exact forall_of_all all c listed

end Characters

/-! ### Decimal digits -/

theorem isDigit_of_mem_toDigits {n : Nat} {c : Char} (mem : c ∈ Nat.toDigits 10 n) :
    c.isDigit = true :=
  Nat.isDigit_of_mem_toDigits (by decide) (by decide) mem

theorem all_isDigit_toDigits (n : Nat) : (Nat.toDigits 10 n).all Char.isDigit = true :=
  List.all_eq_true.2 fun _ => isDigit_of_mem_toDigits

theorem isDigit_of_mem_toString {n : Nat} {c : Char} (mem : c ∈ (toString n).toList) :
    c.isDigit = true := by
  rw [Nat.toString_eq_repr, Nat.toList_repr] at mem
  exact isDigit_of_mem_toDigits mem

end PetClient.Text
