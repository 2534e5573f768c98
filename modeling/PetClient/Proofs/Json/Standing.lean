import PetClient.Proofs.Json.Tree

/-!
Where the bytes of a text stand: outside of strings or in them.  A value begins and ends with bytes
that are no blanks, and outside of strings it holds no form feed.
-/

namespace PetClient.Json

inductive Standing
  | outside
  | inside
  | escaped
  deriving DecidableEq, Repr

def Standing.next : Standing → UInt8 → Standing
  | outside, b => if b = 0x22 then inside else outside
  | inside, b => if b = 0x22 then outside else if b = 0x5C then escaped else inside
  | escaped, _ => inside

def HasStrayFeed (text : Bytes) : Prop :=
  ∃ front back, text = front ++ 0x0C :: back ∧ front.foldl Standing.next .outside = .outside

/-- A stretch of text from one standing to another, with no form feed outside of strings. -/
inductive Clean : Standing → Bytes → Standing → Prop
  | nil {here : Standing} : Clean here [] here
  | cons {here last : Standing} {b : UInt8} {rest : Bytes} (free : here = .outside → b ≠ 0x0C)
      (clean : Clean (here.next b) rest last) : Clean here (b :: rest) last

namespace Clean

variable {here next last : Standing}

theorem append {first second : Bytes} (clean : Clean here first next)
    (clean' : Clean next second last) : Clean here (first ++ second) last := by
  induction clean with
  | nil => exact clean'
  | cons free _ ih => exact .cons free (ih clean')

theorem standing_ne_outside {front back : Bytes} (clean : Clean here (front ++ 0x0C :: back) last) :
    front.foldl Standing.next here ≠ .outside := by
  induction front generalizing here with
  | nil =>
    cases clean with
    | cons free _ => exact fun outside => free outside rfl
  | cons b front ih =>
    cases clean with
    | cons _ clean => exact ih clean

theorem no_stray {text : Bytes} (clean : Clean .outside text last) : ¬HasStrayFeed text := by
  rintro ⟨front, back, rfl, outside⟩
  exact clean.standing_ne_outside outside

theorem of_outside {text : Bytes} (free : ∀ b ∈ text, b ≠ 0x22 ∧ b ≠ 0x0C) :
    Clean .outside text .outside := by
  induction text with
  | nil => exact .nil
  | cons b text ih =>
    obtain ⟨⟨noQuote, noFeed⟩, free⟩ := List.forall_mem_cons.1 free
    have stays : Standing.outside.next b = .outside := if_neg noQuote
    exact .cons (fun _ => noFeed) (by rw [stays]; exact ih free)

theorem of_plain {text : Bytes} (plain : ∀ b ∈ text, isPlain b = true) :
    Clean .inside text .inside := by
  induction text with
  | nil => exact .nil
  | cons b text ih =>
    obtain ⟨itself, plain⟩ := List.forall_mem_cons.1 plain
    have signs : b ≠ 0x22 ∧ b ≠ 0x5C := by
      constructor
      · rintro rfl
        exact absurd itself (by decide)
      · rintro rfl
        exact absurd itself (by decide)
    have stays : Standing.inside.next b = .inside := by
      simp only [Standing.next, signs, ↓reduceIte]
    exact .cons nofun (by rw [stays]; exact ih plain)

end Clean

/-! ### Strings -/

theorem IsUnit.plain {digits : Bytes} {unit : Nat} (written : IsUnit digits unit) :
    ∀ b ∈ digits, isPlain b = true := by
  have plain {b : UInt8} {n : Nat} (value : hexValue? b = some n) : isPlain b = true := by
    have bounds := (bounds_of_hexValue value).2
    rw [isPlain_iff]
    omega
  obtain ⟨a, b, c, d, i, j, k, l, rfl, first, second, third, fourth, -⟩ := written
  simp only [List.forall_mem_cons]
  exact ⟨plain first, plain second, plain third, plain fourth, nofun⟩

theorem IsString.clean {bytes : Bytes} (isString : IsString bytes) :
    Clean .inside bytes .outside := by
  induction isString with
  | close => exact .cons nofun .nil
  | plain itself _ ih => exact (Clean.of_plain (List.forall_mem_singleton.2 itself)).append ih
  | letter _ _ ih => exact .cons nofun (.cons nofun ih)
  | unit written _ ih => exact .cons nofun (.cons nofun ((Clean.of_plain written.plain).append ih))

theorem IsString.ends {bytes : Bytes} (isString : IsString bytes) :
    ∃ front, bytes = front ++ [0x22] := by
  induction isString with
  | close => exact ⟨[], rfl⟩
  | @plain b _ _ _ ih =>
    obtain ⟨front, rfl⟩ := ih
    exact ⟨b :: front, rfl⟩
  | @letter b _ _ _ _ ih =>
    obtain ⟨front, rfl⟩ := ih
    exact ⟨0x5C :: b :: front, rfl⟩
  | @unit digits _ _ _ _ ih =>
    obtain ⟨front, rfl⟩ := ih
    exact ⟨0x5C :: 0x75 :: (digits ++ front), by simp⟩

/-! ### Blanks and numbers -/

def isSolid (b : UInt8) : Bool :=
  !isBlank b && b != 0x22 && b != 0x0C

theorem isSolid_of_isDigit {b : UInt8} (digit : isDigit b = true) : isSolid b = true :=
  of_isDigit digit (by decide)

theorem IsNumber.solid {bytes : Bytes} (isNumber : IsNumber bytes) :
    ∀ b ∈ bytes, isSolid b = true := by
  have digits {bytes : Bytes} (areDigits : AreDigits bytes) : ∀ b ∈ bytes, isSolid b = true :=
    fun b mem => isSolid_of_isDigit (areDigits b mem)
  obtain ⟨isWhole, isFraction, isPower⟩ := isNumber
  simp only [List.forall_mem_append]
  refine ⟨?_, ?_, ?_⟩
  · cases isWhole with
    | zero => exact List.forall_mem_singleton.2 rfl
    | digits digit _ areDigits => exact digits (List.forall_mem_cons.2 ⟨digit, areDigits⟩)
  · cases isFraction with
    | none => exact nofun
    | digits _ areDigits => exact List.forall_mem_cons.2 ⟨rfl, digits areDigits⟩
  · cases isPower with
    | none => exact nofun
    | digits letter signed _ areDigits =>
      rw [List.forall_mem_cons, List.forall_mem_append]
      refine ⟨?_, ?_, digits areDigits⟩
      · rcases letter with rfl | rfl <;> rfl
      · rcases signed with rfl | rfl | rfl
        · exact nofun
        · exact List.forall_mem_singleton.2 rfl
        · exact List.forall_mem_singleton.2 rfl

theorem clean_of_solid {bytes : Bytes} (solid : ∀ b ∈ bytes, isSolid b = true) :
    Clean .outside bytes .outside :=
  .of_outside fun b mem => by
    have solid_b := solid b mem
    simp only [isSolid, Bool.and_eq_true, bne_iff_ne] at solid_b
    exact ⟨solid_b.1.2, solid_b.2⟩

theorem Blank.clean {bytes : Bytes} (blank : Blank bytes) : Clean .outside bytes .outside := by
  refine .of_outside fun b mem => ?_
  have isBlank_b := blank b mem
  constructor
  · rintro rfl
    exact absurd isBlank_b (by decide)
  · rintro rfl
    exact absurd isBlank_b (by decide)

/-! ### Values -/

theorem clean_pieces {ι : Type} {piece : ι → Bytes} {items : List ι}
    (clean : ∀ i ∈ items, Clean .outside (piece i) .outside) (first : Bool) :
    Clean .outside (piecesFrom piece first items) .outside := by
  induction items generalizing first with
  | nil => exact .nil
  | cons i items ih =>
    obtain ⟨clean_i, clean⟩ := List.forall_mem_cons.1 clean
    have both := clean_i.append (ih clean false)
    cases first with
    | true => exact both
    | false => exact .cons (fun _ => by decide) both

theorem Spaced.Fits.clean {s : Spaced} (fits : s.Fits) (clean : Clean .outside s.text .outside) :
    Clean .outside s.bytes .outside :=
  fits.before.clean.append (clean.append fits.after.clean)

theorem Entry.Fits.clean {e : Entry} (fits : e.Fits) (name : IsString e.name)
    (clean : Clean .outside e.value.text .outside) : Clean .outside e.bytes .outside := by
  have colon : Clean .outside (0x3A :: e.value.bytes) .outside :=
    .cons (fun _ => by decide) (fits.value.clean clean)
  have tail := name.clean.append (fits.gap.clean.append colon)
  exact fits.before.clean.append (.cons (fun _ => by decide) tail)

/-- Outside of its strings a value holds no form feed. -/
theorem IsValue.clean {text : Bytes} (value : IsValue text) : Clean .outside text .outside := by
  induction value with
  | null => exact clean_of_solid (List.all_eq_true.1 rfl)
  | yes => exact clean_of_solid (List.all_eq_true.1 rfl)
  | no => exact clean_of_solid (List.all_eq_true.1 rfl)
  | number isNumber => exact clean_of_solid isNumber.solid
  | negative isNumber =>
    exact clean_of_solid (List.forall_mem_cons.2 ⟨rfl, isNumber.solid⟩)
  | string isString => exact .cons (fun _ => by decide) isString.clean
  | list blank fit _ ih =>
    have items := clean_pieces (fun i mem => (fit i mem).clean (ih i mem)) true
    have closing : Clean .outside [0x5D] .outside := clean_of_solid (List.all_eq_true.1 rfl)
    exact .cons (fun _ => by decide) (items.append (blank.clean.append closing))
  | object blank fit names _ ih =>
    have entries := clean_pieces (fun e mem => (fit e mem).clean (names e mem) (ih e mem)) true
    have closing : Clean .outside [0x7D] .outside := clean_of_solid (List.all_eq_true.1 rfl)
    exact .cons (fun _ => by decide) (entries.append (blank.clean.append closing))

theorem IsValue.ends {text : Bytes} (value : IsValue text) :
    ∃ front b, text = front ++ [b] ∧ isBlank b = false := by
  have solid {text : Bytes} (starts : Starts text) (solid : ∀ b ∈ text, isSolid b = true) :
      ∃ front b, text = front ++ [b] ∧ isBlank b = false := by
    have nonempty : text ≠ [] := by
      obtain ⟨b, rest, rfl, -⟩ := starts
      exact List.cons_ne_nil _ _
    refine ⟨text.dropLast, text.getLast nonempty, (List.dropLast_concat_getLast nonempty).symm, ?_⟩
    have last := solid _ (List.getLast_mem nonempty)
    simp only [isSolid, Bool.and_eq_true, Bool.not_eq_true'] at last
    exact last.1.1
  cases value with
  | null => exact solid IsValue.null.starts (List.all_eq_true.1 rfl)
  | yes => exact solid IsValue.yes.starts (List.all_eq_true.1 rfl)
  | no => exact solid IsValue.no.starts (List.all_eq_true.1 rfl)
  | number isNumber => exact solid (IsValue.number isNumber).starts isNumber.solid
  | negative isNumber =>
    exact solid (IsValue.negative isNumber).starts
      (List.forall_mem_cons.2 ⟨rfl, isNumber.solid⟩)
  | string isString =>
    obtain ⟨front, rfl⟩ := isString.ends
    exact ⟨0x22 :: front, 0x22, rfl, rfl⟩
  | @list items inner =>
    exact ⟨0x5B :: (piecesFrom Spaced.bytes true items ++ inner), 0x5D, by simp [listBytes], rfl⟩
  | @object entries inner =>
    exact ⟨0x7B :: (piecesFrom Entry.bytes true entries ++ inner), 0x7D, by simp [objectBytes], rfl⟩

end PetClient.Json
