import PetClient.Proofs.Json.Pieces

/-!
What is passed over is a value.  The brackets that are open when a value begins are the ones that
are open behind it, so what was opened inside it is closed inside it as well.
-/

namespace PetClient.Json

open Result (bind_eq_ok map_eq_ok)

/-! ### Scalars -/

def wordBytes (word : List Char) : Bytes :=
  word.map fun c => UInt8.ofNat c.toNat

theorem parts_of_readWord {word : List Char} {bytes rest : Bytes}
    (read : readWord word bytes = .ok rest) : bytes = wordBytes word ++ rest := by
  induction word generalizing bytes with
  | nil =>
    cases read
    rfl
  | cons c word ih =>
    cases bytes with
    | nil => cases read
    | cons b bytes =>
      unfold readWord at read
      split at read
      · rename_i same
        rw [ih read]
        unfold wordBytes
        rw [List.map_cons, ← same, UInt8.ofNat_toNat]
        rfl
      · cases read

theorem isString_of_skipEscape {bytes rest : Bytes} (skip : skipEscape bytes = .ok rest) :
    ∃ letters, bytes = letters ++ rest ∧
      ∀ tail, IsString tail → IsString (0x5C :: (letters ++ tail)) := by
  unfold skipEscape at skip
  split at skip
  · cases skip
  · rename_i b behind
    split at skip
    · rename_i short
      obtain ⟨c, short⟩ := Option.isSome_iff_exists.1 short
      cases skip
      exact ⟨[b], rfl, fun tail => .letter (listed_of_shortEscape short)⟩
    · split at skip
      · rename_i letter
        obtain ⟨⟨unit, behind'⟩, read, same⟩ := map_eq_ok.1 skip
        cases same
        obtain ⟨digits, written, rfl⟩ := isUnit_of_readUnit read
        exact ⟨b :: digits, rfl, fun tail isString => letter ▸ .unit written isString⟩
      · cases skip

theorem isString_of_skipStringTail {budget bytes rest : Bytes}
    (skip : skipStringTail budget bytes = .ok rest) :
    ∃ taken, IsString taken ∧ bytes = taken ++ rest := by
  induction budget generalizing bytes with
  | nil => cases skip
  | cons b budget ih =>
    have parts := List.takeWhile_append_dropWhile (p := isPlain) (l := bytes)
    have isPlain_plain : ∀ b ∈ bytes.takeWhile isPlain, isPlain b = true := fun _ =>
      List.mem_takeWhile_imp
    unfold skipStringTail at skip
    split at skip
    · cases skip
    · rename_i b behind stop
      rw [stop] at parts
      split at skip
      · rename_i quote
        cases skip
        subst quote
        exact ⟨_, .behind isPlain_plain .close, by simpa using parts.symm⟩
      · split at skip
        · rename_i backslash
          obtain ⟨behind', escape, later⟩ := bind_eq_ok.1 skip
          subst backslash
          obtain ⟨letters, rfl, isString_escape⟩ := isString_of_skipEscape escape
          obtain ⟨taken, isString, rfl⟩ := ih later
          refine ⟨_, .behind isPlain_plain (isString_escape taken isString), ?_⟩
          simpa using parts.symm
        · cases skip

theorem isString_of_skipString {bytes rest : Bytes} (skip : skipString bytes = .ok rest) :
    ∃ taken, IsString taken ∧ bytes = taken ++ rest :=
  isString_of_skipStringTail skip

/-- What a value begins with: a whole scalar, or a bracket. -/
inductive Begun : Bytes → Option Bracket → Bytes → Prop
  | scalar {text rest : Bytes} (isValue : IsValue text) : Begun (text ++ rest) none rest
  | list {rest : Bytes} : Begun (0x5B :: rest) (some .list) rest
  | object {rest : Bytes} : Begun (0x7B :: rest) (some .object) rest

theorem Begun.of_scalar {passed : Except Fault Bytes} {bytes rest : Bytes}
    {opened : Option Bracket}
    (start : (passed.map fun rest => ((none : Option Bracket), rest)) = .ok (opened, rest))
    (found : passed = .ok rest → ∃ text, bytes = text ++ rest ∧ IsValue text) :
    Begun bytes opened rest := by
  obtain ⟨last, ok, same⟩ := map_eq_ok.1 start
  cases same
  obtain ⟨text, rfl, isValue⟩ := found ok
  exact .scalar isValue

theorem isValue_of_readWord {b : UInt8} {word : List Char} {behind rest : Bytes}
    (passed : readWord word behind = .ok rest) (isValue : IsValue (b :: wordBytes word)) :
    ∃ text, b :: behind = text ++ rest ∧ IsValue text :=
  ⟨_, by rw [parts_of_readWord passed, List.cons_append], isValue⟩

theorem isValue_of_readLiteral {negative : Bool} {behind rest : Bytes}
    (passed : ((readLiteral .numberInvalid negative behind).map fun (_, rest) => rest) =
      .ok rest) :
    ∃ text, (if negative then 0x2D :: behind else behind) = text ++ rest ∧ IsValue text := by
  obtain ⟨⟨literal, last⟩, read, same⟩ := map_eq_ok.1 passed
  cases same
  obtain ⟨t, rfl, -, rfl⟩ := exists_of_readLiteral read
  refine ⟨t.bytes, ?_, t.isValue⟩
  unfold NumberText.bytes
  split <;> rfl

theorem isValue_of_skipString {behind rest : Bytes} (passed : skipString behind = .ok rest) :
    ∃ text, 0x22 :: behind = text ++ rest ∧ IsValue text := by
  obtain ⟨text, isString, rfl⟩ := isString_of_skipString passed
  exact ⟨0x22 :: text, rfl, .string isString⟩

theorem begun_of_skipStart {bytes rest : Bytes} {opened : Option Bracket}
    (start : skipStart bytes = .ok (opened, rest)) : Begun bytes opened rest := by
  cases bytes with
  | nil => cases start
  | cons b behind =>
    unfold skipStart at start
    dsimp only at start
    split at start
    · subst b
      exact .of_scalar start fun passed => isValue_of_readWord passed .null
    split at start
    · subst b
      exact .of_scalar start fun passed => isValue_of_readWord passed .yes
    split at start
    · subst b
      exact .of_scalar start fun passed => isValue_of_readWord passed .no
    split at start
    · subst b
      exact .of_scalar start isValue_of_readLiteral
    split at start
    · exact .of_scalar start isValue_of_readLiteral
    split at start
    · subst b
      exact .of_scalar start isValue_of_skipString
    split at start
    · subst b
      cases start
      exact .list
    split at start
    · subst b
      cases start
      exact .object
    · cases start

/-! ### Brackets -/

/-- What stands next inside an open bracket: the byte that closes it, or another value. -/
theorem goOn_cases {bracket : Bracket} {outer : List Bracket} {budget bytes rest : Bytes}
    {first : Bool} (goes : goOn budget (bracket :: outer) (!first) bytes = .ok rest) :
    (∃ b behind, skipBlanks bytes = b :: behind ∧ bracket.closedBy b = true ∧
        goOn budget outer true behind = .ok rest) ∨
      ∃ value inside, Leads first bytes value ∧ skipKey bracket value = .ok inside ∧
        skipInside budget (bracket :: outer) inside = .ok rest := by
  have enters {value : Bytes} (goes : (skipKey bracket value >>= fun inside =>
      skipInside budget (bracket :: outer) inside) = .ok rest) :
      ∃ inside, skipKey bracket (skipBlanks value) = .ok inside ∧
        skipInside budget (bracket :: outer) inside = .ok rest := by
    obtain ⟨inside, key, passes⟩ := bind_eq_ok.1 goes
    cases bracket with
    | list =>
      cases key
      exact ⟨skipBlanks value, rfl, (skipInside_skipBlanks ..).trans passes⟩
    | object =>
      unfold skipKey at key ⊢
      rw [skipBlanks_skipBlanks]
      exact ⟨inside, key, passes⟩
  cases next : skipBlanks bytes with
  | nil =>
    unfold goOn closeBrackets at goes
    simp only [next] at goes
    cases goes
  | cons b behind =>
    by_cases closed : bracket.closedBy b = true
    · refine .inl ⟨b, behind, rfl, closed, ?_⟩
      unfold goOn at goes
      rw [closeBrackets_close next closed] at goes
      exact goes
    · right
      cases first with
      | true =>
        unfold goOn at goes
        rw [Bool.not_true, closeBrackets_first next (Bool.eq_false_iff.2 closed), ← next] at goes
        obtain ⟨inside, key, passes⟩ := enters goes
        rw [skipBlanks_skipBlanks] at key
        exact ⟨_, inside, .first, key, passes⟩
      | false =>
        by_cases comma : b = 0x2C
        · subst comma
          unfold goOn at goes
          rw [Bool.not_false, closeBrackets_comma next] at goes
          obtain ⟨inside, key, passes⟩ := enters goes
          exact ⟨_, inside, .comma next, key, passes⟩
        · unfold goOn closeBrackets at goes
          simp only [next, comma, closed] at goes
          cases goes

theorem exists_of_skipKey {value inside : Bytes} (visible : skipBlanks value = value)
    (key : skipKey .object value = .ok inside) :
    ∃ name gap, value = 0x22 :: (name ++ gap) ∧ IsString name ∧ readColon gap = .ok inside := by
  unfold skipKey at key
  dsimp only at key
  rw [visible] at key
  split at key
  · cases key
  · obtain ⟨gap, string, colon⟩ := bind_eq_ok.1 key
    obtain ⟨name, isString, rfl⟩ := isString_of_skipString string
    exact ⟨name, gap, rfl, isString, colon⟩
  · cases key

/-- With a budget up to some length, what is passed over inside brackets is a value, and then the
brackets go on with less. -/
def PassesValues (n : Nat) : Prop :=
  ∀ budget brackets bytes rest, budget.length ≤ n → skipInside budget brackets bytes = .ok rest →
    ∃ text behind budget', skipBlanks bytes = text ++ behind ∧ IsValue text ∧
      budget'.length < budget.length ∧ goOn budget' brackets true behind = .ok rest

theorem itemized_of_goOn {n : Nat} (passesValues : PassesValues n) {outer : List Bracket}
    (first : Bool) {budget bytes rest : Bytes} (small : budget.length ≤ n)
    (goes : goOn budget (.list :: outer) (!first) bytes = .ok rest) :
    ∃ items last behind budget', Itemized first bytes items last ∧
      (∀ i ∈ items, IsValue i.text) ∧ skipBlanks last = 0x5D :: behind ∧
      budget'.length ≤ budget.length ∧ goOn budget' outer true behind = .ok rest := by
  induction size : budget.length using Nat.strongRecOn generalizing first budget bytes with
  | ind m ih =>
    subst size
    rcases goOn_cases goes with
      ⟨b, behind, next, closed, later⟩ | ⟨value, inside, leads, key, passes⟩
    · have bracket : b = 0x5D := of_decide_eq_true closed
      exact ⟨[], bytes, behind, budget, .nil, List.forall_mem_nil _, bracket ▸ next,
        Nat.le_refl _, later⟩
    · cases key
      obtain ⟨text, behind, budget', taken, isValue, less, later⟩ :=
        passesValues budget _ value rest small passes
      obtain ⟨items, last, behind', budget'', itemized, values, closed, less', later'⟩ :=
        ih budget'.length less false (by omega) later rfl
      obtain ⟨item, rfl, itemized⟩ := itemized.cons leads taken
      exact ⟨item :: items, last, behind', budget'', itemized,
        List.forall_mem_cons.2 ⟨isValue, values⟩, closed, by omega, later'⟩

theorem keyed_of_goOn {n : Nat} (passesValues : PassesValues n) {outer : List Bracket}
    (first : Bool) {budget bytes rest : Bytes} (small : budget.length ≤ n)
    (goes : goOn budget (.object :: outer) (!first) bytes = .ok rest) :
    ∃ entries last behind budget', Keyed first bytes entries last ∧
      (∀ e ∈ entries, IsString e.name) ∧ (∀ e ∈ entries, IsValue e.value.text) ∧
      skipBlanks last = 0x7D :: behind ∧
      budget'.length ≤ budget.length ∧ goOn budget' outer true behind = .ok rest := by
  induction size : budget.length using Nat.strongRecOn generalizing first budget bytes with
  | ind m ih =>
    subst size
    rcases goOn_cases goes with
      ⟨b, behind, next, closed, later⟩ | ⟨value, inside, leads, key, passes⟩
    · have brace : b = 0x7D := of_decide_eq_true closed
      exact ⟨[], bytes, behind, budget, .nil, List.forall_mem_nil _, List.forall_mem_nil _,
        brace ▸ next, Nat.le_refl _, later⟩
    · obtain ⟨name, gap, rfl, isString, colon⟩ := exists_of_skipKey leads.skipBlanks_eq key
      obtain ⟨text, behind, budget', taken, isValue, less, later⟩ :=
        passesValues budget _ inside rest small passes
      obtain ⟨entries, last, behind', budget'', keyed, names, values, closed, less', later'⟩ :=
        ih budget'.length less false (by omega) later rfl
      obtain ⟨entry, rfl, rfl, keyed⟩ := keyed.cons leads colon taken
      exact ⟨entry :: entries, last, behind', budget'', keyed,
        List.forall_mem_cons.2 ⟨isString, names⟩, List.forall_mem_cons.2 ⟨isValue, values⟩, closed,
        by omega, later'⟩

theorem passesValues (n : Nat) : PassesValues n := by
  induction n with
  | zero =>
    intro budget brackets bytes rest small passes
    rw [List.length_eq_zero_iff.1 (Nat.le_zero.1 small)] at passes
    cases passes
  | succ n ih =>
    intro budget brackets bytes rest small passes
    cases budget with
    | nil => cases passes
    | cons spent budget =>
      have smaller : budget.length ≤ n := Nat.le_of_succ_le_succ small
      rw [skipInside_cons] at passes
      obtain ⟨⟨opened, inside⟩, start, goes⟩ := bind_eq_ok.1 passes
      have begun := begun_of_skipStart start
      generalize skipBlanks bytes = visible at begun
      cases begun with
      | scalar isValue => exact ⟨_, inside, budget, rfl, isValue, Nat.lt_succ_self _, goes⟩
      | list =>
        obtain ⟨items, last, behind, budget', itemized, values, closed, less, later⟩ :=
          itemized_of_goOn ih true smaller goes
        obtain ⟨inner, blank, parts⟩ := itemized.closed closed
        exact ⟨_, behind, budget', parts, .list blank itemized.fit values, Nat.lt_succ_of_le less,
          later⟩
      | object =>
        obtain ⟨entries, last, behind, budget', keyed, names, values, closed, less, later⟩ :=
          keyed_of_goOn ih true smaller goes
        obtain ⟨inner, blank, parts⟩ := keyed.closed closed
        exact ⟨_, behind, budget', parts, .object blank keyed.fit names values,
          Nat.lt_succ_of_le less, later⟩

/-- What is passed over is a value behind some blanks. -/
theorem isValue_of_skipValue {bytes rest : Bytes} (skip : skipValue bytes = .ok rest) :
    ∃ text, skipBlanks bytes = text ++ rest ∧ IsValue text := by
  obtain ⟨text, behind, budget', taken, isValue, -, goes⟩ :=
    passesValues bytes.length bytes [] bytes rest (Nat.le_refl _) skip
  cases goes
  exact ⟨text, taken, isValue⟩

end PetClient.Json
