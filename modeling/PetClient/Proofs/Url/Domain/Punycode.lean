import Mathlib
import PetClient.Url.Domain.Punycode

/-!
The characters of written labels: those of the label in ASCII, a hyphen and digits.
-/

namespace PetClient.Url.Punycode

def isDigit (c : Char) : Bool :=
  (digitValue? c).isSome

def IsWritten (c : Char) : Prop :=
  ∃ d < base, c = digitChar d

theorem IsWritten.of_all {p : Char → Prop} [DecidablePred p]
    (all : ∀ d ∈ List.range base, p (digitChar d)) {c : Char} (written : IsWritten c) : p c := by
  obtain ⟨d, bound, rfl⟩ := written
  exact all d (List.mem_range.2 bound)

theorem IsWritten.isDigit {c : Char} (written : IsWritten c) : isDigit c = true :=
  written.of_all (p := fun c => Punycode.isDigit c = true) (by decide)

theorem threshold_le (place bias : Nat) : threshold place bias ≤ 26 := by
  unfold threshold
  split <;> omega

/-! ### Writing -/

theorem isWritten_of_mem_encodeDifference {fuel bias place n : Nat} {c : Char}
    (mem : c ∈ encodeDifference fuel bias place n) : IsWritten c := by
  induction fuel generalizing place n with
  | zero => cases mem
  | succ fuel ih =>
    have small := threshold_le place bias
    rw [encodeDifference] at mem
    by_cases last : n < threshold place bias
    · rw [if_pos last, List.mem_singleton] at mem
      refine ⟨n, ?_, mem⟩
      unfold base
      omega
    · rw [if_neg last, List.mem_cons] at mem
      rcases mem with here | later
      · refine ⟨_, ?_, here⟩
        have rest : (n - threshold place bias) % (base - threshold place bias) <
            base - threshold place bias := by
          apply Nat.mod_lt
          unfold base
          omega
        unfold base at rest ⊢
        omega
      · exact ih later

namespace Writing

def InDigits (w : Writing) : Prop :=
  ∀ c ∈ w.digits, IsWritten c

theorem InDigits.visit {w : Writing} (digits : w.InDigits) (basic : Nat) (c : Char) :
    (w.visit basic c).InDigits := by
  unfold Writing.visit
  split
  · exact digits
  · split
    · intro d mem
      rcases List.mem_append.1 mem with before | new
      · exact digits d before
      · exact isWritten_of_mem_encodeDifference new
    · exact digits

theorem InDigits.foldl_visit {w : Writing} (digits : w.InDigits) (basic : Nat)
    (label : List Char) : (label.foldl (Writing.visit basic) w).InDigits := by
  induction label generalizing w with
  | nil => exact digits
  | cons c rest ih => exact ih (digits.visit basic c)

theorem InDigits.foldl_visitAll {w : Writing} (digits : w.InDigits) (label : List Char)
    (basic : Nat) (points : List Nat) :
    (points.foldl (Writing.visitAll label basic) w).InDigits := by
  induction points generalizing w with
  | nil => exact digits
  | cons n rest ih =>
    have next : (w.visitAll label basic n).InDigits :=
      InDigits.foldl_visit
        (w := { w with
          difference := w.difference + (n - w.point) * (w.handled + 1)
          point := n })
        digits basic label
    exact ih next

end Writing

theorem mem_encode {label : List Char} {c : Char} (mem : c ∈ encode label) :
    c ∈ label ∧ c.toNat < 0x80 ∨ c = '-' ∨ IsWritten c := by
  unfold encode at mem
  rcases List.mem_append.1 mem with front | digit
  · rcases List.mem_append.1 front with basic | hyphen
    · exact .inl (by simpa using List.mem_filter.1 basic)
    · split at hyphen
      · cases hyphen
      · exact .inr (.inl (List.mem_singleton.1 hyphen))
  · have start : Writing.InDigits { handled := (label.filter fun c => c.toNat < 0x80).length } := by
      intro d mem_nil
      cases mem_nil
    exact .inr (.inr (start.foldl_visitAll label _ _ c digit))

/-! ### Reading -/

theorem decodeDifference_digits {bias place weight i n : Nat} {text rest : List Char}
    (read : decodeDifference bias place weight i text = some (n, rest)) :
    ∃ used, text = used ++ rest ∧ ∀ c ∈ used, isDigit c = true := by
  induction text generalizing place weight i with
  | nil => cases read
  | cons c text ih =>
    rw [decodeDifference] at read
    obtain ⟨d, value, read⟩ := Option.bind_eq_some_iff.1 read
    have digit : isDigit c = true := by
      unfold isDigit
      rw [value]
      rfl
    by_cases last : d < threshold place bias
    · rw [if_pos last] at read
      cases read
      exact ⟨[c], rfl, fun e mem => List.mem_singleton.1 mem ▸ digit⟩
    · rw [if_neg last] at read
      obtain ⟨used, rfl, digits⟩ := ih read
      exact ⟨c :: used, rfl, List.forall_mem_cons.2 ⟨digit, digits⟩⟩

/-- Digits describe characters to insert; no character of the label is lost. -/
theorem decodeDigits_spec {fuel i point bias : Nat} {label digits result : List Char}
    (read : decodeDigits fuel i point bias label digits = some result) :
    (∀ c ∈ digits, isDigit c = true) ∧ ∀ c ∈ label, c ∈ result := by
  induction fuel generalizing i point bias label digits with
  | zero => cases read
  | succ fuel ih =>
    cases digits with
    | nil =>
      cases read
      exact ⟨fun c mem => (List.not_mem_nil mem).elim, fun c mem => mem⟩
    | cons d rest =>
      rw [decodeDigits] at read
      · obtain ⟨⟨next, later⟩, first, read⟩ := Option.bind_eq_some_iff.1 read
        obtain ⟨used, parts, digits_used⟩ := decodeDifference_digits first
        simp only at read
        split at read
        · cases read
        · obtain ⟨digits_later, kept⟩ := ih read
          constructor
          · intro c mem
            rw [parts, List.mem_append] at mem
            exact mem.elim (digits_used c) (digits_later c)
          · intro c mem
            apply kept
            rw [← List.take_append_drop (next % (label.length + 1)) label, List.mem_append] at mem
            exact List.mem_append.2 (mem.imp_right (List.mem_cons_of_mem _))
      · intro empty
        cases empty

theorem front_append_digits (text : List Char) :
    let digits := (text.reverse.takeWhile (· != '-')).reverse
    let front := text.take (text.length - digits.length)
    text = front ++ digits ∧ ∀ c ∈ front, c ∈ front.dropLast ∨ c = '-' := by
  intro digits front
  let before := text.reverse.dropWhile (· != '-')
  have whole : text = before.reverse ++ digits := by
    rw [← List.reverse_append, List.takeWhile_append_dropWhile, List.reverse_reverse]
  have start : front = before.reverse := by
    have size : text.length - digits.length = before.reverse.length := by
      have sum := congrArg List.length whole
      rw [List.length_append] at sum
      omega
    have taken : (before.reverse ++ digits).take before.reverse.length = before.reverse :=
      List.take_left
    rw [← whole, ← size] at taken
    exact taken
  refine ⟨start ▸ whole, ?_⟩
  rw [start]
  intro c mem
  cases stops : before with
  | nil =>
    rw [stops] at mem
    cases mem
  | cons d others =>
    have hyphen : d = '-' := by
      have failed := List.head?_dropWhile_not (· != '-') text.reverse
      rw [show text.reverse.dropWhile (· != '-') = d :: others from stops] at failed
      simpa using failed
    rw [stops, List.reverse_cons, List.mem_append, List.mem_singleton] at mem
    rw [List.reverse_cons, List.dropLast_concat]
    exact mem.imp_right fun same => same.trans hyphen

theorem ascii_or_isDigit_of_decode? {text label : List Char} (read : decode? text = some label)
    {c : Char} (mem : c ∈ text) : c.toNat < 0x80 ∨ isDigit c = true := by
  obtain ⟨whole, -⟩ := front_append_digits text
  unfold decode? at read
  simp only at read
  split at read
  · cases read
  · rename_i good
    rw [Bool.or_eq_true, not_or, Bool.not_eq_true', Bool.not_eq_false, List.all_eq_true] at good
    rw [whole, List.mem_append] at mem
    rcases mem with mem_front | mem_digits
    · exact .inl (of_decide_eq_true (good.2 c mem_front))
    · exact .inr ((decodeDigits_spec read).1 c mem_digits)

theorem mem_of_decode?_eq_some {text label : List Char} {c : Char}
    (read : decode? text = some label) (mem : c ∈ text) :
    c ∈ label ∨ c = '-' ∨ isDigit c = true := by
  obtain ⟨whole, front⟩ := front_append_digits text
  unfold decode? at read
  simp only at read
  split at read
  · cases read
  · obtain ⟨digits, kept⟩ := decodeDigits_spec read
    rw [whole, List.mem_append] at mem
    rcases mem with mem_front | mem_digits
    · exact (front c mem_front).imp (kept c) .inl
    · exact .inr (.inr (digits c mem_digits))

end PetClient.Url.Punycode
