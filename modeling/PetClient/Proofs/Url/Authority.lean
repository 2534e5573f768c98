import PetClient.Proofs.Url.Host
import PetClient.Url.Parser

/-!
The authority of a web address: it depends only on the text up to the first slash, question mark or
number sign, and blanks at the end of that text are never accepted.
-/

namespace PetClient

def addressSigns : List Char :=
  ['/', '?', '#', '@', ':']

structure Authority.Proper (a : Authority) : Prop where
  username : ∀ c ∈ a.username.toList, c ∉ addressSigns
  password : ∀ c ∈ a.password.toList, c ∉ addressSigns
  host : ∃ host, a.host = some host ∧ host.Proper
  port : ∀ port, a.port = some port → port ≤ 65535

namespace Url

/-! ### Credentials -/

theorem exists_last_at {text : List Char} (mem : '@' ∈ text) :
    ∃ login address, text = login ++ '@' :: address ∧ '@' ∉ address := by
  obtain ⟨before, after, parts, free⟩ := List.eq_append_cons_of_mem (List.mem_reverse.2 mem)
  refine ⟨after.reverse, before.reverse, ?_, fun mem_before => free (List.mem_reverse.1 mem_before)⟩
  rw [← List.reverse_reverse text, parts]
  simp

/-- The credentials and what follows them; without an at sign there are none. -/
def splitLogin (text : List Char) : List Char × List Char :=
  (splitCredentials? text).getD ([], text)

theorem splitLogin_at {login address : List Char} (free : '@' ∉ address) :
    splitLogin (login ++ '@' :: address) = (login, address) := by
  have host : ((login ++ '@' :: address).reverse.takeWhile (· != '@')).reverse = address := by
    have plain := Text.forall_bne_of_not_mem fun mem => free (List.mem_reverse.1 mem)
    rw [List.reverse_append, List.reverse_cons, List.append_assoc,
      List.takeWhile_append_of_pos plain]
    simp
  have size : (login ++ '@' :: address).length - address.length - 1 = login.length := by
    rw [List.length_append, List.length_cons]
    omega
  unfold splitLogin splitCredentials?
  rw [if_pos (by simp)]
  simp only [host, size, List.take_left, Option.getD_some]

theorem splitLogin_of_free {text : List Char} (free : '@' ∉ text) :
    splitLogin text = ([], text) := by
  unfold splitLogin splitCredentials?
  rw [if_neg (by simpa using free)]
  rfl

/-- What follows the credentials grows with the whole text. -/
theorem splitLogin_append {text more : List Char} (free : '@' ∉ more) :
    splitLogin (text ++ more) = ((splitLogin text).1, (splitLogin text).2 ++ more) := by
  by_cases mem : '@' ∈ text
  · obtain ⟨login, address, rfl, free_address⟩ := exists_last_at mem
    have free_both : '@' ∉ address ++ more := by
      rw [List.mem_append]
      exact not_or.2 ⟨free_address, free⟩
    rw [List.append_assoc, List.cons_append, splitLogin_at free_both, splitLogin_at free_address]
  · have free_both : '@' ∉ text ++ more := by
      rw [List.mem_append]
      exact not_or.2 ⟨mem, free⟩
    rw [splitLogin_of_free mem, splitLogin_of_free free_both]

theorem mem_of_mem_splitLogin {text : List Char} {c : Char} (mem : c ∈ (splitLogin text).2) :
    c ∈ text := by
  by_cases login : '@' ∈ text
  · obtain ⟨front, address, rfl, free⟩ := exists_last_at login
    rw [splitLogin_at free] at mem
    exact List.mem_append_right _ (List.mem_cons_of_mem _ mem)
  · rwa [splitLogin_of_free login] at mem

theorem not_mem_addressSigns_of_credentials {text : List Char} {c : Char}
    (mem : c ∈ percentEncode encodedInCredentials text) : c ∉ addressSigns := by
  have encoded : addressSigns.all encodedInCredentials = true := by cbv
  have others : ∀ d ∈ addressSigns, d ≠ '%' ∧ d ∉ hexSigns := Text.forall_of_all (by decide)
  intro sign
  have always := List.all_eq_true.1 encoded c sign
  exact not_mem_percentEncode always (others c sign).1 (others c sign).2 mem

/-! ### Host and port -/

theorem spanHost_of_free (inBrackets : Bool) {text : List Char} (free : ':' ∉ text) :
    spanHost inBrackets text = (text, []) := by
  induction text generalizing inBrackets with
  | nil => rfl
  | cons c rest ih =>
    rw [List.mem_cons, not_or] at free
    have other : ¬(c = ':' && !inBrackets) = true := by
      simp [Ne.symm free.1]
    rw [spanHost, if_neg other, ih _ free.2]

/-- What follows the host grows with the whole text, and the host does when nothing follows it. -/
theorem spanHost_append (inBrackets : Bool) (text : List Char) {more : List Char}
    (free : ':' ∉ more) :
    spanHost inBrackets (text ++ more) =
      if (spanHost inBrackets text).2 = [] then ((spanHost inBrackets text).1 ++ more, [])
      else ((spanHost inBrackets text).1, (spanHost inBrackets text).2 ++ more) := by
  induction text generalizing inBrackets with
  | nil => exact spanHost_of_free inBrackets free
  | cons c rest ih =>
    rw [List.cons_append, spanHost, spanHost]
    by_cases colon : (c = ':' && !inBrackets) = true
    · rw [if_pos colon, if_pos colon, if_neg (by simp)]
      rfl
    · rw [if_neg colon, if_neg colon]
      simp only [ih]
      split <;> rfl

theorem mem_of_mem_spanHost {inBrackets : Bool} {text : List Char} {c : Char}
    (mem : c ∈ (spanHost inBrackets text).2) : c ∈ text := by
  induction text generalizing inBrackets with
  | nil => cases mem
  | cons d rest ih =>
    rw [spanHost] at mem
    split at mem
    · exact mem
    · exact List.mem_cons_of_mem _ (ih mem)

theorem head_spanHost {inBrackets : Bool} {text rest : List Char} {c : Char}
    (follows : (spanHost inBrackets text).2 = c :: rest) : c = ':' := by
  induction text generalizing inBrackets with
  | nil => cases follows
  | cons d others ih =>
    rw [spanHost] at follows
    split at follows
    · rename_i colon
      cases follows
      exact of_decide_eq_true (Bool.and_eq_true_iff.1 colon).1
    · exact ih follows

theorem portOf_le {scheme : String} {text rest : List Char} {port : Nat}
    (read : portOf scheme text = .ok (some port, rest)) : port ≤ 65535 := by
  unfold portOf at read
  split at read
  · simp only at read
    split at read
    · cases read
    · rename_i fits
      rw [Bool.or_eq_true, not_or, decide_eq_true_iff] at fits
      split at read
      · cases read
      · cases read
        exact Nat.le_of_not_lt fits.1
  · cases read

theorem not_isDigit_of_isOuterBlank {c : Char} (low : isOuterBlank c = true) :
    c.isDigit = false :=
  Text.forall_ascii (q := fun c => c.isDigit = false) (by decide) (toNat_lt_of_isOuterBlank low)

theorem portOf_of_isOuterBlank {scheme : String} {text : List Char} {c : Char} (mem : c ∈ text)
    (low : isOuterBlank c = true) (free : '\\' ∉ text) :
    portOf scheme (':' :: text) = .error .portInvalid := by
  have rest : ∃ d after, text.dropWhile Char.isDigit = d :: after := by
    cases stops : text.dropWhile Char.isDigit with
    | nil =>
      have digit := List.dropWhile_eq_nil_iff.1 stops c mem
      rw [not_isDigit_of_isOuterBlank low] at digit
      cases digit
    | cons d after => exact ⟨d, after, rfl⟩
  obtain ⟨d, after, stops⟩ := rest
  have other : d ≠ '\\' := by
    rintro rfl
    have mem_stops : '\\' ∈ text.dropWhile Char.isDigit := stops ▸ List.mem_cons_self ..
    exact free ((List.dropWhile_sublist _).subset mem_stops)
  unfold portOf
  simp only [stops]
  rw [if_pos]
  simp [other]

/-! ### The whole authority -/

def Kind.inside (kind : Kind) (text : List Char) : List Char :=
  text.takeWhile fun c => !kind.endsAuthority c

/-- What an authority is read from and what is left: the text from the sign on that ends it, and
what follows the port. -/
theorem splitAuthority_eq_ok {scheme : String} {text rest : List Char} {a : Authority}
    (split : splitAuthority scheme text = .ok (a, rest)) :
    let parts := splitLogin ((kindOf scheme).inside text)
    let spanned := spanHost false parts.2
    ∃ host port left,
      ((kindOf scheme).isSpecial = true → spanned.1 ≠ []) ∧
      (if (kindOf scheme).isSpecial then (knownHost spanned.1).map some
        else unknownHost spanned.1) = .ok host ∧
      portOf scheme spanned.2 = .ok (port, left) ∧
      a = ⟨(credentials parts.1).1, (credentials parts.1).2, host, port⟩ ∧
      rest = left ++ text.dropWhile fun c => !(kindOf scheme).endsAuthority c := by
  unfold splitAuthority at split
  unfold splitLogin Kind.inside
  simp only at split ⊢
  generalize text.takeWhile (fun c => !(kindOf scheme).endsAuthority c) = inside at split ⊢
  generalize (splitCredentials? inside).getD ([], inside) = parts at split ⊢
  generalize spanHost false parts.2 = spanned at split ⊢
  split at split
  · cases split
  · split at split
    · cases split
    · rename_i allowed
      have named : (kindOf scheme).isSpecial = true → spanned.1 ≠ [] := by
        intro special empty
        exact allowed (by simp [special, empty])
      have read : ∃ host, (if (kindOf scheme).isSpecial then (knownHost spanned.1).map some
          else unknownHost spanned.1) = .ok host ∧
          ((portOf scheme spanned.2 >>= fun p =>
            if host.isNone && ((credentials parts.1).1 ≠ "" || (credentials parts.1).2 ≠ "") then
              .error .hostEmpty
            else .ok (⟨(credentials parts.1).1, (credentials parts.1).2, host, p.1⟩,
              p.2 ++ text.dropWhile fun c => !(kindOf scheme).endsAuthority c)) =
            (.ok (a, rest) : Except Problem (Authority × List Char))) := by
        split at split
        · rw [if_pos ‹_›]
          exact Result.bind_eq_ok.1 split
        · rw [if_neg ‹_›]
          exact Result.bind_eq_ok.1 split
      obtain ⟨host, known, read⟩ := read
      obtain ⟨⟨port, left⟩, found, read⟩ := Result.bind_eq_ok.1 read
      simp only at read
      split at read
      · cases read
      · cases read
        exact ⟨host, port, left, named, known, found, rfl, rfl⟩

def authorityIn (scheme : String) (inside : List Char) : Except Problem Authority := do
  let (login, address) := splitLogin inside
  let (username, password) := credentials login
  let (hostText, tail) := spanHost false address
  if hostText.isEmpty then throw .hostEmpty
  let host ← knownHost hostText
  let (port, _) ← portOf scheme tail
  return { username, password, host := some host, port }

theorem authorityIn_of_splitAuthority {scheme : String} {text rest : List Char} {a : Authority}
    (special : (kindOf scheme).isSpecial = true)
    (split : splitAuthority scheme text = .ok (a, rest)) :
    authorityIn scheme ((kindOf scheme).inside text) = .ok a := by
  obtain ⟨host, port, left, named, read, found, rfl, -⟩ := splitAuthority_eq_ok split
  rw [if_pos special] at read
  obtain ⟨known, proper, rfl⟩ := Result.map_eq_ok.1 read
  have nonempty := named special
  rw [← List.isEmpty_eq_false_iff] at nonempty
  unfold authorityIn
  simp only [nonempty, Bool.false_eq_true, if_false]
  exact Result.bind_eq_ok.2 ⟨known, proper, Result.bind_eq_ok.2 ⟨(port, left), found, rfl⟩⟩

/-- What an authority is read from: credentials in front of the last at sign, a host, and a port
behind the host. -/
theorem authorityIn_eq_ok {scheme : String} {inside : List Char} {a : Authority}
    (read : authorityIn scheme inside = .ok a) :
    let parts := splitLogin inside
    ∃ host port rest, (spanHost false parts.2).1 ≠ [] ∧
      knownHost (spanHost false parts.2).1 = .ok host ∧
      portOf scheme (spanHost false parts.2).2 = .ok (port, rest) ∧
      a = ⟨(credentials parts.1).1, (credentials parts.1).2, some host, port⟩ := by
  unfold authorityIn at read
  simp only at read ⊢
  generalize splitLogin inside = parts at read ⊢
  generalize spanHost false parts.2 = spanned at read ⊢
  by_cases empty : spanned.1.isEmpty = true
  · rw [if_pos empty] at read
    cases read
  · rw [if_neg empty] at read
    obtain ⟨host, known, read⟩ := Result.bind_eq_ok.1 read
    obtain ⟨port, found, read⟩ := Result.bind_eq_ok.1 read
    cases read
    exact ⟨host, port.1, port.2, by simpa using empty, known, found, rfl⟩

theorem proper_authorityIn {scheme : String} {inside : List Char} {a : Authority}
    (read : authorityIn scheme inside = .ok a) : a.Proper := by
  obtain ⟨host, port, rest, -, known, found, rfl⟩ := authorityIn_eq_ok read
  refine ⟨?_, ?_, ⟨host, rfl, proper_knownHost known⟩, ?_⟩
  · simp only [credentials, String.toList_ofList]
    exact fun c mem => not_mem_addressSigns_of_credentials mem
  · simp only [credentials, String.toList_ofList]
    exact fun c mem => not_mem_addressSigns_of_credentials mem
  · rintro number rfl
    exact portOf_le found

theorem authorityIn_append_blanks {scheme : String} {inside blanks : List Char}
    {a : Authority} (read : authorityIn scheme (inside ++ blanks) = .ok a)
    (low : ∀ c ∈ blanks, isOuterBlank c = true) (free : '\\' ∉ inside) : blanks = [] := by
  have absent (sign : Char) (visible : isOuterBlank sign = false) : sign ∉ blanks := by
    intro mem
    rw [low sign mem] at visible
    cases visible
  cases last : blanks.getLast? with
  | none => exact List.getLast?_eq_none_iff.1 last
  | some c =>
    exfalso
    have low_c := low c (List.mem_of_getLast? last)
    obtain ⟨host, port, rest, -, known, found, -⟩ := authorityIn_eq_ok read
    rw [splitLogin_append (absent '@' (by decide)),
      spanHost_append false _ (absent ':' (by decide))] at known found
    -- The blanks stand at the end of the host if no colon ends it, and in the port otherwise.
    cases tail : (spanHost false (splitLogin inside).2).2 with
    | nil =>
      rw [if_pos tail] at known
      have visible := not_isOuterBlank_of_knownHost known
        (c := c) (by rw [List.getLast?_append, last]; rfl)
      rw [low_c] at visible
      cases visible
    | cons d others =>
      have colon := head_spanHost tail
      rw [if_neg (by simp [tail]), tail, colon, List.cons_append,
        portOf_of_isOuterBlank (List.mem_append_right _ (List.mem_of_getLast? last)) low_c] at found
      · cases found
      · rw [List.mem_append]
        refine not_or.2 ⟨fun mem => free ?_, absent '\\' (by decide)⟩
        exact mem_of_mem_splitLogin (mem_of_mem_spanHost (tail ▸ List.mem_cons_of_mem d mem))

end Url

end PetClient
