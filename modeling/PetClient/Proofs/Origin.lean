import PetClient.Http.Target
import PetClient.Proofs.Url.Join

/-!
Where a request goes: the scheme, the credentials, the host and the port, as they are parsed from an
address and as they are read from a target.
-/

namespace PetClient

structure Origin where
  scheme : String
  username : String
  password : String
  host : String
  port : Option Nat
  deriving DecidableEq, Repr

def Url.origin? (u : Url) : Option Origin :=
  u.authority.bind fun a => a.host.map fun host =>
    ⟨u.scheme, a.username, a.password, host.text, a.port⟩

namespace Http.Target

/-- The host that an address starts with: up to its closing bracket, or up to its first colon. -/
def hostChars (address : List Char) : List Char :=
  match address with
  | '[' :: rest => '[' :: (rest.takeWhile (· != ']') ++ (rest.dropWhile (· != ']')).take 1)
  | _ => address.takeWhile (· != ':')

/-- The text behind the last colon. -/
def behindColon? (text : List Char) : Option (List Char) :=
  if text.contains ':' then some (text.reverse.takeWhile (· != ':')).reverse else none

/-- The number of a port; a plus sign may stand in front of its digits. -/
def portNumber? (text : List Char) : Option Nat :=
  let digits := if text.head? = some '+' then text.tail else text
  let number := Nat.ofDigitChars 10 digits 0
  if digits.isEmpty || !digits.all Char.isDigit || 65535 < number then none else some number

def origin? (t : Target) : Option Origin :=
  t.scheme.map fun scheme =>
    let (login, address) := Url.splitLogin t.authority.toList
    { scheme
      username := String.ofList (login.takeWhile (· != ':'))
      password := String.ofList ((login.dropWhile (· != ':')).drop 1)
      host := String.ofList (hostChars address)
      port := (behindColon? t.authority.toList).bind portNumber? }

end Http.Target

/-! ### Reading a port -/

namespace Http.Target

theorem portNumber?_eq_none {text : List Char} {c : Char} (mem : c ∈ text)
    (no_digit : c.isDigit = false) (no_plus : c ≠ '+') : portNumber? text = none := by
  have kept : c ∈ if text.head? = some '+' then text.tail else text := by
    cases text with
    | nil => cases mem
    | cons d rest =>
      split
      · rename_i plus
        cases plus
        exact (List.mem_cons.1 mem).resolve_left no_plus
      · exact mem
  unfold portNumber?
  simp only
  rw [if_pos]
  have some_other : (if text.head? = some '+' then text.tail else text).all Char.isDigit = false :=
    List.all_eq_false.2 ⟨c, kept, by simp [no_digit]⟩
  rw [some_other]
  simp

theorem portNumber?_toDigits {port : Nat} (fits : port ≤ 65535) :
    portNumber? (Nat.toDigits 10 port) = some port := by
  have digits := Text.all_isDigit_toDigits port
  have no_plus : (Nat.toDigits 10 port).head? ≠ some '+' := by
    intro plus
    have digit := List.all_eq_true.1 digits '+' (List.mem_of_head? plus)
    exact absurd digit (by decide)
  have nonempty : (Nat.toDigits 10 port).isEmpty = false := by simp
  unfold portNumber?
  simp only [if_neg no_plus, nonempty, digits, Nat.ofDigitChars_ten_toDigits]
  rw [if_neg]
  simpa using fits

theorem takeWhile_reverse_append (front : List Char) {rest : List Char} (free : ':' ∉ rest) :
    ((front ++ rest).reverse.takeWhile (· != ':')).reverse =
      (front.reverse.takeWhile (· != ':')).reverse ++ rest := by
  have plain := Text.forall_bne_of_not_mem fun mem => free (List.mem_reverse.1 mem)
  rw [List.reverse_append, List.takeWhile_append_of_pos plain, List.reverse_append,
    List.reverse_reverse]

theorem behindColon?_eq {front rest : List Char} (free : ':' ∉ rest) :
    behindColon? (front ++ ':' :: rest) = some rest := by
  unfold behindColon?
  rw [if_pos (by simp), List.append_cons, takeWhile_reverse_append _ free, List.reverse_append]
  simp

theorem behindColon?_of_free {text : List Char} (free : ':' ∉ text) : behindColon? text = none := by
  unfold behindColon?
  rw [if_neg (by simpa using free)]

theorem port_eq_none (front : List Char) {rest : List Char} {c : Char} (free : ':' ∉ c :: rest)
    (no_digit : c.isDigit = false) (no_plus : c ≠ '+') :
    (behindColon? (front ++ c :: rest)).bind portNumber? = none := by
  by_cases colon : ':' ∈ front ++ c :: rest
  · unfold behindColon?
    rw [if_pos (by simpa using colon), takeWhile_reverse_append _ free]
    exact portNumber?_eq_none (List.mem_append_right _ (List.mem_cons_self ..)) no_digit no_plus
  · rw [behindColon?_of_free colon]
    rfl

end Http.Target

/-! ### The parts of an authority -/

def outerSigns : List Char :=
  ['/', '?', '#', '@']

theorem not_mem_of_isForbidden {text : List Char} {c : Char}
    (allowed : ∀ d ∈ text, Url.Domain.isForbidden d = false)
    (sign : c ∈ '[' :: ']' :: ':' :: outerSigns) : c ∉ text := by
  have forbidden : ∀ d ∈ '[' :: ']' :: ':' :: outerSigns,
      Url.Domain.isForbidden d = true := Text.forall_of_all <| by
    simp only [Url.Domain.isForbidden_eq]
    decide
  intro mem
  have spoils := forbidden c sign
  rw [allowed c mem] at spoils
  cases spoils

theorem Host.Proper.not_mem_chars {host : Host} (proper : host.Proper) {c : Char}
    (sign : c ∈ outerSigns) : c ∉ host.chars := by
  intro mem
  rcases proper.chars_cases with ⟨inner, written, signs⟩ | ⟨-, allowed⟩
  · have others : ∀ d ∈ outerSigns, d ≠ '[' ∧ d ≠ ']' ∧ d ≠ ':' ∧ d ∉ groupSigns :=
      Text.forall_of_all (by decide)
    obtain ⟨no_open, no_close, no_colon, no_group⟩ := others c sign
    simp only [written, List.mem_cons, List.mem_append, List.not_mem_nil, or_false] at mem
    rcases mem with opens | mem_inner | closes
    · exact no_open opens
    · exact (signs c mem_inner).elim no_colon no_group
    · exact no_close closes
  · have spoils : c ∈ '[' :: ']' :: ':' :: outerSigns := by
      simp only [List.mem_cons, sign, or_true]
    exact not_mem_of_isForbidden allowed spoils mem

namespace Authority

variable {a : Authority}

theorem mem_portChars {c : Char} (mem : c ∈ a.portChars) : c = ':' ∨ c.isDigit = true := by
  unfold portChars at mem
  split at mem
  · cases mem
  · exact (List.mem_cons.1 mem).imp_right Text.isDigit_of_mem_toDigits

theorem not_mem_portChars (a : Authority) {c : Char} (sign : c ∈ outerSigns) :
    c ∉ a.portChars := by
  have others : ∀ d ∈ outerSigns, ¬(d = ':' ∨ d.isDigit = true) :=
    Text.forall_of_all (by decide)
  exact fun mem => others c sign (mem_portChars mem)

theorem hostChars_eq {host : Host} (known : a.host = some host) : a.hostChars = host.chars := by
  unfold hostChars
  rw [known]
  rfl

def loginChars (a : Authority) : List Char :=
  a.username.toList ++ if a.password = "" then [] else ':' :: a.password.toList

theorem credentialChars_eq (a : Authority) :
    a.credentialChars = [] ∧ a.loginChars = [] ∨ a.credentialChars = a.loginChars ++ ['@'] := by
  unfold credentialChars loginChars
  by_cases empty : (a.username = "" && a.password = "") = true
  · rw [if_pos empty]
    simp only [Bool.and_eq_true, decide_eq_true_iff] at empty
    rw [empty.1, empty.2]
    exact .inl ⟨rfl, rfl⟩
  · rw [if_neg empty]
    exact .inr rfl

theorem Proper.not_mem_loginChars (proper : a.Proper) {c : Char}
    (sign : c ∈ outerSigns) : c ∉ a.loginChars := by
  have others : ∀ d ∈ outerSigns, d ∈ addressSigns ∧ d ≠ ':' :=
    Text.forall_of_all (by decide)
  obtain ⟨listed, no_colon⟩ := others c sign
  unfold loginChars
  intro mem
  rcases List.mem_append.1 mem with name | word
  · exact proper.username c name listed
  · split at word
    · cases word
    · rcases List.mem_cons.1 word with colon | word
      · exact no_colon colon
      · exact proper.password c word listed

theorem Proper.not_mem_address (proper : a.Proper) {c : Char}
    (sign : c ∈ outerSigns) : c ∉ a.hostChars ++ a.portChars := by
  obtain ⟨host, known, proper_host⟩ := proper.host
  rw [hostChars_eq known, List.mem_append]
  exact not_or.2 ⟨proper_host.not_mem_chars sign, a.not_mem_portChars sign⟩

theorem Proper.splitLogin_chars (proper : a.Proper) :
    Url.splitLogin a.chars = (a.loginChars, a.hostChars ++ a.portChars) := by
  have free := proper.not_mem_address (c := '@') (by decide)
  unfold chars
  rcases a.credentialChars_eq with ⟨none, empty⟩ | login
  · rw [none, empty, List.nil_append, Url.splitLogin_of_free free]
  · rw [login, List.append_assoc, List.append_assoc, List.singleton_append, Url.splitLogin_at free]

theorem Proper.username_eq (proper : a.Proper) :
    a.loginChars.takeWhile (· != ':') = a.username.toList := by
  have plain := Text.forall_bne_of_not_mem fun mem => proper.username ':' mem (by decide)
  unfold loginChars
  rw [List.takeWhile_append_of_pos plain]
  split <;> simp

theorem Proper.password_eq (proper : a.Proper) :
    (a.loginChars.dropWhile (· != ':')).drop 1 = a.password.toList := by
  have plain := Text.forall_bne_of_not_mem fun mem => proper.username ':' mem (by decide)
  unfold loginChars
  rw [List.dropWhile_append_of_pos plain]
  split
  · rename_i empty
    rw [empty]
    rfl
  · simp

theorem Proper.hostChars_address (proper : a.Proper) :
    Http.Target.hostChars (a.hostChars ++ a.portChars) = a.hostChars := by
  obtain ⟨host, known, proper_host⟩ := proper.host
  rw [hostChars_eq known]
  rcases proper_host.chars_cases with ⟨inner, written, signs⟩ | ⟨nonempty, allowed⟩
  · have free : ']' ∉ inner := by
      intro mem
      have no_group : ']' ≠ ':' ∧ ']' ∉ Host.groupSigns := by decide
      exact (signs ']' mem).elim no_group.1 no_group.2
    have plain := Text.forall_bne_of_not_mem free
    rw [written, List.cons_append, List.append_assoc]
    unfold Http.Target.hostChars
    simp only [List.takeWhile_append_of_pos plain, List.dropWhile_append_of_pos plain]
    simp
  · have plain := Text.forall_bne_of_not_mem (not_mem_of_isForbidden (c := ':') allowed (by decide))
    have no_bracket := not_mem_of_isForbidden (c := '[') allowed (by decide)
    have port : a.portChars.takeWhile (· != ':') = [] := by
      unfold portChars
      cases a.port <;> simp
    unfold Http.Target.hostChars
    split
    · rename_i rest starts
      cases chars : host.chars with
      | nil => exact absurd chars nonempty
      | cons c others =>
        rw [chars, List.cons_append] at starts
        cases starts
        exact absurd (chars ▸ List.mem_cons_self ..) no_bracket
    · rw [List.takeWhile_append_of_pos plain, port, List.append_nil]

theorem Proper.port_eq (proper : a.Proper) :
    (Http.Target.behindColon? a.chars).bind Http.Target.portNumber? = a.port := by
  cases known_port : a.port with
  | some port =>
    have chars : a.chars = (a.credentialChars ++ a.hostChars) ++ ':' :: Nat.toDigits 10 port := by
      unfold Authority.chars portChars
      rw [known_port]
    have free : ':' ∉ Nat.toDigits 10 port :=
      fun mem => absurd (Text.isDigit_of_mem_toDigits mem) (by decide)
    rw [chars, Http.Target.behindColon?_eq free]
    exact Http.Target.portNumber?_toDigits (proper.port port known_port)
  | none =>
    obtain ⟨host, known, proper_host⟩ := proper.host
    have chars : a.chars = a.credentialChars ++ host.chars := by
      unfold Authority.chars portChars
      rw [known_port, hostChars_eq known]
      exact List.append_nil _
    -- Without a port the last colon, if there is one, stands in brackets or in the credentials.
    rcases proper_host.chars_cases with ⟨inner, written, -⟩ | ⟨-, allowed⟩
    · rw [chars, written, ← List.cons_append, ← List.append_assoc]
      exact Http.Target.port_eq_none _ (by decide) (by decide) (by decide)
    · have free := not_mem_of_isForbidden (c := ':') allowed (by decide)
      rcases a.credentialChars_eq with ⟨none, -⟩ | login
      · rw [chars, none, List.nil_append, Http.Target.behindColon?_of_free free]
        rfl
      · rw [chars, login, List.append_assoc, List.singleton_append]
        refine Http.Target.port_eq_none _ ?_ (by decide) (by decide)
        rw [List.mem_cons]
        exact not_or.2 ⟨by decide, free⟩

theorem Proper.not_mem_chars (proper : a.Proper) {c : Char} (sign : c ∈ ['/', '?', '#']) :
    c ∉ a.chars := by
  have others : ∀ d ∈ ['/', '?', '#'], d ∈ outerSigns ∧ d ≠ '@' :=
    Text.forall_of_all (by decide)
  obtain ⟨listed, no_at⟩ := others c sign
  have free := proper.not_mem_address listed
  unfold chars
  rcases a.credentialChars_eq with ⟨none, -⟩ | login
  · rwa [none, List.nil_append]
  · rw [login, List.append_assoc, List.mem_append, List.mem_append, List.mem_singleton]
    exact not_or.2 ⟨not_or.2 ⟨proper.not_mem_loginChars listed, no_at⟩, free⟩

theorem Proper.takeWhile_chars (proper : a.Proper) {behind : List Char}
    (ends : ∀ c ∈ behind.head?, Http.Target.endsAuthority c = true) :
    (a.chars ++ behind).takeWhile (fun c => !Http.Target.endsAuthority c) = a.chars := by
  have pass : ∀ c ∈ a.chars, (!Http.Target.endsAuthority c) = true := by
    intro c mem
    by_contra stops
    rw [Bool.not_eq_true', Bool.not_eq_false] at stops
    unfold Http.Target.endsAuthority at stops
    simp only [Bool.or_eq_true, decide_eq_true_iff] at stops
    have sign : c ∈ ['/', '?', '#'] := by
      rcases stops with (rfl | rfl) | rfl <;> decide
    exact proper.not_mem_chars sign mem
  exact Text.takeWhile_append_of_ends pass fun c first => by rw [ends c first]; rfl

end Authority

/-! ### Targets -/

namespace Http.Target

/-- A target is read from a text that is not too long: its authority stands behind the scheme, and
its path behind the authority, which nothing follows if there is no scheme. -/
theorem parse_cases {text : String} {t : Target} (read : parse text = .ok t) :
    text.utf8ByteSize ≤ maxLength ∧ ∃ scheme rest,
      splitScheme text.toList = .ok (scheme, rest) ∧
      checkAuthority (rest.takeWhile fun c => !endsAuthority c) = .ok () ∧
      t.authority = String.ofList (rest.takeWhile fun c => !endsAuthority c) ∧
      (scheme = none ∧ rest.dropWhile (fun c => !endsAuthority c) = [] ∧ t.path = "" ∨
        ∃ name path, scheme = some name ∧
          readPath (rest.dropWhile fun c => !endsAuthority c) = .ok path ∧
          t = ⟨some (String.ofList name), t.authority, String.ofList path⟩) := by
  unfold parse at read
  by_cases long : maxLength < text.utf8ByteSize
  · rw [if_pos long] at read
    cases read
  · rw [if_neg long] at read
    obtain ⟨⟨scheme, rest⟩, split, read⟩ := Result.bind_eq_ok.1 read
    obtain ⟨_, checked, read⟩ := Result.bind_eq_ok.1 read
    refine ⟨Nat.le_of_not_lt long, scheme, rest, split, checked, ?_⟩
    cases scheme with
    | none =>
      simp only at read
      split at read
      · cases read
      · rename_i behind
        cases read
        exact ⟨rfl, .inl ⟨rfl, by simpa using behind, rfl⟩⟩
    | some name =>
      simp only at read
      split at read
      · cases read
      · obtain ⟨path, found, read⟩ := Result.bind_eq_ok.1 read
        cases read
        exact ⟨rfl, .inr ⟨name, path, rfl, found, rfl⟩⟩

/-- A target with a scheme has the text up to the next slash, question mark or number sign as its
authority, and its path is read from what follows. -/
theorem parse_eq_ok {text : String} {scheme rest : List Char} {t : Target}
    (split : splitScheme text.toList = .ok (some scheme, rest)) (read : parse text = .ok t) :
    ∃ path, readPath (rest.dropWhile fun c => !endsAuthority c) = .ok path ∧
      t = ⟨some (String.ofList scheme),
        String.ofList (rest.takeWhile fun c => !endsAuthority c), String.ofList path⟩ := by
  obtain ⟨-, _, _, first, -, authority, cases⟩ := parse_cases read
  rw [split] at first
  cases first
  rcases cases with ⟨none, -⟩ | ⟨name, path, same, found, whole⟩
  · cases none
  · cases same
    exact ⟨path, found, authority ▸ whole⟩

theorem splitScheme_eq {scheme rest : List Char} (plain : ∀ c ∈ scheme, isSchemeChar c = true)
    (short : scheme.length ≤ maxSchemeLength) :
    splitScheme (scheme ++ ':' :: '/' :: '/' :: rest) = .ok (some scheme, rest) := by
  have ends : ∀ c ∈ (':' :: '/' :: '/' :: rest).head?, isSchemeChar c = false := by
    rintro c ⟨⟩
    decide
  unfold splitScheme
  rw [Text.takeWhile_append_of_ends plain ends, Text.dropWhile_append_of_ends plain ends]
  exact if_neg (Nat.not_lt.2 short)

end Http.Target

namespace Url

variable {u : Url} {a : Authority}

theorem endsAuthority_behind
    (path : u.path.toList = [] ∨ ∃ rest, u.path.toList = '/' :: rest) {c : Char}
    (first : c ∈ (u.path.toList ++ partChars '?' u.query ++ partChars '#' u.fragment).head?) :
    Http.Target.endsAuthority c = true := by
  rcases path with empty | ⟨rest, slash⟩
  · rw [empty] at first
    cases query : u.query with
    | some query =>
      rw [query] at first
      cases first
      decide
    | none =>
      rw [query] at first
      cases fragment : u.fragment with
      | some fragment =>
        rw [fragment] at first
        cases first
        decide
      | none =>
        rw [fragment] at first
        cases first
  · rw [slash] at first
    cases first
    decide

def tailChars (u : Url) : List Char :=
  u.path.toList ++ partChars '?' u.query ++ partChars '#' u.fragment

theorem toList_text (known : u.authority = some a) :
    u.text.toList = u.scheme.toList ++ ':' :: '/' :: '/' :: (a.chars ++ u.tailChars) := by
  unfold text chars targetChars originChars tailChars
  rw [known, String.toList_ofList]
  simp

theorem target_eq_ok {t : Http.Target} (known : u.authority = some a) (proper : a.Proper)
    (path : u.path.toList = [] ∨ ∃ rest, u.path.toList = '/' :: rest)
    (plain : ∀ c ∈ u.scheme.toList, Http.Target.isSchemeChar c = true)
    (short : u.scheme.toList.length ≤ Http.Target.maxSchemeLength)
    (read : Http.Target.parse u.text = .ok t) :
    ∃ path, Http.Target.readPath u.tailChars = .ok path ∧
      t = ⟨some u.scheme, String.ofList a.chars, String.ofList path⟩ := by
  obtain ⟨path_read, found, same⟩ := Http.Target.parse_eq_ok
    (by rw [toList_text known]; exact Http.Target.splitScheme_eq plain short) read
  have inside : (a.chars ++ u.tailChars).takeWhile (fun c => !Http.Target.endsAuthority c) =
      a.chars := proper.takeWhile_chars fun _ => endsAuthority_behind path
  have behind : (a.chars ++ u.tailChars).dropWhile (fun c => !Http.Target.endsAuthority c) =
      u.tailChars := by
    have whole := List.takeWhile_append_dropWhile (p := fun c => !Http.Target.endsAuthority c)
      (l := a.chars ++ u.tailChars)
    rw [inside] at whole
    exact List.append_cancel_left whole
  rw [behind] at found
  rw [inside, String.ofList_toList] at same
  exact ⟨path_read, found, same⟩

/-- A target that is read from the text of an address goes where the address goes. -/
theorem origin?_target {t : Http.Target} (known : u.authority = some a) (proper : a.Proper)
    (path : u.path.toList = [] ∨ ∃ rest, u.path.toList = '/' :: rest)
    (plain : ∀ c ∈ u.scheme.toList, Http.Target.isSchemeChar c = true)
    (short : u.scheme.toList.length ≤ Http.Target.maxSchemeLength)
    (read : Http.Target.parse u.text = .ok t) : t.origin? = u.origin? := by
  obtain ⟨_, -, rfl⟩ := target_eq_ok known proper path plain short read
  obtain ⟨host, known_host, -⟩ := proper.host
  have host_chars := proper.hostChars_address
  rw [Authority.hostChars_eq known_host] at host_chars
  unfold Http.Target.origin? Url.origin?
  rw [known, String.toList_ofList, proper.splitLogin_chars]
  simp only [Option.map_some, Option.bind_some, known_host, proper.username_eq,
    proper.password_eq, proper.port_eq, String.ofList_toList, Host.text]
  rw [← Authority.hostChars_eq known_host, proper.hostChars_address]

end Url

end PetClient
