import PetClient.Proofs.Result
import PetClient.Proofs.Url.Domain.Fixed
import PetClient.Proofs.Url.Ipv4
import PetClient.Proofs.Url.Ipv6
import PetClient.Proofs.Url.Percent
import PetClient.Url.Host

/-!
Hosts: which characters they are written with, that no host ends in a blank or a control, and that
each is read again from its own text.
-/

namespace PetClient

open Url.Domain (isForbidden)

namespace Url

theorem hexDigit?_of_isOuterBlank {c : Char} (low : isOuterBlank c = true) :
    Text.hexDigit? c = none :=
  Text.forall_ascii (q := fun c => Text.hexDigit? c = none) (by decide)
    (toNat_lt_of_isOuterBlank low)

theorem exists_name_of_domainOf {text domain : List Char} (read : domainOf text = .ok domain) :
    ∃ name, Utf8.decode? (percentDecode (Utf8.encode text)) = some name ∧
      Domain.toAscii? name = some domain := by
  unfold domainOf at read
  split at read
  · rename_i found
    cases read
    exact Option.bind_eq_some_iff.1 found
  · cases read

theorem not_isOuterBlank_of_domainOf {text domain : List Char} (read : domainOf text = .ok domain)
    {c : Char} (mem : c ∈ text) : isOuterBlank c = false := by
  by_contra low
  rw [Bool.not_eq_false] at low
  have ascii : c.toNat < 0x80 := Nat.lt_of_lt_of_le (toNat_lt_of_isOuterBlank low) (by decide)
  have byte : (UInt8.ofNat c.toNat).toNat = c.toNat := by
    rw [UInt8.toNat_ofNat']
    omega
  obtain ⟨name, decoded, written⟩ := exists_name_of_domainOf read
  have kept : UInt8.ofNat c.toNat ∈ percentDecode (Utf8.encode text) := by
    apply mem_percentDecode ((Utf8.mem_encode_ascii ascii).2 mem)
    · intro percent
      have number := congrArg UInt8.toNat percent
      rw [byte] at number
      have bound := toNat_lt_of_isOuterBlank low
      change c.toNat = 0x25 at number
      omega
    · rw [byte, Char.ofNat_toNat]
      exact hexDigit?_of_isOuterBlank low
  rw [Utf8.decode?_eq_some_iff.1 decoded, Utf8.mem_encode_ascii ascii] at kept
  have sign := Domain.not_isOuterBlank_of_mem_name written kept
  rw [low] at sign
  cases sign

theorem not_isForbidden_of_domainOf {text domain : List Char}
    (read : domainOf text = .ok domain) {c : Char} (mem : c ∈ domain) : isForbidden c = false := by
  obtain ⟨name, -, written⟩ := exists_name_of_domainOf read
  exact Domain.not_isForbidden_of_mem_toAscii? written mem

theorem not_isOuterBlank_of_knownHost {text : List Char} {host : Host}
    (read : knownHost text = .ok host) {c : Char} (last : text.getLast? = some c) :
    isOuterBlank c = false := by
  unfold knownHost at read
  split at read
  · rename_i rest
    unfold bracketedHost at read
    split at read
    · rename_i closed
      cases rest with
      | nil => cases closed
      | cons d others =>
        rw [List.getLast?_cons_cons, closed] at last
        cases last
        decide
    · cases read
  · obtain ⟨domain, known, -⟩ := Result.bind_eq_ok.1 read
    exact not_isOuterBlank_of_domainOf known (List.mem_of_getLast? last)

end Url

namespace Host

def Proper : Host → Prop
  | name text => text.toList ≠ [] ∧ ∀ c ∈ text.toList, isForbidden c = false
  | _ => True

def groupSigns : List Char :=
  (List.range 16).map Nat.digitChar

theorem mem_toDigits_hex {n : Nat} {c : Char} (mem : c ∈ Nat.toDigits 16 n) : c ∈ groupSigns := by
  induction n using Nat.strongRecOn with
  | _ n ih =>
    by_cases single : n < 16
    · rw [Nat.toDigits_of_lt_base single, List.mem_singleton] at mem
      exact List.mem_map.2 ⟨n, List.mem_range.2 single, mem.symm⟩
    · rw [Nat.toDigits_of_base_le (by decide) (Nat.le_of_not_lt single), List.mem_append,
        List.mem_singleton] at mem
      rcases mem with front | rfl
      · exact ih (n / 16) (by omega) front
      · exact List.mem_map.2 ⟨n % 16, List.mem_range.2 (Nat.mod_lt n (by decide)), rfl⟩

theorem mem_groupChars {groups : List Nat} {c : Char} (mem : c ∈ groupChars groups) :
    c = ':' ∨ c ∈ groupSigns := by
  rcases Text.mem_intercalate mem with colon | ⟨part, mem_parts, mem_part⟩
  · exact .inl colon
  · obtain ⟨group, -, rfl⟩ := List.mem_map.1 mem_parts
    exact .inr (mem_toDigits_hex mem_part)

theorem mem_ipv6Chars {groups : List Nat} {c : Char} (mem : c ∈ ipv6Chars groups) :
    c = ':' ∨ c ∈ groupSigns := by
  unfold ipv6Chars at mem
  simp only at mem
  split at mem
  · exact mem_groupChars mem
  · rcases List.mem_append.1 mem with front | back
    · rcases List.mem_append.1 front with before | colon
      · exact mem_groupChars before
      · simp only [List.mem_cons, List.not_mem_nil, or_false, or_self] at colon
        exact .inl colon
    · exact mem_groupChars back

theorem not_isForbidden_of_isDigit {c : Char} (digit : c.isDigit = true) :
    isForbidden c = false := by
  have letter : Url.Punycode.isDigit c = true :=
    Text.forall_digit (q := fun c => Url.Punycode.isDigit c = true) (by decide) digit
  exact Url.Domain.not_isForbidden_of_isDigit letter

theorem mem_ipv4Chars {address : UInt32} {c : Char} (mem : c ∈ ipv4Chars address) :
    c = '.' ∨ c.isDigit = true := by
  rw [Url.Ipv4.ipv4Chars_eq] at mem
  rcases Text.mem_intercalate mem with point | ⟨part, mem_parts, mem_part⟩
  · exact .inl point
  · obtain ⟨n, -, rfl⟩ := List.mem_map.1 mem_parts
    exact .inr (Text.isDigit_of_mem_toDigits mem_part)

theorem not_isForbidden_of_mem_ipv4Chars {address : UInt32} {c : Char}
    (mem : c ∈ ipv4Chars address) : isForbidden c = false := by
  rcases mem_ipv4Chars mem with rfl | digit
  · exact Url.Domain.not_isForbidden_point
  · exact not_isForbidden_of_isDigit digit

/-- A host is written in brackets, with groups and colons between them, or without any sign that
has a meaning in an address. -/
theorem Proper.chars_cases {host : Host} (proper : host.Proper) :
    (∃ inner, host.chars = '[' :: (inner ++ [']']) ∧ ∀ c ∈ inner, c = ':' ∨ c ∈ groupSigns) ∨
      host.chars ≠ [] ∧ ∀ c ∈ host.chars, isForbidden c = false := by
  cases host with
  | name text => exact .inr proper
  | ipv4 address =>
    refine .inr ⟨?_, fun c mem => not_isForbidden_of_mem_ipv4Chars mem⟩
    simp [chars, ipv4Chars]
  | ipv6 groups => exact .inl ⟨ipv6Chars groups, rfl, fun c mem => mem_ipv6Chars mem⟩

end Host

namespace Url

theorem bracketedHost_eq_ok {text : List Char} {host : Host} (read : bracketedHost text = .ok host) :
    ∃ groups, Ipv6.groups? text.dropLast = some groups ∧ host = .ipv6 groups := by
  unfold bracketedHost at read
  split at read
  · split at read
    · rename_i groups found
      cases read
      exact ⟨groups, found, rfl⟩
    · cases read
  · cases read

theorem proper_bracketedHost {text : List Char} {host : Host}
    (read : bracketedHost text = .ok host) : host.Proper := by
  obtain ⟨groups, -, rfl⟩ := bracketedHost_eq_ok read
  trivial

/-- A host is an address in brackets, one of four bytes, or a name that is no number. -/
theorem knownHost_cases {text : List Char} {host : Host} (read : knownHost text = .ok host) :
    (∃ inner groups, Ipv6.groups? inner = some groups ∧ host = .ipv6 groups) ∨
      (∃ address, host = .ipv4 address) ∨
      ∃ domain, domainOf text = .ok domain ∧ domain ≠ [] ∧ Ipv4.endsInNumber domain = false ∧
        host = .name (String.ofList domain) := by
  unfold knownHost at read
  split at read
  · obtain ⟨groups, found, rfl⟩ := bracketedHost_eq_ok read
    exact .inl ⟨_, groups, found, rfl⟩
  · obtain ⟨domain, known, read⟩ := Result.bind_eq_ok.1 read
    split at read
    · cases read
    · rename_i nonempty
      split at read
      · split at read
        · rename_i address _
          cases read
          exact .inr (.inl ⟨address, rfl⟩)
        · cases read
      · rename_i name
        cases read
        exact .inr (.inr ⟨domain, known, by simpa using nonempty, Bool.not_eq_true _ ▸ name, rfl⟩)

theorem proper_knownHost {text : List Char} {host : Host} (read : knownHost text = .ok host) :
    host.Proper := by
  rcases knownHost_cases read with ⟨_, groups, -, rfl⟩ | ⟨address, rfl⟩ |
    ⟨domain, known, nonempty, -, rfl⟩
  · trivial
  · trivial
  · simp only [Host.Proper, String.toList_ofList]
    exact ⟨nonempty, fun c mem => not_isForbidden_of_domainOf known mem⟩

/-! ### Hosts that are read again -/

theorem toAscii?_ipv4Chars (address : UInt32) :
    Domain.toAscii? (Host.ipv4Chars address) = some (Host.ipv4Chars address) := by
  have low {c : Char} (mem : c ∈ Host.ipv4Chars address) : c.toNat ≤ 0x39 := by
    rcases Host.mem_ipv4Chars mem with rfl | digit
    · decide
    · exact (Char.isDigit_iff_toNat.1 digit).2
  refine Domain.toAscii?_of_lowerCase (fun c mem => ?_) fun part mem => ?_
  · have bound := low mem
    exact ⟨by omega, by omega, Host.not_isForbidden_of_mem_ipv4Chars mem⟩
  · rw [Bool.eq_false_iff]
    intro marked
    have letter : 'x' ∈ part := (List.isPrefixOf_iff_prefix.1 marked).subset (List.mem_cons_self ..)
    exact absurd (low (Text.mem_of_mem_splitAt mem letter)) (by decide)

section Domain

variable {domain : List Char} (ascii : Domain.toAscii? domain = some domain)

include ascii

theorem domainOf_of_toAscii? : domainOf domain = .ok domain := by
  have plain : 0x25 ∉ Utf8.encode domain := by
    intro percent
    have sign : '%' ∈ domain := (Utf8.mem_encode_ascii (c := '%') (by decide)).1 percent
    have allowed := Domain.not_isForbidden_of_mem_toAscii? ascii sign
    rw [Domain.isForbidden_eq] at allowed
    cases allowed
  unfold domainOf
  rw [percentDecode_of_not_mem plain, Utf8.decode?_eq_some_iff.2 rfl, Option.bind_some, ascii]

/-- A name in ASCII is read as it stands. -/
theorem knownHost_of_toAscii? (nonempty : domain ≠ []) :
    knownHost domain =
      if Ipv4.endsInNumber domain then
        match Ipv4.address? domain with
        | some address => .ok (.ipv4 address)
        | none => .error .ipv4Invalid
      else .ok (.name (String.ofList domain)) := by
  unfold knownHost
  split
  · have allowed := Domain.not_isForbidden_of_mem_toAscii? ascii (List.mem_cons_self ..)
    rw [Domain.isForbidden_eq] at allowed
    cases allowed
  · rw [domainOf_of_toAscii? ascii]
    exact if_neg fun empty => nonempty (List.isEmpty_iff.1 empty)

end Domain

theorem knownHost_chars {text : List Char} {host : Host} (read : knownHost text = .ok host) :
    knownHost host.chars = .ok host := by
  rcases knownHost_cases read with ⟨inner, groups, found, rfl⟩ | ⟨address, rfl⟩ |
    ⟨domain, known, nonempty, name, rfl⟩
  · change bracketedHost (Host.ipv6Chars groups ++ [']']) = _
    unfold bracketedHost
    rw [if_pos List.getLast?_concat, List.dropLast_concat,
      Ipv6.groups?_ipv6Chars (Ipv6.isAddress_of_groups? found)]
  · change knownHost (Host.ipv4Chars address) = _
    rw [knownHost_of_toAscii? (toAscii?_ipv4Chars address) (by simp [Host.ipv4Chars]),
      Ipv4.endsInNumber_ipv4Chars, Ipv4.address?_ipv4Chars]
    rfl
  · obtain ⟨source, -, written⟩ := exists_name_of_domainOf known
    have ascii := Domain.toAscii?_of_toAscii? written
    rw [Host.chars, String.toList_ofList, knownHost_of_toAscii? ascii nonempty, name]
    rfl

end Url

end PetClient
