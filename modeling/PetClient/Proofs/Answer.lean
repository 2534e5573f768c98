import PetClient.Http.Wire
import PetClient.Proofs.Text.Basic
import PetClient.Proofs.Text.Number
import PetClient.Proofs.Text.Parts
import PetClient.Proofs.Text.Utf8

/-!
Answers that are written out in full are read as what they say: the status of the first line, and
the body behind the empty line, whether its length is told or it ends with the connection.
-/

namespace PetClient.Http.Wire

/-! ### Lines as they are written -/

def lineEnd : Bytes :=
  [0x0D, 0x0A]

def decimal (n : Nat) : Bytes :=
  Utf8.encode (Nat.toDigits 10 n)

def statusLine (status : Status) (reason : Option Bytes) : Bytes :=
  Utf8.bytesOf "HTTP/1.1 " ++ (decimal status.code ++ (reason.map (0x20 :: ·)).getD [])

def lengthLine (length : Nat) : Bytes :=
  Utf8.bytesOf "Content-Length" ++ 0x3A :: 0x20 :: decimal length

/-- A response as it is sent, without other header fields than the length. -/
def written (reason : Option Bytes) (sized : Bool) (response : Response) : Bytes :=
  statusLine response.status reason ++ lineEnd ++
    ((if sized then lengthLine response.body.length ++ lineEnd else []) ++
      lineEnd ++ response.body)

/-- Whether bytes are a complete response, with any reason behind its code, and with its length or
without. -/
def Complete (bytes : Bytes) (response : Response) : Prop :=
  ∃ reason sized, (∀ text, reason = some text → ∀ b ∈ text, isValueByte b = true) ∧
    (sized = true → response.body.length + 2 < lengthBound) ∧
    bytes = written reason sized response

/-! ### Visible text -/

def isVisible (c : Char) : Bool :=
  0x21 ≤ c.toNat && c.toNat ≤ 0x7E

theorem toNat_of_isVisible {c : Char} (visible : isVisible c = true) :
    0x21 ≤ c.toNat ∧ c.toNat ≤ 0x7E := by
  unfold isVisible at visible
  rwa [Bool.and_eq_true, decide_eq_true_iff, decide_eq_true_iff] at visible

theorem isVisible_of_isDigit {c : Char} (digit : c.isDigit = true) : isVisible c = true := by
  have bounds := Char.isDigit_iff_toNat.1 digit
  change 0x30 ≤ c.toNat ∧ c.toNat ≤ 0x39 at bounds
  unfold isVisible
  rw [Bool.and_eq_true, decide_eq_true_iff, decide_eq_true_iff]
  omega

theorem encode_of_visible {text : List Char} (visible : ∀ c ∈ text, isVisible c = true) :
    Utf8.encode text = text.map fun c => UInt8.ofNat c.toNat := by
  induction text with
  | nil => rfl
  | cons c rest ih =>
    have bounds := toNat_of_isVisible (visible c (List.mem_cons_self ..))
    rw [Utf8.encode_cons, Utf8.encodeChar_of_ascii (by omega),
      ih fun d mem => visible d (List.mem_cons_of_mem _ mem)]
    rfl

theorem byte_of_visible {text : List Char} (visible : ∀ c ∈ text, isVisible c = true) {b : UInt8}
    (mem : b ∈ Utf8.encode text) : 0x21 ≤ b.toNat ∧ b.toNat ≤ 0x7E := by
  rw [encode_of_visible visible] at mem
  obtain ⟨c, mem_text, rfl⟩ := List.mem_map.1 mem
  have bounds := toNat_of_isVisible (visible c mem_text)
  rw [UInt8.toNat_ofNat', Nat.mod_eq_of_lt (by omega)]
  exact bounds

theorem plainText?_encode {text : List Char} (visible : ∀ c ∈ text, isVisible c = true) :
    plainText? (Utf8.encode text) = some text := by
  have plain : ((Utf8.encode text).all fun b => b = 0x09 || (0x20 ≤ b && b < 0x7F)) = true := by
    rw [List.all_eq_true]
    intro b mem
    have bounds := byte_of_visible visible mem
    simp only [Bool.or_eq_true, Bool.and_eq_true, decide_eq_true_iff, UInt8.le_iff_toNat_le,
      UInt8.lt_iff_toNat_lt]
    change _ ∨ 0x20 ≤ b.toNat ∧ b.toNat < 0x7F
    omega
  have back : ∀ c ∈ text, Char.ofNat (UInt8.ofNat c.toNat).toNat = c := by
    intro c mem
    have bounds := toNat_of_isVisible (visible c mem)
    rw [UInt8.toNat_ofNat', Nat.mod_eq_of_lt (by omega), Char.ofNat_toNat]
  unfold plainText?
  rw [if_pos plain, encode_of_visible visible, List.map_map]
  exact congrArg some ((List.map_congr_left back).trans (List.map_id text))

theorem isValueByte_of_visible {text : List Char} (visible : ∀ c ∈ text, isVisible c = true) :
    ∀ b ∈ Utf8.encode text, isValueByte b = true := by
  intro b mem
  have bounds := byte_of_visible visible mem
  have other : b ≠ 0x7F := by
    rintro rfl
    exact absurd bounds.2 (by decide)
  have large : 0x20 ≤ b := by
    rw [UInt8.le_iff_toNat_le]
    change 0x20 ≤ b.toNat
    omega
  simp [isValueByte, large, other]

/-! ### Numbers -/

theorem isVisible_decimal (n : Nat) : ∀ c ∈ Nat.toDigits 10 n, isVisible c = true :=
  fun _ mem => isVisible_of_isDigit (Text.isDigit_of_mem_toDigits mem)

theorem natOf?_toDigits (n : Nat) : natOf? (Nat.toDigits 10 n) = some n := by
  have digits := Text.all_isDigit_toDigits n
  have nonempty : (Nat.toDigits 10 n).isEmpty = false := by simp
  unfold natOf?
  simp only [nonempty, digits, Bool.not_true, Bool.or_self, Bool.false_eq_true, if_false,
    Text.foldl_toDigits]

/-! ### Lines as they are read -/

theorem splitLine?_append {line : Bytes} (solid : ∀ b ∈ line, isValueByte b = true)
    (rest : Bytes) : splitLine? (line ++ (lineEnd ++ rest)) = some (line, rest) := by
  induction line with
  | nil => rfl
  | cons b line ih =>
    obtain ⟨here, later⟩ := List.forall_mem_cons.1 solid
    have others : b ≠ 0x0A ∧ b ≠ 0x0D := by
      constructor <;> rintro rfl <;> cases here
    rw [List.cons_append, splitLine?, ih later]
    · rfl
    · exact others.1
    · exact fun _ same => absurd same others.2

theorem length_toDigits_code (status : Status) : (Nat.toDigits 10 status.code).length = 3 := by
  obtain ⟨low, high⟩ := status.three_digits
  rw [Nat.toDigits_of_base_le (by decide) (by omega),
    Nat.toDigits_of_base_le (by decide) (by omega), Nat.toDigits_of_lt_base (by omega)]
  rfl

theorem length_decimal_code (status : Status) : (decimal status.code).length = 3 := by
  unfold decimal
  rw [encode_of_visible (isVisible_decimal _), List.length_map, length_toDigits_code]

theorem parts_eq {version code : Bytes} (tail : Bytes) (nine : version.length = 9)
    (three : code.length = 3) :
    (version ++ (code ++ tail)).take 9 = version ∧
      ((version ++ (code ++ tail)).drop 9).take 3 = code ∧
      (version ++ (code ++ tail)).drop 12 = tail := by
  have behind : (version ++ (code ++ tail)).drop 9 = code ++ tail := List.drop_left' nine
  refine ⟨List.take_left' nine, ?_, ?_⟩
  · rw [behind]
    exact List.take_left' three
  · have far : (version ++ (code ++ tail)).drop (9 + 3) = tail := by
      rw [← List.drop_drop, behind]
      exact List.drop_left' three
    exact far

theorem readStatus_statusLine (status : Status) {reason : Option Bytes}
    (solid : ∀ text, reason = some text → ∀ b ∈ text, isValueByte b = true) :
    readStatus (statusLine status reason) = some (status, true) := by
  have nine : (Utf8.bytesOf "HTTP/1.1 ").length = 9 := by cbv
  obtain ⟨version, code, rest⟩ := parts_eq ((reason.map (0x20 :: ·)).getD []) nine
    (length_decimal_code status)
  have read : (plainText? (decimal status.code)).bind natOf? = some status.code := by
    unfold decimal
    rw [plainText?_encode (isVisible_decimal _)]
    exact natOf?_toDigits _
  have known : Status.ofNat? status.code = some status := by
    unfold Status.ofNat?
    rw [dif_pos status.three_digits]
  unfold readStatus statusLine
  simp only [version, code, read, rest, known, if_true, Option.bind_eq_bind, Option.bind_some]
  cases reason with
  | none => rfl
  | some text =>
    have all : text.all isValueByte = true := List.all_eq_true.2 (solid text rfl)
    simp [all]

theorem isValueByte_statusLine (status : Status) {reason : Option Bytes}
    (solid : ∀ text, reason = some text → ∀ b ∈ text, isValueByte b = true) :
    ∀ b ∈ statusLine status reason, isValueByte b = true := by
  have version : ∀ b ∈ Utf8.bytesOf "HTTP/1.1 ", isValueByte b = true := by
    rw [← List.all_eq_true]
    cbv
  intro b mem
  rcases List.mem_append.1 mem with front | mem
  · exact version b front
  · rcases List.mem_append.1 mem with digits | mem
    · exact isValueByte_of_visible (isVisible_decimal _) b digits
    · cases reason with
      | none => cases mem
      | some text =>
        rcases List.mem_cons.1 mem with rfl | inside
        · decide
        · exact solid text rfl b inside

theorem isValueByte_lengthLine (length : Nat) :
    ∀ b ∈ lengthLine length, isValueByte b = true := by
  have name : ∀ b ∈ Utf8.bytesOf "Content-Length", isValueByte b = true := by
    rw [← List.all_eq_true]
    cbv
  have signs : isValueByte 0x3A = true ∧ isValueByte 0x20 = true := by decide
  intro b mem
  rcases List.mem_append.1 mem with front | mem
  · exact name b front
  · rcases List.mem_cons.1 mem with rfl | mem
    · exact signs.1
    · rcases List.mem_cons.1 mem with rfl | digits
      · exact signs.2
      · exact isValueByte_of_visible (isVisible_decimal _) b digits

theorem not_isBlank_decimal (n : Nat) : ∀ b ∈ decimal n, isBlank b = false := by
  intro b mem
  have bounds := byte_of_visible (isVisible_decimal n) mem
  unfold isBlank
  rw [Bool.or_eq_false_iff, decide_eq_false_iff_not, decide_eq_false_iff_not]
  constructor <;> rintro rfl <;> exact absurd bounds.1 (by decide)

theorem trim_decimal (n : Nat) : trim (0x20 :: decimal n) = decimal n := by
  have plain := not_isBlank_decimal n
  have front := Text.dropWhile_eq_self plain
  have back := Text.dropWhile_eq_self fun b mem => plain b (List.mem_reverse.1 mem)
  unfold trim
  rw [List.dropWhile_cons_of_pos (by decide), front, back, List.reverse_reverse]

theorem readHeader_lengthLine (length : Nat) :
    readHeader (lengthLine length) = some ("content-length", decimal length) := by
  have plain : ∀ b ∈ Utf8.bytesOf "Content-Length", (b != 0x3A) = true := by
    rw [← List.all_eq_true]
    cbv
  have name : (Utf8.string? (Utf8.bytesOf "Content-Length")).bind fieldName? =
      some "content-length" := by
    cbv
  have front : (lengthLine length).takeWhile (· != 0x3A) = Utf8.bytesOf "Content-Length" := by
    unfold lengthLine
    rw [List.takeWhile_append_of_pos plain]
    simp
  have behind : (lengthLine length).dropWhile (· != 0x3A) = 0x3A :: 0x20 :: decimal length := by
    unfold lengthLine
    rw [List.dropWhile_append_of_pos plain]
    rfl
  have solid : (decimal length).all isValueByte = true :=
    List.all_eq_true.2 (isValueByte_of_visible (isVisible_decimal length))
  unfold readHeader
  simp only [front, behind, List.tail?_cons, name, trim_decimal, solid, if_true,
    Option.bind_eq_bind, Option.bind_some]

/-- A line that is not empty is a field, and others follow. -/
theorem readHeaders_of_splitLine? {bytes line rest : Bytes}
    (split : splitLine? bytes = some (line, rest)) :
    readHeaders bytes = if line = [] then some ([], rest) else
      (readHeader line).bind fun header =>
        (readHeaders rest).map fun parts => (header :: parts.1, parts.2) := by
  rw [readHeaders]
  split
  · rename_i none
    rw [split] at none
    cases none
  · rename_i found
    rw [split] at found
    cases found
    rfl
  · rename_i found
    rw [split] at found
    cases found
    rw [if_neg (List.cons_ne_nil _ _)]
    cases readHeader _ <;> cases readHeaders rest <;> rfl

theorem readHeaders_end (rest : Bytes) : readHeaders (lineEnd ++ rest) = some ([], rest) := by
  have split := splitLine?_append (List.forall_mem_nil _) rest
  rw [List.nil_append] at split
  rw [readHeaders_of_splitLine? split, if_pos rfl]

theorem readHeaders_line {line rest : Bytes} (nonempty : line ≠ [])
    (solid : ∀ b ∈ line, isValueByte b = true) :
    readHeaders (line ++ (lineEnd ++ rest)) = (readHeader line).bind fun header =>
      (readHeaders rest).map fun parts => (header :: parts.1, parts.2) := by
  rw [readHeaders_of_splitLine? (splitLine?_append solid rest), if_neg nonempty]

def lengthHeader (sized : Bool) (length : Nat) : List (String × Bytes) :=
  if sized then [("content-length", decimal length)] else []

theorem readHeaders_written (sized : Bool) (length : Nat) (body : Bytes) :
    readHeaders ((if sized then lengthLine length ++ lineEnd else []) ++ lineEnd ++ body) =
      some (lengthHeader sized length, body) := by
  cases sized with
  | false => exact readHeaders_end body
  | true =>
    have nonempty : lengthLine length ≠ [] := by simp [lengthLine]
    rw [if_pos rfl, List.append_assoc, List.append_assoc,
      readHeaders_line nonempty (isValueByte_lengthLine length), readHeader_lengthLine,
      readHeaders_end]
    rfl

/-! ### Bodies -/

theorem not_isWhitespace_of_visible {c : Char} (visible : isVisible c = true) :
    c.isWhitespace = false := by
  have bounds := toNat_of_isVisible visible
  exact Text.forall_ascii (q := fun c => isVisible c = true → c.isWhitespace = false)
    (by decide) (show c.toNat < 0x7F by omega) visible

theorem itemsOf?_decimal (n : Nat) : itemsOf? (decimal n) = some [Nat.toDigits 10 n] := by
  have visible := isVisible_decimal n
  have one : Text.splitAt ',' (Nat.toDigits 10 n) = [Nat.toDigits 10 n] :=
    Text.splitAt_of_not_mem fun mem => absurd (Text.isDigit_of_mem_toDigits mem) (by decide)
  have front := Text.dropWhile_eq_self fun c mem => not_isWhitespace_of_visible (visible c mem)
  have back := Text.dropWhile_eq_self fun c mem =>
    not_isWhitespace_of_visible (visible c (List.mem_reverse.1 mem))
  unfold itemsOf? decimal
  rw [plainText?_encode visible, Option.map_some, one, List.map_singleton, front, back,
    List.reverse_reverse]

theorem contentLength?_lengthHeader {length : Nat} (fits : length + 2 < lengthBound) :
    contentLength? (lengthHeader true length) = some (some length) := by
  have values : valuesOf (lengthHeader true length) "content-length" = [decimal length] := rfl
  unfold contentLength?
  rw [values]
  simp [itemsOf?_decimal, natOf?_toDigits, fits]

end PetClient.Http.Wire

namespace PetClient.Http

/-- Whether an answer with this status has a body, is the last one and sends nowhere else. -/
def Status.IsDirect (status : Status) : Prop :=
  200 ≤ status.code ∧ status.code ≤ 299 ∧ status.code ≠ 204 ∨ 400 ≤ status.code

namespace Wire

theorem readBody_written {response : Response} (direct : response.status.IsDirect) {sized : Bool}
    (fits : sized = true → response.body.length + 2 < lengthBound) (chunks : Bool) :
    readBody response.status chunks (lengthHeader sized response.body.length) response.body =
      some (some response.body) := by
  have carries : hasNoBody response.status = false := by
    unfold Status.IsDirect at direct
    unfold hasNoBody
    simp only [Bool.or_eq_false_iff, decide_eq_false_iff_not]
    omega
  have coding : valuesOf (lengthHeader sized response.body.length) "transfer-encoding" = [] := by
    cases sized <;> rfl
  unfold readBody
  simp only [carries, coding, Bool.false_eq_true, if_false, List.getLast?_nil]
  cases sized with
  | false => rfl
  | true => simp [contentLength?_lengthHeader (fits rfl)]

/-- A complete response is read as its status and its body. -/
theorem answer?_of_complete {bytes : Bytes} {response : Response} (complete : Complete bytes response)
    (direct : response.status.IsDirect) :
    ∃ sized, answer? bytes =
      some ⟨response.status, lengthHeader sized response.body.length, some response.body⟩ := by
  obtain ⟨reason, sized, solid, fits, rfl⟩ := complete
  have first : skipEmptyLines (written reason sized response) =
      some (written reason sized response) := rfl
  have last : isInterim response.status = false := by
    unfold Status.IsDirect at direct
    unfold isInterim
    simp only [Bool.and_eq_false_iff, decide_eq_false_iff_not]
    omega
  have few : ¬maxHeaders < (lengthHeader sized response.body.length).length := by
    unfold lengthHeader maxHeaders
    cases sized <;> simp
  refine ⟨sized, ?_⟩
  unfold answer? readAnswer
  simp only [first, Option.bind_eq_bind, Option.bind_some]
  unfold written
  rw [List.append_assoc, splitLine?_append (isValueByte_statusLine _ solid)]
  simp only [Option.bind_some, readStatus_statusLine _ solid, readHeaders_written, few, last,
    readBody_written direct fits, Bool.false_eq_true, if_false]

end Wire

end PetClient.Http
