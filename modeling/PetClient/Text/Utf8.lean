/-!
Bytes as text: every scalar value has one sequence of at most four bytes.  A byte sequence is read
strictly (up to its first ill-formed byte) or leniently (each ill-formed part becomes `U+FFFD`).
-/

namespace PetClient

abbrev Bytes := List UInt8

namespace Utf8

def encode (text : List Char) : Bytes :=
  text.flatMap String.utf8EncodeChar

def bytesOf (text : String) : Bytes :=
  encode text.toList

def first? (bytes : Bytes) : Option Char :=
  (bytes.take 4).toByteArray.utf8DecodeChar? 0

theorem first?_nil : first? [] = none := by
  decide +kernel

/-- The longest well-formed start of a byte sequence, as text, and the bytes after it. -/
def decodeStart (bytes : Bytes) : List Char × Bytes :=
  match _found : first? bytes with
  | none => ([], bytes)
  | some c =>
    let tail := decodeStart (bytes.drop c.utf8Size)
    (c :: tail.1, tail.2)
termination_by bytes.length
decreasing_by
  have size_pos := c.utf8Size_pos
  cases bytes with
  | nil => simp [first?_nil] at _found
  | cons b rest => simp only [List.length_drop, List.length_cons]; omega

def decode? (bytes : Bytes) : Option (List Char) :=
  match decodeStart bytes with
  | (text, []) => some text
  | (_, _ :: _) => none

def string? (bytes : Bytes) : Option String :=
  (decode? bytes).map String.ofList

/-- How many bytes may follow a lead byte, and the range of the first of them. -/
def following (lead : UInt8) : Nat × UInt8 × UInt8 :=
  if lead < 0xC2 then (0, 0x80, 0xBF)
  else if lead < 0xE0 then (1, 0x80, 0xBF)
  else if lead = 0xE0 then (2, 0xA0, 0xBF)
  else if lead = 0xED then (2, 0x80, 0x9F)
  else if lead < 0xF0 then (2, 0x80, 0xBF)
  else if lead = 0xF0 then (3, 0x90, 0xBF)
  else if lead < 0xF4 then (3, 0x80, 0xBF)
  else if lead = 0xF4 then (3, 0x80, 0x8F)
  else (0, 0x80, 0xBF)

/-- The length of the ill-formed part that a byte sequence begins with: the lead byte and the bytes
after it that could still have made a scalar value. -/
def illFormedLength : Bytes → Nat
  | [] => 1
  | lead :: rest =>
    let (count, low, high) := following lead
    match rest with
    | [] => 1
    | second :: rest =>
      if count = 0 || second < low || high < second then 1
      else 2 + ((rest.take (count - 1)).takeWhile fun b => 0x80 ≤ b && b ≤ 0xBF).length

theorem illFormedLength_pos (bytes : Bytes) : 0 < illFormedLength bytes := by
  unfold illFormedLength
  split
  · decide
  · dsimp only
    split
    · decide
    · split <;> omega

/-- The text of any byte sequence, with `U+FFFD` for each ill-formed part. -/
def decodeLossy (bytes : Bytes) : List Char :=
  match bytes with
  | [] => []
  | b :: rest =>
    match first? (b :: rest) with
    | some c => c :: decodeLossy ((b :: rest).drop c.utf8Size)
    | none => '\uFFFD' :: decodeLossy ((b :: rest).drop (illFormedLength (b :: rest)))
termination_by bytes.length
decreasing_by
  · have size_pos := c.utf8Size_pos
    simp only [List.length_drop, List.length_cons]
    omega
  · have part_pos := illFormedLength_pos (b :: rest)
    simp only [List.length_drop, List.length_cons]
    omega

end Utf8

end PetClient
