import PetClient.Http.Message
import PetClient.Text.Basic

/-!
Answers as they come over a connection: a status line, header lines, and a body that ends where its
length says, with its last chunk, or with the connection.
-/

namespace PetClient.Http.Wire

/-- An answer whose head is complete; the body is absent if it broke off. -/
structure Answer where
  status : Status
  headers : List (String × Bytes)
  body : Option Bytes

/-! ### Lines -/

/-- The first line, without its end, and the bytes behind it; nothing if no line ends.  A line feed
may lack its carriage return. -/
def splitLine? : Bytes → Option (Bytes × Bytes)
  | [] => none
  | 0x0A :: rest => some ([], rest)
  | 0x0D :: 0x0A :: rest => some ([], rest)
  | b :: rest => (splitLine? rest).map fun (line, rest) => (b :: line, rest)

theorem length_of_splitLine? {bytes line rest : Bytes}
    (found : splitLine? bytes = some (line, rest)) : rest.length < bytes.length := by
  fun_induction splitLine? bytes generalizing line rest with
  | case1 => simp at found
  | case2 tail =>
    obtain ⟨-, rfl⟩ := Prod.mk.inj (Option.some.inj found)
    simp
  | case3 tail =>
    obtain ⟨-, rfl⟩ := Prod.mk.inj (Option.some.inj found)
    simp only [List.length_cons]
    omega
  | case4 b tail _ _ ih =>
    obtain ⟨⟨line', rest'⟩, found', eq⟩ := Option.map_eq_some_iff.1 found
    obtain ⟨-, rfl⟩ := Prod.mk.inj eq
    have shorter := ih found'
    simp only [List.length_cons]
    omega

/-- What follows the empty lines in front; nothing if a carriage return stands there alone. -/
def skipEmptyLines : Bytes → Option Bytes
  | 0x0A :: rest => skipEmptyLines rest
  | 0x0D :: 0x0A :: rest => skipEmptyLines rest
  | 0x0D :: _ => none
  | rest => some rest

def natOf? (digits : List Char) : Option Nat :=
  if digits.isEmpty || !digits.all Char.isDigit then none
  else some (digits.foldl (fun n c => n * 10 + (c.toNat - '0'.toNat)) 0)

def plainText? (value : Bytes) : Option (List Char) :=
  if value.all fun b => b = 0x09 || (0x20 ≤ b && b < 0x7F) then
    some (value.map fun b => Char.ofNat b.toNat)
  else none

def readStatus (line : Bytes) : Option (Status × Bool) := do
  let version := line.take 9
  let chunks ←
    if version = Utf8.bytesOf "HTTP/1.1 " then some true
    else if version = Utf8.bytesOf "HTTP/1.0 " then some false
    else none
  let code ← (plainText? ((line.drop 9).take 3)).bind natOf?
  let status ← Status.ofNat? code
  match line.drop 12 with
  | [] => some (status, chunks)
  | b :: reason =>
    if b = 0x20 && reason.all isValueByte then some (status, chunks) else none

def isBlank (b : UInt8) : Bool :=
  b = 0x20 || b = 0x09

def trim (bytes : Bytes) : Bytes :=
  ((bytes.dropWhile isBlank).reverse.dropWhile isBlank).reverse

def readHeader (line : Bytes) : Option (String × Bytes) := do
  let name := line.takeWhile (· != 0x3A)
  let value ← (line.dropWhile (· != 0x3A)).tail?
  let name ← (Utf8.string? name).bind fieldName?
  let value := trim value
  if value.all isValueByte then some (name, value) else none

def maxHeaders : Nat := 100

def readHeaders (bytes : Bytes) : Option (List (String × Bytes) × Bytes) :=
  match _found : splitLine? bytes with
  | none => none
  | some ([], rest) => some ([], rest)
  | some (b :: line, rest) => do
    let header ← readHeader (b :: line)
    let (headers, rest) ← readHeaders rest
    some (header :: headers, rest)
termination_by bytes.length
decreasing_by
  exact length_of_splitLine? _found

/-! ### Bodies -/

def isHexDigit (b : UInt8) : Bool :=
  (Text.hexDigit? (Char.ofNat b.toNat)).isSome

def lengthBound : Nat := UInt64.size

/-- The size that a line in front of a chunk says: hexadecimal digits, blanks, and perhaps more
behind a semicolon. -/
def chunkSize? (line : Bytes) : Option Nat :=
  let digits := line.takeWhile isHexDigit
  let size := Text.natOfHex (digits.map fun b => Char.ofNat b.toNat)
  let behind := (line.drop digits.length).dropWhile isBlank
  let ends := behind.isEmpty || (behind.head? = some 0x3B && !behind.contains 0x0D)
  if digits.isEmpty || lengthBound ≤ size || !ends then none else some size

def splitChunkLine? (bytes : Bytes) : Option (Bytes × Bytes) :=
  match splitLine? bytes with
  | none => none
  | some (line, rest) =>
    if (bytes.drop line.length).head? = some 0x0D then some (line, rest) else none

theorem length_of_splitChunkLine? {bytes line rest : Bytes}
    (found : splitChunkLine? bytes = some (line, rest)) : rest.length < bytes.length := by
  unfold splitChunkLine? at found
  split at found
  · simp at found
  · rename_i split
    split at found
    · obtain ⟨-, rfl⟩ := Prod.mk.inj (Option.some.inj found)
      exact length_of_splitLine? split
    · simp at found

def readChunks (bytes : Bytes) : Option Bytes :=
  match _found : splitChunkLine? bytes with
  | none => none
  | some (line, rest) =>
    match chunkSize? line with
    | none => none
    | some 0 => (readHeaders rest).map fun _ => []
    | some (size + 1) =>
      match _behind : rest.drop (size + 1) with
      | 0x0D :: 0x0A :: tail =>
        (readChunks tail).map fun content => rest.take (size + 1) ++ content
      | _ => none
termination_by bytes.length
decreasing_by
  have shorter := length_of_splitChunkLine? _found
  have dropped := congrArg List.length _behind
  simp only [List.length_drop, List.length_cons] at dropped
  omega

def valuesOf (headers : List (String × Bytes)) (name : String) : List Bytes :=
  (headers.filter fun h => h.1 == name).map Prod.snd

def itemsOf? (value : Bytes) : Option (List (List Char)) :=
  (plainText? value).map fun text =>
    (Text.splitAt ',' text).map fun item =>
      ((item.dropWhile Char.isWhitespace).reverse.dropWhile Char.isWhitespace).reverse

def isChunked (value : Bytes) : Bool :=
  match (itemsOf? value).bind List.getLast? with
  | none => false
  | some coding => coding.map Char.toLower = "chunked".toList

/-- The length that header fields say; nothing when they contradict each other. -/
def contentLength? (headers : List (String × Bytes)) : Option (Option Nat) := do
  let items ← (valuesOf headers "content-length").mapM itemsOf?
  let lengths ← items.flatten.mapM natOf?
  match lengths with
  | [] => some none
  | length :: others =>
    if others.all (· = length) && length + 2 < lengthBound then some (some length) else none

def hasNoBody (status : Status) : Bool :=
  status.code < 200 || status.code = 204 || status.code = 304

/-- The body behind a head; nothing at all if the head is contradictory. -/
def readBody (status : Status) (chunks : Bool) (headers : List (String × Bytes)) (bytes : Bytes) :
    Option (Option Bytes) :=
  if hasNoBody status then some (some [])
  else
    match (valuesOf headers "transfer-encoding").getLast? with
    | some coding =>
      if !chunks then none
      else if isChunked coding then some (readChunks bytes)
      else some (some bytes)
    | none =>
      match contentLength? headers with
      | none => none
      | some none => some (some bytes)
      | some (some length) =>
        some (if bytes.length < length then none else some (bytes.take length))

def isInterim (status : Status) : Bool :=
  status.code < 200 && status.code ≠ 101

def readAnswer (fuel : Nat) (bytes : Bytes) : Option Answer :=
  match fuel with
  | 0 => none
  | fuel + 1 => do
    let (line, rest) ← (skipEmptyLines bytes).bind splitLine?
    let (status, chunks) ← readStatus line
    let (headers, rest) ← readHeaders rest
    if maxHeaders < headers.length then none
    else if isInterim status then readAnswer fuel rest
    else do
      let body ← readBody status chunks headers rest
      some ⟨status, headers, body⟩

def answer? (bytes : Bytes) : Option Answer :=
  readAnswer (bytes.length + 1) bytes

end PetClient.Http.Wire
