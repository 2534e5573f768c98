import PetClient.Dict
import PetClient.Json.Skip
import PetClient.Json.Tree

/-!
How the values of a type look on the wire: how they are read, what an absent text stands for, and
how they are written.
-/

namespace PetClient.Json

structure Shape (α : Type) where
  read : Reader α
  ofNull : Except Problem α
  write : α → Json

namespace Shape

variable {α : Type}

def decode (shape : Shape α) (text : Bytes) : Except Refusal α :=
  let document : Except Fault α := do
    let (value, rest) ← shape.read text
    match skipBlanks rest with
    | [] => return value
    | b :: rest => faultAt .textTrailing (b :: rest)
  document.mapError (Refusal.ofFault text)

def decodeNull (shape : Shape α) : Except Refusal α :=
  shape.ofNull.mapError fun problem => ⟨problem, none⟩

def encode (shape : Shape α) (value : α) : String :=
  (shape.write value).compact

end Shape

/-! ### Scalars -/

def readText : Reader String := fun bytes =>
  match skipBlanks bytes with
  | 0x22 :: rest => readString rest
  | rest => refuse "a string" rest

def text : Shape String where
  read := readText
  ofNull := .error (.wrongType .null "a string")
  write := .string

structure Range where
  name : String
  least : Int
  greatest : Int

namespace Range

def int64 : Range := ⟨"i64", -0x8000000000000000, 0x7FFFFFFFFFFFFFFF⟩

def word32 : Range := ⟨"u32", 0, 0xFFFFFFFF⟩

def word64 : Range := ⟨"u64", 0, 0xFFFFFFFFFFFFFFFF⟩

def Holds (range : Range) (n : Int) : Prop :=
  range.least ≤ n ∧ n ≤ range.greatest

instance (range : Range) (n : Int) : Decidable (range.Holds n) :=
  inferInstanceAs (Decidable (_ ∧ _))

def accept (range : Range) (n : Decimal.Number) (rest : Bytes) : Except Fault (Int × Bytes) :=
  match n with
  | .integer n =>
    if range.Holds n then .ok (n, rest)
    else faultAfter (.wrongValue (.number (.integer n)) range.name) rest
  | .float x => faultAfter (.wrongType (.number (.float x)) range.name) rest

def read (range : Range) : Reader Int := fun bytes =>
  match skipBlanks bytes with
  | [] => faultAt .valueEnds []
  | b :: rest =>
    if b = 0x2D then do
      let (n, rest) ← readNumber true rest
      range.accept n rest
    else if isDigit b then do
      let (n, rest) ← readNumber false (b :: rest)
      range.accept n rest
    else refuse range.name (b :: rest)

end Range

def readVia {α : Type} (range : Range) (ofInt : Int → α) : Reader α := fun bytes =>
  (range.read bytes).map fun (n, rest) => (ofInt n, rest)

def int64 : Shape Int64 where
  read := readVia .int64 Int64.ofInt
  ofNull := .error (.wrongType .null Range.int64.name)
  write := fun n => integer n.toInt

def word32 : Shape UInt32 where
  read := readVia .word32 fun n => UInt32.ofNat n.toNat
  ofNull := .error (.wrongType .null Range.word32.name)
  write := fun n => integer n.toNat

def word64 : Shape UInt64 where
  read := readVia .word64 fun n => UInt64.ofNat n.toNat
  ofNull := .error (.wrongType .null Range.word64.name)
  write := fun n => integer n.toNat

def readBool : Reader Bool := fun bytes =>
  match skipBlanks bytes with
  | 0x74 :: rest => (readWord ['r', 'u', 'e'] rest).map fun rest => (true, rest)
  | 0x66 :: rest => (readWord ['a', 'l', 's', 'e'] rest).map fun rest => (false, rest)
  | rest => refuse "a boolean" rest

def any : Shape Json where
  read := readAny
  ofNull := .ok .null
  write := id

def unit : Shape Unit where
  read := fun bytes =>
    match skipBlanks bytes with
    | 0x6E :: rest => (readWord ['u', 'l', 'l'] rest).map fun rest => ((), rest)
    | rest => refuse "unit" rest
  ofNull := .ok ()
  write := fun _ => .null

/-! ### Optional values, lists and dictionaries -/

variable {α : Type}

def readOptional (read : Reader α) : Reader (Option α) := fun bytes =>
  match skipBlanks bytes with
  | 0x6E :: rest => (readWord ['u', 'l', 'l'] rest).map fun rest => (none, rest)
  | rest => (read rest).map fun (value, rest) => (some value, rest)

def optional (shape : Shape α) : Shape (Option α) where
  read := readOptional shape.read
  ofNull := .ok none
  write := fun value => value.elim .null shape.write

/-- The items of a list behind its bracket; the closing bracket is left.  Each item takes a byte off
the budget, so the bytes themselves are a budget that suffices. -/
def readListTail (read : Reader α) (budget : Bytes) (first : Bool) (bytes : Bytes) :
    Except Fault (List α × Bytes) :=
  match budget with
  | [] => faultAt .listEnds []
  | _ :: budget => do
    match ← nextItem first bytes with
    | none => return ([], bytes)
    | some rest =>
      let (item, rest) ← read rest
      let (items, rest) ← readListTail read budget false rest
      return (item :: items, rest)

def readList (read : Reader α) : Reader (List α) := fun bytes =>
  match skipBlanks bytes with
  | 0x5B :: rest => do
    let (items, rest) ← readListTail read rest true rest
    let rest ← closeList rest
    return (items, rest)
  | rest => refuse "a sequence" rest

def list (shape : Shape α) : Shape (List α) where
  read := readList shape.read
  ofNull := .error (.wrongType .null "a sequence")
  write := fun items => .array (items.map shape.write)

def readDictTail (read : Reader α) (budget : Bytes) (first : Bool) (before : Dict α)
    (bytes : Bytes) : Except Fault (Dict α × Bytes) :=
  match budget with
  | [] => faultAt .objectEnds []
  | _ :: budget => do
    match ← nextKey first bytes with
    | none => return (before, bytes)
    | some rest =>
      let (name, rest) ← readString rest
      let rest ← readColon rest
      let (value, rest) ← read rest
      readDictTail read budget false (before.insert name value) rest

def readDict (read : Reader α) : Reader (Dict α) := fun bytes =>
  match skipBlanks bytes with
  | 0x7B :: rest => do
    let (entries, rest) ← readDictTail read rest true ∅ rest
    let rest ← closeObject rest
    return (entries, rest)
  | rest => refuse "a map" rest

def writeDict (write : α → Json) (d : Dict α) : Json :=
  .object (d.entries.map fun (name, value) => (name, write value))

/-! ### Enumerations -/

/-- A name out of a list, written as a string or as an object with that name and `null`. -/
structure Variants (α : Type) where
  known : List (String × α)

namespace Variants

def names (variants : Variants α) : List String :=
  variants.known.map Prod.fst

def readName (variants : Variants α) : Reader α := fun bytes => do
  let (name, rest) ← readString bytes
  match variants.known.lookup name with
  | some value => return (value, rest)
  | none => faultAfter (.unknownVariant name variants.names) rest

def read (variants : Variants α) : Reader α := fun bytes =>
  match skipBlanks bytes with
  | [] => faultAt .valueEnds []
  | 0x22 :: rest => variants.readName rest
  | 0x7B :: rest => do
    let (value, rest) ←
      match skipBlanks rest with
      | 0x22 :: rest => variants.readName rest
      | rest => refuse "variant identifier" rest
    let rest ← readColon rest
    let (_, rest) ← unit.read rest
    match skipBlanks rest with
    | [] => faultAfter .objectEnds []
    | 0x7D :: rest => return (value, rest)
    | rest => faultAfter .valueMissing rest
  | rest => faultAt .valueMissing rest

end Variants

end PetClient.Json
