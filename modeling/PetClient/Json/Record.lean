import PetClient.Json.Shape

/-!
Records on the wire.  A record is read from an object whose members come in any order, among others
that are passed over, or from an array of its members in their order.  Reading fills a draft, from
which the record is built at the end.
-/

namespace PetClient.Json

structure Member (δ : Type) where
  name : String
  isSet : δ → Bool
  read : δ → Reader δ

def readInto {α δ : Type} (read : Reader α) (fill : Option α → δ) : Reader δ := fun bytes =>
  (read bytes).map fun (value, rest) => (fill (some value), rest)

structure Record (δ α : Type) where
  name : String
  members : List (Member δ)
  blank : δ
  /-- The record of a draft, or the first required member that is absent. -/
  build : δ → Except String α
  write : α → List (String × Json)

namespace Record

variable {δ α : Type}

def title (record : Record δ α) : String :=
  "struct " ++ record.name

def sizeTitle (record : Record δ α) : String :=
  let count := record.members.length
  record.title ++ " with " ++ toString count ++ (if count = 1 then " element" else " elements")

/-- The members of an object behind its brace, read into a draft; the closing brace is left.  Each
member takes a byte off the budget, so the bytes themselves are a budget that suffices. -/
def readObjectTail (record : Record δ α) (budget : Bytes) (first : Bool) (draft : δ)
    (bytes : Bytes) : Except Fault (δ × Bytes) :=
  match budget with
  | [] => faultAt .objectEnds []
  | _ :: budget => do
    match ← nextKey first bytes with
    | none => return (draft, bytes)
    | some rest =>
      let (name, rest) ← readString rest
      match record.members.find? fun member => member.name == name with
      | none =>
        let rest ← readColon rest
        let rest ← skipValue rest
        record.readObjectTail budget false draft rest
      | some member =>
        if member.isSet draft then faultOfObject (.memberRepeated name) rest
        else
          let rest ← readColon rest
          let (draft, rest) ← member.read draft rest
          record.readObjectTail budget false draft rest

/-- The members of an array behind its bracket, read in their order into a draft, as many as there
are. -/
def readArrayTail (draft : δ) (first : Bool) (bytes : Bytes) :
    List (Member δ) → Except Fault (δ × Bytes)
  | [] => .ok (draft, bytes)
  | member :: members => do
    match ← nextItem first bytes with
    | none => return (draft, bytes)
    | some rest =>
      let (draft, rest) ← member.read draft rest
      readArrayTail draft false rest members

def read (record : Record δ α) : Reader α := fun bytes =>
  match skipBlanks bytes with
  | 0x7B :: rest => do
    let (draft, rest) ← record.readObjectTail rest true record.blank rest
    match record.build draft with
    | .error name => faultOfObject (.memberMissing name) rest
    | .ok value =>
      let rest ← closeObject rest
      return (value, rest)
  | 0x5B :: rest => do
    let (draft, rest) ← readArrayTail record.blank true rest record.members
    match record.build draft with
    | .error name =>
      let index := record.members.findIdx fun member => member.name == name
      faultOfList (.wrongLength index record.sizeTitle) rest
    | .ok value =>
      let rest ← closeList rest
      return (value, rest)
  | rest => refuse record.title rest

def shape (record : Record δ α) : Shape α where
  read := record.read
  ofNull := .error (.wrongType .null record.title)
  write := fun value => .object (record.write value)

end Record

def required {α : Type} (name : String) : Option α → Except String α
  | some value => .ok value
  | none => .error name

end PetClient.Json
