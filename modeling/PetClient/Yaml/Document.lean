import PetClient.Yaml.Event

/-!
Reading values out of a document.  An alias stands for the node that its anchor was put on.
-/

namespace PetClient.Yaml

structure Anchors where
  /-- The number of each name, which its latest anchor has given it. -/
  numbers : List (List Char × Nat) := []
  /-- The node of each number, the latest first. -/
  nodes : List (Nat × Nat) := []
  /-- The number that each alias stands for, by its position. -/
  aliases : List (Nat × Nat) := []

namespace Anchors

def add (a : Anchors) (name : List Char) (position : Nat) : Anchors :=
  let number := a.numbers.length
  { a with
    numbers := (name, number) :: a.numbers.filter fun (other, _) => other != name
    nodes := (number, position) :: a.nodes }

def visit (a : Anchors) (event : Event) (position : Nat) : Option Anchors :=
  let anchored (p : Properties) : Anchors :=
    match p.anchor with
    | none => a
    | some name => a.add name position
  match event with
  | .alias name =>
    (a.numbers.lookup name).map fun number =>
      { a with aliases := (position, number) :: a.aliases }
  | .scalar properties _ _ => some (anchored properties)
  | .sequenceStart properties => some (anchored properties)
  | .mappingStart properties => some (anchored properties)
  | .sequenceEnd => some a
  | .mappingEnd => some a

end Anchors

structure Document where
  events : Array Event
  anchors : Anchors

def document? (text : List Char) : Option Document := do
  let events ← events? text
  let anchors ← events.zipIdx.foldlM (fun anchors (event, position) =>
    anchors.visit event position) {}
  some ⟨events.toArray, anchors⟩

abbrev NodeReader (α : Type) := Nat → Option (α × Nat)

namespace Document

variable {α : Type} (doc : Document)

def target? (position : Nat) : Option Nat :=
  (doc.anchors.aliases.lookup position).bind fun number => doc.anchors.nodes.lookup number

/-- Reads what an alias stands for in its place. -/
def following (read : NodeReader α) : NodeReader α := fun position =>
  match doc.events[position]? with
  | some (.alias _) => do
    let target ← doc.target? position
    let (value, _) ← read target
    some (value, position + 1)
  | _ => read position

def readText : NodeReader String := doc.following fun position =>
  match doc.events[position]? with
  | some (.scalar _ text _) => some (String.ofList text, position + 1)
  | _ => none

def isNullWord (text : List Char) : Bool :=
  [['n', 'u', 'l', 'l'], ['N', 'u', 'l', 'l'], ['N', 'U', 'L', 'L'], ['~']].contains text

def nullTag : List Char := "tag:yaml.org,2002:null".toList

def intTag : List Char := "tag:yaml.org,2002:int".toList

/-- Whether a scalar stands for no value; nothing when its tag says so and its text does not. -/
def isAbsent? (properties : Properties) (text : List Char) (style : ScalarStyle) : Option Bool :=
  if style ≠ .plain then some false
  else
    match properties.tag with
    | none => some (text.isEmpty || isNullWord text)
    | some tag =>
      if tag ≠ nullTag then some false else if isNullWord text then some true else none

def readOptional (read : NodeReader α) : NodeReader (Option α) := doc.following fun position => do
  let absent ←
    match doc.events[position]? with
    | some (.scalar properties text style) => isAbsent? properties text style
    | _ => some false
  if absent then some (none, position + 1)
  else do
    let (value, next) ← read position
    some (some value, next)

def natOfBase? (base : Nat) (digits : List Char) : Option Nat :=
  if digits.isEmpty then none
  else
    digits.foldlM (fun n c => do
      let d ← Text.hexDigit? c
      if d < base then some (n * base + d) else none) 0

/-- A whole number without sign, in base 10, or behind a sign of the base in base 16, 8 or 2.  A
number of base 10 has no leading zero. -/
def natOf? (text : List Char) : Option Nat :=
  let digits := match text with | '+' :: rest => rest | _ => text
  let based :=
    match digits with
    | '0' :: 'x' :: rest => natOfBase? 16 rest
    | '0' :: 'o' :: rest => natOfBase? 8 rest
    | '0' :: 'b' :: rest => natOfBase? 2 rest
    | _ => none
  match based, digits with
  | some n, _ => some n
  | none, ['0'] => some 0
  | none, '0' :: _ => none
  | none, digits => natOfBase? 10 digits

def readWord : NodeReader UInt64 := doc.following fun position =>
  match doc.events[position]? with
  | some (.scalar properties text style) =>
    if style = .plain || (style = .literal && properties.tag = some intTag) then
      match natOf? text with
      | some n => if n < UInt64.size then some (UInt64.ofNat n, position + 1) else none
      | none => none
    else none
  | _ => none

/-- Passes over nodes until `depth` of them are closed; an alias is not followed. -/
def skipFrom (fuel depth position : Nat) : Option Nat :=
  match fuel with
  | 0 => none
  | fuel + 1 =>
    let depth? : Option Nat :=
      match doc.events[position]? with
      | none => none
      | some (.sequenceStart _) => some (depth + 1)
      | some (.mappingStart _) => some (depth + 1)
      | some .sequenceEnd => some (depth - 1)
      | some .mappingEnd => some (depth - 1)
      | some _ => some depth
    match depth? with
    | none => none
    | some 0 => some (position + 1)
    | some depth => skipFrom fuel depth (position + 1)

def skipNode (position : Nat) : Option Nat :=
  doc.skipFrom (doc.events.size + 1) 0 position

def readEntries (fuel : Nat) (read : α → String → Nat → Option (α × Nat)) (before : α) :
    NodeReader α := fun position =>
  match fuel with
  | 0 => none
  | fuel + 1 =>
    match doc.events[position]? with
    | some .mappingEnd => some (before, position + 1)
    | _ => do
      let (key, next) ← doc.readText position
      let (value, next) ← read before key next
      readEntries fuel read value next

/-- Reads a mapping entry by entry.  A node without text is a mapping without entries. -/
def readMapping (read : α → String → Nat → Option (α × Nat)) (blank : α) : NodeReader α :=
  doc.following fun position =>
    match doc.events[position]? with
    | some (.mappingStart _) =>
      doc.readEntries (doc.events.size + 1) read blank (position + 1)
    | some (.scalar _ [] .plain) => some (blank, position + 1)
    | _ => none

end Document

end PetClient.Yaml
