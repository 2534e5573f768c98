import Mathlib.Tactic.IntervalCases
import PetClient.Json.Reader

/-!
The grammar of JSON texts.  There may be blanks between all parts; the characters of a string stand
for themselves or are escaped, in any of the ways there are; lists and objects may be nested to any
depth.
-/

namespace PetClient.Json

/-! ### Blanks and commas -/

def Blank (bytes : Bytes) : Prop :=
  ∀ b ∈ bytes, isBlank b = true

instance (bytes : Bytes) : Decidable (Blank bytes) :=
  decidable_of_iff (bytes.all isBlank = true) List.all_eq_true

/-- What may follow a value: nothing, a blank, a comma or a closing bracket. -/
def Stops (rest : Bytes) : Prop :=
  ∀ b ∈ rest.head?, isBlank b = true ∨ b = 0x2C ∨ b = 0x5D ∨ b = 0x7D

/-- How a value begins: with no blank, no comma and no closing bracket. -/
def Starts (bytes : Bytes) : Prop :=
  ∃ b rest, bytes = b :: rest ∧ isBlank b = false ∧ b ≠ 0x2C ∧ b ≠ 0x5D ∧ b ≠ 0x7D

/-- The pieces of a list from some piece on, with the commas in front of all but the first. -/
def piecesFrom {ι : Type} (piece : ι → Bytes) : (first : Bool) → List ι → Bytes
  | _, [] => []
  | true, i :: rest => piece i ++ piecesFrom piece false rest
  | false, i :: rest => 0x2C :: (piece i ++ piecesFrom piece false rest)

structure Spaced where
  before : Bytes
  text : Bytes
  after : Bytes

namespace Spaced

def bytes (s : Spaced) : Bytes :=
  s.before ++ (s.text ++ s.after)

structure Fits (s : Spaced) : Prop where
  before : Blank s.before
  after : Blank s.after

end Spaced

/-- A member of an object as it is written: its name stands behind an opening quote and holds the
closing one. -/
structure Entry where
  before : Bytes
  name : Bytes
  gap : Bytes
  value : Spaced

namespace Entry

def tail (e : Entry) : Bytes :=
  e.name ++ (e.gap ++ 0x3A :: e.value.bytes)

def bytes (e : Entry) : Bytes :=
  e.before ++ 0x22 :: e.tail

structure Fits (e : Entry) : Prop where
  before : Blank e.before
  gap : Blank e.gap
  value : e.value.Fits

end Entry

def listBytes (items : List Spaced) (inner : Bytes) : Bytes :=
  0x5B :: (piecesFrom Spaced.bytes true items ++ (inner ++ [0x5D]))

def objectBytes (entries : List Entry) (inner : Bytes) : Bytes :=
  0x7B :: (piecesFrom Entry.bytes true entries ++ (inner ++ [0x7D]))

/-! ### Strings -/

def escapeLetters : List (UInt8 × Char) :=
  [(0x22, '"'), (0x5C, '\\'), (0x2F, '/'), (0x62, '\x08'), (0x66, '\x0c'), (0x6E, '\n'),
    (0x72, '\r'), (0x74, '\t')]

def IsUnit (digits : Bytes) (unit : Nat) : Prop :=
  ∃ a b c d i j k l, digits = [a, b, c, d] ∧ hexValue? a = some i ∧ hexValue? b = some j ∧
    hexValue? c = some k ∧ hexValue? d = some l ∧ unit = ((i * 16 + j) * 16 + k) * 16 + l

inductive WritesChar : Char → Bytes → Prop
  | plain {c : Char} (visible : 0x20 ≤ c.toNat) (noQuote : c ≠ '"') (noBackslash : c ≠ '\\') :
      WritesChar c (String.utf8EncodeChar c)
  | letter {c : Char} {b : UInt8} (listed : (b, c) ∈ escapeLetters) : WritesChar c [0x5C, b]
  | unit {c : Char} {digits : Bytes} (written : IsUnit digits c.toNat) :
      WritesChar c (0x5C :: 0x75 :: digits)
  /-- A character beyond 16 bits, as two surrogates. -/
  | pair {c : Char} {first second : Bytes} {high low : Nat} (written : IsUnit first high)
      (written' : IsUnit second low) (isHigh : isHighSurrogate high = true)
      (isLow : isLowSurrogate low = true)
      (value : c.toNat = (high - 0xD800) * 0x400 + (low - 0xDC00) + 0x10000) :
      WritesChar c (0x5C :: 0x75 :: (first ++ 0x5C :: 0x75 :: second))

inductive WritesText : List Char → Bytes → Prop
  | nil : WritesText [] []
  | cons {c : Char} {text : List Char} {piece bytes : Bytes} (char : WritesChar c piece)
      (rest : WritesText text bytes) : WritesText (c :: text) (piece ++ bytes)

/-- What may stand behind an opening quote, up to the closing one; surrogates need not be paired. -/
inductive IsString : Bytes → Prop
  | close : IsString [0x22]
  | plain {b : UInt8} {bytes : Bytes} (itself : isPlain b = true) (rest : IsString bytes) :
      IsString (b :: bytes)
  | letter {b : UInt8} {c : Char} {bytes : Bytes} (listed : (b, c) ∈ escapeLetters)
      (rest : IsString bytes) : IsString (0x5C :: b :: bytes)
  | unit {digits bytes : Bytes} {unit : Nat} (written : IsUnit digits unit)
      (rest : IsString bytes) : IsString (0x5C :: 0x75 :: (digits ++ bytes))

/-! ### Numbers -/

def AreDigits (bytes : Bytes) : Prop :=
  ∀ b ∈ bytes, isDigit b = true

inductive IsWhole : Bytes → Prop
  | zero : IsWhole [0x30]
  | digits {b : UInt8} {bytes : Bytes} (digit : isDigit b = true) (nonzero : b ≠ 0x30)
      (rest : AreDigits bytes) : IsWhole (b :: bytes)

inductive IsFraction : Bytes → Prop
  | none : IsFraction []
  | digits {bytes : Bytes} (nonempty : bytes ≠ []) (areDigits : AreDigits bytes) :
      IsFraction (0x2E :: bytes)

inductive IsPower : Bytes → Prop
  | none : IsPower []
  | digits {b : UInt8} {sign bytes : Bytes} (letter : b = 0x65 ∨ b = 0x45)
      (signed : sign = [] ∨ sign = [0x2B] ∨ sign = [0x2D]) (nonempty : bytes ≠ [])
      (areDigits : AreDigits bytes) : IsPower (b :: (sign ++ bytes))

inductive IsNumber : Bytes → Prop
  | parts {whole fraction power : Bytes} (isWhole : IsWhole whole)
      (isFraction : IsFraction fraction) (isPower : IsPower power) :
      IsNumber (whole ++ (fraction ++ power))

/-! ### Values -/

inductive IsValue : Bytes → Prop
  | null : IsValue [0x6E, 0x75, 0x6C, 0x6C]
  | yes : IsValue [0x74, 0x72, 0x75, 0x65]
  | no : IsValue [0x66, 0x61, 0x6C, 0x73, 0x65]
  | number {bytes : Bytes} (isNumber : IsNumber bytes) : IsValue bytes
  | negative {bytes : Bytes} (isNumber : IsNumber bytes) : IsValue (0x2D :: bytes)
  | string {bytes : Bytes} (isString : IsString bytes) : IsValue (0x22 :: bytes)
  | list {items : List Spaced} {inner : Bytes} (blank : Blank inner)
      (fit : ∀ i ∈ items, i.Fits) (values : ∀ i ∈ items, IsValue i.text) :
      IsValue (listBytes items inner)
  | object {entries : List Entry} {inner : Bytes} (blank : Blank inner)
      (fit : ∀ e ∈ entries, e.Fits) (names : ∀ e ∈ entries, IsString e.name)
      (values : ∀ e ∈ entries, IsValue e.value.text) : IsValue (objectBytes entries inner)

/-! ### Simple facts -/

theorem Blank.nil : Blank [] :=
  nofun

theorem Blank.append {first second : Bytes} (blank : Blank first) (blank' : Blank second) :
    Blank (first ++ second) := by
  intro b mem
  rcases List.mem_append.1 mem with here | there
  · exact blank b here
  · exact blank' b there

theorem Stops.behind {blanks rest : Bytes} (blank : Blank blanks) (stops : Stops rest) :
    Stops (blanks ++ rest) := by
  cases blanks with
  | nil => exact stops
  | cons b others =>
    intro c first
    cases first
    exact .inl (blank b (List.mem_cons_self ..))

theorem stops_cons {b : UInt8} (closes : b = 0x2C ∨ b = 0x5D ∨ b = 0x7D) (rest : Bytes) :
    Stops (b :: rest) := by
  intro c first
  cases first
  exact .inr closes

theorem stops_pieces {ι : Type} {piece : ι → Bytes} (items : List ι) {closing : Bytes}
    (stops : Stops closing) : Stops (piecesFrom piece false items ++ closing) := by
  cases items with
  | nil => exact stops
  | cons i items => exact stops_cons (.inl rfl) _

/-- Blanks, further pieces and a bracket stand behind each piece of a list or an object. -/
theorem stops_after {ι : Type} (piece : ι → Bytes) (items : List ι) {after inner : Bytes}
    (blank : Blank after) (blank' : Blank inner) {b : UInt8} (closes : b = 0x5D ∨ b = 0x7D)
    (rest : Bytes) : Stops (after ++ (piecesFrom piece false items ++ (inner ++ b :: rest))) :=
  .behind blank (stops_pieces items (.behind blank' (stops_cons (.inr closes) rest)))

theorem bounds_of_isDigit {b : UInt8} (digit : isDigit b = true) :
    0x30 ≤ b.toNat ∧ b.toNat ≤ 0x39 := by
  simpa [isDigit, UInt8.le_iff_toNat_le] using digit

@[elab_as_elim]
theorem of_isDigit {p : UInt8 → Prop} {b : UInt8} (digit : isDigit b = true)
    (each : ∀ n < 10, p (UInt8.ofNat (0x30 + n))) : p b := by
  obtain ⟨least, greatest⟩ := bounds_of_isDigit digit
  have number : UInt8.ofNat (0x30 + (b.toNat - 0x30)) = b := by
    rw [Nat.add_sub_cancel' least, UInt8.ofNat_toNat]
  rw [← number]
  exact each _ (by omega)

theorem starts_of_isDigit {b : UInt8} (digit : isDigit b = true) (rest : Bytes) :
    Starts (b :: rest) :=
  ⟨b, rest, rfl, of_isDigit digit (by decide)⟩

theorem IsNumber.starts_with_digit {bytes : Bytes} (isNumber : IsNumber bytes) :
    ∃ b rest, bytes = b :: rest ∧ isDigit b = true := by
  obtain ⟨isWhole, -, -⟩ := isNumber
  cases isWhole with
  | zero => exact ⟨_, _, rfl, by decide⟩
  | digits digit nonzero rest => exact ⟨_, _, rfl, digit⟩

theorem IsValue.starts {bytes : Bytes} (value : IsValue bytes) : Starts bytes := by
  cases value with
  | null => exact ⟨_, _, rfl, by decide⟩
  | yes => exact ⟨_, _, rfl, by decide⟩
  | no => exact ⟨_, _, rfl, by decide⟩
  | number isNumber =>
    obtain ⟨b, rest, rfl, digit⟩ := isNumber.starts_with_digit
    exact starts_of_isDigit digit rest
  | negative isNumber => exact ⟨_, _, rfl, by decide⟩
  | string isString => exact ⟨_, _, rfl, by decide⟩
  | list blank fit values => exact ⟨_, _, rfl, by decide⟩
  | object blank fit names values => exact ⟨_, _, rfl, by decide⟩

end PetClient.Json
