import PetClient.Proofs.Seats

/-!
Whole numbers on the wire.  A number in a field of a record, or among the counts of an inventory, is
read if it is written without fraction and power, is no negative zero and fits the type of the
field; then it is read for exactly what it says, however many digits it has.
-/

namespace PetClient

open Json (Blank Entry Exact Gap IsValue ListGap Member NumberText ObjectGap Places Range Record
  Seat Sound Takes WireField WritesName)
open Result (map_eq_ok)

namespace Json

/-! ### Kinds of whole numbers -/

inductive IntegerKind
  | int64
  | word32
  | word64

namespace IntegerKind

def least : IntegerKind → Int
  | int64 => -2 ^ 63
  | word32 => 0
  | word64 => 0

def greatest : IntegerKind → Int
  | int64 => 2 ^ 63 - 1
  | word32 => 2 ^ 32 - 1
  | word64 => 2 ^ 64 - 1

def range : IntegerKind → Range
  | int64 => .int64
  | word32 => .word32
  | word64 => .word64

theorem holds_iff (kind : IntegerKind) {n : Int} :
    kind.range.Holds n ↔ kind.least ≤ n ∧ n ≤ kind.greatest := by
  cases kind <;> rfl

theorem bounds (kind : IntegerKind) : -2 ^ 63 ≤ kind.least ∧ kind.greatest < 2 ^ 64 := by
  cases kind <;> decide

/-- Whether a number is written as a whole number that fits a type. -/
def Admits (kind : IntegerKind) (t : NumberText) : Prop :=
  t.fraction = [] ∧ t.power = [] ∧ t.bytes ≠ Utf8.bytesOf "-0" ∧ kind.least ≤ t.value ∧
    t.value ≤ kind.greatest

theorem admits_iff (kind : IntegerKind) (t : NumberText) {n : Int} :
    t.literal.IsInteger n ∧ kind.range.Holds n ↔ kind.Admits t ∧ n = t.value := by
  have zero : Utf8.bytesOf "-0" = [0x2D, 0x30] := by cbv
  obtain ⟨least, greatest⟩ := kind.bounds
  unfold Admits
  rw [t.isInteger_iff, holds_iff, zero]
  constructor
  · rintro ⟨⟨noFraction, noPower, noZero, rfl, -⟩, holds⟩
    exact ⟨⟨noFraction, noPower, noZero, holds⟩, rfl⟩
  · rintro ⟨⟨noFraction, noPower, noZero, holds⟩, rfl⟩
    exact ⟨⟨noFraction, noPower, noZero, rfl, by omega⟩, holds⟩

variable {α : Type}

theorem takes_via (kind : IntegerKind) (ofInt : Int → α) (t : NumberText) {x : α} :
    Takes (readVia kind.range ofInt) t.bytes x ↔ kind.Admits t ∧ x = ofInt t.value := by
  constructor
  · intro takes
    obtain ⟨⟨n, rest⟩, taken, same⟩ := map_eq_ok.1 (takes.reads [] [] .nil nofun)
    cases same
    obtain ⟨isInteger, holds, -⟩ := (kind.range.read_number t .nil (stops_of_blank .nil)).1 taken
    obtain ⟨admits, rfl⟩ := (kind.admits_iff t).1 ⟨isInteger, holds⟩
    exact ⟨admits, rfl⟩
  · rintro ⟨admits, rfl⟩
    obtain ⟨isInteger, holds⟩ := (kind.admits_iff t).2 ⟨admits, rfl⟩
    have takes : Takes kind.range.read t.bytes t.value := ⟨t.isValue.starts,
      fun _ _ blank stops => (kind.range.read_number t blank stops).2 ⟨isInteger, holds, rfl⟩⟩
    exact takes.via ofInt

end IntegerKind

variable {α β δ : Type}

theorem takes_optional_iff {read : Reader α} (exact : Exact read) {text : Bytes}
    (isValue : IsValue text) (noNull : text.head? ≠ some 0x6E) {value : Option α} :
    Takes (readOptional read) text value ↔ ∃ x, Takes read text x ∧ value = some x := by
  constructor
  · intro takes
    have taken := takes.alone
    unfold readOptional at taken
    obtain ⟨b, tail, begins, visible, -⟩ := isValue.starts
    rw [begins, skipBlanks_cons visible] at taken
    split at taken
    · rename_i same
      cases same
      exact absurd (congrArg List.head? begins) noNull
    · obtain ⟨⟨x, rest⟩, taken, same⟩ := map_eq_ok.1 taken
      cases same
      rw [← begins] at taken
      exact ⟨x, exact.takes_alone isValue taken, rfl⟩
  · rintro ⟨x, takes, rfl⟩
    exact takes.some noNull

theorem NumberText.noNull (t : NumberText) : t.bytes.head? ≠ some 0x6E := by
  obtain ⟨b, tail, begins, digit⟩ := t.isNumber.starts_with_digit
  unfold bytes
  split
  · simp
  · rw [begins, List.head?_cons]
    rintro ⟨⟩
    exact absurd digit (by decide)

theorem IntegerKind.takes_optional (kind : IntegerKind) (ofInt : Int → α) (t : NumberText)
    {value : Option α} :
    Takes (readOptional (readVia kind.range ofInt)) t.bytes value ↔
      kind.Admits t ∧ value = some (ofInt t.value) := by
  have exact_via : Exact (readVia kind.range ofInt) := (exact_range kind.range).map ofInt
  rw [takes_optional_iff exact_via t.isValue t.noNull]
  simp only [kind.takes_via ofInt t]
  constructor
  · rintro ⟨x, ⟨admits, rfl⟩, rfl⟩
    exact ⟨admits, rfl⟩
  · rintro ⟨admits, rfl⟩
    exact ⟨_, ⟨admits, rfl⟩, rfl⟩

theorem takes_int64_number (t : NumberText) {n : Int64} :
    Takes int64.read t.bytes n ↔ IntegerKind.int64.Admits t ∧ n = .ofInt t.value :=
  IntegerKind.takes_via .int64 Int64.ofInt t

theorem takes_word32_number (t : NumberText) {n : UInt32} :
    Takes word32.read t.bytes n ↔ IntegerKind.word32.Admits t ∧ n = .ofNat t.value.toNat :=
  IntegerKind.takes_via .word32 (fun n => UInt32.ofNat n.toNat) t

theorem takes_optionalWord32_number (t : NumberText) {n : Option UInt32} :
    Takes (optional word32).read t.bytes n ↔
      IntegerKind.word32.Admits t ∧ n = some (.ofNat t.value.toNat) :=
  IntegerKind.takes_optional .word32 (fun n => UInt32.ofNat n.toNat) t

theorem takes_optionalWord64_number (t : NumberText) {n : Option UInt64} :
    Takes (optional word64).read t.bytes n ↔
      IntegerKind.word64.Admits t ∧ n = some (.ofNat t.value.toNat) :=
  IntegerKind.takes_optional .word64 (fun n => UInt64.ofNat n.toNat) t

end Json

/-! ### Fields of whole numbers -/

theorem RecordType.sound (type : RecordType) : Sound type.wire.shape.read := by
  cases type with
  | pet => exact Record.sound_of_places Pet.places
  | newPet => exact Record.sound_of_places NewPet.places
  | petUpdate => exact Record.sound_of_places PetUpdate.places
  | order => exact Record.sound_of_places Order.places
  | newOrder => exact Record.sound_of_places NewOrder.places
  | errorReport => exact Record.sound_of_places ErrorReport.places
  | config => exact Record.sound_of_places Config.places

inductive IntegerField
  | petId
  | petAge
  | newPetAge
  | orderId
  | orderPetId
  | orderQuantity
  | newOrderPetId
  | newOrderQuantity
  | timeoutSecs

namespace IntegerField

open Json (IntegerKind)

def record : IntegerField → RecordType
  | petId | petAge => .pet
  | newPetAge => .newPet
  | orderId | orderPetId | orderQuantity => .order
  | newOrderPetId | newOrderQuantity => .newOrder
  | timeoutSecs => .config

def name : IntegerField → String
  | petId | orderId => "id"
  | petAge | newPetAge => "age"
  | orderPetId | newOrderPetId => "petId"
  | orderQuantity | newOrderQuantity => "quantity"
  | timeoutSecs => "timeout_secs"

def kind : IntegerField → IntegerKind
  | petId | orderId | orderPetId | newOrderPetId => .int64
  | petAge | newPetAge | orderQuantity | newOrderQuantity => .word32
  | timeoutSecs => .word64

abbrev Value (field : IntegerField) : Type :=
  field.record.wire.Value

abbrev shape (field : IntegerField) : Json.Shape field.Value :=
  field.record.wire.shape

/-- Whether a gap in the text of a record stands for a field. -/
def HasGap (field : IntegerField) (g : Gap) : Prop :=
  g.At (field.record.fields.map WireField.name) field.name

def put : (field : IntegerField) → field.Value → Int → field.Value
  | petId => fun (pet : Pet) n => { pet with id := .ofInt n }
  | petAge => fun (pet : Pet) n => { pet with age := some (.ofNat n.toNat) }
  | newPetAge => fun (pet : NewPet) n => { pet with age := some (.ofNat n.toNat) }
  | orderId => fun (order : Order) n => { order with id := .ofInt n }
  | orderPetId => fun (order : Order) n => { order with petId := .ofInt n }
  | orderQuantity => fun (order : Order) n => { order with quantity := .ofNat n.toNat }
  | newOrderPetId => fun (order : NewOrder) n => { order with petId := .ofInt n }
  | newOrderQuantity => fun (order : NewOrder) n => { order with quantity := .ofNat n.toNat }
  | timeoutSecs => fun (config : Config) n => { config with timeoutSecs := some (.ofNat n.toNat) }

def held : (field : IntegerField) → field.Value → Option Int
  | petId => fun (pet : Pet) => some pet.id.toInt
  | petAge => fun (pet : Pet) => pet.age.map fun n => (n.toNat : Int)
  | newPetAge => fun (pet : NewPet) => pet.age.map fun n => (n.toNat : Int)
  | orderId => fun (order : Order) => some order.id.toInt
  | orderPetId => fun (order : Order) => some order.petId.toInt
  | orderQuantity => fun (order : Order) => some (order.quantity.toNat : Int)
  | newOrderPetId => fun (order : NewOrder) => some order.petId.toInt
  | newOrderQuantity => fun (order : NewOrder) => some (order.quantity.toNat : Int)
  | timeoutSecs => fun (config : Config) => config.timeoutSecs.map fun n => (n.toNat : Int)

theorem toInt_ofInt {n : Int} (least : IntegerKind.int64.least ≤ n)
    (greatest : n ≤ IntegerKind.int64.greatest) : (Int64.ofInt n).toInt = n := by
  have below : n < 2 ^ 63 := Int.lt_of_le_sub_one greatest
  exact Int64.toInt_ofInt_of_le least below

theorem toNat_ofNat32 {n : Int} (least : IntegerKind.word32.least ≤ n)
    (greatest : n ≤ IntegerKind.word32.greatest) : ((UInt32.ofNat n.toNat).toNat : Int) = n := by
  change 0 ≤ n at least
  change n ≤ 2 ^ 32 - 1 at greatest
  rw [UInt32.toNat_ofNat_of_lt' (by rw [UInt32.size]; omega)]
  omega

theorem toNat_ofNat64 {n : Int} (least : IntegerKind.word64.least ≤ n)
    (greatest : n ≤ IntegerKind.word64.greatest) : ((UInt64.ofNat n.toNat).toNat : Int) = n := by
  change 0 ≤ n at least
  change n ≤ 2 ^ 64 - 1 at greatest
  rw [UInt64.toNat_ofNat_of_lt' (by rw [UInt64.size]; omega)]
  omega

theorem held_put (field : IntegerField) (value : field.Value) {n : Int}
    (least : field.kind.least ≤ n) (greatest : n ≤ field.kind.greatest) :
    field.held (field.put value n) = some n := by
  cases field with
  | petId | orderId | orderPetId | newOrderPetId => exact congrArg some (toInt_ofInt least greatest)
  | petAge | newPetAge | orderQuantity | newOrderQuantity =>
    exact congrArg some (toNat_ofNat32 least greatest)
  | timeoutSecs => exact congrArg some (toNat_ofNat64 least greatest)

theorem takes_number {δ α β : Type} {record : Record δ α} {seat : Seat δ β} {set : α → β → α}
    (distinct : (record.members.map Member.name).Nodup)
    (places : ∀ m ∈ record.members, Places record.members m) (exact : Exact seat.read)
    (own : seat.Own record set) {kind : IntegerKind} {t : NumberText} {n : β}
    (number : ∀ {x}, Takes seat.read t.bytes x ↔ kind.Admits t ∧ x = n)
    {g : Gap} (stands : g.At (record.members.map Member.name) seat.name) {first : Bytes}
    (isFirst : IsValue first) {whole : α} (correct : Takes record.shape.read (g.fill first) whole)
    {value : α} :
    Takes record.shape.read (g.fill t.bytes) value ↔ kind.Admits t ∧ value = set whole n := by
  rw [Record.takes_fill distinct places exact own stands isFirst correct t.isValue]
  simp only [number]
  constructor
  · rintro ⟨x, ⟨admits, rfl⟩, rfl⟩
    exact ⟨admits, rfl⟩
  · rintro ⟨admits, rfl⟩
    exact ⟨_, ⟨admits, rfl⟩, rfl⟩

/-- A number in the gap of a field is read if it fits the field. -/
theorem takes_fill (field : IntegerField) {g : Gap} (stands : field.HasGap g) {first : Bytes}
    (isFirst : IsValue first) {whole : field.Value}
    (correct : Takes field.shape.read (g.fill first) whole) (t : NumberText) {value : field.Value} :
    Takes field.shape.read (g.fill t.bytes) value ↔
      field.kind.Admits t ∧ value = field.put whole t.value := by
  cases field with
  | petId =>
    exact takes_number (by decide) Pet.places Json.exact_int64 Pet.own_id
      (Json.takes_int64_number t) stands isFirst correct
  | petAge =>
    exact takes_number (by decide) Pet.places Json.exact_word32.optional Pet.own_age
      (Json.takes_optionalWord32_number t) stands isFirst correct
  | newPetAge =>
    exact takes_number (by decide) NewPet.places Json.exact_word32.optional NewPet.own_age
      (Json.takes_optionalWord32_number t) stands isFirst correct
  | orderId =>
    exact takes_number (by decide) Order.places Json.exact_int64 Order.own_id
      (Json.takes_int64_number t) stands isFirst correct
  | orderPetId =>
    exact takes_number (by decide) Order.places Json.exact_int64 Order.own_petId
      (Json.takes_int64_number t) stands isFirst correct
  | orderQuantity =>
    exact takes_number (by decide) Order.places Json.exact_word32 Order.own_quantity
      (Json.takes_word32_number t) stands isFirst correct
  | newOrderPetId =>
    exact takes_number (by decide) NewOrder.places Json.exact_int64 NewOrder.own_petId
      (Json.takes_int64_number t) stands isFirst correct
  | newOrderQuantity =>
    exact takes_number (by decide) NewOrder.places Json.exact_word32 NewOrder.own_quantity
      (Json.takes_word32_number t) stands isFirst correct
  | timeoutSecs =>
    exact takes_number (by decide) Config.places Json.exact_word64.optional Config.own_timeoutSecs
      (Json.takes_optionalWord64_number t) stands isFirst correct

/-! ### Whole texts -/

theorem decode_number (field : IntegerField) {g : Gap} (stands : field.HasGap g)
    {before after first : Bytes} (blank : Blank before) (blank' : Blank after)
    (isFirst : IsValue first) {whole : field.Value}
    (correct : field.shape.decode (before ++ (g.fill first ++ after)) = .ok whole) (t : NumberText)
    {value : field.Value} :
    field.shape.decode (before ++ (g.fill t.bytes ++ after)) = .ok value ↔
      field.kind.Admits t ∧ value = field.put whole t.value := by
  have sound := field.record.sound
  rw [sound.decode_iff blank blank' (Gap.At.isValue stands isFirst)] at correct
  rw [sound.decode_iff blank blank' (Gap.At.isValue stands t.isValue)]
  exact field.takes_fill stands isFirst correct t

theorem decode_listed_number (field : IntegerField) {g : Gap} (stands : field.HasGap g)
    {o : ListGap} (fits : o.Fits) {before after first : Bytes} (blank : Blank before)
    (blank' : Blank after) (isFirst : IsValue first) {whole : List field.Value}
    (correct : (Json.list field.shape).decode (before ++ (o.fill (g.fill first) ++ after)) =
      .ok whole) :
    ∃ record, whole[o.front.length]? = some record ∧ ∀ (t : NumberText) {values},
      (Json.list field.shape).decode (before ++ (o.fill (g.fill t.bytes) ++ after)) = .ok values ↔
        field.kind.Admits t ∧ values = whole.set o.front.length (field.put record t.value) := by
  have sound := field.record.sound
  have sound_list : Sound (Json.list field.shape).read := sound.list
  have isValue {text : Bytes} (isValue : IsValue text) : IsValue (g.fill text) :=
    Gap.At.isValue stands isValue
  rw [sound_list.decode_iff blank blank' (fits.isValue (isValue isFirst))] at correct
  obtain ⟨record, place, takes, -⟩ := fits.refill sound (isValue isFirst) correct
  refine ⟨record, place, fun t values => ?_⟩
  rw [sound_list.decode_iff blank blank' (fits.isValue (isValue t.isValue))]
  change Takes (Json.readList field.shape.read) _ _ ↔ _
  rw [fits.takes_fill sound (isValue isFirst) correct (isValue t.isValue)]
  simp only [field.takes_fill stands isFirst takes]
  constructor
  · rintro ⟨x, ⟨admits, rfl⟩, rfl⟩
    exact ⟨admits, rfl⟩
  · rintro ⟨admits, rfl⟩
    exact ⟨_, ⟨admits, rfl⟩, rfl⟩

end IntegerField

namespace Inventory

theorem decode_count {g : ObjectGap} {name : String} (fits : g.Fits name)
    {before after first : Bytes} (blank : Blank before) (blank' : Blank after)
    (isFirst : IsValue first) {whole : Inventory}
    (correct : shape.decode (before ++ (g.fill first ++ after)) = .ok whole) (t : NumberText)
    {counts : Inventory} :
    shape.decode (before ++ (g.fill t.bytes ++ after)) = .ok counts ↔
      Json.IntegerKind.int64.Admits t ∧ (g.Repeats name → counts = whole) ∧
        (¬g.Repeats name → counts = whole.insert name (.ofInt t.value)) := by
  have sound : Sound shape.read := Json.sound_int64.dict
  rw [sound.decode_iff blank blank' (fits.isValue isFirst)] at correct
  rw [sound.decode_iff blank blank' (fits.isValue t.isValue)]
  change Takes (Json.readDict Json.int64.read) _ _ ↔ _
  rw [fits.takes_fill Json.sound_int64 isFirst correct t.isValue]
  simp only [Json.takes_int64_number]
  constructor
  · rintro ⟨x, ⟨admits, rfl⟩, counts⟩
    exact ⟨admits, counts⟩
  · rintro ⟨admits, counts⟩
    exact ⟨_, ⟨admits, rfl⟩, counts⟩

end Inventory

/-! ### Some texts -/

namespace Json

def NumberText.greatest32 : NumberText where
  negative := false
  whole := [0x34, 0x32, 0x39, 0x34, 0x39, 0x36, 0x37, 0x32, 0x39, 0x35]
  fraction := []
  power := []
  isWhole := .digits rfl (by decide) (List.all_eq_true.1 rfl)
  isFraction := .none
  isPower := .none

def NumberText.negativeZero : NumberText :=
  ⟨true, [0x30], [], [], .zero, .none, .none⟩

def NumberText.hundred : NumberText where
  negative := false
  whole := [0x31]
  fraction := []
  power := [0x65, 0x32]
  isWhole := .digits rfl (by decide) nofun
  isFraction := .none
  isPower := .digits (b := 0x65) (.inl rfl) (.inl rfl) (by decide) (List.all_eq_true.1 rfl)

theorem admits_greatest32 (kind : IntegerKind) : kind.Admits .greatest32 := by
  refine ⟨rfl, rfl, by decide +kernel, ?_⟩
  cases kind <;> decide

end Json

def quantityGap : ListGap :=
  ⟨[⟨[], Utf8.bytesOf "7", []⟩], ⟨[], [], []⟩, [], []⟩

def idGap : ObjectGap :=
  ⟨[], .compact "id" "", [.compact "name" "\"Rex\""], []⟩

/-- An inventory that gives one name twice, with a gap for the first count. -/
def soldGap : ObjectGap :=
  ⟨[], .compact "sold" "", [.compact "sold" "2"], []⟩

theorem fits_quantityGap : IntegerField.newOrderQuantity.HasGap (.inList quantityGap) := by
  have seven : IsValue (Utf8.bytesOf "7") := isValue_digit rfl (by decide)
  have blank : Json.Spaced.Fits ⟨[], Utf8.bytesOf "7", []⟩ := ⟨.nil, .nil⟩
  exact ⟨⟨.nil, List.forall_mem_cons.2 ⟨blank, List.forall_mem_singleton.2 ⟨.nil, .nil⟩⟩,
    List.forall_mem_singleton.2 seven⟩, rfl⟩

theorem fits_idGap : IntegerField.petId.HasGap (.inObject idGap) := by
  have rex : IsValue (Utf8.bytesOf "\"Rex\"") := by
    have written := Json.writesText_escaped ['R', 'e', 'x']
    exact .string written.isString
  have name : WritesName "name" (Entry.compact "name" "\"Rex\"").name :=
    ⟨_, Json.writesText_escaped _, by cbv⟩
  refine ⟨.nil, ?_, ?_, List.forall_mem_singleton.2 rex, ⟨_, Json.writesText_escaped _, by cbv⟩⟩
  · exact List.forall_mem_cons.2
      ⟨Entry.fits_compact .., List.forall_mem_singleton.2 (Entry.fits_compact ..)⟩
  · exact List.forall_mem_singleton.2 name.isString

theorem fits_soldGap : soldGap.Fits "sold" := by
  have name : WritesName "sold" (Entry.compact "sold" "2").name :=
    ⟨_, Json.writesText_escaped _, by cbv⟩
  have two : IsValue (Utf8.bytesOf "2") := isValue_digit rfl (by decide)
  refine ⟨.nil, ?_, List.forall_mem_singleton.2 name.isString, List.forall_mem_singleton.2 two,
    name⟩
  exact List.forall_mem_cons.2
    ⟨Entry.fits_compact .., List.forall_mem_singleton.2 (Entry.fits_compact ..)⟩

/-- Whole numbers are read exactly or refused.  Where a text is read with some value in the gap of a
field, with a number there it is read if the number is written as a whole number that fits the
field, and then the field holds this very number; in a list of records likewise.  The counts of an
inventory fit 64 bits, and the last one of a name counts. -/
theorem IntegerField.exact_or_refused :
    (∀ (field : IntegerField) (g : Gap) (before after first : Bytes) (whole : field.Value),
        field.HasGap g → Blank before → Blank after → IsValue first →
        field.shape.decode (before ++ (g.fill first ++ after)) = .ok whole →
        ∀ (t : NumberText) (value : field.Value),
          field.shape.decode (before ++ (g.fill t.bytes ++ after)) = .ok value ↔
            field.kind.Admits t ∧ value = field.put whole t.value) ∧
      (∀ (field : IntegerField) (g : Gap) (o : ListGap) (before after first : Bytes)
          (whole : List field.Value),
        field.HasGap g → o.Fits → Blank before → Blank after → IsValue first →
        (Json.list field.shape).decode (before ++ (o.fill (g.fill first) ++ after)) = .ok whole →
        ∃ record, whole[o.front.length]? = some record ∧
          ∀ (t : NumberText) (values : List field.Value),
            (Json.list field.shape).decode (before ++ (o.fill (g.fill t.bytes) ++ after)) =
                .ok values ↔
              field.kind.Admits t ∧
                values = whole.set o.front.length (field.put record t.value)) ∧
      (∀ (g : ObjectGap) (name : String) (before after first : Bytes) (whole : Inventory),
        g.Fits name → Blank before → Blank after → IsValue first →
        Inventory.shape.decode (before ++ (g.fill first ++ after)) = .ok whole →
        ∀ (t : NumberText) (counts : Inventory),
          Inventory.shape.decode (before ++ (g.fill t.bytes ++ after)) = .ok counts ↔
            Json.IntegerKind.int64.Admits t ∧ (g.Repeats name → counts = whole) ∧
              (¬g.Repeats name → counts = whole.insert name (.ofInt t.value))) ∧
      (∀ (field : IntegerField) (value : field.Value) (t : NumberText), field.kind.Admits t →
        field.held (field.put value t.value) = some t.value) ∧
      ∀ t : NumberText, Json.IntegerKind.int64.Admits t →
        (Int64.ofInt t.value).toInt = t.value := by
  refine ⟨?_, ?_, ?_, ?_, ?_⟩
  · intro field g before after first whole stands blank blank' isFirst correct t value
    exact field.decode_number stands blank blank' isFirst correct t
  · intro field g o before after first whole stands fits blank blank' isFirst correct
    exact field.decode_listed_number stands fits blank blank' isFirst correct
  · intro g name before after first whole fits blank blank' isFirst correct t counts
    exact Inventory.decode_count fits blank blank' isFirst correct t
  · rintro field value t ⟨-, -, -, least, greatest⟩
    exact field.held_put value least greatest
  · rintro t ⟨-, -, -, least, greatest⟩
    exact toInt_ofInt least greatest

/-- The quantity of a new order, the identifier of a listed pet, and a count whose name comes
again. -/
theorem IntegerField.exact_or_refused_edges :
    NewOrder.shape.decode (Utf8.bytesOf "[7,4294967295]") = .ok ⟨7, 4294967295⟩ ∧
      (∀ order, NewOrder.shape.decode (Utf8.bytesOf "[7,-0]") ≠ .ok order) ∧
      (Json.list Pet.shape).decode (Utf8.bytesOf "[\x7b\"id\":4294967295,\"name\":\"Rex\"\x7d]") =
        .ok [{ id := 4294967295, name := "Rex" }] ∧
      (∀ counts, Inventory.shape.decode (Utf8.bytesOf "\x7b\"sold\":1e2,\"sold\":2\x7d") ≠
        .ok counts) ∧
      newOrderQuantity.held ⟨7, 4294967295⟩ = some 4294967295 ∧
      (Int64.ofInt 4294967295).toInt = 4294967295 := by
  have one : IsValue [0x31] := isValue_digit rfl (by decide)
  have refused : ¬Json.IntegerKind.word32.Admits .negativeZero :=
    fun admits => admits.2.2.1 (by cbv)
  have power : ¬Json.IntegerKind.int64.Admits .hundred := fun admits => by cases admits.2.1
  refine ⟨?_, ?_, ?_, ?_, ?_, ?_⟩
  · exact (exact_or_refused.1 newOrderQuantity (.inList quantityGap) [] [] [0x31] ⟨7, 1⟩
      fits_quantityGap .nil .nil one rfl .greatest32 ⟨7, 4294967295⟩).2
        ⟨Json.admits_greatest32 _, rfl⟩
  · intro order decoded
    exact refused ((exact_or_refused.1 newOrderQuantity (.inList quantityGap) [] [] [0x31] ⟨7, 1⟩
      fits_quantityGap .nil .nil one rfl .negativeZero order).1 decoded).1
  · obtain ⟨pet, place, reads⟩ := exact_or_refused.2.1 petId (.inObject idGap)
      ⟨[], ⟨[], [], []⟩, [], []⟩ [] [] [0x31] [{ id := 1, name := "Rex" }] fits_idGap
      ⟨.nil, List.forall_mem_singleton.2 ⟨.nil, .nil⟩, List.forall_mem_nil _⟩ .nil .nil one (by cbv)
    cases place
    exact (reads .greatest32 _).2 ⟨Json.admits_greatest32 _, rfl⟩
  · intro counts decoded
    exact power ((exact_or_refused.2.2.1 soldGap "sold" [] [] [0x31] (Dict.ofList [("sold", 2)])
      fits_soldGap .nil .nil one (by cbv) .hundred counts).1 decoded).1
  · exact exact_or_refused.2.2.2.1 newOrderQuantity ⟨7, 4294967295⟩ .greatest32
      (Json.admits_greatest32 _)
  · exact exact_or_refused.2.2.2.2 .greatest32 (Json.admits_greatest32 _)

end PetClient
