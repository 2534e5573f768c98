import PetClient.Client.Error
import PetClient.Proofs.Json.Members
import PetClient.Proofs.Wire

/-!
The fields of all records, and how records are read from the texts that present them.
-/

namespace PetClient

open Json (Blank Entry IsNumber IsValue MayStand Places Presents Reader Repeats Slot Spaced Takes
  WireField WritesBool WritesDict WritesInteger WritesList WritesName WritesOption WritesString
  listBytes objectBytes writesText_escaped)

namespace Json

variable {α β δ : Type} {seen : List String} {name : String}

def given (seen : List String) (name : String) (value : α) : Option α :=
  if name ∈ seen then some value else none

@[simp]
theorem isSome_given (value : α) : (given seen name value).isSome = decide (name ∈ seen) := by
  unfold given
  split <;> simp [*]

@[simp]
theorem given_cons_self (value : α) : given (name :: seen) name value = some value :=
  if_pos (List.mem_cons_self ..)

@[simp]
theorem given_cons_of_ne {other : String} (different : other ≠ name) (value : α) :
    given (name :: seen) other value = given seen other value := by
  simp only [given, List.mem_cons, different, false_or]

theorem given_of_mem (mem : name ∈ seen) (value : α) : given seen name value = some value :=
  if_pos mem

theorem getD_given {value default : α} (known : name ∈ seen ∨ value = default) :
    (given seen name value).getD default = value := by
  unfold given
  split
  · rfl
  · rename_i absent
    exact (known.resolve_left absent).symm

/-- A member takes a field if it reads the texts of the field and puts what it reads into its own
place in the draft. -/
theorem Slot.of_takes {draftOf : α → List String → δ} {Holds : α → Bytes → Prop}
    {MayLack : α → Prop} {isSet : δ → Bool} {read : Reader β} {fill : δ → Option β → δ}
    (value : α → β)
    (takes : ∀ {record text}, Holds record text → Takes read text (value record))
    (shown : ∀ record seen, isSet (draftOf record seen) = decide (name ∈ seen))
    (fills : ∀ record seen,
      fill (draftOf record seen) (some (value record)) = draftOf record (name :: seen)) :
    Slot draftOf ⟨name, isSet, fun draft => readInto read (fill draft)⟩ ⟨name, Holds, MayLack⟩ := by
  refine ⟨rfl, shown, fun {record text} holds seen => ?_⟩
  rw [← fills record seen]
  exact (takes holds).into (fill (draftOf record seen))

theorem takes_optionalWord32 {value : Option UInt32} {text : Bytes}
    (writes : WritesOption (fun n => WritesInteger n.toNat) value text) :
    Takes (optional word32).read text value :=
  takes_optional takes_word32 WritesInteger.noNull writes

theorem takes_optionalWord64 {value : Option UInt64} {text : Bytes}
    (writes : WritesOption (fun n => WritesInteger n.toNat) value text) :
    Takes (optional word64).read text value :=
  takes_optional takes_word64 WritesInteger.noNull writes

theorem takes_optionalText {value : Option String} {text : Bytes}
    (writes : WritesOption WritesString value text) : Takes (optional Json.text).read text value :=
  takes_optional takes_text WritesString.noNull writes

end Json

namespace PetStatus

def Writes (status : PetStatus) (text : Bytes) : Prop :=
  WritesString status.name text

theorem takes {status : PetStatus} {text : Bytes} (writes : status.Writes text) :
    Takes shape.read text status :=
  Json.Variants.takes (by cases status <;> rfl) writes

theorem takes_optional {status : Option PetStatus} {text : Bytes}
    (writes : WritesOption Writes status text) : Takes (Json.optional shape).read text status :=
  Json.takes_optional takes WritesString.noNull writes

end PetStatus

namespace Pet

def fields : List (WireField Pet) := [
  .required "id" (fun n => WritesInteger n.toInt) Pet.id,
  .required "name" WritesString Pet.name,
  .defaulted "species" (WritesOption WritesString) Pet.species none,
  .defaulted "breed" (WritesOption WritesString) Pet.breed none,
  .defaulted "age" (WritesOption fun n => WritesInteger n.toNat) Pet.age none,
  .defaulted "tags" (WritesList WritesString) Pet.tags [],
  .defaulted "status" PetStatus.Writes Pet.status .available]

def draftSeen (pet : Pet) (seen : List String) : Draft where
  id := Json.given seen "id" pet.id
  name := Json.given seen "name" pet.name
  species := Json.given seen "species" pet.species
  breed := Json.given seen "breed" pet.breed
  age := Json.given seen "age" pet.age
  tags := Json.given seen "tags" pet.tags
  status := Json.given seen "status" pet.status

theorem places : ∀ m ∈ members, Places members m := by
  simp only [members, List.forall_mem_cons]
  refine ⟨.into Json.sound_int64 ?_, .into Json.sound_text ?_,
    .into Json.sound_text.optional ?_, .into Json.sound_text.optional ?_,
    .into Json.sound_word32.optional ?_, .into Json.sound_text.list ?_,
    .into (Json.sound_variants _) ?_, nofun⟩
  all_goals simp

theorem drafted : record.Drafted fields draftSeen where
  slots := by
    refine .cons (.of_takes Pet.id Json.takes_int64 ?_ ?_)
      (.cons (.of_takes Pet.name Json.takes_text ?_ ?_)
      (.cons (.of_takes Pet.species Json.takes_optionalText ?_ ?_)
      (.cons (.of_takes Pet.breed Json.takes_optionalText ?_ ?_)
      (.cons (.of_takes Pet.age Json.takes_optionalWord32 ?_ ?_)
      (.cons (.of_takes Pet.tags (Json.takes_list Json.takes_text) ?_ ?_)
      (.cons (.of_takes Pet.status PetStatus.takes ?_ ?_) .nil))))))
    all_goals
      intro pet seen
      simp [draftSeen]
  distinct := by decide
  blank := fun _ => rfl
  builds := by
    intro pet seen known
    simp only [fields, WireField.required, WireField.defaulted, List.forall_mem_cons,
      or_false] at known
    obtain ⟨id, name, species, breed, age, tags, status, -⟩ := known
    simp only [record, Draft.build, draftSeen, Json.given_of_mem id, Json.given_of_mem name,
      Json.getD_given species, Json.getD_given breed, Json.getD_given age, Json.getD_given tags,
      Json.getD_given status, Json.required, bind, Except.bind]
    rfl

end Pet

namespace NewPet

def fields : List (WireField NewPet) := [
  .required "name" WritesString NewPet.name,
  .defaulted "species" (WritesOption WritesString) NewPet.species none,
  .defaulted "breed" (WritesOption WritesString) NewPet.breed none,
  .defaulted "age" (WritesOption fun n => WritesInteger n.toNat) NewPet.age none,
  .defaulted "tags" (WritesList WritesString) NewPet.tags []]

def draftSeen (pet : NewPet) (seen : List String) : Draft where
  name := Json.given seen "name" pet.name
  species := Json.given seen "species" pet.species
  breed := Json.given seen "breed" pet.breed
  age := Json.given seen "age" pet.age
  tags := Json.given seen "tags" pet.tags

theorem places : ∀ m ∈ members, Places members m := by
  simp only [members, List.forall_mem_cons]
  refine ⟨.into Json.sound_text ?_, .into Json.sound_text.optional ?_,
    .into Json.sound_text.optional ?_, .into Json.sound_word32.optional ?_,
    .into Json.sound_text.list ?_, nofun⟩
  all_goals simp

theorem drafted : record.Drafted fields draftSeen where
  slots := by
    refine .cons (.of_takes NewPet.name Json.takes_text ?_ ?_)
      (.cons (.of_takes NewPet.species Json.takes_optionalText ?_ ?_)
      (.cons (.of_takes NewPet.breed Json.takes_optionalText ?_ ?_)
      (.cons (.of_takes NewPet.age Json.takes_optionalWord32 ?_ ?_)
      (.cons (.of_takes NewPet.tags (Json.takes_list Json.takes_text) ?_ ?_) .nil))))
    all_goals
      intro pet seen
      simp [draftSeen]
  distinct := by decide
  blank := fun _ => rfl
  builds := by
    intro pet seen known
    simp only [fields, WireField.required, WireField.defaulted, List.forall_mem_cons,
      or_false] at known
    obtain ⟨name, species, breed, age, tags, -⟩ := known
    simp only [record, Draft.build, draftSeen, Json.given_of_mem name, Json.getD_given species,
      Json.getD_given breed, Json.getD_given age, Json.getD_given tags, Json.required, bind,
      Except.bind]
    rfl

end NewPet

namespace PetUpdate

def fields : List (WireField PetUpdate) := [
  .defaulted "name" (WritesOption WritesString) PetUpdate.name none,
  .defaulted "status" (WritesOption PetStatus.Writes) PetUpdate.status none]

def draftSeen (update : PetUpdate) (seen : List String) : Draft where
  name := Json.given seen "name" update.name
  status := Json.given seen "status" update.status

theorem places : ∀ m ∈ members, Places members m := by
  simp only [members, List.forall_mem_cons]
  refine ⟨.into Json.sound_text.optional ?_, .into (Json.sound_variants _).optional ?_,
    nofun⟩
  all_goals simp

theorem drafted : record.Drafted fields draftSeen where
  slots := by
    refine .cons (.of_takes PetUpdate.name Json.takes_optionalText ?_ ?_)
      (.cons (.of_takes PetUpdate.status PetStatus.takes_optional ?_ ?_) .nil)
    all_goals
      intro update seen
      simp [draftSeen]
  distinct := by decide
  blank := fun _ => rfl
  builds := by
    intro update seen known
    simp only [fields, WireField.defaulted, List.forall_mem_cons] at known
    obtain ⟨name, status, -⟩ := known
    simp only [record, Draft.build, draftSeen, Json.getD_given name, Json.getD_given status]
    rfl

end PetUpdate

namespace Order

def fields : List (WireField Order) := [
  .required "id" (fun n => WritesInteger n.toInt) Order.id,
  .required "petId" (fun n => WritesInteger n.toInt) Order.petId,
  .required "quantity" (fun n => WritesInteger n.toNat) Order.quantity,
  .defaulted "status" (WritesOption WritesString) Order.status none,
  .defaulted "complete" WritesBool Order.complete false]

def draftSeen (order : Order) (seen : List String) : Draft where
  id := Json.given seen "id" order.id
  petId := Json.given seen "petId" order.petId
  quantity := Json.given seen "quantity" order.quantity
  status := Json.given seen "status" order.status
  complete := Json.given seen "complete" order.complete

theorem places : ∀ m ∈ members, Places members m := by
  simp only [members, List.forall_mem_cons]
  refine ⟨.into Json.sound_int64 ?_, .into Json.sound_int64 ?_,
    .into Json.sound_word32 ?_, .into Json.sound_text.optional ?_,
    .into Json.sound_bool ?_, nofun⟩
  all_goals simp

theorem drafted : record.Drafted fields draftSeen where
  slots := by
    refine .cons (.of_takes Order.id Json.takes_int64 ?_ ?_)
      (.cons (.of_takes Order.petId Json.takes_int64 ?_ ?_)
      (.cons (.of_takes Order.quantity Json.takes_word32 ?_ ?_)
      (.cons (.of_takes Order.status Json.takes_optionalText ?_ ?_)
      (.cons (.of_takes Order.complete Json.takes_bool ?_ ?_) .nil))))
    all_goals
      intro order seen
      simp [draftSeen]
  distinct := by decide
  blank := fun _ => rfl
  builds := by
    intro order seen known
    simp only [fields, WireField.required, WireField.defaulted, List.forall_mem_cons,
      or_false] at known
    obtain ⟨id, petId, quantity, status, complete, -⟩ := known
    simp only [record, Draft.build, draftSeen, Json.given_of_mem id, Json.given_of_mem petId,
      Json.given_of_mem quantity, Json.getD_given status, Json.getD_given complete, Json.required,
      bind, Except.bind]
    rfl

end Order

namespace NewOrder

def fields : List (WireField NewOrder) := [
  .required "petId" (fun n => WritesInteger n.toInt) NewOrder.petId,
  .required "quantity" (fun n => WritesInteger n.toNat) NewOrder.quantity]

def draftSeen (order : NewOrder) (seen : List String) : Draft where
  petId := Json.given seen "petId" order.petId
  quantity := Json.given seen "quantity" order.quantity

theorem places : ∀ m ∈ members, Places members m := by
  simp only [members, List.forall_mem_cons]
  refine ⟨.into Json.sound_int64 ?_, .into Json.sound_word32 ?_, nofun⟩
  all_goals simp

theorem drafted : record.Drafted fields draftSeen where
  slots := by
    refine .cons (.of_takes NewOrder.petId Json.takes_int64 ?_ ?_)
      (.cons (.of_takes NewOrder.quantity Json.takes_word32 ?_ ?_) .nil)
    all_goals
      intro order seen
      simp [draftSeen]
  distinct := by decide
  blank := fun _ => rfl
  builds := by
    intro order seen known
    simp only [fields, WireField.required, List.forall_mem_cons, or_false] at known
    obtain ⟨petId, quantity, -⟩ := known
    simp only [record, Draft.build, draftSeen, Json.given_of_mem petId, Json.given_of_mem quantity,
      Json.required, bind, Except.bind]
    rfl

end NewOrder

namespace ErrorReport

def fields : List (WireField ErrorReport) := [
  .required "message" WritesString ErrorReport.message,
  .required "code" WritesString ErrorReport.code]

def draftSeen (report : ErrorReport) (seen : List String) : Draft where
  message := Json.given seen "message" report.message
  code := Json.given seen "code" report.code

theorem places : ∀ m ∈ members, Places members m := by
  simp only [members, List.forall_mem_cons]
  refine ⟨.into Json.sound_text ?_, .into Json.sound_text ?_, nofun⟩
  all_goals simp

theorem drafted : record.Drafted fields draftSeen where
  slots := by
    refine .cons (.of_takes ErrorReport.message Json.takes_text ?_ ?_)
      (.cons (.of_takes ErrorReport.code Json.takes_text ?_ ?_) .nil)
    all_goals
      intro report seen
      simp [draftSeen]
  distinct := by decide
  blank := fun _ => rfl
  builds := by
    intro report seen known
    simp only [fields, WireField.required, List.forall_mem_cons, or_false] at known
    obtain ⟨message, code, -⟩ := known
    simp only [record, Draft.build, draftSeen, Json.given_of_mem message, Json.given_of_mem code,
      Json.required, bind, Except.bind]
    rfl

end ErrorReport

namespace Config

def fields : List (WireField Config) := [
  .required "base_url" WritesString Config.baseUrl,
  .defaulted "headers" (WritesDict WritesString) Config.headers ∅,
  .defaulted "token" (WritesOption WritesString) Config.token none,
  .defaulted "timeout_secs" (WritesOption fun n => WritesInteger n.toNat) Config.timeoutSecs none]

def draftSeen (config : Config) (seen : List String) : Draft where
  baseUrl := Json.given seen "base_url" config.baseUrl
  headers := Json.given seen "headers" config.headers
  token := Json.given seen "token" config.token
  timeoutSecs := Json.given seen "timeout_secs" config.timeoutSecs

theorem places : ∀ m ∈ members, Places members m := by
  simp only [members, List.forall_mem_cons]
  refine ⟨.into Json.sound_text ?_, .into Json.sound_text.dict ?_,
    .into Json.sound_text.optional ?_, .into Json.sound_word64.optional ?_, nofun⟩
  all_goals simp

theorem drafted : record.Drafted fields draftSeen where
  slots := by
    refine .cons (.of_takes Config.baseUrl Json.takes_text ?_ ?_)
      (.cons (.of_takes Config.headers (Json.takes_dict Json.takes_text) ?_ ?_)
      (.cons (.of_takes Config.token Json.takes_optionalText ?_ ?_)
      (.cons (.of_takes Config.timeoutSecs Json.takes_optionalWord64 ?_ ?_) .nil)))
    all_goals
      intro config seen
      simp [draftSeen]
  distinct := by decide
  blank := fun _ => rfl
  builds := by
    intro config seen known
    simp only [fields, WireField.required, WireField.defaulted, List.forall_mem_cons,
      or_false] at known
    obtain ⟨baseUrl, headers, token, timeoutSecs, -⟩ := known
    simp only [record, Draft.build, draftSeen, Json.given_of_mem baseUrl, Json.getD_given headers,
      Json.getD_given token, Json.getD_given timeoutSecs, Json.required, bind, Except.bind]
    rfl

end Config

/-! ### All records -/

inductive RecordType
  | pet
  | newPet
  | petUpdate
  | order
  | newOrder
  | errorReport
  | config

namespace RecordType

def wire : RecordType → WireType
  | pet => .pet
  | newPet => .newPet
  | petUpdate => .petUpdate
  | order => .order
  | newOrder => .newOrder
  | errorReport => .errorReport
  | config => .config

def fields : (type : RecordType) → List (WireField type.wire.Value)
  | pet => Pet.fields
  | newPet => NewPet.fields
  | petUpdate => PetUpdate.fields
  | order => Order.fields
  | newOrder => NewOrder.fields
  | errorReport => ErrorReport.fields
  | config => Config.fields

theorem decode_of_presents (type : RecordType) {value : type.wire.Value} {text : Bytes}
    (presents : Presents type.fields value text) : type.wire.shape.decode text = .ok value := by
  cases type with
  | pet => exact Pet.drafted.decode presents
  | newPet => exact NewPet.drafted.decode presents
  | petUpdate => exact PetUpdate.drafted.decode presents
  | order => exact Order.drafted.decode presents
  | newOrder => exact NewOrder.drafted.decode presents
  | errorReport => exact ErrorReport.drafted.decode presents
  | config => exact Config.drafted.decode presents

theorem decode_ne_ok_of_repeats (type : RecordType) {text : Bytes}
    (repeats : Repeats (type.fields.map WireField.name) text) (value : type.wire.Value) :
    type.wire.shape.decode text ≠ .ok value := by
  cases type with
  | pet => exact Pet.drafted.decode_ne_ok Pet.places repeats value
  | newPet => exact NewPet.drafted.decode_ne_ok NewPet.places repeats value
  | petUpdate => exact PetUpdate.drafted.decode_ne_ok PetUpdate.places repeats value
  | order => exact Order.drafted.decode_ne_ok Order.places repeats value
  | newOrder => exact NewOrder.drafted.decode_ne_ok NewOrder.places repeats value
  | errorReport => exact ErrorReport.drafted.decode_ne_ok ErrorReport.places repeats value
  | config => exact Config.drafted.decode_ne_ok Config.places repeats value

end RecordType

theorem ClientError.report_of_presents {report : ErrorReport} {text : Bytes}
    (presents : Presents ErrorReport.fields report text) (status : Http.Status) :
    (ClientError.http status text).report = some report := by
  have decoded : ErrorReport.shape.decode text = .ok report :=
    ErrorReport.drafted.decode presents
  unfold ClientError.report
  simp only [decoded]
  rfl

/-! ### Some texts -/

def Json.Entry.compact (name value : String) : Json.Entry :=
  ⟨[], Utf8.bytesOf name ++ [0x22], [], ⟨[], Utf8.bytesOf value, []⟩⟩

theorem Json.Entry.fits_compact (name value : String) : (Entry.compact name value).Fits :=
  ⟨.nil, .nil, .nil, .nil⟩

theorem isValue_digit {b : UInt8} (digit : Json.isDigit b = true) (nonzero : b ≠ 0x30) :
    IsValue [b] := by
  have isNumber : IsNumber ([b] ++ ([] ++ [])) :=
    .parts (.digits digit nonzero (List.forall_mem_nil _)) .none .none
  exact .number isNumber

theorem isValue_nested : IsValue (Utf8.bytesOf "[\x7b\"a\":null\x7d]") := by
  have inner : IsValue (objectBytes [.compact "a" "null"] []) :=
    .object .nil (List.forall_mem_singleton.2 (Entry.fits_compact ..))
      (List.forall_mem_singleton.2 (.plain rfl .close)) (List.forall_mem_singleton.2 .null)
  have fit : ∀ i ∈ [Spaced.mk [] (objectBytes [.compact "a" "null"] []) []], i.Fits :=
    List.forall_mem_singleton.2 ⟨.nil, .nil⟩
  exact .list .nil fit (List.forall_mem_singleton.2 inner)

theorem writesName_escaped : WritesName "petId" (Entry.compact "\\u0070etId" "7").name :=
  ⟨_, .cons (.unit ⟨0x30, 0x30, 0x37, 0x30, 0, 0, 7, 0, rfl, rfl, rfl, rfl, rfl, rfl⟩)
    (writesText_escaped ['e', 't', 'I', 'd']), by cbv⟩

theorem presents_mixedOrder : Presents NewOrder.fields ⟨7, 2⟩ (Utf8.bytesOf
    " \x7b\"note\":[\x7b\"a\":null\x7d],\"quantity\":2,\"\\u0070etId\":7\x7d") := by
  have note : MayStand NewOrder.fields ⟨7, 2⟩
      ("note", .compact "note" "[\x7b\"a\":null\x7d]") :=
    .of_not_mem (by decide) (Entry.fits_compact ..) ⟨_, writesText_escaped _, by cbv⟩
      isValue_nested
  have quantity : MayStand NewOrder.fields ⟨7, 2⟩ ("quantity", .compact "quantity" "2") :=
    .of_mem (by decide) (List.mem_cons_of_mem _ (List.mem_cons_self ..))
      (Entry.fits_compact ..) ⟨_, writesText_escaped _, by cbv⟩ (show WritesInteger 2 _ by cbv)
  have petId : MayStand NewOrder.fields ⟨7, 2⟩ ("petId", .compact "\\u0070etId" "7") :=
    .of_mem (by decide) (List.mem_cons_self ..) (Entry.fits_compact ..) writesName_escaped
      (show WritesInteger 7 _ by cbv)
  have stand := List.forall_mem_cons.2 ⟨note, List.forall_mem_cons.2 ⟨quantity,
    List.forall_mem_singleton.2 petId⟩⟩
  have presents := Presents.object (show Blank [0x20] by decide) Blank.nil Blank.nil stand
    (by decide) (by simp [NewOrder.fields, WireField.required])
  exact (congrArg (Presents NewOrder.fields ⟨7, 2⟩) (by cbv)).mpr presents

theorem presents_shortUpdate :
    Presents PetUpdate.fields ⟨some "Rex", none⟩ (Utf8.bytesOf "[\"Rex\" ]") := by
  have rex : WritesOption WritesString (some "Rex") (Utf8.bytesOf "\"Rex\"") :=
    ⟨_, writesText_escaped _, by cbv⟩
  have presents : Presents PetUpdate.fields ⟨some "Rex", none⟩
      ([] ++ (listBytes [⟨[], Utf8.bytesOf "\"Rex\"", [0x20]⟩] [] ++ [])) :=
    .array .nil .nil .nil (List.forall_mem_singleton.2 ⟨.nil, by decide⟩) rfl
      (.cons rex .nil) (List.forall_mem_singleton.2 rfl)
  exact (congrArg (Presents PetUpdate.fields ⟨some "Rex", none⟩) (by cbv)).mpr presents

theorem repeats_escaped : Repeats (NewOrder.fields.map WireField.name)
    (Utf8.bytesOf "\x7b\"petId\":7,\"\\u0070etId\":7\x7d") := by
  have plain : WritesName "petId" (Entry.compact "petId" "7").name :=
    ⟨_, writesText_escaped _, by cbv⟩
  have seven : IsValue (Utf8.bytesOf "7") :=
    .number (show IsNumber ([0x37] ++ ([] ++ [])) from
      .parts (.digits (by decide) (by decide) nofun) .none .none)
  have repeats : Repeats (NewOrder.fields.map WireField.name)
      ([] ++ (objectBytes [.compact "petId" "7", .compact "\\u0070etId" "7"] [] ++ [])) := by
    refine .object .nil .nil .nil ?_ ?_ ?_ (by decide) plain writesName_escaped
      (List.Sublist.refl _)
    · simp [Entry.fits_compact]
    · simpa using ⟨plain.isString, writesName_escaped.isString⟩
    · simpa [Entry.compact] using seven
  exact (congrArg (Repeats (NewOrder.fields.map WireField.name)) (by cbv)).mpr repeats

theorem presents_tracedReport : Presents ErrorReport.fields ⟨"none", "404"⟩ (Utf8.bytesOf
    "\x7b\"trace\":[\x7b\"a\":null\x7d],\"code\":\"404\",\"message\":\"none\"\x7d") := by
  have trace : MayStand ErrorReport.fields ⟨"none", "404"⟩
      ("trace", .compact "trace" "[\x7b\"a\":null\x7d]") :=
    .of_not_mem (by decide) (Entry.fits_compact ..) ⟨_, writesText_escaped _, by cbv⟩
      isValue_nested
  have code : MayStand ErrorReport.fields ⟨"none", "404"⟩ ("code", .compact "code" "\"404\"") :=
    .of_mem (by decide) (List.mem_cons_of_mem _ (List.mem_cons_self ..))
      (Entry.fits_compact ..) ⟨_, writesText_escaped _, by cbv⟩
      (show WritesString "404" _ from ⟨_, writesText_escaped _, by cbv⟩)
  have message : MayStand ErrorReport.fields ⟨"none", "404"⟩
      ("message", .compact "message" "\"none\"") :=
    .of_mem (by decide) (List.mem_cons_self ..) (Entry.fits_compact ..)
      ⟨_, writesText_escaped _, by cbv⟩
      (show WritesString "none" _ from ⟨_, writesText_escaped _, by cbv⟩)
  have stand := List.forall_mem_cons.2 ⟨trace, List.forall_mem_cons.2 ⟨code,
    List.forall_mem_singleton.2 message⟩⟩
  have presents := Presents.object Blank.nil Blank.nil Blank.nil stand (by decide)
    (by simp [ErrorReport.fields, WireField.required])
  exact (congrArg (Presents ErrorReport.fields ⟨"none", "404"⟩) (by cbv)).mpr presents

/-! ### Reading by members -/

/-- A record is read from every text that presents it, and from no object in which one of its fields
stands twice; so the report of a failure is found in every body that presents it. -/
theorem RecordType.read_by_members :
    (∀ (type : RecordType) value text, Presents type.fields value text →
        type.wire.shape.decode text = .ok value) ∧
      (∀ (type : RecordType) text, Repeats (type.fields.map WireField.name) text →
        ∀ value, type.wire.shape.decode text ≠ .ok value) ∧
      ∀ report text, Presents ErrorReport.fields report text →
        ∀ status, (ClientError.http status text).report = some report :=
  ⟨fun type _ _ => type.decode_of_presents, fun type _ => type.decode_ne_ok_of_repeats,
    fun _ _ => ClientError.report_of_presents⟩

/-- A new order among other members and with an escaped name, a change of a pet without its status,
an order of a pet that is named twice, and a report behind another member. -/
theorem RecordType.read_by_members_mixed :
    NewOrder.shape.decode (Utf8.bytesOf
        " \x7b\"note\":[\x7b\"a\":null\x7d],\"quantity\":2,\"\\u0070etId\":7\x7d") = .ok ⟨7, 2⟩ ∧
      PetUpdate.shape.decode (Utf8.bytesOf "[\"Rex\" ]") = .ok ⟨some "Rex", none⟩ ∧
      (∀ value, NewOrder.shape.decode (Utf8.bytesOf
        "\x7b\"petId\":7,\"\\u0070etId\":7\x7d") ≠ .ok value) ∧
      ∀ status, (ClientError.http status (Utf8.bytesOf
        "\x7b\"trace\":[\x7b\"a\":null\x7d],\"code\":\"404\",\"message\":\"none\"\x7d")).report =
          some ⟨"none", "404"⟩ :=
  ⟨read_by_members.1 .newOrder _ _ presents_mixedOrder,
    read_by_members.1 .petUpdate _ _ presents_shortUpdate,
    read_by_members.2.1 .newOrder _ repeats_escaped,
    read_by_members.2.2 _ _ presents_tracedReport⟩

end PetClient
