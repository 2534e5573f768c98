import PetClient.Client.Basic
import PetClient.Proofs.Json.Standing
import PetClient.Proofs.Presentation

/-!
The bodies of good answers.  What stands around the value of a body does not matter as long as it is
blank, and a body of blanks alone counts as `null`.
-/

namespace PetClient

namespace Json

variable {α : Type}

def jsonBlanks : Bytes :=
  [0x20, 0x09, 0x0D, 0x0A]

def bodyBlanks : Bytes :=
  0x0C :: jsonBlanks

theorem isBlank_iff {b : UInt8} : isBlank b = true ↔ b ∈ jsonBlanks := by
  simp only [isBlank, Bool.or_eq_true, decide_eq_true_eq, jsonBlanks, List.mem_cons,
    List.not_mem_nil, or_false]
  tauto

theorem blank_iff {bytes : Bytes} : Blank bytes ↔ ∀ b ∈ bytes, b ∈ jsonBlanks :=
  forall₂_congr fun _ _ => isBlank_iff

end Json

theorem Client.isBlank_iff {b : UInt8} : Client.isBlank b = true ↔ b ∈ Json.bodyBlanks := by
  simp only [Client.isBlank, Json.bodyBlanks, Json.jsonBlanks, Bool.or_eq_true, Bool.and_eq_true,
    decide_eq_true_eq, List.mem_cons, List.not_mem_nil, or_false, UInt8.le_iff_toNat_le, ne_eq,
    ← UInt8.toNat_inj]
  change b.toNat = 32 ∨ (9 ≤ b.toNat ∧ b.toNat ≤ 13) ∧ ¬b.toNat = 11 ↔
    b.toNat = 12 ∨ b.toNat = 32 ∨ b.toNat = 9 ∨ b.toNat = 13 ∨ b.toNat = 10
  omega

namespace Json

variable {α : Type}

/-! ### Whole texts -/

/-- A text that is read holds one value with blanks around it, which is read wherever it stands. -/
theorem Exact.exists_of_decode {shape : Shape α} (exact : Exact shape.read) {text : Bytes}
    {value : α} (decoded : shape.decode text = .ok value) :
    ∃ before core after, Blank before ∧ Blank after ∧ text = before ++ (core ++ after) ∧
      IsValue core ∧ Takes shape.read core value := by
  obtain ⟨after, blank_after, read⟩ := Shape.read_of_decode decoded
  obtain ⟨core, taken, isValue, takes⟩ := exact text value after read
  obtain ⟨before, blank, parts⟩ := exists_skipBlanks text
  exact ⟨before, core, after, blank, blank_after, taken ▸ parts, isValue, takes⟩

theorem exists_rest_of_blank {init after text back : Bytes} {last : UInt8}
    (visible : isBlank last = false) (blank : Blank back)
    (same : text ++ back = init ++ [last] ++ after) :
    ∃ rest, text = init ++ [last] ++ rest ∧ after = rest ++ back := by
  rcases List.append_eq_append_iff.1 same with ⟨rest, whole, suffix⟩ | ⟨rest, whole, suffix⟩
  · cases rest with
    | nil => exact ⟨[], by rw [List.append_nil, whole, List.append_nil], suffix.symm⟩
    | cons d rest =>
      have mem : last ∈ d :: rest := by
        have tail := congrArg List.getLast? whole
        rw [List.getLast?_concat, List.getLast?_append_cons] at tail
        exact List.mem_of_getLast? tail.symm
      have blank_last := blank last (suffix ▸ List.mem_append_left after mem)
      exact absurd blank_last (by simp [visible])
  · exact ⟨rest, whole, suffix⟩

theorem IsValue.inside {core before after front text back : Bytes} (isValue : IsValue core)
    (blank : Blank before) (blank' : Blank after) (blank_front : Blank front)
    (blank_back : Blank back) (same : front ++ (text ++ back) = before ++ (core ++ after)) :
    ∃ before' after', Blank before' ∧ Blank after' ∧ text = before' ++ (core ++ after') := by
  obtain ⟨b, tail, begins, visible, -⟩ := isValue.starts
  obtain ⟨init, last, ends, visible_last⟩ := isValue.ends
  obtain ⟨before', blank_before', parts⟩ := exists_skipBlanks text
  have trimmed : skipBlanks (text ++ back) = core ++ after := by
    have whole := congrArg skipBlanks same
    rw [skipBlanks_blanks blank_front, skipBlanks_blanks blank, begins, List.cons_append,
      skipBlanks_cons visible] at whole
    rw [whole, begins, List.cons_append]
  cases inner : skipBlanks text with
  | nil =>
    have blank_text : Blank text := List.dropWhile_eq_nil_iff.1 inner
    rw [skipBlanks_blanks blank_text, begins] at trimmed
    have blank_core : Blank (skipBlanks back) := fun c mem =>
      blank_back c (List.dropWhile_subset isBlank mem)
    rw [trimmed] at blank_core
    exact absurd (blank_core b (List.mem_cons_self ..)) (by simp [visible])
  | cons c others =>
    have kept : skipBlanks (text ++ back) = skipBlanks text ++ back := by
      unfold skipBlanks at inner ⊢
      rw [List.dropWhile_append, inner]
      rfl
    rw [kept, ends] at trimmed
    obtain ⟨rest, whole, rfl⟩ := exists_rest_of_blank visible_last blank_back trimmed
    rw [← ends] at whole
    refine ⟨before', rest, blank_before', fun d mem => ?_, by rw [← whole, ← parts]⟩
    exact blank' d (List.mem_append_left back mem)

theorem Exact.decode_spaced {shape : Shape α} (exact : Exact shape.read) {front back : Bytes}
    (blank : Blank front) (blank' : Blank back) {text : Bytes} {value : α} :
    shape.decode (front ++ (text ++ back)) = .ok value ↔ shape.decode text = .ok value := by
  constructor
  · intro decoded
    obtain ⟨before, core, after, blank_before, blank_after, parts, isValue, takes⟩ :=
      exact.exists_of_decode decoded
    obtain ⟨before', after', blank_before', blank_after', rfl⟩ :=
      isValue.inside blank_before blank_after blank blank' parts
    exact takes.decode blank_before' blank_after'
  · intro decoded
    obtain ⟨before, core, after, blank_before, blank_after, rfl, isValue, takes⟩ :=
      exact.exists_of_decode decoded
    have whole := takes.decode (blank.append blank_before) (blank_after.append blank')
    simpa using whole

theorem Exact.no_stray {shape : Shape α} (exact : Exact shape.read) {text : Bytes} {value : α}
    (decoded : shape.decode text = .ok value) : ¬HasStrayFeed text := by
  obtain ⟨before, core, after, blank, blank', rfl, isValue, -⟩ := exact.exists_of_decode decoded
  exact (blank.clean.append (isValue.clean.append blank'.clean)).no_stray

/-! ### Types of results -/

def nullText : Bytes :=
  Utf8.bytesOf "null"

/-- `null` is read as what stands for no text, or refused for the same reason. -/
def TakesNull (shape : Shape α) : Prop :=
  (shape.decode nullText).mapError Refusal.problem = shape.ofNull

theorem takesNull_any : TakesNull any := by
  have decoded := (takesTree_null nestingLimit).takes.decode .nil .nil
  rw [List.nil_append, List.append_nil] at decoded
  exact congrArg (Except.mapError Refusal.problem) decoded

end Json

/-- The types that bodies are read as: values of any shape, none at all, the records of the store,
and optional ones and lists of any of them. -/
inductive BodyType
  | value
  | nothing
  | pet
  | order
  | inventory
  | optional (type : BodyType)
  | list (type : BodyType)

namespace BodyType

def Value : BodyType → Type
  | value => Json
  | nothing => Unit
  | pet => Pet
  | order => Order
  | inventory => Inventory
  | optional type => Option type.Value
  | list type => List type.Value

def shape : (type : BodyType) → Json.Shape type.Value
  | value => Json.any
  | nothing => Json.unit
  | pet => Pet.shape
  | order => Order.shape
  | inventory => Inventory.shape
  | optional type => Json.optional type.shape
  | list type => Json.list type.shape

theorem exact (type : BodyType) : Json.Exact type.shape.read := by
  induction type with
  | value => exact Json.exact_any
  | nothing => exact Json.exact_unit
  | pet => exact (Json.Record.sound_of_places Pet.places).exact
  | order => exact (Json.Record.sound_of_places Order.places).exact
  | inventory => exact Json.exact_int64.dict
  | optional type ih => exact ih.optional
  | list type ih => exact ih.list

theorem takesNull (type : BodyType) : Json.TakesNull type.shape := by
  cases type with
  | value => exact Json.takesNull_any
  | nothing => rfl
  | pet => rfl
  | order => rfl
  | inventory => rfl
  | optional type => rfl
  | list type => rfl

end BodyType

/-! ### Bodies -/

def ClientError.problem? : ClientError → Option Json.Problem
  | decode refusal => some refusal.problem
  | _ => none

namespace Client

variable {α : Type} {shape : Json.Shape α} {body : Bytes}

theorem all_isBlank_iff : body.all isBlank = true ↔ ∀ b ∈ body, b ∈ Json.bodyBlanks :=
  List.all_eq_true.trans (forall₂_congr fun _ _ => isBlank_iff)

theorem decodeBody_of_blank (blank : ∀ b ∈ body, b ∈ Json.bodyBlanks) :
    decodeBody shape body = shape.decodeNull.mapError .decode := by
  unfold decodeBody
  rw [if_pos (all_isBlank_iff.2 blank)]

theorem decodeBody_of_solid {b : UInt8} (mem : b ∈ body) (solid : b ∉ Json.bodyBlanks) :
    decodeBody shape body = (shape.decode body).mapError .decode := by
  unfold decodeBody
  rw [if_neg fun blank => solid (all_isBlank_iff.1 blank b mem)]

theorem decodeBody_null (takesNull : Json.TakesNull shape)
    (blank : ∀ b ∈ body, b ∈ Json.bodyBlanks) :
    (decodeBody shape body).mapError ClientError.problem? =
      (decodeBody shape Json.nullText).mapError ClientError.problem? := by
  have letter : (0x6E : UInt8) ∈ Json.nullText := List.mem_cons_self ..
  rw [decodeBody_of_blank blank, decodeBody_of_solid letter (by decide)]
  unfold Json.Shape.decodeNull
  rw [← takesNull]
  cases shape.decode Json.nullText <;> rfl

theorem decodeBody_spaced (exact : Json.Exact shape.read) {front back : Bytes}
    (blank : ∀ b ∈ front, b ∈ Json.jsonBlanks) (blank' : ∀ b ∈ back, b ∈ Json.jsonBlanks)
    {value : α} :
    decodeBody shape (front ++ (body ++ back)) = .ok value ↔
      decodeBody shape body = .ok value := by
  by_cases empty : ∀ b ∈ body, b ∈ Json.bodyBlanks
  · have whole : ∀ b ∈ front ++ (body ++ back), b ∈ Json.bodyBlanks := by
      simp only [List.forall_mem_append]
      exact ⟨fun b mem => List.mem_cons_of_mem _ (blank b mem), empty,
        fun b mem => List.mem_cons_of_mem _ (blank' b mem)⟩
    rw [decodeBody_of_blank empty, decodeBody_of_blank whole]
  · simp only [not_forall] at empty
    obtain ⟨b, mem, solid⟩ := empty
    have mem_whole : b ∈ front ++ (body ++ back) :=
      List.mem_append_right _ (List.mem_append_left _ mem)
    rw [decodeBody_of_solid mem solid, decodeBody_of_solid mem_whole solid, Result.mapError_eq_ok,
      Result.mapError_eq_ok]
    exact exact.decode_spaced (Json.blank_iff.2 blank) (Json.blank_iff.2 blank')

theorem decodeBody_stray (exact : Json.Exact shape.read) (stray : Json.HasStrayFeed body)
    {b : UInt8} (mem : b ∈ body) (solid : b ∉ Json.bodyBlanks) (value : α) :
    decodeBody shape body ≠ .ok value := by
  rw [decodeBody_of_solid mem solid, ne_eq, Result.mapError_eq_ok]
  exact fun decoded => exact.no_stray decoded stray

end Client

/-- A body is read by the value in it: JSON's blanks around it change nothing, a body of blanks
alone is read or refused as `null` is, and with anything else in it a form feed outside of strings
is refused. -/
theorem BodyType.read_by_value :
    (∀ (type : BodyType) (front body back : Bytes) value, (∀ b ∈ front, b ∈ Json.jsonBlanks) →
        (∀ b ∈ back, b ∈ Json.jsonBlanks) →
        (Client.decodeBody type.shape (front ++ (body ++ back)) = .ok value ↔
          Client.decodeBody type.shape body = .ok value)) ∧
      (∀ (type : BodyType) (body : Bytes), (∀ b ∈ body, b ∈ Json.bodyBlanks) →
        (Client.decodeBody type.shape body).mapError ClientError.problem? =
          (Client.decodeBody type.shape Json.nullText).mapError ClientError.problem?) ∧
      ∀ (type : BodyType) (body : Bytes), Json.HasStrayFeed body →
        (∃ b ∈ body, b ∉ Json.bodyBlanks) →
        ∀ value, Client.decodeBody type.shape body ≠ .ok value := by
  refine ⟨fun type front body back value blank blank' => ?_, fun type body blank => ?_,
    fun type body stray solid value => ?_⟩
  · exact Client.decodeBody_spaced type.exact blank blank'
  · exact Client.decodeBody_null type.takesNull blank
  · obtain ⟨b, mem, solid⟩ := solid
    exact Client.decodeBody_stray type.exact stray mem solid value

/-- A list of no order in blanks, a body of a form feed and a blank where a pet is wanted, and a
number behind a form feed. -/
theorem BodyType.read_by_value_mixed :
    Client.decodeBody (list (optional order)).shape
        ([0x20, 0x0A] ++ (Utf8.bytesOf "[null]" ++ [0x09])) = .ok [none] ∧
      (Client.decodeBody pet.shape [0x0C, 0x20]).mapError ClientError.problem? =
        .error (some (.wrongType .null "struct Pet")) ∧
      ∀ number, Client.decodeBody value.shape [0x0C, 0x37] ≠ .ok number := by
  refine ⟨?_, ?_, ?_⟩
  · exact (read_by_value.1 (.list (.optional .order)) [0x20, 0x0A] (Utf8.bytesOf "[null]") [0x09]
      [none] (by simp [Json.jsonBlanks]) (by simp [Json.jsonBlanks])).2 rfl
  · have blank := read_by_value.2.1 .pet [0x0C, 0x20] (by simp [Json.bodyBlanks, Json.jsonBlanks])
    exact blank.trans rfl
  · exact read_by_value.2.2 .value [0x0C, 0x37] ⟨[], [0x37], rfl, rfl⟩ ⟨0x37, by decide, by decide⟩

end PetClient
