import PetClient.Proofs.Yaml.Flow

/-!
Values as JSON writes them without blanks, as YAML sees them: texts, whole numbers, and mappings of
such values.  Each comes with its tokens and its events.
-/

namespace PetClient.Yaml

/-- A value: its text, the tokens of the text, and the events of the tokens. -/
structure Piece where
  text : List Char
  tokens : List Token
  events : List Event

namespace Piece

def ofText (text : List Char) : Piece where
  text := Json.quoted text
  tokens := [.scalar text .doubleQuoted]
  events := [.scalar {} text .doubleQuoted]

def ofNat (n : Nat) : Piece where
  text := Nat.toDigits 10 n
  tokens := [.scalar (Nat.toDigits 10 n) .plain]
  events := [.scalar {} (Nat.toDigits 10 n) .plain]

abbrev Entry := List Char × Piece

def entryText (e : Entry) : List Char :=
  Json.quoted e.1 ++ ':' :: e.2.text

def entryTokens (e : Entry) : List Token :=
  .key :: .scalar e.1 .doubleQuoted :: .value :: e.2.tokens

def entryEvents (e : Entry) : List Event :=
  .scalar {} e.1 .doubleQuoted :: e.2.events

def joined {β : Type} (separator : β) (part : Entry → List β) : List Entry → List β
  | [] => []
  | e :: entries => part e ++ entries.flatMap fun e => separator :: part e

def ofEntries (entries : List Entry) : Piece where
  text := '{' :: (joined ',' entryText entries ++ ['}'])
  tokens := .flowMappingStart :: (joined .flowEntry entryTokens entries ++ [.flowMappingEnd])
  events := .mappingStart {} :: (entries.flatMap entryEvents ++ [.mappingEnd])

/-! ### From texts to tokens -/

def Closes (rest : List Char) : Prop :=
  ∃ next more, rest = next :: more ∧ isFlowSign next

def Scans (p : Piece) : Prop :=
  ∀ (depth : Nat) (tokens : List Token) (rest : List Char), Closes rest →
    Scanner.Passes ⟨depth + 1, tokens, false, p.text ++ rest⟩
      ⟨depth + 1, tokens ++ p.tokens, false, rest⟩

theorem scans_ofText {text : List Char} (plain : ∀ ch ∈ text, IsPlain ch) : (ofText text).Scans :=
  fun depth tokens rest _ => Scanner.passes_text plain depth tokens rest

theorem scans_ofNat (n : Nat) : (ofNat n).Scans := by
  rintro depth tokens _ ⟨next, more, rfl, ends⟩
  exact Scanner.passes_number n ends depth tokens more

structure IsKey (name : List Char) : Prop where
  plain : ∀ ch ∈ name, IsPlain ch
  short : (Json.quoted name).length ≤ Scanner.maxKeyLength

theorem passes_entry {e : Entry} (key : IsKey e.1) (scans : e.2.Scans) (depth : Nat)
    (tokens : List Token) {rest : List Char} (closes : Closes rest) :
    Scanner.Passes ⟨depth + 1, tokens, true, entryText e ++ rest⟩
      ⟨depth + 1, tokens ++ entryTokens e, false, rest⟩ := by
  have name := Scanner.passes_name key.plain key.short depth tokens (e.2.text ++ rest)
  have value := scans depth (tokens ++ [.key, .scalar e.1 .doubleQuoted, .value]) rest closes
  rw [List.append_assoc] at value
  rw [entryText, List.append_assoc]
  exact name.trans value

theorem closes_entries (entries : List Entry) (rest : List Char) :
    Closes ((entries.flatMap fun e => ',' :: entryText e) ++ '}' :: rest) := by
  cases entries with
  | nil => exact ⟨'}', rest, rfl, by decide⟩
  | cons e entries => exact ⟨',', _, rfl, by decide⟩

variable {entries : List Entry}

/-- Entries behind another one, up to the closing bracket. -/
theorem passes_entries (keys : ∀ e ∈ entries, IsKey e.1) (scans : ∀ e ∈ entries, e.2.Scans)
    (depth : Nat) (tokens : List Token) (rest : List Char) :
    Scanner.Passes
      ⟨depth + 1, tokens, false, (entries.flatMap fun e => ',' :: entryText e) ++ '}' :: rest⟩
      ⟨depth + 1, tokens ++ (entries.flatMap fun e => .flowEntry :: entryTokens e), false,
        '}' :: rest⟩ := by
  induction entries generalizing tokens with
  | nil =>
    rw [List.flatMap_nil, List.flatMap_nil, List.append_nil]
    exact .refl _
  | cons e entries ih =>
    obtain ⟨key, keys⟩ := List.forall_mem_cons.1 keys
    obtain ⟨scans_e, scans⟩ := List.forall_mem_cons.1 scans
    have comma := Scanner.passes_comma depth tokens false
      (entryText e ++ ((entries.flatMap fun e => ',' :: entryText e) ++ '}' :: rest))
    have entry := passes_entry key scans_e depth (tokens ++ [.flowEntry])
      (closes_entries entries rest)
    have others := ih keys scans (tokens ++ [.flowEntry] ++ entryTokens e)
    simp only [List.flatMap_cons, List.cons_append, List.append_assoc] at comma entry others ⊢
    exact comma.trans (entry.trans others)

theorem passes_joined (keys : ∀ e ∈ entries, IsKey e.1) (scans : ∀ e ∈ entries, e.2.Scans)
    (depth : Nat) (tokens : List Token) (rest : List Char) :
    Scanner.Passes ⟨depth + 1, tokens, true, joined ',' entryText entries ++ '}' :: rest⟩
      ⟨depth, tokens ++ (joined .flowEntry entryTokens entries ++ [.flowMappingEnd]), false,
        rest⟩ := by
  cases entries with
  | nil => exact Scanner.passes_close depth tokens true rest
  | cons e entries =>
    obtain ⟨key, keys⟩ := List.forall_mem_cons.1 keys
    obtain ⟨scans_e, scans⟩ := List.forall_mem_cons.1 scans
    have entry := passes_entry key scans_e depth tokens (closes_entries entries rest)
    have others := passes_entries keys scans depth (tokens ++ entryTokens e) rest
    have close := Scanner.passes_close depth (tokens ++ joined .flowEntry entryTokens (e :: entries))
      false rest
    simp only [joined, List.append_assoc] at entry others close ⊢
    exact entry.trans (others.trans close)

theorem scans_ofEntries (keys : ∀ e ∈ entries, IsKey e.1) (scans : ∀ e ∈ entries, e.2.Scans) :
    (ofEntries entries).Scans := by
  intro depth tokens rest _
  have start := Scanner.passes_open depth tokens (joined ',' entryText entries ++ '}' :: rest)
  have inner := passes_joined keys scans (depth + 1) (tokens ++ [.flowMappingStart]) rest
  simp only [ofEntries, List.cons_append, List.append_assoc, List.nil_append] at start inner ⊢
  exact start.trans inner

theorem tokens?_ofEntries (keys : ∀ e ∈ entries, IsKey e.1) (scans : ∀ e ∈ entries, e.2.Scans)
    (allowed : ∀ ch ∈ (ofEntries entries).text, isAllowed ch) :
    tokens? (ofEntries entries).text = some ((ofEntries entries).tokens ++ [.streamEnd]) := by
  have passes := passes_joined keys scans 0 [.flowMappingStart] []
  exact tokens?_of_passes (List.forall_mem_cons.1 allowed).2 passes

end Piece

/-! ### From tokens to events -/

/-- A parser comes to another one and makes some events on the way. -/
def Parser.Makes (p : Parser) (steps : Nat) (events : List Event) (q : Parser) : Prop :=
  ∀ fuel before, p.run (fuel + steps) before = q.run fuel (before ++ events)

namespace Parser

variable {p q r : Parser}

theorem Makes.refl (p : Parser) : p.Makes 0 [] p := by
  intro fuel before
  rw [Nat.add_zero, Array.appendList_nil]

theorem Makes.trans {steps steps' : Nat} {events events' : List Event}
    (first : p.Makes steps events q) (second : q.Makes steps' events' r) :
    p.Makes (steps' + steps) (events ++ events') r := by
  intro fuel before
  have all : before ++ events ++ events' = before ++ (events ++ events') :=
    Array.ext' (by simp)
  rw [← Nat.add_assoc, first, second, all]

theorem makes_of_emit {event : Event} (goesOn : p.state ≠ .documentEnd)
    (step : p.step = emit event q) : p.Makes 1 [event] q := by
  intro fuel before
  rw [run, if_neg goesOn, step]
  simp [emit]

theorem makes_of_proceed (goesOn : p.state ≠ .documentEnd) (step : p.step = proceed q) :
    p.Makes 1 [] q := by
  intro fuel before
  rw [run, if_neg goesOn, step]
  simp [proceed]

end Parser

namespace Piece

open Yaml.Parser (Makes makes_of_emit makes_of_proceed)

variable {rest : List Token} {later : List State} {handles : TagHandles}

abbrev before (tokens : List Token) (inBlock : Bool) (later : List State)
    (handles : TagHandles) : Parser :=
  ⟨tokens, .node inBlock false, later, handles⟩

abbrev behind (rest : List Token) (later : List State) (handles : TagHandles) : Parser :=
  Parser.complete ⟨[], .documentEnd, later, handles⟩ rest

/-- The tokens of a value give its events, with at most one step for each token. -/
structure Parses (p : Piece) : Prop where
  begins : ∃ token rest, p.tokens = token :: rest ∧ token ≠ .flowEntry ∧ token ≠ .flowMappingEnd
  makes : ∀ (rest : List Token) (inBlock : Bool) (later : List State) (handles : TagHandles),
    ∃ steps ≤ p.tokens.length,
      Makes (before (p.tokens ++ rest) inBlock later handles) steps p.events
        (behind rest later handles)

theorem makes_scalar (text : List Char) (style : ScalarStyle) (inBlock : Bool)
    (rest : List Token) (later : List State) (handles : TagHandles) :
    Makes (before (.scalar text style :: rest) inBlock later handles) 1 [.scalar {} text style]
      (behind rest later handles) :=
  makes_of_emit nofun rfl

theorem parses_ofText (text : List Char) : (ofText text).Parses where
  begins := ⟨_, _, rfl, nofun, nofun⟩
  makes := fun rest inBlock later handles =>
    ⟨1, Nat.le_refl 1, makes_scalar text .doubleQuoted inBlock rest later handles⟩

theorem parses_ofNat (n : Nat) : (ofNat n).Parses where
  begins := ⟨_, _, rfl, nofun, nofun⟩
  makes := fun rest inBlock later handles =>
    ⟨1, Nat.le_refl 1, makes_scalar _ .plain inBlock rest later handles⟩

abbrev inMapping (tokens : List Token) (first : Bool) (later : List State)
    (handles : TagHandles) : Parser :=
  ⟨tokens, .flowKey first, later, handles⟩

theorem makes_entry {e : Entry} (parses : e.2.Parses) (first : Bool) (rest : List Token)
    (later : List State) (handles : TagHandles) :
    ∃ steps ≤ (entryTokens e).length,
      Makes (inMapping ((if first then [] else [.flowEntry]) ++ (entryTokens e ++ rest)) first later
        handles) steps (entryEvents e) (inMapping rest false later handles) := by
  obtain ⟨token, more, begins, notEntry, notEnd⟩ := parses.begins
  obtain ⟨steps, few, makes⟩ := parses.makes rest false (.flowKey false :: later) handles
  have key : Makes (inMapping ((if first then [] else [.flowEntry]) ++ (entryTokens e ++ rest))
      first later handles) 1 []
      (before (.scalar e.1 .doubleQuoted :: .value :: e.2.tokens ++ rest) false
        (.flowValue :: later) handles) := by
    cases first with
    | true => exact makes_of_proceed nofun rfl
    | false => exact makes_of_proceed nofun rfl
  have name := makes_scalar e.1 .doubleQuoted false (.value :: e.2.tokens ++ rest)
    (.flowValue :: later) handles
  have value : Makes ⟨.value :: e.2.tokens ++ rest, .flowValue, later, handles⟩ 1 []
      (before (e.2.tokens ++ rest) false (.flowKey false :: later) handles) := by
    refine makes_of_proceed nofun ?_
    rw [begins]
    simp [Parser.step, Parser.nodeOr, Parser.enter, notEntry, notEnd]
  refine ⟨_, ?_, key.trans (name.trans (value.trans makes))⟩
  simp only [entryTokens, List.length_cons]
  omega

variable {entries : List Entry}

/-- Entries behind another one, up to the closing bracket. -/
theorem makes_entries (parses : ∀ e ∈ entries, e.2.Parses) (rest : List Token)
    (later : List State) (handles : TagHandles) :
    ∃ steps ≤ (entries.flatMap fun e => Token.flowEntry :: entryTokens e).length,
      Makes (inMapping ((entries.flatMap fun e => .flowEntry :: entryTokens e) ++ rest) false later
        handles) steps (entries.flatMap entryEvents) (inMapping rest false later handles) := by
  induction entries with
  | nil => exact ⟨0, Nat.le_refl 0, .refl _⟩
  | cons e entries ih =>
    obtain ⟨parses_e, parses⟩ := List.forall_mem_cons.1 parses
    obtain ⟨steps, few, entry⟩ := makes_entry parses_e false
      ((entries.flatMap fun e => .flowEntry :: entryTokens e) ++ rest) later handles
    obtain ⟨steps', few', others⟩ := ih parses
    refine ⟨steps' + steps, ?_, ?_⟩
    · rw [List.flatMap_cons, List.length_append, List.length_cons]
      omega
    · rw [List.flatMap_cons, List.flatMap_cons, List.append_assoc]
      exact entry.trans others

theorem makes_joined (parses : ∀ e ∈ entries, e.2.Parses) (rest : List Token)
    (later : List State) (handles : TagHandles) :
    ∃ steps ≤ (joined Token.flowEntry entryTokens entries).length, ∃ first,
      Makes (inMapping (joined .flowEntry entryTokens entries ++ rest) true later handles) steps
        (entries.flatMap entryEvents) (inMapping rest first later handles) := by
  cases entries with
  | nil => exact ⟨0, Nat.le_refl 0, true, .refl _⟩
  | cons e entries =>
    obtain ⟨parses_e, parses⟩ := List.forall_mem_cons.1 parses
    obtain ⟨steps, few, entry⟩ := makes_entry parses_e true
      ((entries.flatMap fun e => .flowEntry :: entryTokens e) ++ rest) later handles
    obtain ⟨steps', few', others⟩ := makes_entries parses rest later handles
    refine ⟨steps' + steps, ?_, false, ?_⟩
    · rw [joined, List.length_append]
      omega
    · rw [joined, List.flatMap_cons, List.append_assoc]
      exact entry.trans others

theorem parses_ofEntries (parses : ∀ e ∈ entries, e.2.Parses) : (ofEntries entries).Parses where
  begins := ⟨_, _, rfl, nofun, nofun⟩
  makes := by
    intro rest inBlock later handles
    obtain ⟨steps, few, first, inner⟩ := makes_joined parses (.flowMappingEnd :: rest) later handles
    have start : Makes (before (.flowMappingStart :: (joined .flowEntry entryTokens entries ++
        .flowMappingEnd :: rest)) inBlock later handles) 1 [.mappingStart {}]
        (inMapping (joined .flowEntry entryTokens entries ++ .flowMappingEnd :: rest) true later
          handles) := makes_of_emit nofun rfl
    have close : Makes (inMapping (.flowMappingEnd :: rest) first later handles) 1 [.mappingEnd]
        (behind rest later handles) := makes_of_emit nofun rfl
    refine ⟨1 + steps + 1, ?_, ?_⟩
    · simp only [ofEntries, List.length_cons, List.length_append, List.length_nil]
      omega
    · have whole := start.trans (inner.trans close)
      simp only [ofEntries, List.cons_append, List.append_assoc, List.nil_append] at whole ⊢
      exact whole

theorem events?_ofEntries (keys : ∀ e ∈ entries, IsKey e.1) (scans : ∀ e ∈ entries, e.2.Scans)
    (allowed : ∀ ch ∈ (ofEntries entries).text, isAllowed ch)
    (parses : ∀ e ∈ entries, e.2.Parses) :
    events? (ofEntries entries).text = some (ofEntries entries).events := by
  obtain ⟨more, starts⟩ : ∃ more : List Token,
      (ofEntries entries).tokens ++ [.streamEnd] = .flowMappingStart :: more := ⟨_, rfl⟩
  obtain ⟨steps, few, makes⟩ := (parses_ofEntries parses).makes [.streamEnd] true [] defaultHandles
  have parsed : Parser.run (8 * (Token.flowMappingStart :: more).length + 8)
      ⟨.flowMappingStart :: more, .node true false, [], defaultHandles⟩ #[] =
        some ((ofEntries entries).events, [.streamEnd]) := by
    have fuel : 8 * (Token.flowMappingStart :: more).length + 8 =
        8 * (Token.flowMappingStart :: more).length + 7 - steps + 1 + steps := by
      rw [← starts, List.length_append]
      omega
    have ends := makes (8 * (Token.flowMappingStart :: more).length + 7 - steps + 1) #[]
    rw [starts, ← fuel] at ends
    rw [ends, Parser.run]
    simp [Parser.complete]
  have notEmpty : Token.flowMappingStart :: more ≠ [.streamEnd] := fun same =>
    nomatch (List.cons.inj same).1
  unfold events?
  rw [tokens?_ofEntries keys scans allowed, starts]
  simp only [Option.bind_eq_bind, Option.bind_some, notEmpty, if_false, readDirectives,
    List.isEmpty_nil, Bool.not_true, Bool.or_self, Bool.false_eq_true, List.nil_append, parsed]
  rfl

end Piece

end PetClient.Yaml
