import PetClient.Proofs.Yaml.Scalar

/-!
Flow mappings of one line, token by token.  Nothing inside of brackets has to be a key, so a place
where a key may have started can always be given up; it is too far away only once a name is longer
than a key may be.
-/

namespace PetClient.Yaml

namespace Scanner

/-! ### Keys that may be given up -/

/-- Nothing that has started has to be a key. -/
def Free (start : Option KeyStart) : Prop :=
  ∀ k ∈ start, k.required = false

theorem free_none : Free none :=
  fun _ mem => nomatch mem

theorem exists_refresh (c : Cursor) {start : Option KeyStart} (free : Free start) :
    ∃ kept, refresh c start = some kept ∧ Free kept ∧
      ∀ k, start = some k → isStale c k = false → kept = some k := by
  cases start with
  | none => exact ⟨none, rfl, free_none, fun _ same => nomatch same⟩
  | some k =>
    cases stale : isStale c k with
    | false => exact ⟨some k, by simp [refresh, stale], free, fun _ same _ => same⟩
    | true =>
      have optional := free k rfl
      refine ⟨none, by simp [refresh, stale, optional], free_none, fun other same fresh => ?_⟩
      rw [Option.some.inj same, fresh] at stale
      cases stale

theorem exists_refresh_all (c : Cursor) {starts : List (Option KeyStart)}
    (free : ∀ start ∈ starts, Free start) :
    ∃ kept, starts.mapM (refresh c) = some kept ∧ kept.length = starts.length ∧
      ∀ start ∈ kept, Free start := by
  induction starts with
  | nil => exact ⟨[], rfl, rfl, List.forall_mem_nil _⟩
  | cons start starts ih =>
    obtain ⟨free_first, free_others⟩ := List.forall_mem_cons.1 free
    obtain ⟨first, refreshed, free_first', -⟩ := exists_refresh c free_first
    obtain ⟨others, refreshed', length, free_others'⟩ := ih free_others
    refine ⟨first :: others, ?_, congrArg (· + 1) length,
      List.forall_mem_cons.2 ⟨free_first', free_others'⟩⟩
    exact Text.mapM_cons_eq_some.2 ⟨first, others, refreshed, refreshed', rfl⟩

theorem dropKey_of_free {s : Scanner} (free : Free s.keyStart) :
    s.dropKey = some { s with keyStart := none } := by
  obtain ⟨cursor, indent, outer, keyAllowed, keyStart, outerKeys, tokens⟩ := s
  cases keyStart with
  | none => rfl
  | some k => simp [dropKey, free k rfl]

/-! ### Positions -/

/-- A position inside of brackets, on the first line: how many brackets are open, the tokens so far,
whether a key may start, and the text that is left. -/
structure Position where
  depth : Nat
  tokens : List Token
  keyAllowed : Bool
  rest : List Char

/-- A scanner at a position; no block is open, and nothing has to be a key. -/
structure At (s : Scanner) (p : Position) : Prop where
  depth : s.outerKeys.length = p.depth
  tokens : s.tokens.toList = p.tokens
  keyAllowed : s.keyAllowed = p.keyAllowed
  rest : s.cursor.rest = p.rest
  column : 0 < s.cursor.column
  free : Free s.keyStart
  free_outer : ∀ start ∈ s.outerKeys, Free start
  indent : s.indent = -1
  outer : s.outer = []

/-- A scanner comes to another one with at most one step for each character. -/
def Leads (s s' : Scanner) : Prop :=
  ∃ steps, steps + s'.cursor.rest.length ≤ s.cursor.rest.length ∧
    ∀ fuel, run (fuel + steps) s = run fuel s'

def Passes (p q : Position) : Prop :=
  ∀ s, At s p → ∃ s', Leads s s' ∧ At s' q

theorem Passes.refl (p : Position) : Passes p p :=
  fun s at_p => ⟨s, ⟨0, by omega, fun _ => rfl⟩, at_p⟩

theorem Passes.trans {p q r : Position} (first : Passes p q) (second : Passes q r) :
    Passes p r := by
  intro s at_p
  obtain ⟨s', ⟨steps, spent, runs⟩, at_q⟩ := first s at_p
  obtain ⟨s'', ⟨steps', spent', runs'⟩, at_r⟩ := second s' at_q
  refine ⟨s'', ⟨steps' + steps, by omega, fun fuel => ?_⟩, at_r⟩
  rw [← Nat.add_assoc, runs, runs']

/-! ### Tokens -/

def StartsToken (ch : Char) : Prop :=
  ch ≠ ' ' ∧ ch ≠ '\t' ∧ ch ≠ '#' ∧ isBreak ch = false

instance (ch : Char) : Decidable (StartsToken ch) :=
  inferInstanceAs (Decidable (_ ∧ _ ∧ _ ∧ _))

theorem skipWhile_eq_self {c : Cursor} {ch : Char} {rest : List Char} (left : c.rest = ch :: rest)
    {p : Char → Bool} (stops : p ch = false) : c.skipWhile p = c := by
  unfold Cursor.skipWhile Cursor.span
  rw [left, List.takeWhile_cons, stops]
  rfl

variable {s : Scanner} {depth : Nat} {tokens : List Token} {keyAllowed : Bool} {ch : Char}
  {rest : List Char}

theorem skipToToken_at (at_p : At s ⟨depth, tokens, keyAllowed, ch :: rest⟩)
    (starts : StartsToken ch) : skipToToken s.cursor.rest s = s := by
  obtain ⟨notSpace, notTab, notHash, notBreak⟩ := starts
  have left : s.cursor.rest = ch :: rest := at_p.rest
  have inside : ¬s.cursor.column = 0 := Nat.ne_of_gt at_p.column
  have stays (tabs : Bool) :
      s.cursor.skipWhile (fun ch => ch = ' ' || (tabs && ch = '\t')) = s.cursor :=
    skipWhile_eq_self left (by simp [notSpace, notTab])
  have noComment : s.cursor.rest.head? ≠ some '#' := by simp [left, notHash]
  rw [left, skipToToken]
  simp only [inside, decide_false, Bool.false_and, Bool.false_eq_true, if_false, stays, noComment]
  rw [left]
  simp only [notBreak, Bool.false_eq_true, if_false]

/-- What is not a token is passed and what is too far away given up; then comes the token. -/
theorem exists_ready (at_p : At s ⟨depth + 1, tokens, keyAllowed, ch :: rest⟩)
    (starts : StartsToken ch) :
    ∃ s', At s' ⟨depth + 1, tokens, keyAllowed, ch :: rest⟩ ∧ s'.cursor = s.cursor ∧
      (∀ k, s.keyStart = some k → isStale s.cursor k = false → s'.keyStart = some k) ∧
      ∀ fuel, run (fuel + 1) s = (s'.fetchFrom ch rest).bind (run fuel) := by
  obtain ⟨kept, refreshed, free, fresh⟩ := exists_refresh s.cursor at_p.free
  obtain ⟨outer, refreshed', length, free'⟩ := exists_refresh_all s.cursor at_p.free_outer
  have dropped : s.dropStaleKeys = some { s with keyStart := kept, outerKeys := outer } := by
    unfold dropStaleKeys
    rw [refreshed, refreshed']
    rfl
  have inFlow : inFlow { s with keyStart := kept, outerKeys := outer } = true := by
    have filled := length.trans at_p.depth
    cases outer with
    | nil => cases filled
    | cons start outer => rfl
  refine ⟨{ s with keyStart := kept, outerKeys := outer }, { at_p with
    depth := length.trans at_p.depth, free, free_outer := free' }, rfl, fresh, fun fuel => ?_⟩
  have left : s.cursor.rest = ch :: rest := at_p.rest
  rw [run, skipToToken_at at_p starts, dropped]
  simp only [Option.bind_eq_bind, Option.bind_some, unroll, inFlow, if_true]
  rw [left]

/-- One step takes a scanner to the position behind a token. -/
theorem passes_of_fetch {p : Position} {front : List Char} (left : front = ch :: rest)
    (starts : StartsToken ch) (shorter : p.rest.length ≤ rest.length)
    (fetches : ∀ s, At s ⟨depth + 1, tokens, keyAllowed, front⟩ →
      ∃ s', s.fetchFrom ch rest = some s' ∧ At s' p) :
    Passes ⟨depth + 1, tokens, keyAllowed, front⟩ p := by
  intro s at_p
  subst left
  obtain ⟨ready, at_ready, -, -, runs⟩ := exists_ready at_p starts
  obtain ⟨s', fetched, at_s'⟩ := fetches ready at_ready
  refine ⟨s', ⟨1, ?_, fun fuel => ?_⟩, at_s'⟩
  · rw [at_p.rest, at_s'.rest, List.length_cons]
    omega
  · rw [runs, fetched]
    rfl

/-! ### Single signs -/

theorem At.inFlow (at_p : At s ⟨depth + 1, tokens, keyAllowed, rest⟩) : s.inFlow = true := by
  unfold Scanner.inFlow
  cases outer : s.outerKeys with
  | nil =>
    have filled := at_p.depth
    rw [outer] at filled
    cases filled
  | cons start starts => rfl

theorem At.take (at_p : At s ⟨depth, tokens, keyAllowed, ch :: rest⟩) (token : Token)
    (allowed : Bool) {keyStart : Option KeyStart} (free : Free keyStart) :
    At { s.take 1 token with keyAllowed := allowed, keyStart }
      ⟨depth, tokens ++ [token], allowed, rest⟩ where
  depth := at_p.depth
  tokens := by
    change (s.tokens.push token).toList = _
    rw [Array.toList_push, at_p.tokens]
  keyAllowed := rfl
  rest := by
    change s.cursor.rest.drop 1 = _
    rw [at_p.rest]
    rfl
  column := Nat.lt_add_right 1 at_p.column
  free := free
  free_outer := at_p.free_outer
  indent := at_p.indent
  outer := at_p.outer

theorem passes_comma (depth : Nat) (tokens : List Token) (keyAllowed : Bool) (rest : List Char) :
    Passes ⟨depth + 1, tokens, keyAllowed, ',' :: rest⟩
      ⟨depth + 1, tokens ++ [.flowEntry], true, rest⟩ := by
  refine passes_of_fetch rfl (by decide) (Nat.le_refl _) fun s at_p =>
    ⟨_, ?_, at_p.take .flowEntry true free_none⟩
  have fetched : s.fetchFrom ',' rest = s.fetchFlowEntry := by
    simp [fetchFrom, Nat.ne_of_gt at_p.column, Cursor.atMarker_of_column at_p.column]
  rw [fetched, fetchFlowEntry, dropKey_of_free at_p.free]
  rfl

theorem saveKey_of_not_allowed (at_p : At s ⟨depth, tokens, false, rest⟩) :
    s.saveKey = some s := by
  unfold saveKey
  rw [at_p.keyAllowed]
  rfl

theorem passes_open (depth : Nat) (tokens : List Token) (rest : List Char) :
    Passes ⟨depth + 1, tokens, false, '{' :: rest⟩
      ⟨depth + 2, tokens ++ [.flowMappingStart], true, rest⟩ := by
  refine passes_of_fetch rfl (by decide) (Nat.le_refl _) fun s at_p => ?_
  have taken := at_p.take .flowMappingStart true free_none
  refine ⟨{ s.take 1 .flowMappingStart with
    outerKeys := s.keyStart :: s.outerKeys, keyStart := none, keyAllowed := true }, ?_, { taken with
    depth := congrArg (· + 1) at_p.depth
    free_outer := List.forall_mem_cons.2 ⟨at_p.free, at_p.free_outer⟩ }⟩
  have fetched : s.fetchFrom '{' rest = s.fetchFlowStart .flowMappingStart := by
    simp [fetchFrom, Nat.ne_of_gt at_p.column, Cursor.atMarker_of_column at_p.column]
  rw [fetched, fetchFlowStart, saveKey_of_not_allowed at_p]
  rfl

theorem passes_close (depth : Nat) (tokens : List Token) (keyAllowed : Bool) (rest : List Char) :
    Passes ⟨depth + 1, tokens, keyAllowed, '}' :: rest⟩
      ⟨depth, tokens ++ [.flowMappingEnd], false, rest⟩ := by
  refine passes_of_fetch rfl (by decide) (Nat.le_refl _) fun s at_p => ?_
  have fetched : s.fetchFrom '}' rest = s.fetchFlowEnd .flowMappingEnd := by
    simp [fetchFrom, Nat.ne_of_gt at_p.column, Cursor.atMarker_of_column at_p.column]
  have filled := at_p.depth
  have free_outer := at_p.free_outer
  cases outer : s.outerKeys with
  | nil =>
    rw [outer] at filled
    cases filled
  | cons start starts =>
    rw [outer] at filled free_outer
    obtain ⟨free, free_outer⟩ := List.forall_mem_cons.1 free_outer
    have taken := at_p.take .flowMappingEnd false free
    refine ⟨{ s.take 1 .flowMappingEnd with
      keyAllowed := false, keyStart := start, outerKeys := starts }, ?_, { taken with
      depth := Nat.succ.inj filled, free_outer }⟩
    rw [fetched, fetchFlowEnd, dropKey_of_free at_p.free]
    simp only [Option.bind_eq_bind, Option.bind_some, take, push, outer]

/-! ### Scalars -/

theorem At.scalar {written : List Char}
    (at_p : At s ⟨depth, tokens, keyAllowed, written ++ rest⟩) (text : List Char)
    (style : ScalarStyle) {keyStart : Option KeyStart} (free : Free keyStart) :
    At { s.push (.scalar text style) with
        cursor := s.cursor.skip written.length, keyAllowed := false, keyStart }
      ⟨depth, tokens ++ [.scalar text style], false, rest⟩ where
  depth := at_p.depth
  tokens := by
    change (s.tokens.push _).toList = _
    rw [Array.toList_push, at_p.tokens]
  keyAllowed := rfl
  rest := Cursor.rest_skip_append at_p.rest
  column := Nat.lt_add_right written.length at_p.column
  free := free
  free_outer := at_p.free_outer
  indent := at_p.indent
  outer := at_p.outer

theorem quotedToken_at {text : List Char} (plain : ∀ ch ∈ text, IsPlain ch)
    (at_p : At s ⟨depth, tokens, keyAllowed, Json.quoted text ++ rest⟩) :
    quotedToken '"' .doubleQuoted s =
      some (.scalar text .doubleQuoted, s.cursor.skip (Json.quoted text).length) := by
  have left : s.cursor.rest = '"' :: (text.flatMap Json.escapeChar ++ '"' :: rest) := by
    rw [at_p.rest, Json.quoted, List.cons_append, List.append_assoc]
    rfl
  have behind : (s.cursor.skip 1).rest = text.flatMap Json.escapeChar ++ '"' :: rest := by
    rw [Cursor.rest_skip, left]
    rfl
  have enough : text.length < s.cursor.rest.length := by
    have least := length_le_escaped plain
    rw [left, List.length_cons, List.length_append]
    omega
  have width : 1 + ((text.flatMap Json.escapeChar).length + 1) = (Json.quoted text).length := by
    rw [Json.quoted, List.length_cons, List.length_append, List.length_singleton]
    omega
  unfold quotedToken
  rw [readQuoted_escaped plain rest behind (Nat.succ_pos _) enough, Cursor.skip_skip, width]
  rfl

theorem fetchFrom_quote (at_p : At s ⟨depth, tokens, keyAllowed, rest⟩) (behind : List Char) :
    s.fetchFrom '"' behind = s.fetchNode (quotedToken '"' .doubleQuoted) := by
  simp [fetchFrom, Nat.ne_of_gt at_p.column, Cursor.atMarker_of_column at_p.column]

theorem quoted_append (text rest : List Char) :
    Json.quoted text ++ rest = '"' :: (text.flatMap Json.escapeChar ++ '"' :: rest) := by
  rw [Json.quoted, List.cons_append, List.append_assoc]
  rfl

theorem passes_text {text : List Char} (plain : ∀ ch ∈ text, IsPlain ch) (depth : Nat)
    (tokens : List Token) (rest : List Char) :
    Passes ⟨depth + 1, tokens, false, Json.quoted text ++ rest⟩
      ⟨depth + 1, tokens ++ [.scalar text .doubleQuoted], false, rest⟩ := by
  refine passes_of_fetch (quoted_append text rest) (by decide) ?_ fun s at_p =>
    ⟨_, ?_, at_p.scalar text .doubleQuoted at_p.free⟩
  · rw [List.length_append]
    exact Nat.le_trans (Nat.le_succ _) (Nat.le_add_left ..)
  · rw [fetchFrom_quote at_p, fetchNode, saveKey_of_not_allowed at_p]
    simp only [Option.bind_eq_bind, Option.bind_some, quotedToken_at plain at_p]
    rfl

theorem fetchFrom_digit (at_p : At s ⟨depth, tokens, keyAllowed, rest⟩) {d : Char}
    (digit : d.isDigit) (behind : List Char) : s.fetchFrom d behind = s.fetchPlain := by
  have other : d ∉ ['%', '[', ']', '{', '}', ',', '-', '?', ':', '*', '&', '!', '|', '>', '\'',
      '"'] := Text.forall_digit (q := fun d => d ∉ _) (by decide) digit
  have plain : (isBlank d || isBreak d || ",[]\x7b\x7d#&*!|>'\"%@`".contains d) = false :=
    Text.forall_digit (q := fun d => (isBlank d || isBreak d ||
      ",[]\x7b\x7d#&*!|>'\"%@`".contains d) = false) (by cbv) digit
  simp only [List.mem_cons, List.not_mem_nil, or_false, not_or] at other
  simp only [fetchFrom, startsPlain, Nat.ne_of_gt at_p.column,
    Cursor.atMarker_of_column at_p.column, other, plain, decide_false, Bool.false_and,
    Bool.false_eq_true, Bool.or_self, Bool.not_false, if_false, if_true]

theorem passes_number (n : Nat) {next : Char} (ends : isFlowSign next) (depth : Nat)
    (tokens : List Token) (rest : List Char) :
    Passes ⟨depth + 1, tokens, false, Nat.toDigits 10 n ++ next :: rest⟩
      ⟨depth + 1, tokens ++ [.scalar (Nat.toDigits 10 n) .plain], false, next :: rest⟩ := by
  have areDigits : ∀ ch ∈ Nat.toDigits 10 n, ch.isDigit := fun _ => Text.isDigit_of_mem_toDigits
  obtain ⟨d, digits, written⟩ : ∃ d digits, Nat.toDigits 10 n = d :: digits := by
    rcases Json.toDigits_cases n with zero | ⟨d, digits, written, -⟩
    · exact ⟨'0', [], zero⟩
    · exact ⟨d, digits, written⟩
  rw [written] at areDigits ⊢
  have digit := areDigits d (List.mem_cons_self ..)
  have starts : StartsToken d := Text.forall_digit (by decide) digit
  refine passes_of_fetch rfl starts ?_ fun s at_p =>
    ⟨_, ?_, at_p.scalar (d :: digits) .plain at_p.free⟩
  · exact (List.suffix_append digits (next :: rest)).length_le
  · have left : s.cursor.rest = d :: digits ++ next :: rest := at_p.rest
    have read := readPlain_digits (List.cons_ne_nil d digits)
      (fun ch mem => isDigit_of_isDigit (areDigits ch mem)) ends rest left at_p.column d
      (digits ++ next :: rest) (s.indent + 1)
    have budget : s.cursor.rest = d :: (digits ++ next :: rest) := left
    rw [fetchFrom_digit at_p digit, fetchPlain, saveKey_of_not_allowed at_p]
    simp only [Option.bind_eq_bind, Option.bind_some, at_p.inFlow]
    rw [← budget] at read
    rw [read]
    rfl

/-! ### Names -/

def startHere (s : Scanner) : KeyStart :=
  ⟨s.tokens.size, s.cursor.index, s.cursor.line, s.cursor.column, false⟩

theorem saveKey_of_allowed (at_p : At s ⟨depth + 1, tokens, true, rest⟩) :
    s.saveKey = some { s with keyStart := some s.startHere } := by
  have allowed : ¬(!s.keyAllowed) = true := by simp [at_p.keyAllowed]
  have inFlow : Scanner.inFlow { s with keyStart := none } = true := at_p.inFlow
  unfold saveKey
  rw [if_neg allowed, dropKey_of_free at_p.free]
  simp only [Option.bind_eq_bind, Option.bind_some, inFlow, Bool.not_true, Bool.false_and]
  rfl

theorem startHere_eq {other : Scanner} (at_p : At s ⟨depth, tokens, keyAllowed, rest⟩)
    (at_other : At other ⟨depth, tokens, keyAllowed, rest⟩) (same : other.cursor = s.cursor) :
    other.startHere = s.startHere := by
  have size : other.tokens.size = s.tokens.size := by
    rw [← Array.length_toList, ← Array.length_toList, at_other.tokens, at_p.tokens]
  unfold startHere
  rw [size, same]

/-- A name where a key may start is taken note of. -/
theorem exists_behind_name {name : List Char} (plain : ∀ ch ∈ name, IsPlain ch)
    (at_p : At s ⟨depth + 1, tokens, true, Json.quoted name ++ rest⟩) :
    ∃ s', At s' ⟨depth + 1, tokens ++ [.scalar name .doubleQuoted], false, rest⟩ ∧
      s'.keyStart = some s.startHere ∧
      s'.cursor = s.cursor.skip (Json.quoted name).length ∧
      ∀ fuel, run (fuel + 1) s = run fuel s' := by
  have at_front := at_p
  rw [quoted_append] at at_front
  obtain ⟨ready, at_ready, same, -, runs⟩ := exists_ready at_front (by decide)
  rw [← quoted_append] at at_ready
  have free : Free (some s.startHere) := fun k mem => Option.some.inj mem ▸ rfl
  refine ⟨_, at_ready.scalar name .doubleQuoted free, rfl, ?_, fun fuel => ?_⟩
  · exact congrArg (Cursor.skip · (Json.quoted name).length) same
  · have read := quotedToken_at plain at_ready
    rw [runs, fetchFrom_quote at_ready, fetchNode, saveKey_of_allowed at_ready,
      startHere_eq at_p at_ready same]
    have read' : quotedToken '"' .doubleQuoted { ready with keyStart := some s.startHere } =
        some (.scalar name .doubleQuoted, ready.cursor.skip (Json.quoted name).length) := read
    simp only [Option.bind_eq_bind, Option.bind_some, read']
    rfl

theorem insert_at {before behind : List Token} (parts : s.tokens.toList = before ++ behind)
    (token : Token) : (s.insert before.length token).tokens.toList = before ++ token :: behind := by
  have size : s.tokens.size = before.length + behind.length := by
    rw [← Array.length_toList, parts, List.length_append]
  simp [insert, Array.toList_extract, parts, size]

theorem passes_name {name : List Char} (plain : ∀ ch ∈ name, IsPlain ch)
    (short : (Json.quoted name).length ≤ maxKeyLength) (depth : Nat) (tokens : List Token)
    (rest : List Char) :
    Passes ⟨depth + 1, tokens, true, Json.quoted name ++ ':' :: rest⟩
      ⟨depth + 1, tokens ++ [.key, .scalar name .doubleQuoted, .value], false, rest⟩ := by
  intro s at_p
  obtain ⟨middle, at_middle, start, cursor, runs⟩ := exists_behind_name plain at_p
  obtain ⟨ready, at_ready, same, fresh, runs'⟩ := exists_ready at_middle (by decide)
  have inReach : isStale middle.cursor s.startHere = false := by
    simp only [isStale, startHere, cursor, Cursor.line_skip, Cursor.index_skip,
      Bool.or_eq_false_iff, decide_eq_false_iff_not]
    omega
  have start' := fresh _ start inReach
  have position : s.startHere.position = tokens.length := by
    change s.tokens.size = _
    rw [← Array.length_toList, at_p.tokens]
  have fetched : ready.fetchFrom ':' rest = ready.fetchValue := by
    simp [fetchFrom, Nat.ne_of_gt at_ready.column, Cursor.atMarker_of_column at_ready.column,
      at_ready.inFlow]
  have inserted := insert_at at_ready.tokens .key
  have at_key : At (ready.insert tokens.length .key)
      ⟨depth + 1, tokens ++ [.key, .scalar name .doubleQuoted], false, ':' :: rest⟩ :=
    { at_ready with tokens := inserted }
  have at_value := at_key.take .value false free_none
  rw [List.append_assoc] at at_value
  refine ⟨_, ⟨2, ?_, fun fuel => ?_⟩, at_value⟩
  · rw [at_value.rest, at_p.rest, quoted_append]
    simp
    omega
  · have rolled : (ready.insert tokens.length .key).roll s.startHere.column tokens.length
        .blockMappingStart = ready.insert tokens.length .key := by
      unfold roll
      rw [at_key.inFlow]
      rfl
    rw [runs, runs', fetched, fetchValue, start']
    simp only [position, rolled]
    rfl

/-! ### Whole texts -/

theorem atMarker_brace (rest : List Char) {sign : Char} (other : '{' ≠ sign) :
    Cursor.atMarker { rest := '{' :: rest } sign = false := by
  unfold Cursor.atMarker
  split
  · rename_i same
    rw [← (List.cons.inj same).1]
    simp [other]
  · rfl

theorem exists_opened (rest : List Char) :
    ∃ s, At s ⟨1, [.flowMappingStart], true, rest⟩ ∧
      ∀ fuel, run (fuel + 1) { cursor := { rest := '{' :: rest } } = run fuel s := by
  refine ⟨{
    cursor := ⟨rest, 1, 0, 1⟩
    outerKeys := [some ⟨0, 0, 0, 0, false⟩]
    tokens := #[.flowMappingStart] },
    ⟨rfl, rfl, rfl, rfl, Nat.one_pos, free_none, ?_, rfl, rfl⟩, fun fuel => ?_⟩
  · exact List.forall_mem_singleton.2 fun k mem => Option.some.inj mem ▸ rfl
  · have fetched : fetchFrom { cursor := { rest := '{' :: rest } } '{' rest =
        fetchFlowStart { cursor := { rest := '{' :: rest } } .flowMappingStart := by
      simp [fetchFrom, atMarker_brace]
    change (fetchFrom { cursor := { rest := '{' :: rest } } '{' rest).bind (run fuel) = _
    rw [fetched]
    rfl

theorem exists_finished (at_end : At s ⟨0, tokens, keyAllowed, []⟩) (fuel : Nat) :
    ∃ s', run (fuel + 1) s = some s' ∧ s'.tokens.toList = tokens ++ [.streamEnd] := by
  have left : s.cursor.rest = [] := at_end.rest
  have closed : s.outerKeys = [] := List.eq_nil_of_length_eq_zero at_end.depth
  obtain ⟨kept, refreshed, free, -⟩ := exists_refresh s.cursor at_end.free
  have dropped : s.dropStaleKeys = some { s with keyStart := kept } := by
    unfold dropStaleKeys
    rw [refreshed, closed]
    rfl
  have stays (column : Int) (inside : -1 ≤ column) :
      unroll { s with keyStart := kept } column = { s with keyStart := kept } := by
    have shallow : ¬column < -1 := by omega
    unfold unroll Scanner.inFlow
    simp [closed, at_end.indent, at_end.outer, shallow]
  refine ⟨({ s with keyStart := none } : Scanner).push .streamEnd, ?_, ?_⟩
  · have start : skipToToken s.cursor.rest s = s := by rw [left, skipToToken]
    rw [run, start, dropped]
    simp only [Option.bind_eq_bind, Option.bind_some]
    rw [stays _ (by omega), left]
    simp only [finish]
    rw [stays _ (by omega), dropKey_of_free free]
    rfl
  · change (s.tokens.push _).toList = _
    rw [Array.toList_push, at_end.tokens]

end Scanner

/-- The tokens of a text of one mapping that the scanner passes. -/
theorem tokens?_of_passes {rest : List Char} {tokens : List Token} {keyAllowed : Bool}
    (allowed : ∀ ch ∈ rest, isAllowed ch)
    (passes : Scanner.Passes ⟨1, [.flowMappingStart], true, rest⟩ ⟨0, tokens, keyAllowed, []⟩) :
    tokens? ('{' :: rest) = some (tokens ++ [.streamEnd]) := by
  obtain ⟨first, at_first, opens⟩ := Scanner.exists_opened rest
  obtain ⟨last, ⟨steps, spent, runs⟩, at_last⟩ := passes first at_first
  obtain ⟨s, ends, same⟩ := Scanner.exists_finished at_last (rest.length - steps)
  have enough : steps ≤ rest.length := by
    rw [at_first.rest] at spent
    exact Nat.le_trans (Nat.le_add_right ..) spent
  have fuel : rest.length + 1 = rest.length - steps + 1 + steps := by omega
  have all : ('{' :: rest).all isAllowed = true :=
    List.all_eq_true.2 (List.forall_mem_cons.2 ⟨by decide, allowed⟩)
  have noMark : ¬('{' :: rest).head? = some byteOrderMark := by
    rw [List.head?_cons]
    decide
  unfold tokens?
  rw [all]
  simp only [Bool.not_true, Bool.false_eq_true, if_false, noMark, List.length_cons]
  rw [opens, fuel, runs, ends, Option.map_some, same]

end PetClient.Yaml
