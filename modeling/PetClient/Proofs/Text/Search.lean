import PetClient.Proofs.Text.Basic

/-!
Looking for the first place where a mark stands in a text, and texts without blank lines.
-/

namespace PetClient.Text

def splitAtFirst? (mark : List Char) : List Char → Option (List Char × List Char)
  | [] => if mark.isEmpty then some ([], []) else none
  | c :: rest =>
    if mark.isPrefixOf (c :: rest) then some ([], (c :: rest).drop mark.length)
    else (splitAtFirst? mark rest).map fun (front, behind) => (c :: front, behind)

theorem splitAtFirst?_mark {mark : List Char} (nonempty : mark ≠ []) (rest : List Char) :
    splitAtFirst? mark (mark ++ rest) = some ([], rest) := by
  cases whole : mark ++ rest with
  | nil => exact absurd (List.append_eq_nil_iff.1 whole).1 nonempty
  | cons c others =>
    have here : mark.isPrefixOf (c :: others) = true :=
      List.isPrefixOf_iff_prefix.2 (whole ▸ List.prefix_append mark rest)
    rw [splitAtFirst?, if_pos here, ← whole, List.drop_left]

/-- A mark is found where it stands if it does not start earlier. -/
theorem splitAtFirst?_append {mark front rest : List Char} (nonempty : mark ≠ [])
    (absent : ∀ before behind, front = before ++ behind → behind ≠ [] →
      ¬mark <+: behind ++ (mark ++ rest)) :
    splitAtFirst? mark (front ++ (mark ++ rest)) = some (front, rest) := by
  -- The mark may start in front and end in the mark behind it, so each place in front counts.
  induction front with
  | nil => exact splitAtFirst?_mark nonempty rest
  | cons c front ih =>
    have later := ih fun before behind parts =>
      absent (c :: before) behind (congrArg (c :: ·) parts)
    have not_here : ¬mark.isPrefixOf (c :: (front ++ (mark ++ rest))) = true := by
      rw [List.isPrefixOf_iff_prefix]
      exact absent [] (c :: front) rfl (List.cons_ne_nil c front)
    rw [List.cons_append, splitAtFirst?, if_neg not_here, later]
    rfl

/-! ### Blank lines -/

/-- Whether something stands behind each line end that is no line end. -/
def LinesFilled (text : List Char) : Prop :=
  ∀ front rest, text = front ++ '\n' :: rest → ∃ c others, rest = c :: others ∧ c ≠ '\n'

theorem LinesFilled.of_not_mem {text : List Char} (free : '\n' ∉ text) : LinesFilled text := by
  intro front rest parts
  exact absurd (parts ▸ List.mem_append_right _ (List.mem_cons_self ..)) free

theorem LinesFilled.append {first second : List Char} (filled : LinesFilled first)
    (filled' : LinesFilled second) : LinesFilled (first ++ second) := by
  intro front rest parts
  rcases List.append_eq_append_iff.1 parts with ⟨between, -, whole⟩ | ⟨between, whole, behind⟩
  · exact filled' between rest whole
  · cases between with
    | nil => exact filled' [] rest behind.symm
    | cons c between =>
      obtain ⟨rfl, later⟩ := List.cons.inj behind
      obtain ⟨d, others, starts, other⟩ := filled front between whole
      refine ⟨d, others ++ second, ?_, other⟩
      rw [later, starts]
      rfl

theorem LinesFilled.lineEnd {c : Char} {text : List Char} (other : c ≠ '\n')
    (filled : LinesFilled (c :: text)) : LinesFilled ('\n' :: c :: text) := by
  intro front rest parts
  cases front with
  | nil => exact ⟨c, text, (List.cons.inj parts).2.symm, other⟩
  | cons d front => exact filled front rest (List.cons.inj parts).2

theorem LinesFilled.intercalate {parts : List (List Char)}
    (filled : ∀ part ∈ parts, LinesFilled part) :
    LinesFilled (List.intercalate [','] parts) := by
  cases parts with
  | nil => exact .of_not_mem List.not_mem_nil
  | cons first others =>
    rw [intercalate_cons]
    refine (filled first (List.mem_cons_self ..)).append ?_
    replace filled : ∀ part ∈ others, LinesFilled part :=
      fun part mem => filled part (List.mem_cons_of_mem _ mem)
    induction others with
    | nil => exact .of_not_mem List.not_mem_nil
    | cons next rest ih =>
      have comma : LinesFilled [','] := .of_not_mem (by decide)
      have here := filled next (List.mem_cons_self ..)
      have later := ih fun part mem => filled part (List.mem_cons_of_mem _ mem)
      exact (comma.append here).append later

/-- The first blank line of a text is behind a part without any. -/
theorem LinesFilled.splitAtFirst? {block : List Char} (filled : LinesFilled block)
    (rest : List Char) :
    splitAtFirst? ['\n', '\n'] (block ++ (['\n', '\n'] ++ rest)) = some (block, rest) := by
  refine splitAtFirst?_append (List.cons_ne_nil _ _) fun before behind parts nonempty found => ?_
  cases behind with
  | nil => exact nonempty rfl
  | cons c behind =>
    obtain ⟨same, found⟩ := List.cons_prefix_cons.1 found
    obtain ⟨d, others, starts, other⟩ := filled before behind (same ▸ parts)
    rw [starts] at found
    exact other (List.cons_prefix_cons.1 found).1.symm

end PetClient.Text
