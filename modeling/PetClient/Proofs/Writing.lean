import PetClient.Proofs.Showing

/-!
Writing the demo where there may be too little room.  A sheet takes a text in the same way however
it is cut into pieces, so the demo is written whole or up to where the room ends.
-/

namespace PetClient.Demo

namespace Sheet

/-- What stands on a sheet in the end, whether or not it has become full. -/
def held : Except Sheet Sheet → List Char
  | .ok sheet => sheet.written
  | .error sheet => sheet.written

theorem put_unbounded (before text : List Char) :
    put ⟨before, none⟩ text = .ok ⟨before ++ text, none⟩ :=
  rfl

theorem put_of_le {before text : List Char} {room : Nat} (fits : text.length ≤ room) :
    put ⟨before, some room⟩ text = .ok ⟨before ++ text, some (room - text.length)⟩ := by
  unfold put
  simp only [if_pos fits, List.take_of_length_le fits]

theorem put_of_lt {before text : List Char} {room : Nat} (tooLong : room < text.length) :
    put ⟨before, some room⟩ text = .error ⟨before ++ text.take room, some 0⟩ := by
  have none_left : room - text.length = 0 := by omega
  unfold put
  simp only [if_neg (Nat.not_le.2 tooLong), none_left]

theorem put_nil (sheet : Sheet) : sheet.put [] = .ok sheet := by
  obtain ⟨before, room⟩ := sheet
  cases room with
  | none => rw [put_unbounded, List.append_nil]
  | some room => rw [put_of_le (Nat.zero_le room), List.append_nil, List.length_nil, Nat.sub_zero]

/-- What does not fit leaves the sheet as full as the text up to there: nothing is written behind
it. -/
theorem put_append (sheet : Sheet) (first second : List Char) :
    ((sheet.put first).bind fun next => next.put second) = sheet.put (first ++ second) := by
  obtain ⟨before, room⟩ := sheet
  cases room with
  | none =>
    rw [put_unbounded, put_unbounded, ← List.append_assoc]
    rfl
  | some room =>
    have length : (first ++ second).length = first.length + second.length := List.length_append
    by_cases fits : first.length ≤ room
    · rw [put_of_le fits]
      change put ⟨before ++ first, some (room - first.length)⟩ second = _
      by_cases both : second.length ≤ room - first.length
      · have whole : (first ++ second).length ≤ room := by omega
        rw [put_of_le both, put_of_le whole, List.append_assoc, length, Nat.sub_sub]
      · have whole : room < (first ++ second).length := by omega
        have cut : (first ++ second).take room = first ++ second.take (room - first.length) := by
          rw [List.take_append, List.take_of_length_le fits]
        rw [put_of_lt (Nat.not_le.1 both), put_of_lt whole, cut, List.append_assoc]
    · have whole : room < (first ++ second).length := by omega
      have cut : (first ++ second).take room = first.take room :=
        List.take_append_of_le_length (by omega)
      rw [put_of_lt (Nat.not_le.1 fits), put_of_lt whole, cut]
      rfl

theorem putAll_eq_put_flatten (sheet : Sheet) (texts : List (List Char)) :
    sheet.putAll texts = sheet.put texts.flatten := by
  induction texts generalizing sheet with
  | nil => exact (put_nil sheet).symm
  | cons text texts ih =>
    rw [List.flatten_cons, ← put_append]
    change ((sheet.put text).bind fun next => next.putAll texts) = _
    simp only [ih]

theorem put_eq_ok_iff {before text : List Char} {room : Nat} :
    (∃ sheet, put ⟨before, some room⟩ text = .ok sheet) ↔ text.length ≤ room := by
  constructor
  · rintro ⟨sheet, done⟩
    by_contra tooLong
    rw [put_of_lt (Nat.not_le.1 tooLong)] at done
    cases done
  · exact fun fits => ⟨_, put_of_le fits⟩

theorem held_put (before text : List Char) (room : Nat) :
    held (put ⟨before, some room⟩ text) = before ++ text.take room := by
  by_cases fits : text.length ≤ room
  · rw [put_of_le fits, List.take_of_length_le fits]
    rfl
  · rw [put_of_lt (Nat.not_le.1 fits)]
    rfl

end Sheet

theorem write_eq_put (sheet : Sheet) (config : Config) (options : Options) :
    write sheet config options = sheet.put (render config options).toList := by
  unfold write render
  rw [Sheet.putAll_eq_put_flatten, String.toList_ofList]

/-- The demo is added to what has been written as the text that it renders.  Where there is room for
a number of characters only, it is written if and only if that text has no more of them, and the
sheet holds as much of the text as there was room for; the same comes of the text in whatever pieces
it is written. -/
theorem writes_up_to_the_room (config : Config) (options : Options) (before : List Char) :
    write ⟨before, none⟩ config options =
        .ok ⟨before ++ (render config options).toList, none⟩ ∧
      ∀ room : Nat,
        ((∃ sheet, write ⟨before, some room⟩ config options = .ok sheet) ↔
          (render config options).toList.length ≤ room) ∧
        Sheet.held (write ⟨before, some room⟩ config options) =
          before ++ (render config options).toList.take room ∧
        ∀ texts : List (List Char), texts.flatten = (render config options).toList →
          Sheet.putAll ⟨before, some room⟩ texts = write ⟨before, some room⟩ config options := by
  refine ⟨write_eq_put _ config options, fun room => ⟨?_, ?_, fun texts same => ?_⟩⟩
  · rw [write_eq_put]
    exact Sheet.put_eq_ok_iff
  · rw [write_eq_put, Sheet.held_put]
  · rw [write_eq_put, Sheet.putAll_eq_put_flatten, same]

/-- Where the room ends within the title, the title is what is written, piece by piece or at once. -/
theorem writes_up_to_the_room_title :
    Sheet.held (Sheet.putAll ⟨['>', ' '], some 12⟩
        [(render { baseUrl := "http://pets.test" } { style := .rust, generator := "g" }).toList]) =
      "> Petstore API".toList := by
  obtain ⟨-, bounded⟩ := writes_up_to_the_room { baseUrl := "http://pets.test" }
    { style := .rust, generator := "g" } ['>', ' ']
  obtain ⟨-, holds, same⟩ := bounded 12
  rw [same _ (List.append_nil _), holds, toList_render, List.take_append_of_le_length (by cbv)]
  cbv

end PetClient.Demo
